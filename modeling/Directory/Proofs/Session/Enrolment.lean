import Directory.Proofs.Request.Lines
import Directory.Proofs.Session.Move

/-!
# The roster is the handlers that run

Requests are put on the roster when they are handed over and are taken off by guards. What the
roster should hold can be read off the requests alone: one registration for every handler that runs,
in the order in which the requests were handed over (`Session.registrations`). `Enrolled` says that
it holds just these and that every guard keeps its own request registered; every move keeps that.

A run shows when handlers come to their end, so what the roster holds can be read off the run too: a
handler has come to its end as often as a step of the run has ended it (`countP_ends`), which is
once or not at all.
-/

namespace Directory.Session

def Action.ends (request : Nat) : Action → Bool
  | .handler r .return | .handler r .panic => r == request
  | _ => false

/-- The requests that were handed over and whose handlers no step of a run has ended. -/
def unfinished (actions : List Action) (s : Session) : List Nat :=
  (List.range s.requests.length).filter fun r => !actions.any (Action.ends r)

/-- What stands on the roster for a request: nothing once its handler has come to its end. -/
def registration? (s : Session) (request : Nat) : Option Registration :=
  s.requests[request]?.bind fun i =>
    if i.progress = .running then some (i.message.id, request) else none

def registrations (s : Session) : List Registration :=
  (List.range s.requests.length).filterMap s.registration?

/-- Every request has a cancellation and a guard of its own, and the roster holds those whose
handlers run. -/
structure Enrolled (s : Session) : Prop where
  cancellations : s.cancellations.length = s.requests.length
  guards : s.roster.guards = (List.range s.requests.length).map s.registration?
  roster : s.roster.roster.Lists s.registrations

variable {s s' : Session} {a : Action} {r : Nat}

/-! ## Entries -/

theorem registration?_of_running {i : Invocation} (hi : s.requests[r]? = some i)
    (hrun : i.progress = .running) : s.registration? r = some (i.message.id, r) := by
  rw [registration?, hi, Option.bind_some, if_pos hrun]

theorem registration?_eq_some {x : Registration} (h : s.registration? r = some x) :
    x.2 = r ∧ ∃ i, s.requests[r]? = some i ∧ i.progress = .running ∧ x.1 = i.message.id := by
  obtain ⟨i, hi, hx⟩ := Option.bind_eq_some_iff.mp h
  obtain ⟨hrun, hx⟩ := Option.ite_none_right_eq_some.mp hx
  cases hx
  exact ⟨rfl, i, hi, hrun, rfl⟩

theorem registrations_eq_nil (h : s.handlersDone = true) : s.registrations = [] := by
  rw [registrations, List.filterMap_eq_nil_iff]
  intro r _
  cases hentry : s.registration? r with
  | none => rfl
  | some x =>
      obtain ⟨-, i, hi, hrun, -⟩ := registration?_eq_some hentry
      have hdone := List.all_eq_true.mp h i (List.mem_of_getElem? hi)
      exact absurd hrun (of_decide_eq_true hdone)

theorem key_of_mem_registrations {x : Registration} (hx : x ∈ s.registrations) {i : Invocation}
    (hi : s.requests[x.2]? = some i) : x.1 = i.message.id := by
  obtain ⟨q, -, hq⟩ := List.mem_filterMap.mp hx
  obtain ⟨rfl, j, hj, -, hid⟩ := registration?_eq_some hq
  cases hi.symm.trans hj
  exact hid

theorem registration?_congr (h : s'.requests[r]?.map (fun i => (i.message.id, i.progress)) =
    s.requests[r]?.map fun i => (i.message.id, i.progress)) :
    s'.registration? r = s.registration? r := by
  unfold registration?
  cases hs : s.requests[r]? with
  | none =>
      rw [hs] at h
      rw [Option.map_eq_none_iff.mp h]
  | some i =>
      rw [hs] at h
      obtain ⟨j, hj, hij⟩ := Option.map_eq_some_iff.mp h
      obtain ⟨hid, hprogress⟩ := Prod.mk.inj hij
      rw [hj, Option.bind_some, Option.bind_some, hid, hprogress]

/-! ## What a move does to them -/

namespace Enrolled

/-- Every guard keeps the entry of its own request registered. -/
theorem guarded?_eq (h : s.Enrolled) (r : Nat) : s.roster.guarded? r = s.registration? r := by
  rw [SharedRoster.guarded?, h.guards, List.getD_eq_getElem?_getD, List.getElem?_map]
  by_cases hlt : r < s.requests.length
  · rw [List.getElem?_range hlt]
    rfl
  · rw [List.getElem?_eq_none (by rw [List.length_range]; exact Nat.le_of_not_lt hlt), registration?,
      List.getElem?_eq_none (Nat.le_of_not_lt hlt)]
    rfl

theorem frame (h : s.Enrolled) (hlength : s'.requests.length = s.requests.length)
    (hentry : ∀ r, s'.registration? r = s.registration? r)
    (hguards : s'.roster.guards = s.roster.guards) (hroster : s'.roster.roster = s.roster.roster)
    (hc : s'.cancellations.length = s.cancellations.length) : s'.Enrolled := by
  have hentries : s'.registration? = s.registration? := funext hentry
  refine ⟨by rw [hc, hlength, h.cancellations], ?_, ?_⟩
  · rw [hguards, hlength, hentries]
    exact h.guards
  · rw [hroster, registrations, hlength, hentries]
    exact h.roster

theorem invoke (h : s.Enrolled) {m : Message} {raw : Octets} {c : Channel}
    (hr : s'.requests = s.requests ++ [{ message := m, raw, channel := c }])
    (hroster : s'.roster = s.roster.register m.id s.requests.length)
    (hc : s'.cancellations = s.cancellations ++ [({} : Cancellation)]) : s'.Enrolled := by
  have hlength : s'.requests.length = s.requests.length + 1 := by
    rw [hr, List.length_append]
    rfl
  have hold : ∀ r ∈ List.range s.requests.length, s'.registration? r = s.registration? r := by
    intro r hr'
    apply registration?_congr
    rw [hr, List.getElem?_append_left (List.mem_range.mp hr')]
  have hnew : s'.registration? s.requests.length = some (m.id, s.requests.length) := by
    refine registration?_of_running (i := { message := m, raw, channel := c }) ?_ rfl
    rw [hr, List.getElem?_concat_length]
  refine ⟨?_, ?_, ?_⟩
  · rw [hc, hlength, List.length_append, h.cancellations]
    rfl
  · rw [hroster, hlength, List.range_succ, List.map_append, List.map_congr_left hold, ← h.guards,
      List.map_singleton, hnew]
    rfl
  · have hregistrations : s'.registrations = s.registrations ++ [(m.id, s.requests.length)] := by
      rw [registrations, hlength, List.range_succ, List.filterMap_append,
        List.filterMap_congr hold, List.filterMap_cons_some hnew]
      rfl
    rw [hroster, hregistrations]
    exact h.roster.register m.id s.requests.length

theorem finish (h : s.Enrolled) {i : Invocation} (hi : s.requests[r]? = some i)
    (hrun : i.progress = .running) {progress : Progress} (hp : progress ≠ .running) :
    (s.finish r progress).Enrolled := by
  have hlt : r < s.requests.length := (List.getElem?_eq_some_iff.mp hi).1
  have hlength : (s.finish r progress).requests.length = s.requests.length :=
    List.length_modify ..
  have hself : (s.finish r progress).registration? r = none := by
    show ((s.requests.modify r fun i => { i with progress })[r]?).bind _ = none
    rw [List.getElem?_modify, hi]
    simp [hp]
  have hother {q : Nat} (hq : q ≠ r) :
      (s.finish r progress).registration? q = s.registration? q := by
    apply registration?_congr
    show (s.requests.modify r fun i => { i with progress })[q]?.map _ = _
    rw [List.getElem?_modify]
    simp [Ne.symm hq]
  have hguard : s.roster.guarded? r = some (i.message.id, r) :=
    (h.guarded?_eq r).trans (registration?_of_running hi hrun)
  have hroster : (s.finish r progress).roster = { s.roster with
      roster := s.roster.roster.unregister i.message.id r
      guards := s.roster.guards.set r none } := by
    show s.roster.release r = _
    rw [SharedRoster.release, hguard]
  refine ⟨h.cancellations.trans hlength.symm, ?_, ?_⟩
  · rw [hroster, hlength, h.guards]
    apply List.ext_getElem?
    intro q
    rw [List.getElem?_set, List.length_map, List.length_range, List.getElem?_map, List.getElem?_map]
    by_cases hq : r = q
    · subst hq
      rw [if_pos rfl, if_pos hlt, List.getElem?_range hlt, Option.map_some, hself]
    · rw [if_neg hq]
      cases hrange : (List.range s.requests.length)[q]? with
      | none => rfl
      | some found =>
          obtain ⟨_, rfl⟩ := List.getElem?_eq_some_iff.mp hrange
          rw [List.getElem_range, Option.map_some, Option.map_some, hother (Ne.symm hq)]
  · have hregistrations :
        (s.finish r progress).registrations = s.registrations.filter (·.2 ≠ r) := by
      rw [registrations, registrations, hlength, List.filter_filterMap]
      apply List.filterMap_congr
      intro q _
      by_cases hq : q = r
      · subst hq
        rw [hself, registration?_of_running hi hrun]
        simp [Option.filter]
      · rw [hother hq]
        cases hentry : s.registration? q with
        | none => rfl
        | some x =>
            obtain ⟨rfl, -⟩ := registration?_eq_some hentry
            simp [Option.filter, hq]
    rw [hroster, hregistrations]
    refine h.roster.unregister ?_
    rintro x hx rfl
    exact key_of_mem_registrations hx hi

/-- **Every move keeps the roster.** -/
theorem move (h : s.Enrolled) (hm : Move s a s') : s'.Enrolled := by
  cases hm with
  | abandonRequest hi =>
      refine h.frame rfl (fun _ => rfl) rfl rfl ?_
      show ((s.roster.abandon _ s.cancellations).getD s.cancellations).length = _
      unfold SharedRoster.abandon Roster.abandon
      split
      · cases s.roster.roster.latest? _ with
        | none => rfl
        | some request => exact Cancellations.length_post ..
      · rfl
  | popReason hi => exact h.frame rfl (fun _ => rfl) rfl rfl (List.length_modify ..)
  | @agree request i hi =>
      refine h.frame (List.length_modify ..) (fun q => registration?_congr ?_) rfl rfl rfl
      show (s.requests.modify request fun i => { i with startTlsAccepted := true })[q]?.map _ = _
      rw [List.getElem?_modify]
      cases s.requests[q]? with
      | none => rfl
      | some j => by_cases hq : request = q <;> simp [hq]
  | handlerReturns hi hrun => exact h.finish hi hrun nofun
  | handlerPanics hi hrun => exact h.finish hi hrun nofun
  | startTls hc => exact h.invoke rfl rfl rfl
  | dispatch hc => exact h.invoke rfl rfl rfl
  | sweep hp => exact h.frame rfl (fun _ => rfl) rfl rfl (Cancellations.length_postAll ..)
  | _ => exact h.frame rfl (fun _ => rfl) rfl rfl rfl

theorem start {options : Options} {info : SessionInfo} {stopping : Bool}
    (h : start? options info stopping = some s) : s.Enrolled := by
  obtain ⟨-, rfl⟩ := start?_eq_some h
  exact ⟨rfl, rfl, List.nodup_nil, nofun, fun _ => rfl⟩

theorem run {options : Options} {info : SessionInfo} {stopping : Bool} {s₀ : Session}
    {actions : List Action} (h₀ : start? options info stopping = some s₀)
    (h : s₀.run? actions = some s) : s.Enrolled :=
  run?_induction (motive := fun _ s => s.Enrolled) (start h₀) (fun _ hmid hm => hmid.move hm) h

end Enrolled

/-! ## When handlers come to their end -/

def hasEnded (s : Session) (request : Nat) : Bool :=
  s.requests[request]?.any (·.progress ≠ .running)

theorem hasEnded_finish {i : Invocation} (hi : s.requests[r]? = some i)
    (hrun : i.progress = .running) (progress : Progress) (hp : progress ≠ .running) (q : Nat) :
    ((s.finish r progress).hasEnded q).toNat = (s.hasEnded q).toNat + (r == q).toNat := by
  unfold hasEnded
  show ((s.requests.modify r fun i => { i with progress })[q]?.any _).toNat = _
  rw [List.getElem?_modify]
  by_cases hq : r = q
  · subst hq
    simp [hi, hrun, hp]
  · have hne : (r == q) = false := beq_eq_false_iff_ne.mpr hq
    simp [hq, hne]

theorem hasEnded_of_move (hm : Move s a s') (q : Nat) :
    (s'.hasEnded q).toNat = (s.hasEnded q).toNat + (a.ends q).toNat := by
  -- A request that is handed over has a handler that runs.
  have hinvoke {m : Message} {raw : Octets} {c : Channel}
      (hr : s'.requests = s.requests ++ [{ message := m, raw, channel := c }]) :
      s'.hasEnded q = s.hasEnded q := by
    rw [hasEnded, hasEnded, hr]
    by_cases hq : q < s.requests.length
    · rw [List.getElem?_append_left hq]
    · rw [List.getElem?_append_right (Nat.le_of_not_lt hq),
        List.getElem?_eq_none (Nat.le_of_not_lt hq)]
      cases hsub : q - s.requests.length with
      | zero => rfl
      | succ n => rfl
  cases hm with
  | @agree request i hi =>
      unfold hasEnded
      show ((s.requests.modify request fun i => { i with startTlsAccepted := true })[q]?.any
        _).toNat = _
      rw [List.getElem?_modify]
      cases s.requests[q]? with
      | none => rfl
      | some j => by_cases hq : request = q <;> simp [hq] <;> rfl
  | handlerReturns hi hrun => exact hasEnded_finish hi hrun .returned nofun q
  | handlerPanics hi hrun => exact hasEnded_finish hi hrun .panicked nofun q
  | startTls hc => exact congrArg Bool.toNat (hinvoke rfl)
  | dispatch hc => exact congrArg Bool.toNat (hinvoke rfl)
  | _ => rfl

/-- **Steps of the run end a handler once, or not at all.** -/
theorem countP_ends {options : Options} {info : SessionInfo} {stopping : Bool} {s₀ : Session}
    {actions : List Action} (h₀ : start? options info stopping = some s₀)
    (h : s₀.run? actions = some s) (q : Nat) :
    actions.countP (Action.ends q) = (s.hasEnded q).toNat := by
  refine run?_induction (motive := fun actions s =>
    actions.countP (Action.ends q) = (s.hasEnded q).toNat) ?_ ?_ h
  · obtain ⟨-, rfl⟩ := start?_eq_some h₀
    rfl
  · intro actions mid a next _ hmid hm
    rw [List.countP_append, hmid, hasEnded_of_move hm, List.countP_singleton]
    cases a.ends q <;> rfl

theorem any_ends {options : Options} {info : SessionInfo} {stopping : Bool} {s₀ : Session}
    {actions : List Action} (h₀ : start? options info stopping = some s₀)
    (h : s₀.run? actions = some s) (q : Nat) : actions.any (Action.ends q) = s.hasEnded q := by
  have hcount := countP_ends h₀ h q
  cases hended : s.hasEnded q with
  | false =>
      rw [hended] at hcount
      apply eq_false_of_ne_true
      intro hany
      obtain ⟨a, hmem, ha⟩ := List.any_eq_true.mp hany
      exact List.countP_eq_zero.mp hcount a hmem ha
  | true =>
      rw [hended] at hcount
      obtain ⟨a, hmem, ha⟩ := List.countP_pos_iff.mp (Nat.lt_of_sub_eq_succ hcount)
      exact List.any_eq_true.mpr ⟨a, hmem, ha⟩

/-! ## The registrations read off a run -/

/-- The entry of a request that was handed over. -/
theorem registration?_eq {i : Invocation} (hi : s.requests[r]? = some i) :
    s.registration? r = if s.hasEnded r then none else some (i.message.id, r) := by
  rw [registration?, hasEnded, hi]
  by_cases hrun : i.progress = .running <;> simp [hrun]

theorem map_registrations {actions : List Action}
    (hended : ∀ q, actions.any (Action.ends q) = s.hasEnded q) :
    s.registrations.map (·.2) = unfinished actions s := by
  rw [registrations, List.map_filterMap, unfinished, ← List.filterMap_eq_filter]
  apply List.filterMap_congr
  intro q hq
  rw [registration?_eq (List.getElem?_eq_getElem (List.mem_range.mp hq)), Option.guard, hended]
  cases s.hasEnded q <;> rfl

theorem under_registrations {actions : List Action}
    (hended : ∀ q, actions.any (Action.ends q) = s.hasEnded q) (id : MessageId) :
    Registration.under id s.registrations =
      (unfinished actions s).filter fun q => s.requests[q]?.any (·.message.id = id) := by
  rw [Registration.under, ← map_registrations hended, List.filter_map]
  congr 1
  apply List.filter_congr
  intro x hx
  obtain ⟨q, -, hq⟩ := List.mem_filterMap.mp hx
  obtain ⟨rfl, i, hi, -, hid⟩ := registration?_eq_some hq
  simp [hi, hid]

end Directory.Session
