import Directory.Proofs.Request.Posting
import Directory.Proofs.Session.Enrolment
import Directory.Proofs.Session.Upgrade

/-!
# Every running request is asked to stop

The sweep of a session that closes down goes over the roster, and the roster holds the requests
whose handlers run (`Enrolled`). So the sweep posts to each of these once and to no other request,
none begins later (`Asked`), and nothing is left on the roster when the item that closes the outbox
is offered (`KeepsTrack`).
-/

namespace Directory

namespace Session

variable {s s' : Session} {a : Action}

def Runs (s : Session) (request : Nat) : Prop :=
  ∃ i, s.requests[request]? = some i ∧ i.progress = .running

/-- Every request has a cancellation and a guard of its own, and is on the roster while its handler
runs. -/
structure Listed (s : Session) : Prop where
  cancellations : s.cancellations.length = s.requests.length
  guards : s.roster.guards.length = s.requests.length
  guarded : ∀ {guard id request}, s.roster.guarded? guard = some (id, request) → request = guard
  listed : ∀ {request}, s.Runs request → request ∈ s.roster.roster.members

def Phase.hasSwept : Phase → Bool
  | .closing .silencing | .closing .interrupting | .closing .sweeping => false
  | .closing _ | .closed => true
  | _ => false

def Asked (s : Session) : Prop :=
  s.phase.hasSwept = true → ∀ {request}, s.Runs request → s.cancellations.isRaised request = true

theorem runs_modify {q r : Nat} {f : Invocation → Invocation}
    (hs : s'.requests = s.requests.modify q f)
    (hf : ∀ i, (f i).progress = .running → i.progress = .running) (h : s'.Runs r) : s.Runs r := by
  obtain ⟨i, hi, hrun⟩ := h
  rw [hs, List.getElem?_modify] at hi
  obtain ⟨j, hj, rfl⟩ := Option.map_eq_some_iff.mp hi
  refine ⟨j, hj, ?_⟩
  split at hrun
  · exact hf j hrun
  · exact hrun

theorem Enrolled.listed (h : s.Enrolled) : s.Listed where
  cancellations := h.cancellations
  guards := by rw [h.guards, List.length_map, List.length_range]
  guarded := by
    intro guard id request hguard
    rw [h.guarded?_eq] at hguard
    exact (registration?_eq_some hguard).1
  listed := by
    rintro request ⟨i, hi, hrun⟩
    have hlt := (List.getElem?_eq_some_iff.mp hi).1
    have hmem : (i.message.id, request) ∈ s.registrations :=
      List.mem_filterMap.mpr ⟨request, List.mem_range.mpr hlt, registration?_of_running hi hrun⟩
    exact h.roster.members_perm.mem_iff.mpr (List.mem_map_of_mem hmem)

theorem isRaised_of_move (hm : Move s a s') {request : Nat}
    (h : s.cancellations.isRaised request = true) : s'.cancellations.isRaised request = true := by
  cases hm with
  | @abandonRequest r i id hi =>
      show ((s.roster.abandon _ s.cancellations).getD s.cancellations).isRaised _ = true
      unfold SharedRoster.abandon Roster.abandon
      split
      · cases s.roster.roster.latest? id with
        | none => exact h
        | some other => exact Cancellations.isRaised_post _ h
      · exact h
  | popReason hi => exact Cancellations.isRaised_modify (fun _ => id) h
  | startTls hc => exact Cancellations.isRaised_append _ h
  | dispatch hc => exact Cancellations.isRaised_append _ h
  | sweep hp => exact Cancellations.isRaised_postAll _ _ h
  | _ => exact h

/-- Handlers begin in the phase of reading only. -/
theorem runs_of_move (hm : Move s a s') (hp : s.phase ≠ .reading) {request : Nat}
    (h : s'.Runs request) : s.Runs request := by
  cases hm with
  | agree hi =>
      exact runs_modify (f := fun i => { i with startTlsAccepted := true }) rfl (fun _ => id) h
  | handlerReturns hi hrun =>
      exact runs_modify (f := fun i => { i with progress := .returned }) rfl nofun h
  | handlerPanics hi hrun =>
      exact runs_modify (f := fun i => { i with progress := .panicked }) rfl nofun h
  | startTls hc => exact absurd hc.reading hp
  | dispatch hc => exact absurd hc.reading hp
  | _ => exact h

/-- There is one place from which a session comes to the phases behind the sweep. -/
theorem hasSwept_of_move (hm : Move s a s') (hswept : s'.phase.hasSwept = true) :
    s.phase.hasSwept = true ∨ s.phase = .closing .sweeping ∧
      s'.requests = s.requests ∧
      s'.cancellations = s.roster.roster.cancelAll .sessionClosing s.cancellations := by
  cases hm with
  | sweep hp => exact .inr ⟨hp, rfl, rfl⟩
  | join hp => exact .inl (hp ▸ rfl)
  | closeQueued hp => exact .inl (hp ▸ rfl)
  | closeOffered hp => exact .inl (hp ▸ rfl)
  | closeRefused hp => exact .inl (hp ▸ rfl)
  | closeAdmitted hp => exact .inl (hp ▸ rfl)
  | drained hp => exact .inl (hp ▸ rfl)
  | hangUp hp => exact .inl (hp ▸ rfl)
  -- All other moves leave the phase as it is, or lead to one ahead of the sweep.
  | _ => first | exact .inl hswept | cases hswept

theorem Asked.move (h : s.Asked) (hl : s.Listed) (hm : Move s a s') : s'.Asked := by
  intro hswept request hrun
  rcases hasSwept_of_move hm hswept with hbefore | ⟨hp, hrequests, hcancellations⟩
  · have hne : s.phase ≠ .reading := by
      intro hp
      rw [hp] at hbefore
      cases hbefore
    exact isRaised_of_move hm (h hbefore (runs_of_move hm hne hrun))
  · rw [Runs, hrequests] at hrun
    obtain ⟨i, hi, -⟩ := id hrun
    obtain ⟨hlt, -⟩ := List.getElem?_eq_some_iff.mp hi
    rw [hcancellations]
    exact Cancellations.isRaised_postAll_of_mem _ (hl.listed hrun) (hl.cancellations ▸ hlt)

theorem Asked.run {options : Options} {info : SessionInfo} {stopping : Bool} {s₀ : Session}
    {actions : List Action} (h₀ : start? options info stopping = some s₀)
    (h : s₀.run? actions = some s) : s.Asked := by
  refine run?_induction (motive := fun _ s => s.Asked) ?_ ?_ h
  · obtain ⟨-, rfl⟩ := start?_eq_some h₀
    exact nofun
  · exact fun hmid hasked hm => hasked.move (Enrolled.run h₀ hmid).listed hm

/-! ## The promise -/

/-- What the sweep does to a session in which these requests are in flight, and all that it does. -/
structure Swept (asked : List Nat) (s s' : Session) : Prop where
  counted : s.roster.roster.size = asked.length
  posted : ∀ r, s'.cancellations[r]? =
    s.cancellations[r]?.map fun c => if r ∈ asked then c.post .sessionClosing else c
  raised : ∀ r ∈ asked, s'.cancellations.isRaised r = true
  reported : s'.events = s.events ++ if asked = [] then [] else [.swept asked.length]
  rest : s' = { s with
    cancellations := s'.cancellations, events := s'.events, phase := .closing .joining }

/-- What is promised of the roster of a session after a run. -/
structure KeepsTrack (actions : List Action) (s : Session) : Prop where
  /-- The line of an identifier has the requests under it that were handed over and not ended in the
  run, in the order in which they were handed over. -/
  line : ∀ id, s.roster.roster.line id =
    (unfinished actions s).filter fun r => s.requests[r]?.any (·.message.id = id)
  members : s.roster.roster.members.Perm (unfinished actions s)
  once : ∀ r, actions.countP (Action.ends r) ≤ 1
  /-- Whoever acts for a request finds it on the roster, unless its handler has ended. -/
  acts : ∀ {r deed s'}, s.step? (.handler r deed) = some s' →
    r ∈ s.roster.roster.members ∨ actions.any (Action.ends r) = true
  /-- A request leaves the roster when its handler ends, and in no other way. -/
  leaves : ∀ {a s' r}, s.step? a = some s' → r ∈ s.roster.roster.members →
    (r ∉ s'.roster.roster.members ↔ a.ends r = true)
  sweeps : s.phase = .closing .sweeping →
    ∃ s', s.step? .close = some s' ∧ Swept (unfinished actions s) s s'
  /-- After the sweep nothing is put on the roster. -/
  still : s.phase.hasSwept = true → ∀ {more s'}, s.run? more = some s' →
    s'.requests.length = s.requests.length ∧
      s'.roster.roster.members ⊆ s.roster.roster.members
  /-- The closing item is offered to an outbox whose session has nothing in flight. -/
  sealing : ∀ {a s'}, s.step? a = some s' → s.closings < s'.closings → s.roster.roster.lines = []
  empty : 0 < s.closings → s.roster.roster.lines = []

theorem mem_unfinished {actions : List Action} {r : Nat} : r ∈ unfinished actions s ↔
    r < s.requests.length ∧ actions.any (Action.ends r) = false := by
  rw [unfinished, List.mem_filter, List.mem_range, Bool.not_eq_true']

theorem nodup_unfinished (actions : List Action) (s : Session) : (unfinished actions s).Nodup :=
  List.nodup_range.filter _

theorem length_requests_of_move (hm : Move s a s') : s.requests.length ≤ s'.requests.length := by
  rw [← length_letters, ← length_letters]
  rcases letters_of_move hm with heq | ⟨_, _, _, _, _, _, heq, -⟩
  · rw [heq]
  · rw [heq, List.length_append]
    exact Nat.le_add_right _ _

theorem length_requests_of_run {more : List Action} (hover : s.phase.isOver = true)
    (hrun : s.run? more = some s') : s'.requests.length = s.requests.length := by
  have hkept : s'.phase.isOver = true ∧ s'.letters = s.letters := by
    refine run?_induction (motive := fun _ t => t.phase.isOver = true ∧ t.letters = s.letters)
      ⟨hover, rfl⟩ ?_ hrun
    rintro _ mid _ next - ⟨hmid, hletters⟩ hm
    refine ⟨isOver_of_move hm hmid, (letters_eq_of_move hm fun hreading => ?_).trans hletters⟩
    rw [hreading] at hmid
    cases hmid
  rw [← length_letters, ← length_letters, hkept.2]

theorem isOver_of_hasSwept {p : Phase} (h : p.hasSwept = true) : p.isOver = true := by
  cases p <;> first | rfl | cases h

namespace Enrolled

variable {actions : List Action} (h : s.Enrolled)
  (hended : ∀ q, actions.any (Action.ends q) = s.hasEnded q)

include h hended

theorem members_perm : s.roster.roster.members.Perm (unfinished actions s) :=
  map_registrations hended ▸ h.roster.members_perm

theorem line_eq (id : MessageId) : s.roster.roster.line id =
    (unfinished actions s).filter fun r => s.requests[r]?.any (·.message.id = id) :=
  (h.roster.line_eq id).trans (under_registrations hended id)

theorem size_eq : s.roster.roster.size = (unfinished actions s).length :=
  (h.members_perm hended).length_eq

theorem sweeps (hp : s.phase = .closing .sweeping) :
    ∃ s', s.step? .close = some s' ∧ Swept (unfinished actions s) s s' := by
  have hclose : s.step? .close = some { s.sweep with phase := .closing .joining } := by
    show s.close = _
    rw [close, hp]
  have hcancelled : s.roster.roster.cancelAll .sessionClosing s.cancellations =
      s.cancellations.postAll (unfinished actions s) .sessionClosing := by
    rw [h.roster.cancelAll_eq, map_registrations hended]
  refine ⟨_, hclose, ?_⟩
  rw [sweep_eq, hcancelled]
  refine ⟨h.size_eq hended, Cancellations.getElem?_postAll _ (nodup_unfinished ..), ?_, ?_, rfl⟩
  · intro r hr
    have hlt := (mem_unfinished.mp hr).1
    exact Cancellations.isRaised_postAll_of_mem _ hr (h.cancellations ▸ hlt)
  · show s.events ++ s.sweepReport = _
    rw [sweepReport, h.size_eq hended]
    cases unfinished actions s <;> rfl

end Enrolled

/-- **The roster has what is in flight.** Whatever handlers, clients and the closing down do in
whatever order, and however identifiers repeat, the roster holds each request from the step in which
it is handed over to the step that ends its handler. So the sweep reaches all that is still in
flight, and the outbox is closed when nothing is. -/
theorem keepsTrack_of_run {options : Options} {info : SessionInfo} {stopping : Bool}
    {s₀ s : Session} {actions : List Action} (h₀ : start? options info stopping = some s₀)
    (hrun : s₀.run? actions = some s) : KeepsTrack actions s := by
  have h := Enrolled.run h₀ hrun
  have hended := any_ends h₀ hrun
  have hteardown := Teardown.run h₀ hrun
  have hmem {r : Nat} : r ∈ s.roster.roster.members ↔ r ∈ unfinished actions s :=
    (h.members_perm hended).mem_iff
  constructor
  case line => exact h.line_eq hended
  case members => exact h.members_perm hended
  case once =>
    intro r
    rw [countP_ends h₀ hrun]
    exact Bool.toNat_le _
  case acts =>
    intro r deed s' hstep
    rw [hmem, mem_unfinished]
    have hlt : r < s.requests.length := by
      obtain ⟨i, hi, -⟩ := Option.bind_eq_some_iff.mp hstep
      exact (List.getElem?_eq_some_iff.mp hi).1
    cases hany : actions.any (Action.ends r) with
    | false => exact .inl ⟨hlt, rfl⟩
    | true => exact .inr rfl
  case leaves =>
    intro a s' r hstep hr
    have hrun' : s₀.run? (actions ++ [a]) = some s' := foldlM_concat_eq_some.mpr ⟨s, hrun, hstep⟩
    have hmem' := ((Enrolled.run h₀ hrun').members_perm (any_ends h₀ hrun')).mem_iff (a := r)
    obtain ⟨hlt, hany⟩ := mem_unfinished.mp (hmem.mp hr)
    have hlt' := Nat.lt_of_lt_of_le hlt (length_requests_of_move (move_of_step? hstep))
    rw [hmem', mem_unfinished, List.any_append, hany]
    simp [hlt']
  case sweeps => exact h.sweeps hended
  case still =>
    intro hswept more s' hmore
    have hlength := length_requests_of_run (isOver_of_hasSwept hswept) hmore
    refine ⟨hlength, fun r hr => ?_⟩
    have hrun' : s₀.run? (actions ++ more) = some s' :=
      foldlM_append_eq_some.mpr ⟨s, hrun, hmore⟩
    have hmem' := ((Enrolled.run h₀ hrun').members_perm (any_ends h₀ hrun')).mem_iff (a := r)
    obtain ⟨hlt, hany⟩ := mem_unfinished.mp (hmem'.mp hr)
    rw [List.any_append, Bool.or_eq_false_iff] at hany
    exact hmem.mpr (mem_unfinished.mpr ⟨hlength ▸ hlt, hany.1⟩)
  case sealing =>
    intro a s' hstep hlt
    obtain ⟨-, hdone, -⟩ := hteardown.last (move_of_step? hstep) hlt
    exact (registrations_eq_nil hdone ▸ h.roster).lines_eq_nil
  case empty =>
    intro hpos
    exact (registrations_eq_nil (hteardown.still hpos).1 ▸ h.roster).lines_eq_nil

/-- Three requests under one identifier, the last of them for encryption. One handler panics, one
returns, and the one that is left is abandoned by its client before the session closes down. -/
def crowdedActions : List Action :=
  [.receive (lateRequest.encode ++ lateRequest.encode), .read, .read,
    .receive (Message.encode { id := 7, op := .extendedRequest Message.startTlsName none }), .read,
    .handler 0 .panic, .handler 2 .return, .handler 1 (.abandon 7), .read, .endOfStream, .close,
    .close]

/-- The one request that is left is all that the sweep finds. -/
theorem keepsTrack_crowded : ∃ s₀ s,
    start? {} ⟨1, .short ⟨192, 0, 2, 1⟩ 40000, .short ⟨192, 0, 2, 2⟩ 389, false, {}⟩ false =
      some s₀ ∧
    s₀.run? crowdedActions = some s ∧ KeepsTrack crowdedActions s ∧ s.phase = .closing .sweeping ∧
    s.requests.length = 3 ∧ unfinished crowdedActions s = [1] ∧
    s.cancellations[1]?.map (·.pending) = some [.client] := by
  have hends : ((start? {} ⟨1, .short ⟨192, 0, 2, 1⟩ 40000, .short ⟨192, 0, 2, 2⟩ 389, false, {}⟩
      false).bind (·.run? crowdedActions)).any (fun s => s.phase = .closing .sweeping ∧
        s.requests.length = 3 ∧ unfinished crowdedActions s = [1] ∧
        s.cancellations[1]?.map (·.pending) = some [.client]) = true := by
    decide +kernel
  obtain ⟨s, hs, hend⟩ := (Option.any_eq_true _ _).mp hends
  obtain ⟨s₀, h₀, hrun⟩ := Option.bind_eq_some_iff.mp hs
  exact ⟨s₀, s, h₀, hrun, keepsTrack_of_run h₀ hrun, of_decide_eq_true hend⟩

end Session

end Directory
