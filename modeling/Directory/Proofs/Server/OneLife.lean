import Directory.Proofs.Server.Lifecycle

/-!
# What callers of a server can count on

Whatever is called at the same time, a server is started once and stopped once (`oneLife_of_run`). A
start that fails can be tried again, and a start that nothing can stand against succeeds: it does in
several steps what `Server.listen` does at once (`run?_listen`).
-/

namespace Directory.Server

variable {s s' : Server} {a : Action} {address : String} {options : Options} {encrypted : Bool}

/-! ## A start that nothing comes in between -/

/-- A step of a start hangs on other calls by the life of the server only. -/
theorem goOnStarting_calls (s : Server) (calls : List Call) (l : Listener) (bound : Bool)
    (stage : Starting) :
    ({ s with calls } : Server).goOnStarting l bound stage =
      (s.goOnStarting l bound stage).map fun (stage', s') => (stage', { s' with calls }) := by
  obtain ⟨life, handler, stopping, listeners, connections, calls'⟩ := s
  cases stage with
  | checking =>
      cases hc : l.options.check with
      | error cause => simp [goOnStarting, checkStart, hc]
      | ok _ => cases handler <;> simp [goOnStarting, checkStart, hc]
  | claiming => cases life <;> rfl
  | binding => rfl
  | committing => cases life <;> rfl
  | reverting => cases life <;> rfl
  | ended result => rfl

def withStart (s : Server) (calls : List Call) (l : Listener) (stage : Starting) : Server :=
  { s with calls := calls ++ [.start l stage] }

theorem run?_withStart {l : Listener} {bound : Bool} {stage stage' : Starting}
    (h : s.goOnStarting l bound stage = some (stage', s')) (calls : List Call) (steps : Nat) :
    (s.withStart calls l stage).run? (List.replicate (steps + 1) (.goOn calls.length bound)) =
      (s'.withStart calls l stage').run? (List.replicate steps (.goOn calls.length bound)) := by
  have hget : (calls ++ [Call.start l stage])[calls.length]? = some (.start l stage) := by simp
  have hset : (calls ++ [Call.start l stage]).set calls.length (.start l stage') =
      calls ++ [.start l stage'] := by simp
  have hstep : (s.withStart calls l stage).step? (.goOn calls.length bound) =
      some (s'.withStart calls l stage') := by
    simp only [step?, goOn, withStart, hget, Option.bind_eq_bind, Option.bind_some,
      goOnStarting_calls, h, Option.map_some, hset]
  rw [run?, List.replicate_succ, List.foldlM_cons, hstep]
  rfl

theorem claim_eq_ok (h : s.claim = .ok s') : s.life = .idle ∧ s' = { s with life := .starting } := by
  unfold claim at h
  cases hl : s.life with
  | idle =>
      rw [hl] at h
      cases h
      exact ⟨rfl, rfl⟩
  | _ =>
      rw [hl] at h
      cases h

def after (s : Server) (l : Listener) : Except ServerError Server → Server
  | .ok s' => s'.withStart s.calls l (.ended (.ok ()))
  | .error cause => s.withStart s.calls l (.ended (.error cause))

/-- **A start that nothing comes in between does what it does at once**, and one that fails leaves no
trace but its call. -/
theorem run?_listen (s : Server) (bindable : String → Bool) (address : String) (options : Options)
    (encrypted : Bool) :
    ∃ steps, s.run? (.callStart (addressOrDefault address encrypted) options encrypted ::
        List.replicate steps (.goOn s.calls.length (bindable (addressOrDefault address encrypted)))) =
      some (s.after { address := addressOrDefault address encrypted, options, encrypted }
        (s.listen bindable address options encrypted)) := by
  generalize hwanted : addressOrDefault address encrypted = wanted
  have hbegin (steps : Nat) (bound : Bool) : s.run? (.callStart wanted options encrypted ::
        List.replicate steps (.goOn s.calls.length bound)) =
      (s.withStart s.calls { address := wanted, options, encrypted } .checking).run?
        (List.replicate steps (.goOn s.calls.length bound)) := rfl
  generalize hl : ({ address := wanted, options, encrypted } : Listener) = l at hbegin ⊢
  -- By where it stops: at the check, at the claim, at the address, or with a listener.
  cases hcheck : s.checkStart options with
  | error cause =>
      have hchecks : s.goOnStarting l (bindable wanted) .checking =
          some (.ended (.error cause), s) := by
        simp [← hl, goOnStarting, hcheck]
      refine ⟨1, ?_⟩
      rw [hbegin, run?_withStart hchecks, listen, hcheck]
      rfl
  | ok _ =>
      have hchecks : s.goOnStarting l (bindable wanted) .checking = some (.claiming, s) := by
        simp [← hl, goOnStarting, hcheck]
      cases hclaim : s.claim with
      | error cause =>
          have hclaims : s.goOnStarting l (bindable wanted) .claiming =
              some (.ended (.error cause), s) := by
            simp [goOnStarting, hclaim]
          refine ⟨2, ?_⟩
          rw [hbegin, run?_withStart hchecks, run?_withStart hclaims, listen, hcheck, hclaim]
          rfl
      | ok claimed =>
          obtain ⟨hidle, rfl⟩ := claim_eq_ok hclaim
          have hclaims : s.goOnStarting l (bindable wanted) .claiming =
              some (.binding, { s with life := .starting }) := by
            simp [goOnStarting, hclaim]
          refine ⟨4, ?_⟩
          rw [hbegin, run?_withStart hchecks, run?_withStart hclaims, listen, hcheck, hclaim]
          simp only [hwanted]
          have hbinds (bound : Bool) :
              ({ s with life := .starting } : Server).goOnStarting l bound .binding =
                some (if bound then .committing else .reverting, { s with life := .starting }) := rfl
          have hreverts : ({ s with life := .starting } : Server).goOnStarting l false .reverting =
              some (.ended (.error (.bind l.address)), s) := by
            obtain ⟨life, handler, stopping, listeners, connections, calls⟩ := s
            cases hidle
            rfl
          subst hl
          cases bindable wanted with
          | false =>
              rw [run?_withStart (hbinds false), if_neg Bool.false_ne_true, run?_withStart hreverts]
              rfl
          | true =>
              rw [run?_withStart (hbinds true), if_pos rfl, run?_withStart rfl]
              rfl

/-! ## A start that nothing stands against -/

/-- Where a start is after a number of its steps, if it is valid, the server is its own and the address
can be bound. -/
def stageAfter : Nat → Starting
  | 0 => .checking
  | 1 => .claiming
  | 2 => .binding
  | 3 => .committing
  | _ => .ended (.ok ())

/-- A start that has taken some steps, with no other call that has gone on since it was made. -/
structure Alone (s : Server) (number : Nat) (l : Listener) (steps : Nat) : Prop where
  handler : s.handler = true
  call : s.calls[number]? = some (.start l (stageAfter steps))
  unclaimed : steps < 2 → s.life = .idle
  claimed : 2 ≤ steps → s.life ≠ .stopped

namespace Alone

variable {number steps : Nat} {l : Listener}

theorem goesOn (h : s.Alone number l steps) (hcheck : l.options.check = .ok ())
    (hm : Move s (.goOn number true) s') : s'.Alone number l (steps + 1) := by
  have hset (stage : Starting) : (s.calls.set number (.start l stage))[number]? =
      some (.start l stage) := by
    obtain ⟨hlt, -⟩ := List.getElem?_eq_some_iff.mp h.call
    rw [List.getElem?_set_self hlt]
  cases hm with
  | @start _ _ l' stage stage' next hc hs =>
      cases h.call.symm.trans hc
      match steps, h, hs with
      | 0, h, hs =>
          cases hs with
          | invalid hinvalid => cases hcheck.symm.trans hinvalid
          | noHandler _ hh => cases h.handler.symm.trans hh
          | checks => exact ⟨h.handler, hset _, fun _ => h.unclaimed (by decide), by omega⟩
      | 1, h, hs =>
          have hidle := h.unclaimed (by decide)
          cases hs with
          | claims => exact ⟨h.handler, hset _, by omega, nofun⟩
          | taken hl => simp [hidle] at hl
          | tooLate hl => cases hidle.symm.trans hl
      | 2, h, hs =>
          cases hs with
          | binds => exact ⟨h.handler, hset _, by omega, fun _ => h.claimed (by decide)⟩
      | 3, h, hs =>
          cases hs with
          | commits => exact ⟨h.handler, hset _, by omega, nofun⟩
          | overtaken hl => exact absurd hl (h.claimed (by decide))
      | steps + 4, h, hs => cases hs
  | marks hc => cases h.call.symm.trans hc
  | deaf hc => cases h.call.symm.trans hc
  | ends hc => cases h.call.symm.trans hc

/-- What happens besides leaves it where it is. -/
theorem waits (h : s.Alone number l steps) (ha : ∀ call bound, a ≠ .goOn call bound)
    (hm : Move s a s') : s'.Alone number l steps := by
  have hcall (c : Call) : (s.calls ++ [c])[number]? = some (.start l (stageAfter steps)) := by
    obtain ⟨hlt, -⟩ := List.getElem?_eq_some_iff.mp h.call
    rw [List.getElem?_append_left hlt]
    exact h.call
  cases hm with
  | registers => exact ⟨rfl, h.call, h.unclaimed, h.claimed⟩
  | callsStart => exact ⟨h.handler, hcall _, h.unclaimed, h.claimed⟩
  | callsStop => exact ⟨h.handler, hcall _, h.unclaimed, h.claimed⟩
  | accepts => exact ⟨h.handler, h.call, h.unclaimed, h.claimed⟩
  | endsListener => exact ⟨h.handler, h.call, h.unclaimed, h.claimed⟩
  | connection => exact ⟨h.handler, h.call, h.unclaimed, h.claimed⟩
  | _ => exact absurd rfl (ha _ _)

theorem isSome_step? (h : s.Alone number l steps) (hlt : steps < 4) :
    (s.step? (.goOn number true)).isSome := by
  have hgo : (s.goOnStarting l true (stageAfter steps)).isSome := by
    match steps, hlt with
    | 0, _ =>
        simp only [stageAfter, goOnStarting]
        split <;> rfl
    | 1, _ =>
        simp only [stageAfter, goOnStarting]
        split <;> rfl
    | 2, _ => rfl
    | 3, _ =>
        simp only [stageAfter, goOnStarting]
        split <;> rfl
  obtain ⟨next, hnext⟩ := Option.isSome_iff_exists.mp hgo
  simp [step?, goOn, h.call, hnext]

end Alone

/-- A valid start of a server that is idle and has a handler, if no other call goes on meanwhile. -/
theorem alone_of_run {actions : List Action} (hidle : s.life = .idle) (hhandler : s.handler = true)
    (hcheck : options.check = .ok ())
    (halone : ∀ call bound, .goOn call bound ∈ actions → call = s.calls.length ∧ bound = true)
    (hrun : s.run? (.callStart address options encrypted :: actions) = some s') :
    s'.Alone s.calls.length { address, options, encrypted }
      (actions.count (.goOn s.calls.length true)) := by
  have hbegin : (s.withStart s.calls { address, options, encrypted } .checking).Alone s.calls.length
      { address, options, encrypted } 0 :=
    ⟨hhandler, by simp [withStart, stageAfter], fun _ => hidle, by omega⟩
  have hrun' : (s.withStart s.calls { address, options, encrypted } .checking).run? actions =
      some s' := hrun
  refine foldlM_induction (motive := fun done s' =>
    (∀ a ∈ done, a ∈ actions) → s'.Alone s.calls.length { address, options, encrypted }
      (done.count (.goOn s.calls.length true))) (fun _ => hbegin) ?_ hrun' (fun _ => id)
  intro done mid a next hmid ih hstep hmem
  have h := ih fun a ha => hmem a (List.mem_append_left _ ha)
  have hm := move_of_step? hstep
  rw [List.count_append]
  by_cases ha : ∃ call bound, a = .goOn call bound
  · obtain ⟨call, bound, rfl⟩ := ha
    obtain ⟨rfl, rfl⟩ := halone call bound (hmem _ (List.mem_append_right _ List.mem_cons_self))
    rw [List.count_singleton_self]
    exact h.goesOn hcheck hm
  · have hother : ∀ call bound, a ≠ .goOn call bound := fun call bound heq => ha ⟨call, bound, heq⟩
    rw [List.count_singleton, if_neg (by simpa using hother _ _)]
    exact h.waits hother hm

/-! ## The whole -/

/-- What holds of a server in every state that it comes to. -/
structure OneLife (s : Server) : Prop where
  /-- One listener is spawned at most, and one start returns without an error. -/
  single : s.listeners.length ≤ 1 ∧ s.successes ≤ 1
  /-- The server is stopped from when a stop has marked it. -/
  stopped_iff : s.life = .stopped ↔ ∃ stage, .stop stage ∈ s.calls ∧ stage ≠ .marking
  /-- A stopped server stays so, and no listener is spawned any more. -/
  lasting : s.life = .stopped → ∀ actions s', s.run? actions = some s' →
    s'.life = .stopped ∧ s'.listeners.length = s.listeners.length
  /-- Once a stop has returned no listener is running and every connection is over, and so it is
  whatever happens later. -/
  final : .stop .ended ∈ s.calls → ∀ actions s', s.run? actions = some s' →
    (∀ l ∈ s'.listeners, l.running = false) ∧ s'.sessionCount = 0 ∧
      s'.listeners.length = s.listeners.length ∧ s'.connections.length = s.connections.length
  /-- A step that ends a start in an error changes nothing else, and at most takes its claim back. -/
  fails : ∀ call bound s' l cause, s.step? (.goOn call bound) = some s' →
    s'.calls[call]? = some (.start l (.ended (.error cause))) →
    s' = { s with life := s'.life, calls := s'.calls } ∧
      (s'.life = s.life ∨ s.life = .starting ∧ s'.life = .idle)
  /-- A start that nothing comes in between leaves the server as it was if it fails. -/
  undisturbed : ∀ bindable address options encrypted,
    ∃ steps, s.run? (.callStart (addressOrDefault address encrypted) options encrypted ::
        List.replicate steps (.goOn s.calls.length (bindable (addressOrDefault address encrypted)))) =
      some (s.after { address := addressOrDefault address encrypted, options, encrypted }
        (s.listen bindable address options encrypted))
  /-- A server that is not stopped, with no listener running and no claim held, is idle. -/
  idle : s.life ≠ .stopped → (∀ l ∈ s.listeners, l.running = false) → s.claims = 0 → s.life = .idle
  /-- A valid start of an idle server with a handler can take four steps and then has returned without
  an error, if its address can be bound and no other call goes on meanwhile. -/
  starts : s.life = .idle → s.handler = true → ∀ address options encrypted, options.check = .ok () →
    ∀ actions s', (∀ call bound, .goOn call bound ∈ actions → call = s.calls.length ∧ bound = true) →
    s.run? (.callStart address options encrypted :: actions) = some s' →
    s'.calls[s.calls.length]? = some (.start { address, options, encrypted }
        (stageAfter (actions.count (.goOn s.calls.length true)))) ∧
      (actions.count (.goOn s.calls.length true) < 4 →
        (s'.step? (.goOn s.calls.length true)).isSome)

theorem fails_of_move {i : Nat} {bound : Bool} {l : Listener} {cause : ServerError}
    (hm : Move s (.goOn i bound) s') (hc : s'.calls[i]? = some (.start l (.ended (.error cause)))) :
    s' = { s with life := s'.life, calls := s'.calls } ∧
      (s'.life = s.life ∨ s.life = .starting ∧ s'.life = .idle) := by
  have hset {c c' d : Call} (hget : s.calls[i]? = some d) (h : (s.calls.set i c)[i]? = some c') :
      c = c' := by
    obtain ⟨hlt, -⟩ := List.getElem?_eq_some_iff.mp hget
    rw [List.getElem?_set_self hlt] at h
    exact Option.some.inj h
  cases hm with
  | start hget hs =>
      cases hs with
      | reverts hl => exact ⟨rfl, .inr ⟨hl, rfl⟩⟩
      | commits => cases hset hget hc
      | claims => cases hset hget hc
      | _ => exact ⟨rfl, .inl rfl⟩
  | marks hget => cases hset hget hc
  | deaf => exact ⟨rfl, .inl rfl⟩
  | ends => exact ⟨rfl, .inl rfl⟩

namespace Lifecycle

theorem lasting (h : s.life = .stopped) {actions : List Action} (hrun : s.run? actions = some s') :
    s'.life = .stopped ∧ s'.listeners.length = s.listeners.length := by
  refine foldlM_induction (motive := fun _ s' => s'.life = .stopped ∧
    s'.listeners.length = s.listeners.length) ⟨h, rfl⟩ ?_ hrun
  rintro - mid a next - ⟨hmid, hlength⟩ hstep
  obtain ⟨hnext, hsame⟩ := stopped_of_move hmid (move_of_step? hstep)
  exact ⟨hnext, hsame.trans hlength⟩

theorem lastingly (h : s.Lifecycle) (hended : .stop .ended ∈ s.calls) {actions : List Action}
    (hrun : s.run? actions = some s') :
    (∀ l ∈ s'.listeners, l.running = false) ∧ s'.sessionCount = 0 ∧
      s'.listeners.length = s.listeners.length ∧ s'.connections.length = s.connections.length := by
  have hall : s'.Lifecycle ∧ .stop .ended ∈ s'.calls ∧
      s'.connections.length = s.connections.length := by
    refine foldlM_induction (motive := fun _ s' => s'.Lifecycle ∧ .stop .ended ∈ s'.calls ∧
      s'.connections.length = s.connections.length) ⟨h, hended, rfl⟩ ?_ hrun
    rintro - mid a next - ⟨hmid, hcall, hlength⟩ hstep
    have hm := move_of_step? hstep
    obtain ⟨hcall', hsame⟩ := hmid.ended_of_move hcall hm
    exact ⟨hmid.step hm, hcall', hsame.trans hlength⟩
  obtain ⟨h', hended', hlength⟩ := hall
  have hstopped := h.stopped_of_stop hended nofun
  exact ⟨h'.deaf _ hended' (.inr rfl), h'.empty hended', (lasting hstopped hrun).2, hlength⟩

theorem idle_of_unclaimed (h : s.Lifecycle) (hlife : s.life ≠ .stopped)
    (hrunning : ∀ l ∈ s.listeners, l.running = false) (hclaims : s.claims = 0) : s.life = .idle := by
  have hstopping : s.stopping = false := eq_false_of_ne_true fun hs => hlife (h.stopped_iff.mpr hs)
  have hnone : s.listeners = [] := by
    refine List.eq_nil_iff_forall_not_mem.mpr fun l hl => ?_
    cases (h.alive hstopping l hl).symm.trans (hrunning l hl)
  cases hl : s.life with
  | idle => rfl
  | starting =>
      have hone := h.starting hl
      omega
  | running =>
      have hone := h.running hl
      rw [hnone] at hone
      cases hone
  | stopped => exact absurd hl hlife

end Lifecycle

/-- **A server is started once and stopped once.** In whatever order starts, stops, listeners and
connections take their steps, there is one listener at most, nothing comes back that a stop has waited
for, and a start that fails leaves the server to be started by another. -/
theorem oneLife_of_run {actions : List Action} (hrun : ({} : Server).run? actions = some s) :
    s.OneLife := by
  have h := Lifecycle.start.run hrun
  have hsingle := h.single
  have hsuccesses := h.successes_eq
  constructor
  · exact ⟨by omega, by omega⟩
  · exact h.stopped_iff.trans h.marked
  · intro hstopped actions s' hrun'
    exact Lifecycle.lasting hstopped hrun'
  · intro hended actions s' hrun'
    exact h.lastingly hended hrun'
  · intro call bound s' l cause hstep hc
    exact fails_of_move (move_of_step? hstep) hc
  · exact run?_listen s
  · exact h.idle_of_unclaimed
  · intro hidle hhandler address options encrypted hcheck actions s' halone hrun'
    have halone' := alone_of_run hidle hhandler hcheck halone hrun'
    exact ⟨halone'.call, halone'.isSome_step?⟩

/-- A start whose address is taken, another one that comes while the first holds its claim, and a third
one that succeeds; then a client connects, and the server is stopped. -/
def busyActions : List Action :=
  [.registerHandler, .callStart "192.0.2.2:636" {} true, .callStart "192.0.2.3:636" {} true,
    .goOn 0 false, .goOn 1 false, .goOn 0 false, .goOn 1 false, .goOn 0 false, .goOn 0 false,
    .callStart "192.0.2.3:636" {} true, .goOn 2 true, .goOn 2 true, .goOn 2 true, .goOn 2 true,
    .accept 0 (.short ⟨192, 0, 2, 1⟩ 40000) (.short ⟨192, 0, 2, 3⟩ 636), .callStop, .goOn 3 true,
    .endListener 0, .goOn 3 true, .connection 0 .abandonGreeting, .goOn 3 true]

/-- One of the starts has succeeded, and the stop has returned. -/
theorem oneLife_busy : ∃ s, ({} : Server).run? busyActions = some s ∧ s.OneLife ∧
    (s.life = .stopped ∧ s.successes = 1 ∧ s.claims = 0 ∧ s.listeners.map (·.running) = [false] ∧
      s.connections = [.refused .greetingAbandoned] ∧ s.step? (.goOn 3 true) = none) := by
  have hends : (({} : Server).run? busyActions).any (fun s => s.life = .stopped ∧ s.successes = 1 ∧
      s.claims = 0 ∧ s.listeners.map (·.running) = [false] ∧
      s.connections = [.refused .greetingAbandoned] ∧ (s.step? (.goOn 3 true)).isNone) = true := by
    decide +kernel
  obtain ⟨s, hrun, hend⟩ := (Option.any_eq_true _ _).mp hends
  obtain ⟨hlife, hsuccesses, hclaims, hlisteners, hconnections, hnone⟩ := of_decide_eq_true hend
  exact ⟨s, hrun, oneLife_of_run hrun, hlife, hsuccesses, hclaims, hlisteners, hconnections,
    Option.isNone_iff_eq_none.mp hnone⟩

end Directory.Server
