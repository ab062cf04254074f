import Directory.Proofs.Entry
import Directory.Proofs.Run
import Directory.Proofs.Server.Move

/-!
# The one life of a server

A start is not done at once: between its claim and its listener a stop may come, or other starts, which
the claim turns away. `Server.Lifecycle` ties together what these calls see of each other: of claims and
listeners there is one at most, the life says which, and what a stop has waited for does not come back.
Every step keeps it (`Lifecycle.step`).
-/

namespace Directory.Server

variable {s s' : Server} {l : Listener} {stage stage' : Starting} {a : Action}

/-! ## Counting calls -/

namespace Call

def holds : Call → Bool
  | .start _ stage => stage.holds
  | .stop _ => false

/-- A start that has returned without an error. -/
def succeeded : Call → Bool
  | .start _ (.ended (.ok ())) => true
  | _ => false

end Call

def claims (s : Server) : Nat := s.calls.countP Call.holds

def successes (s : Server) : Nat := s.calls.countP Call.succeeded

theorem sessionCount_eq_zero_iff : s.sessionCount = 0 ↔ ∀ c ∈ s.connections, c.isOver = true := by
  simp [sessionCount, List.countP_eq_zero]

/-! ## The invariant -/

/-- What the calls, the life, the listeners and the connections of a server have to do with each
other. -/
structure Lifecycle (s : Server) : Prop where
  stopped_iff : s.life = .stopped ↔ s.stopping = true
  single : s.claims + s.listeners.length ≤ 1
  idle : s.life = .idle → s.claims + s.listeners.length = 0
  starting : s.life = .starting → s.claims = 1
  running : s.life = .running → s.listeners.length = 1
  successes_eq : s.successes = s.listeners.length
  fresh : ∀ l stage, .start l stage ∈ s.calls → l.running = true
  alive : s.stopping = false → ∀ l ∈ s.listeners, l.running = true
  marked : s.stopping = true ↔ ∃ stage, .stop stage ∈ s.calls ∧ stage ≠ .marking
  deaf : ∀ stage, .stop stage ∈ s.calls → stage = .awaitingConnections ∨ stage = .ended →
    ∀ l ∈ s.listeners, l.running = false
  empty : .stop .ended ∈ s.calls → s.sessionCount = 0

namespace Lifecycle

theorem start : ({} : Server).Lifecycle where
  stopped_iff := by simp
  single := Nat.zero_le _
  idle := fun _ => rfl
  starting := nofun
  running := nofun
  successes_eq := rfl
  fresh := fun _ _ hc => absurd hc List.not_mem_nil
  alive := fun _ _ hl => absurd hl List.not_mem_nil
  marked := by simp
  deaf := fun _ hc => absurd hc List.not_mem_nil
  empty := fun hc => absurd hc List.not_mem_nil

/-- A stop that has got further than its mark keeps the server stopped. -/
theorem stopped_of_stop (h : s.Lifecycle) {stage : Stopping} (hc : .stop stage ∈ s.calls)
    (hne : stage ≠ .marking) : s.life = .stopped :=
  h.stopped_iff.mpr (h.marked.mpr ⟨stage, hc, hne⟩)

/-! ## Calls that are made -/

theorem call (h : s.Lifecycle) {c : Call} (hholds : c.holds = false) (hsucceeded : c.succeeded = false)
    (hfresh : ∀ l stage, c = .start l stage → l.running = true)
    (hstop : ∀ stage, c = .stop stage → stage = .marking) :
    Lifecycle { s with calls := s.calls ++ [c] } := by
  have hclaims : Server.claims { s with calls := s.calls ++ [c] } = s.claims := by
    simp [Server.claims, hholds]
  have hsuccesses : Server.successes { s with calls := s.calls ++ [c] } = s.successes := by
    simp [Server.successes, hsucceeded]
  have hmem {stage : Stopping} (hc : .stop stage ∈ s.calls ++ [c]) (hne : stage ≠ .marking) :
      .stop stage ∈ s.calls := by
    rcases List.mem_append.mp hc with hc | hc
    · exact hc
    · exact absurd (hstop stage (List.mem_singleton.mp hc).symm) hne
  constructor
  · exact h.stopped_iff
  · rw [hclaims]
    exact h.single
  · rw [hclaims]
    exact h.idle
  · rw [hclaims]
    exact h.starting
  · exact h.running
  · rw [hsuccesses]
    exact h.successes_eq
  · intro l stage hc
    rcases List.mem_append.mp hc with hc | hc
    · exact h.fresh l stage hc
    · exact hfresh l stage (List.mem_singleton.mp hc).symm
  · exact h.alive
  · rw [h.marked]
    constructor
    · rintro ⟨stage, hc, hne⟩
      exact ⟨stage, List.mem_append_left _ hc, hne⟩
    · rintro ⟨stage, hc, hne⟩
      exact ⟨stage, hmem hc hne, hne⟩
  · intro stage hc hstage
    refine h.deaf stage (hmem hc ?_) hstage
    rintro rfl
    simp at hstage
  · intro hc
    exact h.empty (hmem hc (by simp))

/-! ## A start goes on -/

variable {i : Nat} {life : Life} {listeners : List Listener} {bound : Bool}

/-- A start goes on. What is left to show is how many claims and listeners there are then. -/
theorem setStart (h : s.Lifecycle) (hc : s.calls[i]? = some (.start l stage))
    (hstopped : life = .stopped ↔ s.life = .stopped)
    (hcounts : ∀ claims, claims + stage.holds.toNat = s.claims + stage'.holds.toNat →
      claims + listeners.length ≤ 1 ∧ (life = .idle → claims + listeners.length = 0) ∧
        (life = .starting → claims = 1) ∧ (life = .running → listeners.length = 1))
    (hlisteners : listeners = s.listeners ∧ (Call.start l stage').succeeded = false ∨
      listeners = s.listeners ++ [l] ∧ (Call.start l stage').succeeded = true ∧ s.life ≠ .stopped)
    (hstage : (Call.start l stage).succeeded = false) :
    Lifecycle { s with life, listeners, calls := s.calls.set i (.start l stage') } := by
  have hsuccesses := countP_set_add (p := Call.succeeded) hc (.start l stage')
  have hcount := hcounts _ (countP_set_add (p := Call.holds) hc (.start l stage'))
  have hstop {stage : Stopping} :
      .stop stage ∈ s.calls.set i (.start l stage') ↔ .stop stage ∈ s.calls :=
    ⟨fun hset => (List.mem_or_eq_of_mem_set hset).resolve_right nofun,
      fun hold => mem_set_of_ne hc hold nofun _⟩
  have hfresh : l.running = true := h.fresh l stage (List.mem_of_getElem? hc)
  constructor
  · exact hstopped.trans h.stopped_iff
  · exact hcount.1
  · exact hcount.2.1
  · exact hcount.2.2.1
  · exact hcount.2.2.2
  · have hbefore := h.successes_eq
    rw [successes] at hbefore
    show (s.calls.set i _).countP _ = listeners.length
    rcases hlisteners with ⟨rfl, hsame⟩ | ⟨rfl, hone, -⟩
    · rw [hsame, hstage] at hsuccesses
      omega
    · rw [hone, hstage] at hsuccesses
      rw [List.length_append, List.length_singleton]
      simp only [Bool.toNat_true, Bool.toNat_false] at hsuccesses
      omega
  · intro l' stage' hset
    rcases List.mem_or_eq_of_mem_set hset with hold | hnew
    · exact h.fresh l' stage' hold
    · cases hnew
      exact hfresh
  · intro hstopping l' hl'
    rcases hlisteners with ⟨rfl, -⟩ | ⟨rfl, -⟩
    · exact h.alive hstopping l' hl'
    · rcases List.mem_append.mp hl' with hold | hnew
      · exact h.alive hstopping l' hold
      · rw [List.mem_singleton.mp hnew]
        exact hfresh
  · simp only [hstop]
    exact h.marked
  · intro stage hset hstage l' hl'
    have hold := hstop.mp hset
    rcases hlisteners with ⟨rfl, -⟩ | ⟨-, -, hne⟩
    · exact h.deaf stage hold hstage l' hl'
    · refine absurd (h.stopped_of_stop hold ?_) hne
      rintro rfl
      simp at hstage
  · intro hset
    exact h.empty (hstop.mp hset)

theorem setStart_of_holds (h : s.Lifecycle) (hc : s.calls[i]? = some (.start l stage))
    (hholds : stage'.holds = stage.holds) (hbefore : (Call.start l stage).succeeded = false)
    (hafter : (Call.start l stage').succeeded = false) :
    Lifecycle { s with calls := s.calls.set i (.start l stage') } := by
  refine h.setStart hc Iff.rfl (fun claims hclaims => ?_) (.inl ⟨rfl, hafter⟩) hbefore
  rw [hholds] at hclaims
  obtain rfl : claims = s.claims := Nat.add_right_cancel hclaims
  exact ⟨h.single, h.idle, h.starting, h.running⟩

theorem setStart_of_stopped (h : s.Lifecycle) (hc : s.calls[i]? = some (.start l stage))
    (hl : s.life = .stopped) (hstage : stage.holds = true) (cause : ServerError) :
    Lifecycle { s with calls := s.calls.set i (.start l (.ended (.error cause))) } := by
  have hsingle := h.single
  refine h.setStart hc Iff.rfl (fun claims hclaims => ?_) (.inl ⟨rfl, rfl⟩) ?_
  · rw [hstage] at hclaims
    simp only [Starting.holds, Bool.toNat_true, Bool.toNat_false] at hclaims
    refine ⟨by omega, ?_, ?_, h.running⟩
    · intro hidle
      cases hl.symm.trans hidle
    · intro hstarting
      cases hl.symm.trans hstarting
  · cases stage <;> first | rfl | cases hstage

/-- **A start goes on.** -/
theorem starts (h : s.Lifecycle) (hc : s.calls[i]? = some (.start l stage))
    (hs : Starts s l bound stage stage' s') :
    Lifecycle { s' with calls := s.calls.set i (.start l stage') } := by
  have hsingle := h.single
  have hheld : stage.holds = true → 1 ≤ s.claims := fun hholds =>
    List.countP_pos_iff.mpr ⟨_, List.mem_of_getElem? hc, hholds⟩
  cases hs with
  | invalid => exact h.setStart_of_holds hc rfl rfl rfl
  | noHandler => exact h.setStart_of_holds hc rfl rfl rfl
  | checks => exact h.setStart_of_holds hc rfl rfl rfl
  | taken => exact h.setStart_of_holds hc rfl rfl rfl
  | tooLate => exact h.setStart_of_holds hc rfl rfl rfl
  | binds => cases bound <;> exact h.setStart_of_holds hc rfl rfl rfl
  | claims hl =>
      have hzero := h.idle hl
      refine h.setStart hc (by simp [hl]) (fun claims hclaims => ?_) (.inl ⟨rfl, rfl⟩) rfl
      simp only [Starting.holds, Bool.toNat_false, Bool.toNat_true] at hclaims
      exact ⟨by dsimp only; omega, nofun, fun _ => by omega, nofun⟩
  | reverts hl =>
      have hone := hheld rfl
      refine h.setStart hc (by simp [hl]) (fun claims hclaims => ?_) (.inl ⟨rfl, rfl⟩) rfl
      simp only [Starting.holds, Bool.toNat_false, Bool.toNat_true] at hclaims
      exact ⟨by dsimp only; omega, fun _ => by dsimp only; omega, nofun, nofun⟩
  | revertsLate hl =>
      -- It holds a claim, so the server was neither idle nor running.
      have hone := hheld rfl
      refine h.setStart_of_stopped hc ?_ rfl _
      cases hlife : s.life with
      | idle =>
          have hzero := h.idle hlife
          omega
      | starting => exact absurd hlife hl
      | running =>
          have hlistener := h.running hlife
          omega
      | stopped => rfl
  | commits hl =>
      have hone := hheld rfl
      refine h.setStart hc (by simp [hl]) (fun claims hclaims => ?_) (.inr ⟨rfl, rfl, hl⟩) rfl
      simp only [Starting.holds, Bool.toNat_false, Bool.toNat_true] at hclaims
      rw [List.length_append, List.length_singleton]
      exact ⟨by omega, nofun, nofun, fun _ => by omega⟩
  | overtaken hl => exact h.setStart_of_stopped hc hl rfl _

/-! ## A stop goes on -/

theorem setStop (h : s.Lifecycle) {stage stage' : Stopping} (hc : s.calls[i]? = some (.stop stage))
    (hmarked : stage ≠ .marking) (hmarked' : stage' ≠ .marking)
    (hdeaf : stage' = .awaitingConnections ∨ stage' = .ended → ∀ l ∈ s.listeners, l.running = false)
    (hover : stage' = .ended → s.sessionCount = 0) :
    Lifecycle { s with calls := s.calls.set i (.stop stage') } := by
  have hclaims : (s.calls.set i (.stop stage')).countP Call.holds = s.claims :=
    countP_set_add (p := Call.holds) hc (.stop stage')
  have hsuccesses : (s.calls.set i (.stop stage')).countP Call.succeeded = s.successes :=
    countP_set_add (p := Call.succeeded) hc (.stop stage')
  constructor
  · exact h.stopped_iff
  · show (s.calls.set i _).countP _ + _ ≤ 1
    rw [hclaims]
    exact h.single
  · show _ → (s.calls.set i _).countP _ + _ = 0
    rw [hclaims]
    exact h.idle
  · show _ → (s.calls.set i _).countP _ = 1
    rw [hclaims]
    exact h.starting
  · exact h.running
  · exact hsuccesses.trans h.successes_eq
  · intro l stage hset
    exact h.fresh l stage ((List.mem_or_eq_of_mem_set hset).resolve_right nofun)
  · exact h.alive
  · refine iff_of_true ?_ ⟨stage', ?_, hmarked'⟩
    · exact h.marked.mpr ⟨stage, List.mem_of_getElem? hc, hmarked⟩
    · obtain ⟨hi, -⟩ := List.getElem?_eq_some_iff.mp hc
      exact List.mem_set hi _
  · intro other hset hother
    rcases List.mem_or_eq_of_mem_set hset with hold | hnew
    · exact h.deaf other hold hother
    · cases hnew
      exact hdeaf hother
  · intro hset
    rcases List.mem_or_eq_of_mem_set hset with hold | hnew
    · exact h.empty hold
    · cases hnew
      exact hover rfl

theorem mark (h : s.Lifecycle) (hc : s.calls[i]? = some (.stop .marking)) :
    Lifecycle { s.mark with calls := s.calls.set i (.stop .awaitingListeners) } := by
  have hclaims : (s.calls.set i (.stop .awaitingListeners)).countP Call.holds = s.claims :=
    countP_set_add (p := Call.holds) hc (.stop .awaitingListeners)
  have hsuccesses : (s.calls.set i (.stop .awaitingListeners)).countP Call.succeeded = s.successes :=
    countP_set_add (p := Call.succeeded) hc (.stop .awaitingListeners)
  constructor
  · exact iff_of_true rfl rfl
  · show (s.calls.set i _).countP _ + s.listeners.length ≤ 1
    rw [hclaims]
    exact h.single
  · nofun
  · nofun
  · nofun
  · exact hsuccesses.trans h.successes_eq
  · intro l stage hset
    exact h.fresh l stage ((List.mem_or_eq_of_mem_set hset).resolve_right nofun)
  · nofun
  · refine iff_of_true rfl ⟨.awaitingListeners, ?_, nofun⟩
    obtain ⟨hi, -⟩ := List.getElem?_eq_some_iff.mp hc
    exact List.mem_set hi _
  · intro stage hset hstage
    rcases List.mem_or_eq_of_mem_set hset with hold | hnew
    · exact h.deaf stage hold hstage
    · cases hnew
      simp at hstage
  · intro hset
    have hover := sessionCount_eq_zero_iff.mp
      (h.empty ((List.mem_or_eq_of_mem_set hset).resolve_right nofun))
    refine sessionCount_eq_zero_iff.mpr fun c hmem => ?_
    obtain ⟨c, hold, rfl⟩ := List.mem_map.mp hmem
    rw [Connection.isOver_stop]
    exact hover c hold

/-! ## What else happens -/

theorem setListener (h : s.Lifecycle) (halive : s.stopping = false → l.running = true)
    (hdeaf : ∀ stage, .stop stage ∈ s.calls → stage = .awaitingConnections ∨ stage = .ended →
      l.running = false) :
    Lifecycle { s with listeners := s.listeners.set i l } := by
  constructor
  · exact h.stopped_iff
  · show _ + (s.listeners.set i _).length ≤ 1
    rw [List.length_set]
    exact h.single
  · show _ → _ + (s.listeners.set i _).length = 0
    rw [List.length_set]
    exact h.idle
  · exact h.starting
  · show _ → (s.listeners.set i _).length = 1
    rw [List.length_set]
    exact h.running
  · exact h.successes_eq.trans (List.length_set ..).symm
  · exact h.fresh
  · intro hstopping l' hl'
    rcases List.mem_or_eq_of_mem_set hl' with hold | rfl
    · exact h.alive hstopping l' hold
    · exact halive hstopping
  · exact h.marked
  · intro stage hc hstage l' hl'
    rcases List.mem_or_eq_of_mem_set hl' with hold | rfl
    · exact h.deaf stage hc hstage l' hold
    · exact hdeaf stage hc hstage
  · exact h.empty

/-- Where a listener is running no stop waits for the connections. -/
theorem unheard (h : s.Lifecycle) (hl : l ∈ s.listeners) (hrunning : l.running = true)
    {stage : Stopping} (hc : .stop stage ∈ s.calls) :
    ¬(stage = .awaitingConnections ∨ stage = .ended) := by
  intro hstage
  cases hrunning.symm.trans (h.deaf stage hc hstage l hl)

theorem setConnections (h : s.Lifecycle) {connections : List Connection}
    (hover : .stop .ended ∈ s.calls → ∀ c ∈ connections, c.isOver = true) :
    Lifecycle { s with connections } :=
  { h with empty := fun hended => sessionCount_eq_zero_iff.mpr (hover hended) }

/-- **Every step keeps the invariant.** -/
theorem step (h : s.Lifecycle) (hm : Move s a s') : s'.Lifecycle := by
  cases hm with
  | registers => exact { h with }
  | callsStart =>
      refine h.call rfl rfl (fun l stage hc => ?_) nofun
      cases hc
      rfl
  | callsStop =>
      refine h.call rfl rfl (fun _ _ hc => nomatch hc) fun stage hc => ?_
      cases hc
      rfl
  | start hc hs => exact h.starts hc hs
  | marks hc => exact h.mark hc
  | deaf hc hl => exact h.setStop hc nofun nofun (fun _ => hl) nofun
  | ends hc hover =>
      refine h.setStop hc nofun nofun (fun _ => ?_) fun _ => hover
      exact h.deaf _ (List.mem_of_getElem? hc) (.inl rfl)
  | @accepts i _ _ l _ hl hr =>
      have hunheard {stage : Stopping} (hc : .stop stage ∈ s.calls) :
          ¬(stage = .awaitingConnections ∨ stage = .ended) :=
        h.unheard (List.mem_of_getElem? hl) hr hc
      have hset : Lifecycle { s with
          listeners := s.listeners.set i { l with accepted := l.accepted + 1 } } :=
        h.setListener (fun _ => hr) fun stage hc hstage => absurd hstage (hunheard hc)
      exact hset.setConnections fun hended => absurd (.inr rfl) (hunheard hended)
  | endsListener hl hs =>
      refine h.setListener (fun hfalse => ?_) fun _ _ _ => rfl
      cases hs.symm.trans hfalse
  | connection hc hs =>
      refine h.setConnections fun hended other hmem => ?_
      have hall := sessionCount_eq_zero_iff.mp (h.empty hended)
      rcases List.mem_or_eq_of_mem_set hmem with hold | rfl
      · exact hall other hold
      · exact Connection.isOver_of_step? hs (hall _ (List.mem_of_getElem? hc))

theorem run (h : s.Lifecycle) {actions : List Action} (hrun : s.run? actions = some s') :
    s'.Lifecycle :=
  foldlM_induction (motive := fun _ s => s.Lifecycle) h
    (fun _ hmid hs => hmid.step (move_of_step? hs)) hrun

/-! ## What lasts -/

/-- A stopped server stays so, and gets no listener. -/
theorem stopped_of_move (h : s.life = .stopped) (hm : Move s a s') :
    s'.life = .stopped ∧ s'.listeners.length = s.listeners.length := by
  cases hm with
  | start hc hs =>
      cases hs with
      | claims hl => cases h.symm.trans hl
      | reverts hl => cases h.symm.trans hl
      | commits hl => exact absurd h hl
      | _ => exact ⟨h, rfl⟩
  | marks => exact ⟨rfl, rfl⟩
  | accepts => exact ⟨h, List.length_set ..⟩
  | endsListener => exact ⟨h, List.length_set ..⟩
  | _ => exact ⟨h, rfl⟩

/-- Once a stop has returned no connection comes any more. -/
theorem ended_of_move (h : s.Lifecycle) (hended : .stop .ended ∈ s.calls) (hm : Move s a s') :
    .stop .ended ∈ s'.calls ∧ s'.connections.length = s.connections.length := by
  cases hm with
  | callsStart => exact ⟨List.mem_append_left _ hended, rfl⟩
  | callsStop => exact ⟨List.mem_append_left _ hended, rfl⟩
  | start hc hs =>
      refine ⟨mem_set_of_ne hc hended nofun _, ?_⟩
      cases hs <;> rfl
  | marks hc => exact ⟨mem_set_of_ne hc hended nofun _, List.length_map ..⟩
  | deaf hc => exact ⟨mem_set_of_ne hc hended nofun _, rfl⟩
  | ends hc => exact ⟨mem_set_of_ne hc hended nofun _, rfl⟩
  | accepts hl hr => exact absurd (.inr rfl) (h.unheard (List.mem_of_getElem? hl) hr hended)
  | connection => exact ⟨hended, List.length_set ..⟩
  | _ => exact ⟨hended, rfl⟩

end Lifecycle

end Directory.Server
