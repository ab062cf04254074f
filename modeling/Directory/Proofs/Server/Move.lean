import Directory.Proofs.Session.Move
import Directory.Server.Basic

/-!
# What a step of a server can be

`Server.step?` goes by the action, the stage of a call and what the call finds. `Server.Starts` lists
what a start can find, and `Server.Move` the outcomes of all steps, so that a proof about steps goes by
its cases (`move_of_step?`). What becomes of a connection is left to `Connection.step?`, by which one
that is over stays so (`Connection.isOver_of_step?`).
-/

namespace Directory

/-! ## What is over stays over -/

theorem Session.closed_of_step? {s s' : Session} {a : Session.Action} (hs : s.step? a = some s')
    (h : s.phase = .closed) : s'.phase = .closed := by
  have hnone : s.waitsFor = none := by simp [waitsFor, h]
  cases a with
  | handler r deed => cases move_of_perform hs <;> exact h
  | stop =>
      cases hs
      exact h
  | receive chunk => simp [step?, receive, hnone] at hs
  | endOfStream => simp [step?, endOfStream, hnone] at hs
  | loseConnection reason => simp [step?, loseConnection, hnone] at hs
  | expire => simp [step?, expire, hnone] at hs
  | endHandshake error => simp [step?, endHandshake, h] at hs
  | read => simp [step?, read, h] at hs
  | watch => cases move_of_watch hs <;> exact h
  | close => simp [step?, Session.close, h] at hs
  | output act =>
      cases move_of_emit hs
      exact h

namespace Connection

theorem isOver_of_step? {c c' : Connection} {stopping : Bool} {a : Action}
    (hs : c.step? stopping a = some c') (h : c.isOver = true) : c'.isOver = true := by
  cases c with
  | refused report => cases a <;> cases hs
  | broken => cases a <;> cases hs
  | greeting options info => cases h
  | serving session =>
      cases a with
      | endGreeting error => cases hs
      | abandonGreeting => cases hs
      | session action =>
          obtain ⟨next, hnext, rfl⟩ := Option.map_eq_some_iff.mp hs
          exact decide_eq_true (Session.closed_of_step? hnext (of_decide_eq_true h))

theorem isOver_stop (c : Connection) : c.stop.isOver = c.isOver := by cases c <;> rfl

end Connection

namespace Server

variable {s s' : Server} {l : Listener} {stage stage' : Starting}

/-! ## What a step of a start can be -/

/-- A start has claimed the server, and has neither spawned a listener nor given up. -/
def Starting.holds : Starting → Bool
  | .binding | .committing | .reverting => true
  | _ => false

inductive Starts (s : Server) (l : Listener) (bound : Bool) : Starting → Starting → Server → Prop where
  | invalid {cause} (h : l.options.check = .error cause) :
      Starts s l bound .checking (.ended (.error (.invalidOptions cause))) s
  | noHandler (h : l.options.check = .ok ()) (hh : s.handler = false) :
      Starts s l bound .checking (.ended (.error .noHandler)) s
  | checks (h : l.options.check = .ok ()) (hh : s.handler = true) :
      Starts s l bound .checking .claiming s
  | claims (h : s.life = .idle) : Starts s l bound .claiming .binding { s with life := .starting }
  | taken (h : s.life = .starting ∨ s.life = .running) :
      Starts s l bound .claiming (.ended (.error .alreadyStarted)) s
  | tooLate (h : s.life = .stopped) : Starts s l bound .claiming (.ended (.error .stopped)) s
  | binds : Starts s l bound .binding (if bound then .committing else .reverting) s
  | reverts (h : s.life = .starting) :
      Starts s l bound .reverting (.ended (.error (.bind l.address))) { s with life := .idle }
  | revertsLate (h : s.life ≠ .starting) :
      Starts s l bound .reverting (.ended (.error (.bind l.address))) s
  | commits (h : s.life ≠ .stopped) :
      Starts s l bound .committing (.ended (.ok ()))
        { s with life := .running, listeners := s.listeners ++ [l] }
  | overtaken (h : s.life = .stopped) : Starts s l bound .committing (.ended (.error .stopped)) s

theorem starts_of_goOnStarting {bound : Bool}
    (h : s.goOnStarting l bound stage = some (stage', s')) : Starts s l bound stage stage' s' := by
  cases stage with
  | checking =>
      simp only [goOnStarting, checkStart] at h
      cases hc : l.options.check with
      | error cause =>
          simp only [hc] at h
          cases h
          exact .invalid hc
      | ok _ =>
          cases hh : s.handler with
          | false =>
              simp only [hc, hh] at h
              cases h
              exact .noHandler hc hh
          | true =>
              simp only [hc, hh] at h
              cases h
              exact .checks hc hh
  | claiming =>
      simp only [goOnStarting, claim] at h
      cases hl : s.life with
      | idle =>
          simp only [hl] at h
          cases h
          exact .claims hl
      | starting =>
          simp only [hl] at h
          cases h
          exact .taken (.inl hl)
      | running =>
          simp only [hl] at h
          cases h
          exact .taken (.inr hl)
      | stopped =>
          simp only [hl] at h
          cases h
          exact .tooLate hl
  | binding =>
      cases h
      exact .binds
  | committing =>
      simp only [goOnStarting, commit] at h
      by_cases hl : s.life = .stopped
      · rw [if_pos hl] at h
        cases h
        exact .overtaken hl
      · rw [if_neg hl] at h
        cases h
        exact .commits hl
  | reverting =>
      simp only [goOnStarting, revert] at h
      by_cases hl : s.life = .starting
      · rw [if_pos hl] at h
        cases h
        exact .reverts hl
      · rw [if_neg hl] at h
        cases h
        exact .revertsLate hl
  | ended result => cases h

/-! ## What a step can be -/

inductive Move (s : Server) : Action → Server → Prop where
  | registers (h : s.handler = false) : Move s .registerHandler { s with handler := true }
  | callsStart {address options encrypted} :
      Move s (.callStart address options encrypted)
        { s with calls := s.calls ++ [.start { address, options, encrypted } .checking] }
  | callsStop : Move s .callStop { s with calls := s.calls ++ [.stop .marking] }
  | start {i bound l stage stage' s'} (hc : s.calls[i]? = some (.start l stage))
      (hs : Starts s l bound stage stage' s') :
      Move s (.goOn i bound) { s' with calls := s.calls.set i (.start l stage') }
  | marks {i bound} (hc : s.calls[i]? = some (.stop .marking)) :
      Move s (.goOn i bound) { s.mark with calls := s.calls.set i (.stop .awaitingListeners) }
  | deaf {i bound} (hc : s.calls[i]? = some (.stop .awaitingListeners))
      (hl : ∀ l ∈ s.listeners, l.running = false) :
      Move s (.goOn i bound) { s with calls := s.calls.set i (.stop .awaitingConnections) }
  | ends {i bound} (hc : s.calls[i]? = some (.stop .awaitingConnections)) (h : s.sessionCount = 0) :
      Move s (.goOn i bound) { s with calls := s.calls.set i (.stop .ended) }
  | accepts {i peer localEnd l info} (hl : s.listeners[i]? = some l) (hr : l.running = true) :
      Move s (.accept i peer localEnd)
        { s with
          listeners := s.listeners.set i { l with accepted := l.accepted + 1 }
          connections := s.connections ++ [.accept l.options info s.stopping] }
  | endsListener {i l} (hl : s.listeners[i]? = some l) (hs : s.stopping = true) :
      Move s (.endListener i)
        { s with listeners := s.listeners.set i { l with running := false } }
  | connection {i action c c'} (hc : s.connections[i]? = some c)
      (hs : c.step? s.stopping action = some c') :
      Move s (.connection i action) { s with connections := s.connections.set i c' }

theorem calls_of_starts {bound : Bool} (hs : Starts s l bound stage stage' s') :
    s'.calls = s.calls := by
  cases hs <;> rfl

theorem move_of_goOn {i : Nat} {bound : Bool} (h : s.goOn i bound = some s') :
    Move s (.goOn i bound) s' := by
  simp only [goOn, Option.bind_eq_bind, Option.bind_eq_some_iff] at h
  obtain ⟨c, hc, h⟩ := h
  cases c with
  | start l stage =>
      obtain ⟨⟨stage', next⟩, hgo, h⟩ := Option.bind_eq_some_iff.mp h
      have hs := starts_of_goOnStarting hgo
      cases h
      rw [calls_of_starts hs]
      exact .start hc hs
  | stop stage =>
      obtain ⟨⟨stage', next⟩, hgo, h⟩ := Option.bind_eq_some_iff.mp h
      cases h
      cases stage with
      | marking =>
          cases hgo
          exact .marks hc
      | awaitingListeners =>
          obtain ⟨hrunning, hgo⟩ := Option.ite_none_left_eq_some.mp hgo
          cases hgo
          exact .deaf hc (by simpa using hrunning)
      | awaitingConnections =>
          obtain ⟨hover, hgo⟩ := Option.ite_none_right_eq_some.mp hgo
          cases hgo
          exact .ends hc hover
      | ended => cases hgo

theorem move_of_step? {a : Action} (h : s.step? a = some s') : Move s a s' := by
  cases a with
  | registerHandler =>
      simp only [step?, registerHandler] at h
      cases hh : s.handler with
      | true => simp [hh, Except.toOption] at h
      | false =>
          simp only [hh, Bool.false_eq_true, if_false, Except.toOption] at h
          cases h
          exact .registers hh
  | callStart address options encrypted =>
      cases h
      exact .callsStart
  | callStop =>
      cases h
      exact .callsStop
  | goOn call bound => exact move_of_goOn h
  | accept number peer localEnd =>
      simp only [step?, accept, Option.bind_eq_bind, Option.bind_eq_some_iff] at h
      obtain ⟨l, hl, h⟩ := h
      obtain ⟨hr, h⟩ := Option.ite_none_right_eq_some.mp h
      cases h
      exact .accepts hl hr
  | endListener number =>
      simp only [step?, endListener, Option.bind_eq_bind, Option.bind_eq_some_iff] at h
      obtain ⟨l, hl, h⟩ := h
      obtain ⟨⟨-, hs⟩, h⟩ := Option.ite_none_right_eq_some.mp h
      cases h
      exact .endsListener hl hs
  | connection number action =>
      simp only [step?, stepConnection, Option.bind_eq_bind, Option.bind_eq_some_iff] at h
      obtain ⟨c, hc, h⟩ := h
      obtain ⟨-, h⟩ := Option.ite_none_left_eq_some.mp h
      obtain ⟨next, hnext, h⟩ := Option.bind_eq_some_iff.mp h
      cases h
      exact .connection hc hnext

end Server

end Directory
