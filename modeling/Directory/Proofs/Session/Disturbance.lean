import Directory.Proofs.Session.Upgrade

/-!
# What disturbs the reading

The reading of a session ends where its stream ends, cannot be cut or decoded any further, or asks to
unbind. Whatever else ends it is reported, and so is an upgrade, which changes what is read
(`isDisturbed`). What has disturbed the reading once has done so for ever (`isDisturbed_of_move`), and
nothing does in a session that is left alone: the server does not stop, the connection does not fail,
no time runs out, and no handler agrees to encrypt the connection or panics (`undisturbed_of_run`).
-/

namespace Directory

/-- The reading is ended by something other than the stream, or an upgrade changes what is read. -/
def Event.disturbs : Event → Bool
  | .interrupted | .readTimedOut _ | .secured | .upgradeAbandoned => true
  | .failed (.stream _) => false
  | .failed _ => true
  | _ => false

namespace Session

variable {s s' : Session} {a : Action}

def isDisturbed (s : Session) : Bool := s.phase.isHandingOver || s.events.any (·.disturbs)

/-! ## Disturbances last -/

theorem isDisturbed_of_mem {e : Event} (hmem : e ∈ s.events) (he : e.disturbs = true) :
    s.isDisturbed = true := by
  rw [isDisturbed, List.any_eq_true.mpr ⟨e, hmem, he⟩, Bool.or_true]

theorem isDisturbed_of_handingOver (h : s.phase.isHandingOver = true) : s.isDisturbed = true := by
  rw [isDisturbed, h, Bool.true_or]

theorem isDisturbed_leave {e : Event} (he : e.disturbs = true) : (s.leave e).isDisturbed = true :=
  isDisturbed_of_mem (List.mem_append_right _ (List.mem_singleton.mpr rfl)) he

theorem events_of_move (hm : Move s a s') : s.events <+: s'.events := by
  cases hm with
  | @handshakeFails pause cause hp => cases cause <;> exact List.prefix_append ..
  | _ => first | exact List.prefix_refl _ | exact List.prefix_append ..

theorem upgrade_of_move (hm : Move s a s') (h : s.phase.isHandingOver = true) :
    s'.isDisturbed = true := by
  have hne {p : Phase} (hp : s.phase = p) (hnot : p.isHandingOver = false) :
      s'.isDisturbed = true := by
    rw [hp, hnot] at h
    cases h
  have hstay (hp : s'.phase = s.phase) : s'.isDisturbed = true :=
    isDisturbed_of_handingOver (hp ▸ h)
  cases hm with
  -- None of these begins in the course of an upgrade.
  | receive hw | clientClosed hw | cutShort hw | loseConnection hw =>
      exact hne (waitsFor_eq_some.mp hw).1 rfl
  | expire hl hw => exact hne (waitsFor_eq_some.mp hw).1 rfl
  | interrupt hp | noSource hp | refuse hp | servantPanicked hp => exact hne hp rfl
  | undecodable hc | unbind hc | startTls hc | dispatch hc => exact hne hc.reading rfl
  | declined hr | alreadySecured hr | noAcceptor hr | sourceGone hr | pipelined hr
  | pauseQueued hr | pauseOffered hr | pauseRefused hr => exact hne hr.serving rfl
  | silence hp | stopReading hp | sweep hp | join hp | closeQueued hp | closeOffered hp
  | closeRefused hp | closeAdmitted hp | drained hp | hangUp hp => exact hne hp rfl
  | pauseAdmitted hp | takeWriter hp => exact isDisturbed_of_handingOver rfl
  | pauseTurnedAway hp | writerMissing hp | writerSecure hp | pauseLost hp | giveUp hp =>
      exact isDisturbed_leave rfl
  | upgraded hp =>
      exact isDisturbed_of_mem (List.mem_append_right _ (List.mem_singleton.mpr rfl)) rfl
  | @handshakeFails pause cause => cases cause <;> exact isDisturbed_leave rfl
  | _ => exact hstay rfl

/-- What has disturbed the reading once has done so for ever. -/
theorem isDisturbed_of_move (hm : Move s a s') (h : s.isDisturbed = true) :
    s'.isDisturbed = true := by
  rcases Bool.or_eq_true_iff.mp h with hhanding | hevents
  · exact upgrade_of_move hm hhanding
  · obtain ⟨e, hmem, he⟩ := List.any_eq_true.mp hevents
    exact isDisturbed_of_mem ((events_of_move hm).subset hmem) he

/-! ## Sessions that are left alone -/

/-- Neither the server nor the connection nor a time limit is in the way, and no handler agrees to
encrypt the connection or panics. -/
def Action.isQuiet : Action → Bool
  | .handler _ .acceptStartTls | .handler _ .panic => false
  | .stop | .loseConnection _ | .expire => false
  | .output (.break _) | .output .expire => false
  | _ => true

/-- What holds of a session that is left alone. -/
structure Calm (s : Session) : Prop where
  stopping : s.stopping = false
  watcher : s.watcher = .watching ∨ s.watcher = .done
  handlers : ∀ i ∈ s.requests, i.startTlsAccepted = false ∧ i.progress ≠ .panicked
  reading : s.phase.isOver = true ∨ s.phase.isListening = true ∧ s.interrupted = false ∧
    s.output.failed = false ∧ s.output.writer ≠ none
  events : ∀ e ∈ s.events, e.disturbs = false

theorem quiet_of_turn {o o' : Output} {act : Output.Act} {events : List Event}
    (ht : Output.Turn o act events o') : ∀ e ∈ events, e.disturbs = false := by
  cases ht <;> simp [Event.disturbs]

/-- Without a writer, or with one that fails, a write fails; nothing else makes one fail. -/
theorem writer_of_turn {o o' : Output} {act : Output.Act} {events : List Event}
    (ht : Output.Turn o act events o') (hq : (Action.output act).isQuiet = true)
    (hf : o.failed = false) (hw : o.writer ≠ none) : o'.failed = false ∧ o'.writer ≠ none := by
  cases ht with
  | writerMissing _ _ _ hnone => exact absurd hnone hw
  | «break» hp => cases hq
  | expire hp => cases hq
  | _ => exact ⟨hf, hw⟩

namespace Calm

theorem stay {es : List Event} (h : s.Calm) (hs : s'.stopping = s.stopping)
    (hw : s'.watcher = s.watcher) (hr : s'.requests = s.requests)
    (hreading : s'.phase.isOver = true ∨ s'.phase.isListening = true ∧ s'.interrupted = false ∧
      s'.output.failed = false ∧ s'.output.writer ≠ none)
    (he : s'.events = s.events ++ es) (hes : ∀ e ∈ es, e.disturbs = false) : s'.Calm where
  stopping := hs.trans h.stopping
  watcher := by
    rw [hw]
    exact h.watcher
  handlers := by
    rw [hr]
    exact h.handlers
  reading := hreading
  events := by
    intro e hmem
    rw [he] at hmem
    rcases List.mem_append.mp hmem with hold | hnew
    · exact h.events e hold
    · exact hes e hnew

theorem live (h : s.Calm) {p : Phase} (hp : s.phase = p) (hnot : p.isOver = false) :
    p.isListening = true ∧ s.interrupted = false ∧ s.output.failed = false ∧
      s.output.writer ≠ none := by
  rcases h.reading with hover | hlive
  · rw [hp, hnot] at hover
    cases hover
  · exact hp ▸ hlive

theorem declined (h : s.Calm) {r : Nat} {i : Invocation} (hi : s.requests[r]? = some i) :
    i.startTlsAccepted = false ∧ i.progress ≠ .panicked :=
  h.handlers i (List.mem_of_getElem? hi)

theorem returns (h : s.Calm) (r : Nat) : (s.finish r .returned).Calm where
  stopping := h.stopping
  watcher := h.watcher
  handlers := by
    intro i hmem
    obtain ⟨n, hn⟩ := List.mem_iff_getElem?.mp hmem
    rw [finish, List.getElem?_modify] at hn
    obtain ⟨j, hj, rfl⟩ := Option.map_eq_some_iff.mp hn
    split
    · exact ⟨(h.declined hj).1, nofun⟩
    · exact h.declined hj
  reading := h.reading
  events := h.events

theorem invoke (h : s.Calm) {source : Source} {raw : Octets} {splitter : Splitter} {m : Message}
    (hc : s.Cuts source raw splitter) {phase : Phase} (hp : phase.isListening = true) :
    Calm { (s.advance source splitter).invoke m raw source.channel with phase } where
  stopping := h.stopping
  watcher := h.watcher
  handlers := by
    intro i hmem
    rcases List.mem_append.mp hmem with hold | hnew
    · exact h.handlers i hold
    · rw [List.mem_singleton.mp hnew]
      exact ⟨rfl, nofun⟩
  reading := .inr ⟨hp, (h.live hc.reading rfl).2⟩
  events := h.events

theorem move (h : s.Calm) (hm : Move s a s') (hq : a.isQuiet = true) : s'.Calm := by
  have hnone : s.events = s.events ++ [] := (List.append_nil _).symm
  have hleave {e : Event} (he : e.disturbs = false) : ∀ e' ∈ [e], e'.disturbs = false := by
    intro e' hmem
    rw [List.mem_singleton.mp hmem]
    exact he
  cases hm with
  | agree | handlerPanics | stop | loseConnection | expire => cases hq
  | handlerReturns hi hrun => exact h.returns _
  | clientClosed | cutShort | refuse | undecodable | unbind =>
      exact h.stay rfl rfl rfl (.inl rfl) rfl (hleave rfl)
  | noSource => exact h.stay rfl rfl rfl (.inl rfl) hnone nofun
  | interrupt hp hi => exact nomatch hi.symm.trans (h.live hp rfl).2.1
  | startTls hc => exact h.invoke hc rfl
  | dispatch hc => exact h.invoke hc (hc.reading ▸ rfl)
  | servantPanicked hp hi hd => exact absurd hd (h.declined hi).2
  | declined hr =>
      exact h.stay rfl rfl rfl (.inr ⟨rfl, (h.live hr.serving rfl).2⟩) rfl (hleave rfl)
  | noAcceptor hr ha | alreadySecured hr ha =>
      exact nomatch ha.symm.trans (h.declined hr.invocation_eq).1
  | sourceGone hr | pipelined hr | pauseQueued hr | pauseOffered hr | pauseRefused hr =>
      exact nomatch hr.accepted.symm.trans (h.declined hr.invocation_eq).1
  | pauseAdmitted hp | pauseTurnedAway hp | writerMissing hp | writerSecure hp | takeWriter hp
  | pauseLost hp | giveUp hp | upgraded hp | handshakeFails hp => cases (h.live hp rfl).1
  -- The watcher has nothing to announce.
  | silenced => exact ⟨h.stopping, .inr rfl, h.handlers, h.reading, h.events⟩
  | noticeQueued hw hc hs | noticeOffered hw hc hs | noticeRefused hw hc hs =>
      exact nomatch hs.symm.trans h.stopping
  | noticeAdmitted hw | noticeTurnedAway hw | watcherInterrupts hw =>
      rcases h.watcher with hwatcher | hwatcher <;> cases hw.symm.trans hwatcher
  | silence | stopReading | join | closeQueued | closeOffered | closeRefused | closeAdmitted
  | drained => exact h.stay rfl rfl rfl (.inl rfl) hnone nofun
  | sweep =>
      refine h.stay rfl rfl rfl (.inl rfl) rfl fun e hmem => ?_
      unfold sweepReport at hmem
      split at hmem
      · exact hleave rfl e hmem
      · cases hmem
  | hangUp => exact h.stay rfl rfl rfl (.inl rfl) rfl (hleave rfl)
  | emit ho =>
      have ht := Output.turn_of_step? ho
      refine h.stay rfl rfl rfl ?_ rfl (quiet_of_turn ht)
      rcases h.reading with hover | ⟨hlistening, hi, hf, hw⟩
      · exact .inl hover
      · obtain ⟨hf', hw'⟩ := writer_of_turn ht hq hf hw
        exact .inr ⟨hlistening, by rw [hi, hf']; rfl, hf', hw'⟩
  | _ => exact h.stay rfl rfl rfl h.reading hnone nofun

theorem start {options : Options} {info : SessionInfo}
    (h : start? options info false = some s) : s.Calm := by
  obtain ⟨-, rfl⟩ := start?_eq_some h
  exact ⟨rfl, .inl rfl, fun i hmem => absurd hmem List.not_mem_nil,
    .inr ⟨rfl, rfl, rfl, Option.some_ne_none _⟩, fun e hmem => absurd hmem List.not_mem_nil⟩

end Calm

/-- **Nothing disturbs a session that is left alone.** -/
theorem undisturbed_of_run {options : Options} {info : SessionInfo} {s₀ : Session}
    {actions : List Action} (h₀ : start? options info false = some s₀)
    (hrun : s₀.run? actions = some s) (hq : ∀ a ∈ actions, a.isQuiet = true) :
    s.isDisturbed = false := by
  have h : (∀ a ∈ actions, a.isQuiet = true) → s.Calm := by
    refine run?_induction (motive := fun actions s => (∀ a ∈ actions, a.isQuiet = true) → s.Calm)
      (fun _ => Calm.start h₀) ?_ hrun
    intro actions mid a next _ hmid hm hq
    exact (hmid fun b hb => hq b (List.mem_append_left _ hb)).move hm (hq a (by simp))
  replace h := h hq
  have hphase : s.phase.isHandingOver = false := by
    cases hp : s.phase with
    | offering | pausing | shaking => cases (h.live hp rfl).1
    | _ => rfl
  rw [isDisturbed, hphase, Bool.false_or, List.any_eq_false]
  intro e hmem
  rw [h.events e hmem]
  decide

end Session

end Directory
