import Directory.Proofs.Output.Sealing
import Directory.Proofs.Session.Move

/-!
# Closing a session down

When the reading is over, the session waits for its handlers and for the watcher before it queues
the item that closes the outbox, and for the output before it gives up the connection. So the
closing item is queued once (`Session.closings`), after all that a handler has written, and when the
connection is given up, all that was queued ahead of it has been written, unless a write has failed
(`ClosesDown`).

`Teardown` is the invariant: it holds at the beginning and is kept by every move.
-/

namespace Directory.Session

/-- How often the closing item was offered to the outbox: let in, or made to wait for room. -/
def closings (s : Session) : Nat := s.output.outbox.offered.count .close

def Phase.hasJoined : Phase → Bool
  | .closing .sealing | .closing (.offering _) | .closing .draining | .closing .leaving
  | .closed => true
  | _ => false

def Phase.hasSealed : Phase → Bool
  | .closing (.offering _) | .closing .draining | .closing .leaving | .closed => true
  | _ => false

/-- What holds of a session in every state. -/
structure Teardown (s : Session) : Prop where
  account : s.output.Account
  closings_eq : s.closings = if s.phase.hasSealed then 1 else 0
  waits : ∀ ticket, (ticket, .close) ∈ s.output.outbox.waiting →
    s.phase = .closing (.offering ticket)
  joined : s.phase.hasJoined = true → s.handlersDone = true ∧ s.watcher = .done
  finished : s.phase = .closing .leaving ∨ s.phase = .closed → s.output.phase = .finished

theorem Teardown.closings_le {s : Session} (h : s.Teardown) : s.closings ≤ 1 := by
  rw [h.closings_eq]
  split <;> decide

variable {s s' : Session}

/-! ## What the parties keep -/

theorem handlersDone_modify (h : s.handlersDone = true) (request : Nat)
    {f : Invocation → Invocation} (hs : s'.requests = s.requests.modify request f)
    (hf : ∀ i, i.progress ≠ .running → (f i).progress ≠ .running) : s'.handlersDone = true := by
  rw [handlersDone, List.all_eq_true] at h ⊢
  rw [hs]
  intro i hi
  obtain ⟨n, hn⟩ := List.mem_iff_getElem?.mp hi
  rw [List.getElem?_modify] at hn
  obtain ⟨j, hj, rfl⟩ := Option.map_eq_some_iff.mp hn
  have hdone := of_decide_eq_true (h j (List.mem_of_getElem? hj))
  apply decide_eq_true
  split
  · exact hf j hdone
  · exact hdone

theorem requestPause_keeps {receipt : Receipt} {o : Output} (h : s.output.Account)
    (ho : s.requestPause = (receipt, o)) : s.output.Keeps o :=
  .trans (.pauses h _) (.of_send (h.pauses _) (by simp) ho)

namespace Teardown

theorem closings_of {phase : Phase} (h : s.Teardown) (hp : s.phase = phase) :
    s.closings = if phase.hasSealed then 1 else 0 := hp ▸ h.closings_eq

/-- The closing item is among the offers once the session has come to offer it, and not before. -/
theorem close_mem_iff (h : s.Teardown) :
    .close ∈ s.output.outbox.offered ↔ s.phase.hasSealed = true := by
  have hcount := h.closings_eq
  rw [closings] at hcount
  rw [← List.count_pos_iff, hcount]
  cases s.phase.hasSealed <;> decide

theorem close_not_mem (h : s.Teardown) (hp : s.phase.hasSealed = false) :
    .close ∉ s.output.outbox.offered := by
  rw [h.close_mem_iff, hp]
  exact Bool.false_ne_true

/-- An outbox is closed by the closing item only, and that was not offered before. -/
theorem outbox_open (h : s.Teardown) (hp : s.phase.hasSealed = false) :
    s.output.outbox.closed = false := by
  apply eq_false_of_ne_true
  intro hclosed
  rw [h.account.closed_eq, h.account.sealed_iff] at hclosed
  exact h.close_not_mem hp (List.mem_append_left _ (Outbox.mem_admitted_of_mem_gone hclosed))

theorem stay (h : s.Teardown) (hphase : s'.phase = s.phase) (ho : s.output.Keeps s'.output)
    (hh : s.handlersDone = true → s'.handlersDone = true)
    (hw : s.watcher = .done → s'.watcher = .done) : s'.Teardown where
  account := ho.account
  closings_eq := by
    rw [hphase, ← h.closings_eq]
    exact ho.count_eq
  waits := by
    intro ticket hmem
    rw [hphase]
    exact h.waits ticket (ho.waits ticket hmem)
  joined := by
    intro hjoined
    rw [hphase] at hjoined
    obtain ⟨hhandlers, hwatcher⟩ := h.joined hjoined
    exact ⟨hh hhandlers, hw hwatcher⟩
  finished := by
    intro hover
    rw [hphase] at hover
    exact ho.finished (h.finished hover)

theorem goOn (h : s.Teardown) (hbefore : s.phase.hasJoined = false)
    (hafter : s'.phase.hasJoined = false) (ho : s.output.Keeps s'.output) : s'.Teardown := by
  have hunsealed {phase : Phase} (hp : phase.hasJoined = false) : phase.hasSealed = false := by
    cases phase with
    | closing stage => cases stage <;> first | rfl | cases hp
    | closed => cases hp
    | _ => rfl
  refine ⟨ho.account, ?_, ?_, ?_, ?_⟩
  · have hcount := h.closings_eq
    rw [hunsealed hbefore] at hcount
    rw [hunsealed hafter]
    exact ho.count_eq.trans hcount
  · intro ticket hmem
    rw [h.waits ticket (ho.waits ticket hmem)] at hbefore
    cases hbefore
  · intro hjoined
    rw [hafter] at hjoined
    cases hjoined
  · intro hover
    rcases hover with hp | hp <;> rw [hp] at hafter <;> cases hafter

theorem join (h : s.Teardown) (hp : s.phase = .closing .joining) (hh : s.handlersDone = true)
    (hw : s.watcher = .done) : { s with phase := .closing .sealing }.Teardown where
  account := h.account
  closings_eq := (h.closings_of hp :)
  waits := fun _ hmem => nomatch hp.symm.trans (h.waits _ hmem)
  joined := fun _ => ⟨hh, hw⟩
  finished := by
    intro hover
    rcases hover with hphase | hphase <;> cases hphase

theorem offerClose (h : s.Teardown) (hp : s.phase = .closing .sealing) {receipt : Receipt}
    {o : Output} (ho : s.output.send .close = (receipt, o)) {stage : Closing}
    (hstage : (∃ ticket, receipt = .waiting ticket ∧ stage = .offering ticket) ∨
      (∀ ticket, receipt ≠ .waiting ticket) ∧ stage = .draining) :
    { s with output := o, phase := .closing stage }.Teardown := by
  have hout : (s.output.send .close).2 = o := congrArg Prod.snd ho
  have hreceipt : (s.output.outbox.send .close).1 = receipt := congrArg Prod.fst ho
  have hzero : s.closings = 0 := h.closings_of hp
  have hopen := h.outbox_open (hp ▸ rfl)
  have hjoined := h.joined (hp ▸ rfl)
  subst hout
  refine ⟨h.account.send .close, ?_, ?_, fun _ => hjoined, ?_⟩
  · have hone : (s.output.outbox.send .close).2.offered.count .close = 1 := by
      rw [Outbox.offered_send, hopen]
      rw [closings] at hzero
      simp [List.count_append, hzero]
    have hsealed : (Phase.closing stage).hasSealed = true := by
      rcases hstage with ⟨ticket, _, rfl⟩ | ⟨_, rfl⟩ <;> rfl
    show (s.output.outbox.send .close).2.offered.count .close = _
    rw [hone, hsealed]
    rfl
  · intro ticket hmem
    rcases Outbox.mem_waiting_send hmem with hold | ⟨_, hnew⟩
    · have hphase := h.waits ticket hold
      rw [hp] at hphase
      cases hphase
    · rcases hstage with ⟨ticket', hw, rfl⟩ | ⟨hw, _⟩
      · rw [← hreceipt, hnew] at hw
        cases hw
        rfl
      · rw [hreceipt] at hnew
        exact absurd hnew (hw ticket)
  · intro hover
    rcases hstage with ⟨ticket, _, rfl⟩ | ⟨_, rfl⟩ <;> rcases hover with hphase | hphase <;>
      cases hphase

theorem admitClose (h : s.Teardown) {ticket : Nat} (hp : s.phase = .closing (.offering ticket))
    (hst : s.output.outbox.standing ticket ≠ .waiting) :
    { s with phase := .closing .draining }.Teardown where
  account := h.account
  closings_eq := (h.closings_of hp :)
  waits := by
    intro ticket' hmem
    have hphase := h.waits ticket' hmem
    rw [hp] at hphase
    cases hphase
    refine absurd ?_ hst
    rw [Outbox.standing, if_pos]
    exact List.any_eq_true.mpr ⟨_, hmem, beq_self_eq_true ticket⟩
  joined := fun _ => h.joined (hp ▸ rfl)
  finished := by
    intro hover
    rcases hover with hphase | hphase <;> cases hphase

theorem drained (h : s.Teardown) (hp : s.phase = .closing .draining)
    (hf : s.output.phase = .finished) : { s with phase := .closing .leaving }.Teardown where
  account := h.account
  closings_eq := (h.closings_of hp :)
  waits := fun _ hmem => nomatch hp.symm.trans (h.waits _ hmem)
  joined := fun _ => h.joined (hp ▸ rfl)
  finished := fun _ => hf

theorem hangUp (h : s.Teardown) (hp : s.phase = .closing .leaving) : s.hangUp.Teardown where
  account := h.account.takeWriter
  closings_eq := (h.closings_of hp :)
  waits := fun _ hmem => nomatch hp.symm.trans (h.waits _ hmem)
  joined := fun _ => h.joined (hp ▸ rfl)
  finished := fun _ => h.finished (.inl hp)

/-- **Every move keeps the invariant.** -/
theorem move {a : Action} (h : s.Teardown) (hm : Move s a s') : s'.Teardown := by
  have hout := Output.Keeps.refl h.account
  cases hm with
  -- Handlers, and tasks that outlive them
  | write hi => exact h.stay rfl (.of_send h.account (by simp) rfl) id id
  | abandonRequest hi => exact h.stay rfl hout id id
  | popReason hi => exact h.stay rfl hout id id
  | setAcl hi => exact h.stay rfl hout id id
  | agree hi => exact h.stay rfl hout (fun hd => handlersDone_modify hd _ rfl (fun _ => id)) id
  | handlerReturns hi hrun =>
      exact h.stay rfl hout (fun hd => handlersDone_modify hd _ rfl (fun _ _ => by simp)) id
  | handlerPanics hi hrun =>
      exact h.stay rfl hout (fun hd => handlersDone_modify hd _ rfl (fun _ _ => by simp)) id
  | stop => exact h.stay rfl hout id id
  -- The reading, while it waits for octets
  | receive hw =>
      obtain ⟨hp, -⟩ := waitsFor_eq_some.mp hw
      exact h.goOn (hp ▸ rfl) (hp ▸ rfl) hout
  | clientClosed hw =>
      obtain ⟨hp, -⟩ := waitsFor_eq_some.mp hw
      exact h.goOn (hp ▸ rfl) rfl hout
  | cutShort hw =>
      obtain ⟨hp, -⟩ := waitsFor_eq_some.mp hw
      exact h.goOn (hp ▸ rfl) rfl hout
  | loseConnection hw =>
      obtain ⟨hp, -⟩ := waitsFor_eq_some.mp hw
      exact h.goOn (hp ▸ rfl) rfl hout
  | expire hl hw =>
      obtain ⟨hp, -⟩ := waitsFor_eq_some.mp hw
      exact h.goOn (hp ▸ rfl) rfl hout
  -- The reading, when it goes on
  | interrupt hp => exact h.goOn (hp ▸ rfl) rfl hout
  | noSource hp => exact h.goOn (hp ▸ rfl) rfl hout
  | refuse hp => exact h.goOn (hp ▸ rfl) rfl hout
  | undecodable hc => exact h.goOn (hc.reading ▸ rfl) rfl hout
  | unbind hc => exact h.goOn (hc.reading ▸ rfl) rfl hout
  | startTls hc => exact h.goOn (hc.reading ▸ rfl) rfl hout
  | dispatch hc => exact h.goOn (hc.reading ▸ rfl) (hc.reading ▸ rfl) hout
  -- The reading, after a request to encrypt the connection
  | servantPanicked hp => exact h.goOn (hp ▸ rfl) rfl hout
  | declined hr => exact h.goOn (hr.serving ▸ rfl) rfl hout
  | alreadySecured hr => exact h.goOn (hr.serving ▸ rfl) rfl hout
  | noAcceptor hr => exact h.goOn (hr.serving ▸ rfl) rfl hout
  | sourceGone hr => exact h.goOn (hr.serving ▸ rfl) rfl hout
  | pipelined hr => exact h.goOn (hr.serving ▸ rfl) rfl hout
  | pauseQueued hr hs hb ho =>
      exact h.goOn (hr.serving ▸ rfl) rfl (requestPause_keeps h.account ho)
  | pauseOffered hr hs hb ho =>
      exact h.goOn (hr.serving ▸ rfl) rfl (requestPause_keeps h.account ho)
  | pauseRefused hr hs hb ho =>
      exact h.goOn (hr.serving ▸ rfl) rfl (requestPause_keeps h.account ho)
  | pauseAdmitted hp => exact h.goOn (hp ▸ rfl) rfl hout
  | pauseTurnedAway hp => exact h.goOn (hp ▸ rfl) rfl hout
  | writerMissing hp => exact h.goOn (hp ▸ rfl) rfl (.endPause h.account _ _)
  | writerSecure hp =>
      exact h.goOn (hp ▸ rfl) rfl
        (.trans (.takeWriter h.account) (.endPause h.account.takeWriter _ _))
  | takeWriter hp => exact h.goOn (hp ▸ rfl) rfl (.takeWriter h.account)
  | pauseLost hp => exact h.goOn (hp ▸ rfl) rfl hout
  | giveUp hp => exact h.goOn (hp ▸ rfl) rfl (.endPause h.account _ _)
  | upgraded hp =>
      exact h.goOn (hp ▸ rfl) rfl
        (.trans (.putSecure h.account) (.endPause h.account.putSecure _ _))
  | handshakeFails hp => exact h.goOn (hp ▸ rfl) rfl (.endPause h.account _ _)
  -- The watcher
  | silenced hw => exact h.stay rfl hout id (fun _ => rfl)
  | noticeQueued hw hc hs ho =>
      exact h.stay rfl (.of_send h.account (by simp) ho) id (fun hd => nomatch hw.symm.trans hd)
  | noticeOffered hw hc hs ho =>
      exact h.stay rfl (.of_send h.account (by simp) ho) id (fun hd => nomatch hw.symm.trans hd)
  | noticeRefused hw hc hs ho =>
      exact h.stay rfl (.of_send h.account (by simp) ho) id (fun hd => nomatch hw.symm.trans hd)
  | noticeAdmitted hw => exact h.stay rfl hout id (fun hd => nomatch hw.symm.trans hd)
  | noticeTurnedAway hw => exact h.stay rfl hout id (fun hd => nomatch hw.symm.trans hd)
  | watcherInterrupts hw => exact h.stay rfl hout id (fun _ => rfl)
  -- Closing down
  | silence hp => exact h.goOn (hp ▸ rfl) rfl hout
  | stopReading hp => exact h.goOn (hp ▸ rfl) rfl hout
  | sweep hp => exact h.goOn (hp ▸ rfl) rfl hout
  | join hp hh hw => exact h.join hp hh hw
  | closeQueued hp ho => exact h.offerClose hp ho (.inr ⟨fun _ => nofun, rfl⟩)
  | closeOffered hp ho => exact h.offerClose hp ho (.inl ⟨_, rfl, rfl⟩)
  | closeRefused hp ho => exact h.offerClose hp ho (.inr ⟨fun _ => nofun, rfl⟩)
  | closeAdmitted hp hst => exact h.admitClose hp hst
  | drained hp hf => exact h.drained hp hf
  | hangUp hp => exact h.hangUp hp
  -- The output
  | emit ho =>
      exact h.stay rfl (.turn h.account h.closings_le (Output.turn_of_step? ho)) id id

theorem start {options : Options} {info : SessionInfo} {stopping : Bool}
    (h : start? options info stopping = some s) : s.Teardown := by
  obtain ⟨-, rfl⟩ := start?_eq_some h
  have hempty (c : Channel) : ({} : Wires).on c = [] := by cases c <;> rfl
  refine ⟨⟨⟨Nat.zero_le _, fun _ => rfl⟩, by simp [Outbox.gone], rfl, nofun, ?_, ?_⟩,
    rfl, nofun, nofun, nofun⟩
  · intro _
    exact (List.append_nil _).trans (hempty .secure)
  · intro _
    exact ⟨[], [], rfl, (List.append_nil _).trans (hempty .plain),
      (List.append_nil _).trans (hempty .secure)⟩

theorem run {options : Options} {info : SessionInfo} {stopping : Bool} {s₀ : Session}
    {actions : List Action} (h₀ : start? options info stopping = some s₀)
    (h : s₀.run? actions = some s) : s.Teardown :=
  run?_induction (motive := fun _ s => s.Teardown) (start h₀) (fun _ hmid hm => hmid.move hm) h

end Teardown

/-! ## The promise -/

/-- What is promised of a session in every state that it comes to. -/
structure ClosesDown (s : Session) : Prop where
  /-- The closing item is never offered twice. -/
  once : s.closings ≤ 1
  /-- It is the closing down that offers it, when every handler and the watcher have finished. -/
  last : ∀ {a s'}, s.step? a = some s' → s.closings < s'.closings →
    a = .close ∧ s.handlersDone = true ∧ s.watcher = .done
  /-- Once they have finished, nothing keeps it from being offered. -/
  due : s.phase = .closing .joining → s.handlersDone = true → s.watcher = .done →
    ∃ s', s.run? [.close, .close] = some s' ∧ s'.closings = 1
  /-- Nobody begins anew afterwards. -/
  still : 0 < s.closings → s.handlersDone = true ∧ s.watcher = .done
  /-- When the output is waited for, the closing item was let in, and only once. -/
  letIn : s.phase = .closing .draining ∨ s.phase = .closing .leaving ∨ s.phase = .closed →
    s.output.outbox.admitted.count .close = 1
  /-- Before the connection is given up, and ever after, the messages that were let in ahead of the
  closing item are on the connection, in that order, each once and whole: a first part of them in the
  clear and the others encrypted. -/
  written : s.phase = .closing .leaving ∨ s.phase = .closed → s.output.failed = false →
    ∃ clear secret behind,
      s.output.outbox.admitted = clear ++ secret ++ .close :: behind ∧
      .close ∉ clear ++ secret ∧
      s.output.wires.on .plain = Item.spelled clear ∧
      s.output.wires.on .secure = Item.spelled secret

namespace Teardown

/-- There is one place from which a session comes to the phases behind the offer. -/
theorem hasSealed_of_move {a : Action} (hm : Move s a s') (hsealed : s'.phase.hasSealed = true) :
    s.phase.hasSealed = true ∨ a = .close ∧ s.phase = .closing .sealing := by
  cases hm with
  | closeQueued hp => exact .inr ⟨rfl, hp⟩
  | closeOffered hp => exact .inr ⟨rfl, hp⟩
  | closeRefused hp => exact .inr ⟨rfl, hp⟩
  | closeAdmitted hp => exact .inl (hp ▸ rfl)
  | drained hp => exact .inl (hp ▸ rfl)
  | hangUp hp => exact .inl (hp ▸ rfl)
  -- All other moves leave the phase as it is, or lead to one ahead of the offer.
  | _ => first | exact .inl hsealed | cases hsealed

theorem last (h : s.Teardown) {a : Action} (hm : Move s a s') (hlt : s.closings < s'.closings) :
    a = .close ∧ s.handlersDone = true ∧ s.watcher = .done := by
  have hbefore := h.closings_eq
  have hafter := (h.move hm).closings_eq
  cases hs' : s'.phase.hasSealed with
  | false =>
      rw [hs'] at hafter
      rw [hafter] at hlt
      exact absurd hlt (Nat.not_lt_zero _)
  | true =>
      rcases hasSealed_of_move hm hs' with hs | ⟨ha, hp⟩
      · rw [hs] at hbefore
        rw [hs'] at hafter
        rw [hbefore, hafter] at hlt
        exact absurd hlt (Nat.lt_irrefl _)
      · exact ⟨ha, h.joined (hp ▸ rfl)⟩

theorem due (h : s.Teardown) (hp : s.phase = .closing .joining) (hh : s.handlersDone = true)
    (hw : s.watcher = .done) : ∃ s', s.run? [.close, .close] = some s' ∧ s'.closings = 1 := by
  have hjoined : s.step? .close = some { s with phase := .closing .sealing } := by
    show s.close = _
    rw [close, hp]
    exact if_pos ⟨hh, hw⟩
  have hsealed (t : Session) : t.sealOutbox.phase.hasSealed = true := by
    unfold sealOutbox
    split <;> rfl
  refine ⟨({ s with phase := .closing .sealing } : Session).sealOutbox, ?_, ?_⟩
  · rw [run?, List.foldlM_cons, hjoined]
    rfl
  · have hafter := ((h.join hp hh hw).move (move_of_sealOutbox rfl)).closings_eq
    rw [hsealed] at hafter
    exact hafter

theorem still (h : s.Teardown) (hpos : 0 < s.closings) :
    s.handlersDone = true ∧ s.watcher = .done := by
  apply h.joined
  rw [h.closings_eq] at hpos
  cases hp : s.phase with
  | closing stage => cases stage <;> first | rfl | simp [hp, Phase.hasSealed] at hpos
  | closed => rfl
  | _ => simp [hp, Phase.hasSealed] at hpos

theorem still_of_hasSealed (h : s.Teardown) (hp : s.phase.hasSealed = true) :
    s.handlersDone = true ∧ s.watcher = .done := by
  apply h.still
  rw [h.closings_eq, hp]
  exact Nat.one_pos

theorem letIn (h : s.Teardown) (hp : s.phase = .closing .draining ∨ s.phase = .closing .leaving ∨
    s.phase = .closed) : s.output.outbox.admitted.count .close = 1 := by
  have hone : s.closings = 1 := by
    rcases hp with hp | hp | hp <;> exact h.closings_of hp
  have hnobody : (s.output.outbox.waiting.map (·.2)).count .close = 0 := by
    rw [List.count_eq_zero]
    intro hmem
    obtain ⟨⟨ticket, item⟩, hentry, rfl⟩ := List.mem_map.mp hmem
    have hphase := h.waits ticket hentry
    rcases hp with hp | hp | hp <;> cases hp.symm.trans hphase
  rw [closings, Outbox.offered, List.count_append, hnobody] at hone
  exact hone

/-- When the output has finished, everything was taken and nothing is left to be written. -/
theorem written (h : s.Teardown) (hp : s.phase = .closing .leaving ∨ s.phase = .closed)
    (hf : s.output.failed = false) :
    ∃ clear secret behind,
      s.output.outbox.admitted = clear ++ secret ++ .close :: behind ∧
      .close ∉ clear ++ secret ∧
      s.output.wires.on .plain = Item.spelled clear ∧
      s.output.wires.on .secure = Item.spelled secret := by
  have hfinished := h.finished hp
  have hgone := Outbox.gone_eq_admitted (h.account.finished hfinished).2
  have hclose : .close ∈ s.output.outbox.admitted :=
    List.count_pos_iff.mp (by rw [h.letIn (.inr hp)]; exact Nat.one_pos)
  obtain ⟨front, behind, hsplit, hfront⟩ := List.eq_append_cons_of_mem hclose
  obtain ⟨clear, secret, heq, hplain, hsecure⟩ := h.account.spells hf
  have hsent (c : Channel) : s.output.sent c = s.output.wires.on c := by
    simp [Output.sent, Output.left, hfinished]
  rw [hgone, hsplit, Item.ahead_of_split hfront] at heq
  rw [hsent] at hplain hsecure
  subst heq
  exact ⟨clear, secret, behind, hsplit, hfront, hplain, hsecure⟩

end Teardown

/-- **No response is lost when a session closes down.** Whatever order the parties work in, however
the reading ends and whatever the handlers do, the item that closes the outbox is queued once, after
the handlers and the watcher have finished, and all that was queued ahead of it has been written when
the connection is given up. -/
theorem closesDown_of_run {options : Options} {info : SessionInfo} {stopping : Bool}
    {s₀ s : Session} {actions : List Action} (h₀ : start? options info stopping = some s₀)
    (hrun : s₀.run? actions = some s) : s.ClosesDown := by
  have h := Teardown.run h₀ hrun
  exact ⟨h.closings_le, fun hstep hlt => h.last (move_of_step? hstep) hlt, h.due, h.still, h.letIn,
    h.written⟩

def lateRequest : Message := { id := 7, op := .other 0x4A [0x64, 0x63] }

def lateResponse : Message := { id := 7, op := .plainResponse .delete .success }

/-- A client closes its side at once, and its request is answered after that. -/
def lateActions : List Action :=
  [.receive lateRequest.encode, .read, .endOfStream, .close, .close, .close, .watch,
    .handler 0 (.write lateResponse), .handler 0 .return, .close, .close, .output .take,
    .output (.write 1), .output (.write (lateResponse.encode.length - 1)), .output .take,
    .output .take, .close, .close]

/-- The response of a handler that is late is on the connection in the end. -/
theorem closesDown_late : ∃ s₀ s,
    start? {} ⟨1, .short ⟨192, 0, 2, 1⟩ 40000, .short ⟨192, 0, 2, 2⟩ 389, false, {}⟩ false =
      some s₀ ∧
    s₀.run? lateActions = some s ∧ s.ClosesDown ∧ s.phase = .closed ∧ s.output.failed = false ∧
    s.output.wires.on .plain = lateResponse.encode := by
  have hends : ((start? {} ⟨1, .short ⟨192, 0, 2, 1⟩ 40000, .short ⟨192, 0, 2, 2⟩ 389, false, {}⟩
      false).bind (·.run? lateActions)).any (fun s => s.phase = .closed ∧ s.output.failed = false ∧
        s.output.wires.on .plain = lateResponse.encode) = true := by
    decide +kernel
  obtain ⟨s, hs, hend⟩ := (Option.any_eq_true _ _).mp hends
  obtain ⟨s₀, h₀, hrun⟩ := Option.bind_eq_some_iff.mp hs
  exact ⟨s₀, s, h₀, hrun, closesDown_of_run h₀ hrun, of_decide_eq_true hend⟩

end Directory.Session
