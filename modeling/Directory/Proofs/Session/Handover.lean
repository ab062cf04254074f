import Directory.Proofs.Session.Passage

/-!
# Handing the output over

An upgrade has the output pause at one place of its queue, takes the writer in the clear out of its
place, and puts an encrypted one there. An upgrade comes to four stages, one after the other: no pause
was asked for (`Unasked`); the pause is in the outbox or waits for room (`Awaited`); the output is in
it (`Held`); it was ended, with the upgrade or without (`Ended`). A session never asks for a second
pause: after the first one it is encrypted or over.

The stages say which writer stands in its place while the output is ready, so what was taken ahead of
the pause is written in the clear, and what was taken behind it encrypted (`Output.Placed`). The whole
of it is the invariant `Handover`.
-/

namespace Directory

/-- The place of a pause among all that was offered: what is ahead of it was offered before. -/
structure Output.Divided (o : Output) (before : List Item) : Prop where
  offered : ∃ behind, o.outbox.offered = before ++ .pause 0 :: behind ∧
    ∀ item ∈ behind, item.isPause = false
  unpaused : ∀ item ∈ before, item.isPause = false
  unsealed : .close ∉ before

namespace Item

variable {front front' back back' : List Item} {n n' : Nat} {item : Item}

/-- A list with one pause has one place for it. -/
theorem split_unique (h : front' ++ .pause n' :: back' = front ++ .pause n :: back)
    (hfront : ∀ item ∈ front, item.isPause = false)
    (hback : ∀ item ∈ back, item.isPause = false) : front' = front ∧ n' = n ∧ back' = back := by
  rcases List.append_eq_append_iff.mp h with ⟨t, rfl, hrest⟩ | ⟨t, rfl, hrest⟩
  · cases t with
    | nil =>
        cases hrest
        exact ⟨(List.append_nil _).symm, rfl, rfl⟩
    | cons first t =>
        cases hrest
        cases hfront (.pause n') (by simp)
  · cases t with
    | nil =>
        cases hrest
        exact ⟨List.append_nil _, rfl, rfl⟩
    | cons first t =>
        cases hrest
        cases hback (.pause n') (by simp)

/-- What is taken next, with nothing but items ahead of the pause taken so far. -/
theorem next_of_prefix {gone : List Item} (hgone : gone <+: front)
    (h : gone ++ [item] <+: front ++ .pause n :: back) :
    gone ++ [item] <+: front ∨ gone = front ∧ item = .pause n := by
  obtain ⟨t, rfl⟩ := hgone
  rw [List.append_assoc, List.prefix_append_right_inj] at h
  cases t with
  | nil =>
      rw [List.nil_append, List.cons_prefix_cons] at h
      exact .inr ⟨(List.append_nil _).symm, h.1⟩
  | cons first t =>
      rw [List.cons_append, List.cons_prefix_cons] at h
      rw [h.1]
      exact .inl ((List.prefix_append_right_inj gone).mpr (List.prefix_append [first] t))

end Item

namespace Output

variable {o o' : Output} {before : List Item}

theorem mem_offered_of_takes (h : o.Account) {item : Item} {outbox : Outbox Item}
    (ht : o.Takes item outbox) : o.outbox.gone ++ [item] <+: o.outbox.offered := by
  rw [← Outbox.gone_of_take h.sound ht.take_eq, ← Outbox.offered_of_take ht.take_eq]
  exact Outbox.gone_prefix_offered outbox

namespace Divided

theorem alike (h : o.Divided before) (ha : o.Alike o') : o'.Divided before := by
  obtain ⟨behind, hoffered, hbehind⟩ := h.offered
  obtain ⟨items, hadded, hitems⟩ := ha.added
  refine ⟨⟨behind ++ items, ?_, ?_⟩, h.unpaused, h.unsealed⟩
  · rw [hadded, hoffered, List.append_assoc, List.cons_append]
  · intro item hmem
    rcases List.mem_append.mp hmem with hmem | hmem
    · exact hbehind item hmem
    · exact hitems item hmem

theorem congr (h : o.Divided before) (ho : o'.outbox.offered = o.outbox.offered) :
    o'.Divided before := by
  refine ⟨?_, h.unpaused, h.unsealed⟩
  rw [ho]
  exact h.offered

/-- What was let in keeps the place of a pause that was let in. -/
theorem admitted (h : o.Divided before) {outbox : Outbox Item}
    (ho : outbox.offered = o.outbox.offered) (hin : before ++ [.pause 0] <+: outbox.admitted)
    (ho' : o'.outbox.offered = outbox.admitted) : o'.Divided before := by
  obtain ⟨behind, hoffered, hbehind⟩ := h.offered
  obtain ⟨rest, hrest⟩ := hin
  have hadmitted : outbox.admitted = before ++ .pause 0 :: rest := by
    rw [← hrest, List.append_assoc]
    rfl
  have hsub : rest ⊆ behind := by
    rw [← ho, Outbox.offered, hadmitted, List.append_assoc, List.append_cancel_left_eq,
      List.cons_append, List.cons.injEq] at hoffered
    rw [← hoffered.2]
    exact List.subset_append_left ..
  refine ⟨⟨rest, ?_, fun item hmem => hbehind item (hsub hmem)⟩, h.unpaused, h.unsealed⟩
  rw [ho', hadmitted]

theorem not_isPause_of_takes (h : o.Divided before) (ha : o.Account)
    (hgone : before ++ [.pause 0] <+: o.outbox.gone) {item : Item} {outbox : Outbox Item}
    (ht : o.Takes item outbox) : item.isPause = false := by
  obtain ⟨behind, hoffered, hbehind⟩ := h.offered
  obtain ⟨rest, hrest⟩ := hgone
  have hpre := mem_offered_of_takes ha ht
  rw [← hrest, hoffered, List.append_assoc, List.append_assoc, List.prefix_append_right_inj,
    List.singleton_append, List.cons_prefix_cons] at hpre
  exact hbehind item (hpre.2.subset (by simp))

end Divided

end Output

namespace Session

variable {encrypted : Bool} {before : List Item} {s s' : Session} {a : Action}

/-! ## The stages -/

structure Unasked (encrypted : Bool) (s : Session) : Prop where
  pauses_eq : s.output.pauses = []
  unpaused : ∀ item ∈ s.output.outbox.offered, item.isPause = false
  ready : ∀ n, s.output.phase ≠ .paused n
  phase : s.phase.isHandingOver = false
  tls_eq : s.info.tls = encrypted
  writer_eq : s.output.writer = if s.phase = .closed then none else some (firstChannel encrypted)

/-- The pause was asked for, and the output has not come to it. -/
structure Awaited (before : List Item) (s : Session) : Prop where
  divided : s.output.Divided before
  pauses_eq : s.output.pauses = [{}]
  gone : s.output.outbox.gone <+: before
  ready : ∀ n, s.output.phase ≠ .paused n
  phase : s.phase = .pausing 0 ∨ ∃ ticket, s.phase = .offering ticket 0
  tls_eq : s.info.tls = false
  writer_eq : s.output.writer = some .plain

/-- The output is in the pause, and nobody has ended it. -/
structure Held (before : List Item) (s : Session) : Prop where
  divided : s.output.Divided before
  pauses_eq : s.output.pauses = [{ reported := true }]
  gone_eq : s.output.outbox.gone = before ++ [.pause 0]
  paused : s.output.phase = .paused 0
  phase : (s.phase = .pausing 0 ∨ ∃ ticket, s.phase = .offering ticket 0) ∧
    s.output.writer = some .plain ∨ s.phase = .shaking 0 ∧ s.output.writer = none
  tls_eq : s.info.tls = false
  clear : s.output.wires.on .secure = []

/-- The pause was ended: the connection is encrypted, or the session is over and no message is begun
any more. -/
structure Ended (before : List Item) (s : Session) : Prop where
  divided : s.output.Divided before
  pauses_eq : s.output.pauses = [{ reported := true, ending := some true }]
  gone : before ++ [.pause 0] <+: s.output.outbox.gone
  paused : ∀ n, s.output.phase = .paused n → n = 0
  phase : s.phase.isHandingOver = false
  outcome : s.info.tls = true ∧
      s.output.writer = (if s.phase = .closed then none else some .secure) ∨
    s.info.tls = false ∧ s.phase.isOver = true ∧ s.output.writer = none ∧
      s.output.wires.on .secure = [] ∧ ∀ c left, s.output.phase ≠ .writing c left

theorem Awaited.handingOver (h : s.Awaited before) : s.phase.isHandingOver = true := by
  rcases h.phase with hp | ⟨ticket, hp⟩ <;> rw [hp] <;> rfl

theorem Held.handingOver (h : s.Held before) : s.phase.isHandingOver = true := by
  rcases h.phase with ⟨hp | ⟨ticket, hp⟩, -⟩ | ⟨hp, -⟩ <;> rw [hp] <;> rfl

/-- A phase aside of the upgrade stays so, unless the phase stays as it is. -/
theorem isHandingOver_of_aside (h : s.phase.isHandingOver = false)
    (hp : s'.phase = s.phase ∨ s.phase.isAside = true ∧ s'.phase.isAside = true ∧
      (s.phase.isOver = true → s'.phase.isOver = true)) :
    s'.phase.isHandingOver = false ∧ (s'.phase = .closed ↔ s.phase = .closed) ∧
      (s.phase.isOver = true → s'.phase.isOver = true) := by
  rcases hp with heq | ⟨hbefore, hafter, hover⟩
  · rw [heq]
    exact ⟨h, Iff.rfl, id⟩
  · refine ⟨Phase.isHandingOver_of_isAside hafter, ?_, hover⟩
    constructor <;> intro hclosed
    · rw [hclosed] at hafter
      cases hafter
    · rw [hclosed] at hbefore
      cases hbefore

theorem phase_eq_of_aside (h : s.phase.isHandingOver = true)
    (hp : s'.phase = s.phase ∨ s.phase.isAside = true ∧ s'.phase.isAside = true ∧
      (s.phase.isOver = true → s'.phase.isOver = true)) : s'.phase = s.phase := by
  rcases hp with heq | ⟨hbefore, -⟩
  · exact heq
  · rw [Phase.isHandingOver_of_isAside hbefore] at h
    cases h

/-! ## From stage to stage -/

theorem Phase.hasSealed_of_isHandingOver {p : Phase} (h : p.isHandingOver = true) :
    p.hasSealed = false := by
  cases p <;> first | rfl | cases h

/-- The outbox is open during an upgrade, and an open outbox turns nobody away. -/
theorem Teardown.not_refused (h : s.Teardown) (hp : s.phase.isHandingOver = true)
    (hrefused : s.output.outbox.closed = false → s.output.outbox.refused = []) {ticket : Nat} :
    s.output.outbox.standing ticket ≠ .refused := by
  intro hst
  rw [Outbox.standing, hrefused (h.outbox_open (Phase.hasSealed_of_isHandingOver hp))] at hst
  split at hst <;> simp at hst

namespace Unasked

/-- A pause is asked for: it is put behind all that was offered so far. -/
theorem ask (h : s.Unasked encrypted) (ht : s.Teardown) {r : Nat} {i : Invocation}
    {receipt : Receipt} (hr : s.Agreed r i) (ho : s.requestPause = (receipt, s'.output))
    (htls : s'.info.tls = s.info.tls)
    (hp : receipt = .queued ∧ s'.phase = .pausing s.output.nextPause ∨
      (∃ ticket, receipt = .waiting ticket ∧ s'.phase = .offering ticket s.output.nextPause) ∨
      receipt = .closed) : s'.Awaited s.output.outbox.offered := by
  have hopen := ht.outbox_open (hr.serving ▸ rfl)
  have hnext : s.output.nextPause = 0 := congrArg List.length h.pauses_eq
  have hout : (s.output.openPause.send (.pause 0)).2 = s'.output := by
    rw [← hnext]
    exact congrArg Prod.snd ho
  refine ⟨⟨⟨[], ?_, nofun⟩, h.unpaused, ht.close_not_mem (hr.serving ▸ rfl)⟩, ?_, ?_, ?_, ?_, ?_, ?_⟩
  · rw [← hout]
    show (s.output.outbox.send (.pause 0)).2.offered = _
    rw [Outbox.offered_send, hopen]
    rfl
  · rw [← hout]
    show s.output.pauses ++ [({} : Pause)] = _
    rw [h.pauses_eq]
    rfl
  · rw [← hout]
    show (s.output.outbox.send (.pause 0)).2.gone <+: _
    rw [Outbox.gone_send ht.account.sound]
    exact Outbox.gone_prefix_offered _
  · rw [← hout]
    exact h.ready
  · rcases hp with ⟨-, hp⟩ | ⟨ticket, -, hp⟩ | hclosed
    · exact .inl (by rw [hp, hnext])
    · exact .inr ⟨ticket, by rw [hp, hnext]⟩
    · -- An open outbox takes the pause or lets it wait.
      have hreceipt : (s.output.outbox.send (.pause s.output.nextPause)).1 = .closed :=
        (congrArg Prod.fst ho).trans hclosed
      rw [(Outbox.closed_of_send (Prod.ext hreceipt rfl)).1] at hopen
      cases hopen
  · exact htls.trans hr.plain
  · have htls' : encrypted = false := h.tls_eq.symm.trans hr.plain
    rw [← hout]
    show s.output.writer = _
    rw [h.writer_eq, hr.serving, htls']
    rfl

theorem emit (h : s.Unasked encrypted) (ht : s.Teardown) {o : Output}
    (hc : s.output.Course o) {events : List Event} {interrupted : Bool} :
    { s with output := o, events, interrupted }.Unasked encrypted := by
  have hnone : ∀ {n outbox}, ¬s.output.Takes (.pause n) outbox := by
    intro n outbox htakes
    have hpre := Output.mem_offered_of_takes ht.account htakes
    cases h.unpaused (.pause n) (hpre.subset (by simp))
  cases hc with
  | passes hbefore hafter hg ho hclosed hr hpauses hw hidle =>
      refine ⟨hpauses.trans h.pauses_eq, ?_, hafter, h.phase, h.tls_eq, hw.trans h.writer_eq⟩
      show ∀ item ∈ o.outbox.offered, item.isPause = false
      rw [ho]
      exact h.unpaused
  | @closes outbox htakes =>
      refine ⟨h.pauses_eq, ?_, h.ready, h.phase, h.tls_eq, h.writer_eq⟩
      intro item hmem
      have hmem' : item ∈ outbox.admitted := by
        rw [← Outbox.offered_close]
        exact hmem
      apply h.unpaused
      rw [← Outbox.offered_of_take htakes.take_eq]
      exact List.mem_append_left _ hmem'
  | pauses htakes => exact absurd htakes hnone
  | skips htakes => exact absurd htakes hnone
  | goesOn hp => exact absurd hp (h.ready _)

theorem pass (h : s.Unasked encrypted) (ht : s.Teardown) (hp : Passage s a s') :
    s'.Unasked encrypted ∨ encrypted = false ∧ s'.Awaited s.output.outbox.offered := by
  cases hp with
  | aside hout htls hp =>
      obtain ⟨hphase, hclosed, -⟩ := isHandingOver_of_aside h.phase hp
      refine .inl ⟨hout.pauses_eq.trans h.pauses_eq, ?_, ?_, hphase, htls.trans h.tls_eq, ?_⟩
      · obtain ⟨items, hadded, hitems⟩ := hout.added
        rw [hadded]
        intro item hmem
        rcases List.mem_append.mp hmem with hmem | hmem
        · exact h.unpaused item hmem
        · exact hitems item hmem
      · rw [hout.phase_eq]
        exact h.ready
      · rw [hout.writer_eq, h.writer_eq]
        simp only [hclosed]
  | asks hr ho htls hp => exact .inr ⟨h.tls_eq.symm.trans hr.plain, h.ask ht hr ho htls hp⟩
  | upgrades hu => cases hu.handingOver.symm.trans h.phase
  | hangsUp hp => exact .inl ⟨h.pauses_eq, h.unpaused, h.ready, rfl, h.tls_eq, rfl⟩
  | emits hturn => exact .inl (h.emit ht (Output.course_of_turn ht.account hturn))

end Unasked

namespace Awaited

/-- The pause has not been taken, so the output still expects it. -/
theorem expects (h : s.Awaited before) : s.output.expects 0 = true := by
  obtain ⟨behind, hoffered, -⟩ := h.divided.offered
  have hmem : .pause 0 ∈ s.output.outbox.offered := by
    rw [hoffered]
    exact List.mem_append_right _ (List.mem_cons_self ..)
  have hgone : .pause 0 ∉ s.output.outbox.gone := fun hmem =>
    nomatch h.divided.unpaused _ (h.gone.subset hmem)
  rw [Outbox.offered, ← Outbox.gone_append_items, List.append_assoc, List.mem_append,
    List.mem_append] at hmem
  rcases hmem with hmem | hmem | hmem
  · exact absurd hmem hgone
  · simp [Output.expects, hmem]
  · obtain ⟨⟨ticket, item⟩, hwaiting, rfl⟩ := List.mem_map.mp hmem
    have hany : s.output.outbox.waiting.any (·.2 == .pause 0) = true :=
      List.any_eq_true.mpr ⟨_, hwaiting, beq_self_eq_true _⟩
    simp [Output.expects, hany]

theorem emit (h : s.Awaited before) (ht : s.Teardown) {o : Output} (hc : s.output.Course o)
    {events : List Event} {interrupted : Bool} :
    { s with output := o, events, interrupted }.Awaited before ∨
      { s with output := o, events, interrupted }.Held before := by
  obtain ⟨behind, hoffered, hbehind⟩ := h.divided.offered
  have hnext {item : Item} {outbox : Outbox Item} (htakes : s.output.Takes item outbox) :
      outbox.gone = s.output.outbox.gone ++ [item] ∧
        (outbox.gone <+: before ∨ s.output.outbox.gone = before ∧ item = .pause 0) := by
    have hpre := Output.mem_offered_of_takes ht.account htakes
    have hgone := Outbox.gone_of_take ht.account.sound htakes.take_eq
    rw [hoffered] at hpre
    rw [hgone]
    exact ⟨rfl, Item.next_of_prefix h.gone hpre⟩
  cases hc with
  | passes hbefore hafter hg ho hclosed hr hpauses hw hidle =>
      refine .inl ⟨h.divided.congr ho, hpauses.trans h.pauses_eq, ?_, hafter, h.phase, h.tls_eq,
        hw.trans h.writer_eq⟩
      show o.outbox.gone <+: before
      rcases hg with hg | ⟨item, hitem, hg⟩
      · rw [hg]
        exact h.gone
      · -- What was taken is no pause, so it is still one of those ahead of it.
        have hpre : o.outbox.gone <+: o.outbox.offered := Outbox.gone_prefix_offered _
        rw [ho, hoffered, hg] at hpre
        rw [hg]
        rcases Item.next_of_prefix h.gone hpre with hpre | ⟨-, rfl⟩
        · exact hpre
        · cases hitem
  | closes htakes =>
      -- The closing item is offered later, when the handlers have been waited for.
      have hpre := Output.mem_offered_of_takes ht.account htakes
      exact absurd (hpre.subset (by simp))
        (ht.close_not_mem (Phase.hasSealed_of_isHandingOver h.handingOver))
  | @pauses n outbox htakes hw =>
      obtain ⟨hgone, hpre | ⟨hbefore, hn⟩⟩ := hnext htakes
      · cases h.divided.unpaused (.pause n) (hpre.subset (by simp [hgone]))
      · cases hn
        refine .inr ⟨h.divided.congr (Outbox.offered_of_take htakes.take_eq), ?_, ?_, rfl,
          .inl ⟨h.phase, h.writer_eq⟩, h.tls_eq, ?_⟩
        · show s.output.pauses.modify 0 _ = _
          rw [h.pauses_eq]
          rfl
        · exact hgone.trans (by rw [hbefore])
        · exact (List.append_eq_nil_iff.mp (ht.account.unmixed h.writer_eq)).1
  | @skips n outbox htakes hw =>
      obtain ⟨hgone, hpre | ⟨hbefore, hn⟩⟩ := hnext htakes
      · cases h.divided.unpaused (.pause n) (hpre.subset (by simp [hgone]))
      · cases hn
        rw [h.pauses_eq] at hw
        cases hw
  | goesOn hp => exact absurd hp (h.ready _)

/-- Before the output is in the pause an upgrade comes no further than to waiting for it. -/
theorem upgrade (h : s.Awaited before) (ht : s.Teardown)
    (hrefused : s.output.outbox.closed = false → s.output.outbox.refused = [])
    (hu : s.Upgrading s') : s'.Awaited before := by
  have hpausing {n : Nat} (hphase : s.phase = .pausing n) : n = 0 := by
    rcases h.phase with hp | ⟨ticket, hp⟩ <;> rw [hphase] at hp <;> cases hp
    rfl
  have hunpaused : s.output.hasPaused 0 = false := by
    rw [Output.hasPaused, h.pauses_eq]
    rfl
  cases hu with
  | @admitted ticket n hp =>
      obtain rfl : n = 0 := by
        rcases h.phase with hp' | ⟨ticket', hp'⟩ <;> rw [hp] at hp' <;> cases hp'
        rfl
      exact { h with phase := .inl rfl }
  | turnedAway hp hst => exact absurd hst (ht.not_refused h.handingOver hrefused)
  | fails hp hf =>
      cases hpausing hp
      rcases hf with ⟨hpaused, -⟩ | ⟨-, hlost⟩
      · rw [hunpaused] at hpaused
        cases hpaused
      · rw [h.expects] at hlost
        cases hlost
  | takesWriter hp hpaused =>
      cases hpausing hp
      rw [hunpaused] at hpaused
      cases hpaused
  | succeeds hp => rcases h.phase with hp' | ⟨ticket, hp'⟩ <;> cases hp.symm.trans hp'
  | givesUp hp => rcases h.phase with hp' | ⟨ticket, hp'⟩ <;> cases hp.symm.trans hp'

theorem pass (h : s.Awaited before) (ht : s.Teardown)
    (hrefused : s.output.outbox.closed = false → s.output.outbox.refused = [])
    (hp : Passage s a s') : s'.Awaited before ∨ s'.Held before := by
  have hhanding := h.handingOver
  cases hp with
  | aside hout htls hp =>
      have hphase := phase_eq_of_aside hhanding hp
      refine .inl ⟨h.divided.alike hout, hout.pauses_eq.trans h.pauses_eq, ?_, ?_, ?_,
        htls.trans h.tls_eq, hout.writer_eq.trans h.writer_eq⟩
      · rw [hout.gone_eq]
        exact h.gone
      · rw [hout.phase_eq]
        exact h.ready
      · rw [hphase]
        exact h.phase
  | asks hr =>
      rw [hr.serving] at hhanding
      cases hhanding
  | upgrades hu => exact .inl (h.upgrade ht hrefused hu)
  | hangsUp hp =>
      rw [hp] at hhanding
      cases hhanding
  | emits hturn => exact h.emit ht (Output.course_of_turn ht.account hturn)

end Awaited

namespace Held

/-- An upgrade that goes on keeps the output in the pause, and one that ends ends the pause. -/
theorem upgrade (h : s.Held before) (ht : s.Teardown)
    (hrefused : s.output.outbox.closed = false → s.output.outbox.refused = [])
    (hu : s.Upgrading s') :
    s'.Held before ∧ s'.output.wires = s.output.wires ∨ s'.Ended before := by
  have hpaused : s.output.hasPaused 0 = true := by
    rw [Output.hasPaused, h.pauses_eq]
    rfl
  have hpausing {n : Nat} (hphase : s.phase = .pausing n) :
      n = 0 ∧ s.output.writer = some .plain := by
    rcases h.phase with ⟨hp | ⟨ticket, hp⟩, hw⟩ | ⟨hp, -⟩ <;> rw [hphase] at hp <;> cases hp
    exact ⟨rfl, hw⟩
  have hshaking {n : Nat} (hphase : s.phase = .shaking n) : n = 0 ∧ s.output.writer = none := by
    rcases h.phase with ⟨hp | ⟨ticket, hp⟩, -⟩ | ⟨hp, hw⟩ <;> rw [hphase] at hp <;> cases hp
    exact ⟨rfl, hw⟩
  have hpre : before ++ [.pause 0] <+: s.output.outbox.gone := h.gone_eq ▸ List.prefix_refl _
  have hzero : ∀ n, s.output.phase = .paused n → n = 0 := by
    intro n hphase
    cases h.paused.symm.trans hphase
    rfl
  have hended : (s.output.endPause 0 true).pauses = [{ reported := true, ending := some true }] := by
    show s.output.pauses.modify 0 _ = _
    rw [h.pauses_eq]
    rfl
  cases hu with
  | @admitted ticket n hp =>
      rcases h.phase with ⟨hp' | ⟨ticket', hp'⟩, hw⟩ | ⟨hp', -⟩ <;> rw [hp] at hp' <;> cases hp'
      exact .inl ⟨{ h with phase := .inl ⟨.inl rfl, hw⟩ }, rfl⟩
  | turnedAway hp hst => exact absurd hst (ht.not_refused h.handingOver hrefused)
  | fails hp hf =>
      -- The pause was reported with the writer in the clear in its place: nothing is missing.
      obtain ⟨rfl, hw⟩ := hpausing hp
      rcases hf with ⟨-, hmissing⟩ | ⟨hlost, -⟩
      · exact absurd hw hmissing
      · rw [hpaused] at hlost
        cases hlost
  | takesWriter hp =>
      obtain ⟨rfl, -⟩ := hpausing hp
      exact .inl ⟨⟨h.divided.congr rfl, h.pauses_eq, h.gone_eq, h.paused, .inr ⟨rfl, rfl⟩,
        h.tls_eq, h.clear⟩, rfl⟩
  | succeeds hp =>
      obtain ⟨rfl, -⟩ := hshaking hp
      exact .inr ⟨h.divided.congr rfl, hended, hpre, hzero, rfl, .inl ⟨rfl, rfl⟩⟩
  | givesUp hp ho htls hover =>
      obtain ⟨rfl, hw⟩ := hshaking hp
      refine .inr ⟨h.divided.congr (by rw [ho]; rfl), by rw [ho]; exact hended,
        by rw [ho]; exact hpre, by rw [ho]; exact hzero, by rw [hover]; rfl,
        .inr ⟨htls.trans h.tls_eq, by rw [hover]; rfl, ?_⟩⟩
      rw [ho]
      refine ⟨hw, h.clear, fun c left hphase => ?_⟩
      cases h.paused.symm.trans hphase

/-- Nothing is written in the pause, and it is left when it was ended only. -/
theorem pass (h : s.Held before) (ht : s.Teardown)
    (hrefused : s.output.outbox.closed = false → s.output.outbox.refused = [])
    (hp : Passage s a s') :
    s'.Held before ∧ s'.output.wires = s.output.wires ∨ s'.Ended before := by
  have hhanding := h.handingOver
  cases hp with
  | aside hout htls hp =>
      have hphase := phase_eq_of_aside hhanding hp
      refine .inl ⟨⟨h.divided.alike hout, hout.pauses_eq.trans h.pauses_eq,
        hout.gone_eq.trans h.gone_eq, hout.phase_eq.trans h.paused, ?_, htls.trans h.tls_eq, ?_⟩,
        hout.wires_eq⟩
      · rw [hphase, hout.writer_eq]
        exact h.phase
      · rw [hout.wires_eq]
        exact h.clear
  | asks hr =>
      rw [hr.serving] at hhanding
      cases hhanding
  | upgrades hu => exact h.upgrade ht hrefused hu
  | hangsUp hp =>
      rw [hp] at hhanding
      cases hhanding
  | emits hturn =>
      have hbusy (hready : s.output.phase = .ready) : False := by
        cases hready.symm.trans h.paused
      cases Output.course_of_turn ht.account hturn with
      | passes hbefore => exact absurd h.paused (hbefore 0)
      | closes htakes => exact (hbusy htakes.ready).elim
      | pauses htakes => exact (hbusy htakes.ready).elim
      | skips htakes => exact (hbusy htakes.ready).elim
      | goesOn hp he =>
          cases h.paused.symm.trans hp
          rw [h.pauses_eq] at he
          cases he

end Held

namespace Ended

theorem emit (h : s.Ended before) (ht : s.Teardown) {o : Output} (hc : s.output.Course o)
    {events : List Event} {interrupted : Bool} :
    { s with output := o, events, interrupted }.Ended before := by
  cases hc with
  | passes hbefore hafter hg ho hclosed hr hpauses hw hidle =>
      refine ⟨h.divided.congr ho, hpauses.trans h.pauses_eq, ?_, fun n hp => absurd hp (hafter n),
        h.phase, ?_⟩
      · show before ++ [.pause 0] <+: o.outbox.gone
        rcases hg with hg | ⟨item, -, hg⟩
        · rw [hg]
          exact h.gone
        · rw [hg]
          exact h.gone.trans (List.prefix_append ..)
      · rcases h.outcome with ⟨htls, hwriter⟩ | ⟨htls, hover, hwriter, hclear, hwriting⟩
        · exact .inl ⟨htls, hw.trans hwriter⟩
        · -- The upgrade took the writer and put none back, so no message can be begun.
          obtain ⟨hwires, hstill⟩ := hidle hwriter hwriting
          exact .inr ⟨htls, hover, hw.trans hwriter, (congrArg (·.on .secure) hwires).trans hclear,
            hstill⟩
  | @closes outbox htakes =>
      have hgone : before ++ [.pause 0] <+: outbox.gone := by
        rw [Outbox.gone_of_take ht.account.sound htakes.take_eq]
        exact h.gone.trans (List.prefix_append ..)
      refine ⟨h.divided.admitted (Outbox.offered_of_take htakes.take_eq)
        (hgone.trans (Outbox.gone_prefix_admitted _)) (Outbox.offered_close _), h.pauses_eq, hgone,
        h.paused, h.phase, h.outcome⟩
  | pauses htakes => cases h.divided.not_isPause_of_takes ht.account h.gone htakes
  | skips htakes => cases h.divided.not_isPause_of_takes ht.account h.gone htakes
  | goesOn hp =>
      refine ⟨h.divided.congr rfl, h.pauses_eq, h.gone, nofun, h.phase, h.outcome.imp_right ?_⟩
      rintro ⟨htls, hover, hwriter, hclear, -⟩
      exact ⟨htls, hover, hwriter, hclear, nofun⟩

/-- There is no second pause. -/
theorem pass (h : s.Ended before) (ht : s.Teardown) (hp : Passage s a s') : s'.Ended before := by
  cases hp with
  | aside hout htls hp =>
      obtain ⟨hphase, hclosed, hover⟩ := isHandingOver_of_aside h.phase hp
      refine ⟨h.divided.alike hout, hout.pauses_eq.trans h.pauses_eq, ?_, ?_, hphase, ?_⟩
      · rw [hout.gone_eq]
        exact h.gone
      · rw [hout.phase_eq]
        exact h.paused
      · rw [hout.writer_eq, htls]
        simp only [hclosed, hout.wires_eq, hout.phase_eq]
        refine h.outcome.imp_right ?_
        rintro ⟨hplain, hbefore, hwriter⟩
        exact ⟨hplain, hover hbefore, hwriter⟩
  | asks hr =>
      rcases h.outcome with ⟨htls, -⟩ | ⟨-, hover, -⟩
      · cases htls.symm.trans hr.plain
      · rw [hr.serving] at hover
        cases hover
  | upgrades hu => cases hu.handingOver.symm.trans h.phase
  | hangsUp hp =>
      refine ⟨h.divided.congr rfl, h.pauses_eq, h.gone, h.paused, rfl, ?_⟩
      rcases h.outcome with ⟨htls, -⟩ | ⟨htls, -, -, hwires⟩
      · exact .inl ⟨htls, rfl⟩
      · exact .inr ⟨htls, rfl, rfl, hwires⟩
  | emits hturn => exact h.emit ht (Output.course_of_turn ht.account hturn)

end Ended

/-! ## The invariant -/

inductive Stage (encrypted : Bool) (s : Session) : Prop where
  | unasked (h : s.Unasked encrypted)
  | awaited {ahead} (he : encrypted = false) (h : s.Awaited ahead)
  | held {ahead} (he : encrypted = false) (h : s.Held ahead)
  | ended {ahead} (he : encrypted = false) (h : s.Ended ahead)

/-- The right writer stands in its place whenever the output is ready. -/
theorem Stage.writer_of_ready (h : Stage false s) (c : Channel) (hp : s.output.phase = .ready)
    (hw : s.output.writer = some c) : c = Item.channelAfter s.output.outbox.gone := by
  cases h with
  | unasked h =>
      rw [Item.channelAfter_of_none fun item hmem =>
        h.unpaused item ((Outbox.gone_prefix_offered _).subset hmem)]
      rw [h.writer_eq] at hw
      split at hw
      · cases hw
      · exact (Option.some.inj hw).symm
  | awaited _ h =>
      rw [Item.channelAfter_of_none fun item hmem =>
        h.divided.unpaused item (h.gone.subset hmem)]
      exact Option.some.inj (hw.symm.trans h.writer_eq)
  | held _ h => cases hp.symm.trans h.paused
  | ended _ h =>
      rw [Item.channelAfter_of_mem (h.gone.subset (List.mem_concat_self ..)) rfl]
      rcases h.outcome with ⟨-, hsecure⟩ | ⟨-, -, hnone, -⟩
      · rw [hsecure] at hw
        split at hw
        · cases hw
        · exact (Option.some.inj hw).symm
      · rw [hnone] at hw
        cases hw

structure Handover (encrypted : Bool) (s : Session) : Prop where
  teardown : s.Teardown
  stage : Stage encrypted s
  refused : s.output.outbox.closed = false → s.output.outbox.refused = []
  placed : encrypted = false → s.output.Placed
  interrupted : s.output.failed = true → s.interrupted = true

/-- An interruption is not taken back. -/
theorem interrupted_of_move (hm : Move s a s') (hi : s.interrupted = true) :
    s'.interrupted = true := by
  cases hm with
  | watcherInterrupts => rfl
  | stopReading => rfl
  | emit => exact (congrArg (· || _) hi).trans (Bool.true_or _)
  | _ => exact hi

theorem tls_of_interrupted (hm : Move s a s') (hi : s.interrupted = true) :
    s'.info.tls = s.info.tls := by
  cases hm with
  | upgraded hp hnot => cases hi.symm.trans hnot
  | _ => rfl

namespace Handover

theorem stage_of_passage (h : s.Handover encrypted) (hp : Passage s a s') : Stage encrypted s' := by
  cases h.stage with
  | unasked hs =>
      rcases hs.pass h.teardown hp with hs | ⟨he, hs⟩
      · exact .unasked hs
      · exact .awaited he hs
  | awaited he hs =>
      rcases hs.pass h.teardown h.refused hp with hs | hs
      · exact .awaited he hs
      · exact .held he hs
  | held he hs =>
      rcases hs.pass h.teardown h.refused hp with ⟨hs, -⟩ | hs
      · exact .held he hs
      · exact .ended he hs
  | ended he hs => exact .ended he (hs.pass h.teardown hp)

theorem refused_of_course {o o' : Output} (hc : o.Course o')
    (h : o.outbox.closed = false → o.outbox.refused = []) :
    o'.outbox.closed = false → o'.outbox.refused = [] := by
  cases hc with
  | passes _ _ _ _ hclosed hrefused =>
      rw [hclosed, hrefused]
      exact h
  | closes => exact nofun
  | pauses ht =>
      show _ = false → _ = []
      rw [Outbox.closed_of_take ht.take_eq, Outbox.refused_of_take ht.take_eq]
      exact h
  | skips ht =>
      show _ = false → _ = []
      rw [Outbox.closed_of_take ht.take_eq, Outbox.refused_of_take ht.take_eq]
      exact h
  | goesOn => exact h

/-- **Every move keeps the invariant.** -/
theorem move (h : s.Handover encrypted) (hm : Move s a s') : s'.Handover encrypted := by
  have hp := Passage.of_move h.teardown.account hm
  have hstage := h.stage_of_passage hp
  -- Either the output rests, or it has a turn; then the stage says which writer it finds.
  rcases hp.rests h.teardown.account with hrests | ⟨act, events, -, hturn, hinterrupted⟩
  · refine ⟨h.teardown.move hm, hstage, ?_, fun he => ?_, fun hf => ?_⟩
    · rw [hrests.closed_eq, hrests.refused_eq]
      exact h.refused
    · exact (h.placed he).frame hrests.gone_eq hrests.phase_eq hrests.failed_eq hrests.wires_eq
    · exact interrupted_of_move hm (h.interrupted (hrests.failed_eq.symm.trans hf))
  · refine ⟨h.teardown.move hm, hstage, ?_, fun he => ?_, fun hf => ?_⟩
    · exact refused_of_course (Output.course_of_turn h.teardown.account hturn) h.refused
    · subst he
      exact (h.placed rfl).turn h.teardown.account h.stage.writer_of_ready hturn
    · rw [hinterrupted, hf, Bool.or_true]

theorem start {options : Options} {info : SessionInfo} {stopping : Bool}
    (h : start? options info stopping = some s) : s.Handover info.tls := by
  have hteardown := Teardown.start h
  obtain ⟨-, rfl⟩ := start?_eq_some h
  have hspelled (c : Channel) : Item.spelledOn c (Item.ahead []) = [] := by cases c <;> rfl
  have hempty (c : Channel) : ({} : Wires).on c = [] := by cases c <;> rfl
  have hnothing : ∀ item ∈ ([] : List Item), item.isPause = false := by simp
  refine ⟨hteardown, .unasked ⟨rfl, hnothing, by simp, rfl, rfl, rfl⟩, fun _ => rfl,
    fun _ => ⟨?_, by simp⟩, by simp⟩
  intro c
  show Output.Fits _ c (Item.spelledOn c (Item.ahead []))
  rw [hspelled]
  exact ⟨hempty c ▸ List.prefix_refl _, fun _ => (List.append_nil _).trans (hempty c)⟩

theorem held_of_shaking (h : s.Handover encrypted) {n : Nat} (hp : s.phase = .shaking n) :
    n = 0 ∧ encrypted = false ∧ ∃ before, s.Held before := by
  have hhanding : s.phase.isHandingOver = true := hp ▸ rfl
  cases h.stage with
  | unasked hu => cases hhanding.symm.trans hu.phase
  | awaited _ ha => rcases ha.phase with hp' | ⟨_, hp'⟩ <;> cases hp.symm.trans hp'
  | held he hh =>
      rcases hh.phase with ⟨hp' | ⟨_, hp'⟩, -⟩ | ⟨hp', -⟩ <;> cases hp.symm.trans hp'
      exact ⟨rfl, he, _, hh⟩
  | ended _ he => cases hhanding.symm.trans he.phase

theorem run {options : Options} {info : SessionInfo} {stopping : Bool} {s₀ : Session}
    {actions : List Action} (h₀ : start? options info stopping = some s₀)
    (h : s₀.run? actions = some s) : s.Handover info.tls :=
  run?_induction (motive := fun _ s => s.Handover info.tls) (start h₀)
    (fun _ hmid hm => hmid.move hm) h

end Handover

end Session

end Directory
