import Directory.Proofs.Output.Parting
import Directory.Proofs.Session.Intake
import Directory.Proofs.Session.Teardown

/-!
# What a move does to an upgrade

Of all that a session can do, few things touch an upgrade and the pause of the output that it rests
on. `Session.Passage` sorts the moves by that: one constructor for all that has nothing to do with it,
one for asking for the pause, and `Session.Upgrading` has what happens from then on until the pause is
ended. `Output.Course` does the same for the turns of the output, and `Output.Rests` says what those
who are not the output leave as it is.
-/

namespace Directory

namespace Output

variable {o o' : Output} {item : Item}

/-- The output does not act; items are only added at the end of what was offered. -/
structure Rests (o o' : Output) : Prop where
  gone_eq : o'.outbox.gone = o.outbox.gone
  offered : o.outbox.offered <+: o'.outbox.offered
  closed_eq : o'.outbox.closed = o.outbox.closed
  refused_eq : o'.outbox.refused = o.outbox.refused
  phase_eq : o'.phase = o.phase
  failed_eq : o'.failed = o.failed
  wires_eq : o'.wires = o.wires

/-- Moreover no pause is asked for or ended, and the writer stays in its place. -/
structure Alike (o o' : Output) : Prop extends Rests o o' where
  added : ∃ items, o'.outbox.offered = o.outbox.offered ++ items ∧
    ∀ item ∈ items, item.isPause = false
  pauses_eq : o'.pauses = o.pauses
  writer_eq : o'.writer = o.writer

theorem Rests.of_outbox_eq (ho : o'.outbox = o.outbox) (hp : o'.phase = o.phase)
    (hf : o'.failed = o.failed) (hw : o'.wires = o.wires) : o.Rests o' :=
  ⟨congrArg _ ho, ho ▸ List.prefix_refl _, congrArg _ ho, congrArg _ ho, hp, hf, hw⟩

theorem Rests.refl (o : Output) : o.Rests o := .of_outbox_eq rfl rfl rfl rfl

theorem Rests.trans {o'' : Output} (h : o.Rests o') (h' : o'.Rests o'') : o.Rests o'' :=
  ⟨h'.gone_eq.trans h.gone_eq, h.offered.trans h'.offered, h'.closed_eq.trans h.closed_eq,
    h'.refused_eq.trans h.refused_eq, h'.phase_eq.trans h.phase_eq, h'.failed_eq.trans h.failed_eq,
    h'.wires_eq.trans h.wires_eq⟩

theorem Rests.send (h : o.Account) (item : Item) : o.Rests (o.send item).2 where
  gone_eq := Outbox.gone_send h.sound item
  offered := by
    show o.outbox.offered <+: (o.outbox.send item).2.offered
    rw [Outbox.offered_send]
    split
    · exact List.prefix_refl _
    · exact List.prefix_append ..
  closed_eq := Outbox.closed_send o.outbox item
  refused_eq := Outbox.refused_send o.outbox item
  phase_eq := rfl
  failed_eq := rfl
  wires_eq := rfl

theorem Alike.refl (o : Output) : o.Alike o :=
  ⟨.refl o, ⟨[], (List.append_nil _).symm, nofun⟩, rfl, rfl⟩

theorem Alike.send (h : o.Account) (hi : item.isPause = false) {receipt : Receipt}
    (hs : o.send item = (receipt, o')) : o.Alike o' := by
  have heq : (o.send item).2 = o' := congrArg Prod.snd hs
  subst heq
  refine ⟨.send h item, ?_, rfl, rfl⟩
  show ∃ items, (o.outbox.send item).2.offered = _ ∧ _
  rw [Outbox.offered_send]
  split
  · exact ⟨[], (List.append_nil _).symm, nofun⟩
  · refine ⟨[item], rfl, fun other hmem => ?_⟩
    rw [List.mem_singleton.mp hmem]
    exact hi

/-- The turns of the output, by what they do to a pause. -/
inductive Course (o : Output) : Output → Prop where
  /-- At most one item is taken, and it is no pause. -/
  | passes {o' : Output} (hbefore : ∀ n, o.phase ≠ .paused n) (hafter : ∀ n, o'.phase ≠ .paused n)
      (hg : o'.outbox.gone = o.outbox.gone ∨
        ∃ item, item.isPause = false ∧ o'.outbox.gone = o.outbox.gone ++ [item])
      (ho : o'.outbox.offered = o.outbox.offered) (hc : o'.outbox.closed = o.outbox.closed)
      (hr : o'.outbox.refused = o.outbox.refused) (hp : o'.pauses = o.pauses)
      (hw : o'.writer = o.writer)
      (hidle : o.writer = none → (∀ c left, o.phase ≠ .writing c left) →
        o'.wires = o.wires ∧ ∀ c left, o'.phase ≠ .writing c left) : Course o o'
  | closes {outbox} (ht : o.Takes .close outbox) :
      Course o { o with sealed := true, outbox := outbox.close }
  | pauses {n outbox} (ht : o.Takes (.pause n) outbox)
      (hw : o.pauses[n]?.any (·.watched) = true) :
      Course o
        { o with
          outbox
          phase := .paused n
          pauses := o.pauses.modify n fun p => { p with reported := true } }
  | skips {n outbox} (ht : o.Takes (.pause n) outbox)
      (hw : o.pauses[n]?.any (·.watched) = false) : Course o { o with outbox }
  | goesOn {n resumed} (hp : o.phase = .paused n)
      (he : o.pauses[n]?.bind (·.ending) = some resumed) : Course o { o with phase := .ready }

theorem Course.of_takes {outbox : Outbox Item} (h : o.Account) (ht : o.Takes item outbox)
    (hi : item.isPause = false) (houtbox : o'.outbox = outbox)
    (hafter : ∀ n, o'.phase ≠ .paused n) (hp : o'.pauses = o.pauses) (hw : o'.writer = o.writer)
    (hwires : o'.wires = o.wires) (hidle : o.writer = none → ∀ c left, o'.phase ≠ .writing c left) :
    o.Course o' := by
  subst houtbox
  refine .passes (by simp [ht.ready]) hafter (.inr ⟨item, hi, ?_⟩) ?_ ?_ ?_ hp hw
    fun hnone _ => ⟨hwires, hidle hnone⟩
  · exact Outbox.gone_of_take h.sound ht.take_eq
  · exact Outbox.offered_of_take ht.take_eq
  · exact Outbox.closed_of_take ht.take_eq
  · exact Outbox.refused_of_take ht.take_eq

theorem course_of_turn (h : o.Account) {act : Act} {events : List Event}
    (ht : Turn o act events o') : o.Course o' := by
  cases ht with
  | discard hm =>
      exact .of_takes h hm rfl rfl (by simp [hm.ready]) rfl rfl rfl fun _ => by simp [hm.ready]
  | writerMissing hm => exact .of_takes h hm rfl rfl (by simp) rfl rfl rfl fun _ => by simp
  | start hm hf hs hw =>
      refine .of_takes h hm rfl rfl (by simp) rfl rfl rfl fun hnone => ?_
      cases hnone.symm.trans hw
  | pause hm hw => exact .pauses hm hw
  | skip hm hw => exact .skips hm hw
  | closes hm => exact .closes hm
  | finish hp =>
      refine .passes (by simp [hp]) (by simp) (.inl rfl) rfl rfl rfl rfl rfl fun _ _ => ?_
      exact ⟨rfl, by simp⟩
  | write hp =>
      exact .passes (by simp [hp]) (fun _ => unpaused_of_put) (.inl rfl) rfl rfl rfl rfl rfl
        fun _ hidle => absurd hp (hidle _ _)
  | «break» hp =>
      refine .passes (by simp [hp]) (by simp) (.inl rfl) rfl rfl rfl rfl rfl fun _ _ => ?_
      exact ⟨rfl, by simp⟩
  | expire hp =>
      refine .passes (by simp [hp]) (by simp) (.inl rfl) rfl rfl rfl rfl rfl fun _ _ => ?_
      exact ⟨rfl, by simp⟩
  | resume hp he => exact .goesOn hp he
  | forsake hp he => exact .goesOn hp he

end Output

namespace Session

/-- The phases that an upgrade does not pass through, the end apart. -/
def Phase.isAside : Phase → Bool
  | .reading | .serving _ | .closing _ => true
  | _ => false

theorem Phase.isHandingOver_of_isAside {p : Phase} (h : p.isAside = true) :
    p.isHandingOver = false := by
  cases p <;> first | rfl | cases h

/-- What an upgrade goes through after its pause was asked for. -/
inductive Upgrading (s : Session) : Session → Prop where
  | admitted {ticket n} (hp : s.phase = .offering ticket n) :
      Upgrading s { s with phase := .pausing n }
  | turnedAway {ticket n} {s' : Session} (hp : s.phase = .offering ticket n)
      (hst : s.output.outbox.standing ticket = .refused) (ho : s'.output = s.output) :
      Upgrading s s'
  /-- The upgrade cannot go on because the pause is lost, or there is no writer in the clear. -/
  | fails {n} {s' : Session} (hp : s.phase = .pausing n)
      (hf : s.output.hasPaused n = true ∧ s.output.writer ≠ some .plain ∨
        s.output.hasPaused n = false ∧ s.output.expects n = false)
      (ho : s.output.Rests s'.output) : Upgrading s s'
  | takesWriter {n} (hp : s.phase = .pausing n) (hh : s.output.hasPaused n = true)
      (hw : s.output.writer = some .plain) :
      Upgrading s { s with output := { s.output with writer := none }, phase := .shaking n }
  | succeeds {n} (hp : s.phase = .shaking n) (hi : s.interrupted = false) :
      Upgrading s (s.upgrade n)
  | givesUp {n} {s' : Session} (hp : s.phase = .shaking n) (ho : s'.output = s.output.endPause n true)
      (ht : s'.info.tls = s.info.tls) (hover : s'.phase = .closing .silencing) : Upgrading s s'

inductive Passage (s : Session) : Action → Session → Prop where
  | aside {a} {s' : Session} (hout : s.output.Alike s'.output) (ht : s'.info.tls = s.info.tls)
      (hp : s'.phase = s.phase ∨ s.phase.isAside = true ∧ s'.phase.isAside = true ∧
        (s.phase.isOver = true → s'.phase.isOver = true)) : Passage s a s'
  | asks {a r i receipt} {s' : Session} (hr : s.Agreed r i) (ho : s.requestPause = (receipt, s'.output))
      (ht : s'.info.tls = s.info.tls)
      (hp : receipt = .queued ∧ s'.phase = .pausing s.output.nextPause ∨
        (∃ ticket, receipt = .waiting ticket ∧ s'.phase = .offering ticket s.output.nextPause) ∨
        receipt = .closed) : Passage s a s'
  | upgrades {a} {s' : Session} (h : Upgrading s s') : Passage s a s'
  | hangsUp {a} (hp : s.phase = .closing .leaving) : Passage s a s.hangUp
  | emits {act events o} (ht : Output.Turn s.output act events o) :
      Passage s (.output act)
        { s with
          output := o
          events := s.events ++ events
          interrupted := s.interrupted || o.failed }

variable {s s' : Session} {a : Action}

theorem Upgrading.handingOver (h : Upgrading s s') : s.phase.isHandingOver = true := by
  cases h with
  | admitted hp | turnedAway hp | fails hp | takesWriter hp | succeeds hp | givesUp hp =>
      rw [hp]
      rfl

theorem Upgrading.rests (h : Upgrading s s') : s.output.Rests s'.output := by
  cases h with
  | admitted => exact .refl s.output
  | turnedAway _ _ ho => exact ho ▸ .refl s.output
  | fails _ _ ho => exact ho
  | takesWriter => exact .of_outbox_eq rfl rfl rfl rfl
  | succeeds => exact .of_outbox_eq rfl rfl rfl rfl
  | givesUp _ ho =>
      rw [ho]
      exact .of_outbox_eq rfl rfl rfl rfl

namespace Passage

theorem go {p : Phase} (hp : s.phase = p) (ho : s'.output = s.output)
    (ht : s'.info.tls = s.info.tls) (hbefore : p.isAside = true) (hafter : s'.phase.isAside = true)
    (hover : p.isOver = true → s'.phase.isOver = true) : Passage s a s' := by
  subst hp
  refine .aside ?_ ht (.inr ⟨hbefore, hafter, hover⟩)
  rw [ho]
  exact .refl _

theorem stay (ho : s.output.Alike s'.output) (ht : s'.info.tls = s.info.tls)
    (hp : s'.phase = s.phase) : Passage s a s' := .aside ho ht (.inl hp)

theorem offerClose (h : s.output.Account) {receipt : Receipt} {stage : Closing}
    (hp : s.phase = .closing .sealing) (ho : s.output.send .close = (receipt, s'.output))
    (ht : s'.info.tls = s.info.tls) (hs : s'.phase = .closing stage) :
    Passage s a s' := by
  refine .aside (.send h rfl ho) ht (.inr ?_)
  rw [hp, hs]
  exact ⟨rfl, rfl, fun _ => rfl⟩

theorem of_move (h : s.output.Account) (hm : Move s a s') : Passage s a s' := by
  have hself := Output.Alike.refl s.output
  cases hm with
  | write hi => exact stay (.send h rfl rfl) rfl rfl
  | abandonRequest hi => exact stay hself rfl rfl
  | popReason hi => exact stay hself rfl rfl
  | setAcl hi => exact stay hself rfl rfl
  | agree hi => exact stay hself rfl rfl
  | handlerReturns hi hrun => exact stay hself rfl rfl
  | handlerPanics hi hrun => exact stay hself rfl rfl
  | stop => exact stay hself rfl rfl
  | receive hw => exact stay hself rfl rfl
  | clientClosed hw => exact go (waitsFor_eq_some.mp hw).1 rfl rfl rfl rfl nofun
  | cutShort hw => exact go (waitsFor_eq_some.mp hw).1 rfl rfl rfl rfl nofun
  | loseConnection hw => exact go (waitsFor_eq_some.mp hw).1 rfl rfl rfl rfl nofun
  | expire hl hw => exact go (waitsFor_eq_some.mp hw).1 rfl rfl rfl rfl nofun
  | interrupt hp => exact go hp rfl rfl rfl rfl nofun
  | noSource hp => exact go hp rfl rfl rfl rfl nofun
  | refuse hp => exact go hp rfl rfl rfl rfl nofun
  | undecodable hc => exact go hc.reading rfl rfl rfl rfl nofun
  | unbind hc => exact go hc.reading rfl rfl rfl rfl nofun
  | startTls hc => exact go hc.reading rfl rfl rfl rfl nofun
  | dispatch hc => exact stay hself rfl rfl
  | servantPanicked hp => exact go hp rfl rfl rfl rfl nofun
  | declined hr => exact go hr.serving rfl rfl rfl rfl nofun
  | alreadySecured hr => exact go hr.serving rfl rfl rfl rfl nofun
  | noAcceptor hr => exact go hr.serving rfl rfl rfl rfl nofun
  | sourceGone hr => exact go hr.serving rfl rfl rfl rfl nofun
  | pipelined hr => exact go hr.serving rfl rfl rfl rfl nofun
  | pauseQueued hr hs hb ho => exact .asks hr ho rfl (.inl ⟨rfl, rfl⟩)
  | pauseOffered hr hs hb ho => exact .asks hr ho rfl (.inr (.inl ⟨_, rfl, rfl⟩))
  | pauseRefused hr hs hb ho => exact .asks hr ho rfl (.inr (.inr rfl))
  | pauseAdmitted hp => exact .upgrades (.admitted hp)
  | pauseTurnedAway hp hst => exact .upgrades (.turnedAway hp hst rfl)
  | writerMissing hp hh hw =>
      exact .upgrades (.fails hp (.inl ⟨hh, by simp [hw]⟩) (.of_outbox_eq rfl rfl rfl rfl))
  | writerSecure hp hh hw =>
      exact .upgrades (.fails hp (.inl ⟨hh, by simp [hw]⟩) (.of_outbox_eq rfl rfl rfl rfl))
  | takeWriter hp hh hw => exact .upgrades (.takesWriter hp hh hw)
  | pauseLost hp hh he => exact .upgrades (.fails hp (.inr ⟨hh, he⟩) (.refl s.output))
  | giveUp hp => exact .upgrades (.givesUp hp rfl rfl rfl)
  | upgraded hp hi => exact .upgrades (.succeeds hp hi)
  | handshakeFails hp => exact .upgrades (.givesUp hp rfl rfl rfl)
  | silenced hw => exact stay hself rfl rfl
  | noticeQueued hw hc hs ho => exact stay (.send h rfl ho) rfl rfl
  | noticeOffered hw hc hs ho => exact stay (.send h rfl ho) rfl rfl
  | noticeRefused hw hc hs ho => exact stay (.send h rfl ho) rfl rfl
  | noticeAdmitted hw => exact stay hself rfl rfl
  | noticeTurnedAway hw => exact stay hself rfl rfl
  | watcherInterrupts hw => exact stay hself rfl rfl
  | silence hp => exact go hp rfl rfl rfl rfl fun _ => rfl
  | stopReading hp => exact go hp rfl rfl rfl rfl fun _ => rfl
  | sweep hp => exact go hp rfl rfl rfl rfl fun _ => rfl
  | join hp => exact go hp rfl rfl rfl rfl fun _ => rfl
  | closeQueued hp ho => exact offerClose h hp ho rfl rfl
  | closeOffered hp ho => exact offerClose h hp ho rfl rfl
  | closeRefused hp ho => exact offerClose h hp ho rfl rfl
  | closeAdmitted hp => exact go hp rfl rfl rfl rfl fun _ => rfl
  | drained hp => exact go hp rfl rfl rfl rfl fun _ => rfl
  | hangUp hp => exact .hangsUp hp
  | emit ho => exact .emits (Output.turn_of_step? ho)

/-- All but the output itself lets it rest, and a write that fails interrupts the reading. -/
theorem rests (h : s.output.Account) (hp : Passage s a s') : s.output.Rests s'.output ∨
    ∃ act events, a = .output act ∧ Output.Turn s.output act events s'.output ∧
      s'.interrupted = (s.interrupted || s'.output.failed) := by
  cases hp with
  | aside hout => exact .inl hout.toRests
  | asks hr ho =>
      have heq : (s.output.openPause.send (.pause s.output.nextPause)).2 = s'.output :=
        congrArg Prod.snd ho
      rw [← heq]
      have hopen : s.output.Rests s.output.openPause := .of_outbox_eq rfl rfl rfl rfl
      exact .inl (hopen.trans (.send (h.pauses _) _))
  | upgrades hu => exact .inl hu.rests
  | hangsUp => exact .inl (.of_outbox_eq rfl rfl rfl rfl)
  | emits ht => exact .inr ⟨_, _, rfl, ht, rfl⟩

end Passage

end Session

end Directory
