import Directory.Proofs.Output.Outbox
import Directory.Proofs.Run
import Directory.Session.Step

/-!
# What a step of a session can be

`Session.step?` goes by the party, its phase and what it finds. `Session.Move` lists the outcomes of
all these branches, each with everything that was checked on the way and with the session that it
leaves, so that a proof about steps goes by its cases and opens no function (`move_of_step?`). A
list of steps keeps what every step keeps (`run?_induction`).
-/

namespace Directory.Session

structure Cuts (s : Session) (source : Source) (raw : Octets) (splitter : Splitter) : Prop where
  reading : s.phase = .reading
  undisturbed : s.interrupted = false
  source_eq : s.source = some source
  next_eq : source.splitter.next = .ok (some (raw, splitter))

structure Returned (s : Session) (request : Nat) (invocation : Invocation) : Prop where
  serving : s.phase = .serving request
  invocation_eq : s.requests[request]? = some invocation
  returned : invocation.progress = .returned

/-- It has agreed, the connection is in the clear, and there is something to encrypt it with. -/
structure Agreed (s : Session) (request : Nat) (invocation : Invocation) : Prop extends
    Returned s request invocation where
  accepted : invocation.startTlsAccepted = true
  plain : s.info.tls = false
  acceptor : s.options.startTls.isNone = false

def advance (s : Session) (source : Source) (splitter : Splitter) : Session :=
  { s with source := some { source with splitter } }

def requestPause (s : Session) : Receipt × Output :=
  s.output.openPause.send (.pause s.output.nextPause)

def sweepReport (s : Session) : List Event :=
  if 0 < s.roster.roster.size then [.swept s.roster.roster.size] else []

theorem sweep_eq (s : Session) :
    s.sweep = { s with
      cancellations := s.roster.roster.cancelAll .sessionClosing s.cancellations
      events := s.events ++ s.sweepReport } := by
  unfold sweep sweepReport
  by_cases hsize : 0 < s.roster.roster.size
  · rw [if_pos hsize, if_pos hsize]
    rfl
  · rw [if_neg hsize, if_neg hsize, List.append_nil]

/-- The outcomes of a step, party by party. -/
inductive Move (s : Session) : Action → Session → Prop where
  -- Handlers, and tasks that outlive them
  | write {r i m} (hi : s.requests[r]? = some i) :
      Move s (.handler r (.write m)) (s.respond i m).2
  | abandonRequest {r i id} (hi : s.requests[r]? = some i) :
      Move s (.handler r (.abandon id))
        { s with cancellations := (s.roster.abandon id s.cancellations).getD s.cancellations }
  | popReason {r i} (hi : s.requests[r]? = some i) :
      Move s (.handler r .popReason) { s with cancellations := s.cancellations.modify r (·.pop) }
  | setAcl {r i acl} (hi : s.requests[r]? = some i) :
      Move s (.handler r (.setAcl acl)) { s with info := { s.info with acl } }
  | agree {r i} (hi : s.requests[r]? = some i) :
      Move s (.handler r .acceptStartTls)
        { s with
          requests := s.requests.modify r fun i => { i with startTlsAccepted := true } }
  | handlerReturns {r i} (hi : s.requests[r]? = some i) (hrun : i.progress = .running) :
      Move s (.handler r .return) (s.finish r .returned)
  | handlerPanics {r i} (hi : s.requests[r]? = some i) (hrun : i.progress = .running) :
      Move s (.handler r .panic) (s.finish r .panicked)
  | stop : Move s .stop { s with stopping := true }
  -- The reading, while it waits for octets
  | receive {chunk source} (hw : s.waitsFor = some source) :
      Move s (.receive chunk)
        { s with source := some { source with splitter := source.splitter.receive chunk } }
  | clientClosed {source} (hw : s.waitsFor = some source) (hempty : source.splitter.buffered = 0) :
      Move s .endOfStream (s.leave .clientClosed)
  | cutShort {source} (hw : s.waitsFor = some source) (hleft : source.splitter.buffered ≠ 0) :
      Move s .endOfStream (s.leave (.failed (.stream .cutShort)))
  | loseConnection {reason source} (hw : s.waitsFor = some source) :
      Move s (.loseConnection reason) (s.leave (.failed (.connection reason)))
  | expire {limit source} (hl : s.options.readTimeout = some limit)
      (hw : s.waitsFor = some source) : Move s .expire (s.leave (.readTimedOut limit))
  -- The reading, when it goes on
  | interrupt (hp : s.phase = .reading) (hi : s.interrupted = true) :
      Move s .read (s.leave .interrupted)
  | noSource (hp : s.phase = .reading) (hi : s.interrupted = false) (hs : s.source = none) :
      Move s .read { s with source := none, phase := .closing .silencing }
  | refuse {source cause} (hp : s.phase = .reading) (hi : s.interrupted = false)
      (hs : s.source = some source) (hn : source.splitter.next = .error cause) :
      Move s .read (s.leave (.failed (.stream (.protocol cause))))
  | undecodable {source raw splitter cause} (hc : s.Cuts source raw splitter)
      (hd : Message.decode raw = .error cause) :
      Move s .read ((s.advance source splitter).leave (.failed (.stream (.protocol cause))))
  | unbind {source raw splitter m} (hc : s.Cuts source raw splitter)
      (hd : Message.decode raw = .ok m) (hu : m.isUnbind = true) :
      Move s .read ((s.advance source splitter).leave .unbindRequested)
  | startTls {source raw splitter m} (hc : s.Cuts source raw splitter)
      (hd : Message.decode raw = .ok m) (hu : m.isUnbind = false) (ht : m.isStartTls = true) :
      Move s .read
        { (s.advance source splitter).invoke m raw source.channel with
          phase := .serving s.requests.length }
  | dispatch {source raw splitter m} (hc : s.Cuts source raw splitter)
      (hd : Message.decode raw = .ok m) (hu : m.isUnbind = false) (ht : m.isStartTls = false) :
      Move s .read ((s.advance source splitter).invoke m raw source.channel)
  -- The reading, after a request to encrypt the connection
  | servantPanicked {r i} (hp : s.phase = .serving r) (hi : s.requests[r]? = some i)
      (hd : i.progress = .panicked) : Move s .read (s.leave (.failed .handlerPanicked))
  | declined {r i} (hr : s.Returned r i) (ha : i.startTlsAccepted = false) :
      Move s .read { s.report .startTlsDeclined with phase := .reading }
  | alreadySecured {r i} (hr : s.Returned r i) (ha : i.startTlsAccepted = true)
      (ht : s.info.tls = true) : Move s .read (s.leave (.failed .alreadySecured))
  | noAcceptor {r i} (hr : s.Returned r i) (ha : i.startTlsAccepted = true)
      (ht : s.info.tls = false) (ho : s.options.startTls.isNone = true) :
      Move s .read { s.report .noAcceptor with phase := .reading }
  | sourceGone {r i} (hr : s.Agreed r i) (hs : s.source = none) :
      Move s .read { s with source := none, phase := .reading }
  | pipelined {r i source} (hr : s.Agreed r i) (hs : s.source = some source)
      (hb : 0 < source.splitter.buffered) :
      Move s .read
        ({ s with source := none }.leave (.failed (.pipelined source.splitter.buffered)))
  | pauseQueued {r i source o} (hr : s.Agreed r i) (hs : s.source = some source)
      (hb : source.splitter.buffered = 0) (ho : s.requestPause = (.queued, o)) :
      Move s .read { s with source := none, output := o, phase := .pausing s.output.nextPause }
  | pauseOffered {r i source ticket o} (hr : s.Agreed r i) (hs : s.source = some source)
      (hb : source.splitter.buffered = 0) (ho : s.requestPause = (.waiting ticket, o)) :
      Move s .read
        { s with source := none, output := o, phase := .offering ticket s.output.nextPause }
  | pauseRefused {r i source o} (hr : s.Agreed r i) (hs : s.source = some source)
      (hb : source.splitter.buffered = 0) (ho : s.requestPause = (.closed, o)) :
      Move s .read ({ s with source := none, output := o }.leave (.failed .writerUnavailable))
  | pauseAdmitted {ticket pause} (hp : s.phase = .offering ticket pause)
      (hst : s.output.outbox.standing ticket = .queued) :
      Move s .read { s with phase := .pausing pause }
  | pauseTurnedAway {ticket pause} (hp : s.phase = .offering ticket pause)
      (hst : s.output.outbox.standing ticket = .refused) :
      Move s .read (s.leave (.failed .writerUnavailable))
  | writerMissing {pause} (hp : s.phase = .pausing pause) (hh : s.output.hasPaused pause = true)
      (hw : s.output.writer = none) :
      Move s .read (s.abandonUpgrade pause .writerUnavailable)
  | writerSecure {pause} (hp : s.phase = .pausing pause) (hh : s.output.hasPaused pause = true)
      (hw : s.output.writer = some .secure) :
      Move s .read
        ({ s with output := { s.output with writer := none } }.abandonUpgrade pause .alreadySecured)
  | takeWriter {pause} (hp : s.phase = .pausing pause) (hh : s.output.hasPaused pause = true)
      (hw : s.output.writer = some .plain) :
      Move s .read
        { s with output := { s.output with writer := none }, phase := .shaking pause }
  | pauseLost {pause} (hp : s.phase = .pausing pause) (hh : s.output.hasPaused pause = false)
      (he : s.output.expects pause = false) :
      Move s .read (s.leave (.failed .writerUnavailable))
  | giveUp {pause} (hp : s.phase = .shaking pause) (hi : s.interrupted = true) :
      Move s .read (s.abandonUpgrade pause (.handshake .abandoned))
  | upgraded {pause} (hp : s.phase = .shaking pause) (hi : s.interrupted = false) :
      Move s (.endHandshake none) (s.upgrade pause)
  | handshakeFails {pause cause} (hp : s.phase = .shaking pause) (hi : s.interrupted = false)
      (he : s.canEnd (some cause) = true) :
      Move s (.endHandshake (some cause)) (s.abandonUpgrade pause (.handshake cause))
  -- The watcher
  | silenced (hw : s.watcher = .watching) (hc : s.closing = true) :
      Move s .watch { s with watcher := .done }
  | noticeQueued {o} (hw : s.watcher = .watching) (hc : s.closing = false)
      (hs : s.stopping = true) (ho : s.output.send (.message notice) = (.queued, o)) :
      Move s .watch { s with output := o, watcher := .announced }
  | noticeOffered {ticket o} (hw : s.watcher = .watching) (hc : s.closing = false)
      (hs : s.stopping = true) (ho : s.output.send (.message notice) = (.waiting ticket, o)) :
      Move s .watch { s with output := o, watcher := .offering ticket }
  | noticeRefused {o} (hw : s.watcher = .watching) (hc : s.closing = false)
      (hs : s.stopping = true) (ho : s.output.send (.message notice) = (.closed, o)) :
      Move s .watch { s.report .noticeNotQueued with output := o, watcher := .announced }
  | noticeAdmitted {ticket} (hw : s.watcher = .offering ticket)
      (hst : s.output.outbox.standing ticket = .queued) :
      Move s .watch { s with watcher := .announced }
  | noticeTurnedAway {ticket} (hw : s.watcher = .offering ticket)
      (hst : s.output.outbox.standing ticket = .refused) :
      Move s .watch { s.report .noticeNotQueued with watcher := .announced }
  | watcherInterrupts (hw : s.watcher = .announced) :
      Move s .watch { s with interrupted := true, watcher := .done }
  -- Closing down
  | silence (hp : s.phase = .closing .silencing) :
      Move s .close { s with closing := true, phase := .closing .interrupting }
  | stopReading (hp : s.phase = .closing .interrupting) :
      Move s .close { s with interrupted := true, phase := .closing .sweeping }
  | sweep (hp : s.phase = .closing .sweeping) :
      Move s .close
        { s with
          cancellations := s.roster.roster.cancelAll .sessionClosing s.cancellations
          events := s.events ++ s.sweepReport
          phase := .closing .joining }
  | join (hp : s.phase = .closing .joining) (hh : s.handlersDone = true) (hw : s.watcher = .done) :
      Move s .close { s with phase := .closing .sealing }
  | closeQueued {o} (hp : s.phase = .closing .sealing)
      (ho : s.output.send .close = (.queued, o)) :
      Move s .close { s with output := o, phase := .closing .draining }
  | closeOffered {ticket o} (hp : s.phase = .closing .sealing)
      (ho : s.output.send .close = (.waiting ticket, o)) :
      Move s .close { s with output := o, phase := .closing (.offering ticket) }
  | closeRefused {o} (hp : s.phase = .closing .sealing)
      (ho : s.output.send .close = (.closed, o)) :
      Move s .close { s with output := o, phase := .closing .draining }
  | closeAdmitted {ticket} (hp : s.phase = .closing (.offering ticket))
      (hst : s.output.outbox.standing ticket ≠ .waiting) :
      Move s .close { s with phase := .closing .draining }
  | drained (hp : s.phase = .closing .draining) (hf : s.output.phase = .finished) :
      Move s .close { s with phase := .closing .leaving }
  | hangUp (hp : s.phase = .closing .leaving) : Move s .close s.hangUp
  -- The output
  | emit {act events o} (ho : s.output.step? act = some (events, o)) :
      Move s (.output act)
        { s with
          output := o
          events := s.events ++ events
          interrupted := s.interrupted || o.failed }

variable {s s' : Session}

theorem waitsFor_eq_some {source : Source} :
    s.waitsFor = some source ↔
      s.phase = .reading ∧ s.interrupted = false ∧ s.source = some source ∧
        source.splitter.isWaiting = true := by
  unfold waitsFor
  rw [Option.ite_none_right_eq_some, Option.filter_eq_some_iff]
  simp [and_assoc]

theorem move_of_perform {r : Nat} {deed : Deed} (h : s.perform r deed = some s') :
    Move s (.handler r deed) s' := by
  unfold perform at h
  cases hi : s.requests[r]? with
  | none => rw [hi] at h; cases h
  | some i =>
      rw [hi] at h
      cases deed with
      | write m => cases h; exact .write hi
      | abandon id => cases h; exact .abandonRequest hi
      | popReason => cases h; exact .popReason hi
      | setAcl acl => cases h; exact .setAcl hi
      | acceptStartTls => cases h; exact .agree hi
      | «return» =>
          obtain ⟨hrun, h⟩ := Option.ite_none_right_eq_some.mp h
          cases h
          exact .handlerReturns hi hrun
      | panic =>
          obtain ⟨hrun, h⟩ := Option.ite_none_right_eq_some.mp h
          cases h
          exact .handlerPanics hi hrun

theorem move_of_accept {source : Source} {raw : Octets} {splitter : Splitter}
    (hc : s.Cuts source raw splitter) :
    Move s .read ((s.advance source splitter).accept raw source.channel) := by
  unfold accept
  cases hd : Message.decode raw with
  | error cause => exact .undecodable hc hd
  | ok m =>
      dsimp only
      by_cases hu : m.isUnbind = true
      · rw [if_pos hu]
        exact .unbind hc hd hu
      · rw [if_neg hu]
        by_cases ht : m.isStartTls = true
        · rw [if_pos ht]
          exact .startTls hc hd (eq_false_of_ne_true hu) ht
        · rw [if_neg ht]
          exact .dispatch hc hd (eq_false_of_ne_true hu) (eq_false_of_ne_true ht)

theorem move_of_readNext (hp : s.phase = .reading) (h : s.readNext = some s') :
    Move s .read s' := by
  unfold readNext at h
  by_cases hi : s.interrupted = true
  · rw [if_pos hi] at h
    cases h
    exact .interrupt hp hi
  · rw [if_neg hi] at h
    replace hi := eq_false_of_ne_true hi
    cases hs : s.source with
    | none =>
        rw [hs] at h
        cases h
        exact .noSource hp hi hs
    | some source =>
        rw [hs] at h
        dsimp only at h
        cases hn : source.splitter.next with
        | error cause =>
            rw [hn] at h
            cases h
            exact .refuse hp hi hs hn
        | ok cut =>
            rw [hn] at h
            match cut, hn, h with
            | some (raw, splitter), hn, h =>
                cases h
                exact move_of_accept ⟨hp, hi, hs, hn⟩

theorem move_of_offerPause {r : Nat} {i : Invocation} {source : Source} (hr : s.Agreed r i)
    (hs : s.source = some source) : Move s .read (s.offerPause source) := by
  unfold offerPause
  dsimp only
  by_cases hb : 0 < source.splitter.buffered
  · rw [if_pos hb]
    exact .pipelined hr hs hb
  · rw [if_neg hb]
    replace hb := Nat.eq_zero_of_not_pos hb
    -- The three receipts of the pause are the three ways on.
    split
    next o ho => exact .pauseQueued hr hs hb ho
    next ticket o ho => exact .pauseOffered hr hs hb ho
    next o ho => exact .pauseRefused hr hs hb ho

theorem move_of_decide {r : Nat} {i : Invocation} (hr : s.Returned r i) :
    Move s .read (s.decide i) := by
  unfold Session.decide
  cases ha : i.startTlsAccepted with
  | false => exact .declined hr ha
  | true =>
      cases ht : s.info.tls with
      | true =>
          rw [if_neg (by decide), if_pos (show s.secured = true from ht)]
          exact .alreadySecured hr ha ht
      | false =>
          rw [if_neg (by decide), if_neg (show ¬s.secured = true by simp [secured, ht])]
          cases ho : s.options.startTls.isNone with
          | true => exact .noAcceptor hr ha ht ho
          | false =>
              have hagreed : s.Agreed r i := ⟨hr, ha, ht, ho⟩
              rw [if_neg (by decide)]
              cases hs : s.source with
              | none => exact .sourceGone hagreed hs
              | some source => exact move_of_offerPause hagreed hs

theorem move_of_awaitHandler {r : Nat} (hp : s.phase = .serving r)
    (h : s.awaitHandler r = some s') : Move s .read s' := by
  unfold awaitHandler at h
  cases hi : s.requests[r]? with
  | none =>
      rw [hi] at h
      cases h
  | some i =>
      rw [hi] at h
      simp only [Option.bind_eq_bind, Option.bind_some] at h
      cases hd : i.progress with
      | running =>
          rw [hd] at h
          cases h
      | panicked =>
          rw [hd] at h
          cases h
          exact .servantPanicked hp hi hd
      | returned =>
          rw [hd] at h
          cases h
          exact move_of_decide ⟨hp, hi, hd⟩

theorem move_of_awaitRoom {ticket pause : Nat} (hp : s.phase = .offering ticket pause)
    (h : s.awaitRoom ticket pause = some s') : Move s .read s' := by
  unfold awaitRoom at h
  cases hst : s.output.outbox.standing ticket with
  | waiting =>
      rw [hst] at h
      cases h
  | queued =>
      rw [hst] at h
      cases h
      exact .pauseAdmitted hp hst
  | refused =>
      rw [hst] at h
      cases h
      exact .pauseTurnedAway hp hst

theorem move_of_awaitPause {pause : Nat} (hp : s.phase = .pausing pause)
    (h : s.awaitPause pause = some s') : Move s .read s' := by
  unfold awaitPause at h
  by_cases hh : s.output.hasPaused pause = true
  · rw [if_pos hh] at h
    cases hw : s.output.writer with
    | none =>
        simp only [hw] at h
        cases h
        exact .writerMissing hp hh hw
    | some channel =>
        simp only [hw] at h
        cases channel with
        | secure =>
            cases h
            exact .writerSecure hp hh hw
        | plain =>
            cases h
            exact .takeWriter hp hh hw
  · rw [if_neg hh] at h
    obtain ⟨he, h⟩ := Option.ite_none_left_eq_some.mp h
    cases h
    exact .pauseLost hp (eq_false_of_ne_true hh) (eq_false_of_ne_true he)

theorem move_of_read (h : s.read = some s') : Move s .read s' := by
  unfold read at h
  cases hp : s.phase with
  | reading =>
      rw [hp] at h
      exact move_of_readNext hp h
  | serving r =>
      rw [hp] at h
      exact move_of_awaitHandler hp h
  | offering ticket pause =>
      rw [hp] at h
      exact move_of_awaitRoom hp h
  | pausing pause =>
      rw [hp] at h
      exact move_of_awaitPause hp h
  | shaking pause =>
      rw [hp] at h
      obtain ⟨hi, h⟩ := Option.ite_none_right_eq_some.mp h
      cases h
      exact .giveUp hp hi
  | closing stage =>
      rw [hp] at h
      cases h
  | closed =>
      rw [hp] at h
      cases h

theorem move_of_endHandshake {error : Option HandshakeError}
    (h : s.endHandshake error = some s') : Move s (.endHandshake error) s' := by
  unfold endHandshake at h
  split at h
  case h_2 => cases h
  case h_1 pause hp =>
    obtain ⟨hcan, h⟩ := Option.ite_none_left_eq_some.mp h
    obtain ⟨hi, he⟩ : s.interrupted = false ∧ s.canEnd error = true := by simpa using hcan
    cases error with
    | none =>
        cases h
        exact .upgraded hp hi
    | some cause =>
        cases h
        exact .handshakeFails hp hi he

theorem move_of_endOfStream (h : s.endOfStream = some s') : Move s .endOfStream s' := by
  obtain ⟨source, hw, rfl⟩ := Option.map_eq_some_iff.mp h
  by_cases hb : source.splitter.buffered = 0
  · rw [if_pos hb]
    exact .clientClosed hw hb
  · rw [if_neg hb]
    exact .cutShort hw hb

theorem move_of_expire (h : s.expire = some s') : Move s .expire s' := by
  unfold expire at h
  simp only [Option.bind_eq_bind, Option.bind_eq_some_iff] at h
  obtain ⟨limit, hl, source, hw, h⟩ := h
  cases h
  exact .expire hl hw

theorem move_of_announce (hw : s.watcher = .watching) (hc : s.closing = false)
    (hs : s.stopping = true) : Move s .watch s.announce := by
  unfold announce
  split
  next o ho => exact .noticeQueued hw hc hs ho
  next ticket o ho => exact .noticeOffered hw hc hs ho
  next o ho => exact .noticeRefused hw hc hs ho

theorem move_of_watch (h : s.watch = some s') : Move s .watch s' := by
  unfold watch at h
  cases hw : s.watcher with
  | watching =>
      rw [hw] at h
      dsimp only at h
      by_cases hc : s.closing = true
      · rw [if_pos hc] at h
        cases h
        exact .silenced hw hc
      · rw [if_neg hc] at h
        obtain ⟨hs, h⟩ := Option.ite_none_right_eq_some.mp h
        cases h
        exact move_of_announce hw (eq_false_of_ne_true hc) hs
  | offering ticket =>
      rw [hw] at h
      dsimp only at h
      cases hst : s.output.outbox.standing ticket with
      | waiting =>
          rw [hst] at h
          cases h
      | queued =>
          rw [hst] at h
          cases h
          exact .noticeAdmitted hw hst
      | refused =>
          rw [hst] at h
          cases h
          exact .noticeTurnedAway hw hst
  | announced =>
      rw [hw] at h
      cases h
      exact .watcherInterrupts hw
  | done =>
      rw [hw] at h
      cases h

theorem move_of_sealOutbox (hp : s.phase = .closing .sealing) : Move s .close s.sealOutbox := by
  unfold sealOutbox
  split
  next o ho => exact .closeQueued hp ho
  next ticket o ho => exact .closeOffered hp ho
  next o ho => exact .closeRefused hp ho

theorem move_of_close (h : s.close = some s') : Move s .close s' := by
  unfold close at h
  split at h
  next hp =>
    cases h
    exact .silence hp
  next hp =>
    cases h
    exact .stopReading hp
  next hp =>
    cases h
    rw [sweep_eq]
    exact .sweep hp
  next hp =>
    obtain ⟨⟨hh, hw⟩, h⟩ := Option.ite_none_right_eq_some.mp h
    cases h
    exact .join hp hh hw
  next hp =>
    cases h
    exact move_of_sealOutbox hp
  next ticket hp =>
    obtain ⟨hst, h⟩ := Option.ite_none_left_eq_some.mp h
    cases h
    exact .closeAdmitted hp hst
  next hp =>
    obtain ⟨hf, h⟩ := Option.ite_none_right_eq_some.mp h
    cases h
    exact .drained hp hf
  next hp =>
    cases h
    exact .hangUp hp
  next => cases h

theorem move_of_emit {act : Output.Act} (h : s.emit act = some s') :
    Move s (.output act) s' := by
  unfold emit at h
  simp only [Option.bind_eq_bind, Option.bind_eq_some_iff] at h
  obtain ⟨⟨events, o⟩, ho, h⟩ := h
  cases h
  exact .emit ho

theorem move_of_step? {a : Action} (h : s.step? a = some s') : Move s a s' := by
  cases a with
  | handler r deed => exact move_of_perform h
  | stop =>
      cases h
      exact .stop
  | receive chunk =>
      obtain ⟨source, hw, rfl⟩ := Option.map_eq_some_iff.mp h
      exact .receive hw
  | endOfStream => exact move_of_endOfStream h
  | loseConnection reason =>
      obtain ⟨source, hw, rfl⟩ := Option.map_eq_some_iff.mp h
      exact .loseConnection hw
  | expire => exact move_of_expire h
  | endHandshake error => exact move_of_endHandshake h
  | read => exact move_of_read h
  | watch => exact move_of_watch h
  | close => exact move_of_close h
  | output act => exact move_of_emit h

/-! ## Runs -/

theorem start?_eq_some {options : Options} {info : SessionInfo} {stopping : Bool}
    (h : start? options info stopping = some s) : 0 < options.queueCapacity ∧ s =
      { options, info, stopping
        source := some (freshSource options (firstChannel info.tls))
        output :=
          { outbox := { capacity := options.queueCapacity }
            limit := options.writeTimeout
            writer := some (firstChannel info.tls) } } := by
  obtain ⟨outbox, hcreate, h⟩ := Option.bind_eq_some_iff.mp h
  obtain ⟨hroom, rfl⟩ := Outbox.create?_eq_some hcreate
  cases h
  exact ⟨hroom, rfl⟩

/-- What holds of a session at its beginning and is kept by every move holds after every run. -/
theorem run?_induction {motive : List Action → Session → Prop} (h₀ : motive [] s)
    (hmove : ∀ {actions mid a next}, s.run? actions = some mid → motive actions mid →
      Move mid a next → motive (actions ++ [a]) next)
    {actions : List Action} (h : s.run? actions = some s') : motive actions s' :=
  foldlM_induction h₀ (fun hmid h ha => hmove hmid h (move_of_step? ha)) h

end Directory.Session
