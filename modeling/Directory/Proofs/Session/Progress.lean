import Directory.Proofs.Output.Room
import Directory.Proofs.Session.Handover
import Directory.Proofs.Session.Offers
import Directory.Proofs.Session.Sweep
import Directory.Proofs.Session.Upgrade

/-!
# Stopping while the client is silent

The server is stopping, and the client reads what it is sent but sends nothing more. `ServerSide` are
the steps that can be counted on then: those of the reading party, the watcher, the closing down and
the output, and the return of a handler that was asked to stop.

A session that has none of them left, and is not closed, is in one of two states, and both can be
come to (`stuck_iff`). In `Deserted` it waits for the handler of a request for encryption, which waits
to be asked to stop; but requests are asked to stop when the session closes down, and it does not do
so while it waits. In `Walled` it waits for a handshake, which the watcher was to interrupt; but the
watcher waits to make its announcement first, in an outbox that is full while the output is paused.
-/

namespace Directory

namespace Session

variable {encrypted : Bool} {s s' : Session} {a : Action}

/-! ## What can be counted on -/

/-- The steps that are taken sooner or later while the client reads and sends nothing: a handler
returns when it was asked to stop, or when it can write no more. -/
inductive ServerSide (s : Session) : Action → Prop where
  | read : ServerSide s .read
  | watch : ServerSide s .watch
  | close : ServerSide s .close
  | take : ServerSide s (.output .take)
  | write (count : Nat) : ServerSide s (.output (.write count))
  | resume : ServerSide s (.output .resume)
  | returns {request} (h : s.cancellations.isRaised request = true ∨
      s.output.outbox.closed = true) : ServerSide s (.handler request .return)

def Stuck (s : Session) : Prop := ∀ a, s.ServerSide a → s.step? a = none

/-- No handler that runs was asked to stop, and all of them can write. -/
structure Unanswered (s : Session) : Prop where
  unasked : ∀ {request}, s.Runs request → s.cancellations.isRaised request = false
  opened : s.output.outbox.closed = false

/-- Everything is done but for the handler of a request for encryption, which runs and was not asked
to stop. -/
structure Deserted (s : Session) : Prop extends Unanswered s where
  serving : ∃ request, s.phase = .serving request ∧ s.Runs request
  watched : s.watcher = .done
  ready : s.output.phase = .ready
  items_eq : s.output.outbox.items = []

/-- A handshake goes on, the output is held in its pause, and the watcher waits for room in the outbox
before it interrupts the handshake. -/
structure Walled (s : Session) : Prop extends Unanswered s where
  shaking : ∃ n, s.phase = .shaking n ∧ s.output.phase = .paused n ∧
    s.output.pauses[n]?.bind (·.ending) = none
  undisturbed : s.interrupted = false
  waits : ∃ ticket, s.watcher = .offering ticket ∧ s.output.outbox.standing ticket = .waiting

/-! ## Nothing can be done in these states -/

theorem Unanswered.not_returns (h : s.Unanswered) {request : Nat}
    (hs : s.cancellations.isRaised request = true ∨ s.output.outbox.closed = true) :
    s.step? (.handler request .return) = none := by
  show s.perform request .return = none
  unfold perform
  cases hi : s.requests[request]? with
  | none => rfl
  | some i =>
      show (if i.progress = .running then _ else none) = none
      by_cases hrun : i.progress = .running
      · have hraised := h.unasked ⟨i, hi, hrun⟩
        rcases hs with hs | hs
        · cases hs.symm.trans hraised
        · cases hs.symm.trans h.opened
      · exact if_neg hrun

theorem emit_eq_none {act : Output.Act} (h : s.output.step? act = none) :
    s.step? (.output act) = none := by
  show s.emit act = none
  rw [emit, h]
  rfl

theorem Deserted.stuck (h : s.Deserted) : s.Stuck := by
  obtain ⟨request, hp, i, hi, hrun⟩ := h.serving
  intro a ha
  cases ha with
  | read =>
      show s.read = none
      simp [read, hp, awaitHandler, hi, hrun]
  | watch =>
      show s.watch = none
      simp [watch, h.watched]
  | close =>
      show s.close = none
      simp [close, hp]
  | take =>
      apply emit_eq_none
      simp [Output.step?, h.ready, Output.takeNext, Outbox.take, h.items_eq, h.opened]
  | write count =>
      apply emit_eq_none
      simp [Output.step?, h.ready]
  | resume =>
      apply emit_eq_none
      simp [Output.step?, h.ready]
  | returns hs => exact h.not_returns hs

theorem Walled.stuck (h : s.Walled) : s.Stuck := by
  obtain ⟨n, hp, hpaused, hending⟩ := h.shaking
  obtain ⟨ticket, hw, hst⟩ := h.waits
  intro a ha
  cases ha with
  | read =>
      show s.read = none
      simp [read, hp, awaitHandshake, h.undisturbed]
  | watch =>
      show s.watch = none
      simp [watch, hw, hst]
  | close =>
      show s.close = none
      simp [close, hp]
  | take =>
      apply emit_eq_none
      simp [Output.step?, hpaused]
  | write count =>
      apply emit_eq_none
      simp [Output.step?, hpaused]
  | resume =>
      apply emit_eq_none
      simp only [Output.step?, hpaused, hending]
  | returns hs => exact h.not_returns hs

/-! ## What each party waits for -/

structure Prompt (s : Session) : Prop where
  tight : s.output.outbox.Tight
  left : ∀ {c left}, s.output.phase = .writing c left → left ≠ []
  offers : ∀ {ticket n}, s.phase = .offering ticket n → ticket < s.output.outbox.tickets ∧
    ∀ item, (ticket, item) ∈ s.output.outbox.waiting → item = .pause n
  watched : s.watcher = .done → s.interrupted = true ∨ s.closing = true
  closing : s.closing = true → s.phase.isOver = true

namespace Prompt

/-- Until the session is over the watcher has interrupted it when its work is done. -/
theorem interrupted_of_done (h : s.Prompt) (hw : s.watcher = .done) (hp : s.phase.isOver = false) :
    s.interrupted = true := by
  rcases h.watched hw with hi | hclosing
  · exact hi
  · cases hp.symm.trans (h.closing hclosing)

theorem watched_of_move (h : s.Prompt) (hm : Move s a s') :
    s'.watcher = .done → s'.interrupted = true ∨ s'.closing = true := by
  have hkept : s'.watcher = s.watcher → s'.closing = s.closing →
      s'.watcher = .done → s'.interrupted = true ∨ s'.closing = true := by
    intro hw hc hdone
    rw [hc]
    exact (h.watched (hw.symm.trans hdone)).imp_left (interrupted_of_move hm)
  cases hm with
  | silenced hw hc => exact fun _ => .inr hc
  | watcherInterrupts => exact fun _ => .inl rfl
  | silence => exact fun _ => .inr rfl
  | noticeQueued => exact nofun
  | noticeOffered => exact nofun
  | noticeRefused => exact nofun
  | noticeAdmitted => exact nofun
  | noticeTurnedAway => exact nofun
  | _ => exact hkept rfl rfl

theorem closing_of_move (h : s.Prompt) (hm : Move s a s') :
    s'.closing = true → s'.phase.isOver = true := by
  have hkept : s'.closing = s.closing → s'.closing = true → s'.phase.isOver = true :=
    fun hc hclosing => isOver_of_move hm (h.closing (hc.symm.trans hclosing))
  cases hm with
  | silence => exact fun _ => rfl
  | _ => exact hkept rfl

theorem offering_of_move (hm : Move s a s') {ticket n : Nat} (hp : s'.phase = .offering ticket n) :
    s.phase = .offering ticket n ∨ n = s.output.nextPause ∧
      s.requestPause = (.waiting ticket, s'.output) := by
  cases hm with
  | pauseOffered hr hs hb ho =>
      cases hp
      exact .inr ⟨rfl, ho⟩
  | _ => first | exact .inl hp | cases hp

theorem offers_of_move (h : s.Prompt) (hm : Move s a s')
    (hkeeps : s.output.outbox.Keeps s'.output.outbox) {ticket n : Nat}
    (hp : s'.phase = .offering ticket n) : ticket < s'.output.outbox.tickets ∧
      ∀ item, (ticket, item) ∈ s'.output.outbox.waiting → item = .pause n := by
  rcases offering_of_move hm hp with hp | ⟨rfl, ho⟩
  · -- Later writers have later tickets, so none of them can be taken for this one.
    obtain ⟨hlt, hpause⟩ := h.offers hp
    exact ⟨Nat.lt_of_lt_of_le hlt hkeeps.tickets_le,
      fun item hmem => hpause item (hkeeps.waiting _ hmem hlt)⟩
  · have hout : (s.output.outbox.send (.pause s.output.nextPause)).2 = s'.output.outbox :=
      congrArg (·.2.outbox) ho
    have hreceipt : (s.output.outbox.send (.pause s.output.nextPause)).1 = .waiting ticket :=
      congrArg Prod.fst ho
    rcases Outbox.send_cases s.output.outbox (.pause s.output.nextPause) with
      ⟨-, hs⟩ | ⟨-, -, hs⟩ | ⟨-, hs⟩
    · rw [hs] at hreceipt
      cases hreceipt
    · rw [hs] at hreceipt
      cases hreceipt
    · rw [hs] at hreceipt hout
      cases hreceipt
      rw [← hout]
      refine ⟨Nat.lt_succ_self _, fun item hmem => ?_⟩
      rcases List.mem_append.mp hmem with hold | hnew
      · exact absurd (h.tight.known _ hold) (Nat.lt_irrefl _)
      · cases List.mem_singleton.mp hnew
        rfl

theorem left_of_move (h : s.Prompt) (ha : s.output.Account) (hm : Move s a s') :
    ∀ {c left}, s'.output.phase = .writing c left → left ≠ [] := by
  rcases (Passage.of_move ha hm).rests ha with hrests | ⟨act, events, -, hturn, -⟩
  · exact fun hphase => h.left (hrests.phase_eq.symm.trans hphase)
  · exact Output.left_of_turn hturn

theorem move (h : s.Prompt) (ha : s.output.Account) (hm : Move s a s') : s'.Prompt := by
  obtain ⟨htight, hkeeps⟩ : s'.output.outbox.Tight ∧ s.output.outbox.Keeps s'.output.outbox := by
    rcases outbox_of_move hm with ⟨item, -, heq⟩ | hdrains
    · exact heq ▸ ⟨h.tight.send item, .send ..⟩
    · exact ⟨h.tight.drains hdrains, .drains hdrains⟩
  exact ⟨htight, h.left_of_move ha hm, h.offers_of_move hm hkeeps, h.watched_of_move hm,
    h.closing_of_move hm⟩

theorem start {options : Options} {info : SessionInfo} {stopping : Bool}
    (h : start? options info stopping = some s) : s.Prompt := by
  obtain ⟨hroom, rfl⟩ := start?_eq_some h
  refine ⟨⟨?_, fun hne => absurd rfl hne, by simp⟩, by simp, by simp, by simp, by simp⟩
  exact hroom

end Prompt

/-! ## What a stuck session waits for -/

structure Reached (encrypted : Bool) (given : Channel → Octets) (s : Session) : Prop where
  handover : s.Handover encrypted
  parted : Parted encrypted given s
  prompt : s.Prompt
  listed : s.Listed
  asked : s.Asked

theorem Reached.run {options : Options} {info : SessionInfo} {stopping : Bool} {s₀ : Session}
    {actions : List Action} (h₀ : start? options info stopping = some s₀)
    (h : s₀.run? actions = some s) :
    Reached info.tls (fun c => delivered c s₀ actions) s := by
  have hkept : s.Handover info.tls ∧ s.Prompt := by
    refine run?_induction (motive := fun _ s => s.Handover info.tls ∧ s.Prompt)
      ⟨Handover.start h₀, Prompt.start h₀⟩ ?_ h
    rintro _ mid _ next - ⟨hhandover, hprompt⟩ hm
    exact ⟨hhandover.move hm, hprompt.move hhandover.teardown.account hm⟩
  obtain ⟨hhandover, hprompt⟩ := hkept
  exact ⟨hhandover, Parted.run h₀ h, hprompt, (Enrolled.run h₀ h).listed, Asked.run h₀ h⟩

namespace Reached

variable {given : Channel → Octets}

/-- The watcher of a server that is stopping has done its work or waits for room. -/
theorem watcher_of_stuck (hstuck : s.Stuck) (hstop : s.stopping = true) :
    s.watcher = .done ∨ ∃ ticket, s.watcher = .offering ticket ∧
      s.output.outbox.standing ticket = .waiting := by
  have hwatch : s.watch = none := hstuck .watch .watch
  unfold watch at hwatch
  cases hw : s.watcher with
  | watching =>
      rw [hw] at hwatch
      dsimp only at hwatch
      rw [if_pos hstop] at hwatch
      split at hwatch <;> cases hwatch
  | offering ticket =>
      rw [hw] at hwatch
      dsimp only at hwatch
      cases hst : s.output.outbox.standing ticket with
      | waiting => exact .inr ⟨ticket, rfl, hst⟩
      | queued =>
          rw [hst] at hwatch
          cases hwatch
      | refused =>
          rw [hst] at hwatch
          cases hwatch
  | announced =>
      rw [hw] at hwatch
      cases hwatch
  | done => exact .inl rfl

theorem waiting_of_standing {ticket : Nat} (hst : s.output.outbox.standing ticket = .waiting) :
    ∃ item, (ticket, item) ∈ s.output.outbox.waiting := by
  unfold Outbox.standing at hst
  split at hst
  next hany =>
    obtain ⟨⟨other, item⟩, hmem, heq⟩ := List.any_eq_true.mp hany
    cases eq_of_beq heq
    exact ⟨item, hmem⟩
  next =>
    split at hst <;> cases hst

theorem unanswered (hstuck : s.Stuck) (hopen : s.output.outbox.closed = false) :
    s.Unanswered := by
  refine ⟨?_, hopen⟩
  rintro request ⟨i, hi, hrun⟩
  apply eq_false_of_ne_true
  intro hraised
  have hnone := hstuck _ (.returns (.inl hraised))
  have hsome : s.step? (.handler request .return) = some (s.finish request .returned) := by
    show s.perform request .return = _
    simp [perform, hi, hrun]
  cases hnone.symm.trans hsome

/-- Outside of an upgrade the output of a stuck session has nothing to do. -/
theorem output_of_stuck (h : Reached encrypted given s) (hstuck : s.Stuck) :
    s.output.phase = .ready ∧ s.output.outbox.items = [] ∧ s.output.outbox.closed = false ∨
      s.output.phase = .finished ∨ ∃ before, s.Held before := by
  have hnone {act : Output.Act} (ha : s.ServerSide (.output act)) : s.output.step? act = none := by
    have hemit : s.emit act = none := hstuck _ ha
    cases hs : s.output.step? act with
    | none => rfl
    | some found =>
        rw [emit, hs] at hemit
        cases hemit
  rcases Output.idle_of_stuck h.prompt.left (hnone .take) (hnone (.write 1)) (hnone .resume) with
    hready | hfinished | ⟨n, hpaused, hending⟩
  · exact .inl hready
  · exact .inr (.inl hfinished)
  · refine .inr (.inr ?_)
    cases h.handover.stage with
    | unasked hu => exact absurd hpaused (hu.ready n)
    | awaited _ ha => exact absurd hpaused (ha.ready n)
    | held _ hh => exact ⟨_, hh⟩
    | ended _ he =>
        cases he.paused n hpaused
        rw [he.pauses_eq] at hending
        cases hending

/-- Before the closing item is offered, and outside of an upgrade, the output is idle and nobody waits
for it. -/
theorem idle_of_stuck (h : Reached encrypted given s) (hstuck : s.Stuck)
    (hsealed : s.phase.hasSealed = false) (hhanding : s.phase.isHandingOver = false) :
    s.output.phase = .ready ∧ s.output.outbox.items = [] ∧ s.output.outbox.waiting = [] := by
  have hopen := h.handover.teardown.outbox_open hsealed
  rcases h.output_of_stuck hstuck with ⟨hready, hitems, -⟩ | hfinished | ⟨before, hh⟩
  · refine ⟨hready, hitems, ?_⟩
    by_contra hw
    exact h.prompt.tight.items_ne_nil hw hitems
  · cases hopen.symm.trans (h.handover.teardown.account.finished hfinished).1
  · cases hhanding.symm.trans hh.handingOver

/-- Where nobody waits for room, the watcher has done its work. -/
theorem watched_of_stuck (hstuck : s.Stuck) (hstop : s.stopping = true)
    (hw : s.output.outbox.waiting = []) : s.watcher = .done := by
  rcases watcher_of_stuck hstuck hstop with hdone | ⟨ticket, -, hst⟩
  · exact hdone
  · obtain ⟨item, hmem⟩ := waiting_of_standing hst
    rw [hw] at hmem
    cases hmem

theorem not_reading (h : Reached encrypted given s) (hstuck : s.Stuck) (hstop : s.stopping = true) :
    s.phase ≠ .reading := by
  intro hp
  have hread : s.readNext = none := by
    have hnone : s.read = none := hstuck .read .read
    rw [read, hp] at hnone
    exact hnone
  obtain ⟨-, -, hw⟩ := h.idle_of_stuck hstuck (hp ▸ rfl) (hp ▸ rfl)
  have hi := h.prompt.interrupted_of_done (watched_of_stuck hstuck hstop hw) (hp ▸ rfl)
  rw [readNext, if_pos hi] at hread
  cases hread

theorem deserted_of_stuck (h : Reached encrypted given s) (hstuck : s.Stuck)
    (hstop : s.stopping = true) {request : Nat} (hp : s.phase = .serving request) :
    s.Deserted := by
  obtain ⟨hready, hitems, hw⟩ := h.idle_of_stuck hstuck (hp ▸ rfl) (hp ▸ rfl)
  obtain ⟨-, l, hl, -⟩ := h.parted.serving request hp
  rw [letters, List.getElem?_map] at hl
  obtain ⟨i, hi, -⟩ := Option.map_eq_some_iff.mp hl
  have hrun : i.progress = .running := by
    have hnone : s.read = none := hstuck .read .read
    rw [read, hp] at hnone
    simp only [awaitHandler, hi, Option.bind_eq_bind, Option.bind_some] at hnone
    cases hprogress : i.progress with
    | running => rfl
    | returned =>
        rw [hprogress] at hnone
        cases hnone
    | panicked =>
        rw [hprogress] at hnone
        cases hnone
  exact ⟨unanswered hstuck (h.handover.teardown.outbox_open (hp ▸ rfl)),
    ⟨request, hp, i, hi, hrun⟩, watched_of_stuck hstuck hstop hw, hready, hitems⟩

/-- While the pause waits for room the output has something to take, and no pause to be held in. -/
theorem not_offering (h : Reached encrypted given s) (hstuck : s.Stuck) {ticket n : Nat} :
    s.phase ≠ .offering ticket n := by
  intro hp
  have hopen := h.handover.teardown.outbox_open (hp ▸ rfl)
  obtain ⟨item, hmem⟩ : ∃ item, (ticket, item) ∈ s.output.outbox.waiting := by
    have hnone : s.read = none := hstuck .read .read
    rw [read, hp] at hnone
    simp only [awaitRoom] at hnone
    cases hst : s.output.outbox.standing ticket with
    | waiting => exact waiting_of_standing hst
    | queued =>
        rw [hst] at hnone
        cases hnone
    | refused =>
        rw [hst] at hnone
        cases hnone
  cases (h.prompt.offers hp).2 item hmem
  rcases h.output_of_stuck hstuck with ⟨-, hitems, -⟩ | hfinished | ⟨before, hh⟩
  · exact h.prompt.tight.items_ne_nil (List.ne_nil_of_mem hmem) hitems
  · cases hopen.symm.trans (h.handover.teardown.account.finished hfinished).1
  · -- The pause that holds the output was taken, and there is no second one.
    obtain ⟨behind, hoffered, hbehind⟩ := hh.divided.offered
    have hrest : s.output.outbox.items ++ s.output.outbox.waiting.map (·.2) = behind := by
      rw [Outbox.offered, ← Outbox.gone_append_items, hh.gone_eq, List.append_assoc,
        List.append_assoc, List.append_cancel_left_eq] at hoffered
      exact (List.cons.inj hoffered).2
    have hpause : .pause n ∈ behind := by
      rw [← hrest]
      exact List.mem_append_right _ (List.mem_map.mpr ⟨_, hmem, rfl⟩)
    cases hbehind _ hpause

theorem not_pausing (h : Reached encrypted given s) (hstuck : s.Stuck) {n : Nat} :
    s.phase ≠ .pausing n := by
  intro hp
  have hopen := h.handover.teardown.outbox_open (hp ▸ rfl)
  have hnone : s.awaitPause n = none := by
    have hread : s.read = none := hstuck .read .read
    rw [read, hp] at hread
    exact hread
  have hlost : s.output.hasPaused n = false := by
    apply eq_false_of_ne_true
    intro hpaused
    rw [awaitPause, if_pos hpaused] at hnone
    split at hnone <;> cases hnone
  -- A pause that is neither reported nor expected any more is given up.
  have hexpects : s.output.expects n = true := by
    by_contra hnot
    rw [awaitPause, hlost, if_neg Bool.false_ne_true, if_neg hnot] at hnone
    cases hnone
  rcases h.output_of_stuck hstuck with ⟨hready, hitems, -⟩ | hfinished | ⟨before, hh⟩
  · have hw : s.output.outbox.waiting = [] := by
      by_contra hw
      exact h.prompt.tight.items_ne_nil hw hitems
    simp [Output.expects, hready, hitems, hw] at hexpects
  · cases hopen.symm.trans (h.handover.teardown.account.finished hfinished).1
  · rcases hh.phase with ⟨hphase | ⟨ticket, hphase⟩, -⟩ | ⟨hphase, -⟩ <;> cases hp.symm.trans hphase
    rw [Output.hasPaused, hh.pauses_eq] at hlost
    cases hlost

/-- A handshake is interrupted unless the watcher waits for room in the outbox. -/
theorem walled_of_stuck (h : Reached encrypted given s) (hstuck : s.Stuck)
    (hstop : s.stopping = true) {n : Nat} (hp : s.phase = .shaking n) : s.Walled := by
  have hundisturbed : s.interrupted = false := by
    apply eq_false_of_ne_true
    intro hi
    have hread : s.read = none := hstuck .read .read
    rw [read, hp] at hread
    replace hread : s.awaitHandshake n = none := hread
    rw [awaitHandshake, if_pos hi] at hread
    cases hread
  obtain ⟨rfl, -, before, hh⟩ := h.handover.held_of_shaking hp
  have hending : s.output.pauses[0]?.bind (·.ending) = none := by
    rw [hh.pauses_eq]
    rfl
  refine ⟨unanswered hstuck (h.handover.teardown.outbox_open (hp ▸ rfl)),
    ⟨0, hp, hh.paused, hending⟩, hundisturbed, ?_⟩
  rcases watcher_of_stuck hstuck hstop with hdone | hwaits
  · cases hundisturbed.symm.trans (h.prompt.interrupted_of_done hdone (hp ▸ rfl))
  · exact hwaits

/-- A session that closes down goes on: its handlers were asked to stop, and its output is free. -/
theorem not_closing (h : Reached encrypted given s) (hstuck : s.Stuck) (hstop : s.stopping = true)
    {stage : Closing} : s.phase ≠ .closing stage := by
  intro hp
  have hclose : s.close = none := hstuck .close .close
  have hnever {before : List Item} (hh : s.Held before) : False := by
    have hhanding := hh.handingOver
    rw [hp] at hhanding
    cases hhanding
  cases stage with
  | silencing => simp [close, hp] at hclose
  | interrupting => simp [close, hp] at hclose
  | sweeping => simp [close, hp] at hclose
  | joining =>
      obtain ⟨-, -, hw⟩ := h.idle_of_stuck hstuck (hp ▸ rfl) (hp ▸ rfl)
      have hdone := watched_of_stuck hstuck hstop hw
      have hopen := h.handover.teardown.outbox_open (hp ▸ rfl)
      have hhandlers : s.handlersDone = true := by
        rw [handlersDone, List.all_eq_true]
        intro i hi
        apply decide_eq_true
        intro hrun
        obtain ⟨request, hrequest⟩ := List.mem_iff_getElem?.mp hi
        have hruns : s.Runs request := ⟨i, hrequest, hrun⟩
        -- A handler that runs was asked to stop by the sweep, and so it returns.
        have hraised := h.asked (hp ▸ rfl) hruns
        cases hraised.symm.trans ((unanswered hstuck hopen).unasked hruns)
      simp [close, hp, hhandlers, hdone] at hclose
  | sealing => simp [close, hp] at hclose
  | offering ticket =>
      simp only [close, hp] at hclose
      obtain ⟨item, hmem⟩ : ∃ item, (ticket, item) ∈ s.output.outbox.waiting := by
        split at hclose
        next hst => exact waiting_of_standing hst
        next => cases hclose
      rcases h.output_of_stuck hstuck with ⟨-, hitems, -⟩ | hfinished | ⟨before, hh⟩
      · exact h.prompt.tight.items_ne_nil (List.ne_nil_of_mem hmem) hitems
      · have hclosed := (h.handover.teardown.account.finished hfinished).1
        rw [h.handover.teardown.account.sound.nobody_waits hclosed] at hmem
        cases hmem
      · exact hnever hh
  | draining =>
      rcases h.output_of_stuck hstuck with ⟨-, hitems, hopen⟩ | hfinished | ⟨before, hh⟩
      · -- The closing item was let in, so it was taken.
        have hcount := h.handover.teardown.letIn (.inl hp)
        have hgone : .close ∈ s.output.outbox.gone := by
          rw [Outbox.gone_eq_admitted hitems]
          exact List.count_pos_iff.mp (by rw [hcount]; exact Nat.one_pos)
        have hsealed := h.handover.teardown.account.sealed_iff.mpr hgone
        rw [h.handover.teardown.account.closed_eq, hsealed] at hopen
        cases hopen
      · simp [close, hp, hfinished] at hclose
      · exact hnever hh
  | leaving => simp [close, hp] at hclose

end Reached

/-- **Where stopping gets stuck.** While the server is stopping and the client is silent, a session that
is not closed always has a step that can be counted on, but for two states. -/
theorem stuck_iff {options : Options} {info : SessionInfo} {stopping : Bool} {s₀ s : Session}
    {actions : List Action} (h₀ : start? options info stopping = some s₀)
    (hrun : s₀.run? actions = some s) (hstop : s.stopping = true) (hopen : s.phase ≠ .closed) :
    s.Stuck ↔ s.Deserted ∨ s.Walled := by
  constructor
  · intro hstuck
    have h := Reached.run h₀ hrun
    cases hp : s.phase with
    | reading => exact absurd hp (h.not_reading hstuck hstop)
    | serving request => exact .inl (h.deserted_of_stuck hstuck hstop hp)
    | offering ticket n => exact absurd hp (h.not_offering hstuck)
    | pausing n => exact absurd hp (h.not_pausing hstuck)
    | shaking n => exact .inr (h.walled_of_stuck hstuck hstop hp)
    | closing stage => exact absurd hp (h.not_closing hstuck hstop)
    | closed => exact absurd hp hopen
  · rintro (h | h)
    · exact h.stuck
    · exact h.stuck

/-! ## Both states are come to -/

def narrowOptions : Options := ({ : Options}.withQueueCapacity 1).withStartTls ⟨[], []⟩

def silentInfo : SessionInfo :=
  ⟨1, .short ⟨192, 0, 2, 1⟩ 40000, .short ⟨192, 0, 2, 2⟩ 389, false, {}⟩

def startTlsRequest : Message := { id := 1, op := .extendedRequest Message.startTlsName none }

/-- A handshake begins while another request is being served, its response fills the outbox, and the
server stops. -/
def wallActions : List Action :=
  [.receive lateRequest.encode, .read, .receive startTlsRequest.encode, .read,
    .handler 1 .acceptStartTls, .handler 1 .return, .read, .output .take, .read,
    .handler 0 (.write lateResponse), .stop, .watch]

/-- The server stops while a request for encryption is being served, and its announcement is written. -/
def desertActions : List Action :=
  [.receive startTlsRequest.encode, .read, .stop, .watch, .watch, .output .take,
    .output (.write notice.encode.length)]

theorem unanswered_of_all (h : s.cancellations.all (!·.raised) = true)
    (hopen : s.output.outbox.closed = false) : s.Unanswered := by
  refine ⟨fun {request} _ => ?_, hopen⟩
  apply eq_false_of_ne_true
  intro hraised
  obtain ⟨c, hc, hset⟩ := (Option.any_eq_true _ _).mp hraised
  have hnot := List.all_eq_true.mp h c (List.mem_of_getElem? hc)
  rw [hset] at hnot
  cases hnot

theorem walled_of_wallActions : ∃ s₀ s, start? narrowOptions silentInfo false = some s₀ ∧
    s₀.run? wallActions = some s ∧ s.stopping = true ∧ s.options.readTimeout = none ∧ s.Walled := by
  have hends : ((start? narrowOptions silentInfo false).bind (·.run? wallActions)).any (fun s =>
      s.stopping = true ∧ s.options.readTimeout = none ∧ s.phase = .shaking 0 ∧
        s.output.phase = .paused 0 ∧ s.output.pauses[0]?.bind (·.ending) = none ∧
        s.interrupted = false ∧ s.watcher = .offering 0 ∧
        s.output.outbox.standing 0 = .waiting ∧ s.output.outbox.closed = false ∧
        s.cancellations.all (!·.raised) = true) = true := by
    decide +kernel
  obtain ⟨s, hs, hend⟩ := (Option.any_eq_true _ _).mp hends
  obtain ⟨s₀, h₀, hrun⟩ := Option.bind_eq_some_iff.mp hs
  obtain ⟨hstop, hlimit, hp, hpaused, hending, hundisturbed, hw, hst, hopen, hall⟩ :=
    of_decide_eq_true hend
  exact ⟨s₀, s, h₀, hrun, hstop, hlimit, unanswered_of_all hall hopen, ⟨0, hp, hpaused, hending⟩,
    hundisturbed, 0, hw, hst⟩

theorem deserted_of_desertActions : ∃ s₀ s, start? narrowOptions silentInfo false = some s₀ ∧
    s₀.run? desertActions = some s ∧ s.stopping = true ∧ s.options.readTimeout = none ∧
    s.Deserted := by
  have hends : ((start? narrowOptions silentInfo false).bind (·.run? desertActions)).any (fun s =>
      s.stopping = true ∧ s.options.readTimeout = none ∧ s.phase = .serving 0 ∧
        s.requests[0]?.map (·.progress) = some .running ∧ s.watcher = .done ∧
        s.output.phase = .ready ∧ s.output.outbox.items = [] ∧
        s.output.outbox.closed = false ∧ s.cancellations.all (!·.raised) = true) = true := by
    decide +kernel
  obtain ⟨s, hs, hend⟩ := (Option.any_eq_true _ _).mp hends
  obtain ⟨s₀, h₀, hrun⟩ := Option.bind_eq_some_iff.mp hs
  obtain ⟨hstop, hlimit, hp, hprogress, hw, hready, hitems, hopen, hall⟩ := of_decide_eq_true hend
  obtain ⟨i, hi, hrunning⟩ := Option.map_eq_some_iff.mp hprogress
  exact ⟨s₀, s, h₀, hrun, hstop, hlimit, unanswered_of_all hall hopen, ⟨0, hp, i, hi, hrunning⟩, hw,
    hready, hitems⟩

/-- With no timeout set, a session can be left with nothing to do while the server is stopping: in the
middle of a handshake, and while a request for encryption is being served. -/
theorem stuck_while_stopping :
    (∃ s₀ s, start? narrowOptions silentInfo false = some s₀ ∧ s₀.run? wallActions = some s ∧
      s.stopping = true ∧ s.options.readTimeout = none ∧ (∃ n, s.phase = .shaking n) ∧ s.Stuck) ∧
    ∃ s₀ s, start? narrowOptions silentInfo false = some s₀ ∧ s₀.run? desertActions = some s ∧
      s.stopping = true ∧ s.options.readTimeout = none ∧ (∃ request, s.phase = .serving request) ∧
      s.Stuck := by
  constructor
  · obtain ⟨s₀, s, h₀, hrun, hstop, hlimit, h⟩ := walled_of_wallActions
    obtain ⟨n, hp, -⟩ := h.shaking
    exact ⟨s₀, s, h₀, hrun, hstop, hlimit, ⟨n, hp⟩, h.stuck⟩
  · obtain ⟨s₀, s, h₀, hrun, hstop, hlimit, h⟩ := deserted_of_desertActions
    obtain ⟨request, hp, -⟩ := h.serving
    exact ⟨s₀, s, h₀, hrun, hstop, hlimit, ⟨request, hp⟩, h.stuck⟩

/-- The sessions of the two runs are stuck in the two ways. -/
theorem stuck_iff_of_runs :
    (∃ s₀ s, start? narrowOptions silentInfo false = some s₀ ∧ s₀.run? wallActions = some s ∧
      s.stopping = true ∧ s.phase ≠ .closed ∧ (s.Stuck ↔ s.Deserted ∨ s.Walled) ∧ s.Walled) ∧
    ∃ s₀ s, start? narrowOptions silentInfo false = some s₀ ∧ s₀.run? desertActions = some s ∧
      s.stopping = true ∧ s.phase ≠ .closed ∧ (s.Stuck ↔ s.Deserted ∨ s.Walled) ∧
      s.Deserted := by
  constructor
  · obtain ⟨s₀, s, h₀, hrun, hstop, -, h⟩ := walled_of_wallActions
    obtain ⟨n, hp, -⟩ := h.shaking
    have hopen : s.phase ≠ .closed := fun hclosed => nomatch hp.symm.trans hclosed
    exact ⟨s₀, s, h₀, hrun, hstop, hopen, stuck_iff h₀ hrun hstop hopen, h⟩
  · obtain ⟨s₀, s, h₀, hrun, hstop, -, h⟩ := deserted_of_desertActions
    obtain ⟨request, hp, -⟩ := h.serving
    have hopen : s.phase ≠ .closed := fun hclosed => nomatch hp.symm.trans hclosed
    exact ⟨s₀, s, h₀, hrun, hstop, hopen, stuck_iff h₀ hrun hstop hopen, h⟩

end Session

end Directory
