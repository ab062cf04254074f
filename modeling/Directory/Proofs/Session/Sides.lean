import Directory.Proofs.Session.Handover
import Mathlib.Data.List.Infix

/-!
# What is written on which side of an upgrade

The pause of an upgrade splits what was offered to the output in two: the messages ahead of it are
written in the clear and those behind it encrypted, or not at all if the upgrade fails. Nothing is
written in between, and a handshake that succeeds began with all that is ahead of the pause on the
connection.

`WritesApart` has all of it, with the place of the pause given by `Session.Splits`. It holds in every
state that a session comes to (`writesApart_of_run`).
-/

namespace Directory

namespace Item

variable {front back items more : List Item}

theorem ahead_prefix (h : items <+: more) : ahead items <+: ahead more := by
  obtain ⟨rest, rfl⟩ := h
  by_cases hclose : .close ∈ items
  · exact (ahead_append hclose rest).symm ▸ List.prefix_refl _
  · rw [ahead_of_not_mem hclose, ahead_append_of_not_mem hclose]
    exact List.prefix_append ..

theorem spelledOn_of_none (h : ∀ item ∈ items, item.isPause = false) (hclose : .close ∉ items) :
    spelledOn .plain (ahead items) = spelled items ∧ spelledOn .secure (ahead items) = [] := by
  obtain ⟨hplain, hsecure⟩ := part_of_none h
  rw [ahead_of_not_mem hclose, spelledOn, spelledOn, hplain, hsecure]
  exact ⟨rfl, rfl⟩

theorem spelledOn_of_split (h : ∀ item ∈ front, item.isPause = false) (hclose : .close ∉ front)
    (n : Nat) (back : List Item) :
    spelledOn .plain (ahead (front ++ .pause n :: back)) = spelled front ∧
      spelledOn .secure (ahead (front ++ .pause n :: back)) = spelled (ahead back) := by
  have hall : ∀ item ∈ front, decide (item ≠ .close) = true :=
    fun item hmem => decide_eq_true fun heq => hclose (heq ▸ hmem)
  have hahead : ahead (front ++ .pause n :: back) = front ++ .pause n :: ahead back := by
    rw [ahead, List.takeWhile_append_of_pos hall]
    rfl
  obtain ⟨hplain, hsecure⟩ := part_of_split h n (ahead back)
  rw [hahead, spelledOn, spelledOn, hplain, hsecure]
  exact ⟨rfl, rfl⟩

theorem spelledOn_take (h : ∀ item ∈ front, item.isPause = false) (hclose : .close ∉ front) (n : Nat)
    (back : List Item) (count : Nat) :
    spelledOn .plain (ahead ((front ++ .pause n :: back).take count)) =
        spelled (front.take count) ∧
      spelledOn .secure (ahead ((front ++ .pause n :: back).take count)) =
        spelled (ahead (back.take (count - front.length - 1))) := by
  by_cases hle : count ≤ front.length
  · rw [List.take_append_of_le_length hle, show count - front.length - 1 = 0 by omega]
    exact spelledOn_of_none (fun item hmem => h item (List.mem_of_mem_take hmem))
      fun hmem => hclose (List.mem_of_mem_take hmem)
  · have hcount : count - front.length = count - front.length - 1 + 1 := by omega
    rw [List.take_append, hcount, List.take_succ_cons, List.take_of_length_le (by omega),
      Nat.add_sub_cancel]
    exact spelledOn_of_split h hclose n _

end Item

namespace Session

variable {encrypted : Bool} {before behind : List Item} {n : Nat} {s s' : Session} {a : Action}

/-- A pause was offered to the output between some items. -/
def Splits (s : Session) (before : List Item) (n : Nat) (behind : List Item) : Prop :=
  s.output.outbox.offered = before ++ .pause n :: behind

/-! ## What is promised -/

/-- The two sides of the pause, in every state of a session. -/
structure WritesApart (s : Session) : Prop where
  /-- There is one pause at most. -/
  single : ∀ {before n behind}, s.Splits before n behind →
    ∀ item ∈ before ++ behind, item.isPause = false
  /-- An upgrade begins with a pause behind all that was offered so far. -/
  place : ∀ {a s'}, s.step? a = some s' → s.phase.isHandingOver = false →
    s'.phase.isHandingOver = true → ∃ n, s'.Splits s.output.outbox.offered n []
  /-- Whatever happens later, nothing more gets ahead of the pause. -/
  lasting : ∀ {before n behind}, s.Splits before n behind →
    ∀ {actions s'}, s.run? actions = some s' → ∃ behind', s'.Splits before n behind'
  /-- From when the output has reported the pause until it is ended nothing is written. -/
  quiet : ∀ {n}, s.output.hasPaused n = true → ∀ {actions s'}, s.run? actions = some s' →
    s'.output.pauses[n]?.bind (·.ending) = none → s'.output.wires = s.output.wires
  /-- Octets are written by the output, of the message taken last, and only as long as no write has
  failed: in the clear if the message is ahead of the pause, encrypted if it is behind it. -/
  writes : ∀ {before n behind}, s.Splits before n behind → ∀ {a s'}, s.step? a = some s' →
    s'.output.wires ≠ s.output.wires → ∃ count channel left front m,
      a = .output (.write count) ∧ s.output.failed = false ∧
      s.output.phase = .writing channel left ∧ left <:+ m.encode ∧
      s.output.outbox.gone = front ++ [.message m] ∧
      (channel = .plain ∧ front ++ [.message m] <+: before ∨
        channel = .secure ∧ before ++ [.pause n] <+: front)
  /-- What was written on a channel is the beginning of what is on its side of the pause, in order. -/
  within : ∀ {before n behind}, s.Splits before n behind →
    s.output.wires.on .plain <+: Item.spelled before ∧
      s.output.wires.on .secure <+: Item.spelled (Item.ahead behind)
  /-- As long as no write has failed, it is all that was taken, the message being written apart. -/
  exact : ∀ {before n behind}, s.Splits before n behind → s.output.failed = false →
    s.output.sent .plain = Item.spelled (before.take s.output.outbox.taken) ∧
      s.output.sent .secure =
        Item.spelled (Item.ahead (behind.take (s.output.outbox.taken - before.length - 1)))
  /-- When the output has finished, it is all that there is. -/
  complete : ∀ {before n behind}, s.Splits before n behind → s.output.failed = false →
    s.output.phase = .finished → s.output.wires.on .plain = Item.spelled before ∧
      s.output.wires.on .secure = Item.spelled (Item.ahead behind)
  /-- Unless the upgrade succeeds, nothing behind the pause is written. -/
  unencrypted : ∀ {before n behind}, s.Splits before n behind → s.info.tls = false →
    s.output.wires.on .secure = []
  /-- A handshake that is going to succeed begins with all that is ahead of the pause written and no
  write failed. -/
  begins : ∀ {n}, s.phase = .shaking n → ∀ {actions s'}, s.run? actions = some s' →
    s'.info.tls = true → s.output.failed = false ∧ ∃ before behind, s.Splits before n behind ∧
      s.output.wires.on .plain = Item.spelled before

namespace Handover

theorem stage_of_splits (h : s.Handover encrypted) (hs : s.Splits before n behind) :
    n = 0 ∧ encrypted = false ∧ s.output.Divided before ∧
      (∀ item ∈ behind, item.isPause = false) ∧
      (s.Awaited before ∨ s.Held before ∨ s.Ended before) := by
  have hunique {ahead : List Item} (hd : s.output.Divided ahead) :
      before = ahead ∧ n = 0 ∧ ∀ item ∈ behind, item.isPause = false := by
    obtain ⟨rest, hoffered, hrest⟩ := hd.offered
    obtain ⟨hbefore, hn, rfl⟩ := Item.split_unique (hs.symm.trans hoffered) hd.unpaused hrest
    exact ⟨hbefore, hn, hrest⟩
  cases h.stage with
  | unasked hu =>
      have hmem : .pause n ∈ s.output.outbox.offered := by
        rw [hs]
        exact List.mem_append_right _ (List.mem_cons_self ..)
      cases hu.unpaused _ hmem
  | awaited he hd =>
      obtain ⟨rfl, hn, hbehind⟩ := hunique hd.divided
      exact ⟨hn, he, hd.divided, hbehind, .inl hd⟩
  | held he hd =>
      obtain ⟨rfl, hn, hbehind⟩ := hunique hd.divided
      exact ⟨hn, he, hd.divided, hbehind, .inr (.inl hd)⟩
  | ended he hd =>
      obtain ⟨rfl, hn, hbehind⟩ := hunique hd.divided
      exact ⟨hn, he, hd.divided, hbehind, .inr (.inr hd)⟩

theorem single (h : s.Handover encrypted) (hs : s.Splits before n behind) :
    ∀ item ∈ before ++ behind, item.isPause = false := by
  obtain ⟨-, -, hd, hbehind, -⟩ := h.stage_of_splits hs
  intro item hmem
  rcases List.mem_append.mp hmem with hmem | hmem
  · exact hd.unpaused item hmem
  · exact hbehind item hmem

theorem place (h : s.Handover encrypted) (hm : Move s a s') (hp : s.phase.isHandingOver = false)
    (hp' : s'.phase.isHandingOver = true) : ∃ n, s'.Splits s.output.outbox.offered n [] := by
  cases Passage.of_move h.teardown.account hm with
  | aside _ _ hphase =>
      obtain ⟨hfalse, -⟩ := isHandingOver_of_aside hp hphase
      cases hfalse.symm.trans hp'
  | asks hr ho =>
      have hout : (s.output.openPause.send (.pause s.output.nextPause)).2 = s'.output :=
        congrArg Prod.snd ho
      refine ⟨s.output.nextPause, ?_⟩
      unfold Splits
      rw [← hout]
      show (s.output.outbox.send _).2.offered = _
      rw [Outbox.offered_send, h.teardown.outbox_open (hr.serving ▸ rfl)]
      rfl
  | upgrades hu => cases hu.handingOver.symm.trans hp
  | hangsUp => cases hp'
  | emits => cases hp.symm.trans hp'

theorem lasting (h : s.Handover encrypted) (hs : s.Splits before n behind) {actions : List Action}
    (hrun : s.run? actions = some s') : ∃ behind', s'.Splits before n behind' := by
  obtain ⟨rfl, -, -, -, hstage⟩ := h.stage_of_splits hs
  -- By induction on the run: the stages go forward only, and all of them have the same front.
  have hkept : s'.Handover encrypted ∧ (s'.Awaited before ∨ s'.Held before ∨ s'.Ended before) := by
    refine run?_induction (motive := fun _ t => t.Handover encrypted ∧
      (t.Awaited before ∨ t.Held before ∨ t.Ended before)) ⟨h, hstage⟩ ?_ hrun
    rintro _ mid _ next - ⟨hmid, hmidStage⟩ hm
    have hp := Passage.of_move hmid.teardown.account hm
    refine ⟨hmid.move hm, ?_⟩
    rcases hmidStage with ha | hh | he
    · rcases ha.pass hmid.teardown hmid.refused hp with ha | hh
      · exact .inl ha
      · exact .inr (.inl hh)
    · rcases hh.pass hmid.teardown hmid.refused hp with ⟨hh, -⟩ | he
      · exact .inr (.inl hh)
      · exact .inr (.inr he)
    · exact .inr (.inr (he.pass hmid.teardown hp))
  have hdivided : s'.output.Divided before := by
    rcases hkept.2 with ha | hh | he
    · exact ha.divided
    · exact hh.divided
    · exact he.divided
  obtain ⟨behind', hoffered, -⟩ := hdivided.offered
  exact ⟨behind', hoffered⟩

theorem quiet (h : s.Handover encrypted) (hpaused : s.output.hasPaused n = true)
    {actions : List Action} (hrun : s.run? actions = some s')
    (hending : s'.output.pauses[n]?.bind (·.ending) = none) :
    s'.output.wires = s.output.wires := by
  obtain ⟨before, hn, hstage⟩ : ∃ before, n = 0 ∧ (s.Held before ∨ s.Ended before) := by
    have hone {p : Pause} (hp : s.output.pauses = [p]) : n = 0 := by
      rw [Output.hasPaused, hp] at hpaused
      cases n with
      | zero => rfl
      | succ n => cases hpaused
    cases h.stage with
    | unasked hu =>
        rw [Output.hasPaused, hu.pauses_eq] at hpaused
        cases hpaused
    | awaited _ ha =>
        cases hone ha.pauses_eq
        rw [Output.hasPaused, ha.pauses_eq] at hpaused
        cases hpaused
    | held _ hh => exact ⟨_, hone hh.pauses_eq, .inl hh⟩
    | ended _ he => exact ⟨_, hone he.pauses_eq, .inr he⟩
  subst hn
  -- By induction on the run: the output is held as it was, or the pause was ended on the way.
  have hkept : s'.Handover encrypted ∧
      (s'.Held before ∧ s'.output.wires = s.output.wires ∨ s'.Ended before) := by
    refine run?_induction (motive := fun _ t => t.Handover encrypted ∧
      (t.Held before ∧ t.output.wires = s.output.wires ∨ t.Ended before))
      ⟨h, hstage.imp_left fun hh => ⟨hh, rfl⟩⟩ ?_ hrun
    rintro _ mid _ next - ⟨hmid, hmidStage⟩ hm
    have hp := Passage.of_move hmid.teardown.account hm
    refine ⟨hmid.move hm, ?_⟩
    rcases hmidStage with ⟨hh, hwires⟩ | he
    · rcases hh.pass hmid.teardown hmid.refused hp with ⟨hh, hsame⟩ | he
      · exact .inl ⟨hh, hsame.trans hwires⟩
      · exact .inr he
    · exact .inr (he.pass hmid.teardown hp)
  rcases hkept.2 with ⟨-, hwires⟩ | he
  · exact hwires
  · rw [he.pauses_eq] at hending
    cases hending

theorem side_of_writing (h : s.Handover encrypted) (hs : s.Splits before n behind)
    {channel : Channel} {left : Octets} {front : List Item} {m : Message}
    (hp : s.output.phase = .writing channel left)
    (hgone : s.output.outbox.gone = front ++ [.message m])
    (hchannel : channel = Item.channelAfter front) :
    channel = .plain ∧ front ++ [.message m] <+: before ∨
      channel = .secure ∧ before ++ [.pause n] <+: front := by
  obtain ⟨rfl, -, hd, -, ha | hh | he⟩ := h.stage_of_splits hs
  · have hfront : front ++ [.message m] <+: before := hgone ▸ ha.gone
    refine .inl ⟨?_, hfront⟩
    rw [hchannel]
    exact Item.channelAfter_of_none fun item hmem =>
      hd.unpaused item (hfront.subset (List.mem_append_left _ hmem))
  · cases hp.symm.trans hh.paused
  · have hbefore : before ++ [.pause 0] <+: front := by
      rcases List.prefix_concat_iff.mp (hgone ▸ he.gone) with heq | hpre
      · cases (List.append_inj' heq rfl).2
      · exact hpre
    refine .inr ⟨?_, hbefore⟩
    rw [hchannel]
    exact Item.channelAfter_of_mem (hbefore.subset (List.mem_concat_self ..)) rfl

theorem writes (h : s.Handover encrypted) (hs : s.Splits before n behind) (hm : Move s a s')
    (hne : s'.output.wires ≠ s.output.wires) : ∃ count channel left front m,
      a = .output (.write count) ∧ s.output.failed = false ∧
      s.output.phase = .writing channel left ∧ left <:+ m.encode ∧
      s.output.outbox.gone = front ++ [.message m] ∧
      (channel = .plain ∧ front ++ [.message m] <+: before ∨
        channel = .secure ∧ before ++ [.pause n] <+: front) := by
  obtain ⟨-, hclear, -⟩ := h.stage_of_splits hs
  rcases (Passage.of_move h.teardown.account hm).rests h.teardown.account with
    hrests | ⟨act, events, ha, hturn, -⟩
  · exact absurd hrests.wires_eq hne
  · generalize s'.output = o at hturn hne
    cases hturn with
    | @write channel left count hp =>
        obtain ⟨hf, front, m, hgone, hleft, hchannel⟩ := (h.placed hclear).writing hp
        exact ⟨count, channel, left, front, m, ha, hf, hp, hleft, hgone,
          h.side_of_writing hs hp hgone hchannel⟩
    | _ => exact absurd rfl hne

/-- What was taken, by its number among all that was offered. -/
theorem gone_eq_take (h : s.Handover encrypted) :
    s.output.outbox.gone = s.output.outbox.offered.take s.output.outbox.taken :=
  (List.take_append_of_le_length h.teardown.account.sound.taken_le).symm

theorem fits (h : s.Handover encrypted) (hs : s.Splits before n behind) :
    s.output.Fits .plain (Item.spelled (before.take s.output.outbox.taken)) ∧
      s.output.Fits .secure (Item.spelled
        (Item.ahead (behind.take (s.output.outbox.taken - before.length - 1)))) := by
  obtain ⟨-, hclear, hd, -⟩ := h.stage_of_splits hs
  obtain ⟨hplain, hsecure⟩ :=
    Item.spelledOn_take hd.unpaused hd.unsealed n behind s.output.outbox.taken
  have hfits := (h.placed hclear).fits
  rw [h.gone_eq_take, hs] at hfits
  rw [← hplain, ← hsecure]
  exact ⟨hfits .plain, hfits .secure⟩

theorem within (h : s.Handover encrypted) (hs : s.Splits before n behind) :
    s.output.wires.on .plain <+: Item.spelled before ∧
      s.output.wires.on .secure <+: Item.spelled (Item.ahead behind) := by
  obtain ⟨hplain, hsecure⟩ := h.fits hs
  exact ⟨hplain.within.trans (List.IsPrefix.flatMap (List.take_prefix ..) _),
    hsecure.within.trans (List.IsPrefix.flatMap (Item.ahead_prefix (List.take_prefix ..)) _)⟩

theorem complete (h : s.Handover encrypted) (hs : s.Splits before n behind)
    (hf : s.output.failed = false) (hp : s.output.phase = .finished) :
    s.output.wires.on .plain = Item.spelled before ∧
      s.output.wires.on .secure = Item.spelled (Item.ahead behind) := by
  obtain ⟨-, hclear, hd, -⟩ := h.stage_of_splits hs
  obtain ⟨hclosed, hitems⟩ := h.teardown.account.finished hp
  have hgone : s.output.outbox.gone = before ++ .pause n :: behind := by
    rw [Outbox.gone_eq_admitted hitems, ← hs, Outbox.offered,
      h.teardown.account.sound.nobody_waits hclosed]
    exact (List.append_nil _).symm
  obtain ⟨hplain, hsecure⟩ := Item.spelledOn_of_split hd.unpaused hd.unsealed n behind
  have hsent (c : Channel) : s.output.sent c = s.output.wires.on c := by
    simp [Output.sent, Output.left, hp]
  have hfits (c : Channel) := ((h.placed hclear).fits c).exact hf
  rw [← hsent, ← hsent, hfits, hfits, hgone]
  exact ⟨hplain, hsecure⟩

theorem unencrypted (h : s.Handover encrypted) (hs : s.Splits before n behind)
    (ht : s.info.tls = false) : s.output.wires.on .secure = [] := by
  obtain ⟨-, -, -, -, ha | hh | he⟩ := h.stage_of_splits hs
  · exact (List.append_eq_nil_iff.mp (h.teardown.account.unmixed ha.writer_eq)).1
  · exact hh.clear
  · rcases he.outcome with ⟨htls, -⟩ | ⟨-, -, -, hsecure, -⟩
    · cases ht.symm.trans htls
    · exact hsecure

/-- A handshake that is interrupted does not succeed. -/
theorem undisturbed_of_run {actions : List Action} (hrun : s.run? actions = some s')
    (ht : s.info.tls = false) (ht' : s'.info.tls = true) : s.interrupted = false := by
  apply eq_false_of_ne_true
  intro hi
  have hkept : s'.interrupted = true ∧ s'.info.tls = s.info.tls := by
    refine run?_induction (motive := fun _ t => t.interrupted = true ∧ t.info.tls = s.info.tls)
      ⟨hi, rfl⟩ ?_ hrun
    rintro _ mid _ next - ⟨hmid, htls⟩ hm
    exact ⟨interrupted_of_move hm hmid, (tls_of_interrupted hm hmid).trans htls⟩
  rw [ht', ht] at hkept
  cases hkept.2

theorem begins (h : s.Handover encrypted) (hp : s.phase = .shaking n) {actions : List Action}
    (hrun : s.run? actions = some s') (ht' : s'.info.tls = true) :
    s.output.failed = false ∧ ∃ before behind, s.Splits before n behind ∧
      s.output.wires.on .plain = Item.spelled before := by
  obtain ⟨rfl, hclear, before, hh⟩ := h.held_of_shaking hp
  -- A write that failed interrupts the session, and no handshake succeeds after that.
  have hf : s.output.failed = false := by
    apply eq_false_of_ne_true
    intro hfailed
    have hi := undisturbed_of_run hrun hh.tls_eq ht'
    rw [h.interrupted hfailed] at hi
    cases hi
  obtain ⟨behind, hoffered, -⟩ := hh.divided.offered
  obtain ⟨hplain, -⟩ := Item.spelledOn_of_split hh.divided.unpaused hh.divided.unsealed 0 []
  have hexact := ((h.placed hclear).fits .plain).exact hf
  rw [hh.gone_eq, hplain] at hexact
  refine ⟨hf, before, behind, hoffered, ?_⟩
  rw [← hexact]
  simp [Output.sent, Output.left, hh.paused]

end Handover

/-- **A pause splits the output exactly at its place in the queue.** In whatever order handlers, the
watcher, the output and the upgrade take their steps, what was offered ahead of the pause is written in
the clear and what was offered behind it encrypted, nothing is written in the pause, nothing behind it
if the upgrade fails, and no handshake succeeds that began with something ahead of it unwritten. -/
theorem writesApart_of_run {options : Options} {info : SessionInfo} {stopping : Bool}
    {s₀ s : Session} {actions : List Action} (h₀ : start? options info stopping = some s₀)
    (hrun : s₀.run? actions = some s) : s.WritesApart := by
  have h := Handover.run h₀ hrun
  exact {
    single := h.single
    place := fun hstep => h.place (move_of_step? hstep)
    lasting := fun hs _ _ hrun' => h.lasting hs hrun'
    quiet := fun hpaused _ _ hrun' hending => h.quiet hpaused hrun' hending
    writes := fun hs _ _ hstep => h.writes hs (move_of_step? hstep)
    within := h.within
    exact := fun hs hf => ⟨(h.fits hs).1.exact hf, (h.fits hs).2.exact hf⟩
    complete := h.complete
    unencrypted := h.unencrypted
    begins := fun hp _ _ hrun' ht => h.begins hp hrun' ht }

def startTlsResponse : Message :=
  { id := 1, op := .extendedResponse .success (some Message.startTlsName) none }

def sidesActions : List Action :=
  [.receive (Message.encode { id := 1, op := .extendedRequest Message.startTlsName none }), .read,
    .handler 0 (.write startTlsResponse), .handler 0 .acceptStartTls, .handler 0 .return, .read,
    .handler 0 (.write lateResponse), .output .take,
    .output (.write startTlsResponse.encode.length), .output .take, .read, .endHandshake none,
    .output .resume, .output .take,
    .output (.write ({ lateResponse with id := 1 } : Message).encode.length)]

/-- The response is on the connection in the clear, and the message behind it encrypted. -/
theorem writesApart_upgraded : ∃ s₀ s,
    start? ({ : Options}.withStartTls ⟨[], []⟩)
      ⟨1, .short ⟨192, 0, 2, 1⟩ 40000, .short ⟨192, 0, 2, 2⟩ 389, false, {}⟩ false = some s₀ ∧
    s₀.run? sidesActions = some s ∧ s.WritesApart ∧
    (s.info.tls = true ∧ s.output.outbox.offered =
      [.message startTlsResponse, .pause 0, .message { lateResponse with id := 1 }] ∧
      s.output.wires.on .plain = startTlsResponse.encode ∧
      s.output.wires.on .secure = ({ lateResponse with id := 1 } : Message).encode) := by
  have hends : ((start? ({ : Options}.withStartTls ⟨[], []⟩)
      ⟨1, .short ⟨192, 0, 2, 1⟩ 40000, .short ⟨192, 0, 2, 2⟩ 389, false, {}⟩ false).bind
        (·.run? sidesActions)).any (fun s => s.info.tls = true ∧ s.output.outbox.offered =
          [.message startTlsResponse, .pause 0, .message { lateResponse with id := 1 }] ∧
          s.output.wires.on .plain = startTlsResponse.encode ∧
          s.output.wires.on .secure = ({ lateResponse with id := 1 } : Message).encode) = true := by
    decide +kernel
  obtain ⟨s, hs, hend⟩ := (Option.any_eq_true _ _).mp hends
  obtain ⟨s₀, h₀, hrun⟩ := Option.bind_eq_some_iff.mp hs
  exact ⟨s₀, s, h₀, hrun, writesApart_of_run h₀ hrun, of_decide_eq_true hend⟩

end Session

end Directory
