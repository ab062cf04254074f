import Directory.Proofs.Output.Account
import Directory.Proofs.Run

/-!
# An output and what is seen of it

Around an output there are those who queue items, those who prepare, ignore and end pauses, and those
who take the writer out of its place and put one there. `Output.Stir` is one step of any of them or of
the output itself. A `Chronicle` is an output with all that was seen of it: what it has reported, and
every piece that it has written, in the order of time.

`Chronicle.Tally` says what the pieces are: the octets of the messages that were taken, up to the
closing item, one behind the other, and after a failure those of the message at hand as far as they
got. All messages taken after that were thrown away. Every step keeps it.
-/

namespace Directory

namespace Output

/-- One step of an output, or of somebody around it. -/
inductive Stir where
  | act (a : Act)
  | message (m : Message)
  | close
  | pause
  /-- All who could queue an item have gone away. -/
  | desert
  | ignore (number : Nat)
  | endPause (number : Nat) (resumed : Bool)
  /-- The writer is taken away, or one is put in its place. -/
  | place (writer : Option Channel)
  deriving DecidableEq, Repr

/-- The outcome of a step, with what is reported. While a message is being written, nobody can get at
the writer. -/
def stir? (o : Output) : Stir → Option (List Event × Output)
  | .act a => o.step? a
  | .message m => some ([], (o.send (.message m)).2)
  | .close => some ([], (o.send .close).2)
  | .pause => some ([], (o.openPause.send (.pause o.nextPause)).2)
  | .desert => some ([], { o with outbox := o.outbox.close })
  | .ignore number => some ([], o.ignore number)
  | .endPause number resumed => some ([], o.endPause number resumed)
  | .place writer => if o.busy then none else some ([], { o with writer })

def puts (o : Output) (stir : Stir) : List (Channel × Octets) :=
  match o.phase, stir with
  | .writing channel left, .act (.write count) => [(channel, left.take count)]
  | _, _ => []

def unwritten (o : Output) : Octets :=
  match o.phase with
  | .writing _ left => left
  | _ => []

def AtRest (o : Output) : Prop := ∀ channel left, o.phase ≠ .writing channel left

theorem puts_of_atRest {o : Output} (h : o.AtRest) (stir : Stir) : o.puts stir = [] := by
  unfold puts
  split
  next hp => exact absurd hp (h _ _)
  next => rfl

theorem atRest_of_ready {o : Output} (h : o.phase = .ready) : o.AtRest :=
  fun _ _ hp => nomatch h.symm.trans hp

theorem drop_of_atRest_put {o : Output} {channel : Channel} {left : Octets} {count : Nat}
    (h : (o.put channel left count).AtRest) : left.drop count = [] := by
  rcases put_cases o channel left count with ⟨hnil, -⟩ | ⟨-, hp⟩
  · exact hnil
  · exact absurd hp (h _ _)

section

variable {o : Output} {channel : Channel} {left : Octets} (hp : o.phase = .writing channel left)
include hp

theorem puts_write (count : Nat) : o.puts (.act (.write count)) = [(channel, left.take count)] := by
  simp [puts, hp]

theorem puts_break (cause : SessionError) : o.puts (.act (.break cause)) = [] := by simp [puts, hp]

theorem puts_expire : o.puts (.act .expire) = [] := by simp [puts, hp]

end

end Output

/-- An output with all that it has reported and written so far. -/
structure Chronicle where
  output : Output
  events : List Event := []
  pieces : List (Channel × Octets) := []
  deriving DecidableEq, Repr

namespace Chronicle

open Output

def start? (capacity : Nat) (limit : Option Span) (writer : Option Channel) : Option Chronicle :=
  (Outbox.create? capacity).map fun outbox => { output := { outbox, limit, writer } }

def step? (p : Chronicle) (stir : Stir) : Option Chronicle :=
  (p.output.stir? stir).map fun (events, output) =>
    { output, events := p.events ++ events, pieces := p.pieces ++ p.output.puts stir }

def run? (p : Chronicle) (stirs : List Stir) : Option Chronicle := stirs.foldlM step? p

def written (p : Chronicle) : Octets := p.pieces.flatMap (·.2)

variable {p p' : Chronicle} {o' : Output} {stir : Stir} {act : Act} {events : List Event}
  {item : Item} {outbox : Outbox Item}

/-! ## What becomes of items -/

/-- The closing item and all that comes after it. -/
def behind (items : List Item) : List Item := items.dropWhile (· ≠ .close)

def idsOf (items : List Item) : List MessageId :=
  items.filterMap fun
    | .message m => some m.id
    | _ => none

def discards (events : List Event) : List MessageId :=
  events.filterMap fun
    | .discarded id => some id
    | _ => none

theorem idsOf_append (items more : List Item) : idsOf (items ++ more) = idsOf items ++ idsOf more :=
  List.filterMap_append

theorem discards_append (events more : List Event) :
    discards (events ++ more) = discards events ++ discards more :=
  List.filterMap_append

theorem behind_of_not_mem {items : List Item} (h : .close ∉ items) : behind items = [] :=
  List.dropWhile_eq_nil_iff.mpr fun _ hi => decide_eq_true fun heq => h (heq ▸ hi)

/-- A message is behind if it comes after the closing item. -/
theorem idsOf_behind_concat (items : List Item) (item : Item) :
    idsOf (behind (items ++ [item])) =
      idsOf (behind items) ++ if .close ∈ items then idsOf [item] else [] := by
  by_cases h : .close ∈ items
  · obtain ⟨front, back, rfl, hfront⟩ := List.eq_append_cons_of_mem h
    have hsplit (rest : List Item) : behind (front ++ .close :: rest) = .close :: rest := by
      have hpass : ∀ i ∈ front, decide (i ≠ .close) = true :=
        fun _ hi => decide_eq_true fun heq => hfront (heq ▸ hi)
      rw [behind, List.dropWhile_append_of_pos hpass, List.dropWhile_cons_of_neg (by decide)]
    rw [if_pos h, List.append_assoc, List.cons_append, hsplit, hsplit, ← List.cons_append,
      idsOf_append]
  · rw [if_neg h, behind_of_not_mem h]
    by_cases hi : item = .close
    · subst hi
      rw [behind, List.dropWhile_append_of_pos]
      · rfl
      · exact fun _ hmem => decide_eq_true fun heq => h (heq ▸ hmem)
    · rw [behind_of_not_mem (by simp [h, Ne.symm hi])]
      rfl

theorem idsOf_of_octets_eq_nil {item : Item} (h : item.octets = []) : idsOf [item] = [] := by
  cases item with
  | message m => cases h
  | pause number => rfl
  | close => rfl

/-- An item without octets makes no difference, nor does any item behind the closing one. -/
theorem spelled_ahead_concat {items : List Item} (h : item.octets = [] ∨ .close ∈ items) :
    Item.spelled (Item.ahead (items ++ [item])) = Item.spelled (Item.ahead items) := by
  rcases ahead_concat items item with heq | ⟨hclose, -, heq⟩
  · rw [heq]
  · rw [heq, Item.spelled_concat]
    rcases h with h | h
    · rw [h, List.append_nil]
    · exact absurd h hclose

/-! ## The invariant -/

/-- All that was taken ahead of one message is written, of that message a first part, and the messages
that were taken after it are thrown away. -/
def Broken (p : Chronicle) : Prop :=
  ∃ front m back cut, p.output.outbox.gone = front ++ .message m :: back ∧ .close ∉ front ∧
    cut <+: m.encode ∧ p.written = Item.spelled front ++ cut ∧ discards p.events = idsOf back

theorem Broken.more (h : p.Broken) (items : List Item)
    (hgone : p'.output.outbox.gone = p.output.outbox.gone ++ items) (hpieces : p'.pieces = p.pieces)
    (hdiscards : discards p'.events = discards p.events ++ idsOf items) : p'.Broken := by
  obtain ⟨front, m, back, cut, hsplit, hfront, hcut, hwritten, hback⟩ := h
  refine ⟨front, m, back ++ items, cut, ?_, hfront, hcut, ?_, ?_⟩
  · rw [hgone, hsplit, List.append_assoc, List.cons_append]
  · rw [written, hpieces]
    exact hwritten
  · rw [hdiscards, hback, idsOf_append]

/-- What was written and reported agrees with what was taken. -/
structure Tally (p : Chronicle) : Prop where
  sound : p.output.outbox.Sound
  sealed_iff : p.output.sealed = true ↔ .close ∈ p.output.outbox.gone
  closed : p.output.sealed = true → p.output.outbox.closed = true
  finished : p.output.phase = .finished →
    p.output.outbox.closed = true ∧ p.output.outbox.items = []
  wires : ∀ c, p.output.wires.on c = (p.pieces.filter (·.1 = c)).flatMap (·.2)
  signals : p.output.failed = true ↔ ∃ cause, .writeFailed cause ∈ p.events
  writing : ∀ {channel left}, p.output.phase = .writing channel left →
    p.output.failed = false ∧ p.output.sealed = false ∧ left ≠ [] ∧
      ∃ front m cut, p.output.outbox.gone = front ++ [.message m] ∧ m.encode = cut ++ left ∧
        p.written = Item.spelled front ++ cut
  whole : p.output.AtRest → p.output.failed = false →
    p.written = Item.spelled (Item.ahead p.output.outbox.gone)
  spared : p.output.failed = false → discards p.events = idsOf (behind p.output.outbox.gone)
  broken : p.output.failed = true → p.Broken

namespace Tally

theorem not_closing (h : p.Tally) (hs : p.output.sealed = false) :
    .close ∉ p.output.outbox.gone := by
  rw [← h.sealed_iff, hs]
  exact Bool.false_ne_true

theorem no_discards (h : p.Tally) (hf : p.output.failed = false) (hs : p.output.sealed = false) :
    discards p.events = [] := by
  rw [h.spared hf, behind_of_not_mem (h.not_closing hs)]
  rfl

/-! ## What others do -/

theorem aside (h : p.Tally) (pauses : List Pause) (writer : Option Channel) :
    Tally { p with output := { p.output with pauses, writer } } := { h with }

theorem queue (h : p.Tally) (hsound : outbox.Sound) (hgone : outbox.gone = p.output.outbox.gone)
    (hclosed : p.output.outbox.closed = true →
      outbox.closed = true ∧ (p.output.outbox.items = [] → outbox.items = [])) :
    Tally { p with output := { p.output with outbox } } where
  sound := hsound
  sealed_iff := by
    rw [hgone]
    exact h.sealed_iff
  closed := fun hs => (hclosed (h.closed hs)).1
  finished := by
    intro hp
    obtain ⟨hc, hitems⟩ := h.finished hp
    exact (hclosed hc).imp_right fun hempty => hempty hitems
  wires := h.wires
  signals := h.signals
  writing := by
    rw [hgone]
    exact h.writing
  whole := by
    rw [hgone]
    exact h.whole
  spared := by
    rw [hgone]
    exact h.spared
  broken := fun hf =>
    (h.broken hf).more [] (hgone.trans (List.append_nil _).symm) rfl (List.append_nil _).symm

theorem send (h : p.Tally) (item : Item) :
    Tally { p with output := (p.output.send item).2 } := by
  have hkept (hclosed : p.output.outbox.closed = true) :
      (p.output.outbox.send item).2.closed = true ∧
        (p.output.outbox.items = [] → (p.output.outbox.send item).2.items = []) := by
    rw [Outbox.send_of_closed hclosed]
    exact ⟨hclosed, id⟩
  exact h.queue (h.sound.send item) (Outbox.gone_send h.sound item) hkept

theorem desert (h : p.Tally) :
    Tally { p with output := { p.output with outbox := p.output.outbox.close } } :=
  h.queue h.sound.close rfl fun _ => ⟨rfl, id⟩

/-! ## What the output does -/

/-- What a step that writes nothing and begins nothing must leave to be shown. -/
theorem rest (h : p.Tally) (hsound : o'.outbox.Sound)
    (hclose : o'.sealed = true ↔ .close ∈ o'.outbox.gone)
    (hclosed : o'.sealed = true → o'.outbox.closed = true)
    (hfinished : o'.phase = .finished → o'.outbox.closed = true ∧ o'.outbox.items = [])
    (hrest : o'.AtRest) (hwires : o'.wires = p.output.wires)
    (hsignals : o'.failed = true ↔ p.output.failed = true ∨ ∃ cause, .writeFailed cause ∈ events)
    (hwhole : o'.failed = false → p.written = Item.spelled (Item.ahead o'.outbox.gone))
    (hspared : o'.failed = false →
      discards (p.events ++ events) = idsOf (behind o'.outbox.gone))
    (hbroken : o'.failed = true → Broken ⟨o', p.events ++ events, p.pieces⟩) :
    Tally ⟨o', p.events ++ events, p.pieces⟩ where
  sound := hsound
  sealed_iff := hclose
  closed := hclosed
  finished := hfinished
  wires := by
    intro c
    show o'.wires.on c = _
    rw [hwires]
    exact h.wires c
  signals := by
    show o'.failed = true ↔ ∃ cause, .writeFailed cause ∈ p.events ++ events
    rw [hsignals, h.signals]
    simp only [List.mem_append, exists_or]
  writing := fun hp => absurd hp (hrest _ _)
  whole := fun _ hf => hwhole hf
  spared := hspared
  broken := hbroken

theorem close_mem_iff (h : p.Tally) (ht : p.output.Takes item outbox) :
    .close ∈ outbox.gone ↔ p.output.sealed = true ∨ item = .close := by
  rw [Outbox.gone_of_take h.sound ht.take_eq, List.mem_append, List.mem_singleton, h.sealed_iff]
  exact or_congr_right eq_comm

theorem closed_of_takes (h : p.Tally) (ht : p.output.Takes item outbox)
    (hs : p.output.sealed = true) : outbox.closed = true :=
  (Outbox.closed_of_take ht.take_eq).trans (h.closed hs)

theorem written_of_takes (h : p.Tally) (ht : p.output.Takes item outbox)
    (hf : p.output.failed = false) (hn : item.octets = [] ∨ p.output.sealed = true) :
    p.written = Item.spelled (Item.ahead outbox.gone) := by
  rw [Outbox.gone_of_take h.sound ht.take_eq, spelled_ahead_concat (hn.imp_right h.sealed_iff.mp)]
  exact h.whole (atRest_of_ready ht.ready) hf

theorem discards_of_takes (h : p.Tally) (ht : p.output.Takes item outbox)
    (hf : p.output.failed = false) (hn : item.octets = [] ∨ p.output.sealed = true) :
    discards p.events ++ idsOf [item] = idsOf (behind outbox.gone) := by
  rw [h.spared hf, Outbox.gone_of_take h.sound ht.take_eq, idsOf_behind_concat]
  split
  · rfl
  next hclose =>
    -- Ahead of the closing item only an item without octets is passed over.
    rw [idsOf_of_octets_eq_nil (hn.resolve_right fun hs => hclose (h.sealed_iff.mp hs))]

/-- An item is taken and passed over: it puts nothing on the connection, or comes too late. -/
theorem passOver (h : p.Tally) (ht : p.output.Takes item outbox) (hgone : o'.outbox.gone = outbox.gone)
    (hsound : o'.outbox.Sound) (hsealed : o'.sealed = true ↔ p.output.sealed = true ∨ item = .close)
    (hclosed : o'.sealed = true → o'.outbox.closed = true)
    (hphase : o'.phase = .ready ∨ ∃ n, o'.phase = .paused n)
    (hwires : o'.wires = p.output.wires) (hfailed : o'.failed = p.output.failed)
    (hevents : ∀ cause, .writeFailed cause ∉ events) (hdiscards : discards events = idsOf [item])
    (hn : item.octets = [] ∨ p.output.failed = true ∨ p.output.sealed = true) :
    Tally ⟨o', p.events ++ events, p.pieces⟩ := by
  have hpassed (hf : p.output.failed = false) : item.octets = [] ∨ p.output.sealed = true :=
    hn.imp_right (·.resolve_left (by simp [hf]))
  refine h.rest hsound ?_ hclosed ?_ ?_ hwires ?_ ?_ ?_ ?_
  · rw [hsealed, hgone, h.close_mem_iff ht]
  · intro hp
    rcases hphase with hp' | ⟨n, hp'⟩ <;> cases hp'.symm.trans hp
  · intro channel left hp
    rcases hphase with hp' | ⟨n, hp'⟩ <;> cases hp'.symm.trans hp
  · rw [hfailed]
    simp [hevents]
  · intro hf
    rw [hfailed] at hf
    rw [hgone]
    exact h.written_of_takes ht hf (hpassed hf)
  · intro hf
    rw [hfailed] at hf
    rw [hgone, discards_append, hdiscards]
    exact h.discards_of_takes ht hf (hpassed hf)
  · intro hf
    rw [hfailed] at hf
    refine (h.broken hf).more [item] (hgone.trans (Outbox.gone_of_take h.sound ht.take_eq)) rfl ?_
    rw [discards_append, hdiscards]

/-- A write fails, and what was written ends with a first part of the message at hand. -/
theorem breaks (h : p.Tally) (hf : p.output.failed = false) (hs : p.output.sealed = false)
    {front : List Item} {m : Message} {cut : Octets} (hgone : o'.outbox.gone = front ++ [.message m])
    (hfront : .close ∉ front) (hcut : cut <+: m.encode)
    (hwritten : p.written = Item.spelled front ++ cut) (cause : SessionError) :
    Broken ⟨o', p.events ++ [.writeFailed cause], p.pieces⟩ := by
  refine ⟨front, m, [], cut, hgone, hfront, hcut, hwritten, ?_⟩
  show discards (p.events ++ [.writeFailed cause]) = []
  rw [discards_append, h.no_discards hf hs]
  rfl

theorem writerMissing (h : p.Tally) {m : Message} (ht : p.output.Takes (.message m) outbox)
    (hf : p.output.failed = false) (hs : p.output.sealed = false) :
    Tally ⟨{ p.output with outbox, failed := true, phase := .ready },
      p.events ++ [.writeFailed .writerUnavailable], p.pieces⟩ := by
  have hclose := h.not_closing hs
  refine h.rest (h.sound.take ht.take_eq) ?_ ?_ nofun nofun rfl ?_ nofun nofun fun _ => ?_
  · rw [h.close_mem_iff ht]
    simp
  · exact fun hsealed => nomatch hs.symm.trans hsealed
  · simp
  · refine h.breaks hf hs (Outbox.gone_of_take h.sound ht.take_eq) hclose List.nil_prefix ?_ _
    rw [h.whole (atRest_of_ready ht.ready) hf, Item.ahead_of_not_mem hclose, List.append_nil]

theorem begin (h : p.Tally) {m : Message} {channel : Channel}
    (ht : p.output.Takes (.message m) outbox) (hf : p.output.failed = false)
    (hs : p.output.sealed = false) :
    Tally ⟨{ p.output with outbox, phase := .writing channel m.encode }, p.events, p.pieces⟩ := by
  have htaken := Outbox.gone_of_take h.sound ht.take_eq
  have hclose := h.not_closing hs
  refine ⟨h.sound.take ht.take_eq, ?_, ?_, nofun, h.wires, h.signals, ?_, ?_, fun _ => ?_, ?_⟩
  · rw [h.close_mem_iff ht]
    simp
  · exact fun hsealed => nomatch hs.symm.trans hsealed
  · intro c left hp
    cases hp
    refine ⟨hf, hs, List.cons_ne_nil _ _, p.output.outbox.gone, m, [], htaken, rfl, ?_⟩
    rw [List.append_nil, ← Item.ahead_of_not_mem hclose]
    exact h.whole (atRest_of_ready ht.ready) hf
  · exact fun hrest => absurd rfl (hrest channel m.encode)
  · show discards p.events = idsOf (behind outbox.gone)
    rw [htaken, idsOf_behind_concat, if_neg hclose, List.append_nil]
    exact h.spared hf
  · exact fun hfailed => nomatch hf.symm.trans hfailed

/-- A piece more on one channel is a piece more among those of that channel. -/
theorem on_write (h : p.Tally) (channel : Channel) (bytes : Octets) (c : Channel) :
    (p.output.wires.write channel bytes).on c =
      ((p.pieces ++ [(channel, bytes)]).filter (·.1 = c)).flatMap (·.2) := by
  by_cases hc : channel = c
  · subst hc
    rw [Wires.on_write_self, h.wires]
    simp
  · rw [Wires.on_write_other _ _ (Ne.symm hc), h.wires]
    simp [hc]

theorem put (h : p.Tally) {channel : Channel} {left : Octets}
    (hp : p.output.phase = .writing channel left) (count : Nat) :
    Tally ⟨p.output.put channel left count, p.events,
      p.pieces ++ [(channel, left.take count)]⟩ := by
  obtain ⟨hf, hs, -, front, m, cut, hgone, hcut, hwritten⟩ := h.writing hp
  have hclose := h.not_closing hs
  have hnext : Chronicle.written ⟨p.output.put channel left count, p.events,
      p.pieces ++ [(channel, left.take count)]⟩ = Item.spelled front ++ (cut ++ left.take count) := by
    rw [written, List.flatMap_append, List.flatMap_singleton, ← written, hwritten, List.append_assoc]
  refine ⟨h.sound, h.sealed_iff, h.closed, fun hp => absurd hp unfinished_of_put, h.on_write _ _,
    h.signals, ?_, ?_, h.spared, fun hfailed => nomatch hf.symm.trans hfailed⟩
  · intro c rest hphase
    obtain ⟨rfl, rfl, hrest⟩ := writing_of_put hphase
    refine ⟨hf, hs, hrest, front, m, cut ++ left.take count, hgone, ?_, hnext⟩
    rw [List.append_assoc, List.take_append_drop, hcut]
  · -- Nothing is left, so the message is whole.
    intro hrest _
    have hall : left.take count = left := by
      have happend := List.take_append_drop count left
      rwa [drop_of_atRest_put hrest, List.append_nil] at happend
    show _ = Item.spelled (Item.ahead p.output.outbox.gone)
    rw [hnext, hall, ← hcut, Item.ahead_of_not_mem hclose, hgone, Item.spelled_concat]
    rfl

theorem giveUp (h : p.Tally) {channel : Channel} {left : Octets} (cause : SessionError)
    (hp : p.output.phase = .writing channel left) :
    Tally ⟨{ p.output with failed := true, phase := .ready },
      p.events ++ [.writeFailed cause], p.pieces⟩ := by
  obtain ⟨hf, hs, -, front, m, cut, hgone, hcut, hwritten⟩ := h.writing hp
  have hfront : .close ∉ front := fun hmem =>
    h.not_closing hs (hgone ▸ List.mem_append_left _ hmem)
  exact h.rest h.sound h.sealed_iff h.closed nofun nofun rfl (by simp) nofun nofun fun _ =>
    h.breaks hf hs hgone hfront (hcut ▸ List.prefix_append ..) hwritten cause

theorem goOn (h : p.Tally) (hrest : p.output.AtRest) {phase : Phase}
    (hrest' : ({ p.output with phase } : Output).AtRest)
    (hfinished : phase = .finished →
      p.output.outbox.closed = true ∧ p.output.outbox.items = [])
    (hevents : ∀ cause, .writeFailed cause ∉ events) (hdiscards : discards events = []) :
    Tally ⟨{ p.output with phase }, p.events ++ events, p.pieces⟩ := by
  refine h.rest h.sound h.sealed_iff h.closed hfinished hrest' rfl (by simp [hevents])
    (h.whole hrest) ?_ fun hf => (h.broken hf).more [] (List.append_nil _).symm rfl ?_
  · rw [discards_append, hdiscards, List.append_nil]
    exact h.spared
  · rw [discards_append, hdiscards]
    rfl

theorem atRest (hrest : p.output.AtRest) (h : Tally ⟨o', p.events ++ events, p.pieces⟩)
    (stir : Stir) : Tally ⟨o', p.events ++ events, p.pieces ++ p.output.puts stir⟩ := by
  rwa [puts_of_atRest hrest, List.append_nil]

/-- **Every turn of the output keeps the tally.** -/
theorem turn (h : p.Tally) (ht : Turn p.output act events o') :
    Tally ⟨o', p.events ++ events, p.pieces ++ p.output.puts (.act act)⟩ := by
  cases ht with
  | discard hm hd =>
      refine atRest (atRest_of_ready hm.ready) ?_ _
      exact h.passOver hm rfl (h.sound.take hm.take_eq) (by simp)
        (h.closed_of_takes hm) (.inl hm.ready) rfl rfl (by simp) rfl (.inr hd)
  | writerMissing hm hf hs hw =>
      refine atRest (atRest_of_ready hm.ready) ?_ _
      exact h.writerMissing hm hf hs
  | start hm hf hs hw =>
      refine atRest (atRest_of_ready hm.ready) ?_ _
      rw [List.append_nil]
      exact h.begin hm hf hs
  | pause hm hw =>
      refine atRest (atRest_of_ready hm.ready) ?_ _
      exact h.passOver hm rfl (h.sound.take hm.take_eq) (by simp)
        (h.closed_of_takes hm) (.inr ⟨_, rfl⟩) rfl rfl (by simp) rfl (.inl rfl)
  | skip hm hw =>
      refine atRest (atRest_of_ready hm.ready) ?_ _
      exact h.passOver hm rfl (h.sound.take hm.take_eq) (by simp)
        (h.closed_of_takes hm) (.inl hm.ready) rfl rfl (by simp) rfl (.inl rfl)
  | closes hm =>
      refine atRest (atRest_of_ready hm.ready) ?_ _
      exact h.passOver hm rfl (h.sound.take hm.take_eq).close (by simp) (fun _ => rfl)
        (.inl hm.ready) rfl rfl (by simp) rfl (.inl rfl)
  | finish hp he =>
      refine atRest (atRest_of_ready hp) ?_ _
      exact h.goOn (atRest_of_ready hp) nofun (fun _ => Outbox.take_eq_ended he) (by simp) rfl
  | write hp hc hl =>
      rw [puts_write hp, List.append_nil]
      exact h.put hp _
  | «break» hp =>
      rw [puts_break hp, List.append_nil]
      exact h.giveUp _ hp
  | expire hp hl =>
      rw [puts_expire hp, List.append_nil]
      exact h.giveUp _ hp
  | resume hp he =>
      refine atRest (by simp [AtRest, hp]) ?_ _
      exact h.goOn (by simp [AtRest, hp]) nofun nofun (by simp) rfl
  | forsake hp he =>
      refine atRest (by simp [AtRest, hp]) ?_ _
      exact h.goOn (by simp [AtRest, hp]) nofun nofun (by simp) rfl

/-- **Every step keeps the tally.** -/
theorem step (h : p.Tally) (hstep : p.step? stir = some p') : p'.Tally := by
  obtain ⟨⟨events, o'⟩, hstir, rfl⟩ := Option.map_eq_some_iff.mp hstep
  cases stir with
  | act a => exact h.turn (turn_of_step? hstir)
  | message m =>
      cases hstir
      simpa [puts] using h.send (.message m)
  | close =>
      cases hstir
      simpa [puts] using h.send .close
  | pause =>
      cases hstir
      have hopen : Tally { p with output := p.output.openPause } := h.aside _ _
      simpa [puts] using hopen.send _
  | desert =>
      cases hstir
      simpa [puts] using h.desert
  | ignore number =>
      cases hstir
      have hnext : Tally { p with output := p.output.ignore number } := h.aside _ _
      simpa [puts] using hnext
  | endPause number resumed =>
      cases hstir
      have hnext : Tally { p with output := p.output.endPause number resumed } := h.aside _ _
      simpa [puts] using hnext
  | place writer =>
      obtain ⟨-, hstir⟩ := Option.ite_none_left_eq_some.mp hstir
      cases hstir
      have hnext : Tally { p with output := { p.output with writer } } := h.aside _ _
      simpa [puts] using hnext

theorem start {capacity : Nat} {limit : Option Span} {writer : Option Channel}
    (h : start? capacity limit writer = some p) : p.Tally := by
  obtain ⟨outbox, hcreate, rfl⟩ := Option.map_eq_some_iff.mp h
  obtain ⟨-, rfl⟩ := Outbox.create?_eq_some hcreate
  exact
    { sound := ⟨Nat.le_refl _, fun _ => rfl⟩
      sealed_iff := by simp [Outbox.gone]
      closed := nofun
      finished := nofun
      wires := fun c => by cases c <;> rfl
      signals := by simp
      writing := nofun
      whole := fun _ _ => rfl
      spared := fun _ => rfl
      broken := nofun }

end Tally

end Chronicle

end Directory
