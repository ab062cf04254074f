import Directory.Proofs.Output.Account

/-!
# The two sides of a pause

A connection that begins in the clear is encrypted at a pause of its output, so among the items that
the output takes those ahead of the first pause are written in the clear and those behind it
encrypted. `Item.spelledOn` says which octets that makes on each channel, from the items alone.

`Output.Placed` compares the output with it: the octets on a channel are those, to the last one as
long as no write has failed, and a first part of them ever after. The output keeps it as long as the
writer in its place is the right one when a message is begun (`Placed.turn`).
-/

namespace Directory

namespace Item

def isPause : Item → Bool
  | pause _ => true
  | _ => false

def channelAfter (items : List Item) : Channel := if items.any isPause then .secure else .plain

/-- The items that belong on a channel: on the one in the clear those ahead of the first pause, on the
encrypted one those behind it. -/
def part : Channel → List Item → List Item
  | .plain, items => items.takeWhile fun item => !item.isPause
  | .secure, items => (items.dropWhile fun item => !item.isPause).tail

def spelledOn (c : Channel) (items : List Item) : Octets := spelled (part c items)

variable {items : List Item} {item : Item} {c : Channel}

theorem octets_of_isPause (h : item.isPause = true) : item.octets = [] := by
  cases item with
  | pause => rfl
  | _ => cases h

theorem channelAfter_of_none (h : ∀ item ∈ items, item.isPause = false) :
    channelAfter items = .plain := by
  rw [channelAfter, if_neg]
  intro hany
  obtain ⟨item, hmem, hpause⟩ := List.any_eq_true.mp hany
  rw [h item hmem] at hpause
  cases hpause

theorem channelAfter_of_mem (hmem : item ∈ items) (h : item.isPause = true) :
    channelAfter items = .secure := if_pos (List.any_eq_true.mpr ⟨item, hmem, h⟩)

theorem spelledOn_concat (c : Channel) (items : List Item) (item : Item) :
    spelledOn c (items ++ [item]) =
      spelledOn c items ++ if c = channelAfter items then item.octets else [] := by
  induction items with
  | nil =>
      cases hp : item.isPause with
      | true => cases c <;> simp [spelledOn, spelled, part, hp, octets_of_isPause hp]
      | false => cases c <;> simp [spelledOn, spelled, part, hp, channelAfter]
  | cons first rest ih =>
      cases hp : first.isPause with
      | true => cases c <;> simp [spelledOn, spelled, part, hp, channelAfter]
      | false =>
          have hchannel : channelAfter (first :: rest) = channelAfter rest := by
            simp [channelAfter, hp]
          rw [hchannel]
          cases c with
          | plain =>
              have hplain (items : List Item) :
                  spelledOn .plain (first :: items) = first.octets ++ spelledOn .plain items := by
                simp [spelledOn, spelled, part, hp]
              rw [List.cons_append, hplain, hplain, ih, List.append_assoc]
          | secure =>
              have hsecure (items : List Item) :
                  spelledOn .secure (first :: items) = spelledOn .secure items := by
                simp [spelledOn, spelled, part, hp]
              rw [List.cons_append, hsecure, hsecure, ih]

theorem part_of_none (h : ∀ item ∈ items, item.isPause = false) :
    part .plain items = items ∧ part .secure items = [] := by
  have hall : ∀ item ∈ items, (!item.isPause) = true := fun item hmem => by rw [h item hmem]; rfl
  refine ⟨List.takeWhile_eq_self_iff.mpr hall, ?_⟩
  rw [part, List.dropWhile_eq_nil_iff.mpr hall]
  rfl

theorem part_of_split {front : List Item} (h : ∀ item ∈ front, item.isPause = false) (n : Nat)
    (back : List Item) :
    part .plain (front ++ .pause n :: back) = front ∧
      part .secure (front ++ .pause n :: back) = back := by
  have hall : ∀ item ∈ front, (!item.isPause) = true := fun item hmem => by rw [h item hmem]; rfl
  constructor
  · rw [part, List.takeWhile_append_of_pos hall]
    exact List.append_nil front
  · rw [part, List.dropWhile_append_of_pos hall]
    rfl

end Item

namespace Output

variable {o o' : Output} {c : Channel}

/-- The octets on a channel are the given ones, or the first of them once a write has failed. -/
structure Fits (o : Output) (c : Channel) (bytes : Octets) : Prop where
  within : o.wires.on c <+: bytes
  exact : o.failed = false → o.sent c = bytes

/-- What was taken is written on its side of the pause. -/
structure Placed (o : Output) : Prop where
  fits : ∀ c, o.Fits c (Item.spelledOn c (Item.ahead o.outbox.gone))
  /-- The message being written is the last one taken, on the channel for it. -/
  writing : ∀ {c left}, o.phase = .writing c left → o.failed = false ∧
    ∃ front m, o.outbox.gone = front ++ [.message m] ∧ left <:+ m.encode ∧
      c = Item.channelAfter front

namespace Placed

theorem frame (h : o.Placed) (hg : o'.outbox.gone = o.outbox.gone) (hp : o'.phase = o.phase)
    (hf : o'.failed = o.failed) (hw : o'.wires = o.wires) : o'.Placed where
  fits := by
    intro c
    obtain ⟨hwithin, hexact⟩ := h.fits c
    have hsent : o'.sent c = o.sent c := by rw [sent, sent, left, left, hw, hp]
    rw [hg]
    refine ⟨?_, ?_⟩
    · rw [hw]
      exact hwithin
    · rw [hf, hsent]
      exact hexact
  writing := by
    intro c left hphase
    rw [hf, hg]
    exact h.writing (hp.symm.trans hphase)

theorem spelledOn_mono (c : Channel) (items : List Item) (item : Item) :
    Item.spelledOn c (Item.ahead items) <+: Item.spelledOn c (Item.ahead (items ++ [item])) := by
  rcases ahead_concat items item with heq | ⟨-, -, heq⟩
  · exact heq.symm ▸ List.prefix_refl _
  · rw [heq, Item.spelledOn_concat]
    exact List.prefix_append ..

theorem fits_idle {bytes : Octets} (h : o.Fits c bytes) (hl : o.left c = [])
    (hl' : o'.left c = []) (hf : o'.failed = false → o.failed = false) (hw : o'.wires = o.wires) :
    o'.Fits c bytes where
  within := by
    rw [hw]
    exact h.within
  exact := by
    intro hfailed
    rw [sent, hl', hw]
    have hexact := h.exact (hf hfailed)
    rw [sent, hl] at hexact
    exact hexact

variable {item : Item} {outbox : Outbox Item}

theorem passOver (h : o.Placed) (ha : o.Account) (ht : o.Takes item outbox)
    (hg : o'.outbox.gone = outbox.gone) (hp : ∀ c left, o'.phase ≠ .writing c left)
    (hf : o'.failed = false → o.failed = false) (hw : o'.wires = o.wires)
    (hn : o'.failed = true ∨ o.sealed = true ∨ item.octets = []) : o'.Placed where
  fits := by
    intro c
    have hleft : o'.left c = [] := by
      unfold left
      split
      next channel left hphase => exact absurd hphase (hp channel left)
      next => rfl
    obtain ⟨hwithin, hexact⟩ := fits_idle (h.fits c) (left_of_ready ht.ready c) hleft hf hw
    rw [hg, Outbox.gone_of_take ha.sound ht.take_eq]
    refine ⟨hwithin.trans (spelledOn_mono ..), fun hfailed => ?_⟩
    rw [hexact hfailed]
    rcases ahead_concat o.outbox.gone item with heq | ⟨hclose, -, heq⟩
    · rw [heq]
    · -- Ahead of the closing item only an item without octets adds nothing.
      rw [heq, Item.spelledOn_concat]
      rcases hn with hn | hn | hn
      · rw [hfailed] at hn
        cases hn
      · exact absurd (ha.sealed_iff.mp hn) hclose
      · rw [hn, ite_self, List.append_nil]
  writing := fun hphase => absurd hphase (hp _ _)

theorem start (h : o.Placed) (ha : o.Account) {m : Message} {channel : Channel}
    (ht : o.Takes (.message m) outbox) (hf : o.failed = false) (hs : o.sealed = false)
    (hc : channel = Item.channelAfter o.outbox.gone) :
    { o with outbox, phase := .writing channel m.encode }.Placed := by
  have hgone := Outbox.gone_of_take ha.sound ht.take_eq
  have hclose := ha.not_closing hs
  constructor
  · intro c
    have hahead : Item.ahead outbox.gone = Item.ahead o.outbox.gone ++ [.message m] := by
      rw [hgone, Item.ahead_of_not_mem hclose, Item.ahead_of_not_mem (by simp [hclose])]
    have hspelled : Item.spelledOn c (Item.ahead outbox.gone) =
        Item.spelledOn c (Item.ahead o.outbox.gone) ++ if channel = c then m.encode else [] := by
      rw [hahead, Item.spelledOn_concat, Item.ahead_of_not_mem hclose, ← hc]
      simp only [eq_comm, Item.octets]
    show Fits _ c (Item.spelledOn c (Item.ahead outbox.gone))
    refine ⟨?_, fun _ => ?_⟩
    · rw [hspelled]
      exact (h.fits c).within.trans (List.prefix_append ..)
    · rw [sent_of_start ht.ready, hspelled, (h.fits c).exact hf]
  · intro c left hphase
    cases hphase
    exact ⟨hf, o.outbox.gone, m, hgone, List.suffix_refl _, hc⟩

theorem put (h : o.Placed) {channel : Channel} {left : Octets}
    (hp : o.phase = .writing channel left) (count : Nat) : (o.put channel left count).Placed := by
  obtain ⟨hf, front, m, hgone, hleft, hchannel⟩ := h.writing hp
  constructor
  · intro c
    have hexact : (o.put channel left count).sent c =
        Item.spelledOn c (Item.ahead o.outbox.gone) := by
      rw [sent_put hp, (h.fits c).exact hf]
    refine ⟨?_, fun _ => hexact⟩
    show _ <+: Item.spelledOn c (Item.ahead o.outbox.gone)
    rw [← hexact]
    exact List.prefix_append ..
  · intro c rest hphase
    obtain ⟨rfl, rfl, -⟩ := writing_of_put hphase
    exact ⟨hf, front, m, hgone, (List.drop_suffix count left).trans hleft, hchannel⟩

theorem fail (h : o.Placed) : { o with failed := true, phase := .ready }.Placed where
  fits := fun c => ⟨(h.fits c).within, nofun⟩
  writing := nofun

theorem idle (h : o.Placed) {phase : Phase} (hbefore : ∀ c, o.left c = [])
    (hafter : ∀ c, ({ o with phase } : Output).left c = [])
    (hp : ∀ c left, phase ≠ .writing c left) : { o with phase }.Placed where
  fits := fun c => fits_idle (h.fits c) (hbefore c) (hafter c) id rfl
  writing := fun hphase => absurd hphase (hp _ _)

/-- Every turn of the output keeps the places, as long as the right writer stands ready. -/
theorem turn (h : o.Placed) (ha : o.Account) {act : Act} {events : List Event}
    (hw : ∀ c, o.phase = .ready → o.writer = some c → c = Item.channelAfter o.outbox.gone)
    (ht : Turn o act events o') : o'.Placed := by
  cases ht with
  | discard hm hd =>
      exact h.passOver ha hm rfl (by simp [hm.ready]) id rfl (hd.imp_right .inl)
  | writerMissing hm => exact h.passOver ha hm rfl nofun nofun rfl (.inl rfl)
  | start hm hf hs hwriter => exact h.start ha hm hf hs (hw _ hm.ready hwriter)
  | pause hm => exact h.passOver ha hm rfl nofun id rfl (.inr (.inr rfl))
  | skip hm => exact h.passOver ha hm rfl (by simp [hm.ready]) id rfl (.inr (.inr rfl))
  | closes hm => exact h.passOver ha hm rfl (by simp [hm.ready]) id rfl (.inr (.inr rfl))
  | finish hp he => exact h.idle (left_of_ready hp) (fun _ => rfl) nofun
  | write hp hc hl => exact h.put hp _
  | «break» hp => exact h.fail
  | expire hp hl => exact h.fail
  | resume hp he => exact h.idle (fun c => by simp [left, hp]) (fun _ => rfl) nofun
  | forsake hp he => exact h.idle (fun c => by simp [left, hp]) (fun _ => rfl) nofun

end Placed

end Output

end Directory
