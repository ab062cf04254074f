import Directory.Proofs.Output.Turn
import Mathlib.Data.List.TakeWhile

/-!
# What the output has written

The messages that were taken ahead of the closing item are on the connection, in order and each once:
a first part of them in the clear, the others encrypted, and the last of them perhaps not yet to its
end. `Output.Account` says so for an output that has not failed, with what it rests on: the closing
item and nothing else closes the outbox, and while the writer is one in the clear nothing was written
encrypted.

The account is kept by every turn of the output (`Account.turn`) and by all that others do to it:
they put items into the outbox, prepare and end pauses, take the writer away and put that of an
encrypted connection in its place.
-/

namespace Directory

def Item.octets : Item → Octets
  | .message m => m.encode
  | .pause _ => []
  | .close => []

/-- The octets that some items put on the connection. -/
def Item.spelled (items : List Item) : Octets := items.flatMap octets

theorem Item.spelled_append (items more : List Item) :
    spelled (items ++ more) = spelled items ++ spelled more := List.flatMap_append

theorem Item.spelled_cons (item : Item) (items : List Item) :
    spelled (item :: items) = item.octets ++ spelled items := List.flatMap_cons

theorem Item.spelled_concat (items : List Item) (item : Item) :
    spelled (items ++ [item]) = spelled items ++ item.octets := by
  rw [spelled_append, spelled_cons]
  exact congrArg _ (List.append_nil _)

/-- The items ahead of the closing one. -/
def Item.ahead (items : List Item) : List Item := items.takeWhile (· ≠ .close)

theorem Item.ahead_of_not_mem {items : List Item} (h : .close ∉ items) : ahead items = items :=
  List.takeWhile_eq_self_iff.mpr fun _ hi => decide_eq_true fun heq => h (heq ▸ hi)

theorem Item.ahead_append_of_not_mem {front : List Item} (h : .close ∉ front) (back : List Item) :
    ahead (front ++ back) = front ++ ahead back :=
  List.takeWhile_append_of_pos fun _ hi => decide_eq_true fun heq => h (heq ▸ hi)

theorem Item.ahead_of_split {front : List Item} (h : .close ∉ front) (back : List Item) :
    ahead (front ++ .close :: back) = front := by
  rw [ahead_append_of_not_mem h, ahead, List.takeWhile_cons_of_neg (by decide), List.append_nil]

/-- Nothing that comes after the closing item is ahead of it. -/
theorem Item.ahead_append {items : List Item} (h : .close ∈ items) (more : List Item) :
    ahead (items ++ more) = ahead items := by
  obtain ⟨front, back, rfl, hfront⟩ := List.eq_append_cons_of_mem h
  rw [List.append_assoc, List.cons_append, ahead_of_split hfront, ahead_of_split hfront]

namespace Output

variable {o o' : Output}

/-- The octets that are still to be written on a channel of the message being written. -/
def left (o : Output) (c : Channel) : Octets :=
  match o.phase with
  | .writing channel left => if channel = c then left else []
  | _ => []

def sent (o : Output) (c : Channel) : Octets := o.wires.on c ++ o.left c

/-- The connection has the octets of some items, a first part of them in the clear. -/
def Spells (o : Output) (items : List Item) : Prop :=
  ∃ clear secret, items = clear ++ secret ∧
    o.sent .plain = Item.spelled clear ∧ o.sent .secure = Item.spelled secret

/-- What was written agrees with what was taken. -/
structure Account (o : Output) : Prop where
  sound : o.outbox.Sound
  sealed_iff : o.sealed = true ↔ .close ∈ o.outbox.gone
  closed_eq : o.outbox.closed = o.sealed
  finished : o.phase = .finished → o.outbox.closed = true ∧ o.outbox.items = []
  unmixed : o.writer = some .plain → o.sent .secure = []
  spells : o.failed = false → o.Spells (Item.ahead o.outbox.gone)

namespace Account

theorem not_closing (h : o.Account) (hs : o.sealed = false) : .close ∉ o.outbox.gone := by
  rw [← h.sealed_iff, hs]
  exact Bool.false_ne_true

/-! ## What others do to the output -/

theorem send (h : o.Account) (item : Item) : (o.send item).2.Account where
  sound := h.sound.send item
  sealed_iff := by
    show o.sealed = true ↔ .close ∈ (o.outbox.send item).2.gone
    rw [Outbox.gone_send h.sound]
    exact h.sealed_iff
  closed_eq := (Outbox.closed_send o.outbox item).trans h.closed_eq
  finished := by
    intro hp
    have hfinished := h.finished hp
    show (o.outbox.send item).2.closed = true ∧ (o.outbox.send item).2.items = []
    rw [Outbox.send_of_closed hfinished.1]
    exact hfinished
  unmixed := h.unmixed
  spells := by
    intro hf
    show o.Spells (Item.ahead (o.outbox.send item).2.gone)
    rw [Outbox.gone_send h.sound]
    exact h.spells hf

theorem pauses (h : o.Account) (ps : List Pause) : { o with pauses := ps }.Account := { h with }

theorem takeWriter (h : o.Account) : { o with writer := none }.Account :=
  { h with unmixed := fun hw => nomatch hw }

theorem putSecure (h : o.Account) : { o with writer := some .secure }.Account :=
  { h with unmixed := fun hw => nomatch hw }

end Account

/-! ## What the output does -/

variable {item : Item} {outbox : Outbox Item}

theorem left_of_ready (h : o.phase = .ready) (c : Channel) : o.left c = [] := by simp [left, h]

theorem sent_of_ready (h : o.phase = .ready) (c : Channel) : o.sent c = o.wires.on c := by
  rw [sent, left_of_ready h, List.append_nil]

theorem sent_of_start (h : o.phase = .ready) (outbox : Outbox Item) (channel : Channel)
    (bytes : Octets) (c : Channel) :
    ({ o with outbox, phase := .writing channel bytes } : Output).sent c =
      o.sent c ++ if channel = c then bytes else [] := by
  rw [sent_of_ready h]
  rfl

/-- What reaches the connection was being written before. -/
theorem sent_put {channel : Channel} {left : Octets} (h : o.phase = .writing channel left)
    (count : Nat) (c : Channel) : (o.put channel left count).sent c = o.sent c := by
  have hleft : (o.put channel left count).left c =
      if channel = c then left.drop count else [] := by
    cases hd : left.drop count <;> simp [Output.left, put, hd]
  have hbefore : o.left c = if channel = c then left else [] := by simp [Output.left, h]
  rw [sent, sent, hleft, hbefore]
  show (o.wires.write channel (left.take count)).on c ++ _ = _
  by_cases hc : channel = c
  · subst hc
    rw [if_pos rfl, if_pos rfl, Wires.on_write_self, List.append_assoc, List.take_append_drop]
  · rw [if_neg hc, if_neg hc, Wires.on_write_other o.wires _ (Ne.symm hc)]

/-- An item that puts nothing on the connection is spelled wherever it comes. -/
theorem Spells.concat {items : List Item} (h : o.Spells items) (hi : item.octets = []) :
    o.Spells (items ++ [item]) := by
  obtain ⟨clear, secret, rfl, hplain, hsecure⟩ := h
  refine ⟨clear, secret ++ [item], List.append_assoc .., hplain, ?_⟩
  rw [hsecure, Item.spelled_concat, hi, List.append_nil]

theorem ahead_concat (items : List Item) (item : Item) :
    Item.ahead (items ++ [item]) = Item.ahead items ∨
      .close ∉ items ∧ item ≠ .close ∧ Item.ahead (items ++ [item]) = Item.ahead items ++ [item] := by
  by_cases hs : .close ∈ items
  · exact Or.inl (Item.ahead_append hs [item])
  · by_cases hi : item = .close
    · subst hi
      rw [Item.ahead_of_split hs, Item.ahead_of_not_mem hs]
      exact Or.inl rfl
    · have hnew : .close ∉ items ++ [item] := by
        intro h
        rcases List.mem_append.mp h with h | h
        · exact hs h
        · exact hi (List.mem_singleton.mp h).symm
      rw [Item.ahead_of_not_mem hnew, Item.ahead_of_not_mem hs]
      exact Or.inr ⟨hs, hi, rfl⟩

namespace Account

theorem passOver (h : o.Account) (ht : o.Takes item outbox) (hi : item ≠ .close) {phase : Phase}
    (hp : phase = .ready ∨ ∃ n, phase = .paused n) (failed : Bool)
    (hf : failed = false → o.failed = false)
    (hn : failed = true ∨ o.sealed = true ∨ item.octets = []) (ps : List Pause) :
    { o with outbox, phase, failed, pauses := ps }.Account := by
  have hsent (c : Channel) : ({ o with outbox, phase, failed, pauses := ps } : Output).sent c =
      o.sent c := by
    rw [sent_of_ready ht.ready]
    rcases hp with rfl | ⟨n, rfl⟩ <;> exact List.append_nil _
  refine ⟨h.sound.take ht.take_eq, ?_, (Outbox.closed_of_take ht.take_eq).trans h.closed_eq,
    ?_, ?_, ?_⟩
  · show o.sealed = true ↔ .close ∈ outbox.gone
    rw [Outbox.gone_of_take h.sound ht.take_eq, h.sealed_iff]
    simp [hi.symm]
  · intro hphase
    rcases hp with rfl | ⟨n, rfl⟩ <;> cases hphase
  · intro hw
    rw [hsent]
    exact h.unmixed hw
  · intro hfailed
    unfold Spells
    rw [hsent, hsent]
    show o.Spells (Item.ahead outbox.gone)
    rw [Outbox.gone_of_take h.sound ht.take_eq]
    have hspells := h.spells (hf hfailed)
    rcases ahead_concat o.outbox.gone item with heq | ⟨hclose, _, heq⟩
    · rw [heq]
      exact hspells
    · rw [heq]
      rcases hn with rfl | hs | hn
      · cases hfailed
      · exact absurd (h.sealed_iff.mp hs) hclose
      · exact hspells.concat hn

theorem start (h : o.Account) {m : Message} {channel : Channel} (ht : o.Takes (.message m) outbox)
    (hs : o.sealed = false) (hw : o.writer = some channel) :
    { o with outbox, phase := .writing channel m.encode }.Account := by
  have hsent := sent_of_start ht.ready outbox channel m.encode
  have hclose := h.not_closing hs
  refine ⟨h.sound.take ht.take_eq, ?_, (Outbox.closed_of_take ht.take_eq).trans h.closed_eq,
    (fun hphase => nomatch hphase), ?_, ?_⟩
  · show o.sealed = true ↔ .close ∈ outbox.gone
    rw [Outbox.gone_of_take h.sound ht.take_eq, h.sealed_iff]
    simp
  · intro hplain
    have hchannel : channel = .plain := Option.some.inj (hw.symm.trans hplain)
    subst hchannel
    rw [hsent, if_neg (by decide), List.append_nil]
    exact h.unmixed hw
  · intro hf
    obtain ⟨clear, secret, heq, hplain, hsecure⟩ := h.spells hf
    have hgone : Item.ahead outbox.gone = Item.ahead o.outbox.gone ++ [.message m] := by
      rw [Outbox.gone_of_take h.sound ht.take_eq, Item.ahead_of_not_mem hclose,
        Item.ahead_of_not_mem (by simp [hclose])]
    unfold Spells
    rw [hsent, hsent]
    show ∃ clear secret, Item.ahead outbox.gone = clear ++ secret ∧ _
    rw [hgone, heq]
    cases channel with
    | plain =>
        -- Nothing was encrypted so far, so all that was taken counts as written in the clear.
        rw [h.unmixed hw] at hsecure
        refine ⟨clear ++ secret ++ [.message m], [], (List.append_nil _).symm, ?_, ?_⟩
        · rw [hplain, if_pos rfl, Item.spelled_concat, Item.spelled_append, ← hsecure,
            List.append_nil]
          rfl
        · rw [h.unmixed hw]
          rfl
    | secure =>
        refine ⟨clear, secret ++ [.message m], List.append_assoc .., ?_, ?_⟩
        · rw [hplain, if_neg (by decide), List.append_nil]
        · rw [hsecure, if_pos rfl, Item.spelled_concat]
          rfl

theorem closes (h : o.Account) (ht : o.Takes .close outbox) :
    { o with sealed := true, outbox := outbox.close }.Account := by
  have hgone := Outbox.gone_of_take h.sound ht.take_eq
  refine ⟨(h.sound.take ht.take_eq).close, ?_, rfl, ?_, h.unmixed, ?_⟩
  · show true = true ↔ .close ∈ outbox.gone
    rw [hgone]
    simp
  · intro hphase
    have hready : o.phase = .finished := hphase
    rw [ht.ready] at hready
    cases hready
  · intro hf
    show o.Spells (Item.ahead outbox.gone)
    rw [hgone]
    rcases ahead_concat o.outbox.gone .close with heq | ⟨_, hne, _⟩
    · rw [heq]
      exact h.spells hf
    · exact absurd rfl hne

theorem put (h : o.Account) {channel : Channel} {left : Octets}
    (hp : o.phase = .writing channel left) (count : Nat) :
    (o.put channel left count).Account := by
  refine ⟨h.sound, h.sealed_iff, h.closed_eq, fun hp => absurd hp unfinished_of_put, ?_, ?_⟩
  · intro hw
    rw [sent_put hp]
    exact h.unmixed hw
  · intro hf
    unfold Spells
    rw [sent_put hp, sent_put hp]
    exact h.spells hf

theorem fail (h : o.Account) : { o with failed := true, phase := .ready }.Account where
  sound := h.sound
  sealed_iff := h.sealed_iff
  closed_eq := h.closed_eq
  finished := fun hphase => nomatch hphase
  unmixed := by
    intro hw
    rw [sent_of_ready rfl]
    exact (List.append_eq_nil_iff.mp (h.unmixed hw)).1
  spells := fun hfailed => nomatch hfailed

theorem idle (h : o.Account) {phase : Phase} (hbefore : ∀ c, o.left c = [])
    (hafter : ∀ c, ({ o with phase } : Output).left c = [])
    (hf : phase = .finished → o.outbox.closed = true ∧ o.outbox.items = []) :
    { o with phase }.Account := by
  have hsent (c : Channel) : ({ o with phase } : Output).sent c = o.sent c := by
    rw [sent, sent, hbefore, hafter]
  refine ⟨h.sound, h.sealed_iff, h.closed_eq, hf, ?_, ?_⟩
  · intro hw
    rw [hsent]
    exact h.unmixed hw
  · intro hfailed
    unfold Spells
    rw [hsent, hsent]
    exact h.spells hfailed

/-- Every turn of the output keeps the account. -/
theorem turn (h : o.Account) {act : Act} {events : List Event} (ht : Turn o act events o') :
    o'.Account := by
  cases ht with
  | discard hm hd => exact h.passOver hm (by simp) (.inl hm.ready) _ id (hd.imp_right .inl) _
  | writerMissing hm hf hs hw =>
      exact h.passOver hm (by simp) (.inl rfl) true (fun hfalse => nomatch hfalse) (.inl rfl) _
  | start hm hf hs hw => exact h.start hm hs hw
  | pause hm hw => exact h.passOver hm (by simp) (.inr ⟨_, rfl⟩) _ id (.inr (.inr rfl)) _
  | skip hm hw => exact h.passOver hm (by simp) (.inl hm.ready) _ id (.inr (.inr rfl)) _
  | closes hm => exact h.closes hm
  | finish hp he =>
      exact h.idle (left_of_ready hp) (fun _ => rfl) (fun _ => Outbox.take_eq_ended he)
  | write hp hc hl => exact h.put hp _
  | «break» hp => exact h.fail
  | expire hp hl => exact h.fail
  | resume hp he =>
      exact h.idle (fun c => by simp [left, hp]) (fun _ => rfl) (fun hphase => nomatch hphase)
  | forsake hp he =>
      exact h.idle (fun c => by simp [left, hp]) (fun _ => rfl) (fun hphase => nomatch hphase)

end Account

end Output

end Directory
