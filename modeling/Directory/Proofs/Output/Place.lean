import Directory.Proofs.Output.Turn

/-!
# Places in line

A writer that finds no room waits with a ticket behind those who came earlier, and where its item
stands among all that was ever offered is settled there and then. From this place (`Outbox.Place`)
its answer can be read off: the item is let in just if that many items and one more are let in
(`Place.standing_eq_queued_iff`). Nothing that happens to an outbox moves a place, neither an offer
nor what a turn of the output does, which takes an item at most and may close the outbox after that
(`Outbox.Drains`).
-/

namespace Directory

namespace Outbox

variable {α : Type} {o o' : Outbox α} {a : α} {ticket index : Nat}

/-- What may happen to an outbox while nothing is offered to it. -/
inductive Drains (o : Outbox α) : Outbox α → Prop where
  | rests : Drains o o
  | takes {b out} (ht : o.take = (.item b, out)) : Drains o out
  | closes {b out} (ht : o.take = (.item b, out)) : Drains o out.close

theorem Drains.offered_prefix (h : o.Drains o') : o'.offered <+: o.offered := by
  cases h with
  | rests => exact List.prefix_refl _
  | takes ht => exact offered_of_take ht ▸ List.prefix_refl _
  | closes ht =>
      -- Those who wait are turned away.
      rw [← offered_of_take ht, offered_close]
      exact List.prefix_append ..

theorem Drains.offered_eq (h : o.Drains o') (hopen : o'.closed = false) :
    o'.offered = o.offered := by
  cases h with
  | rests => rfl
  | takes ht => exact offered_of_take ht
  | closes ht => cases hopen

theorem Drains.closed_mono (h : o.Drains o') (hopen : o'.closed = false) : o.closed = false := by
  cases h with
  | rests => exact hopen
  | takes ht => exact (closed_of_take ht).symm.trans hopen
  | closes ht => cases hopen

theorem admitted_prefix_send (o : Outbox α) (a : α) : o.admitted <+: (o.send a).2.admitted := by
  rcases send_cases o a with ⟨-, hs⟩ | ⟨-, -, hs⟩ | ⟨-, hs⟩
  · exact hs ▸ List.prefix_refl _
  · exact hs ▸ List.prefix_append ..
  · exact hs ▸ List.prefix_refl _

theorem send_eq_closed_iff : (o.send a).1 = .closed ↔ o.closed = true := by
  rcases send_cases o a with ⟨hclosed, hs⟩ | ⟨hopen, -, hs⟩ | ⟨hopen, hs⟩ <;> rw [hs]
  · exact iff_of_true rfl hclosed
  · exact iff_of_false nofun (Bool.eq_false_iff.mp hopen)
  · exact iff_of_false nofun (Bool.eq_false_iff.mp hopen)

/-- What taking an item does: whoever has waited longest gets the room. -/
theorem take_cases (ht : o.take = (.item a, o')) :
    (o.waiting = [] ∧ o' = { o with taken := o.taken + 1 }) ∨
    ∃ entry rest, o.waiting = entry :: rest ∧
      o' = { o with
        taken := o.taken + 1, admitted := o.admitted ++ [entry.2], waiting := rest } := by
  obtain ⟨_, -, rfl⟩ := take_eq_item ht
  rcases letOldestIn_cases { o with taken := o.taken + 1 } with ⟨hw, hin⟩ | ⟨entry, rest, hw, hin⟩
  · exact .inl ⟨hw, hin⟩
  · exact .inr ⟨entry, rest, hw, hin⟩

theorem admitted_prefix_take (ht : o.take = (.item a, o')) : o.admitted <+: o'.admitted := by
  rcases take_cases ht with ⟨-, rfl⟩ | ⟨entry, rest, -, rfl⟩
  · exact List.prefix_refl _
  · exact List.prefix_append ..

theorem Drains.admitted_prefix (h : o.Drains o') : o.admitted <+: o'.admitted := by
  cases h with
  | rests => exact List.prefix_refl _
  | takes ht => exact admitted_prefix_take ht
  | closes ht => exact (admitted_prefix_take ht :)

/-- Nothing is let into a closed outbox. -/
theorem Drains.admitted_eq (h : o.Drains o') (hs : o.Sound) (hclosed : o.closed = true) :
    o'.admitted = o.admitted := by
  have htake {b : α} {out : Outbox α} (ht : o.take = (.item b, out)) :
      out.admitted = o.admitted := by
    rcases take_cases ht with ⟨-, rfl⟩ | ⟨entry, rest, hw, -⟩
    · rfl
    · rw [hs.nobody_waits hclosed] at hw
      cases hw
  cases h with
  | rests => rfl
  | takes ht => exact htake ht
  | closes ht => exact (htake ht :)

/-! ## Tickets -/

/-- No two writers that wait have the same ticket, and nobody is turned away before the outbox is
closed. -/
structure Numbered (o : Outbox α) : Prop where
  sound : o.Sound
  once : (o.waiting.map (·.1)).Nodup
  known : ∀ ticket ∈ o.waiting.map (·.1), ticket < o.tickets
  turnedAway : o.closed = false → o.refused = []

namespace Numbered

theorem send (h : o.Numbered) (a : α) : (o.send a).2.Numbered := by
  refine ⟨h.sound.send a, ?_, ?_, ?_⟩
  · rcases send_cases o a with ⟨-, hs⟩ | ⟨-, -, hs⟩ | ⟨-, hs⟩ <;> rw [hs]
    · exact h.once
    · exact h.once
    · show ((o.waiting ++ [(o.tickets, a)]).map (·.1)).Nodup
      rw [List.map_append, List.map_singleton, List.nodup_append]
      refine ⟨h.once, List.pairwise_singleton .., ?_⟩
      intro ticket hmem other hother
      rw [List.mem_singleton.mp hother]
      exact Nat.ne_of_lt (h.known ticket hmem)
  · rcases send_cases o a with ⟨-, hs⟩ | ⟨-, -, hs⟩ | ⟨-, hs⟩ <;> rw [hs]
    · exact h.known
    · exact h.known
    · intro ticket hmem
      replace hmem : ticket ∈ (o.waiting ++ [(o.tickets, a)]).map (·.1) := hmem
      rw [List.map_append, List.mem_append] at hmem
      rcases hmem with hold | hnew
      · exact Nat.lt_succ_of_lt (h.known ticket hold)
      · rw [List.mem_singleton.mp hnew]
        exact Nat.lt_succ_self _
  · rw [closed_send, refused_send]
    exact h.turnedAway

theorem take (h : o.Numbered) (ht : o.take = (.item a, o')) : o'.Numbered := by
  refine ⟨h.sound.take ht, ?_, ?_, ?_⟩
  · have honce := h.once
    rcases take_cases ht with ⟨-, rfl⟩ | ⟨entry, rest, hw, rfl⟩
    · exact honce
    · rw [hw] at honce
      exact (List.nodup_cons.mp honce).2
  · have hknown := h.known
    rcases take_cases ht with ⟨-, rfl⟩ | ⟨entry, rest, hw, rfl⟩
    · exact hknown
    · rw [hw] at hknown
      exact fun ticket hmem => hknown ticket (List.mem_cons_of_mem _ hmem)
  · rw [closed_of_take ht, refused_of_take ht]
    exact h.turnedAway

theorem close (h : o.Numbered) : o.close.Numbered :=
  ⟨h.sound.close, List.nodup_nil, nofun, nofun⟩

theorem drains (h : o.Numbered) (hd : o.Drains o') : o'.Numbered := by
  cases hd with
  | rests => exact h
  | takes ht => exact h.take ht
  | closes ht => exact (h.take ht).close

/-- Where the outbox is open, whoever does not wait was let in. -/
theorem standing_ne_refused (h : o.Numbered) (hopen : o.closed = false) (ticket : Nat) :
    o.standing ticket ≠ .refused := by
  unfold standing
  split
  · nofun
  · rw [h.turnedAway hopen]
    nofun

end Numbered

/-! ## Places -/

/-- Where the item of a writer with a ticket stands among all that was offered. -/
inductive Place (o : Outbox α) (ticket index : Nat) : Prop where
  /-- It waits behind all that was let in and behind those who have waited longer. -/
  | waits {front a back} (hw : o.waiting = front ++ (ticket, a) :: back)
      (hindex : index = o.admitted.length + front.length)
  | letIn (hlt : index < o.admitted.length) (hknown : ticket < o.tickets)
      (hw : ticket ∉ o.waiting.map (·.1)) (hr : ticket ∉ o.refused)
  | turnedAway (hle : o.admitted.length ≤ index) (hclosed : o.closed = true)
      (hr : ticket ∈ o.refused)

theorem Place.of_send (h : (o.send a).1 = .waiting ticket) :
    (o.send a).2.Place ticket o.offered.length := by
  rcases send_cases o a with ⟨-, hs⟩ | ⟨-, -, hs⟩ | ⟨-, hs⟩
  · rw [hs] at h
    cases h
  · rw [hs] at h
    cases h
  · rw [hs] at h ⊢
    cases h
    exact .waits rfl (by rw [offered, List.length_append, List.length_map])

namespace Place

theorem send (h : o.Place ticket index) (a : α) :
    (o.send a).2.Place ticket index := by
  rcases send_cases o a with ⟨-, hs⟩ | ⟨hopen, hnobody, hs⟩ | ⟨hopen, hs⟩ <;> rw [hs]
  · exact h
  · cases h with
    | waits hw hindex =>
        rw [hnobody] at hw
        exact absurd hw.symm (List.append_ne_nil_of_right_ne_nil _ (List.cons_ne_nil _ _))
    | letIn hlt hknown hw hr =>
        refine .letIn ?_ hknown hw hr
        rw [Outbox.letIn, List.length_append]
        exact Nat.lt_add_right _ hlt
    | turnedAway hle hclosed hr => cases hopen.symm.trans hclosed
  · cases h with
    | @waits front b back hw hindex =>
        have hw' : o.waiting ++ [(o.tickets, a)] =
            front ++ (ticket, b) :: (back ++ [(o.tickets, a)]) := by
          rw [hw, List.append_assoc, List.cons_append]
        exact .waits hw' hindex
    | letIn hlt hknown hw hr =>
        refine .letIn hlt (Nat.lt_succ_of_lt hknown) ?_ hr
        show ticket ∉ (o.waiting ++ [(o.tickets, a)]).map (·.1)
        rw [List.map_append, List.mem_append, not_or, List.map_singleton, List.mem_singleton]
        exact ⟨hw, Nat.ne_of_lt hknown⟩
    | turnedAway hle hclosed hr => cases hopen.symm.trans hclosed

theorem take (h : o.Place ticket index) (hn : o.Numbered) (ht : o.take = (.item a, o')) :
    o'.Place ticket index := by
  have hclosed' := closed_of_take ht
  have hrefused' := refused_of_take ht
  rcases take_cases ht with ⟨hnobody, ho'⟩ | ⟨entry, rest, hwaiting, ho'⟩
  · rw [ho']
    cases h with
    | waits hw hindex => exact .waits hw hindex
    | letIn hlt hknown hw hr => exact .letIn hlt hknown hw hr
    | turnedAway hle hclosed hr => exact .turnedAway hle hclosed hr
  · -- Somebody waits, so the outbox is open and nobody was turned away.
    have hopen : o.closed = false := by
      apply eq_false_of_ne_true
      intro hclosed
      rw [hn.sound.nobody_waits hclosed] at hwaiting
      cases hwaiting
    have hmore : (o.admitted ++ [entry.2]).length = o.admitted.length + 1 := by
      rw [List.length_append, List.length_singleton]
    rw [ho']
    cases h with
    | @waits front b back hw hindex =>
        rw [hwaiting] at hw
        cases front with
        | nil =>
            cases hw
            have hnew := hn.once
            rw [hwaiting] at hnew
            refine .letIn ?_ (hn.known ticket (by simp [hwaiting])) (List.nodup_cons.mp hnew).1 ?_
            · rw [hmore, hindex]
              exact Nat.lt_succ_self _
            · rw [hn.turnedAway hopen]
              exact List.not_mem_nil
        | cons first front =>
            cases hw
            refine .waits rfl ?_
            rw [hmore, hindex, List.length_cons]
            omega
    | letIn hlt hknown hw hr =>
        refine .letIn (hmore ▸ Nat.lt_succ_of_lt hlt) hknown ?_ hr
        rw [hwaiting] at hw
        exact fun hmem => hw (List.mem_cons_of_mem _ hmem)
    | turnedAway hle hclosed hr => cases hopen.symm.trans hclosed

theorem close (h : o.Place ticket index) : o.close.Place ticket index := by
  cases h with
  | @waits front b back hw hindex =>
      refine .turnedAway (hindex ▸ Nat.le_add_right _ _) rfl (List.mem_append_right _ ?_)
      rw [hw]
      simp
  | letIn hlt hknown hw hr =>
      refine .letIn hlt hknown List.not_mem_nil ?_
      exact fun hmem => (List.mem_append.mp hmem).elim hr hw
  | turnedAway hle hclosed hr => exact .turnedAway hle rfl (List.mem_append_left _ hr)

/-- **Nothing moves a place.** -/
theorem drains (h : o.Place ticket index) (hn : o.Numbered) (hd : o.Drains o') :
    o'.Place ticket index := by
  cases hd with
  | rests => exact h
  | takes ht => exact h.take hn ht
  | closes ht => exact (h.take hn ht).close

theorem standing_eq_queued_iff (h : o.Place ticket index) (hn : o.Numbered) :
    o.standing ticket = .queued ↔ index < o.admitted.length := by
  have hany : o.waiting.any (·.1 == ticket) = true ↔ ticket ∈ o.waiting.map (·.1) := by simp
  unfold standing
  cases h with
  | waits hw hindex =>
      have hwaits : ticket ∈ o.waiting.map (·.1) := by simp [hw]
      rw [if_pos (hany.mpr hwaits), hindex]
      simp
  | letIn hlt hknown hw hr =>
      rw [if_neg (fun h => hw (hany.mp h)), if_neg (by simpa using hr)]
      exact iff_of_true rfl hlt
  | turnedAway hle hclosed hr =>
      rw [if_neg (by simp [hn.sound.nobody_waits hclosed]), if_pos (by simpa using hr)]
      exact iff_of_false nofun (Nat.not_lt.mpr hle)

end Place

/-! ## Receipts -/

def answer (o : Outbox α) : Receipt → Standing
  | .queued => .queued
  | .waiting ticket => o.standing ticket
  | .closed => .refused

/-- What a receipt is worth: the item was let in, or its place in line is known. -/
inductive Holds (o : Outbox α) (index : Nat) : Receipt → Prop where
  | letIn (hlt : index < o.admitted.length) : Holds o index .queued
  | inLine {ticket : Nat} (hplace : o.Place ticket index) : Holds o index (.waiting ticket)

/-- Once an outbox is closed, everybody has an answer. -/
theorem answer_ne_waiting (hs : o.Sound) (hclosed : o.closed = true) (receipt : Receipt) :
    o.answer receipt ≠ .waiting := by
  cases receipt with
  | waiting ticket =>
      rw [answer, standing, hs.nobody_waits hclosed]
      split
      next hany => cases hany
      next => split <;> nofun
  | _ => nofun

theorem Holds.of_send (hopen : o.closed = false) (a : α) :
    (o.send a).2.Holds o.offered.length (o.send a).1 := by
  rcases send_cases o a with ⟨hclosed, -⟩ | ⟨-, hnobody, hs⟩ | ⟨-, hs⟩
  · cases hopen.symm.trans hclosed
  · rw [hs]
    refine .letIn ?_
    rw [offered, hnobody, List.map_nil, List.append_nil, Outbox.letIn, List.length_append]
    exact Nat.lt_succ_self _
  · have hreceipt : (o.send a).1 = .waiting o.tickets := by rw [hs]
    rw [hreceipt]
    exact .inLine (Place.of_send hreceipt)

theorem Holds.answer_eq_queued_iff {receipt : Receipt} (h : o.Holds index receipt)
    (hn : o.Numbered) : o.answer receipt = .queued ↔ index < o.admitted.length := by
  cases h with
  | letIn hlt => exact iff_of_true rfl hlt
  | inLine hplace => exact hplace.standing_eq_queued_iff hn

end Outbox

namespace Output

theorem drains_of_turn {o o' : Output} {act : Act} {events : List Event}
    (h : Turn o act events o') : o.outbox.Drains o'.outbox := by
  cases h with
  | discard ht | writerMissing ht | start ht | pause ht | skip ht => exact .takes ht.take_eq
  | closes ht => exact .closes ht.take_eq
  | finish | write | «break» | expire | resume | forsake => exact .rests

end Output

end Directory
