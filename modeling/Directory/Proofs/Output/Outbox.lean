import Directory.Output.Outbox

/-!
# What an outbox has let in

`Outbox.gone` is what the reader has taken, `Outbox.offered` all that was let in or waits for room.
A reader who takes an item moves it from what is in the outbox to what is gone (`gone_of_take`) and
changes nothing in what was offered (`offered_of_take`); a writer adds its item at the end of what
was offered and touches nothing else (`offered_send`, `gone_send`).
-/

namespace Directory.Outbox

variable {α : Type} {o o' : Outbox α} {a : α}

/-- What was taken, oldest first. -/
def gone (o : Outbox α) : List α := o.admitted.take o.taken

/-- What was let in, and behind it what waits for room. -/
def offered (o : Outbox α) : List α := o.admitted ++ o.waiting.map (·.2)

/-- No more was taken than was let in, and nobody waits at a closed outbox. -/
structure Sound (o : Outbox α) : Prop where
  taken_le : o.taken ≤ o.admitted.length
  nobody_waits : o.closed = true → o.waiting = []

theorem create?_eq_some {capacity : Nat} (h : create? capacity = some o) :
    0 < capacity ∧ o = { capacity } := by
  obtain ⟨hroom, h⟩ := Option.ite_none_left_eq_some.mp h
  cases h
  exact ⟨by omega, rfl⟩

theorem gone_append_items (o : Outbox α) : o.gone ++ o.items = o.admitted :=
  List.take_append_drop o.taken o.admitted

theorem mem_admitted_of_mem_gone (h : a ∈ o.gone) : a ∈ o.admitted := List.mem_of_mem_take h

theorem gone_eq_admitted (h : o.items = []) : o.gone = o.admitted := by
  rw [← gone_append_items o, h, List.append_nil]

theorem gone_prefix_admitted (o : Outbox α) : o.gone <+: o.admitted := List.take_prefix ..

theorem gone_prefix_offered (o : Outbox α) : o.gone <+: o.offered :=
  (gone_prefix_admitted o).trans (List.prefix_append ..)

theorem gone_letIn (h : o.Sound) (a : α) : (o.letIn a).gone = o.gone :=
  List.take_append_of_le_length h.taken_le

/-! ## Offering an item -/

theorem send_cases (o : Outbox α) (a : α) :
    (o.closed = true ∧ o.send a = (.closed, o)) ∨
    (o.closed = false ∧ o.waiting = [] ∧ o.send a = (.queued, o.letIn a)) ∨
    (o.closed = false ∧ o.send a = (.waiting o.tickets,
      { o with waiting := o.waiting ++ [(o.tickets, a)], tickets := o.tickets + 1 })) := by
  unfold send
  cases hc : o.closed with
  | true => exact Or.inl ⟨rfl, rfl⟩
  | false =>
      rw [if_neg Bool.false_ne_true]
      by_cases hroom : o.hasRoom = true
      · have hwaiting : o.waiting = [] := by
          have hboth : o.waiting = [] ∧ o.items.length < o.capacity := by
            simpa [hasRoom] using hroom
          exact hboth.1
        rw [if_pos hroom]
        exact Or.inr (Or.inl ⟨rfl, hwaiting, rfl⟩)
      · rw [if_neg hroom]
        exact Or.inr (Or.inr ⟨rfl, rfl⟩)

theorem closed_of_send {o : Outbox α} (h : o.send a = (.closed, o')) : o.closed = true ∧ o' = o := by
  rcases send_cases o a with ⟨hc, hs⟩ | ⟨hc, hw, hs⟩ | ⟨hc, hs⟩
  · rw [hs] at h
    cases h
    exact ⟨hc, rfl⟩
  · rw [hs] at h
    cases h
  · rw [hs] at h
    cases h

theorem offered_send (o : Outbox α) (a : α) :
    (o.send a).2.offered = if o.closed then o.offered else o.offered ++ [a] := by
  rcases send_cases o a with ⟨hc, hs⟩ | ⟨hc, hw, hs⟩ | ⟨hc, hs⟩
  · rw [hs, hc]
    rfl
  · rw [hs, hc]
    simp [offered, letIn, hw]
  · rw [hs, hc]
    simp [offered]

theorem closed_send (o : Outbox α) (a : α) : (o.send a).2.closed = o.closed := by
  rcases send_cases o a with ⟨hc, hs⟩ | ⟨hc, hw, hs⟩ | ⟨hc, hs⟩
  · rw [hs]
  · rw [hs]
    rfl
  · rw [hs]

theorem refused_send (o : Outbox α) (a : α) : (o.send a).2.refused = o.refused := by
  rcases send_cases o a with ⟨hc, hs⟩ | ⟨hc, hw, hs⟩ | ⟨hc, hs⟩
  · rw [hs]
  · rw [hs]
    rfl
  · rw [hs]

theorem gone_send (h : o.Sound) (a : α) : (o.send a).2.gone = o.gone := by
  rcases send_cases o a with ⟨hc, hs⟩ | ⟨hc, hw, hs⟩ | ⟨hc, hs⟩
  · rw [hs]
  · rw [hs]
    exact gone_letIn h a
  · rw [hs]
    rfl

theorem send_of_closed (h : o.closed = true) (a : α) : o.send a = (.closed, o) := if_pos h

theorem Sound.send (h : o.Sound) (a : α) : (o.send a).2.Sound := by
  rcases send_cases o a with ⟨hc, hs⟩ | ⟨hc, hw, hs⟩ | ⟨hc, hs⟩
  · rw [hs]
    exact h
  · rw [hs]
    refine ⟨?_, fun _ => hw⟩
    have hle := h.taken_le
    simp only [letIn, List.length_append]
    omega
  · rw [hs]
    refine ⟨h.taken_le, fun hclosed => ?_⟩
    rw [show o.closed = true from hclosed] at hc
    cases hc

theorem mem_waiting_send {entry : Nat × α} (h : entry ∈ (o.send a).2.waiting) :
    entry ∈ o.waiting ∨ entry.2 = a ∧ (o.send a).1 = .waiting entry.1 := by
  rcases send_cases o a with ⟨hc, hs⟩ | ⟨hc, hw, hs⟩ | ⟨hc, hs⟩
  · rw [hs] at h
    exact Or.inl h
  · rw [hs] at h
    exact Or.inl h
  · rw [hs] at h
    rcases List.mem_append.mp h with hold | hnew
    · exact Or.inl hold
    · rw [List.mem_singleton.mp hnew, hs]
      exact Or.inr ⟨rfl, rfl⟩

/-! ## Taking an item -/

theorem letOldestIn_cases (o : Outbox α) :
    (o.waiting = [] ∧ o.letOldestIn = o) ∨
    ∃ entry rest, o.waiting = entry :: rest ∧
      o.letOldestIn = { o.letIn entry.2 with waiting := rest } := by
  unfold letOldestIn
  cases hw : o.waiting with
  | nil => exact Or.inl ⟨rfl, rfl⟩
  | cons entry rest => exact Or.inr ⟨entry, rest, rfl, rfl⟩

theorem offered_letOldestIn (o : Outbox α) : o.letOldestIn.offered = o.offered := by
  rcases letOldestIn_cases o with ⟨_, hin⟩ | ⟨entry, rest, hw, hin⟩
  · rw [hin]
  · rw [hin]
    simp [offered, letIn, hw]

theorem closed_letOldestIn (o : Outbox α) : o.letOldestIn.closed = o.closed := by
  rcases letOldestIn_cases o with ⟨_, hin⟩ | ⟨entry, rest, _, hin⟩
  · rw [hin]
  · rw [hin]
    rfl

theorem refused_letOldestIn (o : Outbox α) : o.letOldestIn.refused = o.refused := by
  rcases letOldestIn_cases o with ⟨_, hin⟩ | ⟨entry, rest, _, hin⟩
  · rw [hin]
  · rw [hin]
    rfl

theorem gone_letOldestIn (h : o.Sound) : o.letOldestIn.gone = o.gone := by
  rcases letOldestIn_cases o with ⟨_, hin⟩ | ⟨entry, rest, _, hin⟩
  · rw [hin]
  · rw [hin]
    exact gone_letIn h entry.2

theorem Sound.letOldestIn (h : o.Sound) : o.letOldestIn.Sound := by
  rcases letOldestIn_cases o with ⟨_, hin⟩ | ⟨entry, rest, hw, hin⟩
  · rw [hin]
    exact h
  · rw [hin]
    refine ⟨?_, fun hclosed => ?_⟩
    · have hle := h.taken_le
      simp only [letIn, List.length_append]
      omega
    · rw [h.nobody_waits hclosed] at hw
      cases hw

theorem waiting_letOldestIn_subset (o : Outbox α) : o.letOldestIn.waiting ⊆ o.waiting := by
  rcases letOldestIn_cases o with ⟨_, hin⟩ | ⟨entry, rest, hw, hin⟩
  · rw [hin]
    exact List.Subset.refl _
  · rw [hin, hw]
    exact List.subset_cons_self entry rest

/-- What a reader finds who gets an item. -/
theorem take_eq_item (h : o.take = (.item a, o')) :
    ∃ rest, o.items = a :: rest ∧ o' = { o with taken := o.taken + 1 }.letOldestIn := by
  unfold take at h
  cases hitems : o.items with
  | nil =>
      rw [hitems] at h
      dsimp only at h
      split at h <;> cases h
  | cons b rest =>
      rw [hitems] at h
      cases h
      exact ⟨rest, rfl, rfl⟩

/-- What a reader finds who comes to the end. -/
theorem take_eq_ended (h : o.take = (.ended, o')) : o.closed = true ∧ o.items = [] := by
  unfold take at h
  cases hitems : o.items with
  | nil =>
      rw [hitems] at h
      dsimp only at h
      split at h
      next hclosed => exact ⟨hclosed, rfl⟩
      next => cases h
  | cons b rest =>
      rw [hitems] at h
      cases h

theorem admitted_of_items {rest : List α} (h : o.items = a :: rest) :
    o.taken < o.admitted.length ∧ o.admitted.take (o.taken + 1) = o.gone ++ [a] := by
  have hlt : o.taken < o.admitted.length := by
    have hlength := congrArg List.length h
    rw [items, List.length_drop, List.length_cons] at hlength
    omega
  have hget : o.admitted[o.taken] = a := by
    have hdrop := List.drop_eq_getElem_cons hlt
    rw [show o.admitted.drop o.taken = a :: rest from h] at hdrop
    exact (List.cons.inj hdrop).1.symm
  refine ⟨hlt, ?_⟩
  rw [List.take_succ_eq_append_getElem hlt, hget]
  rfl

theorem sound_of_items {rest : List α} (h : o.Sound) (hi : o.items = a :: rest) :
    { o with taken := o.taken + 1 }.Sound :=
  ⟨(admitted_of_items hi).1, h.nobody_waits⟩

theorem Sound.take (h : o.Sound) (ht : o.take = (.item a, o')) : o'.Sound := by
  obtain ⟨rest, hitems, rfl⟩ := take_eq_item ht
  exact (sound_of_items h hitems).letOldestIn

theorem gone_of_take (h : o.Sound) (ht : o.take = (.item a, o')) : o'.gone = o.gone ++ [a] := by
  obtain ⟨rest, hitems, rfl⟩ := take_eq_item ht
  rw [gone_letOldestIn (sound_of_items h hitems)]
  exact (admitted_of_items hitems).2

theorem offered_of_take (ht : o.take = (.item a, o')) : o'.offered = o.offered := by
  obtain ⟨rest, hitems, rfl⟩ := take_eq_item ht
  rw [offered_letOldestIn]
  rfl

theorem mem_offered_of_take (ht : o.take = (.item a, o')) : a ∈ o.offered := by
  obtain ⟨rest, hitems, -⟩ := take_eq_item ht
  have hmem : a ∈ o.items := hitems ▸ List.mem_cons_self
  exact List.mem_append_left _ (List.mem_of_mem_drop hmem)

theorem refused_of_take (ht : o.take = (.item a, o')) : o'.refused = o.refused := by
  obtain ⟨rest, hitems, rfl⟩ := take_eq_item ht
  rw [refused_letOldestIn]

theorem closed_of_take (ht : o.take = (.item a, o')) : o'.closed = o.closed := by
  obtain ⟨rest, hitems, rfl⟩ := take_eq_item ht
  rw [closed_letOldestIn]

theorem waiting_subset_of_take (ht : o.take = (.item a, o')) : o'.waiting ⊆ o.waiting := by
  obtain ⟨rest, hitems, rfl⟩ := take_eq_item ht
  exact waiting_letOldestIn_subset _

/-! ## Closing -/

theorem Sound.close (h : o.Sound) : o.close.Sound := ⟨h.taken_le, fun _ => rfl⟩

theorem offered_close (o : Outbox α) : o.close.offered = o.admitted := by
  simp [offered, close]

end Directory.Outbox
