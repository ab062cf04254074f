import Directory.Proofs.Output.Place

/-!
# Room in an outbox

Whoever waits at an outbox waits behind something that can be taken (`Outbox.Tight`), so it is the
output that has to go on, and the output goes on as long as it finds something and nobody holds it in
a pause (`Output.idle_of_stuck`). There is never more in an outbox than it has room for
(`Outbox.Fits`).
-/

namespace Directory

namespace Outbox

variable {α : Type} {o o' : Outbox α} {a : α} {capacity : Nat}

/-- Nobody waits while there is room, and tickets are not given out twice. -/
structure Tight (o : Outbox α) : Prop where
  roomy : 0 < o.capacity
  full : o.waiting ≠ [] → o.capacity ≤ o.items.length
  known : ∀ entry ∈ o.waiting, entry.1 < o.tickets

theorem length_items (o : Outbox α) : o.items.length = o.admitted.length - o.taken :=
  List.length_drop ..

namespace Tight

theorem items_ne_nil (h : o.Tight) (hw : o.waiting ≠ []) : o.items ≠ [] := by
  intro hnil
  have hfull := h.full hw
  rw [hnil] at hfull
  exact absurd (Nat.lt_of_lt_of_le h.roomy hfull) (Nat.lt_irrefl 0)

theorem send (h : o.Tight) (a : α) : (o.send a).2.Tight := by
  unfold Outbox.send
  split
  · exact h
  · split
    next hroom =>
      have hboth : o.waiting = [] ∧ o.items.length < o.capacity := by simpa [hasRoom] using hroom
      exact ⟨h.roomy, fun hw => absurd hboth.1 hw, h.known⟩
    next hroom =>
      refine ⟨h.roomy, fun _ => ?_, ?_⟩
      · show o.capacity ≤ o.items.length
        by_cases hw : o.waiting = []
        · simpa [hasRoom, hw] using hroom
        · exact h.full hw
      · intro entry hmem
        show entry.1 < o.tickets + 1
        rcases List.mem_append.mp hmem with hmem | hmem
        · exact Nat.lt_succ_of_lt (h.known entry hmem)
        · rw [List.mem_singleton.mp hmem]
          exact Nat.lt_succ_self _

/-- The room that the reader makes goes to the writer that has waited longest. -/
theorem take (h : o.Tight) (ht : o.take = (.item a, o')) : o'.Tight := by
  obtain ⟨rest, hitems, rfl⟩ := take_eq_item ht
  obtain ⟨hlt, -⟩ := admitted_of_items hitems
  have hlength := length_items o
  rcases letOldestIn_cases { o with taken := o.taken + 1 } with ⟨hw, hin⟩ | ⟨entry, rest, hw, hin⟩
  · rw [hin]
    exact ⟨h.roomy, fun hne => absurd hw hne, h.known⟩
  · rw [hin]
    have hw' : o.waiting = entry :: rest := hw
    refine ⟨h.roomy, fun _ => ?_, fun other hmem => ?_⟩
    · have hfull := h.full (by rw [hw']; exact List.cons_ne_nil _ _)
      rw [length_items]
      simp only [letIn, List.length_append, List.length_singleton]
      omega
    · exact h.known other (by rw [hw']; exact List.mem_cons_of_mem _ hmem)

theorem close (h : o.Tight) : o.close.Tight := ⟨h.roomy, fun hne => absurd rfl hne, nofun⟩

theorem drains (h : o.Tight) (hd : o.Drains o') : o'.Tight := by
  cases hd with
  | rests => exact h
  | takes ht => exact h.take ht
  | closes ht => exact (h.take ht).close

end Tight

/-- Nobody takes the place of a writer that waits. -/
structure Keeps (o o' : Outbox α) : Prop where
  tickets_le : o.tickets ≤ o'.tickets
  waiting : ∀ entry ∈ o'.waiting, entry.1 < o.tickets → entry ∈ o.waiting

theorem Keeps.send (o : Outbox α) (a : α) : o.Keeps (o.send a).2 := by
  rcases send_cases o a with ⟨hc, hs⟩ | ⟨hc, hw, hs⟩ | ⟨hc, hs⟩
  · rw [hs]
    exact ⟨Nat.le_refl _, fun _ hmem _ => hmem⟩
  · rw [hs]
    exact ⟨Nat.le_refl _, fun _ hmem _ => hmem⟩
  · rw [hs]
    refine ⟨Nat.le_succ _, fun entry hmem hlt => ?_⟩
    rcases List.mem_append.mp hmem with hmem | hmem
    · exact hmem
    · rw [List.mem_singleton.mp hmem] at hlt
      exact absurd hlt (Nat.lt_irrefl _)

theorem Keeps.take (ht : o.take = (.item a, o')) : o.Keeps o' := by
  refine ⟨?_, fun entry hmem _ => waiting_subset_of_take ht hmem⟩
  rcases take_cases ht with ⟨-, rfl⟩ | ⟨entry, rest, -, rfl⟩ <;> exact Nat.le_refl _

theorem Keeps.drains (hd : o.Drains o') : o.Keeps o' := by
  cases hd with
  | rests => exact ⟨Nat.le_refl _, fun _ hmem _ => hmem⟩
  | takes ht => exact .take ht
  | closes ht => exact ⟨(Keeps.take ht).tickets_le, nofun⟩

theorem take_of_nil (h : o.items = []) : o.take = (if o.closed then .ended else .empty, o) := by
  rw [take, h]

theorem eq_of_take {found : Taken α} (ht : o.take = (found, o')) (hf : ∀ a, found ≠ .item a) :
    o' = o := by
  cases hitems : o.items with
  | nil =>
      rw [take_of_nil hitems] at ht
      exact (Prod.mk.inj ht).2.symm
  | cons b rest =>
      rw [take, hitems] at ht
      exact absurd (Prod.mk.inj ht).1.symm (hf b)

theorem taken_of_take (ht : o.take = (.item a, o')) : o'.taken = o.taken + 1 := by
  rcases take_cases ht with ⟨-, rfl⟩ | ⟨entry, rest, -, rfl⟩ <;> rfl

theorem taken_send (o : Outbox α) (a : α) : (o.send a).2.taken = o.taken := by
  rcases send_cases o a with ⟨-, hs⟩ | ⟨-, -, hs⟩ | ⟨-, hs⟩ <;> rw [hs]
  rfl

theorem length_gone (h : o.Sound) : o.gone.length = o.taken := List.length_take_of_le h.taken_le

/-- An outbox with room for so many items, with never more than that in it. -/
structure Fits (capacity : Nat) (o : Outbox α) : Prop where
  sound : o.Sound
  tight : o.Tight
  capacity_eq : o.capacity = capacity
  within : o.items.length ≤ capacity

namespace Fits

theorem start (h : 0 < capacity) : Fits capacity ({ capacity } : Outbox α) :=
  ⟨⟨Nat.zero_le _, fun _ => rfl⟩, ⟨h, fun hne => absurd rfl hne, nofun⟩, rfl, Nat.zero_le _⟩

theorem send (h : o.Fits capacity) (a : α) : (o.send a).2.Fits capacity := by
  refine ⟨h.sound.send a, h.tight.send a, ?_, ?_⟩
  · rcases send_cases o a with ⟨-, hs⟩ | ⟨-, -, hs⟩ | ⟨-, hs⟩ <;> rw [hs]
    · exact h.capacity_eq
    · exact h.capacity_eq
    · exact h.capacity_eq
  · have hwithin := h.within
    unfold Outbox.send
    split
    · exact hwithin
    · split
      next hfree =>
        have hboth : o.waiting = [] ∧ o.items.length < o.capacity := by simpa [hasRoom] using hfree
        have hle := h.sound.taken_le
        have hcapacity := h.capacity_eq
        rw [length_items] at hboth ⊢
        simp only [letIn, List.length_append, List.length_singleton]
        omega
      next => exact hwithin

theorem take (h : o.Fits capacity) (ht : o.take = (.item a, o')) : o'.Fits capacity := by
  refine ⟨h.sound.take ht, h.tight.take ht, ?_, ?_⟩
  · rcases take_cases ht with ⟨-, rfl⟩ | ⟨entry, rest, -, rfl⟩
    · exact h.capacity_eq
    · exact h.capacity_eq
  · obtain ⟨rest, hitems, -⟩ := take_eq_item ht
    obtain ⟨hlt, -⟩ := admitted_of_items hitems
    have hwithin := h.within
    rw [length_items] at hwithin ⊢
    rcases take_cases ht with ⟨-, rfl⟩ | ⟨entry, rest, -, rfl⟩
    · dsimp only
      omega
    · simp only [List.length_append, List.length_singleton]
      omega

theorem close (h : o.Fits capacity) : o.close.Fits capacity :=
  ⟨h.sound.close, h.tight.close, h.capacity_eq, h.within⟩

theorem length_admitted (h : o.Fits capacity) : o.admitted.length ≤ o.gone.length + capacity := by
  have hwithin := h.within
  rw [length_items] at hwithin
  rw [length_gone h.sound]
  omega

/-- Whoever waits, waits because it is full. -/
theorem length_admitted_of_waiting (h : o.Fits capacity) (hw : o.waiting ≠ []) :
    o.admitted.length = o.gone.length + capacity := by
  have hle := h.sound.taken_le
  have hwithin := h.length_admitted
  have hfull := h.tight.full hw
  rw [length_items, h.capacity_eq] at hfull
  rw [length_gone h.sound] at hwithin ⊢
  omega

end Fits

end Outbox

namespace Output

variable {o o' : Output} {act : Act} {events : List Event}

/-- A message being written is not at its end. -/
theorem left_of_turn (ht : Turn o act events o') {c : Channel} {left : Octets}
    (hp : o'.phase = .writing c left) : left ≠ [] := by
  cases ht with
  | discard hm | skip hm | closes hm => cases hm.ready.symm.trans hp
  | start hm =>
      cases hp
      exact List.cons_ne_nil _ _
  | write => exact (writing_of_put hp).2.2
  | _ => cases hp

/-- The output can go on unless it has nothing to take, has finished, or is in a pause that nobody
has ended. -/
theorem idle_of_stuck (hleft : ∀ {c left}, o.phase = .writing c left → left ≠ [])
    (htake : o.step? .take = none) (hwrite : o.step? (.write 1) = none)
    (hresume : o.step? .resume = none) :
    o.phase = .ready ∧ o.outbox.items = [] ∧ o.outbox.closed = false ∨ o.phase = .finished ∨
      ∃ n, o.phase = .paused n ∧ o.pauses[n]?.bind (·.ending) = none := by
  cases hp : o.phase with
  | ready =>
      refine .inl ⟨rfl, ?_⟩
      simp only [step?, hp, takeNext, Outbox.take] at htake
      cases hitems : o.outbox.items with
      | nil =>
          rw [hitems] at htake
          cases hc : o.outbox.closed with
          | false => exact ⟨rfl, rfl⟩
          | true => simp [hc] at htake
      | cons item rest => simp [hitems] at htake
  | writing c left =>
      have hne := hleft hp
      simp only [step?, hp] at hwrite
      cases left with
      | nil => exact absurd rfl hne
      | cons first rest => simp at hwrite
  | paused n =>
      refine .inr (.inr ⟨n, rfl, ?_⟩)
      simp only [step?, hp] at hresume
      split at hresume
      next hnone => exact hnone
      next => cases hresume
      next => cases hresume
  | finished => exact .inr (.inl rfl)

end Output

end Directory
