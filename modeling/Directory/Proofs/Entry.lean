/-!
# Lists that change at one place

Calls, guards, requests and pauses stand in lists and are named by their number there, so most steps
replace or modify one entry of a list. What is said of the others, or of a part of the entry that is
left as it is, goes on to hold.
-/

namespace Directory

variable {α β : Type} {as : List α} {a b : α} {i n : Nat}

theorem mem_set_of_ne (h : as[i]? = some a) (hb : b ∈ as) (hne : b ≠ a) (c : α) :
    b ∈ as.set i c := by
  obtain ⟨j, hj⟩ := List.mem_iff_getElem?.mp hb
  have hij : i ≠ j := by
    rintro rfl
    rw [h] at hj
    cases hj
    exact hne rfl
  refine List.mem_iff_getElem?.mpr ⟨j, ?_⟩
  rw [List.getElem?_set_ne hij]
  exact hj

theorem countP_set_add {p : α → Bool} (h : as[i]? = some a) (b : α) :
    (as.set i b).countP p + (p a).toNat = as.countP p + (p b).toNat := by
  obtain ⟨hi, rfl⟩ := List.getElem?_eq_some_iff.mp h
  rw [List.countP_set hi]
  cases ha : p as[i] with
  | false => cases hb : p b <;> simp
  | true =>
      have hpos : 0 < as.countP p := List.countP_pos_iff.mpr ⟨as[i], List.getElem_mem hi, ha⟩
      cases hb : p b
      · simp only [if_true, Bool.toNat_true, Bool.toNat_false, Bool.false_eq_true, if_false]
        omega
      · simp only [if_true, Bool.toNat_true]
        omega

theorem map_modify_of_eq {f : α → α} {g : α → β} (hf : ∀ a, g (f a) = g a) (as : List α) (i : Nat) :
    (as.modify i f).map g = as.map g := by
  apply List.ext_getElem?
  intro n
  rw [List.getElem?_map, List.getElem?_map, List.getElem?_modify]
  cases as[n]? with
  | none => rfl
  | some a => by_cases hn : i = n <;> simp [hn, hf]

theorem any_modify {p : α → Bool} {f : α → α} (hf : ∀ a, p a = true → p (f a) = true) (i : Nat)
    (h : as[n]?.any p = true) : (as.modify i f)[n]?.any p = true := by
  obtain ⟨a, ha, hp⟩ := (Option.any_eq_true _ _).mp h
  rw [List.getElem?_modify, ha]
  by_cases hi : i = n
  · simpa [hi] using hf a hp
  · simpa [hi] using hp

end Directory
