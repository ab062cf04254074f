import Mathlib.Tactic.Ring
import Directory.Ber.Integer

/-!
# Numbers and the octets that spell them

Length octets spell a natural number in base 256, integer content spells a signed number in two's
complement. Both are written with the fewest octets. The main statements are that what is written
reads back (`value_digits`, `signed_signedDigits`) and how many octets a number needs
(`length_digits_le_iff`, `length_signedDigits_le`).

Everything goes by the last octet: `digits` and `signedDigits` put it on at the end, and both values
take it off there (`value_concat`, `signed_concat`).
-/

namespace Directory.Octets

/-! ## How many runs there are -/

theorem count_le_count {m n : Nat} (h : m ≤ n) : count m ≤ count n := by
  induction h with
  | refl => exact Nat.le_refl _
  | step _ ih => exact ih.trans (Nat.le_mul_of_pos_left _ (by decide))

/-! ## Natural numbers -/

theorem value_concat (bytes : Octets) (b : UInt8) :
    value (bytes ++ [b]) = value bytes * 256 + b.toNat := by
  simp [value, List.foldl_append]

theorem toNat_ofNat_mod (n : Nat) : (UInt8.ofNat (n % 256)).toNat = n % 256 := by
  rw [UInt8.toNat_ofNat']
  omega

theorem digits_zero : digits 0 = [] := by
  rw [digits, if_pos rfl]

theorem digits_of_pos {n : Nat} (h : n ≠ 0) :
    digits n = digits (n / 256) ++ [UInt8.ofNat (n % 256)] := by
  rw [digits, if_neg h]

/-- **What is written reads back.** -/
theorem value_digits (n : Nat) : value (digits n) = n := by
  induction n using digits.induct with
  | case1 => rw [digits_zero]; rfl
  | case2 n h ih =>
      rw [digits_of_pos h, value_concat, ih, toNat_ofNat_mod]
      omega

/-- **No more octets than needed.** A number has at most `k` octets exactly if it is one of those
that `k` octets can spell. -/
theorem length_digits_le_iff {n k : Nat} : (digits n).length ≤ k ↔ n < count k := by
  constructor
  · intro h
    have hlt := value_lt (digits n)
    rw [value_digits] at hlt
    exact hlt.trans_le (count_le_count h)
  · intro h
    induction k generalizing n with
    | zero =>
        have hn : n = 0 := by simpa [count] using h
        rw [hn, digits_zero]
        exact Nat.le_refl 0
    | succ k ih =>
        by_cases hn : n = 0
        · rw [hn, digits_zero]
          exact Nat.zero_le _
        · rw [digits_of_pos hn, List.length_append, List.length_singleton]
          have hdiv : n / 256 < count k := by
            rw [count] at h
            omega
          exact Nat.succ_le_succ (ih hdiv)

theorem digits_ne_nil {n : Nat} (h : n ≠ 0) : digits n ≠ [] := by
  rw [digits_of_pos h]
  exact List.concat_ne_nil _ _

/-! ## Signed numbers -/

/-- The first octet tells the two halves of the numbers of one length apart. -/
theorem two_mul_value_lt_iff (first : UInt8) (more : Octets) :
    2 * value (first :: more) < count (first :: more).length ↔ first < 0x80 := by
  have hmore := value_lt more
  have hfirst : first < 0x80 ↔ first.toNat < 128 := UInt8.lt_iff_toNat_lt
  rw [hfirst, value_cons, List.length_cons, count]
  generalize count more.length = weight at hmore
  constructor
  · intro h
    by_contra hge
    have hle : 128 * weight ≤ first.toNat * weight := Nat.mul_le_mul_right _ (by omega)
    omega
  · intro h
    have hle : (first.toNat + 1) * weight ≤ 128 * weight := Nat.mul_le_mul_right _ (by omega)
    rw [Nat.succ_mul] at hle
    omega

/-- The upper half of the numbers of one length stands for the negative ones. -/
theorem signed_eq {bytes : Octets} (h : bytes ≠ []) :
    signed bytes = if 2 * value bytes < count bytes.length then (value bytes : Int)
      else (value bytes : Int) - (count bytes.length : Nat) := by
  obtain ⟨first, more, rfl⟩ := List.exists_cons_of_ne_nil h
  rw [signed]
  simp only [two_mul_value_lt_iff]

theorem signed_singleton (b : UInt8) :
    signed [b] = if b < 0x80 then (b.toNat : Int) else b.toNat - 256 := by
  simp [signed, value, count]

theorem signed_concat {bytes : Octets} (h : bytes ≠ []) (b : UInt8) :
    signed (bytes ++ [b]) = signed bytes * 256 + b.toNat := by
  obtain ⟨first, rest, rfl⟩ := List.exists_cons_of_ne_nil h
  have hval := value_concat (first :: rest) b
  rw [List.cons_append] at hval ⊢
  simp only [signed, hval]
  split
  · push_cast
    ring
  · simp only [List.length_cons, List.length_append, List.length_nil, count]
    push_cast
    ring

theorem signedDigits_of_small {v : Int} (h : -128 ≤ v ∧ v < 128) :
    signedDigits v = [UInt8.ofNat (v % 256).toNat] := by
  rw [signedDigits, if_pos h]

theorem signedDigits_of_large {v : Int} (h : ¬(-128 ≤ v ∧ v < 128)) :
    signedDigits v = signedDigits (v / 256) ++ [UInt8.ofNat (v % 256).toNat] := by
  rw [signedDigits, if_neg h]

theorem toNat_ofNat_emod (v : Int) : ((UInt8.ofNat (v % 256).toNat).toNat : Int) = v % 256 := by
  rw [UInt8.toNat_ofNat']
  omega

theorem signedDigits_ne_nil (v : Int) : signedDigits v ≠ [] := by
  by_cases h : -128 ≤ v ∧ v < 128
  · rw [signedDigits_of_small h]
    exact List.cons_ne_nil _ _
  · rw [signedDigits_of_large h]
    exact List.concat_ne_nil _ _

/-- **What is written reads back.** -/
theorem signed_signedDigits (v : Int) : signed (signedDigits v) = v := by
  induction v using signedDigits.induct with
  | case1 v h =>
      rw [signedDigits_of_small h, signed_singleton]
      have hb := toNat_ofNat_emod v
      generalize UInt8.ofNat (v % 256).toNat = b at hb
      have hlt : b < 0x80 ↔ b.toNat < 128 := UInt8.lt_iff_toNat_lt
      split
      · rename_i hb'
        rw [hlt] at hb'
        omega
      · rename_i hb'
        rw [hlt] at hb'
        omega
  | case2 v h ih =>
      rw [signedDigits_of_large h, signed_concat (signedDigits_ne_nil _), ih, toNat_ofNat_emod]
      omega

theorem length_signedDigits_le {v : Int} {k : Nat}
    (h : -(128 * count k : Nat) ≤ v ∧ v < (128 * count k : Nat)) :
    (signedDigits v).length ≤ k + 1 := by
  induction k generalizing v with
  | zero =>
      have hsmall : -128 ≤ v ∧ v < 128 := by simpa [count] using h
      rw [signedDigits_of_small hsmall]
      exact Nat.le_refl 1
  | succ k ih =>
      by_cases hv : -128 ≤ v ∧ v < 128
      · rw [signedDigits_of_small hv, List.length_singleton]
        omega
      · rw [signedDigits_of_large hv, List.length_append, List.length_singleton]
        have hdiv : -(128 * count k : Nat) ≤ v / 256 ∧ v / 256 < (128 * count k : Nat) := by
          rw [count] at h
          push_cast at h ⊢
          omega
        exact Nat.succ_le_succ (ih hdiv)

end Directory.Octets
