import Directory.Ber.Integer
import Directory.Proofs.Ber.Number
import Mathlib.Data.List.Induction
import Mathlib.Data.Nat.ModEq

/-!
# Words and the octets that they hold

Numbers are put together and taken apart in words of 64 bits, and what a word loses at its upper
end is gone. Here the loops over words are compared with the numbers that they are meant to be,
which have no limit: pushing octets counts in base 256 modulo 2⁶⁴ (`toNat_pushAll`), and the octets
of a word spell it (`value_octets`). So nothing is lost as long as no more than eight octets are
pushed.

Integer content is then what the signed numbers of `Octets` say. Its word begins as the sign, which
moves up with every octet until it fills what the content leaves (`signed_pushAll`), and trimming
the eight octets of a word gives the shortest ones with the same value (`trim_eq_signedDigits`).
-/

namespace Directory

open Octets

namespace Word

/-! ## Words as numbers -/

/-- What was there counts 256 times, and what does not fit is lost. -/
theorem toNat_push (w : Word) (b : UInt8) :
    (push w b).toNat = (w.toNat * 256 + b.toNat) % 2 ^ 64 := by
  have hb := b.toNat_lt
  have hshift : (w <<< 8).toNat = w.toNat * 256 % 2 ^ 64 := by
    rw [UInt64.toNat_shiftLeft, Nat.shiftLeft_eq]
    rfl
  -- The lowest eight bits of the moved word are free, so that the octet is added to it.
  have hfree : w.toNat * 256 % 2 ^ 64 = 2 ^ 8 * (w.toNat % 2 ^ 56) := by omega
  rw [push, UInt64.toNat_or, UInt8.toNat_toUInt64, hshift, hfree, ← Nat.two_pow_add_eq_or_of_lt hb]
  omega

/-- **Pushing octets counts in base 256**, modulo what a word can hold. -/
theorem toNat_pushAll (w : Word) (bytes : Octets) :
    (pushAll w bytes).toNat = (w.toNat * count bytes.length + value bytes) % 2 ^ 64 := by
  induction bytes generalizing w with
  | nil =>
      have hw := w.toNat_lt
      simp only [pushAll, List.foldl_nil, List.length_nil, count, value]
      omega
  | cons b rest ih =>
      have hpush : pushAll w (b :: rest) = pushAll (push w b) rest := rfl
      rw [hpush, ih, toNat_push, value_cons, List.length_cons, count]
      have hmod := ((Nat.mod_modEq (w.toNat * 256 + b.toNat) (2 ^ 64)).mul_right
        (count rest.length)).add_right (value rest)
      refine hmod.trans ?_
      rw [Nat.add_mul, Nat.mul_assoc, Nat.add_assoc]

theorem count_eight : count 8 = 2 ^ 64 := by decide

theorem toNat_pushAll_zero {bytes : Octets} (h : bytes.length ≤ 8) :
    (pushAll 0 bytes).toNat = value bytes := by
  have hlt := value_lt bytes
  have hle := count_le_count h
  rw [count_eight] at hle
  rw [toNat_pushAll, UInt64.toNat_zero]
  omega

theorem length_octets (k : Nat) (w : Word) : (octets k w).length = k := by
  induction k generalizing w with
  | zero => rfl
  | succ k ih => rw [octets, List.length_append, ih, List.length_singleton]

theorem toNat_shiftRight_eight (w : Word) : (w >>> 8).toNat = w.toNat / 256 := by
  rw [UInt64.toNat_shiftRight, Nat.shiftRight_eq_div_pow]
  rfl

/-- **The octets of a word spell it**, as far as they reach. -/
theorem value_octets (k : Nat) (w : Word) : value (octets k w) = w.toNat % count k := by
  induction k generalizing w with
  | zero => rw [octets, count, Nat.mod_one]; rfl
  | succ k ih =>
      rw [octets, value_concat, ih, toNat_shiftRight_eight, UInt64.toNat_toUInt8, count,
        Nat.mod_mul]
      omega

theorem dropWhile_octets {k : Nat} {w : Word} (h : w.toNat < count k) :
    (octets k w).dropWhile (· == 0) = digits w.toNat := by
  induction k generalizing w with
  | zero =>
      have hzero : w.toNat = 0 := by
        rw [count] at h
        omega
      rw [hzero, digits_zero]
      rfl
  | succ k ih =>
      have hrest : (w >>> 8).toNat < count k := by
        rw [toNat_shiftRight_eight]
        rw [count] at h
        omega
      have hlow : w.toUInt8 = UInt8.ofNat (w.toNat % 256) := by
        rw [← UInt8.toNat_inj, toNat_ofNat_mod, UInt64.toNat_toUInt8]
      rw [octets, List.dropWhile_append, ih hrest, toNat_shiftRight_eight]
      by_cases hzero : w.toNat = 0
      · have hbyte : w.toUInt8 = 0 := by rw [hlow, hzero]; rfl
        rw [hzero, hbyte, digits_zero]
        rfl
      · rw [digits_of_pos hzero, ← hlow]
        by_cases hsmall : w.toNat / 256 = 0
        · -- One octet is left, and it is not zero.
          have hbyte : w.toUInt8 ≠ 0 := by
            intro heq
            rw [← UInt8.toNat_inj, UInt64.toNat_toUInt8] at heq
            change w.toNat % 256 = 0 at heq
            omega
          rw [hsmall, digits_zero]
          simp [hbyte]
        · rw [if_neg (by simpa using digits_ne_nil hsmall)]

/-! ## Words as signed numbers -/

theorem signed_eq (w : Word) :
    w.signed = if 2 * w.toNat < 2 ^ 64 then (w.toNat : Int) else (w.toNat : Int) - 2 ^ 64 := by
  have hint : w.signed = w.toBitVec.toInt := rfl
  rw [hint, BitVec.toInt_eq_toNat_cond]
  rfl

theorem signed_bounds (w : Word) : -(2 ^ 63) ≤ w.signed ∧ w.signed < 2 ^ 63 :=
  ⟨Int64.le_toInt _, Int64.toInt_lt _⟩

theorem signed_ofSigned {v : Int} (h : -(2 ^ 63) ≤ v ∧ v < 2 ^ 63) : (ofSigned v).signed = v := by
  rw [ofSigned, signed, Int64.toInt64_toUInt64]
  exact Int64.toInt_ofInt_of_le h.1 h.2

/-- The eight octets of a word are its number in two's complement. -/
theorem signed_octets (w : Word) : Octets.signed (octets 8 w) = w.signed := by
  have hne : octets 8 w ≠ [] := List.concat_ne_nil _ _
  have hlt := w.toNat_lt
  rw [Octets.signed_eq hne, signed_eq, value_octets, length_octets, count_eight,
    Nat.mod_eq_of_lt hlt]
  rfl

end Word

namespace Ber.Integer

/-! ## Reading -/

theorem isNegative_eq (b : UInt8) : isNegative b = !decide (b < 0x80) := by
  have hbit : b &&& 0x80 = 0 ↔ b < 0x80 := by
    rw [← UInt8.toBitVec_inj, UInt8.lt_iff_toBitVec_lt]
    change b.toBitVec &&& 0x80#8 = 0#8 ↔ b.toBitVec < 0x80#8
    generalize b.toBitVec = bits
    revert bits
    decide
  rw [isNegative, bne, beq_eq_decide]
  simp only [hbit]

theorem toNat_signWord {content : Octets} (hne : content ≠ []) :
    (signWord content).toNat =
      if 2 * value content < count content.length then 0 else 2 ^ 64 - 1 := by
  obtain ⟨first, more, rfl⟩ := List.exists_cons_of_ne_nil hne
  simp only [two_mul_value_lt_iff]
  rw [signWord, isNegative_eq]
  by_cases hfirst : first < 0x80
  · rw [if_pos hfirst, decide_eq_true hfirst]
    rfl
  · rw [if_neg hfirst, decide_eq_false hfirst]
    rfl

/-- **The sign fills what the content leaves of the word**, and nothing else moves out of it. -/
theorem signed_pushAll {content : Octets} (hne : content ≠ []) (h : content.length ≤ 8) :
    (Word.pushAll (signWord content) content).signed = Octets.signed content := by
  have hlt := value_lt content
  have hle := count_le_count h
  rw [Word.count_eight] at hle
  rw [Word.signed_eq, Word.toNat_pushAll, Octets.signed_eq hne, toNat_signWord hne]
  generalize value content = n at hlt
  generalize count content.length = weight at hlt hle
  by_cases hlow : 2 * n < weight
  · rw [if_pos hlow, if_pos hlow, Nat.zero_mul, Nat.zero_add, Nat.mod_eq_of_lt (by omega),
      if_pos (by omega)]
  · have hword : ((2 ^ 64 - 1) * weight + n) % 2 ^ 64 = 2 ^ 64 - (weight - n) := by omega
    rw [if_neg hlow, if_neg hlow, hword, if_neg (by omega)]
    omega

/-- Content of one to eight octets spells a number. -/
theorem ofContent_of_fits {content : Octets} (hne : content ≠ [])
    (h : content.length ≤ maxOctets) : ofContent content = .ok (Octets.signed content) := by
  rw [ofContent, List.isEmpty_eq_false_iff.mpr hne, Bool.false_or,
    if_neg (by simpa using h), signed_pushAll hne h]

theorem ofContent_of_not_fits {content : Octets} (h : content = [] ∨ maxOctets < content.length) :
    ofContent content = .error .invalidInteger := by
  rw [ofContent, if_pos]
  simpa using h

theorem bounds_of_ofContent {content : Octets} {v : Int} (h : ofContent content = .ok v) :
    -(2 ^ 63) ≤ v ∧ v < 2 ^ 63 := by
  unfold ofContent at h
  split at h
  · cases h
  · cases h
    exact Word.signed_bounds _

/-! ## Writing -/

/-- The octet that only repeats the sign of `next`. -/
def signOctet (next : UInt8) : UInt8 := if next < 0x80 then 0x00 else 0xFF

theorem isRedundant_iff {b next : UInt8} : isRedundant b next = true ↔ b = signOctet next := by
  rw [isRedundant, isNegative_eq, signOctet]
  by_cases hnext : next < 0x80
  · rw [if_pos hnext, decide_eq_true hnext]
    simp
  · rw [if_neg hnext, decide_eq_false hnext]
    simp

/-- **An octet that only repeats the sign** makes no difference. -/
theorem signed_cons_signOctet (next : UInt8) (rest : Octets) :
    Octets.signed (signOctet next :: next :: rest) = Octets.signed (next :: rest) := by
  have hlength : (signOctet next :: next :: rest).length = (next :: rest).length + 1 := rfl
  simp only [Octets.signed]
  rw [value_cons, hlength, count, signOctet]
  by_cases hnext : next < 0x80
  · rw [if_pos hnext, if_pos hnext, if_pos (by decide)]
    simp
  · have hff : (0xFF : UInt8).toNat = 255 := rfl
    rw [if_neg hnext, if_neg hnext, if_neg (by decide), hff]
    push_cast
    ring

theorem signed_trim (bytes : Octets) : Octets.signed (trim bytes) = Octets.signed bytes := by
  fun_induction trim bytes with
  | case1 b next rest h ih => rw [ih, isRedundant_iff.mp h, signed_cons_signOctet]
  | case2 => rfl
  | case3 => rfl

theorem trim_ne_nil {bytes : Octets} (h : bytes ≠ []) : trim bytes ≠ [] := by
  fun_induction trim bytes with
  | case1 b next rest hredundant ih => exact ih (List.cons_ne_nil _ _)
  | case2 => exact h
  | case3 => exact h

/-- No octet in front only repeats the sign. -/
def IsTrimmed (bytes : Octets) : Prop :=
  ∀ b next rest, bytes = b :: next :: rest → b ≠ signOctet next

theorem isTrimmed_trim (bytes : Octets) : IsTrimmed (trim bytes) := by
  fun_induction trim bytes with
  | case1 b next rest h ih => exact ih
  | case2 b next rest h =>
      rintro _ _ _ ⟨⟩
      exact mt isRedundant_iff.mpr h
  | case3 bytes h =>
      intro b next rest heq
      exact absurd heq (h b next rest)

theorem IsTrimmed.front {front : Octets} {b : UInt8} (h : IsTrimmed (front ++ [b])) :
    IsTrimmed front := by
  rintro first next rest rfl
  exact h first next (rest ++ [b]) rfl

/-- What is in front of the last of trimmed octets counts: it is more than the sign of that one. -/
theorem IsTrimmed.large {front : Octets} {b : UInt8} (h : IsTrimmed (front ++ [b]))
    (hdigits : signedDigits (Octets.signed front) = front) :
    ¬(-128 ≤ Octets.signed front * 256 + b.toNat ∧
      Octets.signed front * 256 + b.toNat < 128) := by
  intro hsmall
  have hb := b.toNat_lt
  have hhalf : b < 0x80 ↔ b.toNat < 128 := UInt8.lt_iff_toNat_lt
  have hsign : front = [signOctet b] := by
    rw [← hdigits, signOctet]
    by_cases hlow : b < 0x80
    · have hzero : Octets.signed front = 0 := by
        rw [hhalf] at hlow
        omega
      rw [if_pos hlow, hzero, signedDigits_of_small (by decide)]
      rfl
    · have hones : Octets.signed front = -1 := by
        rw [hhalf] at hlow
        omega
      rw [if_neg hlow, hones, signedDigits_of_small (by decide)]
      rfl
  rw [hsign] at h
  exact h (signOctet b) b [] rfl rfl

theorem signedDigits_singleton (b : UInt8) : signedDigits (Octets.signed [b]) = [b] := by
  have hb := b.toNat_lt
  have hhalf : b < 0x80 ↔ b.toNat < 128 := UInt8.lt_iff_toNat_lt
  rw [signed_singleton]
  by_cases hlow : b.toNat < 128
  · have hsame : ((b.toNat : Int) % 256).toNat = b.toNat := by omega
    rw [if_pos (hhalf.mpr hlow), signedDigits_of_small (by omega), hsame, UInt8.ofNat_toNat]
  · have hsame : (((b.toNat : Int) - 256) % 256).toNat = b.toNat := by omega
    rw [if_neg (mt hhalf.mp hlow), signedDigits_of_small (by omega), hsame, UInt8.ofNat_toNat]

theorem IsTrimmed.signedDigits_eq {bytes : Octets} (hne : bytes ≠ []) (h : IsTrimmed bytes) :
    signedDigits (Octets.signed bytes) = bytes := by
  -- By the last octet, as the digits are made.
  induction bytes using List.reverseRecOn with
  | nil => exact absurd rfl hne
  | append_singleton front b ih =>
      by_cases hfront : front = []
      · rw [hfront]
        exact signedDigits_singleton b
      · have hb := b.toNat_lt
        have hdigits := ih hfront h.front
        have hdiv : (Octets.signed front * 256 + (b.toNat : Int)) / 256 = Octets.signed front := by
          omega
        have hmod : ((Octets.signed front * 256 + (b.toNat : Int)) % 256).toNat = b.toNat := by
          omega
        rw [signed_concat hfront, signedDigits_of_large (h.large hdigits), hdiv, hmod, hdigits,
          UInt8.ofNat_toNat]

/-- **Trimming leaves the shortest octets of a number.** -/
theorem trim_eq_signedDigits {bytes : Octets} (h : bytes ≠ []) :
    trim bytes = signedDigits (Octets.signed bytes) := by
  rw [← signed_trim, (isTrimmed_trim bytes).signedDigits_eq (trim_ne_nil h)]

theorem content_eq {v : Int} (h : -(2 ^ 63) ≤ v ∧ v < 2 ^ 63) : content v = signedDigits v := by
  have hne : Word.octets 8 (Word.ofSigned v) ≠ [] := List.concat_ne_nil _ _
  rw [content, trim_eq_signedDigits hne, Word.signed_octets, Word.signed_ofSigned h]

end Ber.Integer

end Directory
