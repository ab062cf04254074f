import Directory.Proofs.Ber.Grammar
import Mathlib.Data.List.Basic

/-!
# The shortest octets for an element

The grammar has many runs of octets for one element: length octets and integer content may be padded.
`Octets.Shortens` compares two runs of which the first is to be the shortest one: it is no longer than
the second, and as long only if it is the second. The relation goes through concatenation
(`Shortens.append`), and it goes through elements (`shortens_element`), for the length octets of less
content are no more than those of more content.

So what is written for a number, a length, an integer or a text is the shortest form of it, and the
only one of its length.
-/

namespace Directory

namespace Octets

/-- The first octets are no more than the second, and as many only if they are the same. -/
structure Shortens (short long : Octets) : Prop where
  length_le : short.length ≤ long.length
  eq_of_length_eq : short.length = long.length → short = long

namespace Shortens

variable {a b c d e f : Octets}

theorem refl (a : Octets) : Shortens a a := ⟨Nat.le_refl _, fun _ => rfl⟩

theorem of_length_lt (h : a.length < b.length) : Shortens a b :=
  ⟨Nat.le_of_lt h, fun heq => absurd heq (Nat.ne_of_lt h)⟩

theorem nil (b : Octets) : Shortens [] b :=
  ⟨Nat.zero_le _, fun h => (List.eq_nil_of_length_eq_zero h.symm).symm⟩

theorem append (h : Shortens a b) (h' : Shortens c d) : Shortens (a ++ c) (b ++ d) := by
  have hfirst := h.length_le
  have hsecond := h'.length_le
  constructor
  · rw [List.length_append, List.length_append]
    omega
  · intro heq
    rw [List.length_append, List.length_append] at heq
    rw [h.eq_of_length_eq (by omega), h'.eq_of_length_eq (by omega)]

theorem append_append (h : Shortens a b) (h' : Shortens c d) (h'' : Shortens e f) :
    Shortens (a ++ c ++ e) (b ++ (d ++ f)) := by
  rw [List.append_assoc]
  exact h.append (h'.append h'')

/-- What is left out is shorter than anything in its place. -/
theorem append_right (h : Shortens a b) (dropped : Octets) : Shortens a (b ++ dropped) := by
  have happend := h.append (nil dropped)
  rwa [List.append_nil] at happend

end Shortens

/-! ## Numbers -/

theorem eq_of_value_eq {a b : Octets} (hlength : a.length = b.length) (h : value a = value b) :
    a = b := by
  -- By the last octet: it is what is left of the number when it is divided by 256.
  induction a using List.reverseRecOn generalizing b with
  | nil => exact (List.eq_nil_of_length_eq_zero hlength.symm).symm
  | append_singleton front last ih =>
      rcases List.eq_nil_or_concat' b with rfl | ⟨front', last', rfl⟩
      · simp at hlength
      · rw [value_concat, value_concat] at h
        have hlast := last.toNat_lt
        have hlast' := last'.toNat_lt
        have hfront : front = front' := ih (by simpa using hlength) (by omega)
        have hsame : last = last' := UInt8.toNat_inj.mp (by omega)
        rw [hfront, hsame]

theorem shortens_digits (bytes : Octets) : Shortens (digits (value bytes)) bytes :=
  ⟨length_digits_le_iff.mpr (value_lt bytes), fun h => eq_of_value_eq h (value_digits _)⟩

theorem length_digits_mono {m n : Nat} (h : m ≤ n) : (digits m).length ≤ (digits n).length :=
  length_digits_le_iff.mpr (Nat.lt_of_le_of_lt h (length_digits_le_iff.mp (Nat.le_refl _)))

theorem signed_bounds (first : UInt8) (more : Octets) :
    -(128 * count more.length : Nat) ≤ signed (first :: more) ∧
      signed (first :: more) < (128 * count more.length : Nat) := by
  have hlt := value_lt (first :: more)
  rw [signed_eq (List.cons_ne_nil _ _)]
  rw [List.length_cons, count] at hlt ⊢
  split
  · omega
  · omega

theorem eq_of_signed_eq {a b : Octets} (hlength : a.length = b.length) (h : signed a = signed b) :
    a = b := by
  cases a with
  | nil => exact (List.eq_nil_of_length_eq_zero hlength.symm).symm
  | cons first more =>
      cases b with
      | nil => simp at hlength
      | cons first' more' =>
          -- The two values differ by nothing, or by all that so many octets can spell.
          have hlt := value_lt (first :: more)
          have hlt' := value_lt (first' :: more')
          rw [← hlength] at hlt'
          refine eq_of_value_eq hlength ?_
          simp only [signed, ← hlength] at h
          split at h <;> split at h <;> omega

theorem shortens_signedDigits {bytes : Octets} (h : bytes ≠ []) :
    Shortens (signedDigits (signed bytes)) bytes := by
  obtain ⟨first, more, rfl⟩ := List.exists_cons_of_ne_nil h
  exact ⟨length_signedDigits_le (signed_bounds first more),
    fun heq => eq_of_signed_eq heq (signed_signedDigits _)⟩

end Octets

namespace Grammar

open Octets

variable {bytes content size form : Octets} {tag : UInt8} {n : Nat} {v : Int}

/-! ## Lengths -/

theorem length_lengthOctets_mono {m n : Nat} (h : m ≤ n) :
    (Ber.Header.lengthOctets m).length ≤ (Ber.Header.lengthOctets n).length := by
  have hmono := length_digits_mono h
  unfold Ber.Header.lengthOctets
  split
  · split <;> simp
  · rw [if_neg (by omega), List.length_cons, List.length_cons]
    omega

/-- What is written for a length is the shortest form of it. -/
theorem shortens_lengthOctets (h : LengthForm size n) :
    Shortens (Ber.Header.lengthOctets n) size := by
  cases h with
  | @short b hb =>
      rw [Ber.Header.lengthOctets, if_pos hb, UInt8.ofNat_toNat]
      exact .refl _
  | @long b spelled n hb hone hfour hn =>
      obtain rfl := numeral_iff.mp hn
      by_cases hshort : value spelled < 0x80
      · -- The short form is one octet, and the long form has two at least.
        rw [Ber.Header.lengthOctets, if_pos hshort]
        refine .of_length_lt ?_
        rw [List.length_singleton, List.length_cons]
        omega
      · obtain ⟨hle, heq⟩ := shortens_digits spelled
        rw [Ber.Header.lengthOctets, if_neg hshort]
        refine ⟨by simpa using hle, fun hlength => ?_⟩
        have hsame := heq (by simpa using hlength)
        rw [hsame, ← hb, UInt8.ofNat_toNat]

/-! ## Elements -/

/-- **What is written for shorter content is shorter** than any element that holds the longer one. -/
theorem shortens_element {short : Octets} (h : ElementForm tag content form)
    (hshort : Shortens short content) : Shortens (Ber.element tag short) form := by
  obtain ⟨-, hsize⟩ := h
  rename_i size
  have hwritten := shortens_lengthOctets hsize
  have hmono := length_lengthOctets_mono hshort.length_le
  have hcontent := hshort.length_le
  have hle := hwritten.length_le
  constructor
  · rw [Ber.length_element, List.length_cons, List.length_append]
    omega
  · intro hlength
    rw [Ber.length_element, List.length_cons, List.length_append] at hlength
    obtain rfl := hshort.eq_of_length_eq (by omega)
    rw [Ber.element, hwritten.eq_of_length_eq (by omega)]

theorem short_of_elementForm (h : ElementForm tag content form) : Ber.Short content := by
  obtain ⟨-, -, -, -, hshort, -⟩ := Ber.Reader.append_of_split (split_of_elementForm h [])
  exact hshort

theorem shortens_content (h : IntegerContent content v) :
    Shortens (Ber.Integer.content v) content := by
  have hne : content ≠ [] := List.length_pos_iff.mp h.one_le
  rw [Ber.Integer.content_eq (bounds_of_integerContent h)]
  obtain rfl := (complement_iff hne).mp h.spells
  exact shortens_signedDigits hne

theorem shortens_integerElement (h : IntegerForm tag v form) :
    Shortens (Ber.integerElement tag v) form := by
  obtain ⟨content, helement, hcontent⟩ := h
  exact shortens_element helement (shortens_content hcontent)

theorem shortens_textElement {s : String} (h : TextForm tag s form) :
    Shortens (Ber.textElement tag s) form := shortens_element h (.refl _)

theorem shortens_optionalElement {c : Option Octets} (h : OptionalForm tag c form) :
    Shortens (Ber.optionalElement tag c) form := by
  cases h with
  | absent => exact .refl []
  | present helement => exact shortens_element helement (.refl _)

end Grammar

end Directory
