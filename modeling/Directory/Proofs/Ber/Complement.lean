import Directory.Proofs.Ber.Shortest

/-!
# Two's complement

Integer content and the numbers from `-2⁶³` to `2⁶³ - 1`. The first octet of content carries its
sign, and copies of the sign in front of it are padding: they are read, change nothing and are never
written (`signed_pad`). Padding is the only freedom there is, so that every number has one content
without it, which is the one that is written and shorter than all others (`length_content_lt`).
-/

namespace Directory.Ber

open Octets

namespace Integer

/-- Content with copies of its sign in front. -/
def pad (copies : Nat) (first : UInt8) (more : Octets) : Octets :=
  List.replicate copies (signOctet first) ++ first :: more

theorem signOctet_signOctet (first : UInt8) : signOctet (signOctet first) = signOctet first := by
  rw [signOctet.eq_def first]
  split
  · rfl
  · rfl

theorem length_pad (copies : Nat) (first : UInt8) (more : Octets) :
    (pad copies first more).length = copies + (first :: more).length := by
  rw [pad, List.length_append, List.length_replicate]

/-- **Padding changes nothing.** -/
theorem signed_pad (copies : Nat) (first : UInt8) (more : Octets) :
    Octets.signed (pad copies first more) = Octets.signed (first :: more) := by
  induction copies with
  | zero => rfl
  | succ copies ih =>
      rw [← ih]
      -- Behind the new octet stands either another copy or the content itself.
      cases copies with
      | zero => exact signed_cons_signOctet first more
      | succ copies =>
          have hcopy := signed_cons_signOctet (signOctet first) (pad copies first more)
          rw [signOctet_signOctet] at hcopy
          exact hcopy

theorem ofContent_pad {copies : Nat} {first : UInt8} {more : Octets}
    (h : (pad copies first more).length ≤ maxOctets) :
    ofContent (pad copies first more) = ofContent (first :: more) := by
  have hlength := length_pad copies first more
  have hne : pad copies first more ≠ [] :=
    List.append_ne_nil_of_right_ne_nil _ (List.cons_ne_nil _ _)
  rw [ofContent_of_fits hne h, signed_pad, ofContent_of_fits (List.cons_ne_nil _ _) (by omega)]

/-- All other content that is read as the same number is longer than what is written. -/
theorem length_content_lt {other : Octets} {v : Int} (h : ofContent other = .ok v)
    (hne : other ≠ content v) : (content v).length < other.length := by
  have hshortens := Grammar.shortens_content (Grammar.integerContent_iff.mpr h)
  apply Nat.lt_of_le_of_ne hshortens.length_le
  intro hlength
  exact hne (hshortens.eq_of_length_eq hlength).symm

end Integer

theorem integerElement_eq (tag : UInt8) {v : Int} (h : (Integer.content v).length ≤ 8) :
    integerElement tag v =
      tag :: UInt8.ofNat (Integer.content v).length :: Integer.content v := by
  rw [integerElement, element, Header.lengthOctets, if_pos (by omega), List.singleton_append]

namespace Integer

/-- **Integer content is two's complement, and the shortest is written.** Content of one to eight
octets is read as the number that it spells, and that is one of 64 bits, so that nothing is lost;
all other content is refused. Padding with the sign changes nothing. What is written for a number of
64 bits, with whatever tag, holds content that is read as this number, and all other content that is
read so is longer. -/
theorem complement_and_shortest :
    (∀ content : Octets, 1 ≤ content.length → content.length ≤ 8 →
      ofContent content = .ok (Octets.signed content) ∧
        -(2 ^ 63) ≤ Octets.signed content ∧ Octets.signed content < 2 ^ 63) ∧
    (∀ content : Octets, content.length = 0 ∨ 8 < content.length →
      ofContent content = .error .invalidInteger) ∧
    (∀ (copies : Nat) (first : UInt8) (more : Octets), (pad copies first more).length ≤ 8 →
      ofContent (pad copies first more) = ofContent (first :: more)) ∧
    ∀ (tag : UInt8) (v : Int64), ∃ written : Octets,
      integerElement tag v.toInt = tag :: UInt8.ofNat written.length :: written ∧
      1 ≤ written.length ∧ written.length ≤ 8 ∧ ofContent written = .ok v.toInt ∧
      ∀ other, ofContent other = .ok v.toInt → other ≠ written →
        written.length < other.length := by
  refine ⟨?_, ?_, ?_, ?_⟩
  · intro content hone height
    have hread := ofContent_of_fits (List.length_pos_iff.mp hone) height
    exact ⟨hread, bounds_of_ofContent hread⟩
  · intro content hlength
    rw [List.length_eq_zero_iff] at hlength
    exact ofContent_of_not_fits hlength
  · intro copies first more hlength
    exact ofContent_pad hlength
  · intro tag v
    have hread := Reader.ofContent_content ⟨v.le_toInt, v.toInt_lt⟩
    obtain ⟨hne, hle, -⟩ := Reader.ofContent_eq_ok.mp hread
    refine ⟨content v.toInt, integerElement_eq tag hle, List.length_pos_iff.mpr hne, hle, hread,
      ?_⟩
    intro other hother hdiffers
    exact length_content_lt hother hdiffers

/-- The number -129 is spelled by `FF 7F`, also behind six more octets `FF`, but not behind seven.
Of its forms the one of two octets is written. -/
theorem complement_of_negative :
    ofContent [0xFF, 0x7F] = .ok (-129) ∧
      ofContent (pad 6 0xFF [0x7F]) = .ok (-129) ∧
      ofContent (pad 7 0xFF [0x7F]) = .error .invalidInteger ∧
      integerElement 0x02 (-129) = [0x02, 0x02, 0xFF, 0x7F] ∧
      [0xFF, 0x7F].length < (pad 1 0xFF [0x7F]).length := by
  obtain ⟨hspelled, hrefused, hpadded, hwritten⟩ := complement_and_shortest
  have hvalue : Octets.signed [0xFF, 0x7F] = -129 := by decide
  have hread := (hspelled [0xFF, 0x7F] (by decide) (by decide)).1
  rw [hvalue] at hread
  have hsix := (hpadded 6 0xFF [0x7F] (by decide)).trans hread
  have hone := (hpadded 1 0xFF [0x7F] (by decide)).trans hread
  have helement : integerElement 0x02 (-129) = [0x02, 0x02, 0xFF, 0x7F] := by decide +kernel
  obtain ⟨written, hbytes, -, -, -, hshortest⟩ := hwritten 0x02 (Int64.ofInt (-129))
  have hnumber : (Int64.ofInt (-129)).toInt = -129 := by decide
  rw [hnumber] at hbytes hshortest
  have hsame : written = [0xFF, 0x7F] := by
    rw [helement, List.cons.injEq, List.cons.injEq] at hbytes
    exact hbytes.2.2.symm
  rw [hsame] at hshortest
  exact ⟨hread, hsix, hrefused _ (.inr (by decide)), helement, hshortest _ hone (by decide)⟩

end Integer

end Directory.Ber
