import Directory.Proofs.Ber.Shortest

/-!
# Headers, written and read

A header is a tag and the octets of a length. Below 2³² what is written as a header is read back,
with its own size, and no octet too early: short of its end it is not yet a header
(`read_of_front`). From there on the octets are refused, for reading takes four octets of a number
and writing goes on up to eight (`read_of_long`).

Whatever is read as a header is small, and nothing behind it makes a difference
(`Header.read_append`).
-/

namespace Directory.Ber.Header

open Octets

theorem length_digits_of_long {n : Nat} (h : 2 ^ 32 ≤ n) (hword : n < 2 ^ 64) :
    5 ≤ (digits n).length ∧ (digits n).length ≤ 8 := by
  refine ⟨five_le_length_digits h, ?_⟩
  rw [length_digits_le_iff, Word.count_eight]
  exact hword

/-- The long form of a number is its word without the zeros in front, behind their count. -/
theorem lengthOctets_of_word {w : Word} (h : 0x80 ≤ w.toNat) :
    lengthOctets w.toNat =
      UInt8.ofNat (0x80 + ((Word.octets 8 w).dropWhile (· == 0)).length) ::
        (Word.octets 8 w).dropWhile (· == 0) := by
  have hfits : w.toNat < count 8 := by
    rw [Word.count_eight]
    exact w.toNat_lt
  rw [lengthOctets, if_neg (Nat.not_lt_of_le h), Word.dropWhile_octets hfits]

/-- **More than four octets are refused**, with their number, whatever follows. -/
theorem read_of_long {tag : UInt8} {n : Nat} (htag : isHighTag tag = false) (h : 2 ^ 32 ≤ n)
    (hword : n < 2 ^ 64) (rest : Octets) :
    read (tag :: (lengthOctets n ++ rest)) = .error (.lengthTooLong (digits n).length) := by
  obtain ⟨hfive, height⟩ := length_digits_of_long h hword
  have hmax : maxLengthOctets = 4 := rfl
  have hfirst : (UInt8.ofNat (0x80 + (digits n).length)).toNat = 0x80 + (digits n).length :=
    toNat_longForm (by omega)
  have hlength : readLength (lengthOctets n ++ rest) =
      .error (.lengthTooLong (digits n).length) := by
    rw [lengthOctets, if_neg (by omega), List.cons_append]
    simp only [readLength, hfirst, Nat.add_sub_cancel_left]
    rw [if_neg (by omega), if_neg (by omega), if_pos (by omega)]
  rw [read, htag, hlength]
  rfl

/-- What is written for a length is the shortest of all that is read as it. -/
theorem length_lengthOctets_lt {bytes : Octets} {h : Header} (hread : read bytes = .ok (some h)) :
    (lengthOctets h.contentSize).length < h.size := by
  obtain ⟨size, more, -, hsize, -, hform⟩ := Grammar.lengthForm_of_read hread
  have hle := (Grammar.shortens_lengthOctets hform).length_le
  omega

/-- Short of its end a header is incomplete: otherwise the same header would be read there. -/
theorem read_of_front {bytes front : Octets} {h : Header} (hread : read bytes = .ok (some h))
    (hfront : front <+: bytes) (hshort : front.length < h.size) : read front = .ok none := by
  obtain ⟨back, rfl⟩ := hfront
  by_contra hne
  rw [read_append rfl hne] at hread
  have hall := (read_bounds hread).1
  omega

/-- **Headers and length octets invert each other** up to four octets. A length below 2³² is read
back with any low tag and whatever follows; one from there to 2⁶⁴ is refused with the number of its
octets. The long form is a word without the zeros in front, and nothing shorter is read as the same
length. Every front of a written header is incomplete. What is read as a header has two to six
octets, and the size of its element is a number of 64 bits. An answer stands whatever follows. -/
theorem lengths_invert :
    (∀ (tag : UInt8) (n : Nat) (rest : Octets), isHighTag tag = false → n < 2 ^ 32 →
      read (tag :: (lengthOctets n ++ rest)) =
        .ok (some ⟨tag, (tag :: lengthOctets n).length, n⟩)) ∧
    (∀ (tag : UInt8) (n : Nat) (rest : Octets), isHighTag tag = false → 2 ^ 32 ≤ n → n < 2 ^ 64 →
      ∃ k, 5 ≤ k ∧ k ≤ 8 ∧ (lengthOctets n).length = 1 + k ∧
        read (tag :: (lengthOctets n ++ rest)) = .error (.lengthTooLong k)) ∧
    (∀ w : Word, 0x80 ≤ w.toNat →
      lengthOctets w.toNat =
        UInt8.ofNat (0x80 + ((Word.octets 8 w).dropWhile (· == 0)).length) ::
          (Word.octets 8 w).dropWhile (· == 0)) ∧
    (∀ (bytes : Octets) (h : Header), read bytes = .ok (some h) →
      (h.tag :: lengthOctets h.contentSize).length ≤ h.size) ∧
    (∀ (tag : UInt8) (n : Nat) (front : Octets), isHighTag tag = false → n < 2 ^ 32 →
      front <+: tag :: lengthOctets n → front ≠ tag :: lengthOctets n → read front = .ok none) ∧
    (∀ (bytes : Octets) (h : Header), read bytes = .ok (some h) →
      2 ≤ h.size ∧ h.size ≤ 6 ∧ h.contentSize < 2 ^ 32 ∧ h.totalSize < 2 ^ 64) ∧
    ∀ bytes more : Octets, read bytes ≠ .ok none → read (bytes ++ more) = read bytes := by
  have hwritten : ∀ (tag : UInt8) (n : Nat) (rest : Octets), isHighTag tag = false → n < 2 ^ 32 →
      read (tag :: (lengthOctets n ++ rest)) =
        .ok (some ⟨tag, (tag :: lengthOctets n).length, n⟩) := by
    intro tag n rest htag hn
    rw [read_lengthOctets htag hn, List.length_cons, Nat.add_comm]
  refine ⟨hwritten, ?_, ?_, ?_, ?_, ?_, ?_⟩
  · intro tag n rest htag hn hword
    obtain ⟨hfive, height⟩ := length_digits_of_long hn hword
    refine ⟨(digits n).length, hfive, height, ?_, read_of_long htag hn hword rest⟩
    rw [lengthOctets, if_neg (by omega), List.length_cons, Nat.add_comm]
  · intro w hlong
    exact lengthOctets_of_word hlong
  · intro bytes h hread
    exact length_lengthOctets_lt hread
  · intro tag n front htag hn hfront hne
    have hread := hwritten tag n [] htag hn
    rw [List.append_nil] at hread
    apply read_of_front hread hfront
    exact Nat.lt_of_le_of_ne hfront.length_le fun hlength => hne (hfront.eq_of_length hlength)
  · intro bytes h hread
    have htwo := two_le_size hread
    obtain ⟨-, hsix, hcontent, -, -⟩ := read_bounds hread
    have hmax : maxSize = 6 := rfl
    refine ⟨htwo, hsix, hcontent, ?_⟩
    rw [totalSize]
    omega
  · intro bytes more hanswer
    exact read_append rfl hanswer more

/-- A sequence of 256 octets has the header `30 82 01 00`, which is incomplete without its last
octet. `30 84 00 00 01 00` is read as the same and longer. The length of one of 2³² is refused. -/
theorem lengths_invert_of_sequence :
    isHighTag 0x30 = false ∧ lengthOctets 256 = [0x82, 0x01, 0x00] ∧
      read (0x30 :: (lengthOctets 256 ++ [0xFF])) = .ok (some ⟨0x30, 4, 256⟩) ∧
      read [0x30, 0x82, 0x01] = .ok none ∧
      read [0x30, 0x84, 0x00, 0x00, 0x01, 0x00] = .ok (some ⟨0x30, 6, 256⟩) ∧
      (0x30 :: lengthOctets 256).length ≤ 6 ∧ totalSize ⟨0x30, 6, 256⟩ < 2 ^ 64 ∧
      (∃ k, 5 ≤ k ∧ k ≤ 8 ∧ (lengthOctets (2 ^ 32)).length = 1 + k ∧
        read (0x30 :: (lengthOctets (2 ^ 32) ++ [0xFF])) = .error (.lengthTooLong k)) ∧
      read ([0x30, 0x80] ++ [0xFF]) = read [0x30, 0x80] := by
  obtain ⟨hshort, hlong, hform, hfewest, hfront, hbounds, hstands⟩ := lengths_invert
  have hoctets : lengthOctets 256 = [0x82, 0x01, 0x00] := (hform 256 (by decide)).trans (by decide)
  have hread := hshort 0x30 256 [0xFF] rfl (by decide)
  have hincomplete := hfront 0x30 256 [0x30, 0x82, 0x01] rfl (by decide)
  have hpadded : read [0x30, 0x84, 0x00, 0x00, 0x01, 0x00] = .ok (some ⟨0x30, 6, 256⟩) := by
    decide
  have hless := hfewest _ _ hpadded
  obtain ⟨-, -, -, htotal⟩ := hbounds _ _ hpadded
  rw [hoctets] at hread hincomplete hless ⊢
  exact ⟨rfl, rfl, hread, hincomplete (by decide) (by decide), hpadded, hless, htotal,
    hlong 0x30 (2 ^ 32) [0xFF] rfl (by decide) (by decide), hstands _ _ (by decide)⟩

end Directory.Ber.Header
