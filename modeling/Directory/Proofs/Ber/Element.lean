import Directory.Ber.Reader
import Directory.Ber.Writer
import Directory.Proofs.Ber.Word

/-!
# Elements, written and read

What a reader does is said by one equation for each of its parts: it takes these octets, gives this
answer and leaves those (`on_bind_eq_ok` and its companions). A whole reader is opened with them into
the elements that it takes one after the other, in both directions.

The element that is written for a tag and some content is the one that is read there, whatever
follows, as long as the tag is a low one and the content is short of 2³² octets
(`split_element_append`).
-/

namespace Directory.Ber

open Octets

/-! ## Length octets -/

namespace Header

theorem count_maxLengthOctets : count maxLengthOctets = 2 ^ 32 := by decide

/-- A length that four octets cannot spell has five digits at least. -/
theorem five_le_length_digits {n : Nat} (h : 2 ^ 32 ≤ n) : 5 ≤ (digits n).length := by
  have hlong : ¬(digits n).length ≤ maxLengthOctets := by
    rw [length_digits_le_iff, count_maxLengthOctets]
    omega
  rw [maxLengthOctets] at hlong
  omega

theorem six_le_length_lengthOctets {n : Nat} (h : 2 ^ 32 ≤ n) : 6 ≤ (lengthOctets n).length := by
  have hfive := five_le_length_digits h
  rw [lengthOctets, if_neg (by omega), List.length_cons]
  omega

/-- The first octet of the long form counts those behind it. -/
theorem toNat_longForm {k : Nat} (h : k < 0x80) : (UInt8.ofNat (0x80 + k)).toNat = 0x80 + k := by
  rw [UInt8.toNat_ofNat']
  omega

/-- **Length octets read back**, whatever follows them. -/
theorem readLength_lengthOctets {n : Nat} (h : n < 2 ^ 32) (rest : Octets) :
    readLength (lengthOctets n ++ rest) = .ok (some ((lengthOctets n).length, n)) := by
  unfold lengthOctets
  by_cases hshort : n < 0x80
  · have hn : (UInt8.ofNat n).toNat = n := by
      rw [UInt8.toNat_ofNat']
      omega
    rw [if_pos hshort, List.singleton_append, readLength, hn, if_pos hshort]
    rfl
  · have hk : (digits n).length ≤ maxLengthOctets := by
      rw [length_digits_le_iff, count_maxLengthOctets]
      exact h
    have hpos : 0 < (digits n).length := List.length_pos_iff.mpr (digits_ne_nil (by omega))
    have hfirst := toNat_longForm (Nat.lt_of_le_of_lt hk (by decide))
    rw [if_neg hshort, List.cons_append]
    have hword : (Word.pushAll 0 (digits n)).toNat = n := by
      rw [Word.toNat_pushAll_zero (hk.trans (by decide)), value_digits]
    simp only [readLength, hfirst, Nat.add_sub_cancel_left, List.take_left, hword]
    rw [if_neg (by omega), if_neg (by omega), if_neg (by omega), if_neg (by omega),
      List.length_cons, Nat.add_comm]

theorem read_lengthOctets {tag : UInt8} {n : Nat} (htag : isHighTag tag = false) (h : n < 2 ^ 32)
    (rest : Octets) :
    read (tag :: (lengthOctets n ++ rest)) = .ok (some ⟨tag, 1 + (lengthOctets n).length, n⟩) := by
  rw [read, htag, readLength_lengthOctets h]
  rfl

theorem readLength_bounds {bytes : Octets} {k n : Nat} (h : readLength bytes = .ok (some (k, n))) :
    k ≤ bytes.length ∧ k ≤ 1 + maxLengthOctets ∧ n < 2 ^ 32 := by
  unfold readLength at h
  split at h
  · cases h
  · rename_i first rest
    dsimp only at h
    split at h
    · cases h
      exact ⟨Nat.le_add_left _ _, by decide, by omega⟩
    · split at h
      · cases h
      · split at h
        · cases h
        · rename_i hk
          split at h
          · cases h
          · rename_i hall
            simp only [Except.ok.injEq, Option.some.injEq, Prod.mk.injEq] at h
            obtain ⟨rfl, rfl⟩ := h
            rw [List.length_take] at hall
            -- At most four octets spell the number, so it is less than the count of their runs.
            refine ⟨by rw [List.length_cons]; omega, by omega, ?_⟩
            have hlt := value_lt (rest.take (first.toNat - 0x80))
            have hle : (rest.take (first.toNat - 0x80)).length ≤ maxLengthOctets := by
              rw [List.length_take]
              omega
            rw [Word.toNat_pushAll_zero (hle.trans (by decide)), ← count_maxLengthOctets]
            exact hlt.trans_le (count_le_count hle)

/-- A header is there when it is read, has six octets at most and never announces 2³² octets; its tag
is the octet at the front, and a low one. -/
theorem read_bounds {bytes : Octets} {h : Header} (hread : read bytes = .ok (some h)) :
    h.size ≤ bytes.length ∧ h.size ≤ maxSize ∧ h.contentSize < 2 ^ 32 ∧
      bytes.head? = some h.tag ∧ isHighTag h.tag = false := by
  unfold read at hread
  split at hread
  · cases hread
  · rename_i tag rest
    split at hread
    · cases hread
    · rename_i hlow
      split at hread
      · cases hread
      · cases hread
      · rename_i hlen
        obtain ⟨hall, hk, hn⟩ := readLength_bounds hlen
        cases hread
        refine ⟨?_, ?_, hn, rfl, by simpa using hlow⟩
        · rw [List.length_cons]
          dsimp only
          omega
        · rw [maxSize]
          dsimp only
          omega

theorem readLength_take {bytes : Octets} {k n : Nat} (h : readLength bytes = .ok (some (k, n))) :
    readLength (bytes.take k) = .ok (some (k, n)) := by
  have hpos := one_le_of_readLength h
  unfold readLength at h
  split at h
  · cases h
  · rename_i first rest
    obtain ⟨j, rfl⟩ : ∃ j, k = j + 1 := ⟨k - 1, by omega⟩
    rw [List.take_succ_cons]
    simp only [readLength]
    dsimp only at h
    split at h
    · rename_i hshort
      rw [if_pos hshort]
      exact h
    · rename_i hlong
      split at h
      · cases h
      · rename_i hdefinite
        split at h
        · cases h
        · rename_i hfew
          split at h
          · cases h
          · rename_i hall
            simp only [Except.ok.injEq, Option.some.injEq, Prod.mk.injEq] at h
            obtain ⟨hk, rfl⟩ := h
            obtain rfl : first.toNat - 0x80 = j := by omega
            rw [if_neg hlong, if_neg hdefinite, if_neg hfew, List.take_take, Nat.min_self,
              if_neg hall, Nat.add_comm]

/-- A header is read off itself alone. -/
theorem read_take_size {bytes : Octets} {h : Header} (hread : read bytes = .ok (some h)) :
    read (bytes.take h.size) = .ok (some h) := by
  unfold read at hread
  split at hread
  · cases hread
  · split at hread
    · cases hread
    · rename_i hlow
      split at hread
      · cases hread
      · cases hread
      · rename_i hlen
        cases hread
        dsimp only
        rw [Nat.add_comm 1, List.take_succ_cons, read, if_neg hlow, readLength_take hlen,
          Nat.add_comm]

end Header

/-- Octets few enough to be the content of an element: fewer than 2³². -/
def Short (bytes : Octets) : Prop := bytes.length < 2 ^ 32

theorem Short.left {a b : Octets} (h : Short (a ++ b)) : Short a := by
  rw [Short, List.length_append] at h
  exact Nat.lt_of_le_of_lt (Nat.le_add_right a.length b.length) h

theorem Short.right {a b : Octets} (h : Short (a ++ b)) : Short b := by
  rw [Short, List.length_append] at h
  exact Nat.lt_of_le_of_lt (Nat.le_add_left b.length a.length) h

/-! ## One element -/

theorem length_element (tag : UInt8) (content : Octets) :
    (element tag content).length =
      1 + (Header.lengthOctets content.length).length + content.length := by
  rw [element, List.length_cons, List.length_append]
  omega

theorem head?_element (tag : UInt8) (content rest : Octets) :
    (element tag content ++ rest).head? = some tag := rfl

theorem Short.content {tag : UInt8} {content : Octets} (h : Short (element tag content)) :
    Short content := by
  rw [Short, length_element] at h
  exact Nat.lt_of_le_of_lt (Nat.le_add_left content.length _) h

namespace Reader

/-- **An element reads back**, whatever follows it. -/
theorem split_element_append {tag : UInt8} {content : Octets}
    (htag : Header.isHighTag tag = false) (h : Short content) (rest : Octets) :
    split (Ber.element tag content ++ rest) = .ok (tag, content, rest) := by
  have hbytes : Ber.element tag content ++ rest =
      tag :: (Header.lengthOctets content.length ++ (content ++ rest)) := by
    rw [Ber.element, List.cons_append, List.append_assoc]
  have hbody : (Ber.element tag content ++ rest).drop
      (1 + (Header.lengthOctets content.length).length) = content ++ rest := by
    rw [hbytes, Nat.add_comm, List.drop_succ_cons, List.drop_left]
  rw [split, hbytes, Header.read_lengthOctets htag h, ← hbytes]
  simp only [hbody, List.take_left, List.drop_left]
  rw [if_neg (Nat.lt_irrefl _)]

/-- **An element is a header and its content.** The tag is the octet at the front and a low one, the
header has at most six octets, and what follows the content is left. -/
theorem append_of_split {bytes content rest : Octets} {tag : UInt8}
    (h : split bytes = .ok (tag, content, rest)) :
    ∃ header, bytes = header ++ content ++ rest ∧ 2 ≤ header.length ∧
      header.length ≤ Header.maxSize ∧ Short content ∧ bytes.head? = some tag ∧
      Header.isHighTag tag = false := by
  unfold split at h
  split at h
  · cases h
  · cases h
  · rename_i hd hread
    obtain ⟨hall, hsize, hcontent, hhead, hlow⟩ := Header.read_bounds hread
    have htwo := Header.two_le_size hread
    dsimp only at h
    split at h
    · cases h
    · rename_i hlen
      cases h
      rw [List.length_take] at hlen
      have hheader : (bytes.take hd.size).length = hd.size := List.length_take_of_le hall
      refine ⟨bytes.take hd.size, ?_, by omega, by omega, ?_, hhead, hlow⟩
      · rw [List.append_assoc, List.take_append_drop, List.take_append_drop]
      · rw [Short, List.length_take]
        omega

theorem head?_of_split {bytes content rest : Octets} {tag : UInt8}
    (h : split bytes = .ok (tag, content, rest)) : bytes.head? = some tag := by
  obtain ⟨_, _, _, _, _, hhead, _⟩ := append_of_split h
  exact hhead

/-! ## What a reader takes and leaves -/

variable {α β : Type}

theorem on_bind (r : Reader α) (f : α → Reader β) (bytes : Octets) :
    (r >>= f).on bytes =
      match r.on bytes with
      | (.ok a, rest) => (f a).on rest
      | (.error e, rest) => (.error e, rest) := by
  have hrun : (r >>= f).on bytes = ExceptT.bindCont f (r.on bytes).1 (r.on bytes).2 := rfl
  rw [hrun]
  rcases r.on bytes with ⟨answer, mid⟩
  cases answer with
  | error e => rfl
  | ok a => rfl

theorem on_bind_eq_ok {r : Reader α} {f : α → Reader β} {bytes rest : Octets} {b : β} :
    (r >>= f).on bytes = (.ok b, rest) ↔
      ∃ a mid, r.on bytes = (.ok a, mid) ∧ (f a).on mid = (.ok b, rest) := by
  rw [on_bind]
  rcases h : r.on bytes with ⟨answer, mid⟩
  cases answer with
  | error e => simp
  | ok a => simp

theorem on_pure_eq_ok {a b : α} {bytes rest : Octets} :
    (pure a : Reader α).on bytes = (.ok b, rest) ↔ a = b ∧ bytes = rest := by
  show (Except.ok a, bytes) = _ ↔ _
  simp

theorem on_lift_eq_ok {e : Except WireError α} {a : α} {bytes rest : Octets} :
    (lift e).on bytes = (.ok a, rest) ↔ e = .ok a ∧ bytes = rest := by
  show (e, bytes) = _ ↔ _
  simp

theorem on_map_eq_ok {r : Reader α} {f : α → β} {bytes rest : Octets} {b : β} :
    (f <$> r).on bytes = (.ok b, rest) ↔ ∃ a, r.on bytes = (.ok a, rest) ∧ f a = b := by
  rw [← bind_pure_comp, on_bind_eq_ok]
  simp [on_pure_eq_ok]

theorem on_element_eq_ok {bytes content rest : Octets} {tag : UInt8} :
    element.on bytes = (.ok (tag, content), rest) ↔ split bytes = .ok (tag, content, rest) := by
  dsimp only [element, on, ExceptT.run, StateT.run]
  rcases split bytes with e | ⟨t, c, r⟩
  · simp
  · simp [and_assoc]

theorem on_expect_eq_ok {bytes content rest : Octets} {tag : UInt8} :
    (expect tag).on bytes = (.ok content, rest) ↔ split bytes = .ok (tag, content, rest) := by
  rw [expect, on_bind_eq_ok]
  constructor
  · rintro ⟨⟨found, c⟩, mid, hel, hif⟩
    rw [on_element_eq_ok] at hel
    dsimp only at hif
    split at hif
    · rename_i hfound
      rw [on_pure_eq_ok] at hif
      obtain ⟨rfl, rfl⟩ := hif
      rw [hel, hfound]
    · cases hif
  · intro h
    refine ⟨(tag, content), rest, on_element_eq_ok.mpr h, ?_⟩
    dsimp only
    rw [if_pos rfl, on_pure_eq_ok]
    exact ⟨rfl, rfl⟩

/-- An element with another tag, and the end of the octets, are both left where they are. -/
theorem on_optional_eq_ok {bytes rest : Octets} {tag : UInt8} {content : Option Octets} :
    (optional tag).on bytes = (.ok content, rest) ↔
      match content with
      | some c => split bytes = .ok (tag, c, rest)
      | none => bytes.head? ≠ some tag ∧ bytes = rest := by
  have hon : (optional tag).on bytes =
      if bytes.head? = some tag then (some <$> expect tag).on bytes else (.ok none, bytes) := by
    show (ite _ _ _ : Reader _) bytes = _
    split
    · rfl
    · rfl
  rw [hon]
  split
  · rename_i hhead
    rw [on_map_eq_ok]
    simp only [on_expect_eq_ok]
    cases content with
    | none => simp [hhead]
    | some c => simp
  · rename_i hhead
    cases content with
    | none => simp [hhead]
    | some c =>
        simp only [Prod.mk.injEq, Except.ok.injEq, reduceCtorEq, false_and, false_iff]
        intro h
        exact hhead (head?_of_split h)

theorem on_integer_eq_ok {bytes rest : Octets} {tag : UInt8} {v : Int} :
    (integer tag).on bytes = (.ok v, rest) ↔
      ∃ content, split bytes = .ok (tag, content, rest) ∧ Integer.ofContent content = .ok v := by
  simp only [integer, on_bind_eq_ok, on_expect_eq_ok, on_lift_eq_ok]
  grind

theorem on_text_eq_ok {bytes rest : Octets} {tag : UInt8} {s : String} :
    (text tag).on bytes = (.ok s, rest) ↔
      ∃ content, split bytes = .ok (tag, content, rest) ∧ spelling content = .ok s := by
  simp only [text, on_bind_eq_ok, on_expect_eq_ok, on_lift_eq_ok]
  grind

theorem on_finished (bytes : Octets) :
    finished.on bytes =
      if bytes.length = 0 then (.ok (), bytes)
      else (.error (.trailingData bytes.length), bytes) := by
  show (ite _ _ _ : Reader _) bytes = _
  split
  · rfl
  · rfl

theorem on_finished_eq_ok {bytes rest : Octets} :
    finished.on bytes = (.ok (), rest) ↔ bytes = [] ∧ rest = [] := by
  rw [on_finished]
  cases bytes with
  | nil => simp [eq_comm]
  | cons b more => simp

theorem answer_eq_ok {r : Reader α} {bytes : Octets} {a : α} :
    r.answer bytes = .ok a ↔ ∃ rest, r.on bytes = (.ok a, rest) := by
  rw [answer]
  rcases r.on bytes with ⟨e, rest⟩
  simp

theorem answer_bind_of_on {r : Reader α} {f : α → Reader β} {bytes rest : Octets} {a : α}
    (h : r.on bytes = (.ok a, rest)) : (r >>= f).answer bytes = (f a).answer rest := by
  rw [answer, on_bind, h]
  rfl

/-- What is left over is counted and refused. -/
theorem answer_finished_bind {f : Unit → Reader β} {bytes : Octets} (h : bytes ≠ []) :
    (finished >>= f).answer bytes = .error (.trailingData bytes.length) := by
  have hlength : bytes.length ≠ 0 := fun hzero => h (List.eq_nil_of_length_eq_zero hzero)
  rw [answer, on_bind, on_finished, if_neg hlength]

/-! ## What is written for a part is read as that part -/

/-- Integer content is read if there is any and it is eight octets at most. -/
theorem ofContent_eq_ok {content : Octets} {v : Int} :
    Integer.ofContent content = .ok v ↔
      content ≠ [] ∧ content.length ≤ Integer.maxOctets ∧ signed content = v := by
  by_cases hfits : content ≠ [] ∧ content.length ≤ Integer.maxOctets
  · rw [Integer.ofContent_of_fits hfits.1 hfits.2, Except.ok.injEq]
    exact ⟨fun h => ⟨hfits.1, hfits.2, h⟩, fun ⟨_, _, h⟩ => h⟩
  · have hrefused : content = [] ∨ Integer.maxOctets < content.length := by
      by_contra hnone
      rw [not_or] at hnone
      exact hfits ⟨hnone.1, Nat.le_of_not_lt hnone.2⟩
    rw [Integer.ofContent_of_not_fits hrefused]
    constructor
    · intro h
      cases h
    · rintro ⟨hne, hle, -⟩
      exact absurd ⟨hne, hle⟩ hfits

theorem ofContent_content {v : Int} (h : -(2 ^ 63) ≤ v ∧ v < 2 ^ 63) :
    Integer.ofContent (Integer.content v) = .ok v := by
  have hcount : 128 * count 7 = 2 ^ 63 := by decide
  have hlen : (signedDigits v).length ≤ 7 + 1 := by
    apply length_signedDigits_le
    rw [hcount]
    exact h
  rw [Integer.content_eq h]
  exact ofContent_eq_ok.mpr ⟨signedDigits_ne_nil v, hlen, signed_signedDigits v⟩

theorem short_content {v : Int} (h : -(2 ^ 63) ≤ v ∧ v < 2 ^ 63) : Short (Integer.content v) := by
  obtain ⟨_, hlen, _⟩ := ofContent_eq_ok.mp (ofContent_content h)
  exact Nat.lt_of_le_of_lt hlen (by decide)

theorem on_integer_append {tag : UInt8} {v : Int} (htag : Header.isHighTag tag = false)
    (h : -(2 ^ 63) ≤ v ∧ v < 2 ^ 63) (rest : Octets) :
    (integer tag).on (integerElement tag v ++ rest) = (.ok v, rest) :=
  on_integer_eq_ok.mpr
    ⟨Integer.content v, split_element_append htag (short_content h) rest, ofContent_content h⟩

theorem spelling_ofText (s : String) : spelling (ofText s) = .ok s := by
  rw [spelling, text?_ofText]

theorem on_text_append {tag : UInt8} {s : String} (htag : Header.isHighTag tag = false)
    (h : Short (ofText s)) (rest : Octets) :
    (text tag).on (textElement tag s ++ rest) = (.ok s, rest) :=
  on_text_eq_ok.mpr ⟨ofText s, split_element_append htag h rest, spelling_ofText s⟩

/-- An optional part reads back, also as one that is not there, if what follows does not begin with
its tag. -/
theorem on_optional_append {tag : UInt8} {content : Option Octets} {rest : Octets}
    (htag : Header.isHighTag tag = false) (h : Short (optionalElement tag content))
    (hrest : rest.head? ≠ some tag) :
    (optional tag).on (optionalElement tag content ++ rest) = (.ok content, rest) := by
  rw [on_optional_eq_ok]
  cases content with
  | none => exact ⟨hrest, rfl⟩
  | some c => exact split_element_append htag h.content rest

/-- At the end nothing follows. -/
theorem on_optional_end {tag : UInt8} {content : Option Octets}
    (htag : Header.isHighTag tag = false) (h : Short (optionalElement tag content)) :
    (optional tag).on (optionalElement tag content) = (.ok content, []) := by
  have hread : (optional tag).on (optionalElement tag content ++ []) = (.ok content, []) :=
    on_optional_append htag h (by simp)
  rwa [List.append_nil] at hread

end Reader

end Directory.Ber
