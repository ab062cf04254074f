import Directory.Proofs.Ber.Element
import Mathlib.Data.List.Induction

/-!
# The grammar of elements

Which runs of octets are numbers, lengths and elements, said without any reader: a number is spelled
octet by octet, a length is one octet or up to four behind an octet that counts them, and an element
is a low tag, a length and exactly so much content.

The readers are compared with the grammar one by one. What `Reader.split` takes off the front is an
element of the grammar (`elementForm_of_split`), and every element of the grammar is taken, whatever
follows it (`split_of_elementForm`); the readers of integers, texts and optional elements follow from
that.
-/

namespace Directory.Grammar

/-- The octets spell a natural number, most significant octet first. Leading zeros are allowed. -/
inductive Numeral : Octets → Nat → Prop
  | none : Numeral [] 0
  | next {front n} (h : Numeral front n) (b : UInt8) : Numeral (front ++ [b]) (256 * n + b.toNat)

/-- The octets spell a number in two's complement: the upper half of the numerals of their length
stands for the negative numbers. -/
inductive Complement : Octets → Int → Prop
  | nonneg {bytes n} (h : Numeral bytes n) (hlow : 2 * n < 256 ^ bytes.length) :
      Complement bytes n
  | neg {bytes n} (h : Numeral bytes n) (hhigh : 256 ^ bytes.length ≤ 2 * n) :
      Complement bytes (n - 256 ^ bytes.length)

inductive LengthForm : Octets → Nat → Prop
  | short {b : UInt8} (h : b.toNat < 128) : LengthForm [b] b.toNat
  | long {b : UInt8} {digits n} (hb : b.toNat = 128 + digits.length) (hone : 1 ≤ digits.length)
      (hfour : digits.length ≤ 4) (hn : Numeral digits n) : LengthForm (b :: digits) n

/-- The octets are one element with a low tag, a definite length and so much content. -/
inductive ElementForm : UInt8 → Octets → Octets → Prop
  | intro {tag size content} (hlow : tag &&& 0x1F ≠ 0x1F)
      (hsize : LengthForm size content.length) : ElementForm tag content (tag :: (size ++ content))

/-- The octets are the content of an integer: one to eight octets in two's complement. -/
structure IntegerContent (content : Octets) (v : Int) : Prop where
  one_le : 1 ≤ content.length
  le_eight : content.length ≤ 8
  spells : Complement content v

def IntegerForm (tag : UInt8) (v : Int) (bytes : Octets) : Prop :=
  ∃ content, ElementForm tag content bytes ∧ IntegerContent content v

def TextForm (tag : UInt8) (s : String) (bytes : Octets) : Prop :=
  ElementForm tag s.toUTF8.data.toList bytes

inductive OptionalForm (tag : UInt8) : Option Octets → Octets → Prop
  | absent : OptionalForm tag none []
  | present {content bytes} (h : ElementForm tag content bytes) :
      OptionalForm tag (some content) bytes

inductive OptionalTextForm (tag : UInt8) : Option String → Octets → Prop
  | absent : OptionalTextForm tag none []
  | present {s bytes} (h : TextForm tag s bytes) : OptionalTextForm tag (some s) bytes

variable {bytes content rest form : Octets} {tag : UInt8} {n : Nat} {v : Int}

/-! ## Numbers -/

theorem count_eq_pow (k : Nat) : Octets.count k = 256 ^ k := by
  induction k with
  | zero => rfl
  | succ k ih => rw [Octets.count, ih, Nat.pow_succ, Nat.mul_comm]

theorem numeral_iff : Numeral bytes n ↔ Octets.value bytes = n := by
  constructor
  · intro h
    induction h with
    | none => rfl
    | next h b ih =>
        rw [Octets.value_concat, ih]
        omega
  · rintro rfl
    induction bytes using List.reverseRecOn with
    | nil => exact Numeral.none
    | append_singleton front b ih =>
        rw [Octets.value_concat, Nat.mul_comm]
        exact Numeral.next ih b

theorem complement_iff (hne : bytes ≠ []) : Complement bytes v ↔ Octets.signed bytes = v := by
  rw [Octets.signed_eq hne, count_eq_pow]
  constructor
  · intro h
    cases h with
    | nonneg hn hlow =>
        rw [numeral_iff] at hn
        rw [← hn] at hlow
        rw [if_pos hlow, hn]
    | neg hn hhigh =>
        rw [numeral_iff] at hn
        rw [← hn] at hhigh
        rw [if_neg (Nat.not_lt_of_le hhigh), hn]
        push_cast
        rfl
  · intro h
    by_cases hlow : 2 * Octets.value bytes < 256 ^ bytes.length
    · rw [if_pos hlow] at h
      subst h
      exact Complement.nonneg (numeral_iff.mpr rfl) hlow
    · rw [if_neg hlow] at h
      subst h
      have hneg := Complement.neg (numeral_iff.mpr rfl) (Nat.le_of_not_lt hlow)
      push_cast
      exact hneg

theorem integerContent_iff :
    IntegerContent content v ↔ Ber.Integer.ofContent content = .ok v := by
  rw [Ber.Reader.ofContent_eq_ok]
  constructor
  · rintro ⟨hone, height, hspells⟩
    have hne : content ≠ [] := List.length_pos_iff.mp hone
    exact ⟨hne, height, (complement_iff hne).mp hspells⟩
  · rintro ⟨hne, height, hsigned⟩
    exact ⟨List.length_pos_iff.mpr hne, height, (complement_iff hne).mpr hsigned⟩

theorem bounds_of_integerContent (h : IntegerContent content v) : -(2 ^ 63) ≤ v ∧ v < 2 ^ 63 :=
  Ber.Integer.bounds_of_ofContent (integerContent_iff.mp h)

/-! ## Lengths and elements -/

theorem readLength_of_lengthForm {size : Octets} (h : LengthForm size n) (rest : Octets) :
    Ber.Header.readLength (size ++ rest) = .ok (some (size.length, n)) := by
  cases h with
  | @short b hb =>
      simp only [List.singleton_append, Ber.Header.readLength]
      rw [if_pos hb]
      rfl
  | @long b digits n hb hone hfour hn =>
      have hcount : b.toNat - 128 = digits.length := by omega
      have hmax : Ber.Header.maxLengthOctets = 4 := rfl
      rw [numeral_iff] at hn
      simp only [List.cons_append, Ber.Header.readLength, hcount, List.take_left]
      rw [if_neg (by omega), if_neg (by omega), if_neg (by omega), if_neg (by omega),
        List.length_cons, Word.toNat_pushAll_zero (hfour.trans (by decide)), hn, Nat.add_comm]

theorem lengthForm_of_readLength {k : Nat}
    (h : Ber.Header.readLength bytes = .ok (some (k, n))) : LengthForm (bytes.take k) n := by
  cases bytes with
  | nil => cases h
  | cons first rest =>
      simp only [Ber.Header.readLength] at h
      split at h
      case isTrue hshort =>
          cases h
          exact LengthForm.short hshort
      case isFalse hlong =>
          split at h
          · cases h
          split at h
          · cases h
          rename_i hone hfour
          split at h
          · cases h
          rename_i hall
          simp only [Except.ok.injEq, Option.some.injEq, Prod.mk.injEq] at h
          obtain ⟨rfl, rfl⟩ := h
          have hlength : (rest.take (first.toNat - 128)).length = first.toNat - 128 := by
            rw [List.length_take] at hall ⊢
            omega
          have hmax : Ber.Header.maxLengthOctets = 4 := rfl
          rw [Nat.add_comm, List.take_succ_cons, Word.toNat_pushAll_zero (by omega)]
          exact LengthForm.long (by omega) (by omega) (by omega) (numeral_iff.mpr rfl)

theorem isHighTag_iff : Ber.Header.isHighTag tag = false ↔ tag &&& 0x1F ≠ 0x1F := by
  rw [Ber.Header.isHighTag, beq_eq_false_iff_ne]

theorem read_of_lengthForm {size : Octets} (hlow : tag &&& 0x1F ≠ 0x1F) (hsize : LengthForm size n)
    (rest : Octets) :
    Ber.Header.read (tag :: (size ++ rest)) = .ok (some ⟨tag, 1 + size.length, n⟩) := by
  rw [Ber.Header.read, isHighTag_iff.mpr hlow, readLength_of_lengthForm hsize]
  rfl

theorem split_of_elementForm (h : ElementForm tag content form) (rest : Octets) :
    Ber.Reader.split (form ++ rest) = .ok (tag, content, rest) := by
  obtain ⟨hlow, hsize⟩ := h
  rename_i size
  have hbytes : tag :: (size ++ content) ++ rest = tag :: (size ++ (content ++ rest)) := by
    rw [List.cons_append, List.append_assoc]
  have hbody : (tag :: (size ++ (content ++ rest))).drop (1 + size.length) = content ++ rest := by
    rw [Nat.add_comm, List.drop_succ_cons, List.drop_left]
  rw [hbytes, Ber.Reader.split, read_of_lengthForm hlow hsize]
  simp only [hbody, List.take_left, List.drop_left]
  rw [if_neg (Nat.lt_irrefl _)]

theorem lengthForm_of_read {h : Ber.Header} (hread : Ber.Header.read bytes = .ok (some h)) :
    ∃ size more, bytes = h.tag :: (size ++ more) ∧ h.size = size.length + 1 ∧
      h.tag &&& 0x1F ≠ 0x1F ∧ LengthForm size h.contentSize := by
  cases bytes with
  | nil => cases hread
  | cons tag more =>
      simp only [Ber.Header.read] at hread
      by_cases hhigh : Ber.Header.isHighTag tag = true
      · rw [if_pos hhigh] at hread
        cases hread
      · rw [if_neg hhigh] at hread
        split at hread
        next => cases hread
        next => cases hread
        next k count hlen =>
          obtain ⟨hle, -, -⟩ := Ber.Header.readLength_bounds hlen
          cases hread
          refine ⟨more.take k, more.drop k, ?_, ?_, ?_, lengthForm_of_readLength hlen⟩
          · rw [List.take_append_drop]
          · rw [List.length_take_of_le hle, Nat.add_comm]
          · exact isHighTag_iff.mp (eq_false_of_ne_true hhigh)

theorem elementForm_of_split (h : Ber.Reader.split bytes = .ok (tag, content, rest)) :
    ∃ form, ElementForm tag content form ∧ bytes = form ++ rest := by
  unfold Ber.Reader.split at h
  split at h
  next => cases h
  next => cases h
  next header hread =>
    obtain ⟨size, more, rfl, hsize, hlow, hlength⟩ := lengthForm_of_read hread
    have hbody : (header.tag :: (size ++ more)).drop header.size = more := by
      rw [hsize, List.drop_succ_cons, List.drop_left]
    simp only [hbody] at h
    split at h
    next => cases h
    next hall =>
      simp only [Except.ok.injEq, Prod.mk.injEq] at h
      obtain ⟨rfl, rfl, rfl⟩ := h
      have hcount : (more.take header.contentSize).length = header.contentSize := by
        rw [List.length_take] at hall ⊢
        omega
      rw [← hcount] at hlength
      refine ⟨_, ElementForm.intro hlow hlength, ?_⟩
      rw [List.cons_append, List.append_assoc, List.take_append_drop]

theorem head?_of_elementForm (h : ElementForm tag content form) (rest : Octets) :
    (form ++ rest).head? = some tag := by
  obtain ⟨_, _⟩ := h
  rfl

/-! ## Elements with a meaning -/

theorem on_integer_iff : (Ber.Reader.integer tag).on bytes = (.ok v, rest) ↔
    ∃ form, IntegerForm tag v form ∧ bytes = form ++ rest := by
  rw [Ber.Reader.on_integer_eq_ok]
  constructor
  · rintro ⟨content, hsplit, hcontent⟩
    obtain ⟨form, hform, rfl⟩ := elementForm_of_split hsplit
    exact ⟨form, ⟨content, hform, integerContent_iff.mpr hcontent⟩, rfl⟩
  · rintro ⟨form, ⟨content, hform, hcontent⟩, rfl⟩
    exact ⟨content, split_of_elementForm hform rest, integerContent_iff.mp hcontent⟩

theorem spelling_eq_ok_iff {s : String} :
    Ber.Reader.spelling content = .ok s ↔ content = s.toUTF8.data.toList := by
  constructor
  · intro h
    unfold Ber.Reader.spelling at h
    split at h
    next text htext =>
      cases h
      rw [Octets.text?, String.fromUTF8?] at htext
      split at htext
      next hvalid =>
        cases htext
        rfl
      next => cases htext
    next => cases h
  · rintro rfl
    exact Ber.Reader.spelling_ofText s

theorem on_text_iff {s : String} : (Ber.Reader.text tag).on bytes = (.ok s, rest) ↔
    ∃ form, TextForm tag s form ∧ bytes = form ++ rest := by
  rw [Ber.Reader.on_text_eq_ok]
  constructor
  · rintro ⟨content, hsplit, hspelling⟩
    obtain rfl := spelling_eq_ok_iff.mp hspelling
    exact elementForm_of_split hsplit
  · rintro ⟨form, hform, rfl⟩
    exact ⟨_, split_of_elementForm hform rest, spelling_eq_ok_iff.mpr rfl⟩

theorem optionalForm_of_on {c : Option Octets}
    (h : (Ber.Reader.optional tag).on bytes = (.ok c, rest)) :
    ∃ form, OptionalForm tag c form ∧ bytes = form ++ rest ∧
      (c = none → rest.head? ≠ some tag) := by
  rw [Ber.Reader.on_optional_eq_ok] at h
  cases c with
  | none =>
      obtain ⟨hhead, rfl⟩ := h
      exact ⟨[], OptionalForm.absent, rfl, fun _ => hhead⟩
  | some content =>
      obtain ⟨form, hform, rfl⟩ := elementForm_of_split h
      exact ⟨form, OptionalForm.present hform, rfl, nofun⟩

/-- An element that is left out is not looked for in what follows, if that begins with another
tag. -/
theorem on_of_optionalForm {c : Option Octets} (h : OptionalForm tag c form)
    (hrest : c = none → rest.head? ≠ some tag) :
    (Ber.Reader.optional tag).on (form ++ rest) = (.ok c, rest) := by
  rw [Ber.Reader.on_optional_eq_ok]
  cases h with
  | absent => exact ⟨hrest rfl, rfl⟩
  | present hform => exact split_of_elementForm hform rest

/-- What begins an optional element is its tag, or what follows it. -/
theorem head?_of_optionalForm {c : Option Octets} (h : OptionalForm tag c form) {other : UInt8}
    (hne : tag ≠ other) (hrest : c = none → rest.head? ≠ some other) :
    (form ++ rest).head? ≠ some other := by
  cases h with
  | absent => exact hrest rfl
  | present hform =>
      rw [head?_of_elementForm hform]
      intro heq
      exact hne (Option.some.inj heq)

theorem optionalTextForm_iff {s : Option String} : OptionalTextForm tag s form ↔
    OptionalForm tag (s.map fun s => s.toUTF8.data.toList) form := by
  constructor
  · intro h
    cases h with
    | absent => exact OptionalForm.absent
    | present htext => exact OptionalForm.present htext
  · intro h
    cases s with
    | none =>
        cases h
        exact OptionalTextForm.absent
    | some s =>
        cases h with
        | present htext => exact OptionalTextForm.present htext

end Directory.Grammar
