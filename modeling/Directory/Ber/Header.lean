import Directory.WireError
import Directory.Word

/-!
# The header of an element

An element is an identifier octet, length octets and content octets. The identifier is one octet:
its five low bits hold the tag number, and `31` there would announce further identifier octets,
which are refused. The length is one octet below `0x80`, or `0x80 + k` and `k` big-endian octets
with `1 ≤ k ≤ 4`. Leading zeros in the long form are accepted on reading and never written. The
number is put together in a word, which four octets never fill.

`Header.read` answers `none` while the octets at hand are too few to tell, so that a stream reader
can wait for more; every other answer stands whatever follows (`Header.read_append`).
-/

namespace Directory.Ber

/-- Identifier octets of the universal types that messages are built from. -/
def Tag.boolean : UInt8 := 0x01
@[inherit_doc Tag.boolean] def Tag.integer : UInt8 := 0x02
@[inherit_doc Tag.boolean] def Tag.octetString : UInt8 := 0x04
@[inherit_doc Tag.boolean] def Tag.enumerated : UInt8 := 0x0A
@[inherit_doc Tag.boolean] def Tag.sequence : UInt8 := 0x30

structure Header where
  tag : UInt8
  /-- How many identifier and length octets there are. -/
  size : Nat
  contentSize : Nat
  deriving DecidableEq, Repr

namespace Header

def totalSize (h : Header) : Nat := h.size + h.contentSize

def isHighTag (tag : UInt8) : Bool := tag &&& 0x1F == 0x1F

/-- The most length octets of the long form that are accepted. -/
def maxLengthOctets : Nat := 4

def maxSize : Nat := 2 + maxLengthOctets

/-- The length octets and what they say: how many of them there are and how much content follows.
`none` while they are incomplete. -/
def readLength (bytes : Octets) : Except WireError (Option (Nat × Nat)) :=
  match bytes with
  | [] => .ok none
  | first :: rest =>
      if first.toNat < 0x80 then .ok (some (1, first.toNat))
      else
        let k := first.toNat - 0x80
        if k = 0 then .error .indefiniteLength
        else if k > maxLengthOctets then .error (.lengthTooLong k)
        else
          let octets := rest.take k
          if octets.length < k then .ok none
          else .ok (some (1 + k, (Word.pushAll 0 octets).toNat))

/-- The header at the front of a run of octets; `none` while it is incomplete. -/
def read (bytes : Octets) : Except WireError (Option Header) :=
  match bytes with
  | [] => .ok none
  | tag :: rest =>
      if isHighTag tag then .error (.highTagNumber tag)
      else
        match readLength rest with
        | .error e => .error e
        | .ok none => .ok none
        | .ok (some (octets, content)) => .ok (some ⟨tag, 1 + octets, content⟩)

theorem readLength_append {bytes : Octets} {answer : Except WireError (Option (Nat × Nat))}
    (h : readLength bytes = answer) (hne : answer ≠ .ok none) (more : Octets) :
    readLength (bytes ++ more) = answer := by
  subst h
  cases bytes with
  | nil => exact absurd rfl hne
  | cons first rest =>
      simp only [readLength, List.cons_append] at hne ⊢
      split
      · rfl
      · split
        · rfl
        · split
          · rfl
          · rename_i h1 h2 h3
            rw [if_neg h1, if_neg h2, if_neg h3] at hne
            by_cases hk : (rest.take (first.toNat - 0x80)).length < first.toNat - 0x80
            · exact absurd (if_pos hk) hne
            · have hlen : first.toNat - 0x80 ≤ rest.length := by
                rw [List.length_take] at hk; omega
              rw [List.take_append_of_le_length hlen]

/-- **An answer stands.** Once the octets at hand decide a header or a refusal, no further octet
changes it. -/
theorem read_append {bytes : Octets} {answer : Except WireError (Option Header)}
    (h : read bytes = answer) (hne : answer ≠ .ok none) (more : Octets) :
    read (bytes ++ more) = answer := by
  subst h
  cases bytes with
  | nil => exact absurd rfl hne
  | cons tag rest =>
      simp only [read, List.cons_append] at hne ⊢
      split
      · rfl
      · rename_i ht
        rw [if_neg ht] at hne
        cases hl : readLength rest with
        | error e => rw [readLength_append hl (by simp) more]
        | ok o =>
            cases o with
            | none => rw [hl] at hne; exact absurd rfl hne
            | some p => rw [readLength_append hl (by simp) more]

theorem length_le_of_readLength {bytes : Octets} (h : readLength bytes = .ok none) :
    bytes.length ≤ maxLengthOctets := by
  unfold readLength at h
  split at h
  · simp
  · dsimp only at h
    split at h
    · simp at h
    · split at h
      · simp at h
      · split at h
        · simp at h
        · split at h
          · rename_i hk hlt
            rw [List.length_take] at hlt
            rw [List.length_cons]
            omega
          · simp at h

theorem length_lt_of_read {bytes : Octets} (h : read bytes = .ok none) :
    bytes.length < maxSize := by
  unfold read at h
  split at h
  · exact Nat.lt_add_right _ (by decide)
  · split at h
    · simp at h
    · split at h
      · simp at h
      · rename_i hl
        have := length_le_of_readLength hl
        rw [List.length_cons, maxSize]
        omega
      · simp at h

theorem read_take (bytes : Octets) : read (bytes.take maxSize) = read bytes := by
  by_cases h : read (bytes.take maxSize) = .ok none
  · have := length_lt_of_read h
    rw [List.length_take] at this
    rw [List.take_of_length_le (by omega)]
  · rw [← read_append rfl h (bytes.drop maxSize), List.take_append_drop]

theorem one_le_of_readLength {bytes : Octets} {k n : Nat}
    (h : readLength bytes = .ok (some (k, n))) : 1 ≤ k := by
  unfold readLength at h
  split at h
  · simp at h
  · grind

theorem two_le_size {bytes : Octets} {h : Header} (hr : read bytes = .ok (some h)) :
    2 ≤ h.size := by
  unfold read at hr
  split at hr
  · simp at hr
  · split at hr
    · simp at hr
    · split at hr
      · simp at hr
      · simp at hr
      · rename_i heq
        have := one_le_of_readLength heq
        injection hr with hr
        injection hr with hr
        subst hr
        simp only
        omega

/-- The length octets written for `n`: the short form where it exists, else the fewest long-form
octets. -/
def lengthOctets (n : Nat) : Octets :=
  if n < 0x80 then [UInt8.ofNat n]
  else UInt8.ofNat (0x80 + (Octets.digits n).length) :: Octets.digits n

end Header

end Directory.Ber
