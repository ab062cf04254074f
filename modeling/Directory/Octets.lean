/-!
# Octets

What a directory client and a directory server exchange is a stream of octets. This module fixes
the type, the big-endian reading of a run of octets as a number and as a two's-complement number,
the runs that are read back as a given number, and the UTF-8 reading of a run of octets as text.
-/

namespace Directory

abbrev Octets := List UInt8

namespace Octets

/-- How many runs of a given length there are. -/
def count : Nat → Nat
  | 0 => 1
  | n + 1 => 256 * count n

/-- The big-endian value of a run of octets; the empty run is zero. -/
def value (bytes : Octets) : Nat :=
  bytes.foldl (fun acc b => acc * 256 + b.toNat) 0

theorem foldl_value (acc : Nat) (bytes : Octets) :
    bytes.foldl (fun acc b => acc * 256 + b.toNat) acc =
      acc * count bytes.length + value bytes := by
  induction bytes generalizing acc with
  | nil => simp [value, count]
  | cons b rest ih =>
      simp only [List.foldl_cons, value, List.length_cons, count]
      rw [ih, ih (0 * 256 + b.toNat)]
      grind

theorem value_cons (b : UInt8) (rest : Octets) :
    value (b :: rest) = b.toNat * count rest.length + value rest := by
  rw [value, List.foldl_cons, foldl_value, Nat.zero_mul, Nat.zero_add]

theorem value_lt (bytes : Octets) : value bytes < count bytes.length := by
  induction bytes with
  | nil => simp [value, count]
  | cons b rest ih =>
      have hb : b.toNat < 256 := b.toNat_lt
      rw [value_cons, List.length_cons, count]
      calc b.toNat * count rest.length + value rest
          < b.toNat * count rest.length + count rest.length := by omega
        _ = (b.toNat + 1) * count rest.length := by grind
        _ ≤ 256 * count rest.length := Nat.mul_le_mul_right _ (by omega)

/-- The shortest run of octets with a given big-endian value; zero has the empty run. -/
def digits (n : Nat) : Octets :=
  if n = 0 then [] else digits (n / 256) ++ [UInt8.ofNat (n % 256)]
termination_by n

/-- The two's-complement value of a run of octets: the first octet carries the sign. -/
def signed (bytes : Octets) : Int :=
  match bytes with
  | [] => 0
  | first :: _ =>
      if first < 0x80 then (value bytes : Int)
      else (value bytes : Int) - (count bytes.length : Nat)

/-- The shortest non-empty run of octets with a given two's-complement value. -/
def signedDigits (v : Int) : Octets :=
  if -128 ≤ v ∧ v < 128 then [UInt8.ofNat (v % 256).toNat]
  else signedDigits (v / 256) ++ [UInt8.ofNat (v % 256).toNat]
termination_by v.natAbs

def ofText (s : String) : Octets := s.toByteArray.data.toList

/-- The text that a run of octets spells in UTF-8; `none` for anything that is not well-formed
UTF-8, which includes surrogates and overlong forms. -/
def text? (bytes : Octets) : Option String := String.fromUTF8? ⟨bytes.toArray⟩

theorem text?_ofText (s : String) : text? (ofText s) = some s := by
  have h : (⟨(ofText s).toArray⟩ : ByteArray) = s.toByteArray := by
    simp [ofText]
  simp only [text?, h, String.fromUTF8?]
  rw [dif_pos s.isValidUTF8]
  rfl

end Octets

end Directory
