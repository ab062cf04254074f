import Directory.Hexadecimal

/-!
# Addresses of hosts

A short address is four octets, written in decimal with points between them: `192.0.2.1`. A long
one is eight groups of sixteen bits, written in hexadecimal with colons: `2001:db8::1`, where `::`
stands for a run of groups that are zero.

There are many ways to spell a long address and one in which it is written: in lower case, without
leading zeros, with `::` for the longest run of at least two zero groups, the first of these if
several are as long. A short address inside a long one is written as such: `::ffff:192.0.2.1`.
-/

namespace Directory.Network

/-- A reader of the front of a text: what it read and what follows. -/
abbrev Reader (α : Type) := List Char → Option (α × List Char)

def behind? (c : Char) : List Char → Option (List Char)
  | d :: rest => if d = c then some rest else none
  | [] => none

def decimalValue (digits : List Char) : Nat :=
  digits.foldl (fun n c => n * 10 + (c.toNat - 48)) 0

/-- A decimal number up to `limit`, leading zeros allowed. -/
def decimal? (limit : Nat) : Reader Nat := fun cs =>
  let digits := cs.takeWhile Char.isDigit
  let n := decimalValue digits
  if digits ≠ [] ∧ n ≤ limit then some (n, cs.drop digits.length) else none

structure ShortAddress where
  first : UInt8
  second : UInt8
  third : UInt8
  fourth : UInt8
  deriving DecidableEq, Repr

namespace ShortAddress

/-- An octet in decimal, without leading zeros. -/
def octet? : Reader UInt8 := fun cs =>
  let digits := cs.takeWhile Char.isDigit
  if digits.length = 1 ∨ digits.head? ≠ some '0' then
    (decimal? 255 cs).map fun (n, rest) => (UInt8.ofNat n, rest)
  else none

def read? : Reader ShortAddress := fun cs => do
  let (first, cs) ← octet? cs
  let (second, cs) ← octet? (← behind? '.' cs)
  let (third, cs) ← octet? (← behind? '.' cs)
  let (fourth, cs) ← octet? (← behind? '.' cs)
  some ({ first, second, third, fourth }, cs)

def text (a : ShortAddress) : String :=
  ".".intercalate ([a.first, a.second, a.third, a.fourth].map fun b => toString b.toNat)

def groups (a : ShortAddress) : List UInt16 := [
  a.first.toUInt16 * 256 + a.second.toUInt16, a.third.toUInt16 * 256 + a.fourth.toUInt16]

def ofGroups (high low : UInt16) : ShortAddress :=
  ⟨(high / 256).toUInt8, high.toUInt8, (low / 256).toUInt8, low.toUInt8⟩

end ShortAddress

structure LongAddress where
  groups : List UInt16
  length_groups : groups.length = 8
  deriving DecidableEq, Repr

namespace LongAddress

/-- A group: one to four hexadecimal digits. -/
def group? : Reader UInt16 := fun cs =>
  let digits := cs.takeWhile fun c => (Hexadecimal.value? c).isSome
  let n := digits.foldl (fun n c => n * 16 + (Hexadecimal.value? c).getD 0) 0
  if 1 ≤ digits.length ∧ digits.length ≤ 4 then
    some (UInt16.ofNat n, cs.drop digits.length)
  else none

/-- Reads as many groups as there are, with colons between them, up to `room`. A short address may
stand for the last two; whether it does is told. -/
def readGroups : (room : Nat) → (leading : Bool) → List Char → List UInt16 × Bool × List Char
  | 0, _, cs => ([], false, cs)
  | room + 1, leading, cs =>
      match if leading then some cs else behind? ':' cs with
      | none => ([], false, cs)
      | some inner =>
          match if 1 ≤ room then ShortAddress.read? inner else none with
          | some (short, rest) => (short.groups, true, rest)
          | none =>
              match group? inner with
              | none => ([], false, cs)
              | some (g, rest) =>
                  let (more, short, rest) := readGroups room false rest
                  (g :: more, short, rest)

def ofGroups? (groups : List UInt16) : Option LongAddress :=
  if h : groups.length = 8 then some ⟨groups, h⟩ else none

/-- Reads a long address. A short one may stand at its end only, and `::` for one group at least. -/
def read? : Reader LongAddress := fun cs =>
  let (front, short, cs) := readGroups 8 true cs
  if front.length = 8 then (ofGroups? front).map fun a => (a, cs)
  else if short then none
  else do
    let cs ← behind? ':' (← behind? ':' cs)
    let (back, _, cs) := readGroups (7 - front.length) true cs
    let gap := List.replicate (8 - front.length - back.length) 0
    (ofGroups? (front ++ gap ++ back)).map fun a => (a, cs)

/-- Where the longest run of zero groups begins and how long it is; the first if several are. -/
def longestGap (groups : List UInt16) : Nat × Nat :=
  (List.range groups.length).foldl
    (fun best start =>
      let size := ((groups.drop start).takeWhile (· == 0)).length
      if best.2 < size then (start, size) else best)
    (0, 0)

def groupsText (groups : List UInt16) : String :=
  ":".intercalate (groups.map fun g => String.ofList (Nat.toDigits 16 g.toNat))

def text (a : LongAddress) : String :=
  match a.groups with
  | [0, 0, 0, 0, 0, 0xFFFF, high, low] => "::ffff:" ++ (ShortAddress.ofGroups high low).text
  | groups =>
      let (start, size) := longestGap groups
      if 2 ≤ size then
        groupsText (groups.take start) ++ "::" ++ groupsText (groups.drop (start + size))
      else groupsText groups

end LongAddress

end Directory.Network
