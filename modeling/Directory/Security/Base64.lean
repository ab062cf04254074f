import Directory.Octets

/-!
# Base64

Four characters of the alphabet spell three octets. A last group of two or three characters spells
one or two; pads may fill it up to four, and if any pad is there, all are. Blanks and line ends are
skipped wherever they stand. Bits of the last group that spell no octet are not looked at.
-/

namespace Directory.Base64

def sextet? (b : UInt8) : Option Nat :=
  let n := b.toNat
  if 65 ≤ n ∧ n ≤ 90 then some (n - 65)
  else if 97 ≤ n ∧ n ≤ 122 then some (n - 71)
  else if 48 ≤ n ∧ n ≤ 57 then some (n + 4)
  else if n = 43 then some 62
  else if n = 47 then some 63
  else none

def pad : UInt8 := 61

/-- A space, or one of the five ASCII controls from the tab to the carriage return. -/
def isBlank (b : UInt8) : Bool := b == 32 || (9 ≤ b && b ≤ 13)

def octets (bits : Nat) : Octets :=
  [UInt8.ofNat (bits / 65536), UInt8.ofNat (bits / 256 % 256), UInt8.ofNat (bits % 256)]

/-- The octets of a last group without its pads: those that its characters spell in full. -/
def lastGroup? : List UInt8 → Option Octets
  | [] => some []
  | [a, b] => do
      let a ← sextet? a
      let b ← sextet? b
      some ((octets (a * 262144 + b * 4096)).take 1)
  | [a, b, c] => do
      let a ← sextet? a
      let b ← sextet? b
      let c ← sextet? c
      some ((octets (a * 262144 + b * 4096 + c * 64)).take 2)
  | _ => none

def fullGroup? (a b c d : UInt8) : Option Octets := do
  let a ← sextet? a
  let b ← sextet? b
  let c ← sextet? c
  let d ← sextet? d
  some (octets (a * 262144 + b * 4096 + c * 64 + d))

def decodeGroups : List UInt8 → Option Octets
  | [a, b, c, d] =>
      if d = pad then lastGroup? (if c = pad then [a, b] else [a, b, c])
      else fullGroup? a b c d
  | a :: b :: c :: d :: rest => do
      let group ← fullGroup? a b c d
      let more ← decodeGroups rest
      some (group ++ more)
  | last => lastGroup? last

def decode? (characters : List UInt8) : Option Octets :=
  decodeGroups (characters.filter fun b => !isBlank b)

end Directory.Base64
