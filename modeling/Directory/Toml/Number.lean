import Directory.Toml.Text

/-!
# Numbers in documents

An integer is decimal with an optional sign and without leading zeros, or hexadecimal, octal or
binary behind `0x`, `0o` or `0b` without a sign; single underscores may separate digits. It must
fit in 64 bits with a sign. A number with a fraction or an exponent is recognised by its form; a
positive one that is too large for a double is refused.
-/

namespace Directory.Toml

def digitValue? (base : Nat) (c : Char) : Option Nat := (Hexadecimal.value? c).filter (· < base)

/-- Further digits, each of which an underscore may precede. -/
def moreDigits (base : Nat) : List Char → List Nat × List Char
  | '_' :: c :: rest =>
      match digitValue? base c with
      | some d => let (ds, r) := moreDigits base rest; (d :: ds, r)
      | none => ([], '_' :: c :: rest)
  | c :: rest =>
      match digitValue? base c with
      | some d => let (ds, r) := moreDigits base rest; (d :: ds, r)
      | none => ([], c :: rest)
  | [] => ([], [])

def digitRun (base : Nat) : Parser (List Nat)
  | c :: rest =>
      (digitValue? base c).map fun d =>
        let (ds, r) := moreDigits base rest
        (d :: ds, r)
  | [] => none

/-- The number that digits spell, or the bound if that is smaller. -/
def ofDigits (bound base : Nat) (ds : List Nat) : Nat :=
  ds.foldl (fun acc d => min bound (acc * base + d)) 0

def wholeDigits : Parser (List Nat)
  | '0' :: rest => some ([0], rest)
  | cs => digitRun 10 cs

def sign : List Char → Bool × List Char
  | '-' :: rest => (true, rest)
  | '+' :: rest => (false, rest)
  | cs => (false, cs)

def fits (n : Int) : Option Int :=
  if -0x8000000000000000 ≤ n ∧ n < 0x8000000000000000 then some n else none

def tooLarge : Nat := 0x8000000000000001

def based (base : Nat) (cs : List Char) : Option (Int × List Char) := do
  let (ds, rest) ← digitRun base cs
  let n ← fits (ofDigits tooLarge base ds)
  some (n, rest)

def integer : Parser Int
  | '0' :: 'x' :: rest => based 16 rest
  | '0' :: 'o' :: rest => based 8 rest
  | '0' :: 'b' :: rest => based 2 rest
  | cs => do
      let (negative, cs) := sign cs
      let (ds, rest) ← wholeDigits cs
      let magnitude : Int := ofDigits tooLarge 10 ds
      let n ← fits (if negative then -magnitude else magnitude)
      some (n, rest)

def fraction : Parser (List Nat)
  | '.' :: rest => digitRun 10 rest
  | cs => some ([], cs)

/-- Once an exponent has come this far, no further digit of it is read. -/
def exponentBound : Nat := 0x10000

/-- The number that the digits of an exponent stand for: what they spell up to the first place where
it reaches the bound, whatever follows. -/
def exponentOf (ds : List Nat) : Nat :=
  ds.foldl (fun e d => if e < exponentBound then e * 10 + d else e) 0

def exponent : Parser (Option Int)
  | c :: rest =>
      if c = 'e' ∨ c = 'E' then do
        let (negative, rest) := sign rest
        let (ds, rest) ← digitRun 10 rest
        let magnitude : Int := exponentOf ds
        some (some (if negative then -magnitude else magnitude), rest)
      else some (none, c :: rest)
  | [] => some (none, [])

/-- The least number that a double rounds to infinity: half a step above the largest one. -/
def doubleOverflow : Nat := Nat.pow 2 1024 - Nat.pow 2 970

/-- The number that some digits spell, scaled by a power of ten, is too large for a double. Digits
behind the point make no difference, because the least number that is too large is whole. -/
def overflows (ds : List Nat) (e : Int) : Bool :=
  let ds := ds.dropWhile (· == 0)
  let places : Int := ds.length + e
  if ds.isEmpty || places ≤ 0 then false
  else if 400 < places then true
  else
    let whole := (ds ++ List.replicate e.toNat 0).take places.toNat
    doubleOverflow ≤ ofDigits doubleOverflow 10 whole

def decimalFloat (cs : List Char) : Option (List Char) := do
  let (negative, cs) := sign cs
  let (whole, cs) ← wholeDigits cs
  let (part, cs') ← fraction cs
  let (exp, rest) ← exponent cs'
  if part.isEmpty && exp.isNone then none
  else if !negative && overflows (whole ++ part) (exp.getD 0 - part.length) then none
  else some rest

def specialFloat (cs : List Char) : Option (List Char) :=
  match (sign cs).2 with
  | 'i' :: 'n' :: 'f' :: rest => some rest
  | 'n' :: 'a' :: 'n' :: rest => some rest
  | _ => none

def float? (cs : List Char) : Option (List Char) :=
  (decimalFloat cs).orElse fun _ => specialFloat cs

end Directory.Toml
