/-!
# Spans of time

A span is a whole number of nanoseconds. It is written in the largest of the units s, ms, µs and ns
that is not below one, with the exact fraction and without trailing zeros; zero is `0ns`.
-/

namespace Directory

structure Span where
  nanos : Nat
  deriving DecidableEq, Repr

namespace Span

/-- A unit in which a span can be written: its size and the decimal digits of its fraction. -/
structure Scale where
  nanos : Nat
  places : Nat
  symbol : String

def scales : List Scale := [⟨1000000000, 9, "s"⟩, ⟨1000000, 6, "ms"⟩, ⟨1000, 3, "µs"⟩]

def zero : Span := ⟨0⟩

def ofMillis (n : Nat) : Span := ⟨n * 1000000⟩

def ofSecs (secs nanos : Nat) : Span := ⟨secs * 1000000000 + nanos⟩

/-- The last `places` decimal digits of a number, leading zeros included. -/
def decimals : Nat → Nat → List Char
  | 0, _ => []
  | places + 1, n => decimals places (n / 10) ++ [Char.ofNat (n % 10 + 48)]

def trimZeros (digits : List Char) : List Char := (digits.reverse.dropWhile (· == '0')).reverse

/-- A span in a given unit, with the fraction that is left of it. -/
def inScale (d : Span) (u : Scale) : String :=
  let fraction := trimZeros (decimals u.places (d.nanos % u.nanos))
  let whole := toString (d.nanos / u.nanos)
  match fraction with
  | [] => whole ++ u.symbol
  | _ => whole ++ "." ++ String.ofList fraction ++ u.symbol

def text (d : Span) : String :=
  match scales.find? fun u => u.nanos ≤ d.nanos with
  | some u => d.inScale u
  | none => toString d.nanos ++ "ns"

end Span

end Directory
