/-!
# Hexadecimal digits
-/

namespace Directory.Hexadecimal

/-- The digit of a number below sixteen, in upper case. -/
def digit (n : Nat) : Char := if n < 10 then Char.ofNat (n + 48) else Char.ofNat (n + 55)

def value? (c : Char) : Option Nat :=
  let n := c.toNat
  if 48 ≤ n ∧ n ≤ 57 then some (n - 48)
  else if 65 ≤ n ∧ n ≤ 70 then some (n - 55)
  else if 97 ≤ n ∧ n ≤ 102 then some (n - 87)
  else none

theorem value?_digit : ∀ n < 16, value? (digit n) = some n := by decide

end Directory.Hexadecimal
