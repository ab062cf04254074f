import Directory.Toml.Text

/-!
# Moments in documents

A moment is a date, a time of day, or a date and a time of day behind a `T` or a blank, which may
then have an offset. Months, days, hours, minutes and seconds are checked, leap years and leap
seconds included. Moments are recognised and not kept: no setting is one.
-/

namespace Directory.Toml

/-- Exactly `n` decimal digits. -/
def digitsOf : Nat → Nat → Parser Nat
  | 0, acc, cs => some (acc, cs)
  | n + 1, acc, c :: cs =>
      if c.isDigit then digitsOf n (acc * 10 + (c.toNat - 48)) cs else none
  | _ + 1, _, [] => none

def char (c : Char) : List Char → Option (List Char)
  | d :: cs => if d = c then some cs else none
  | [] => none

def daysIn (year month : Nat) : Nat :=
  if month = 2 then
    if year % 4 = 0 ∧ (year % 100 ≠ 0 ∨ year % 400 = 0) then 29 else 28
  else if month = 4 ∨ month = 6 ∨ month = 9 ∨ month = 11 then 30
  else 31

/-- What follows a date. -/
def date? (cs : List Char) : Option (List Char) := do
  let (year, cs) ← digitsOf 4 0 cs
  let cs ← char '-' cs
  let (month, cs) ← digitsOf 2 0 cs
  let cs ← char '-' cs
  let (day, cs) ← digitsOf 2 0 cs
  if 1 ≤ month ∧ month ≤ 12 ∧ 1 ≤ day ∧ day ≤ daysIn year month then some cs else none

/-- What follows the fraction of a second, if there is one; a lone point is no fraction. -/
def secondFraction (cs : List Char) : List Char :=
  match cs with
  | '.' :: c :: rest => if c.isDigit then rest.dropWhile Char.isDigit else cs
  | _ => cs

def time? (cs : List Char) : Option (List Char) := do
  let (hour, cs) ← digitsOf 2 0 cs
  let cs ← char ':' cs
  let (minute, cs) ← digitsOf 2 0 cs
  let cs ← char ':' cs
  let (second, cs) ← digitsOf 2 0 cs
  if hour ≤ 23 ∧ minute ≤ 59 ∧ second ≤ 60 then some (secondFraction cs) else none

def offset? (cs : List Char) : Option (List Char) :=
  match cs with
  | 'Z' :: rest => some rest
  | 'z' :: rest => some rest
  | c :: rest =>
      if c = '+' ∨ c = '-' then do
        let (hour, rest) ← digitsOf 2 0 rest
        let rest ← char ':' rest
        let (minute, rest) ← digitsOf 2 0 rest
        if hour ≤ 23 ∧ minute ≤ 59 then some rest else none
      else some cs
  | [] => some []

def timeBehindDate (cs : List Char) : List Char :=
  match cs with
  | c :: rest =>
      if c = 'T' ∨ c = 't' ∨ c = ' ' then
        match time? rest with
        | some r => (offset? r).getD r
        | none => cs
      else cs
  | [] => []

def moment? (cs : List Char) : Option (List Char) :=
  match date? cs with
  | some rest => some (timeBehindDate rest)
  | none => time? cs

end Directory.Toml
