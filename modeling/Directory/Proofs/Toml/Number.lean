import Mathlib.Algebra.Ring.Int.Defs
import Mathlib.Algebra.Ring.Nat
import Directory.Toml.Document

/-!
# Numbers read back

A number is written in decimal, on the rest of its line. The reader first tries whether a date, a time
or a number with a fraction stands there, and has to find none of them: behind the digits of a number
comes the end of the line, and not the mark that any of these would have there. Then it reads the
digits, and they spell the number that was written (`value_decimal`).

The other way round, no integer that is read is too large to be written again (`lt_of_value`).
-/

namespace Directory.Toml

variable {ds rest : List Char} {n : Nat}

structure Digits (ds : List Char) : Prop where
  ne_nil : ds ≠ []
  isDigit : ∀ c ∈ ds, c.isDigit = true

theorem digits_toDigits (n : Nat) : Digits (Nat.toDigits 10 n) :=
  ⟨Nat.toDigits_ne_nil, fun _ hc => Nat.isDigit_of_mem_toDigits (by decide) (by decide) hc⟩

theorem toNat_of_isDigit {c : Char} (h : c.isDigit = true) : 48 ≤ c.toNat ∧ c.toNat ≤ 57 := by
  simp only [Char.isDigit, Bool.and_eq_true, decide_eq_true_eq, ge_iff_le, UInt32.le_iff_toNat_le]
    at h
  exact h

/-! ## Neither a date nor a time -/

/-- Digits taken off the front of digits leave digits, or the end of the line. -/
theorem digitsOf_digits (k acc : Nat) (hds : ∀ c ∈ ds, c.isDigit = true) {m : Nat}
    {left : List Char} (h : digitsOf k acc (ds ++ '\n' :: rest) = some (m, left)) :
    ∃ more, (∀ c ∈ more, c.isDigit = true) ∧ left = more ++ '\n' :: rest := by
  induction k generalizing acc ds with
  | zero =>
      cases h
      exact ⟨ds, hds, rfl⟩
  | succ k ih =>
      cases ds with
      | nil => cases h
      | cons c ds =>
          rw [List.cons_append, digitsOf, if_pos (hds c List.mem_cons_self)] at h
          exact ih _ (fun d hd => hds d (List.mem_cons_of_mem c hd)) h

theorem char_digits {c : Char} (hds : ∀ c ∈ ds, c.isDigit = true) (hc : c.isDigit = false)
    (hline : c ≠ '\n') : char c (ds ++ '\n' :: rest) = none := by
  cases ds with
  | nil => simp [char, Ne.symm hline]
  | cons d ds =>
      have hne : d ≠ c := by
        rintro rfl
        rw [hds d List.mem_cons_self] at hc
        cases hc
      simp [char, hne]

theorem moment?_digits (hds : ∀ c ∈ ds, c.isDigit = true) (rest : List Char) :
    moment? (ds ++ '\n' :: rest) = none := by
  have hdate : date? (ds ++ '\n' :: rest) = none := by
    unfold date?
    cases h : digitsOf 4 0 (ds ++ '\n' :: rest) with
    | none => rfl
    | some read =>
        obtain ⟨more, hmore, hleft⟩ := digitsOf_digits 4 0 hds h
        simp [hleft, char_digits hmore (c := '-') (by decide) (by decide)]
  have htime : time? (ds ++ '\n' :: rest) = none := by
    unfold time?
    cases h : digitsOf 2 0 (ds ++ '\n' :: rest) with
    | none => rfl
    | some read =>
        obtain ⟨more, hmore, hleft⟩ := digitsOf_digits 2 0 hds h
        simp [hleft, char_digits hmore (c := ':') (by decide) (by decide)]
  rw [moment?, hdate, htime]

/-! ## The digits -/

def worth (c : Char) : Nat := c.toNat - 48

theorem digitValue?_of_isDigit {c : Char} (h : c.isDigit = true) :
    digitValue? 10 c = some (worth c) := by
  obtain ⟨hlow, hhigh⟩ := toNat_of_isDigit h
  have hvalue : Hexadecimal.value? c = some (worth c) := by
    simp [Hexadecimal.value?, worth, hlow, hhigh]
  rw [digitValue?, hvalue, Option.filter_some, if_pos]
  rw [worth, decide_eq_true_eq]
  omega

theorem moreDigits_digits (hds : ∀ c ∈ ds, c.isDigit = true) :
    moreDigits 10 (ds ++ '\n' :: rest) = (ds.map worth, '\n' :: rest) := by
  induction ds with
  | nil => rfl
  | cons c ds ih =>
      have hc := hds c List.mem_cons_self
      have hunderscore : c ≠ '_' := by rintro rfl; cases hc
      rw [List.cons_append, moreDigits, digitValue?_of_isDigit hc]
      · dsimp only
        rw [ih fun d hd => hds d (List.mem_cons_of_mem c hd)]
        rfl
      · intro d more hcons
        exact absurd hcons hunderscore

theorem digitRun_digits (h : Digits ds) (rest : List Char) :
    digitRun 10 (ds ++ '\n' :: rest) = some (ds.map worth, '\n' :: rest) := by
  obtain ⟨hne, hds⟩ := h
  cases ds with
  | nil => exact absurd rfl hne
  | cons c ds =>
      rw [List.cons_append, digitRun, digitValue?_of_isDigit (hds c List.mem_cons_self),
        Option.map_some, moreDigits_digits fun d hd => hds d (List.mem_cons_of_mem c hd)]
      rfl

theorem foldl_worth {bound a b : Nat} (hab : a = min bound b) (ds : List Char) :
    (ds.map worth).foldl (fun acc d => min bound (acc * 10 + d)) a =
      min bound (Nat.ofDigitChars 10 ds b) := by
  induction ds generalizing a b with
  | nil => exact hab
  | cons c ds ih =>
      rw [List.map_cons, List.foldl_cons, Nat.ofDigitChars, List.foldl_cons]
      refine ih ?_
      have hzero : '0'.toNat = 48 := rfl
      rw [worth, hzero]
      omega

/-- Decimal digits spell the number that they were written for, or the bound in place of a larger one.
-/
theorem ofDigits_toDigits (bound n : Nat) :
    ofDigits bound 10 ((Nat.toDigits 10 n).map worth) = min bound n := by
  have hfold := foldl_worth (Nat.min_zero bound).symm (Nat.toDigits 10 n)
  rwa [Nat.ofDigitChars_ten_toDigits] at hfold

theorem head?_toDigits (h : n ≠ 0) : (Nat.toDigits 10 n).head? ≠ some '0' := by
  induction n using Nat.strongRecOn with
  | ind n ih =>
      rw [Nat.toDigits_eq_if (by decide)]
      split
      · rename_i hlt
        intro hhead
        have hzero := congrArg Char.toNat (Option.some.inj hhead)
        rw [Nat.toNat_digitChar_of_lt_ten hlt] at hzero
        have hcode : '0'.toNat = 48 := rfl
        omega
      · rename_i hge
        have htail := ih (n / 10) (by omega) (by omega)
        rw [List.head?_append]
        obtain ⟨c, ds, hcons⟩ :=
          List.exists_cons_of_ne_nil (Nat.toDigits_ne_nil (n := n / 10) (b := 10))
        rw [hcons] at htail ⊢
        exact htail

theorem toDigits_cases (n : Nat) : (n = 0 ∧ Nat.toDigits 10 n = ['0']) ∨
    ∃ c ds, Nat.toDigits 10 n = c :: ds ∧ c.isDigit = true ∧ c ≠ '0' := by
  by_cases hzero : n = 0
  · exact .inl ⟨hzero, by rw [hzero]; rfl⟩
  · obtain ⟨hne, hdigit⟩ := digits_toDigits n
    have hhead := head?_toDigits hzero
    obtain ⟨c, ds, hcons⟩ := List.exists_cons_of_ne_nil hne
    rw [hcons] at hdigit hhead
    exact .inr ⟨c, ds, hcons, hdigit c List.mem_cons_self, fun hc => hhead (by rw [hc]; rfl)⟩

theorem wholeDigits_toDigits (n : Nat) (rest : List Char) :
    wholeDigits (Nat.toDigits 10 n ++ '\n' :: rest) =
      some ((Nat.toDigits 10 n).map worth, '\n' :: rest) := by
  have hread := digitRun_digits (digits_toDigits n) rest
  rcases toDigits_cases n with ⟨-, htext⟩ | ⟨c, ds, htext, -, hzero⟩
  · rw [htext]
    rfl
  · rw [htext] at hread ⊢
    rw [List.cons_append, wholeDigits]
    · exact hread
    · intro more heq
      exact hzero (List.cons.inj heq).1

theorem sign_toDigits (n : Nat) (rest : List Char) :
    sign (Nat.toDigits 10 n ++ rest) = (false, Nat.toDigits 10 n ++ rest) := by
  rcases toDigits_cases n with ⟨-, htext⟩ | ⟨c, ds, htext, hdigit, -⟩
  · rw [htext]
    rfl
  · rw [htext, List.cons_append, sign]
    all_goals
      intro more heq
      rw [(List.cons.inj heq).1] at hdigit
      cases hdigit

/-! ## A whole number and nothing else -/

theorem float?_toDigits (n : Nat) (rest : List Char) :
    float? (Nat.toDigits 10 n ++ '\n' :: rest) = none := by
  have hdecimal : decimalFloat (Nat.toDigits 10 n ++ '\n' :: rest) = none := by
    rw [decimalFloat, sign_toDigits]
    simp [wholeDigits_toDigits, fraction, exponent]
  have hspecial : specialFloat (Nat.toDigits 10 n ++ '\n' :: rest) = none := by
    rw [specialFloat, sign_toDigits]
    obtain ⟨c, ds, htext⟩ := List.exists_cons_of_ne_nil (Nat.toDigits_ne_nil (n := n) (b := 10))
    have hdigit := (digits_toDigits n).isDigit c (by rw [htext]; exact List.mem_cons_self)
    rw [htext]
    dsimp only [List.cons_append]
    split
    · rename_i heq
      rw [(List.cons.inj heq).1] at hdigit
      cases hdigit
    · rename_i heq
      rw [(List.cons.inj heq).1] at hdigit
      cases hdigit
    · rfl
  rw [float?, hdecimal]
  exact hspecial

theorem integer_of_wholeDigits {cs : List Char} {digits : List Nat} {m : Int}
    (hbase : ∀ c more, cs = '0' :: c :: more → c ≠ 'x' ∧ c ≠ 'o' ∧ c ≠ 'b')
    (hsign : sign cs = (false, cs)) (hdigits : wholeDigits cs = some (digits, rest))
    (hfits : fits (ofDigits tooLarge 10 digits : Nat) = some m) :
    integer cs = some (m, rest) := by
  rw [integer]
  · rw [hsign]
    dsimp only
    rw [hdigits, Option.bind_eq_bind, Option.bind_some, if_neg Bool.false_ne_true, hfits]
    rfl
  · intro more heq
    exact absurd rfl (hbase 'x' more heq).1
  · intro more heq
    exact absurd rfl (hbase 'o' more heq).2.1
  · intro more heq
    exact absurd rfl (hbase 'b' more heq).2.2

theorem fits_of_lt (hn : n < 2 ^ 63) : fits (n : Int) = some (n : Int) := by
  rw [fits, if_pos]
  omega

theorem integer_toDigits (hn : n < 2 ^ 63) (rest : List Char) :
    integer (Nat.toDigits 10 n ++ '\n' :: rest) = some ((n : Int), '\n' :: rest) := by
  have hspelt : ofDigits tooLarge 10 ((Nat.toDigits 10 n).map worth) = n := by
    rw [ofDigits_toDigits, tooLarge]
    omega
  refine integer_of_wholeDigits ?_ (sign_toDigits n _) (wholeDigits_toDigits n rest) ?_
  · intro c more heq
    rcases toDigits_cases n with ⟨-, htext⟩ | ⟨d, ds, htext, -, hzero⟩
    · rw [htext] at heq
      simp only [List.cons_append, List.nil_append, List.cons.injEq, true_and] at heq
      obtain ⟨rfl, -⟩ := heq
      decide
    · rw [htext, List.cons_append] at heq
      exact absurd (List.cons.inj heq).1 hzero
  · rw [hspelt]
    exact fits_of_lt hn

/-- **A number reads back** from its decimal digits on the rest of a line. -/
theorem value_toDigits (hn : n < 2 ^ 63) (bound depth : Nat) (rest : List Char) :
    value (bound + 1) depth (Nat.toDigits 10 n ++ '\n' :: rest) =
      some (.integer n, '\n' :: rest) := by
  have hmoment := moment?_digits (digits_toDigits n).isDigit rest
  have hfloat := float?_toDigits n rest
  have hinteger := integer_toDigits hn rest
  obtain ⟨c, ds, htext⟩ := List.exists_cons_of_ne_nil (Nat.toDigits_ne_nil (n := n) (b := 10))
  have hdigit := (digits_toDigits n).isDigit c (by rw [htext]; exact List.mem_cons_self)
  rw [htext, List.cons_append] at hmoment hfloat hinteger ⊢
  rw [value, hmoment, hfloat, hinteger]
  · rfl
  all_goals
    intros
    rename_i heq
    rw [(List.cons.inj heq).1] at hdigit
    cases hdigit

/-! ## What is read can be written -/

theorem lt_of_fits {m k : Int} (h : fits m = some k) : k < 2 ^ 63 := by
  unfold fits at h
  split at h
  · cases h
    omega
  · cases h

theorem lt_of_integer {cs : List Char} {m : Int} (h : integer cs = some (m, rest)) : m < 2 ^ 63 := by
  have hbased : ∀ {base : Nat} {cs : List Char}, based base cs = some (m, rest) → m < 2 ^ 63 := by
    intro base cs h
    simp only [based, Option.bind_eq_bind, Option.bind_eq_some_iff] at h
    obtain ⟨_, _, k, hfits, h⟩ := h
    cases h
    exact lt_of_fits hfits
  unfold integer at h
  split at h
  · exact hbased h
  · exact hbased h
  · exact hbased h
  · simp only [Option.bind_eq_bind, Option.bind_eq_some_iff] at h
    obtain ⟨_, _, k, hfits, h⟩ := h
    cases h
    exact lt_of_fits hfits

/-- No integer that is read is too large for a document. -/
theorem lt_of_value {bound depth : Nat} {cs : List Char} {m : Int}
    (h : value bound depth cs = some (.integer m, rest)) : m < 2 ^ 63 := by
  cases bound with
  | zero => cases h
  | succ bound =>
      unfold value at h
      split at h
      -- Text, arrays, tables in braces and truth values are something else; what is left is a number.
      · simp at h
      · simp at h
      · split at h <;> simp at h
      · split at h
        · split at h <;> simp at h
        · cases h
      · cases h
      · cases h
      · split at h
        · cases h
        · split at h
          · cases h
          · obtain ⟨⟨k, behind⟩, hinteger, heq⟩ := Option.map_eq_some_iff.mp h
            cases heq
            exact lt_of_integer hinteger

end Directory.Toml
