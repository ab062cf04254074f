import Mathlib.Data.List.Infix
import Directory.Toml.Quoted

/-!
# Quoted text reads back

A text is written in one of four ways, chosen by the characters in it, and whichever is chosen the
text is read back (`quoted_quote`). For each way of quoting there is one induction along the text, and
nothing but the choice (`Quoting.Suits`) says what the text may hold.

Between triple quotes one or two quotes may also stand in the text, right before the closing ones too.
There the reader meets up to five quotes in a row and has to give the first of them to the text
(`closing_text`), while everywhere else a quote is followed by something that is none
(`head_escapeText`).
-/

namespace Directory.Toml

variable {c q : Char} {cs rest : List Char}

/-! ## Runs of one character -/

/-- One character more: the longest run so far, and the run that it ends. -/
def runStep (q : Char) (runs : Nat × Nat) (c : Char) : Nat × Nat :=
  if c = q then (max runs.1 (runs.2 + 1), runs.2 + 1) else (runs.1, 0)

theorem longestRun_eq (q : Char) (cs : List Char) :
    longestRun q cs = (cs.foldl (runStep q) (0, 0)).1 := rfl

theorem le_foldl_runStep (q : Char) (cs : List Char) (runs : Nat × Nat) :
    runs.1 ≤ (cs.foldl (runStep q) runs).1 := by
  induction cs generalizing runs with
  | nil => exact Nat.le_refl _
  | cons c cs ih =>
      refine Nat.le_trans ?_ (ih (runStep q runs c))
      unfold runStep
      split
      · exact Nat.le_max_left _ _
      · exact Nat.le_refl _

theorem le_foldl_replicate (q : Char) (k : Nat) (runs : Nat × Nat) :
    runs.2 + k ≤ ((List.replicate k q).foldl (runStep q) runs).2 := by
  induction k generalizing runs with
  | zero => exact Nat.le_refl _
  | succ k ih =>
      rw [List.replicate_succ, List.foldl_cons]
      refine Nat.le_trans ?_ (ih (runStep q runs q))
      rw [runStep, if_pos rfl]
      dsimp only
      omega

theorem snd_le_fst_runStep (q : Char) (cs : List Char) (runs : Nat × Nat) (h : runs.2 ≤ runs.1) :
    (cs.foldl (runStep q) runs).2 ≤ (cs.foldl (runStep q) runs).1 := by
  induction cs generalizing runs with
  | nil => exact h
  | cons c cs ih =>
      refine ih _ ?_
      unfold runStep
      split
      · exact Nat.le_max_right _ _
      · exact Nat.zero_le _

theorem le_longestRun {k : Nat} (h : List.replicate k q <:+: cs) : k ≤ longestRun q cs := by
  obtain ⟨before, behind, rfl⟩ := h
  rw [longestRun_eq, List.foldl_append, List.foldl_append]
  have hbefore := snd_le_fst_runStep q before (0, 0) (Nat.le_refl 0)
  have hrun := le_foldl_replicate q k (before.foldl (runStep q) (0, 0))
  have hfst := snd_le_fst_runStep q (List.replicate k q) _ hbefore
  have hbehind := le_foldl_runStep q behind
    ((List.replicate k q).foldl (runStep q) (before.foldl (runStep q) (0, 0)))
  omega

/-- No three in a row. -/
def Sparse (q : Char) (cs : List Char) : Prop := ¬[q, q, q] <:+: cs

theorem Sparse.of_cons (h : Sparse q (c :: cs)) : Sparse q cs :=
  fun htriple => h (htriple.trans (List.suffix_cons c cs).isInfix)

theorem sparse_of_longestRun (h : longestRun q cs ≤ 2) : Sparse q cs := by
  intro htriple
  have := le_longestRun (k := 3) htriple
  omega

theorem not_mem_of_longestRun (h : longestRun q cs = 0) : q ∉ cs := by
  intro hmem
  obtain ⟨before, behind, rfl⟩ := List.append_of_mem hmem
  have hone : List.replicate 1 q <:+: before ++ q :: behind := ⟨before, behind, by simp⟩
  have := le_longestRun hone
  omega

/-! ## What the choice of a quoting promises -/

/-- A text that needs no escape in the way in which it is quoted without any. -/
def Quoting.Suits : Quoting → List Char → Prop
  | basic, _ => True
  | literal, cs => (∀ c ∈ cs, needsEscape c = false) ∧ '\'' ∉ cs ∧ '\n' ∉ cs
  | basicLines, _ => True
  | literalLines, cs => (∀ c ∈ cs, needsEscape c = false) ∧ Sparse '\'' cs

theorem Quoting.suits_choose (cs : List Char) : (Quoting.choose cs).Suits cs := by
  unfold Quoting.choose
  dsimp only
  split
  · trivial
  · split
    · rename_i h
      simp only [Bool.and_eq_true, Bool.not_eq_true', beq_iff_eq, List.any_eq_false,
        Bool.not_eq_true, List.contains_eq_mem, decide_eq_false_iff_not] at h
      exact ⟨h.1.1, not_mem_of_longestRun h.1.2, h.2⟩
    · split
      · trivial
      · split
        · rename_i h
          simp only [Bool.and_eq_true, Bool.not_eq_true', List.any_eq_false, Bool.not_eq_true,
            decide_eq_true_eq] at h
          exact ⟨h.1, sparse_of_longestRun h.2⟩
        · split
          · trivial
          · trivial

/-- A character that needs no escape may stand in a comment, unless it ends a line. -/
theorem isCommentChar_of_plain (h : needsEscape c = false) (hline : c ≠ '\n') :
    isCommentChar c = true := by
  by_cases htab : c = '\t'
  · subst htab
    rfl
  · simp only [needsEscape, bne_iff_ne, ne_eq, htab, hline, not_false_eq_true, Bool.and_eq_false_imp,
      Bool.and_eq_true, Bool.or_eq_false_iff, decide_eq_false_iff_not, beq_eq_false_iff_ne,
      and_self, forall_const] at h
    simp only [isCommentChar, isWide, Bool.or_eq_true, Bool.and_eq_true, decide_eq_true_eq]
    omega

/-! ## Escapes -/

theorem charOfHex?_digits (h : c.toNat < 256) (rest : List Char) :
    charOfHex? 4 ('0' :: '0' :: Hexadecimal.digit (c.toNat / 16) ::
      Hexadecimal.digit (c.toNat % 16) :: rest) = some (c, rest) := by
  have hzero : Hexadecimal.value? '0' = some 0 := rfl
  have hhigh := Hexadecimal.value?_digit (c.toNat / 16) (by omega)
  have hlow := Hexadecimal.value?_digit (c.toNat % 16) (by omega)
  have hcode : c.toNat / 16 * 16 + c.toNat % 16 = c.toNat := by omega
  have hvalid : c.toNat.isValidChar := c.valid
  simp [charOfHex?, hzero, hhigh, hlow, hcode, hvalid]

/-- What follows the backslash of an escape stands for a character, and does not continue a line. -/
def StandsFor (code : List Char) (c : Char) : Prop :=
  ∀ rest, escape? (code ++ rest) = some (c, rest) ∧ continued? (code ++ rest) = none

theorem standsFor_escapeControl (h : c.toNat < 256) :
    ∃ code, escapeControl c = '\\' :: code ∧ StandsFor code c := by
  unfold escapeControl
  split
  · subst c
    exact ⟨['b'], rfl, fun rest => ⟨rfl, rfl⟩⟩
  · split
    · subst c
      exact ⟨['t'], rfl, fun rest => ⟨rfl, rfl⟩⟩
    · split
      · subst c
        exact ⟨['n'], rfl, fun rest => ⟨rfl, rfl⟩⟩
      · split
        · subst c
          exact ⟨['f'], rfl, fun rest => ⟨rfl, rfl⟩⟩
        · split
          · subst c
            exact ⟨['r'], rfl, fun rest => ⟨rfl, rfl⟩⟩
          · exact ⟨['u', '0', '0', Hexadecimal.digit (c.toNat / 16),
              Hexadecimal.digit (c.toNat % 16)], rfl,
              fun rest => ⟨charOfHex?_digits h rest, rfl⟩⟩

theorem toNat_lt_of_needsEscape (h : needsEscape c = true) : c.toNat < 256 := by
  simp only [needsEscape, Bool.and_eq_true, Bool.or_eq_true, decide_eq_true_eq, beq_iff_eq] at h
  omega

/-- How one character is written between double quotes, when a number of them stand right before it,
and how many stand before the next one. -/
inductive Escapes (lines : Bool) : Nat → Char → List Char → Nat → Prop
  | quote {run : Nat} : lines = true → run < 2 → Escapes lines run '"' ['"'] (run + 1)
  | lineEnd {run : Nat} : lines = true → Escapes lines run '\n' ['\n'] 0
  | code {run : Nat} {c : Char} {code : List Char} :
      StandsFor code c → Escapes lines run c ('\\' :: code) 0
  | plain {run : Nat} {c : Char} : isBasicChar c = true → Escapes lines run c [c] 0

/-- **A text is written character by character**, each in one of four ways. -/
theorem escapeText_cons (lines : Bool) (run : Nat) (c : Char) (cs : List Char) :
    ∃ piece next, Escapes lines run c piece next ∧
      escapeText lines run (c :: cs) = piece ++ escapeText lines next cs := by
  rw [escapeText]
  split
  · subst c
    split
    · rename_i h
      rw [Bool.and_eq_true, decide_eq_true_eq] at h
      exact ⟨_, _, .quote h.1 h.2, rfl⟩
    · exact ⟨_, _, .code (show StandsFor ['"'] _ from fun rest => ⟨rfl, rfl⟩), rfl⟩
  · rename_i hquote
    split
    · subst c
      exact ⟨_, _, .code (show StandsFor ['\\'] _ from fun rest => ⟨rfl, rfl⟩), rfl⟩
    · rename_i hslash
      split
      · subst c
        cases lines with
        | true => exact ⟨_, _, .lineEnd rfl, rfl⟩
        | false => exact ⟨_, _, .code (show StandsFor ['n'] _ from fun rest => ⟨rfl, rfl⟩), rfl⟩
      · rename_i hline
        split
        · rename_i h
          have hsmall : c.toNat < 256 := by
            rw [Bool.or_eq_true, decide_eq_true_eq] at h
            rcases h with rfl | h
            · decide
            · exact toNat_lt_of_needsEscape h
          obtain ⟨code, hcode, hstands⟩ := standsFor_escapeControl hsmall
          exact ⟨_, _, .code hstands, by rw [hcode]⟩
        · rename_i h
          rw [Bool.or_eq_true, not_or, Bool.not_eq_true (needsEscape c)] at h
          have hchar : isBasicChar c = true := by
            simp [isBasicChar, isCommentChar_of_plain h.2 hline, hquote, hslash]
          exact ⟨_, _, .plain hchar, rfl⟩

theorem ne_of_isBasicChar (h : isBasicChar c = true) : c ≠ '"' ∧ c ≠ '\\' ∧ c ≠ '\r' := by
  refine ⟨?_, ?_, ?_⟩ <;> rintro rfl <;> cases h

/-- What is written begins with a quote only for a quote, over several lines, and if fewer than two
stand before it. -/
theorem head_escapeText (lines : Bool) {run : Nat} (h : lines = true → c ≠ '"' ∨ 2 ≤ run)
    (cs : List Char) : ∃ d more, escapeText lines run (c :: cs) = d :: more ∧ d ≠ '"' := by
  obtain ⟨piece, next, hpiece, hcons⟩ := escapeText_cons lines run c cs
  rw [hcons]
  cases hpiece with
  | quote hlines hrun =>
      rcases h hlines with hc | htwo
      · exact absurd rfl hc
      · omega
  | lineEnd => exact ⟨_, _, rfl, by decide⟩
  | code => exact ⟨_, _, rfl, by decide⟩
  | plain hchar => exact ⟨_, _, rfl, (ne_of_isBasicChar hchar).1⟩

/-! ## Between double quotes on one line -/

theorem basicText_code {code : List Char} (h : StandsFor code c) (rest : List Char) :
    basicText ('\\' :: (code ++ rest)) = (basicText rest).map fun (cs, r) => (c :: cs, r) := by
  rw [basicText]
  split
  · rename_i hnone
    rw [(h rest).1] at hnone
    cases hnone
  · rename_i hsome
    rw [(h rest).1] at hsome
    cases hsome
    rfl

theorem basicText_char (h : isBasicChar c = true) (rest : List Char) :
    basicText (c :: rest) = (basicText rest).map fun (cs, r) => (c :: cs, r) := by
  obtain ⟨hquote, hslash, -⟩ := ne_of_isBasicChar h
  rw [basicText, if_pos h]
  · exact hquote
  · exact hslash

theorem basicText_escapeText (run : Nat) (cs rest : List Char) :
    basicText (escapeText false run cs ++ '"' :: rest) = some (cs, rest) := by
  induction cs generalizing run with
  | nil => rw [escapeText, List.nil_append, basicText]
  | cons c cs ih =>
      obtain ⟨piece, next, hpiece, hcons⟩ := escapeText_cons false run c cs
      rw [hcons, List.append_assoc]
      cases hpiece with
      | quote hlines => cases hlines
      | lineEnd hlines => cases hlines
      | code hstands =>
          rw [List.cons_append, basicText_code hstands, ih]
          rfl
      | plain hchar =>
          rw [List.singleton_append, basicText_char hchar, ih]
          rfl

/-! ## Between single quotes on one line -/

theorem literalText_plain (hplain : ∀ c ∈ cs, needsEscape c = false) (hquote : '\'' ∉ cs)
    (hline : '\n' ∉ cs) (rest : List Char) :
    literalText (cs ++ '\'' :: rest) = some (cs, rest) := by
  induction cs with
  | nil => rw [List.nil_append, literalText]
  | cons c cs ih =>
      rw [List.mem_cons, not_or] at hquote hline
      have hchar : isLiteralChar c = true := by
        simp [isLiteralChar, isCommentChar_of_plain (hplain c List.mem_cons_self) (Ne.symm hline.1),
          Ne.symm hquote.1]
      have hmore := ih (fun d hd => hplain d (List.mem_cons_of_mem c hd)) hquote.2 hline.2
      rw [List.cons_append, literalText, if_pos hchar, hmore]
      · rfl
      · exact Ne.symm hquote.1

/-! ## Between triple quotes -/

/-- **The closing quotes.** Up to two quotes before them belong to the text. -/
theorem closing_text (hrest : rest.head? ≠ some q) :
    closing q rest = some ([], rest) ∧ closing q (q :: rest) = some ([q], rest) ∧
      closing q (q :: q :: rest) = some ([q, q], rest) := by
  cases rest with
  | nil => simp [closing]
  | cons a more =>
      have ha : a ≠ q := by simpa using hrest
      cases more with
      | nil => simp [closing, ha]
      | cons b more => simp [closing, ha]

theorem basicLines_closing (rest : List Char) :
    basicLines ('"' :: '"' :: '"' :: rest) = closing '"' rest := by
  rw [basicLines]

theorem basicLines_quote {tail : List Char} (h : ∀ more, tail ≠ '"' :: '"' :: more) :
    basicLines ('"' :: tail) = (basicLines tail).map fun (cs, r) => ('"' :: cs, r) := by
  rw [basicLines, if_pos (by decide)]
  · intro more _
    exact h more
  · simp
  · simp

theorem basicLines_lineEnd (rest : List Char) :
    basicLines ('\n' :: rest) = (basicLines rest).map fun (cs, r) => ('\n' :: cs, r) := by
  rw [basicLines, if_pos (by decide)]
  · simp
  · simp
  · simp

theorem basicLines_char (h : isBasicChar c = true) (rest : List Char) :
    basicLines (c :: rest) = (basicLines rest).map fun (cs, r) => (c :: cs, r) := by
  obtain ⟨hquote, hslash, hreturn⟩ := ne_of_isBasicChar h
  rw [basicLines, if_pos (by simp [h])]
  · simp [hquote]
  · simp [hreturn]
  · exact hslash

theorem basicLines_code {code : List Char} (h : StandsFor code c) (rest : List Char) :
    basicLines ('\\' :: (code ++ rest)) = (basicLines rest).map fun (cs, r) => (c :: cs, r) := by
  rw [basicLines]
  split
  · rename_i hsome
    rw [(h rest).2] at hsome
    cases hsome
  · split
    · rename_i hnone
      rw [(h rest).1] at hnone
      cases hnone
    · rename_i hsome
      rw [(h rest).1] at hsome
      cases hsome
      rfl

/-- Behind a quote of the text the closing ones follow, or one more and then they, or no two quotes. -/
theorem behind_quote {run : Nat} (hrun : run < 2) (cs : List Char) :
    cs = [] ∨ (run = 0 ∧ cs = ['"']) ∨
      ∀ tail more, escapeText true (run + 1) cs ++ tail ≠ '"' :: '"' :: more := by
  cases cs with
  | nil => exact .inl rfl
  | cons c cs =>
      refine .inr ?_
      by_cases h : c = '"' ∧ run = 0
      · obtain ⟨rfl, rfl⟩ := h
        cases cs with
        | nil => exact .inl ⟨rfl, rfl⟩
        | cons d ds =>
            obtain ⟨e, more, hcons, hne⟩ :=
              head_escapeText (c := d) true (fun _ => .inr (Nat.le_refl 2)) ds
            have htwo : escapeText true 1 ('"' :: d :: ds) = '"' :: e :: more := by
              rw [escapeText, if_pos rfl, if_pos (by decide), hcons]
            refine .inr fun tail rest heq => ?_
            rw [htwo] at heq
            simp only [List.cons_append, List.cons.injEq] at heq
            exact hne heq.2.1
      · have hhead : c ≠ '"' ∨ 2 ≤ run + 1 := by
          by_cases hc : c = '"'
          · have : run ≠ 0 := fun hzero => h ⟨hc, hzero⟩
            omega
          · exact .inl hc
        obtain ⟨e, more, hcons, hne⟩ := head_escapeText true (fun _ => hhead) cs
        refine .inr fun tail rest heq => ?_
        rw [hcons] at heq
        simp only [List.cons_append, List.cons.injEq] at heq
        exact hne heq.1

theorem basicLines_escapeText (run : Nat) (hrest : rest.head? ≠ some '"') (cs : List Char) :
    basicLines (escapeText true run cs ++ '"' :: '"' :: '"' :: rest) = some (cs, rest) := by
  induction cs generalizing run with
  | nil => rw [escapeText, List.nil_append, basicLines_closing, (closing_text hrest).1]
  | cons c cs ih =>
      obtain ⟨piece, next, hpiece, hcons⟩ := escapeText_cons true run c cs
      rw [hcons, List.append_assoc]
      cases hpiece with
      | quote _ hrun =>
          rw [List.singleton_append]
          rcases behind_quote hrun cs with rfl | ⟨rfl, rfl⟩ | hpair
          · exact (basicLines_closing _).trans (closing_text hrest).2.1
          · exact (basicLines_closing _).trans (closing_text hrest).2.2
          · rw [basicLines_quote fun more => hpair _ more, ih]
            rfl
      | lineEnd =>
          rw [List.singleton_append, basicLines_lineEnd, ih]
          rfl
      | code hstands =>
          rw [List.cons_append, basicLines_code hstands, ih]
          rfl
      | plain hchar =>
          rw [List.singleton_append, basicLines_char hchar, ih]
          rfl

theorem literalLines_closing (rest : List Char) :
    literalLines ('\'' :: '\'' :: '\'' :: rest) = closing '\'' rest := by
  rw [literalLines]

theorem literalLines_quote {tail : List Char} (h : ∀ more, tail ≠ '\'' :: '\'' :: more) :
    literalLines ('\'' :: tail) = (literalLines tail).map fun (cs, r) => ('\'' :: cs, r) := by
  rw [literalLines, if_pos (by decide)]
  · intro more _
    exact h more
  · simp

theorem literalLines_char (hplain : needsEscape c = false) (hquote : c ≠ '\'') (rest : List Char) :
    literalLines (c :: rest) = (literalLines rest).map fun (cs, r) => (c :: cs, r) := by
  have hreturn : c ≠ '\r' := by rintro rfl; cases hplain
  have hchar : (isLiteralChar c || c == '\'' || c == '\n') = true := by
    by_cases hline : c = '\n'
    · simp [hline]
    · simp [isLiteralChar, isCommentChar_of_plain hplain hline, hquote]
  rw [literalLines, if_pos hchar]
  · simp [hquote]
  · simp [hreturn]

theorem Sparse.behind (h : Sparse q (q :: cs)) :
    cs = [] ∨ cs = [q] ∨ ∀ tail more, cs ++ tail ≠ q :: q :: more := by
  rcases cs with _ | ⟨c, _ | ⟨d, ds⟩⟩
  · exact .inl rfl
  · by_cases hc : c = q
    · exact .inr (.inl (by rw [hc]))
    · refine .inr (.inr fun tail more heq => ?_)
      exact hc (List.cons.inj heq).1
  · refine .inr (.inr fun tail more heq => ?_)
    simp only [List.cons_append, List.cons.injEq] at heq
    obtain ⟨rfl, rfl, -⟩ := heq
    exact h ⟨[], ds, rfl⟩

theorem literalLines_sparse (hrest : rest.head? ≠ some '\'')
    (hplain : ∀ c ∈ cs, needsEscape c = false) (hsparse : Sparse '\'' cs) :
    literalLines (cs ++ '\'' :: '\'' :: '\'' :: rest) = some (cs, rest) := by
  induction cs with
  | nil => rw [List.nil_append, literalLines_closing, (closing_text hrest).1]
  | cons c cs ih =>
      have hmore := ih (fun d hd => hplain d (List.mem_cons_of_mem c hd)) hsparse.of_cons
      rw [List.cons_append]
      by_cases hquote : c = '\''
      · subst c
        rcases hsparse.behind with rfl | rfl | hpair
        · exact (literalLines_closing _).trans (closing_text hrest).2.1
        · exact (literalLines_closing _).trans (closing_text hrest).2.2
        · rw [literalLines_quote fun more => hpair _ more, hmore]
          rfl
      · rw [literalLines_char (hplain c List.mem_cons_self) hquote, hmore]
        rfl

/-! ## Any way of quoting -/

/-- What may stand behind quoted text: anything but a further quote. -/
def Unquoted (rest : List Char) : Prop := rest.head? ≠ some '"' ∧ rest.head? ≠ some '\''

/-- The line end that is put behind opening triple quotes is the one that is dropped there. -/
theorem dropFirstLineEnd_text {body : List Char} (h : '\n' ∉ cs → lineEnd? body = none) :
    dropFirstLineEnd ((if cs.contains '\n' then ['\n'] else []) ++ body) = body := by
  by_cases hline : '\n' ∈ cs
  · rw [List.contains_eq_mem, decide_eq_true hline]
    rfl
  · rw [List.contains_eq_mem, decide_eq_false hline, if_neg Bool.false_ne_true, List.nil_append,
      dropFirstLineEnd, h hline]
    rfl

theorem lineEnd?_cons (hline : c ≠ '\n') (hreturn : c ≠ '\r') (rest : List Char) :
    lineEnd? (c :: rest) = none := by
  unfold lineEnd?
  split
  · rename_i heq
    exact absurd (List.cons.inj heq).1 hline
  · rename_i heq
    exact absurd (List.cons.inj heq).1 hreturn
  · rfl

theorem lineEnd?_escapeText (hline : '\n' ∉ cs) (rest : List Char) :
    lineEnd? (escapeText true 0 cs ++ '"' :: rest) = none := by
  cases cs with
  | nil => rfl
  | cons c cs =>
      obtain ⟨piece, next, hpiece, hcons⟩ := escapeText_cons true 0 c cs
      rw [hcons]
      rw [List.mem_cons, not_or] at hline
      cases hpiece with
      | quote => rfl
      | lineEnd => exact absurd rfl hline.1
      | code => rfl
      | plain hchar => exact lineEnd?_cons (Ne.symm hline.1) (ne_of_isBasicChar hchar).2.2 _

theorem lineEnd?_plain (hplain : ∀ c ∈ cs, needsEscape c = false) (hline : '\n' ∉ cs)
    (rest : List Char) : lineEnd? (cs ++ '\'' :: rest) = none := by
  cases cs with
  | nil => rfl
  | cons c cs =>
      have hreturn : c ≠ '\r' := by
        rintro rfl
        cases hplain '\r' List.mem_cons_self
      rw [List.mem_cons, not_or] at hline
      exact lineEnd?_cons (Ne.symm hline.1) hreturn _

theorem quoted_of_pair (hdouble : ∀ more, cs ≠ '"' :: '"' :: '"' :: more)
    (hsingle : ∀ more, cs ≠ '\'' :: '\'' :: '\'' :: more) : quoted cs = quotedLine cs := by
  unfold quoted
  split
  · exact absurd rfl (hdouble _)
  · exact absurd rfl (hsingle _)
  · rfl

theorem not_triple_escapeText (hrest : rest.head? ≠ some '"') (more : List Char) :
    '"' :: (escapeText false 0 cs ++ '"' :: rest) ≠ '"' :: '"' :: '"' :: more := by
  intro heq
  cases cs with
  | nil =>
      simp only [escapeText, List.nil_append, List.cons.injEq, true_and] at heq
      exact hrest (by rw [heq]; rfl)
  | cons c cs =>
      have hline : false = true → c ≠ '"' ∨ 2 ≤ 0 := fun hlines => by cases hlines
      obtain ⟨d, behind, hcons, hne⟩ := head_escapeText false hline cs
      rw [hcons] at heq
      simp only [List.cons_append, List.cons.injEq, true_and] at heq
      exact hne heq.1

theorem not_triple_plain (hquote : '\'' ∉ cs) (hrest : rest.head? ≠ some '\'') (more : List Char) :
    '\'' :: (cs ++ '\'' :: rest) ≠ '\'' :: '\'' :: '\'' :: more := by
  intro heq
  cases cs with
  | nil =>
      simp only [List.nil_append, List.cons.injEq, true_and] at heq
      exact hrest (by rw [heq]; rfl)
  | cons c cs =>
      simp only [List.cons_append, List.cons.injEq, true_and] at heq
      exact hquote (by rw [heq.1]; exact List.mem_cons_self)

/-- **Quoted text reads back**, whatever is in it and in whichever way it is quoted, if no further quote
follows. -/
theorem quoted_quote (s : String) (h : Unquoted rest) :
    quoted ((quote s).toList ++ rest) = some (s, rest) := by
  have hsuits := Quoting.suits_choose s.toList
  unfold quote
  dsimp only
  rw [String.toList_ofList]
  cases hchoose : Quoting.choose s.toList with
  | basic =>
      have hread := basicText_escapeText 0 s.toList rest
      simp only [List.append_assoc, List.cons_append, List.nil_append]
      rw [quoted_of_pair (not_triple_escapeText h.1) (by simp), quotedLine, hread]
      simp
  | literal =>
      rw [hchoose] at hsuits
      obtain ⟨hplain, hquote, hline⟩ := hsuits
      have hread := literalText_plain hplain hquote hline rest
      simp only [List.append_assoc, List.cons_append, List.nil_append]
      rw [quoted_of_pair (by simp) (not_triple_plain hquote h.2), quotedLine, hread]
      simp
  | basicLines =>
      have hbody := dropFirstLineEnd_text fun hline : '\n' ∉ s.toList =>
        lineEnd?_escapeText hline ('"' :: '"' :: rest)
      have hread := basicLines_escapeText 0 h.1 s.toList
      simp only [List.append_assoc, List.cons_append, List.nil_append, quoted] at hbody ⊢
      rw [hbody, hread]
      simp
  | literalLines =>
      rw [hchoose] at hsuits
      obtain ⟨hplain, hsparse⟩ := hsuits
      have hbody := dropFirstLineEnd_text fun hline =>
        lineEnd?_plain hplain hline ('\'' :: '\'' :: rest)
      have hread := literalLines_sparse h.2 hplain hsparse
      simp only [List.append_assoc, List.cons_append, List.nil_append, quoted] at hbody ⊢
      rw [hbody, hread]
      simp

end Directory.Toml
