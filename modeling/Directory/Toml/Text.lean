import Directory.Hexadecimal

/-!
# Blanks and quoted text in documents

Blanks are spaces and tabs; a line ends with a line feed, which a carriage return may precede. Text
is quoted in one of four ways: with or without escapes, on one line or over several. Over several
lines a line end right behind the opening quotes is dropped, every other one becomes a line feed,
and one or two quotes may stand anywhere, right before the closing ones too.
-/

namespace Directory.Toml

/-- A reader of the front of a text: what it read and what follows. -/
abbrev Parser (α : Type) := List Char → Option (α × List Char)

def isBlank (c : Char) : Bool := c == ' ' || c == '\t'

def skipBlanks (cs : List Char) : List Char := cs.dropWhile isBlank

def isWide (c : Char) : Bool := 0x80 ≤ c.toNat

/-- A character that may stand in a comment: a tab, a printable one, or one beyond ASCII. -/
def isCommentChar (c : Char) : Bool :=
  c == '\t' || (0x20 ≤ c.toNat && c.toNat ≤ 0x7E) || isWide c

def isBasicChar (c : Char) : Bool := isCommentChar c && c != '"' && c != '\\'

def isLiteralChar (c : Char) : Bool := isCommentChar c && c != '\''

def lineEnd? : List Char → Option (List Char)
  | '\n' :: rest => some rest
  | '\r' :: '\n' :: rest => some rest
  | _ => none

theorem length_lt_of_lineEnd? {cs rest : List Char} (h : lineEnd? cs = some rest) :
    rest.length < cs.length := by
  unfold lineEnd? at h
  split at h
  · simp only [Option.some.injEq] at h; subst h; simp
  · simp only [Option.some.injEq] at h; subst h; simp only [List.length_cons]; omega
  · simp at h

/-- What follows the rest of a line that holds nothing but blanks and a comment; the text may also
end there. -/
def restOfLine? (cs : List Char) : Option (List Char) :=
  let cs := skipBlanks cs
  let cs := match cs with
    | '#' :: rest => rest.dropWhile isCommentChar
    | _ => cs
  match cs with
  | [] => some []
  | _ => lineEnd? cs

/-- The character with the code that exactly `n` hexadecimal digits spell; none for a surrogate or a
code beyond the last character. -/
def charOfHex? (n : Nat) : Parser Char := fun cs => do
  let digits := cs.take n
  let values ← digits.mapM Hexadecimal.value?
  let code := values.foldl (fun acc d => acc * 16 + d) 0
  if digits.length = n ∧ code.isValidChar then some (Char.ofNat code, cs.drop n) else none

theorem length_le_of_charOfHex? {n : Nat} {cs rest : List Char} {c : Char}
    (h : charOfHex? n cs = some (c, rest)) : rest.length ≤ cs.length := by
  simp only [charOfHex?, Option.bind_eq_bind, Option.bind_eq_some_iff] at h
  obtain ⟨_, _, h⟩ := h
  split at h
  · simp only [Option.some.injEq, Prod.mk.injEq] at h
    obtain ⟨_, rfl⟩ := h
    simp
  · simp at h

def escape? : Parser Char
  | 'b' :: rest => some ('\x08', rest)
  | 't' :: rest => some ('\t', rest)
  | 'n' :: rest => some ('\n', rest)
  | 'f' :: rest => some ('\x0c', rest)
  | 'r' :: rest => some ('\r', rest)
  | '"' :: rest => some ('"', rest)
  | '\\' :: rest => some ('\\', rest)
  | 'u' :: rest => charOfHex? 4 rest
  | 'U' :: rest => charOfHex? 8 rest
  | _ => none

theorem length_lt_of_escape? {cs rest : List Char} {c : Char} (h : escape? cs = some (c, rest)) :
    rest.length < cs.length := by
  unfold escape? at h
  split at h
  all_goals first
    | (simp only [Option.some.injEq, Prod.mk.injEq] at h
       obtain ⟨_, rfl⟩ := h
       simp)
    | (have hle := length_le_of_charOfHex? h
       simp only [List.length_cons]
       omega)
    | simp at h

def basicText : Parser (List Char)
  | [] => none
  | '"' :: rest => some ([], rest)
  | '\\' :: rest =>
      match _h : escape? rest with
      | none => none
      | some (c, rest') => (basicText rest').map fun (cs, r) => (c :: cs, r)
  | c :: rest =>
      if isBasicChar c then (basicText rest).map fun (cs, r) => (c :: cs, r) else none
termination_by cs => cs.length
decreasing_by
  · have := length_lt_of_escape? _h; simp only [List.length_cons]; omega
  · simp

def literalText : Parser (List Char)
  | [] => none
  | '\'' :: rest => some ([], rest)
  | c :: rest =>
      if isLiteralChar c then (literalText rest).map fun (cs, r) => (c :: cs, r) else none

/-- What follows three closing quotes: one or two more of them belong to the text. -/
def closing (quote : Char) : Parser (List Char)
  | a :: b :: rest =>
      if a = quote then
        if b = quote then some ([quote, quote], rest) else some ([quote], b :: rest)
      else some ([], a :: b :: rest)
  | [a] => if a = quote then some ([quote], []) else some ([], [a])
  | [] => some ([], [])

/-- What follows a backslash at the end of a line: all blanks and line ends are skipped. -/
def continued? (rest : List Char) : Option (List Char) :=
  (lineEnd? (skipBlanks rest)).map skipLines
where
  skipLines : List Char → List Char
    | '\r' :: '\n' :: rest => skipLines rest
    | c :: rest => if isBlank c || c == '\n' then skipLines rest else c :: rest
    | [] => []

theorem length_skipLines_le (cs : List Char) : (continued?.skipLines cs).length ≤ cs.length := by
  fun_induction continued?.skipLines cs with
  | case1 rest ih => simp only [List.length_cons]; omega
  | case2 c rest _ _ ih => simp only [List.length_cons]; omega
  | case3 => simp
  | case4 => simp

theorem length_lt_of_continued? {cs rest : List Char} (h : continued? cs = some rest) :
    rest.length < cs.length := by
  unfold continued? at h
  simp only [Option.map_eq_some_iff] at h
  obtain ⟨r, hr, rfl⟩ := h
  have h1 := length_lt_of_lineEnd? hr
  have h2 := (List.dropWhile_sublist isBlank (l := cs)).length_le
  have h3 := length_skipLines_le r
  unfold skipBlanks at h1
  omega

def basicLines : Parser (List Char)
  | [] => none
  | '"' :: '"' :: '"' :: rest => closing '"' rest
  | '\r' :: '\n' :: rest => (basicLines rest).map fun (cs, r) => ('\n' :: cs, r)
  | '\\' :: rest =>
      match _h : continued? rest with
      | some rest' => basicLines rest'
      | none =>
          match _h' : escape? rest with
          | none => none
          | some (c, rest') => (basicLines rest').map fun (cs, r) => (c :: cs, r)
  | c :: rest =>
      if isBasicChar c || c == '"' || c == '\n' then
        (basicLines rest).map fun (cs, r) => (c :: cs, r)
      else none
termination_by cs => cs.length
decreasing_by
  · simp only [List.length_cons]; omega
  · have := length_lt_of_continued? _h; simp only [List.length_cons]; omega
  · have := length_lt_of_escape? _h'; simp only [List.length_cons]; omega
  · simp

def literalLines : Parser (List Char)
  | [] => none
  | '\'' :: '\'' :: '\'' :: rest => closing '\'' rest
  | '\r' :: '\n' :: rest => (literalLines rest).map fun (cs, r) => ('\n' :: cs, r)
  | c :: rest =>
      if isLiteralChar c || c == '\'' || c == '\n' then
        (literalLines rest).map fun (cs, r) => (c :: cs, r)
      else none

def dropFirstLineEnd (cs : List Char) : List Char := (lineEnd? cs).getD cs

/-- Text quoted on one line, as it may also stand in a key. -/
def quotedLine : Parser String
  | '"' :: rest => (basicText rest).map fun (cs, r) => (String.ofList cs, r)
  | '\'' :: rest => (literalText rest).map fun (cs, r) => (String.ofList cs, r)
  | _ => none

def quoted : Parser String
  | '"' :: '"' :: '"' :: rest =>
      (basicLines (dropFirstLineEnd rest)).map fun (cs, r) => (String.ofList cs, r)
  | '\'' :: '\'' :: '\'' :: rest =>
      (literalLines (dropFirstLineEnd rest)).map fun (cs, r) => (String.ofList cs, r)
  | cs => quotedLine cs

end Directory.Toml
