import Directory.Toml.Text

/-!
# Writing text in documents

Of the four ways to quote a text the writer takes the first that needs no escape, in the order:
double quotes, single quotes, triple double quotes, triple single quotes. A text that none of them
fits is escaped between double quotes, triple ones if it has line ends. A tab counts as needing no
escape, and is yet written as one wherever escapes are possible. Triple quotes around a text with
line ends are followed by a line end of their own.
-/

namespace Directory.Toml

inductive Quoting where
  | basic
  | literal
  | basicLines
  | literalLines
  deriving DecidableEq, Repr

def longestRun (q : Char) (cs : List Char) : Nat :=
  (cs.foldl
    (fun (longest, run) c => if c = q then (max longest (run + 1), run + 1) else (longest, 0))
    (0, 0)).1

/-- A control character that no quoting takes as it is. -/
def needsEscape (c : Char) : Bool :=
  c != '\t' && c != '\n' && (c.toNat ≤ 0x1F || c.toNat == 0x7F)

namespace Quoting

def choose (cs : List Char) : Quoting :=
  let controls := cs.any needsEscape
  let backslash := cs.contains '\\'
  let lines := cs.contains '\n'
  let doubles := longestRun '"' cs
  let singles := longestRun '\'' cs
  if !controls && !backslash && doubles == 0 && !lines then basic
  else if !controls && singles == 0 && !lines then literal
  else if !controls && !backslash && doubles ≤ 2 then basicLines
  else if !controls && singles ≤ 2 then literalLines
  else if lines then basicLines
  else basic

end Quoting

def escapeControl (c : Char) : List Char :=
  if c = '\x08' then ['\\', 'b']
  else if c = '\t' then ['\\', 't']
  else if c = '\n' then ['\\', 'n']
  else if c = '\x0c' then ['\\', 'f']
  else if c = '\r' then ['\\', 'r']
  else ['\\', 'u', '0', '0', Hexadecimal.digit (c.toNat / 16),
    Hexadecimal.digit (c.toNat % 16)]

/-- Escapes a text between double quotes. With `lines` set, line ends stay as they are and so do up
to two double quotes in a row; `run` counts those just written. -/
def escapeText (lines : Bool) : Nat → List Char → List Char
  | _, [] => []
  | run, c :: rest =>
      if c = '"' then
        if lines && run < 2 then '"' :: escapeText lines (run + 1) rest
        else '\\' :: '"' :: escapeText lines 0 rest
      else if c = '\\' then '\\' :: '\\' :: escapeText lines 0 rest
      else if c = '\n' then
        (if lines then ['\n'] else escapeControl c) ++ escapeText lines 0 rest
      else if c = '\t' || needsEscape c then escapeControl c ++ escapeText lines 0 rest
      else c :: escapeText lines 0 rest

def quote (s : String) : String :=
  let cs := s.toList
  let first := if cs.contains '\n' then ['\n'] else []
  String.ofList <| match Quoting.choose cs with
    | .basic => '"' :: escapeText false 0 cs ++ ['"']
    | .literal => '\'' :: cs ++ ['\'']
    | .basicLines => ['"', '"', '"'] ++ first ++ escapeText true 0 cs ++ ['"', '"', '"']
    | .literalLines => ['\'', '\'', '\''] ++ first ++ cs ++ ['\'', '\'', '\'']

end Directory.Toml
