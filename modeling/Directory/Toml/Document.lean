import Directory.Toml.Moment
import Directory.Toml.Node
import Directory.Toml.Number

/-!
# Reading a document

A document is a sequence of lines: blank ones, comments, headers `[a.b]` and `[[a.b]]`, and keys
with their values. What a line adds to the tree is decided in `Directory.Toml.Node`. Nesting of
values and the number of parts of a key are bounded. `Document.parse?` gives the tree, or nothing
when any line is refused.
-/

namespace Directory.Toml

/-- How deep values may nest and how many parts a key may have, exclusively. -/
def depthLimit : Nat := 80

def isKeyChar (c : Char) : Bool := c.isAlphanum || c == '_' || c == '-'

def keyPart (cs : List Char) : Option (String × List Char) :=
  match cs with
  | '"' :: _ => quotedLine cs
  | '\'' :: _ => quotedLine cs
  | _ =>
      match cs.takeWhile isKeyChar with
      | [] => none
      | part => some (String.ofList part, cs.dropWhile isKeyChar)

def keyParts : Nat → List Char → Option (List String × List Char)
  | 0, _ => none
  | bound + 1, cs => do
      let (part, rest) ← keyPart (skipBlanks cs)
      match skipBlanks rest with
      | '.' :: rest => do
          let (parts, rest) ← keyParts bound rest
          some (part :: parts, rest)
      | rest => some ([part], rest)

def key (cs : List Char) : Option ((List String × String) × List Char) := do
  let (parts, rest) ← keyParts (depthLimit - 1) cs
  let last ← parts.getLast?
  some ((parts.dropLast, last), rest)

/-- Skips blanks, line ends and comments between the items of an array. The first argument bounds
the number of lines. -/
def skipFiller : Nat → List Char → List Char
  | 0, cs => cs
  | bound + 1, cs =>
      match skipBlanks cs with
      | '#' :: rest =>
          match lineEnd? (rest.dropWhile isCommentChar) with
          | some rest => skipFiller bound rest
          | none => '#' :: rest
      | cs =>
          match lineEnd? cs with
          | some rest => skipFiller bound rest
          | none => cs

mutual

/-- A value. The first argument bounds the work, the second counts the brackets around it. -/
def value : Nat → Nat → List Char → Option (Node × List Char)
  | 0, _, _ => none
  | bound + 1, depth, cs =>
      match cs with
      | '"' :: _ => (quoted cs).map fun (s, r) => (.text s, r)
      | '\'' :: _ => (quoted cs).map fun (s, r) => (.text s, r)
      | '[' :: rest =>
          if depth + 1 < depthLimit then
            (items bound (depth + 1) rest).map fun (ns, r) => (.array ns, r)
          else none
      | '{' :: rest =>
          if depth + 1 < depthLimit then
            match skipBlanks rest with
            | '}' :: rest => some (.inlineTable [], rest)
            | rest => (pairs bound (depth + 1) [] rest).map fun (es, r) => (.inlineTable es, r)
          else none
      | 't' :: 'r' :: 'u' :: 'e' :: rest => some (.boolean true, rest)
      | 'f' :: 'a' :: 'l' :: 's' :: 'e' :: rest => some (.boolean false, rest)
      | _ =>
          match moment? cs with
          | some rest => some (.moment, rest)
          | none =>
              match float? cs with
              | some rest => some (.float, rest)
              | none => (integer cs).map fun (n, r) => (.integer n, r)

/-- The rest of an array, behind its opening bracket or a comma. -/
def items : Nat → Nat → List Char → Option (List Node × List Char)
  | 0, _, _ => none
  | bound + 1, depth, cs =>
      match skipFiller bound cs with
      | ']' :: rest => some ([], rest)
      | cs => do
          let (n, rest) ← value bound depth cs
          match skipFiller bound rest with
          | ',' :: rest => do
              let (ns, rest) ← items bound depth rest
              some (n :: ns, rest)
          | ']' :: rest => some ([n], rest)
          | _ => none

/-- The rest of a table in braces that is not empty, behind its opening brace or a comma. -/
def pairs : Nat → Nat → Entries → List Char → Option (Entries × List Char)
  | 0, _, _, _ => none
  | bound + 1, depth, es, cs => do
      let ((parents, last), rest) ← key cs
      match rest with
      | '=' :: rest => do
          let (n, rest) ← value bound depth (skipBlanks rest)
          let es ← es.addKey .header parents last n
          match skipBlanks rest with
          | ',' :: rest => pairs bound depth es rest
          | '}' :: rest => some (es, rest)
          | _ => none
      | _ => none

end

/-- A document while it is read: the tree so far and the path of the latest header. -/
structure Document where
  root : Entries := []
  path : List String := []

namespace Document

def addKey (d : Document) (parents : List String) (last : String) (n : Node) : Option Document := do
  let root ← d.root.descend false (fun origin es => es.addKey origin parents last n) d.path .header
  some { d with root }

/-- Takes in one line that is neither blank nor a comment; gives what follows it. The first argument
bounds the work on a value. -/
def line (bound : Nat) (d : Document) (cs : List Char) : Option (Document × List Char) :=
  match cs with
  | '[' :: '[' :: rest => do
      let ((parents, last), rest) ← key rest
      match rest with
      | ']' :: ']' :: rest => do
          let root ← d.root.openNext parents last
          let rest ← restOfLine? rest
          some ({ root, path := parents ++ [last] }, rest)
      | _ => none
  | '[' :: rest => do
      let ((parents, last), rest) ← key rest
      match rest with
      | ']' :: rest => do
          let root ← d.root.openTable parents last
          let rest ← restOfLine? rest
          some ({ root, path := parents ++ [last] }, rest)
      | _ => none
  | _ => do
      let ((parents, last), rest) ← key cs
      match rest with
      | '=' :: rest => do
          let (n, rest) ← value bound 0 (skipBlanks rest)
          let rest ← restOfLine? rest
          let d ← d.addKey parents last n
          some (d, rest)
      | _ => none

/-- Takes in all lines. The first argument bounds their number and the work on each value: twice the
length of the text is enough, because every line takes a character at least and every step into a
value takes one in two. -/
def lines : Nat → Document → List Char → Option Document
  | 0, _, _ => none
  | bound + 1, d, cs =>
      match skipBlanks cs with
      | [] => some d
      | '#' :: rest => do
          let rest ← restOfLine? ('#' :: rest)
          lines bound d rest
      | c :: rest =>
          match lineEnd? (c :: rest) with
          | some rest => lines bound d rest
          | none => do
              let (d, rest) ← d.line bound (c :: rest)
              lines bound d rest

/-- The tree of a document; a byte order mark at its front is skipped. -/
def parse? (s : String) : Option Entries :=
  let cs := match s.toList with
    | '\ufeff' :: rest => rest
    | cs => cs
  (lines (2 * cs.length + 2) {} cs).map root

end Document

end Directory.Toml
