/-!
# Documents as trees

A document is a tree of keys and values. Besides what a key holds, the tree remembers how each table
came about, because that decides what may be added to it later: a table under a header of its own is
closed for dotted keys, one that a dotted key made is closed for headers, and one that is only the
parent of another may still get a header.
-/

namespace Directory.Toml

inductive Origin where
  /-- Under a header of its own; the document itself counts as this. -/
  | header
  /-- As a parent named in the header of another table. -/
  | implied
  /-- As a parent named in a dotted key. -/
  | dotted
  deriving DecidableEq, Repr

/-- What a key holds. Numbers with a fraction and moments in time are recognised and not evaluated.
-/
inductive Node where
  | text (s : String)
  | integer (n : Int)
  | float
  | boolean (b : Bool)
  | moment
  | array (items : List Node)
  | inlineTable (entries : List (String × Node))
  | table (origin : Origin) (entries : List (String × Node))
  /-- The tables under repeated double-bracketed headers: the latest, and those before it, again
  from the latest on. -/
  | tables (latest : List (String × Node)) (earlier : List (List (String × Node)))
  deriving Repr

/-- The keys of a table with what they hold, latest first; no key is there twice. -/
abbrev Entries := List (String × Node)

namespace Entries

def get? (es : Entries) (key : String) : Option Node := es.lookup key

def set (key : String) (n : Node) : Entries → Entries
  | [] => []
  | e :: es => if e.1 = key then (key, n) :: es else e :: set key n es

def add (es : Entries) (key : String) (n : Node) : Entries := (key, n) :: es

/-- Goes down along a path and changes the table at its end. Missing tables are made on the way,
`dotted` saying by what. A path through a double-bracketed header means its latest table. A dotted
key does not pass through a table that has a header of its own, and nothing passes through a value.
-/
def descend (dotted : Bool) (change : Origin → Entries → Option Entries) :
    List String → Origin → Entries → Option Entries
  | [], origin, es => change origin es
  | key :: path, _, es =>
      match es.get? key with
      | none => do
          let made := if dotted then Origin.dotted else Origin.implied
          let sub ← descend dotted change path made []
          some (es.add key (.table made sub))
      | some (.table origin sub) =>
          if dotted && origin == .header then none
          else do
            let sub ← descend dotted change path origin sub
            some (es.set key (.table origin sub))
      | some (.tables latest earlier) => do
          let latest ← descend dotted change path .header latest
          some (es.set key (.tables latest earlier))
      | some _ => none

/-- Adds a key with its value at the end of a dotted path: under a path of one or more parents the
table must have been made by dotted keys, under none it must not. -/
def addKey (es : Entries) (origin : Origin) (parents : List String) (key : String) (n : Node) :
    Option Entries :=
  descend true
    (fun origin es =>
      if (origin == .dotted) == parents.isEmpty then none
      else if (es.get? key).isSome then none
      else some (es.add key n))
    parents origin es

/-- Opens the table of a header: a new one, or one that was only implied so far. -/
def openTable (es : Entries) (parents : List String) (key : String) : Option Entries :=
  descend false
    (fun _ es =>
      match es.get? key with
      | none => some (es.add key (.table .header []))
      | some (.table .implied sub) => some (es.set key (.table .header sub))
      | some _ => none)
    parents .header es

def openNext (es : Entries) (parents : List String) (key : String) : Option Entries :=
  descend false
    (fun _ es =>
      match es.get? key with
      | none => some (es.add key (.tables [] []))
      | some (.tables latest earlier) => some (es.set key (.tables [] (latest :: earlier)))
      | some _ => none)
    parents .header es

end Entries

def Node.entries? : Node → Option Entries
  | .inlineTable es => some es
  | .table _ es => some es
  | _ => none

end Directory.Toml
