import Directory.Ber.Reader

/-!
# Rehearsals of element reading

A script walks through nested elements: it enters one, reads from what it holds, and leaves it again
for what stands behind it. A step that fails does not end the script.

Nested elements lie one inside the other on one run of octets, so a single place in that run and the
number of octets that are left on each level say everything. A step looks at one element at most and
is given no more than that to read.
-/

namespace Directory.Rehearsal.Reader

open Ber

inductive Step where
  | peek
  | isEmpty
  | element
  | enter
  /-- Goes back to the level around, unless this is the outermost. -/
  | leave
  | expect (tag : UInt8)
  | optional (tag : UInt8)
  | integer (tag : UInt8)
  | boolean (tag : UInt8)
  | text (tag : UInt8)
  deriving DecidableEq, Repr

inductive Finding where
  | nothing
  | truth (b : Bool)
  | tag (tag : Option UInt8)
  | element (tag : UInt8) (content : Octets)
  | entered (tag : UInt8)
  | octets (content : Option Octets)
  | integer (value : Int)
  | text (value : String)
  deriving DecidableEq, Repr

/-- The place in the octets, and what is left on the levels that were entered and not left. -/
structure Stage where
  octets : Octets
  left : Nat
  /-- How many are left behind it on each level around, from the inside out. -/
  around : List Nat := []
  deriving DecidableEq, Repr

namespace Stage

/-- As much of the innermost level as may be a header. -/
def front (s : Stage) : Octets := s.octets.take (min s.left Header.maxSize)

def header? (s : Stage) : Option Header :=
  match Header.read s.front with
  | .ok (some h) => if h.totalSize ≤ s.left then some h else none
  | _ => none

/-- The next element, or as much as says why there is none. -/
def window (s : Stage) : Octets :=
  match s.header? with
  | some h => s.octets.take h.totalSize
  | none => s.front

def skip (s : Stage) (n : Nat) : Stage :=
  { s with octets := s.octets.drop n, left := s.left - n }

def readingFrom {α : Type} (s : Stage) (octets : Octets) (r : Reader α) (finding : α → Finding) :
    Except WireError Finding × Stage :=
  let (answer, rest) := r.on octets
  (answer.map finding, s.skip (octets.length - rest.length))

/-- Reads from the innermost level. The whole element is looked at only where its first octets are
not enough. -/
def reading {α : Type} (s : Stage) (r : Reader α) (finding : α → Finding) :
    Except WireError Finding × Stage :=
  match s.readingFrom s.front r finding with
  | (.error .truncated, _) => s.readingFrom s.window r finding
  | done => done

def enter (s : Stage) : Except WireError Finding × Stage :=
  match s.header? with
  | some h =>
      (.ok (.entered h.tag), {
        octets := s.octets.drop h.size
        left := h.contentSize
        around := (s.left - h.totalSize) :: s.around })
  | none => s.reading Reader.element fun (tag, _) => .entered tag

def leave (s : Stage) : Stage :=
  match s.around with
  | [] => s
  | left :: around => { octets := s.octets.drop s.left, left, around }

def step (s : Stage) : Step → Except WireError Finding × Stage
  | .peek => s.reading Reader.peek .tag
  | .isEmpty => (.ok (.truth (s.left == 0)), s)
  | .element => s.reading Reader.element fun (tag, content) => .element tag content
  | .enter => s.enter
  | .leave => (.ok .nothing, s.leave)
  | .expect tag => s.reading (Reader.expect tag) fun content => .octets (some content)
  | .optional tag => s.reading (Reader.optional tag) .octets
  | .integer tag => s.reading (Reader.integer tag) .integer
  | .boolean tag => s.reading (Reader.boolean tag) .truth
  | .text tag => s.reading (Reader.text tag) .text

end Stage

/-- What is noted after a step: what it found, and how many octets are left on the innermost level.
-/
structure Note where
  answer : Except WireError Finding
  left : Nat

def playFrom (s : Stage) : List Step → List Note
  | [] => []
  | step :: rest =>
      let (answer, next) := s.step step
      ⟨answer, next.left⟩ :: playFrom next rest

def play (bytes : Octets) (script : List Step) : List Note :=
  playFrom { octets := bytes, left := bytes.length } script

end Directory.Rehearsal.Reader
