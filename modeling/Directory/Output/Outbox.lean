/-!
# Outboxes

An outbox is a queue with room for a fixed number of items between several writers and one reader.
A writer that finds no room waits; room that the reader makes goes to the writer that has waited
longest, before any later one. Closing turns away those who wait and those who come later, but what
was let in can still be taken.

An outbox remembers all that it ever let in and how much of it was taken, so that what is in it is
the difference, and that items leave in the order in which they were let in needs no further
argument.
-/

namespace Directory

/-- A queue with room for a fixed number of items, and the writers that wait for room. -/
structure Outbox (α : Type) where
  capacity : Nat
  /-- Everything ever let in, in the order of admission. -/
  admitted : List α := []
  taken : Nat := 0
  /-- The writers that wait, each with its ticket, in the order of arrival. -/
  waiting : List (Nat × α) := []
  tickets : Nat := 0
  /-- The tickets of the writers that were turned away while they waited. -/
  refused : List Nat := []
  closed : Bool := false
  deriving DecidableEq, Repr

inductive Receipt where
  | queued
  | waiting (ticket : Nat)
  | closed
  deriving DecidableEq, Repr

inductive Taken (α : Type) where
  | item (a : α)
  | empty
  /-- The outbox is closed and everything let in was taken. -/
  | ended
  deriving DecidableEq, Repr

inductive Standing where
  | waiting
  | queued
  | refused
  deriving DecidableEq, Repr

namespace Outbox

variable {α : Type}

def largestCapacity : Nat := 0x1FFFFFFFFFFFFFFF

/-- An empty outbox; there is none without room, and none with room for more than the largest
number. -/
def create? (capacity : Nat) : Option (Outbox α) :=
  if capacity = 0 ∨ largestCapacity < capacity then none else some { capacity }

def items (o : Outbox α) : List α := o.admitted.drop o.taken

/-- There is room, and nobody who came earlier waits for it. -/
def hasRoom (o : Outbox α) : Bool := o.waiting.isEmpty && o.items.length < o.capacity

def letIn (o : Outbox α) (a : α) : Outbox α := { o with admitted := o.admitted ++ [a] }

def send (o : Outbox α) (a : α) : Receipt × Outbox α :=
  if o.closed then (.closed, o)
  else if o.hasRoom then (.queued, o.letIn a)
  else
    (.waiting o.tickets,
      { o with waiting := o.waiting ++ [(o.tickets, a)], tickets := o.tickets + 1 })

/-- The writer that has waited longest is let in, if anybody waits. -/
def letOldestIn (o : Outbox α) : Outbox α :=
  match o.waiting with
  | [] => o
  | (_, a) :: rest => { o.letIn a with waiting := rest }

/-- The reader takes the next item, and the room goes to the writer that has waited longest. -/
def take (o : Outbox α) : Taken α × Outbox α :=
  match o.items with
  | a :: _ => (.item a, { o with taken := o.taken + 1 }.letOldestIn)
  | [] => (if o.closed then .ended else .empty, o)

/-- Nothing more is let in; those who wait are turned away. -/
def close (o : Outbox α) : Outbox α :=
  { o with closed := true, waiting := [], refused := o.refused ++ o.waiting.map (·.1) }

def standing (o : Outbox α) (ticket : Nat) : Standing :=
  if o.waiting.any (·.1 == ticket) then .waiting
  else if o.refused.contains ticket then .refused
  else .queued

end Outbox

end Directory
