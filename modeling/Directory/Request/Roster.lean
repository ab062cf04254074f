import Directory.Message.Basic
import Directory.Request.Cancellation

/-!
# The roster of requests in flight

A roster holds the requests that a session is serving, by message identifier. Clients choose the
identifiers and may use one again while an earlier request with it is still running, so every
identifier has a line of requests: a lookup finds the latest of the line, and a request that has
finished is struck out itself, wherever in the line it stands. A request is named by its number.

A roster is shared between its owner and the guards of the requests on it, and it lasts as long as
one of them holds it. A session only looks at its roster: once the roster is gone, there is nothing
left to abandon.
-/

namespace Directory

structure Roster where
  lines : List (MessageId × List Nat) := []
  deriving DecidableEq, Repr

namespace Roster

/-- Every request in flight, once for each time that it is registered. -/
def members (r : Roster) : List Nat := r.lines.flatMap (·.2)

def size (r : Roster) : Nat := r.members.length

/-- The requests registered under an identifier, oldest first. -/
def line (r : Roster) (id : MessageId) : List Nat := (r.lines.lookup id).getD []

def latest? (r : Roster) (id : MessageId) : Option Nat := (r.line id).getLast?

def extend (id : MessageId) (request : Nat) :
    List (MessageId × List Nat) → List (MessageId × List Nat)
  | [] => [(id, [request])]
  | (key, line) :: rest =>
      if key = id then (key, line ++ [request]) :: rest else (key, line) :: extend id request rest

def register (r : Roster) (id : MessageId) (request : Nat) : Roster :=
  ⟨extend id request r.lines⟩

/-- Strikes a request out of the line of its identifier; no empty line is kept. -/
def strike (id : MessageId) (request : Nat) (entry : MessageId × List Nat) :
    Option (MessageId × List Nat) :=
  if entry.1 = id then
    match entry.2.filter (· ≠ request) with
    | [] => none
    | kept => some (entry.1, kept)
  else some entry

/-- Takes a request off the roster, every registration of it and no other. -/
def unregister (r : Roster) (id : MessageId) (request : Nat) : Roster :=
  ⟨r.lines.filterMap (strike id request)⟩

/-- Posts a reason to the latest request under an identifier; `none` if there is none. -/
def abandon (r : Roster) (id : MessageId) (reason : Reason) (cs : Cancellations) :
    Option Cancellations :=
  (r.latest? id).map fun request => cs.post request reason

def cancelAll (r : Roster) (reason : Reason) (cs : Cancellations) : Cancellations :=
  cs.postAll r.members reason

end Roster

structure SharedRoster where
  roster : Roster := {}
  owned : Bool := true
  /-- The guards by number: the identifier and the request that each keeps registered. -/
  guards : List (Option (MessageId × Nat)) := []
  deriving DecidableEq, Repr

namespace SharedRoster

def alive (s : SharedRoster) : Bool := s.owned || s.guards.any Option.isSome

def register (s : SharedRoster) (id : MessageId) (request : Nat) : SharedRoster :=
  { s with roster := s.roster.register id request, guards := s.guards ++ [some (id, request)] }

def guarded? (s : SharedRoster) (guard : Nat) : Option (MessageId × Nat) :=
  s.guards.getD guard none

/-- Lets a guard go, which takes its request off the roster. -/
def release (s : SharedRoster) (guard : Nat) : SharedRoster :=
  match s.guarded? guard with
  | none => s
  | some (id, request) =>
      { s with roster := s.roster.unregister id request, guards := s.guards.set guard none }

def disown (s : SharedRoster) : SharedRoster := { s with owned := false }

def inFlight (s : SharedRoster) : Nat := if s.alive then s.roster.size else 0

/-- A session abandons the latest request under an identifier in the name of its client; `none` if
there is none, or if the roster is gone. -/
def abandon (s : SharedRoster) (id : MessageId) (cs : Cancellations) : Option Cancellations :=
  if s.alive then s.roster.abandon id .client cs else none

end SharedRoster

end Directory
