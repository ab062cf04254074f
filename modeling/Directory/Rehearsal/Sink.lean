import Directory.Output.Outbox
import Directory.Output.Sink

/-!
# Rehearsals of response writing

A script plays several sinks over one outbox and the reader of the outbox, one step after the other.
Writes that find no room wait, and it is noted in which later step each of them ends.
-/

namespace Directory.Rehearsal.Sink

/-- One step of a script. Sinks are named by number. -/
inductive Step where
  | openSink (id : MessageId)
  | identifier (sink : Nat)
  | write (sink : Nat) (op : Operation)
  /-- Writes a whole message; its identifier is replaced. -/
  | writeRaw (sink : Nat) (message : Message)
  | receive
  | close
  | drop
  deriving DecidableEq, Repr

inductive Outcome where
  | queued
  | pending
  | sessionClosed
  deriving DecidableEq, Repr

inductive Reply where
  | done
  | truth (b : Bool)
  | number (n : Nat)
  | identifier (id : MessageId)
  | write (outcome : Outcome)
  | received (message : Message)
  | empty
  | ended
  | gone
  deriving DecidableEq, Repr

/-- A message with the number of the step in which it was written. -/
structure Written where
  step : Nat
  message : Message
  deriving DecidableEq, Repr

structure Stage where
  outbox : Outbox Written
  sinks : List Directory.Sink := []
  reading : Bool := true
  deriving DecidableEq, Repr

namespace Stage

def write (s : Stage) (number : Nat) (message : Message) : Reply × Stage :=
  match s.outbox.send ⟨number, message⟩ with
  | (.queued, outbox) => (.write .queued, { s with outbox })
  | (.closed, outbox) => (.write .sessionClosed, { s with outbox })
  | (.waiting _, outbox) => (.write .pending, { s with outbox })

def atSink (s : Stage) (sink : Nat) (act : Directory.Sink → Reply × Stage) : Reply × Stage :=
  match s.sinks[sink]? with
  | none => (.gone, s)
  | some sink => act sink

def step (s : Stage) (number : Nat) : Step → Reply × Stage
  | .openSink id => (.number s.sinks.length, { s with sinks := s.sinks ++ [⟨id⟩] })
  | .identifier sink => s.atSink sink fun sink => (.identifier sink.id, s)
  | .write sink op => s.atSink sink fun sink => s.write number (sink.response op)
  | .writeRaw sink message => s.atSink sink fun sink => s.write number (sink.stamp message)
  | .receive =>
      if s.reading then
        match s.outbox.take with
        | (.item written, outbox) => (.received written.message, { s with outbox })
        | (.empty, outbox) => (.empty, { s with outbox })
        | (.ended, outbox) => (.ended, { s with outbox })
      else (.gone, s)
  | .close => (.done, if s.reading then { s with outbox := s.outbox.close } else s)
  | .drop => (.truth s.reading, { s with reading := false, outbox := s.outbox.close })

def pending (s : Stage) : Nat := s.outbox.waiting.length

/-- The writes that ended when one stage became the next, with how each of them ended. Closing turns
all away that wait, and an item that was taken makes room for the one that has waited longest. -/
def settled (s next : Stage) : List (Nat × Outcome) :=
  if next.outbox.closed then s.outbox.waiting.map fun w => (w.2.step, .sessionClosed)
  else if next.outbox.taken = s.outbox.taken then []
  else s.outbox.waiting.head?.toList.map fun w => (w.2.step, .queued)

end Stage

structure Note where
  reply : Reply
  /-- The writes that ended in this step: the step of each and how it ended. -/
  completed : List (Nat × Outcome)
  pending : Nat
  deriving DecidableEq, Repr

def playFrom (s : Stage) (number : Nat) : List Step → List Note
  | [] => []
  | step :: rest =>
      let (reply, next) := s.step number step
      ⟨reply, s.settled next, next.pending⟩ :: playFrom next (number + 1) rest

def play (capacity : Nat) (script : List Step) : List Note :=
  playFrom { outbox := { capacity } } 0 script

end Directory.Rehearsal.Sink
