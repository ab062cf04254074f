import Directory.Backlog
import Directory.Message.Encode
import Directory.Output.Outbox
import Directory.Session.Event

/-!
# The output of a session

Handlers never write to a connection. They put messages into an outbox, and the output takes them
out one at a time and writes each of them whole before it looks at the next, so no two responses
mix.

The writer of the connection stands in a place of its own, from which it can be taken away: by an
upgrade, which lets the output pause at its place in the queue and puts another writer there, and
at the end of the session. After a write that failed, and after the item that closes the outbox,
nothing more is written, but the output still takes what is queued, so nobody waits for ever.

`Output.step?` is the output as a machine. What the machine cannot decide by itself is said by the
action: how many octets the connection takes, that it breaks, that time is up.
-/

namespace Directory

inductive Channel where
  | plain
  | secure
  deriving DecidableEq, Repr

structure Wires where
  plain : Backlog := .empty
  secure : Backlog := .empty
  deriving DecidableEq, Repr

namespace Wires

def on (w : Wires) : Channel → Octets
  | .plain => w.plain.toOctets
  | .secure => w.secure.toOctets

def write (w : Wires) (c : Channel) (bytes : Octets) : Wires :=
  match c with
  | .plain => { w with plain := w.plain.push bytes }
  | .secure => { w with secure := w.secure.push bytes }

theorem on_write_self (w : Wires) (c : Channel) (bytes : Octets) :
    (w.write c bytes).on c = w.on c ++ bytes := by cases c <;> simp [on, write]

theorem on_write_other (w : Wires) {c d : Channel} (bytes : Octets) (h : d ≠ c) :
    (w.write c bytes).on d = w.on d := by cases c <;> cases d <;> simp_all [on, write]

end Wires

inductive Item where
  | message (m : Message)
  /-- Write all that came before, report the pause with this number, and wait for its end. -/
  | pause (number : Nat)
  /-- Nothing may come after this. -/
  | close
  deriving DecidableEq, Repr

structure Pause where
  /-- Somebody still wants to hear that the output has paused. -/
  watched : Bool := true
  reported : Bool := false
  /-- How the pause is ended, once it is: the output may go on, or nobody is left to say so. -/
  ending : Option Bool := none
  deriving DecidableEq, Repr

namespace Output

inductive Phase where
  | ready
  /-- These octets of a message are still to be written on a channel. -/
  | writing (channel : Channel) (left : Octets)
  | paused (number : Nat)
  | finished
  deriving DecidableEq, Repr

inductive Act where
  | take
  | write (count : Nat)
  | break (cause : SessionError)
  | expire
  | resume
  deriving DecidableEq, Repr

end Output

structure Output where
  outbox : Outbox Item
  limit : Option Span := none
  /-- The channel that the writer in its place writes on; `none` while there is no writer. -/
  writer : Option Channel := some .plain
  phase : Output.Phase := .ready
  failed : Bool := false
  /-- The closing item was taken. -/
  sealed : Bool := false
  pauses : List Pause := []
  wires : Wires := {}
  deriving DecidableEq, Repr

namespace Output

def fail (o : Output) (cause : SessionError) : List Event × Output :=
  ([.writeFailed cause], { o with failed := true, phase := .ready })

def handle (o : Output) : Item → List Event × Output
  | .message m =>
      if o.failed || o.sealed then ([.discarded m.id], o)
      else
        match o.writer with
        | none => o.fail .writerUnavailable
        | some channel => ([], { o with phase := .writing channel m.encode })
  | .pause number =>
      if (o.pauses[number]?.any (·.watched)) then
        ([], { o with
          phase := .paused number
          pauses := o.pauses.modify number fun p => { p with reported := true } })
      else ([], o)
  | .close => ([], { o with sealed := true, outbox := o.outbox.close })

/-- Takes the next item, if there is one; once nothing more can come, the output is finished. -/
def takeNext (o : Output) : Option (List Event × Output) :=
  match o.outbox.take with
  | (.item item, outbox) => some ({ o with outbox }.handle item)
  | (.empty, _) => none
  | (.ended, _) => some ([.outputFinished], { o with phase := .finished })

def put (o : Output) (channel : Channel) (left : Octets) (count : Nat) : Output :=
  { o with
    wires := o.wires.write channel (left.take count)
    phase :=
      match left.drop count with
      | [] => .ready
      | left => .writing channel left }

/-- One step of the output, with what it reports; `none` if the act does not fit the phase. -/
def step? (o : Output) (act : Act) : Option (List Event × Output) :=
  match o.phase, act with
  | .ready, .take => o.takeNext
  | .writing channel left, .write count =>
      if 0 < count ∧ (left.take count).length = count then some ([], o.put channel left count)
      else none
  | .writing _ _, .break cause => some (o.fail cause)
  | .writing _ _, .expire => o.limit.map fun limit => o.fail (.writeTimeout limit)
  | .paused number, .resume =>
      match o.pauses[number]?.bind (·.ending) with
      | none => none
      | some true => some ([], { o with phase := .ready })
      | some false => some ([.pauseForsaken], { o with phase := .ready })
  | _, _ => none

/-- Somebody puts an item into the outbox and waits if there is no room. -/
def send (o : Output) (item : Item) : Receipt × Output :=
  let (receipt, outbox) := o.outbox.send item
  (receipt, { o with outbox })

def nextPause (o : Output) : Nat := o.pauses.length

def openPause (o : Output) : Output := { o with pauses := o.pauses ++ [{}] }

def ignore (o : Output) (number : Nat) : Output :=
  { o with pauses := o.pauses.modify number fun p => { p with watched := false } }

/-- Ends a pause, unless it was ended before. -/
def endPause (o : Output) (number : Nat) (resumed : Bool) : Output :=
  { o with
    pauses := o.pauses.modify number fun p => { p with ending := p.ending.or (some resumed) } }

def hasPaused (o : Output) (number : Nat) : Bool := o.pauses[number]?.any (·.reported)

/-- The output still waits, or will wait, for the end of a pause. -/
def expects (o : Output) (number : Nat) : Bool :=
  o.phase == .paused number || o.outbox.items.contains (.pause number) ||
    o.outbox.waiting.any (·.2 == .pause number)

/-- A message is being written, so the writer cannot be taken from its place. -/
def busy (o : Output) : Bool :=
  match o.phase with
  | .writing _ _ => true
  | _ => false

end Output

end Directory
