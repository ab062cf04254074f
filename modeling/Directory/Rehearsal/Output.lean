import Directory.Output.Basic

/-!
# Rehearsals of an output

A script plays everything around the output of one session: a pipe with room for a number of octets
and the client that reads it, those who queue items, those who ask for pauses and take the writer
out of its place, and a clock that moves only when it is told to. After every step the output runs
until it is blocked.
-/

namespace Directory.Rehearsal.Output

inductive Step where
  | message (m : Message)
  | close
  /-- Asks for a pause, and forgets the pause asked for before; with `ignored` nobody waits to hear
  of the new one. -/
  | pause (ignored : Bool)
  | resume
  /-- Whoever could end the pause goes away. -/
  | forsake
  | dropSender
  | takeWriter
  | putWriter
  | dropClient
  | read (most : Nat)
  | advance (span : Span)
  | wait
  deriving DecidableEq, Repr

inductive Reply where
  | done
  | truth (b : Bool)
  | queued
  | full
  | closed
  | noSender
  /-- A message is being written, so the writer cannot be moved. -/
  | locked
  | octets (bytes : Octets)
  | empty
  /-- A read of nothing looks like the end of the stream. -/
  | ended
  | gone
  deriving DecidableEq, Repr

structure Stage where
  output : Directory.Output
  /-- How many octets the pipe has room for. -/
  capacity : Nat
  pipe : Backlog := .empty
  now : Span := .zero
  /-- When the message being written has taken too long. -/
  deadline : Option Span := none
  client : Bool := true
  sender : Bool := true
  held : Bool := false
  /-- The pause that is still waited for. -/
  awaited : Option Nat := none
  /-- The pause that can still be ended. -/
  ending : Option Nat := none
  deriving DecidableEq, Repr

def tick : Nat := 1000000

def lastTick : Nat := 0xFFFFFFFFFFFFFFFD

/-- Time is up. The clock goes by ticks: a deadline falls on the next tick, the present on the last.
From the last tick on, all times are the same. -/
def due (now deadline : Span) : Bool :=
  min lastTick ((deadline.nanos + (tick - 1)) / tick) ≤ min lastTick (now.nanos / tick)

def endOfTime : Nat := 0x7FFFFFFFFFFFFFFF

/-- When a limit has passed; never, if that would be at the end of time. -/
def deadlineAfter (now limit : Span) : Option Span :=
  let nanos := now.nanos + limit.nanos
  if nanos < (Span.ofSecs endOfTime 0).nanos then some ⟨nanos⟩ else none

namespace Stage

def room (s : Stage) : Nat := s.capacity - s.pipe.size

/-- What the output can do next. A write goes on before its deadline is looked at. -/
def next? (s : Stage) : Option Directory.Output.Act :=
  match s.output.phase with
  | .ready => some .take
  | .writing _ left =>
      if !s.client then some (.break .brokenPipe)
      else if 0 < s.room then some (.write (left.take s.room).length)
      else if s.deadline.any (due s.now) then some .expire
      else none
  | .paused _ => some .resume
  | .finished => none

def written (s : Stage) : Directory.Output.Act → Octets
  | .write count =>
      match s.output.phase with
      | .writing _ left => left.take count
      | _ => []
  | _ => []

def advanceOutput (s : Stage) : Option (List Event × Stage) := do
  let act ← s.next?
  let (events, output) ← s.output.step? act
  let deadline :=
    if act = .take ∧ output.busy then output.limit.bind (deadlineAfter s.now) else s.deadline
  some (events, { s with output, deadline, pipe := s.pipe.push (s.written act) })

def runFor : Nat → Stage → List Event × Stage
  | 0, s => ([], s)
  | steps + 1, s =>
      match s.advanceOutput with
      | none => ([], s)
      | some (events, next) =>
          let (more, last) := runFor steps next
          (events ++ more, last)

/-- Lets the output run until it is blocked. What is queued is gone after three steps for every item
and three more for what the output is at. -/
def run (s : Stage) : List Event × Stage :=
  s.runFor (3 * (s.output.outbox.items.length + s.output.outbox.waiting.length + 2))

def offer (s : Stage) (item : Item) : Reply × Stage :=
  if s.sender then
    match s.output.send item with
    | (.queued, output) => (.queued, { s with output })
    | (.waiting _, _) => (.full, s)
    | (.closed, _) => (.closed, s)
  else (.noSender, s)

def endPause (s : Stage) (resumed : Bool) : Stage :=
  match s.ending with
  | none => s
  | some number => { s with output := s.output.endPause number resumed, ending := none }

def ignore (s : Stage) : Stage :=
  match s.awaited with
  | none => s
  | some number => { s with output := s.output.ignore number, awaited := none }

def pause (s : Stage) (ignored : Bool) : Reply × Stage :=
  let number := s.output.nextPause
  let (reply, s) := { s with output := s.output.openPause }.offer (.pause number)
  let s := { s.ignore.endPause false with awaited := some number, ending := some number }
  (reply, if ignored then s.ignore else s)

def step (s : Stage) : Step → Reply × Stage
  | .message m => s.offer (.message m)
  | .close => s.offer .close
  | .pause ignored => s.pause ignored
  | .resume =>
      match s.ending with
      | none => (.done, s)
      | some number => (.truth (s.output.expects number), s.endPause true)
  | .forsake => (.truth s.ending.isSome, s.endPause false)
  | .dropSender =>
      (.truth s.sender, { s with
        sender := false, output := { s.output with outbox := s.output.outbox.close } })
  | .takeWriter =>
      if s.output.busy then (.locked, s)
      else
        (.truth s.output.writer.isSome, { s with
          held := s.held || s.output.writer.isSome
          output := { s.output with writer := none } })
  | .putWriter =>
      if s.output.busy then (.locked, s)
      else if s.held then
        (.truth true, { s with held := false, output := { s.output with writer := some .plain } })
      else (.truth false, s)
  | .dropClient => (.truth s.client, { s with client := false })
  | .read most =>
      if !s.client then (.gone, s)
      else if most = 0 then (.ended, s)
      else
        match s.pipe.ahead most with
        | [] => (.empty, s)
        | bytes => (.octets bytes, { s with pipe := s.pipe.drop most })
  | .advance span => (.done, { s with now := ⟨s.now.nanos + span.nanos⟩ })
  | .wait => (.done, s)

end Stage

structure Note where
  reply : Reply
  /-- Whether the pause that is waited for has been reported; nothing if none is waited for. -/
  paused : Option Bool
  failed : Bool
  finished : Bool
  events : List Event
  deriving DecidableEq, Repr

/-- Plays a step and lets the output run. A pause that has been reported is no longer waited for. -/
def Stage.play (s : Stage) (step : Step) : Note × Stage :=
  let (reply, s) := s.step step
  let (events, s) := s.run
  let paused := s.awaited.map s.output.hasPaused
  ({ reply, paused, events
     failed := s.output.failed
     finished := s.output.phase = .finished },
    if paused = some true then { s with awaited := none } else s)

def playFrom (s : Stage) : List Step → List Note
  | [] => []
  | step :: rest =>
      let (note, next) := s.play step
      note :: playFrom next rest

def play (items octets : Nat) (limit : Option Span) (script : List Step) : List Note :=
  playFrom { output := { outbox := { capacity := items }, limit }, capacity := octets } script

end Directory.Rehearsal.Output
