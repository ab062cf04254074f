import Directory.Message.Decode
import Directory.Options
import Directory.Output.Basic
import Directory.Output.Sink
import Directory.Request.Basic
import Directory.Request.Roster

/-!
# Sessions

A session is everything that happens on one connection. Five parties work on it at the same time:

* the reading party cuts envelopes off the stream, decodes them and hands each to a handler;
* every request in flight has its handler;
* the output writes what is queued (`Output`);
* the watcher announces to the client that the server is stopping, and then interrupts the reading;
* when the reading is over, the same party closes the session down: it asks the handlers to stop,
  waits for them, and lets the output write what is queued before the connection is given up.

This module has the state of a session. `Session.step?` lets one party take one step.
-/

namespace Directory

inductive Progress where
  | running
  | returned
  | panicked
  deriving DecidableEq, Repr

structure Invocation extends Request where
  channel : Channel
  progress : Progress := .running
  deriving DecidableEq, Repr

/-- Where envelopes come from: a channel and what has arrived on it. -/
structure Source where
  channel : Channel
  splitter : Splitter
  deriving DecidableEq, Repr

inductive Watcher where
  | watching
  /-- It waits for room for its announcement. -/
  | offering (ticket : Nat)
  /-- The announcement is made; the reading is still to be interrupted. -/
  | announced
  | done
  deriving DecidableEq, Repr

namespace Session

/-- What is to be done next when a session closes down, in this order. -/
inductive Closing where
  /-- Tell the watcher. -/
  | silencing
  /-- Interrupt the reading, and with it an upgrade that is still going on. -/
  | interrupting
  | sweeping
  | joining
  | sealing
  | offering (ticket : Nat)
  | draining
  | leaving
  deriving DecidableEq, Repr

inductive Phase where
  | reading
  /-- It waits for the handler of a request to encrypt the connection. -/
  | serving (request : Nat)
  /-- It waits for room for a pause of the output. -/
  | offering (ticket pause : Nat)
  | pausing (pause : Nat)
  | shaking (pause : Nat)
  | closing (stage : Closing)
  | closed
  deriving DecidableEq, Repr

end Session

structure Session where
  options : Options
  info : SessionInfo
  phase : Session.Phase := .reading
  /-- Where envelopes come from; `none` once an upgrade has taken it away. -/
  source : Option Source
  requests : List Invocation := []
  cancellations : Cancellations := []
  roster : SharedRoster := {}
  output : Output
  watcher : Watcher := .watching
  stopping : Bool := false
  closing : Bool := false
  /-- The reading, or an upgrade, is to end. -/
  interrupted : Bool := false
  events : List Event := []
  deriving DecidableEq, Repr

namespace Session

def stopDiagnostic : String := "server is about to stop"

/-- The channel of a connection that is encrypted from its first octet, or is not. -/
def firstChannel (encrypted : Bool) : Channel := if encrypted then .secure else .plain

def freshSource (o : Options) (c : Channel) : Source := ⟨c, { limit := o.maxMessageSize }⟩

/-- A session at its beginning. There is none if no outbox has the room that the options ask for. -/
def start? (options : Options) (info : SessionInfo) (stopping : Bool) : Option Session := do
  let outbox ← Outbox.create? options.queueCapacity
  let channel := firstChannel info.tls
  some {
    options, info, stopping
    source := some (freshSource options channel)
    output := { outbox, limit := options.writeTimeout, writer := some channel } }

def report (s : Session) (e : Event) : Session := { s with events := s.events ++ [e] }

def leave (s : Session) (e : Event) : Session :=
  { s.report e with phase := .closing .silencing }

/-- Ends the reading for a cause. A read timeout and an upgrade that was given up are no failures.
-/
def leaveFor (s : Session) (cause : SessionError) : Session :=
  s.leave <| match cause with
    | .readTimeout limit => .readTimedOut limit
    | .handshake .abandoned => .upgradeAbandoned
    | cause => .failed cause

def secured (s : Session) : Bool := s.info.tls

def handlersDone (s : Session) : Bool := s.requests.all (·.progress ≠ .running)

def inFlight (s : Session) : Nat := s.roster.inFlight

end Session

end Directory
