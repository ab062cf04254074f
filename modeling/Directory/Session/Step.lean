import Directory.Session.Reading

/-!
# The steps of a session

`Session.step?` lets one party take one step. An action says which party it is and what it cannot
decide by itself: what arrives, what a handler does, how a handshake ends, how much the connection
takes. An action that does not fit the state has no step. A run is a list of actions that all have
one.
-/

namespace Directory.Session

/-- What a handler does. All but its end may also be done later, by a task that outlives it. -/
inductive Deed where
  | write (m : Message)
  | abandon (id : MessageId)
  | popReason
  | setAcl (acl : Acl)
  | acceptStartTls
  | return
  | panic
  deriving DecidableEq, Repr

inductive Action where
  | handler (request : Nat) (deed : Deed)
  | stop
  | receive (chunk : Octets)
  | endOfStream
  | loseConnection (reason : String)
  | expire
  | endHandshake (error : Option HandshakeError)
  | read
  | watch
  | close
  | output (act : Output.Act)
  deriving DecidableEq, Repr

/-- A handler has come to its end, which takes its request off the roster. -/
def finish (s : Session) (request : Nat) (progress : Progress) : Session :=
  { s with
    requests := s.requests.modify request fun i => { i with progress }
    roster := s.roster.release request }

def sinkOf (invocation : Invocation) : Sink := ⟨invocation.message.id⟩

/-- Writes a message through the sink of a request; the receipt says what becomes of it. -/
def respond (s : Session) (invocation : Invocation) (m : Message) : Receipt × Session :=
  let (receipt, output) := s.output.send (.message ((sinkOf invocation).stamp m))
  (receipt, { s with output })

def perform (s : Session) (request : Nat) (deed : Deed) : Option Session := do
  let invocation ← s.requests[request]?
  match deed with
  | .write m => some (s.respond invocation m).2
  | .abandon id =>
      some { s with
        cancellations := (s.roster.abandon id s.cancellations).getD s.cancellations }
  | .popReason => some { s with cancellations := s.cancellations.modify request (·.pop) }
  | .setAcl acl => some { s with info := { s.info with acl } }
  | .acceptStartTls =>
      some { s with
        requests := s.requests.modify request fun i => { i with startTlsAccepted := true } }
  | .return => if invocation.progress = .running then some (s.finish request .returned) else none
  | .panic => if invocation.progress = .running then some (s.finish request .panicked) else none

def notice : Message := .noticeOfDisconnection stopDiagnostic

def announce (s : Session) : Session :=
  match s.output.send (.message notice) with
  | (.queued, output) => { s with output, watcher := .announced }
  | (.waiting ticket, output) => { s with output, watcher := .offering ticket }
  | (.closed, output) => { s.report .noticeNotQueued with output, watcher := .announced }

/-- The watcher goes on. It looks first whether the session is closing down, then whether the server
is stopping. -/
def watch (s : Session) : Option Session :=
  match s.watcher with
  | .watching =>
      if s.closing then some { s with watcher := .done }
      else if s.stopping then some s.announce
      else none
  | .offering ticket =>
      match s.output.outbox.standing ticket with
      | .waiting => none
      | .queued => some { s with watcher := .announced }
      | .refused => some { s.report .noticeNotQueued with watcher := .announced }
  | .announced => some { s with interrupted := true, watcher := .done }
  | .done => none

def sweep (s : Session) : Session :=
  let swept := { s with
    cancellations := s.roster.roster.cancelAll .sessionClosing s.cancellations }
  if 0 < s.roster.roster.size then swept.report (.swept s.roster.roster.size) else swept

def sealOutbox (s : Session) : Session :=
  match s.output.send .close with
  | (.queued, output) => { s with output, phase := .closing .draining }
  | (.waiting ticket, output) => { s with output, phase := .closing (.offering ticket) }
  | (.closed, output) => { s with output, phase := .closing .draining }

def hangUp (s : Session) : Session :=
  { s.report .closed with
    phase := .closed
    source := none
    roster := s.roster.disown
    output := { s.output with writer := none } }

def close (s : Session) : Option Session :=
  match s.phase with
  | .closing .silencing => some { s with closing := true, phase := .closing .interrupting }
  | .closing .interrupting => some { s with interrupted := true, phase := .closing .sweeping }
  | .closing .sweeping => some { s.sweep with phase := .closing .joining }
  | .closing .joining =>
      if s.handlersDone ∧ s.watcher = .done then some { s with phase := .closing .sealing }
      else none
  | .closing .sealing => some s.sealOutbox
  | .closing (.offering ticket) =>
      if s.output.outbox.standing ticket = .waiting then none
      else some { s with phase := .closing .draining }
  | .closing .draining =>
      if s.output.phase = .finished then some { s with phase := .closing .leaving } else none
  | .closing .leaving => some s.hangUp
  | _ => none

/-- The output goes on. A write that fails interrupts the reading. -/
def emit (s : Session) (act : Output.Act) : Option Session := do
  let (events, output) ← s.output.step? act
  some { s with
    output
    events := s.events ++ events
    interrupted := s.interrupted || output.failed }

/-- One step of a session; `none` if the action does not fit the state. -/
def step? (s : Session) : Action → Option Session
  | .handler request deed => s.perform request deed
  | .stop => some { s with stopping := true }
  | .receive chunk => s.receive chunk
  | .endOfStream => s.endOfStream
  | .loseConnection reason => s.loseConnection reason
  | .expire => s.expire
  | .endHandshake error => s.endHandshake error
  | .read => s.read
  | .watch => s.watch
  | .close => s.close
  | .output act => s.emit act

def run? (s : Session) (actions : List Action) : Option Session := actions.foldlM step? s

end Directory.Session
