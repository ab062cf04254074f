import Directory.Session.Basic

/-!
# The reading party of a session

Envelopes are read one at a time. An ordinary request is put on the roster and handed to its
handler, and reading goes on at once. A request to encrypt the connection is different: nothing is
read until its handler has returned, and then, if the handler has agreed, nothing may have arrived
behind the request, for that would be read as if it had come over the encrypted connection. The
output is made to pause, the writer is taken, and after the handshake both directions run over the
new channel.

The reading is interrupted at the next envelope, never within one: an interruption is looked at
before anything that has arrived.
-/

namespace Directory.Session

/-- Hands a request to a handler: it is put on the roster before the handler runs. -/
def invoke (s : Session) (m : Message) (raw : Octets) (channel : Channel) : Session :=
  { s with
    requests := s.requests ++ [{ message := m, raw, channel }]
    cancellations := s.cancellations ++ [{}]
    roster := s.roster.register m.id s.requests.length }

def accept (s : Session) (raw : Octets) (channel : Channel) : Session :=
  match Message.decode raw with
  | .error cause => s.leaveFor (.stream (.protocol cause))
  | .ok m =>
      if m.isUnbind then s.leave .unbindRequested
      else if m.isStartTls then
        { s.invoke m raw channel with phase := .serving s.requests.length }
      else s.invoke m raw channel

def readNext (s : Session) : Option Session :=
  if s.interrupted then some (s.leave .interrupted)
  else
    match s.source with
    | none => some { s with phase := .closing .silencing }
    | some source =>
        match source.splitter.next with
        | .error cause => some (s.leaveFor (.stream (.protocol cause)))
        | .ok none => none
        | .ok (some (raw, splitter)) =>
            some ({ s with source := some { source with splitter } }.accept raw source.channel)

/-- The source, if the reading waits for octets: no envelope is complete and nothing has interrupted
it. -/
def waitsFor (s : Session) : Option Source :=
  if s.phase = .reading ∧ !s.interrupted then
    s.source.filter (·.splitter.isWaiting)
  else none

def receive (s : Session) (chunk : Octets) : Option Session :=
  s.waitsFor.map fun source =>
    { s with source := some { source with splitter := source.splitter.receive chunk } }

def endOfStream (s : Session) : Option Session :=
  s.waitsFor.map fun source =>
    if source.splitter.buffered = 0 then s.leave .clientClosed
    else s.leaveFor (.stream .cutShort)

def loseConnection (s : Session) (reason : String) : Option Session :=
  s.waitsFor.map fun _ => s.leaveFor (.connection reason)

def expire (s : Session) : Option Session := do
  let limit ← s.options.readTimeout
  let _ ← s.waitsFor
  some (s.leaveFor (.readTimeout limit))

/-- Asks the output to pause for an upgrade. From here on the source is gone until the upgrade has
succeeded. -/
def offerPause (s : Session) (source : Source) : Session :=
  let s := { s with source := none }
  if 0 < source.splitter.buffered then s.leaveFor (.pipelined source.splitter.buffered)
  else
    let pause := s.output.nextPause
    match s.output.openPause.send (.pause pause) with
    | (.queued, output) => { s with output, phase := .pausing pause }
    | (.waiting ticket, output) => { s with output, phase := .offering ticket pause }
    | (.closed, output) => { s with output }.leaveFor .writerUnavailable

def decide (s : Session) (invocation : Invocation) : Session :=
  if !invocation.startTlsAccepted then { s.report .startTlsDeclined with phase := .reading }
  else if s.secured then s.leaveFor .alreadySecured
  else if s.options.startTls.isNone then { s.report .noAcceptor with phase := .reading }
  else
    match s.source with
    | none => { s with phase := .reading }
    | some source => s.offerPause source

def awaitHandler (s : Session) (request : Nat) : Option Session := do
  let invocation ← s.requests[request]?
  match invocation.progress with
  | .running => none
  | .panicked => some (s.leaveFor .handlerPanicked)
  | .returned => some (s.decide invocation)

def awaitRoom (s : Session) (ticket pause : Nat) : Option Session :=
  match s.output.outbox.standing ticket with
  | .waiting => none
  | .queued => some { s with phase := .pausing pause }
  | .refused => some (s.leaveFor .writerUnavailable)

/-- An upgrade has failed: the output may go on, and the session ends. -/
def abandonUpgrade (s : Session) (pause : Nat) (cause : SessionError) : Session :=
  { s with output := s.output.endPause pause true }.leaveFor cause

/-- Waits until the output has paused, and takes the writer out of its place. -/
def awaitPause (s : Session) (pause : Nat) : Option Session :=
  if s.output.hasPaused pause then
    let taken := { s with output := { s.output with writer := none } }
    match s.output.writer with
    | none => some (s.abandonUpgrade pause .writerUnavailable)
    | some .secure => some (taken.abandonUpgrade pause .alreadySecured)
    | some .plain => some { taken with phase := .shaking pause }
  else if s.output.expects pause then none
  else some (s.leaveFor .writerUnavailable)

def awaitHandshake (s : Session) (pause : Nat) : Option Session :=
  if s.interrupted then some (s.abandonUpgrade pause (.handshake .abandoned)) else none

/-- The handshake has succeeded: both directions run over the encrypted channel. -/
def upgrade (s : Session) (pause : Nat) : Session :=
  { s.report .secured with
    phase := .reading
    source := some (freshSource s.options .secure)
    info := { s.info with tls := true }
    output := { s.output with writer := some .secure }.endPause pause true }

def canEnd (s : Session) : Option HandshakeError → Bool
  | none => true
  | some .failed => true
  | some (.timedOut limit) => s.options.readTimeout = some limit
  | some .abandoned => false

/-- The handshake ends, unless it is interrupted. -/
def endHandshake (s : Session) (error : Option HandshakeError) : Option Session :=
  match s.phase with
  | .shaking pause =>
      if s.interrupted || !s.canEnd error then none
      else
        match error with
        | none => some (s.upgrade pause)
        | some cause => some (s.abandonUpgrade pause (.handshake cause))
  | _ => none

def read (s : Session) : Option Session :=
  match s.phase with
  | .reading => s.readNext
  | .serving request => s.awaitHandler request
  | .offering ticket pause => s.awaitRoom ticket pause
  | .pausing pause => s.awaitPause pause
  | .shaking pause => s.awaitHandshake pause
  | .closing _ => none
  | .closed => none

end Directory.Session
