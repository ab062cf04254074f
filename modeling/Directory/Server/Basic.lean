import Directory.Server.Connection

/-!
# Servers

A server is started once and stopped once. Starting and stopping are calls that may run at the same
time, and each of them takes several steps:

* a start checks its options and looks for a handler, claims the server, binds the address, and
  then either commits, which spawns a listener, or takes its claim back;
* a stop marks the server as stopped and tells every session, waits for the listener to end, and
  then for every connection to be over.

`Server.step?` lets one call, one listener or one connection take one step.
-/

namespace Directory

inductive ServerError where
  | noHandler
  | handlerAlreadyRegistered
  | alreadyStarted
  | stopped
  | invalidOptions (cause : OptionsError)
  | bind (address : String)
  | keys (cause : KeyError)
  deriving DecidableEq, Repr

namespace ServerError

def message : ServerError → String
  | noHandler => "no handler registered"
  | handlerAlreadyRegistered => "a handler is already registered"
  | alreadyStarted => "server is already started"
  | stopped => "server has been stopped"
  | invalidOptions cause => "invalid options: " ++ cause.message
  | bind address => "bind failed on " ++ address
  | keys cause => cause.message

end ServerError

structure Listener where
  address : String
  options : Options
  /-- Every connection starts with a handshake. -/
  encrypted : Bool
  running : Bool := true
  accepted : Nat := 0
  deriving DecidableEq, Repr

namespace Server

inductive Life where
  | idle
  | starting
  | running
  | stopped
  deriving DecidableEq, Repr

inductive Starting where
  | checking
  | claiming
  | binding
  /-- The address is bound. -/
  | committing
  /-- The address could not be bound. -/
  | reverting
  | ended (result : Except ServerError Unit)
  deriving Repr

inductive Stopping where
  | marking
  | awaitingListeners
  | awaitingConnections
  | ended
  deriving DecidableEq, Repr

inductive Call where
  | start (listener : Listener) (stage : Starting)
  | stop (stage : Stopping)
  deriving Repr

end Server

structure Server where
  life : Server.Life := .idle
  handler : Bool := false
  stopping : Bool := false
  listeners : List Listener := []
  connections : List Connection := []
  calls : List Server.Call := []
  deriving Repr

namespace Server

inductive Action where
  | registerHandler
  | callStart (address : String) (options : Options) (encrypted : Bool)
  | callStop
  /-- A call goes on; if it binds an address, the flag says whether that succeeds. -/
  | goOn (call : Nat) (bound : Bool)
  | accept (listener : Nat) (peer localEnd : Network.Endpoint)
  | endListener (listener : Nat)
  | connection (number : Nat) (action : Connection.Action)
  deriving DecidableEq, Repr

def registerHandler (s : Server) : Except ServerError Server :=
  if s.handler then .error .handlerAlreadyRegistered else .ok { s with handler := true }

def checkStart (s : Server) (options : Options) : Except ServerError Unit :=
  match options.check with
  | .error cause => .error (.invalidOptions cause)
  | .ok () => if s.handler then .ok () else .error .noHandler

def claim (s : Server) : Except ServerError Server :=
  match s.life with
  | .idle => .ok { s with life := .starting }
  | .starting => .error .alreadyStarted
  | .running => .error .alreadyStarted
  | .stopped => .error .stopped

def revert (s : Server) : Server := if s.life = .starting then { s with life := .idle } else s

/-- Spawns the listener of a start, unless the server was stopped in the meantime. -/
def commit (s : Server) (listener : Listener) : Except ServerError Server :=
  if s.life = .stopped then .error .stopped
  else .ok { s with life := .running, listeners := s.listeners ++ [listener] }

def tell (s : Server) : Server :=
  { s with stopping := true, connections := s.connections.map (·.stop) }

def mark (s : Server) : Server := { s.tell with life := .stopped }

def sessionCount (s : Server) : Nat := s.connections.countP (!·.isOver)

def goOnStarting (s : Server) (listener : Listener) (bound : Bool) :
    Starting → Option (Starting × Server)
  | .checking =>
      match s.checkStart listener.options with
      | .error cause => some (.ended (.error cause), s)
      | .ok () => some (.claiming, s)
  | .claiming =>
      match s.claim with
      | .error cause => some (.ended (.error cause), s)
      | .ok claimed => some (.binding, claimed)
  | .binding => some (if bound then .committing else .reverting, s)
  | .reverting => some (.ended (.error (.bind listener.address)), s.revert)
  | .committing =>
      match s.commit listener with
      | .error cause => some (.ended (.error cause), s)
      | .ok running => some (.ended (.ok ()), running)
  | .ended _ => none

def goOnStopping (s : Server) : Stopping → Option (Stopping × Server)
  | .marking => some (.awaitingListeners, s.mark)
  | .awaitingListeners =>
      if s.listeners.any (·.running) then none else some (.awaitingConnections, s)
  | .awaitingConnections => if s.sessionCount = 0 then some (.ended, s) else none
  | .ended => none

def goOn (s : Server) (call : Nat) (bound : Bool) : Option Server := do
  match ← s.calls[call]? with
  | .start listener stage =>
      let (stage, next) ← s.goOnStarting listener bound stage
      some { next with calls := next.calls.set call (.start listener stage) }
  | .stop stage =>
      let (stage, next) ← s.goOnStopping stage
      some { next with calls := next.calls.set call (.stop stage) }

/-- A listener accepts a connection, which may still happen between being told to stop and ending. -/
def accept (s : Server) (number : Nat) (peer localEnd : Network.Endpoint) : Option Server := do
  let listener ← s.listeners[number]?
  if listener.running then
    let ordinal := listener.accepted + 1
    let info : SessionInfo := { ordinal, peer, localEnd, tls := listener.encrypted }
    some { s with
      listeners := s.listeners.set number { listener with accepted := ordinal }
      connections := s.connections ++ [.accept listener.options info s.stopping] }
  else none

def endListener (s : Server) (number : Nat) : Option Server := do
  let listener ← s.listeners[number]?
  if listener.running ∧ s.stopping then
    some { s with listeners := s.listeners.set number { listener with running := false } }
  else none

/-- A connection takes a step. Only the server itself tells a session that it is stopping. -/
def stepConnection (s : Server) (number : Nat) (action : Connection.Action) : Option Server := do
  let connection ← s.connections[number]?
  if action = .session .stop then none
  else
    let next ← connection.step? s.stopping action
    some { s with connections := s.connections.set number next }

/-- One step of a server; `none` if the action does not fit the state. -/
def step? (s : Server) : Action → Option Server
  | .registerHandler => s.registerHandler.toOption
  | .callStart address options encrypted =>
      some { s with calls := s.calls ++ [.start { address, options, encrypted } .checking] }
  | .callStop => some { s with calls := s.calls ++ [.stop .marking] }
  | .goOn call bound => s.goOn call bound
  | .accept listener peer localEnd => s.accept listener peer localEnd
  | .endListener listener => s.endListener listener
  | .connection number action => s.stepConnection number action

def run? (s : Server) (actions : List Action) : Option Server := actions.foldlM step? s

def defaultAddress (encrypted : Bool) : String :=
  if encrypted then "0.0.0.0:636" else "0.0.0.0:389"

def addressOrDefault (address : String) (encrypted : Bool) : String :=
  if address.isEmpty then defaultAddress encrypted else address

/-- A start that nothing comes in between. A start that fails leaves the server as it was. -/
def listen (s : Server) (bindable : String → Bool) (address : String) (options : Options)
    (encrypted : Bool) : Except ServerError Server := do
  s.checkStart options
  let claimed ← s.claim
  let address := addressOrDefault address encrypted
  if bindable address then claimed.commit { address, options, encrypted }
  else .error (.bind address)

/-- A start of a listener that is encrypted with the key pair of two files. The files are looked at
before anything else. -/
def listenTls (s : Server) (bindable : String → Bool) (files : Acceptor.Files) (address : String)
    (certPath keyPath : String) (options : Options) : Except ServerError Server :=
  match Acceptor.load files certPath keyPath with
  | .error cause => .error (.keys cause)
  | .ok _ => s.listen bindable address options true

/-- A stop that nothing comes in between, as far as it gets before the connections are over. -/
def stop (s : Server) : Server :=
  { s.mark with listeners := s.listeners.map fun listener => { listener with running := false } }

def isQuiet (s : Server) : Bool := !s.listeners.any (·.running) && s.sessionCount == 0

end Server

end Directory
