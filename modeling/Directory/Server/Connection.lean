import Directory.Session.Step

/-!
# Connections

A connection that was accepted is first put to the admission rule. A listener that is encrypted
from the first octet then expects a handshake, which is given up when the server stops. Only after
that is there a session.
-/

namespace Directory

inductive Connection where
  | refused (report : Event)
  /-- It came to nothing, because no session can run with its options. -/
  | broken
  | greeting (options : Options) (info : SessionInfo)
  | serving (session : Session)
  deriving DecidableEq, Repr

namespace Connection

inductive Action where
  | endGreeting (error : Option HandshakeError)
  | abandonGreeting
  | session (action : Session.Action)
  deriving DecidableEq, Repr

def serve (options : Options) (info : SessionInfo) (stopping : Bool) : Connection :=
  match Session.start? options info stopping with
  | none => .broken
  | some session => .serving session

/-- A connection as it is accepted: what is known of it, and whether its listener is encrypted. -/
def accept (options : Options) (info : SessionInfo) (stopping : Bool) : Connection :=
  match options.admission with
  | some (.refuse reason) => .refused (.rejected reason)
  | _ => if info.tls then .greeting options info else serve options info stopping

def step? (stopping : Bool) : Connection → Action → Option Connection
  | .greeting options info, .endGreeting error =>
      if stopping then none
      else
        match error with
        | none => some (serve options info stopping)
        | some cause => some (.refused (.greetingFailed cause))
  | .greeting _ _, .abandonGreeting =>
      if stopping then some (.refused .greetingAbandoned) else none
  | .serving session, .session action => (session.step? action).map .serving
  | _, _ => none

/-- The server is stopping, which every session gets to know. -/
def stop : Connection → Connection
  | .serving session => .serving { session with stopping := true }
  | other => other

def isOver : Connection → Bool
  | .refused _ => true
  | .broken => true
  | .greeting _ _ => false
  | .serving session => session.phase = .closed

def events : Connection → List Event
  | .refused report => [report]
  | .broken => []
  | .greeting _ _ => []
  | .serving session => session.events

end Connection

end Directory
