import Directory.Message.Basic
import Directory.Session.Error

/-!
# What a session reports

The events that a session reports as they happen, each with its line of text and what goes with the
line.
-/

namespace Directory

inductive Event where
  | rejected (reason : String)
  | greetingFailed (cause : HandshakeError)
  /-- The handshake at the start was given up because the server is stopping. -/
  | greetingAbandoned
  | clientClosed
  | unbindRequested
  | interrupted
  | readTimedOut (limit : Span)
  | failed (cause : SessionError)
  | startTlsDeclined
  /-- The handler agreed to encrypt the connection, but there is nothing to do it with. -/
  | noAcceptor
  | secured
  | upgradeAbandoned
  | swept (requests : Nat)
  | noticeNotQueued
  | writeFailed (cause : SessionError)
  | discarded (id : MessageId)
  /-- A pause of the output ended without anybody ending it. -/
  | pauseForsaken
  | outputFinished
  | closed
  deriving DecidableEq, Repr

namespace Event

def line : Event → String
  | rejected _ => "connection rejected by admission hook"
  | greetingFailed _ => "TLS handshake failed"
  | greetingAbandoned => "TLS handshake abandoned; server stopping"
  | clientClosed => "client closed the connection"
  | unbindRequested => "unbind requested"
  | interrupted => "read loop interrupted"
  | readTimedOut _ => "read timeout"
  | failed _ => "session error"
  | startTlsDeclined => "StartTLS declined by handler"
  | noAcceptor => "StartTLS accepted but no acceptor is configured"
  | secured => "TLS established via StartTLS"
  | upgradeAbandoned => "StartTLS handshake abandoned"
  | swept _ => "cancelled in-flight requests"
  | noticeNotQueued => "notice of disconnection not queued; output closed"
  | writeFailed _ => "write failed; closing session"
  | discarded _ => "discarding response; session output is closed"
  | pauseForsaken => "handoff abandoned without resuming; writer slot may be empty"
  | outputFinished => "write pump finished"
  | closed => "connection closed"

def error? : Event → Option String
  | rejected reason => some reason
  | greetingFailed cause => some cause.message
  | failed cause => some cause.message
  | writeFailed cause => some cause.message
  | _ => none

def limit? : Event → Option Span
  | readTimedOut limit => some limit
  | _ => none

def signalled? : Event → Option Nat
  | swept requests => some requests
  | _ => none

def messageId? : Event → Option MessageId
  | discarded id => some id
  | _ => none

end Event

end Directory
