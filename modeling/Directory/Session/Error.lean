import Directory.Framing
import Directory.Security.KeyMaterial

/-!
# What ends a session
-/

namespace Directory

/-- Why a session ends, or why a response does not reach its connection. -/
inductive SessionError where
  | connection (reason : String)
  | stream (cause : StreamError)
  | readTimeout (limit : Span)
  | writeTimeout (limit : Span)
  | handshake (cause : HandshakeError)
  /-- Octets had arrived behind the request to encrypt the connection. -/
  | pipelined (count : Nat)
  | alreadySecured
  | handlerPanicked
  /-- There is no writer in its place. -/
  | writerUnavailable
  deriving DecidableEq, Repr

namespace SessionError

def brokenPipe : SessionError := connection "broken pipe"

def message : SessionError → String
  | connection reason => "I/O error: " ++ reason
  | stream cause => cause.message
  | readTimeout limit => "no request received within " ++ limit.text
  | writeTimeout limit => "response not written within " ++ limit.text
  | handshake cause => "TLS upgrade failed: " ++ cause.message
  | pipelined count =>
      toString count ++ " bytes were pipelined after the StartTLS request"
  | alreadySecured => "StartTLS requested on a session that is already encrypted"
  | handlerPanicked => "StartTLS handler panicked"
  | writerUnavailable => "socket writer is not available"

end SessionError

end Directory
