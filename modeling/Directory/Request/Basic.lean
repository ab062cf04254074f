import Directory.Message.Encode
import Directory.Network.Endpoint

/-!
# Requests and the sessions they arrive on
-/

namespace Directory

/-- What a bind handler notes down about a session for the handlers of later requests. Nothing else
reads it. -/
structure Acl where
  bindEntry : String := ""
  search : Bool := false
  compare : Bool := false
  modify : Bool := false
  deriving DecidableEq, Repr

structure SessionInfo where
  ordinal : Nat
  peer : Network.Endpoint
  localEnd : Network.Endpoint
  tls : Bool
  acl : Acl := {}
  deriving DecidableEq, Repr

structure Request where
  message : Message
  raw : Octets
  /-- The handler has agreed to encrypt the connection. -/
  startTlsAccepted : Bool := false
  deriving DecidableEq, Repr

namespace Request

def ofMessage (m : Message) : Request := { message := m, raw := m.encode }

end Request

end Directory
