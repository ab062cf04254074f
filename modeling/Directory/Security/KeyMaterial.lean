import Directory.Security.Pem
import Directory.Span

/-!
# Key material and handshakes

An acceptor answers the server's side of handshakes with a certificate chain and a private key.
Both files are read before either is parsed, and the certificates are parsed before the key, which
settles which of two faults is reported.
-/

namespace Directory

structure Acceptor where
  chain : List Octets
  key : Octets
  deriving DecidableEq, Repr

inductive KeyError where
  | unreadable (path : String)
  | malformed (label : String) (refusal : Pem.Refusal)
  | noCertificates (label : String)
  | noPrivateKey (label : String)
  deriving DecidableEq, Repr

namespace KeyError

def message : KeyError → String
  | unreadable path => "failed to read " ++ path ++ ": No such file or directory (os error 2)"
  | malformed label _ => "malformed PEM in " ++ label
  | noCertificates label => "no certificates found in " ++ label
  | noPrivateKey label => "no private key found in " ++ label

end KeyError

inductive HandshakeError where
  | failed
  | timedOut (limit : Span)
  /-- The server gave up waiting because it is stopping or the session is ending. -/
  | abandoned
  deriving DecidableEq, Repr

namespace HandshakeError

def message : HandshakeError → String
  | failed => "TLS handshake failed"
  | timedOut limit => "TLS handshake did not complete within " ++ limit.text
  | abandoned => "TLS handshake abandoned"

end HandshakeError

namespace Acceptor

/-- The certificates of a text under its label: one at least. -/
def chainOf (text : Octets) (label : String) : Except KeyError (List Octets) :=
  match Pem.certificates text with
  | .error r => .error (.malformed label r)
  | .ok [] => .error (.noCertificates label)
  | .ok chain => .ok chain

def keyOf (text : Octets) (label : String) : Except KeyError Octets :=
  match Pem.privateKey text with
  | .error r => .error (.malformed label r)
  | .ok none => .error (.noPrivateKey label)
  | .ok (some key) => .ok key

def ofTexts (certText : Octets) (certLabel : String) (keyText : Octets) (keyLabel : String) :
    Except KeyError Acceptor := do
  let chain ← chainOf certText certLabel
  let key ← keyOf keyText keyLabel
  pure ⟨chain, key⟩

def ofPem (certText keyText : Octets) : Except KeyError Acceptor :=
  ofTexts certText "certificate PEM" keyText "private key PEM"

abbrev Files := String → Option Octets

def readFile (files : Files) (path : String) : Except KeyError Octets :=
  match files path with
  | some content => .ok content
  | none => .error (.unreadable path)

/-- The acceptor of two files; each path is the label of its text. -/
def load (files : Files) (certPath keyPath : String) : Except KeyError Acceptor := do
  let certText ← readFile files certPath
  let keyText ← readFile files keyPath
  ofTexts certText certPath keyText keyPath

end Acceptor

end Directory
