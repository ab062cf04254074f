import Directory.Options
import Directory.Toml.Document
import Directory.Toml.Quoted

/-!
# Settings kept in a file

The settings of a server are kept as a document of keys and values. Every key has a default, so an
empty document is a valid one, and unknown keys are ignored. A key pair under `[tls]` either makes
the listener encrypted from the first octet or, with `start_tls`, backs upgrades of plain sessions.

`Settings.parse?` and `Settings.write?` are the two directions; `Settings.toOptions` gives the
options to run a listener with.
-/

namespace Directory

structure TlsSettings where
  certPath : String
  keyPath : String
  /-- The key pair backs upgrades of plain sessions. -/
  startTls : Bool := false
  deriving DecidableEq, Repr

structure Settings where
  /-- Where to listen; empty for the default of the listener. -/
  bindAddress : String := ""
  readTimeoutMs : Nat := 0
  writeTimeoutMs : Nat := 0
  queueCapacity : Nat := 20
  maxMessageSize : Nat := defaultMaxMessageSize
  tls : Option TlsSettings := none
  deriving DecidableEq, Repr

inductive SettingsError where
  | unreadable
  | malformed
  deriving DecidableEq, Repr

namespace Settings

open Toml

/-- What a key must hold: a reading of nodes. -/
abbrev Shape (α : Type) := Node → Option α

def asText : Shape String
  | .text s => some s
  | _ => none

def asCount : Shape Nat
  | .integer n => if 0 ≤ n then some n.toNat else none
  | _ => none

def asFlag : Shape Bool
  | .boolean b => some b
  | _ => none

def field {α : Type} (es : Entries) (key : String) (shape : Shape α) (default : α) : Option α :=
  match es.get? key with
  | none => some default
  | some n => shape n

def required {α : Type} (es : Entries) (key : String) (shape : Shape α) : Option α :=
  (es.get? key).bind shape

/-- Where the key pair is: a table, or an array with the same fields in their order. -/
def asTls : Shape TlsSettings
  | .array (cert :: key :: rest) => do
      let certPath ← asText cert
      let keyPath ← asText key
      let startTls ← match rest with
        | [] => some false
        | n :: _ => asFlag n
      some { certPath, keyPath, startTls }
  | n => do
      let es ← n.entries?
      let certPath ← required es "cert_path" asText
      let keyPath ← required es "key_path" asText
      let startTls ← field es "start_tls" asFlag false
      some { certPath, keyPath, startTls }

def ofEntries (es : Entries) : Option Settings := do
  let bindAddress ← field es "bind_address" asText ""
  let readTimeoutMs ← field es "read_timeout_ms" asCount 0
  let writeTimeoutMs ← field es "write_timeout_ms" asCount 0
  let queueCapacity ← field es "outbound_queue_capacity" asCount 20
  let maxMessageSize ← field es "max_message_size" asCount defaultMaxMessageSize
  let tls ← field es "tls" (fun n => (asTls n).map some) none
  some { bindAddress, readTimeoutMs, writeTimeoutMs, queueCapacity, maxMessageSize, tls }

def parse? (document : String) : Option Settings := (Document.parse? document).bind ofEntries

def largestNumber : Nat := 0x7FFFFFFFFFFFFFFF

def isWritable (s : Settings) : Bool :=
  s.readTimeoutMs ≤ largestNumber && s.writeTimeoutMs ≤ largestNumber &&
    s.queueCapacity ≤ largestNumber && s.maxMessageSize ≤ largestNumber

def line (key value : String) : String := key ++ " = " ++ value ++ "\n"

def flagText (b : Bool) : String := if b then "true" else "false"

/-- The lines of a document with these settings: the keys in a fixed order, then the key pair under
a header of its own. -/
def document (s : Settings) : String :=
  line "bind_address" (quote s.bindAddress) ++
    line "read_timeout_ms" (toString s.readTimeoutMs) ++
    line "write_timeout_ms" (toString s.writeTimeoutMs) ++
    line "outbound_queue_capacity" (toString s.queueCapacity) ++
    line "max_message_size" (toString s.maxMessageSize) ++
    match s.tls with
    | none => ""
    | some t =>
        "\n[tls]\n" ++
          line "cert_path" (quote t.certPath) ++
          line "key_path" (quote t.keyPath) ++
          line "start_tls" (flagText t.startTls)

/-- The document with these settings, if every number can be written. -/
def write? (s : Settings) : Option String := if s.isWritable then some s.document else none

inductive Source where
  | missing
  | folder
  | file (content : Octets)
  deriving DecidableEq, Repr

/-- The settings at a path: the defaults if there is no file. -/
def load : Source → Except SettingsError Settings
  | .missing => .ok {}
  | .folder => .error .unreadable
  | .file content =>
      match content.text? with
      | none => .error .unreadable
      | some document =>
          match parse? document with
          | none => .error .malformed
          | some s => .ok s

def listensTls (s : Settings) : Bool :=
  match s.tls with
  | some t => !t.startTls
  | none => false

/-- The options to run a listener with. The key pair is loaded only if it backs upgrades. -/
def toOptions (files : Acceptor.Files) (s : Settings) : Except KeyError Options := do
  let options := (({} : Options).withReadTimeout (Span.ofMillis s.readTimeoutMs)
    |>.withWriteTimeout (Span.ofMillis s.writeTimeoutMs)
    |>.withQueueCapacity s.queueCapacity
    |>.withMaxMessageSize s.maxMessageSize)
  match s.tls with
  | some t =>
      if t.startTls then do
        let acceptor ← Acceptor.load files t.certPath t.keyPath
        pure (options.withStartTls acceptor)
      else pure options
  | none => pure options

end Settings

end Directory
