import Directory.Message.ResultCode
import Directory.Ber.Header

/-!
# Messages

A message is an envelope: a message identifier, one operation, and optional controls. Only the
operations that matter to the connection itself have a structure here: binding, unbinding,
abandoning, extended operations, and the responses that hold nothing but an outcome. Every other
operation is a tag with opaque content.
-/

namespace Directory

/-- The identifier of a message: 32 bits with a sign, of which only `0 … 2³¹ - 1` is legal. Zero
marks a message that answers no request. -/
abbrev MessageId := Int32

structure Outcome where
  code : ResultCode
  matchedDn : String
  diagnostic : String
  deriving DecidableEq, Repr

namespace Outcome

def ofCode (code : ResultCode) : Outcome := ⟨code, "", ""⟩

def success : Outcome := ofCode .success

end Outcome

inductive Authentication where
  | simple (password : Octets)
  | sasl (mechanism : String) (credentials : Option Octets)
  deriving DecidableEq, Repr

structure BindRequest where
  version : UInt8
  /-- The name to bind to; empty for an anonymous bind. -/
  name : String
  authentication : Authentication
  deriving DecidableEq, Repr

namespace BindRequest

def simple (name : String) (password : Octets) : BindRequest := ⟨3, name, .simple password⟩

def simplePassword (r : BindRequest) : Option Octets :=
  match r.authentication with
  | .simple password => some password
  | .sasl _ _ => none

end BindRequest

/-- The operations whose responses hold an outcome and nothing else. -/
inductive PlainResponse where
  | searchDone
  | modify
  | add
  | delete
  | modifyDn
  | compare
  deriving DecidableEq, Repr

inductive Operation where
  | bindRequest (request : BindRequest)
  | bindResponse (outcome : Outcome) (serverCredentials : Option Octets)
  | unbindRequest
  | abandonRequest (target : MessageId)
  | extendedRequest (name : String) (value : Option Octets)
  | extendedResponse (outcome : Outcome) (name : Option String) (value : Option Octets)
  | plainResponse (kind : PlainResponse) (outcome : Outcome)
  | other (tag : UInt8) (payload : Octets)
  deriving DecidableEq, Repr

namespace PlainResponse

def tag : PlainResponse → UInt8
  | searchDone => 0x65
  | modify => 0x67
  | add => 0x69
  | delete => 0x6B
  | modifyDn => 0x6D
  | compare => 0x6F

def ofTag? (t : UInt8) : Option PlainResponse :=
  [searchDone, modify, add, delete, modifyDn, compare].find? fun k => k.tag == t

theorem ofTag?_tag (k : PlainResponse) : ofTag? k.tag = some k := by cases k <;> rfl

theorem tag_of_ofTag? {t : UInt8} {k : PlainResponse} (h : ofTag? t = some k) : k.tag = t := by
  simpa using List.find?_some h

end PlainResponse

namespace Operation

def classMask : UInt8 := 0xC0

def applicationClass : UInt8 := 0x40

def isApplication (tag : UInt8) : Bool := tag &&& classMask == applicationClass

/-- Identifier octets of the operations that have a structure here. -/
def Tag.bindRequest : UInt8 := 0x60
@[inherit_doc Tag.bindRequest] def Tag.bindResponse : UInt8 := 0x61
@[inherit_doc Tag.bindRequest] def Tag.unbindRequest : UInt8 := 0x42
@[inherit_doc Tag.bindRequest] def Tag.abandonRequest : UInt8 := 0x50
@[inherit_doc Tag.bindRequest] def Tag.extendedRequest : UInt8 := 0x77
@[inherit_doc Tag.bindRequest] def Tag.extendedResponse : UInt8 := 0x78

def tag : Operation → UInt8
  | bindRequest _ => Tag.bindRequest
  | bindResponse _ _ => Tag.bindResponse
  | unbindRequest => Tag.unbindRequest
  | abandonRequest _ => Tag.abandonRequest
  | extendedRequest _ _ => Tag.extendedRequest
  | extendedResponse _ _ _ => Tag.extendedResponse
  | plainResponse kind _ => kind.tag
  | other tag _ => tag

def names : List (UInt8 × String) := [
  (0x60, "BindRequest"), (0x61, "BindResponse"), (0x42, "UnbindRequest"),
  (0x63, "SearchRequest"), (0x64, "SearchResultEntry"), (0x65, "SearchResultDone"),
  (0x73, "SearchResultReference"), (0x66, "ModifyRequest"), (0x67, "ModifyResponse"),
  (0x68, "AddRequest"), (0x69, "AddResponse"), (0x4A, "DelRequest"), (0x6B, "DelResponse"),
  (0x6C, "ModifyDNRequest"), (0x6D, "ModifyDNResponse"), (0x6E, "CompareRequest"),
  (0x6F, "CompareResponse"), (0x50, "AbandonRequest"), (0x77, "ExtendedRequest"),
  (0x78, "ExtendedResponse"), (0x79, "IntermediateResponse")]

/-- A short name for log lines. It comes from the identifier octet alone, so no field, and with it
no password, can reach a log. -/
def name (op : Operation) : String := (names.lookup op.tag).getD "UnknownOperation"

end Operation

structure Message where
  id : MessageId
  op : Operation
  /-- The content of the controls element, kept as it is. -/
  controls : Option Octets := none
  deriving DecidableEq, Repr

namespace Message

/-- The name of the extended operation that asks for an encrypted connection. -/
def startTlsName : String := "1.3.6.1.4.1.1466.20037"

/-- The name under which a server announces that it is about to disconnect. -/
def disconnectionName : String := "1.3.6.1.4.1.1466.20036"

/-- The message that a server sends, unasked, before it ends a connection. -/
def noticeOfDisconnection (diagnostic : String) : Message :=
  { id := 0
    op := .extendedResponse ⟨.unwillingToPerform, "", diagnostic⟩ (some disconnectionName) none }

def isUnbind (m : Message) : Bool :=
  match m.op with
  | .unbindRequest => true
  | _ => false

def isStartTls (m : Message) : Bool :=
  match m.op with
  | .extendedRequest name _ => name == startTlsName
  | _ => false

def isNoticeOfDisconnection (m : Message) : Bool :=
  match m.op with
  | .extendedResponse _ name _ => name == some disconnectionName
  | _ => false

end Message

end Directory
