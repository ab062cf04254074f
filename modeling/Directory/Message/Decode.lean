import Directory.Message.Encode
import Directory.Ber.Reader

/-!
# The message of a run of octets

`Message.decode` reads exactly one envelope that takes up the whole run. What it refuses and with
which cause is decided from the outside in: the outer element first, then the message identifier,
then the operation to its last octet, then the controls, then what is left over.

Two places are lenient. The content of an unbind request is ignored, and a referral in an outcome
is taken and dropped. What follows the credentials inside a security-mechanism element is not
looked at either.
-/

namespace Directory

open Ber

/-- The identifier that an integer stands for: `0 … 2³¹ - 1`, anything else is out of range. -/
def MessageId.ofInteger (raw : Int) : Except WireError MessageId :=
  if 0 ≤ raw ∧ raw < 0x80000000 then .ok (Int32.ofInt raw) else .error (.integerOutOfRange raw)

/-- The code that an integer stands for: `0 … 2³² - 1`, anything else is out of range. -/
def ResultCode.ofInteger (raw : Int) : Except WireError ResultCode :=
  if 0 ≤ raw ∧ raw < 0x100000000 then .ok ⟨UInt32.ofNat raw.toNat⟩
  else .error (.integerOutOfRange raw)

/-- The protocol version that an integer stands for: `1 … 127`, anything else is out of range. -/
def BindRequest.versionOfInteger (raw : Int) : Except WireError UInt8 :=
  if 1 ≤ raw ∧ raw ≤ 127 then .ok (UInt8.ofNat raw.toNat) else .error (.integerOutOfRange raw)

/-- Takes the components of an outcome, a referral included, which is dropped. -/
def Outcome.reader : Reader Outcome := do
  let raw ← Reader.integer Tag.enumerated
  let code ← Reader.lift (ResultCode.ofInteger raw)
  let matchedDn ← Reader.text Tag.octetString
  let diagnostic ← Reader.text Tag.octetString
  let _ ← Reader.optional Field.referral
  pure ⟨code, matchedDn, diagnostic⟩

def Authentication.saslReader : Reader Authentication := do
  let mechanism ← Reader.text Tag.octetString
  let credentials ← Reader.optional Tag.octetString
  pure (.sasl mechanism credentials)

def Authentication.reader : Reader Authentication := do
  let (found, content) ← Reader.element
  if found = Field.simplePassword then pure (.simple content)
  else if found = Field.sasl then
    Reader.lift (Authentication.saslReader.answer content)
  else throw (.unexpectedTag Field.simplePassword found)

def BindRequest.reader : Reader BindRequest := do
  let raw ← Reader.integer Tag.integer
  let version ← Reader.lift (BindRequest.versionOfInteger raw)
  let name ← Reader.text Tag.octetString
  let authentication ← Authentication.reader
  pure ⟨version, name, authentication⟩

namespace Operation

def bindResponseReader : Reader Operation := do
  let outcome ← Outcome.reader
  let credentials ← Reader.optional Field.serverCredentials
  pure (.bindResponse outcome credentials)

def extendedRequestReader : Reader Operation := do
  let name ← Reader.text Field.requestName
  let value ← Reader.optional Field.requestValue
  pure (.extendedRequest name value)

def optionalText (tag : UInt8) : Reader (Option String) := do
  match ← Reader.optional tag with
  | some content =>
      let s ← Reader.lift (Reader.spelling content)
      pure (some s)
  | none => pure none

def extendedResponseReader : Reader Operation := do
  let outcome ← Outcome.reader
  let name ← optionalText Field.responseName
  let value ← Reader.optional Field.responseValue
  pure (.extendedResponse outcome name value)

/-- Runs a reader over content of which nothing may be left over. -/
def whole {α : Type} (r : Reader α) (content : Octets) : Except WireError α :=
  Reader.answer (do let a ← r; Reader.finished; pure a) content

def decode (tag : UInt8) (content : Octets) : Except WireError Operation :=
  if !isApplication tag then .error (.unknownOperation tag)
  else if tag = Tag.bindRequest then whole (bindRequest <$> BindRequest.reader) content
  else if tag = Tag.bindResponse then whole bindResponseReader content
  else if tag = Tag.unbindRequest then .ok unbindRequest
  else if tag = Tag.abandonRequest then do
    let raw ← Integer.ofContent content
    let target ← MessageId.ofInteger raw
    pure (abandonRequest target)
  else if tag = Tag.extendedRequest then whole extendedRequestReader content
  else if tag = Tag.extendedResponse then whole extendedResponseReader content
  else
    match PlainResponse.ofTag? tag with
    | some kind => whole (plainResponse kind <$> Outcome.reader) content
    | none => .ok (other tag content)

end Operation

namespace Message

/-- Takes the parts of an envelope, of which nothing may be left over. -/
def reader : Reader Message := do
  let raw ← Reader.integer Ber.Tag.integer
  let id ← Reader.lift (MessageId.ofInteger raw)
  let (tag, content) ← Reader.element
  let op ← Reader.lift (Operation.decode tag content)
  let controls ← Reader.optional Field.controls
  Reader.finished
  pure { id, op, controls }

/-- The content of the one sequence that takes up a whole run of octets. -/
def envelopeContent (bytes : Octets) : Except WireError Octets :=
  match Reader.split bytes with
  | .error e => .error e
  | .ok (tag, content, rest) =>
      if tag ≠ Ber.Tag.sequence then .error (.notAnEnvelope tag)
      else if rest ≠ [] then .error (.trailingData rest.length)
      else .ok content

def decode (bytes : Octets) : Except WireError Message := do
  let content ← envelopeContent bytes
  reader.answer content

end Message

end Directory
