import Directory.Message.Basic
import Directory.Ber.Writer

/-!
# The octets of a message

Every message has one written form: the shortest one that the reader accepts. An operation is one
element with the operation's identifier octet; an envelope is one sequence of the message
identifier, the operation and, if there are any, the controls.
-/

namespace Directory

open Ber

namespace Field

/-- Identifier octets of the fields that are told apart by their place in the message alone. -/
def simplePassword : UInt8 := 0x80
@[inherit_doc simplePassword] def sasl : UInt8 := 0xA3
@[inherit_doc simplePassword] def referral : UInt8 := 0xA3
@[inherit_doc simplePassword] def serverCredentials : UInt8 := 0x87
@[inherit_doc simplePassword] def requestName : UInt8 := 0x80
@[inherit_doc simplePassword] def requestValue : UInt8 := 0x81
@[inherit_doc simplePassword] def responseName : UInt8 := 0x8A
@[inherit_doc simplePassword] def responseValue : UInt8 := 0x8B
@[inherit_doc simplePassword] def controls : UInt8 := 0xA0

end Field

/-- The components of an outcome: code, matched name, diagnostic. A referral is never written. -/
def Outcome.encode (o : Outcome) : Octets :=
  integerElement Tag.enumerated (o.code.value.toNat : Int) ++
    textElement Tag.octetString o.matchedDn ++
    textElement Tag.octetString o.diagnostic

def Authentication.encode : Authentication → Octets
  | .simple password => element Field.simplePassword password
  | .sasl mechanism credentials =>
      element Field.sasl
        (textElement Tag.octetString mechanism ++ optionalElement Tag.octetString credentials)

namespace Operation

def content : Operation → Octets
  | bindRequest r =>
      integerElement Ber.Tag.integer (r.version.toNat : Int) ++
        textElement Ber.Tag.octetString r.name ++ r.authentication.encode
  | bindResponse outcome credentials =>
      outcome.encode ++ optionalElement Field.serverCredentials credentials
  | unbindRequest => []
  | abandonRequest target => Integer.content target.toInt
  | extendedRequest name value =>
      textElement Field.requestName name ++ optionalElement Field.requestValue value
  | extendedResponse outcome name value =>
      outcome.encode ++ optionalElement Field.responseName (name.map Octets.ofText) ++
        optionalElement Field.responseValue value
  | plainResponse _ outcome => outcome.encode
  | other _ payload => payload

def encode (op : Operation) : Octets := element op.tag op.content

end Operation

namespace Message

def content (m : Message) : Octets :=
  integerElement Ber.Tag.integer m.id.toInt ++ m.op.encode ++
    optionalElement Field.controls m.controls

def encode (m : Message) : Octets := element Ber.Tag.sequence m.content

end Message

end Directory
