import Directory.Hexadecimal
import Directory.Octets

/-!
# What can be wrong with octets that should be a message

Every reason for refusing octets from the wire is a cause, named here once, and `WireError.message`
is the only place where a cause becomes words.
-/

namespace Directory

inductive WireError where
  | truncated
  | unexpectedTag (expected found : UInt8)
  | highTagNumber (tag : UInt8)
  | indefiniteLength
  | lengthTooLong (octets : Nat)
  /-- Integer content that is empty or wider than eight octets. -/
  | invalidInteger
  | integerOutOfRange (value : Int)
  | invalidUtf8
  /-- Content that its field does not allow, with the reason. -/
  | malformedPayload (reason : String)
  | trailingData (count : Nat)
  | notAnEnvelope (tag : UInt8)
  /-- The operation of an envelope is not of the application class. -/
  | unknownOperation (tag : UInt8)
  | frameTooLarge (size limit : Nat)
  deriving DecidableEq, Repr

namespace WireError

def hexOctet (b : UInt8) : String :=
  String.ofList ['0', 'x', Hexadecimal.digit (b.toNat / 16), Hexadecimal.digit (b.toNat % 16)]

def message : WireError → String
  | truncated => "truncated BER element"
  | unexpectedTag expected found =>
      "unexpected tag: expected " ++ hexOctet expected ++ ", found " ++ hexOctet found
  | highTagNumber tag => "high tag number form is not supported: " ++ hexOctet tag
  | indefiniteLength => "indefinite length form is not supported"
  | lengthTooLong octets =>
      "length field uses " ++ toString octets ++ " octets; at most 4 are supported"
  | invalidInteger => "invalid INTEGER encoding"
  | integerOutOfRange value => "integer value " ++ toString value ++ " is out of range"
  | invalidUtf8 => "invalid UTF-8 in string field"
  | malformedPayload reason => "malformed payload: " ++ reason
  | trailingData count => toString count ++ " unexpected trailing bytes"
  | notAnEnvelope tag => "not an LDAP envelope: outer tag " ++ hexOctet tag
  | unknownOperation tag => "unknown protocol operation tag " ++ hexOctet tag
  | frameTooLarge size limit =>
      "message of " ++ toString size ++ " bytes exceeds the " ++ toString limit ++ " byte limit"

end WireError

end Directory
