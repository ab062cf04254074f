import Directory.WireError
import Directory.Word

/-!
# Integer content

The content of an INTEGER or ENUMERATED element is a two's-complement number of one to eight
octets, first octet most significant. Reading accepts redundant sign octets; writing uses the
fewest octets.

Both go through a word. A reader fills it with the sign and pushes the content behind that; a writer
takes all eight octets of it and drops those in front that only repeat the sign.
-/

namespace Directory.Ber.Integer

def maxOctets : Nat := 8

def isNegative (b : UInt8) : Bool := b &&& 0x80 != 0

def signWord (content : Octets) : Word :=
  match content with
  | [] => 0
  | first :: _ => Word.ofSigned (if isNegative first then -1 else 0)

def ofContent (content : Octets) : Except WireError Int :=
  if content.isEmpty || decide (maxOctets < content.length) then .error .invalidInteger
  else .ok (Word.pushAll (signWord content) content).signed

/-- The octet repeats the sign of the next one and says nothing else. -/
def isRedundant (b next : UInt8) : Bool :=
  (b == 0x00 && !isNegative next) || (b == 0xFF && isNegative next)

/-- Drops the octets in front that only repeat the sign of the next one. The last octet stays. -/
def trim : Octets → Octets
  | b :: next :: rest =>
      if isRedundant b next then trim (next :: rest) else b :: next :: rest
  | bytes => bytes

/-- The shortest content that spells a number from `-2⁶³` to `2⁶³ - 1`. -/
def content (v : Int) : Octets := trim (Word.octets 8 (Word.ofSigned v))

end Directory.Ber.Integer
