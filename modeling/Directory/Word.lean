import Directory.Octets

/-!
# Words

Numbers are put together from octets, and taken apart into octets, in words of 64 bits. Pushing an
octet onto a word moves what is there up by eight bits, so that a run of octets can be longer than
the word and then only its last eight octets are left.
-/

namespace Directory

abbrev Word := UInt64

namespace Word

def push (w : Word) (b : UInt8) : Word := w <<< 8 ||| b.toUInt64

def pushAll (w : Word) (bytes : Octets) : Word := bytes.foldl push w

/-- The lowest `k` octets of a word, the lowest one last. -/
def octets : Nat → Word → Octets
  | 0, _ => []
  | k + 1, w => octets k (w >>> 8) ++ [w.toUInt8]

/-- The word of a number from `-2⁶³` to `2⁶³ - 1`. -/
def ofSigned (v : Int) : Word := (Int64.ofInt v).toUInt64

def signed (w : Word) : Int := w.toInt64.toInt

end Word

end Directory
