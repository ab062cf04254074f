import Directory.Ber.Header
import Directory.Ber.Integer

/-!
# Writing elements

Each function gives the octets of one whole element, in the shortest form: fewest length octets,
fewest integer octets. Constructed elements are written by writing their parts first.
-/

namespace Directory.Ber

def element (tag : UInt8) (content : Octets) : Octets :=
  tag :: (Header.lengthOctets content.length ++ content)

def integerElement (tag : UInt8) (v : Int) : Octets := element tag (Integer.content v)

/-- An element that holds a truth value; true is written with all bits set. -/
def booleanElement (tag : UInt8) (b : Bool) : Octets := element tag [if b then 0xFF else 0x00]

def textElement (tag : UInt8) (s : String) : Octets := element tag (Octets.ofText s)

/-- An element that is written only if there is content for it. -/
def optionalElement (tag : UInt8) (content : Option Octets) : Octets :=
  match content with
  | some c => element tag c
  | none => []

inductive Piece where
  /-- Length octets alone. -/
  | length (n : Nat)
  | element (tag : UInt8) (content : Octets)
  | integer (tag : UInt8) (value : Int)
  | boolean (tag : UInt8) (value : Bool)
  | constructed (tag : UInt8) (parts : List Piece)

mutual

def Piece.encode : Piece → Octets
  | .length n => Header.lengthOctets n
  | .element tag content => Ber.element tag content
  | .integer tag value => integerElement tag value
  | .boolean tag value => booleanElement tag value
  | .constructed tag parts => Ber.element tag (Piece.encodeAll parts)

def Piece.encodeAll : List Piece → Octets
  | [] => []
  | piece :: rest => piece.encode ++ Piece.encodeAll rest

end

end Directory.Ber
