import Directory.Ber.Header
import Directory.Ber.Integer

/-!
# Reading elements off the front

A `Reader` takes elements off the front of a run of octets, and the octets that it has not taken
are its state, also when it fails. An element whose header is refused or whose content is
incomplete is left where it stands; an element with the wrong tag or with unusable content has been
taken. Nested elements are read by starting again on the content.
-/

namespace Directory.Ber

/-- A reader of elements: the state holds the octets not yet taken and survives a failure. -/
abbrev Reader (α : Type) := ExceptT WireError (StateM Octets) α

namespace Reader

def on {α : Type} (r : Reader α) (bytes : Octets) : Except WireError α × Octets := r.run.run bytes

def answer {α : Type} (r : Reader α) (bytes : Octets) : Except WireError α := (r.on bytes).1

def lift {α : Type} (e : Except WireError α) : Reader α := fun bytes => (e, bytes)

/-- The element at the front of a run of octets, as tag, content and what follows it. -/
def split (bytes : Octets) : Except WireError (UInt8 × Octets × Octets) :=
  match Header.read bytes with
  | .error e => .error e
  | .ok none => .error .truncated
  | .ok (some h) =>
      let body := bytes.drop h.size
      let content := body.take h.contentSize
      if content.length < h.contentSize then .error .truncated
      else .ok (h.tag, content, body.drop h.contentSize)

def element : Reader (UInt8 × Octets) := fun bytes =>
  match split bytes with
  | .error e => (.error e, bytes)
  | .ok (tag, content, rest) => (.ok (tag, content), rest)

def expect (tag : UInt8) : Reader Octets := do
  let (found, content) ← element
  if found = tag then pure content else throw (.unexpectedTag tag found)

def peek : Reader (Option UInt8) := do
  let bytes ← get
  pure bytes.head?

/-- Takes the next element only if it carries `tag`. -/
def optional (tag : UInt8) : Reader (Option Octets) := do
  if (← peek) = some tag then
    let content ← expect tag
    pure (some content)
  else
    pure none

def integer (tag : UInt8) : Reader Int := do
  let content ← expect tag
  lift (Integer.ofContent content)

/-- The truth value that content spells: one octet, of which any but zero means true. -/
def truth (content : Octets) : Except WireError Bool :=
  match content with
  | [b] => .ok (b != 0)
  | other => .error (.malformedPayload
      ("BOOLEAN must be one octet, got " ++ toString other.length))

def boolean (tag : UInt8) : Reader Bool := do
  let content ← expect tag
  lift (truth content)

def spelling (content : Octets) : Except WireError String :=
  match content.text? with
  | some s => .ok s
  | none => .error .invalidUtf8

def text (tag : UInt8) : Reader String := do
  let content ← expect tag
  lift (spelling content)

def remaining : Reader Nat := do
  let bytes ← get
  pure bytes.length

def finished : Reader Unit := do
  let left ← remaining
  if left = 0 then pure () else throw (.trailingData left)

end Reader

end Directory.Ber
