import Directory.Security.Base64

/-!
# Sections of armoured text

Key material is kept as text: a line `-----BEGIN label-----`, base64, and a line
`-----END label-----`. Text outside sections is ignored, and so is every section whose label is none
of the known ones, its base64 included. A section that never ends, an opening line without its five
closing dashes and bad base64 in a known section are refused.

`Pem.items` lists what a reader meets in order, up to and including the first refusal: whoever finds
what it wants early never sees a later fault.
-/

namespace Directory.Pem

inductive Kind where
  | certificate
  | privateKey
  /-- Known, and neither a certificate nor a private key. -/
  | unrelated
  deriving DecidableEq, Repr

inductive Refusal where
  /-- An opening line that does not close with five dashes. -/
  | badOpening
  /-- The text ends inside a section. -/
  | unfinished
  | badBase64
  deriving DecidableEq, Repr

def ascii (s : String) : Octets := Octets.ofText s

/-- The labels of known sections. Private keys come in three formats. -/
def knownLabels : List (Octets × Kind) := [
  (ascii "CERTIFICATE", .certificate),
  (ascii "PRIVATE KEY", .privateKey),
  (ascii "RSA PRIVATE KEY", .privateKey),
  (ascii "EC PRIVATE KEY", .privateKey),
  (ascii "PUBLIC KEY", .unrelated),
  (ascii "X509 CRL", .unrelated),
  (ascii "CERTIFICATE REQUEST", .unrelated),
  (ascii "ECHCONFIG", .unrelated)]

/-- The lines of a text, each with the line feed or carriage return that ends it. -/
def lines (text : Octets) : List Octets :=
  let (line, rest) := text.foldr
    (fun b (line, rest) => if b = 10 ∨ b = 13 then ([b], line :: rest) else (b :: line, rest))
    (([] : Octets), ([] : List Octets))
  if line.isEmpty then rest else line :: rest

def behind? (beginning text : Octets) : Option Octets :=
  if beginning.isPrefixOf text then some (text.drop beginning.length) else none

structure Section where
  label : Octets
  /-- What the line begins with that closes the section. -/
  closing : Octets

def Section.ofLabel (label : Octets) : Section :=
  ⟨label, ascii "-----END " ++ label ++ ascii "-----"⟩

structure State where
  inside : Option Section := none
  /-- The lines collected since the last section was closed, latest first. -/
  body : List Octets := []

/-- The label of an opening line, given what follows `-----BEGIN `. The line ends in a run of dashes
and blanks with exactly five dashes in it; the label is what stands before the first of them. -/
def openingLabel? (rest : Octets) : Option Octets :=
  let run := rest.reverse.takeWhile fun b => b == 45 || b == 10 || b == 13 || b == 32
  if run.count 45 = 5 then
    some (rest.take (rest.length - (run.reverse.dropWhile (· != 45)).length))
  else none

def opening : Octets := ascii "-----BEGIN "

def scan (s : State) : List Octets → List (Except Refusal (Kind × Octets))
  | [] => if s.inside.isSome then [.error .unfinished] else []
  | line :: rest =>
      match behind? opening line with
      | some tail =>
          match openingLabel? tail with
          | some label => scan { s with inside := some (.ofLabel label) } rest
          | none => [.error .badOpening]
      | none =>
          match s.inside with
          | none => scan s rest
          | some inside =>
              if inside.closing.isPrefixOf line then
                match knownLabels.lookup inside.label with
                | none => scan {} rest
                | some kind =>
                    match Base64.decode? s.body.reverse.flatten with
                    | some content => .ok (kind, content) :: scan {} rest
                    | none => [.error .badBase64]
              else scan { s with body := line :: s.body } rest

/-- What a reader of armoured text meets, up to and including the first refusal. -/
def items (text : Octets) : List (Except Refusal (Kind × Octets)) := scan {} (lines text)

def certificates (text : Octets) : Except Refusal (List Octets) := do
  let all ← (items text).mapM id
  pure ((all.filter fun s => s.1 == .certificate).map Prod.snd)

/-- The first private key of a text; what follows it is not looked at. -/
def privateKey (text : Octets) : Except Refusal (Option Octets) :=
  search (items text)
where
  search : List (Except Refusal (Kind × Octets)) → Except Refusal (Option Octets)
    | [] => .ok none
    | .error e :: _ => .error e
    | .ok (.privateKey, content) :: _ => .ok (some content)
    | .ok _ :: rest => search rest

end Directory.Pem
