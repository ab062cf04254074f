import Directory.Proofs.Ber.Shortest
import Directory.Proofs.Message.Grammar

/-!
# Dialects of the grammar

The grammar of messages once more, with two things left open: which octets may stand for a length and
which for an integer. A `Dialect` settles them. The lax dialect takes all that the decoder takes, and
the strict one takes a length or an integer in its fewest octets only.

The rules here also keep what the decoder drops. Every envelope comes with its `hidden` octets, those
that are taken with the message and leave no trace in it: the content of an unbind request, a referral
behind an outcome, and what stands behind the credentials of a security mechanism. In the lax dialect
the envelopes of a message are the octets that are decoded as it (`decode_eq_ok_iff_lax`).
-/

namespace Directory.Grammar

open Ber

/-- The octets stand for something, and no fewer octets do. -/
structure Fewest {α : Type} (p : Octets → α → Prop) (bytes : Octets) (a : α) : Prop where
  holds : p bytes a
  least : ∀ other, p other a → bytes.length ≤ other.length

/-- Which octets may stand for a length, and which for an integer. -/
structure Dialect where
  length : Octets → Nat → Prop
  integer : Octets → Int → Prop

def Dialect.lax : Dialect := ⟨LengthForm, IntegerContent⟩

/-- The dialect in which no length and no integer has an octet too many. -/
def Dialect.strict : Dialect := ⟨Fewest LengthForm, Fewest IntegerContent⟩

section Rules

variable (d : Dialect)

inductive ElementIn : UInt8 → Octets → Octets → Prop
  | intro {tag size content} (hlow : tag &&& 0x1F ≠ 0x1F) (hsize : d.length size content.length) :
      ElementIn tag content (tag :: (size ++ content))

def IntegerIn (tag : UInt8) (v : Int) (bytes : Octets) : Prop :=
  ∃ content, ElementIn d tag content bytes ∧ d.integer content v

inductive OptionalIn (tag : UInt8) : Option Octets → Octets → Prop
  | absent : OptionalIn tag none []
  | present {content bytes} (h : ElementIn d tag content bytes) :
      OptionalIn tag (some content) bytes

/-- A result code, a matched name and a diagnostic. A referral behind them is hidden. -/
inductive OutcomeIn (o : Outcome) : Octets → Octets → Prop
  | intro {code dn diagnostic referral dropped}
      (hcode : IntegerIn d 0x0A (o.code.value.toNat : Int) code)
      (hdn : ElementIn d 0x04 (Octets.ofText o.matchedDn) dn)
      (hdiagnostic : ElementIn d 0x04 (Octets.ofText o.diagnostic) diagnostic)
      (hreferral : OptionalIn d 0xA3 dropped referral) :
      OutcomeIn o referral (code ++ (dn ++ (diagnostic ++ referral)))

/-- A password, or a mechanism with its credentials. What stands behind these is hidden. -/
inductive AuthenticationIn : Authentication → Octets → Octets → Prop
  | simple {password bytes} (h : ElementIn d 0x80 password bytes) :
      AuthenticationIn (.simple password) [] bytes
  | sasl {mechanism credentials first second hidden bytes}
      (hfirst : ElementIn d 0x04 (Octets.ofText mechanism) first)
      (hsecond : OptionalIn d 0x04 credentials second)
      (hhidden : credentials = none → hidden.head? ≠ some 0x04)
      (h : ElementIn d 0xA3 (first ++ (second ++ hidden)) bytes) :
      AuthenticationIn (.sasl mechanism credentials) hidden bytes

/-- An operation from its identifier octet, with the hidden octets and the content of its element. -/
inductive OperationIn : Operation → UInt8 → Octets → Octets → Prop
  | bindRequest {r : BindRequest} {version name hidden authentication}
      (hrange : 1 ≤ r.version ∧ r.version ≤ 127)
      (hversion : IntegerIn d 0x02 (r.version.toNat : Int) version)
      (hname : ElementIn d 0x04 (Octets.ofText r.name) name)
      (hauthentication : AuthenticationIn d r.authentication hidden authentication) :
      OperationIn (.bindRequest r) 0x60 hidden (version ++ (name ++ authentication))
  | bindResponse {o c hidden outcome credentials} (ho : OutcomeIn d o hidden outcome)
      (hc : OptionalIn d 0x87 c credentials) :
      OperationIn (.bindResponse o c) 0x61 hidden (outcome ++ credentials)
  | unbindRequest (hidden : Octets) : OperationIn .unbindRequest 0x42 hidden hidden
  | abandonRequest {target : MessageId} {content} (hrange : 0 ≤ target)
      (htarget : d.integer content target.toInt) :
      OperationIn (.abandonRequest target) 0x50 [] content
  | extendedRequest {n v name value} (hn : ElementIn d 0x80 (Octets.ofText n) name)
      (hv : OptionalIn d 0x81 v value) :
      OperationIn (.extendedRequest n v) 0x77 [] (name ++ value)
  | extendedResponse {o n v hidden outcome name value} (ho : OutcomeIn d o hidden outcome)
      (hn : OptionalIn d 0x8A (n.map Octets.ofText) name) (hv : OptionalIn d 0x8B v value) :
      OperationIn (.extendedResponse o n v) 0x78 hidden (outcome ++ (name ++ value))
  | plainResponse {kind o tag hidden outcome} (htag : (kind, tag) ∈ plainTags)
      (ho : OutcomeIn d o hidden outcome) :
      OperationIn (.plainResponse kind o) tag hidden outcome
  | other {tag payload} (happlication : tag &&& 0xC0 = 0x40) (hfree : tag ∉ ruledTags) :
      OperationIn (.other tag payload) tag [] payload

/-- A whole message and its hidden octets: one sequence and nothing else. -/
inductive EnvelopeIn (m : Message) (hidden : Octets) : Octets → Prop
  | intro {id tag content operation controls bytes} (hrange : 0 ≤ m.id)
      (hid : IntegerIn d 0x02 m.id.toInt id) (hoperation : ElementIn d tag content operation)
      (hop : OperationIn d m.op tag hidden content)
      (hcontrols : OptionalIn d 0xA0 m.controls controls)
      (h : ElementIn d 0x30 (id ++ (operation ++ controls)) bytes) : EnvelopeIn m hidden bytes

end Rules

variable {d : Dialect} {bytes content hidden : Octets} {tag : UInt8} {v : Int}

theorem ElementIn.low (h : ElementIn d tag content bytes) : tag &&& 0x1F ≠ 0x1F := by
  obtain ⟨hlow, -⟩ := h
  exact hlow

/-! ## The lax dialect is the grammar -/

theorem elementIn_lax_iff : ElementIn .lax tag content bytes ↔ ElementForm tag content bytes := by
  constructor
  · rintro ⟨hlow, hsize⟩
    exact .intro hlow hsize
  · rintro ⟨hlow, hsize⟩
    exact .intro hlow hsize

theorem elementForm_of_strict (h : ElementIn .strict tag content bytes) :
    ElementForm tag content bytes := by
  obtain ⟨hlow, hsize⟩ := h
  exact .intro hlow hsize.holds

theorem integerIn_lax_iff : IntegerIn .lax tag v bytes ↔ IntegerForm tag v bytes :=
  exists_congr fun _ => and_congr_left fun _ => elementIn_lax_iff

theorem optionalIn_lax_iff {c : Option Octets} :
    OptionalIn .lax tag c bytes ↔ OptionalForm tag c bytes := by
  constructor
  · intro h
    cases h with
    | absent => exact .absent
    | present h => exact .present (elementIn_lax_iff.mp h)
  · intro h
    cases h with
    | absent => exact .absent
    | present h => exact .present (elementIn_lax_iff.mpr h)

theorem outcomeIn_lax_iff {o : Outcome} :
    (∃ hidden, OutcomeIn .lax o hidden bytes) ↔ OutcomeForm o bytes := by
  constructor
  · rintro ⟨hidden, hcode, hdn, hdiagnostic, hreferral⟩
    exact .intro (integerIn_lax_iff.mp hcode) (elementIn_lax_iff.mp hdn)
      (elementIn_lax_iff.mp hdiagnostic) (optionalIn_lax_iff.mp hreferral)
  · rintro ⟨hcode, hdn, hdiagnostic, hreferral⟩
    exact ⟨_, .intro (integerIn_lax_iff.mpr hcode) (elementIn_lax_iff.mpr hdn)
      (elementIn_lax_iff.mpr hdiagnostic) (optionalIn_lax_iff.mpr hreferral)⟩

theorem authenticationIn_lax_iff {a : Authentication} :
    (∃ hidden, AuthenticationIn .lax a hidden bytes) ↔ AuthenticationForm a bytes := by
  constructor
  · rintro ⟨hidden, h⟩
    cases h with
    | simple h => exact .simple (elementIn_lax_iff.mp h)
    | sasl hfirst hsecond hhidden h =>
        exact .sasl (elementIn_lax_iff.mp hfirst) (optionalIn_lax_iff.mp hsecond) hhidden
          (elementIn_lax_iff.mp h)
  · intro h
    cases h with
    | simple h => exact ⟨[], .simple (elementIn_lax_iff.mpr h)⟩
    | sasl hfirst hsecond hhidden h =>
        exact ⟨_, .sasl (elementIn_lax_iff.mpr hfirst) (optionalIn_lax_iff.mpr hsecond) hhidden
          (elementIn_lax_iff.mpr h)⟩

theorem operationIn_lax_iff {op : Operation} :
    (∃ hidden, OperationIn .lax op tag hidden content) ↔ OperationForm op tag content := by
  constructor
  · rintro ⟨hidden, h⟩
    cases h with
    | bindRequest hrange hversion hname hauthentication =>
        exact .bindRequest hrange (integerIn_lax_iff.mp hversion) (elementIn_lax_iff.mp hname)
          (authenticationIn_lax_iff.mp ⟨_, hauthentication⟩)
    | bindResponse ho hc =>
        exact .bindResponse (outcomeIn_lax_iff.mp ⟨_, ho⟩) (optionalIn_lax_iff.mp hc)
    | unbindRequest => exact .unbindRequest _
    | abandonRequest hrange htarget => exact .abandonRequest hrange htarget
    | extendedRequest hn hv =>
        exact .extendedRequest (elementIn_lax_iff.mp hn) (optionalIn_lax_iff.mp hv)
    | extendedResponse ho hn hv =>
        exact .extendedResponse (outcomeIn_lax_iff.mp ⟨_, ho⟩)
          (optionalTextForm_iff.mpr (optionalIn_lax_iff.mp hn)) (optionalIn_lax_iff.mp hv)
    | plainResponse htag ho => exact .plainResponse htag (outcomeIn_lax_iff.mp ⟨_, ho⟩)
    | other happlication hfree => exact .other happlication hfree
  · intro h
    cases h with
    | bindRequest hrange hversion hname hauthentication =>
        obtain ⟨hidden, hauthentication⟩ := authenticationIn_lax_iff.mpr hauthentication
        exact ⟨hidden, .bindRequest hrange (integerIn_lax_iff.mpr hversion)
          (elementIn_lax_iff.mpr hname) hauthentication⟩
    | bindResponse ho hc =>
        obtain ⟨hidden, ho⟩ := outcomeIn_lax_iff.mpr ho
        exact ⟨hidden, .bindResponse ho (optionalIn_lax_iff.mpr hc)⟩
    | unbindRequest => exact ⟨_, .unbindRequest _⟩
    | abandonRequest hrange htarget => exact ⟨[], .abandonRequest hrange htarget⟩
    | extendedRequest hn hv =>
        exact ⟨[], .extendedRequest (elementIn_lax_iff.mpr hn) (optionalIn_lax_iff.mpr hv)⟩
    | extendedResponse ho hn hv =>
        obtain ⟨hidden, ho⟩ := outcomeIn_lax_iff.mpr ho
        exact ⟨hidden, .extendedResponse ho
          (optionalIn_lax_iff.mpr (optionalTextForm_iff.mp hn)) (optionalIn_lax_iff.mpr hv)⟩
    | plainResponse htag ho =>
        obtain ⟨hidden, ho⟩ := outcomeIn_lax_iff.mpr ho
        exact ⟨hidden, .plainResponse htag ho⟩
    | other happlication hfree => exact ⟨[], .other happlication hfree⟩

theorem envelopeIn_lax_iff {m : Message} :
    (∃ hidden, EnvelopeIn .lax m hidden bytes) ↔ EnvelopeForm m bytes := by
  constructor
  · rintro ⟨hidden, hrange, hid, hoperation, hop, hcontrols, h⟩
    exact .intro hrange (integerIn_lax_iff.mp hid) (elementIn_lax_iff.mp hoperation)
      (operationIn_lax_iff.mp ⟨hidden, hop⟩) (optionalIn_lax_iff.mp hcontrols)
      (elementIn_lax_iff.mp h)
  · rintro ⟨hrange, hid, hoperation, hop, hcontrols, h⟩
    obtain ⟨hidden, hop⟩ := operationIn_lax_iff.mpr hop
    exact ⟨hidden, .intro hrange (integerIn_lax_iff.mpr hid) (elementIn_lax_iff.mpr hoperation) hop
      (optionalIn_lax_iff.mpr hcontrols) (elementIn_lax_iff.mpr h)⟩

/-- **What is decoded is an envelope of the lax dialect**, with whatever is hidden in it. -/
theorem decode_eq_ok_iff_lax {m : Message} :
    Message.decode bytes = .ok m ↔ ∃ hidden, EnvelopeIn .lax m hidden bytes := by
  rw [envelopeIn_lax_iff]
  exact ⟨envelopeForm_of_decode, decode_of_envelopeForm⟩

/-! ## The strict dialect -/

/-- Of a length that is spelled in its fewest octets the written one is the only form. -/
theorem fewest_lengthForm_iff {size : Octets} {n : Nat} :
    Fewest LengthForm size n ↔ n < 2 ^ 32 ∧ size = Header.lengthOctets n := by
  have hwritten : n < 2 ^ 32 → LengthForm (Header.lengthOctets n) n := by
    intro hn
    have hread := lengthForm_of_readLength (Header.readLength_lengthOctets hn [])
    rwa [List.append_nil, List.take_length] at hread
  constructor
  · rintro ⟨hform, hleast⟩
    obtain ⟨-, -, hn⟩ := Header.readLength_bounds (readLength_of_lengthForm hform [])
    have hshortens := shortens_lengthOctets hform
    have hle := hleast _ (hwritten hn)
    exact ⟨hn, (hshortens.eq_of_length_eq (Nat.le_antisymm hshortens.length_le hle)).symm⟩
  · rintro ⟨hn, rfl⟩
    exact ⟨hwritten hn, fun other hother => (shortens_lengthOctets hother).length_le⟩

theorem fewest_integerContent_iff :
    Fewest IntegerContent content v ↔
      (∃ other, IntegerContent other v) ∧ content = Integer.content v := by
  have hwritten : ∀ other, IntegerContent other v → IntegerContent (Integer.content v) v := by
    intro other hother
    exact integerContent_iff.mpr (Reader.ofContent_content (bounds_of_integerContent hother))
  constructor
  · rintro ⟨hcontent, hleast⟩
    have hshortens := shortens_content hcontent
    have hle := hleast _ (hwritten content hcontent)
    exact ⟨⟨content, hcontent⟩,
      (hshortens.eq_of_length_eq (Nat.le_antisymm hshortens.length_le hle)).symm⟩
  · rintro ⟨⟨other, hother⟩, rfl⟩
    exact ⟨hwritten other hother, fun other hother => (shortens_content hother).length_le⟩

end Directory.Grammar
