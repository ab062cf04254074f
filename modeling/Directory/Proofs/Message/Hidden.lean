import Directory.Proofs.Message.Boundary
import Directory.Proofs.Message.Dialect
import Directory.Proofs.Message.Shortest

/-!
# Octets that leave no trace

How far do octets and messages determine each other? Padding apart, a message is written in one way
only, except that some octets are taken with it and dropped. `Message.encodeWith` writes a message with
hidden octets in the place where its operation has one, and in the strict dialect nothing else is an
envelope of the message (`envelopeIn_strict_iff`). So octets without padding are determined by the
message and by what is hidden in it (`hidden_octets`).

That a referral and the content of an unbind request are dropped is meant. The third place is not: the
envelope and the operation refuse what is left over behind their last part, but what stands behind the
credentials of a security mechanism is never looked at (`hidden_behind_credentials`).
-/

namespace Directory

open Ber Grammar

/-! ## Messages with hidden octets -/

def Authentication.encodeWith (hidden : Octets) : Authentication → Octets
  | .simple password => element Field.simplePassword password
  | .sasl mechanism credentials =>
      element Field.sasl
        (textElement Tag.octetString mechanism ++
          (optionalElement Tag.octetString credentials ++ hidden))

/-- The octets can stand behind the parts of an authentication and leave no trace. -/
def Authentication.Hides (hidden : Octets) : Authentication → Prop
  | .simple _ => hidden = []
  | .sasl _ credentials => credentials = none → hidden.head? ≠ some Tag.octetString

namespace Operation

def contentWith (hidden : Octets) : Operation → Octets
  | bindRequest r =>
      integerElement Ber.Tag.integer (r.version.toNat : Int) ++
        (textElement Ber.Tag.octetString r.name ++ r.authentication.encodeWith hidden)
  | bindResponse outcome credentials =>
      outcome.encode ++ hidden ++ optionalElement Field.serverCredentials credentials
  | unbindRequest => hidden
  | extendedResponse outcome name value =>
      outcome.encode ++ hidden ++
        (optionalElement Field.responseName (name.map Octets.ofText) ++
          optionalElement Field.responseValue value)
  | plainResponse _ outcome => outcome.encode ++ hidden
  | op => op.content

def HoldsOutcome : Operation → Prop
  | bindResponse _ _ | extendedResponse _ _ _ | plainResponse _ _ => True
  | _ => False

def NamesMechanism : Operation → Prop
  | bindRequest ⟨_, _, .sasl _ _⟩ => True
  | _ => False

/-- The octets can stand in an operation and leave no trace in it: anything in an unbind request, a
referral behind an outcome, and behind the credentials of a security mechanism what is not taken for
them. -/
def Hides (hidden : Octets) : Operation → Prop
  | bindRequest r => r.authentication.Hides hidden
  | unbindRequest => True
  | bindResponse _ _ | extendedResponse _ _ _ | plainResponse _ _ =>
      ∃ dropped, hidden = optionalElement Field.referral dropped
  | _ => hidden = []

end Operation

namespace Message

def contentWith (hidden : Octets) (m : Message) : Octets :=
  integerElement Ber.Tag.integer m.id.toInt ++
    (element m.op.tag (m.op.contentWith hidden) ++ optionalElement Field.controls m.controls)

/-- The octets of a message, with octets hidden in its operation. -/
def encodeWith (hidden : Octets) (m : Message) : Octets :=
  element Ber.Tag.sequence (m.contentWith hidden)

structure FitsWith (m : Message) (hidden : Octets) : Prop where
  id_nonneg : 0 ≤ m.id
  op : m.op.WellFormed
  hides : m.op.Hides hidden
  short : Short (m.contentWith hidden)

end Message

variable {bytes bytes' content hidden hidden' more : Octets} {tag : UInt8} {v : Int} {m : Message}

theorem Operation.contentWith_nil (op : Operation) : op.contentWith [] = op.content := by
  cases op with
  | bindRequest r =>
      obtain ⟨version, name, authentication⟩ := r
      cases authentication <;>
        simp [contentWith, content, Authentication.encodeWith, Authentication.encode]
  | _ => simp [contentWith, content]

theorem Message.encodeWith_nil (m : Message) : m.encodeWith [] = m.encode := by
  rw [encodeWith, contentWith, Operation.contentWith_nil, encode, content, Operation.encode,
    List.append_assoc]

theorem element_inj {a b : Octets} : element tag a = element tag b ↔ a = b := by
  constructor
  · intro h
    have hlength := congrArg List.length h
    rw [length_element, length_element] at hlength
    -- More content has no fewer length octets, so as many octets have as much content.
    have hsame : a.length = b.length := by
      rcases Nat.le_total a.length b.length with hle | hle
      · have hmono := length_lengthOctets_mono hle
        omega
      · have hmono := length_lengthOctets_mono hle
        omega
    rw [element, element, hsame] at h
    exact List.append_cancel_left (List.cons.inj h).2
  · rintro rfl
    rfl

/-- What is hidden can be told from the octets of the operation. -/
theorem Operation.contentWith_inj {op : Operation} (h : op.Hides hidden) (h' : op.Hides hidden') :
    op.contentWith hidden = op.contentWith hidden' ↔ hidden = hidden' := by
  cases op with
  | bindRequest r =>
      obtain ⟨version, name, authentication⟩ := r
      cases authentication with
      | simple password =>
          obtain rfl : hidden = [] := h
          obtain rfl : hidden' = [] := h'
          exact iff_of_true rfl rfl
      | sasl mechanism credentials =>
          simp only [contentWith, Authentication.encodeWith, List.append_cancel_left_eq, element_inj]
  | bindResponse outcome credentials =>
      simp only [contentWith, List.append_cancel_left_eq, List.append_cancel_right_eq]
  | unbindRequest => rfl
  | extendedResponse outcome name value =>
      simp only [contentWith, List.append_cancel_left_eq, List.append_cancel_right_eq]
  | plainResponse kind outcome => simp only [contentWith, List.append_cancel_left_eq]
  | _ => exact iff_of_true rfl (h.trans h'.symm)

theorem Message.encodeWith_inj (h : m.op.Hides hidden) (h' : m.op.Hides hidden') :
    m.encodeWith hidden = m.encodeWith hidden' ↔ hidden = hidden' := by
  rw [← Operation.contentWith_inj h h']
  simp only [encodeWith, contentWith, element_inj, List.append_cancel_left_eq,
    List.append_cancel_right_eq]

/-! ## The envelopes of the strict dialect -/

theorem eq_of_elementIn_strict (h : ElementIn .strict tag content bytes) :
    bytes = element tag content := by
  obtain ⟨-, hsize⟩ := h
  obtain ⟨-, rfl⟩ := fewest_lengthForm_iff.mp hsize
  rfl

theorem elementIn_strict (hlow : tag &&& 0x1F ≠ 0x1F) (hshort : Short content) :
    ElementIn .strict tag content (element tag content) :=
  .intro hlow (fewest_lengthForm_iff.mpr ⟨hshort, rfl⟩)

theorem integerContent_content (hv : -(2 ^ 63) ≤ v ∧ v < 2 ^ 63) :
    Fewest IntegerContent (Integer.content v) v :=
  fewest_integerContent_iff.mpr
    ⟨⟨_, integerContent_iff.mpr (Reader.ofContent_content hv)⟩, rfl⟩

theorem eq_of_integerIn_strict (h : IntegerIn .strict tag v bytes) :
    bytes = integerElement tag v := by
  obtain ⟨content, helement, hcontent⟩ := h
  obtain ⟨-, rfl⟩ := fewest_integerContent_iff.mp hcontent
  exact eq_of_elementIn_strict helement

theorem integerIn_strict (hlow : tag &&& 0x1F ≠ 0x1F) (hv : -(2 ^ 63) ≤ v ∧ v < 2 ^ 63) :
    IntegerIn .strict tag v (integerElement tag v) :=
  ⟨_, elementIn_strict hlow (Reader.short_content hv), integerContent_content hv⟩

theorem eq_of_optionalIn_strict {c : Option Octets} (h : OptionalIn .strict tag c bytes) :
    bytes = optionalElement tag c := by
  cases h with
  | absent => rfl
  | present h => exact eq_of_elementIn_strict h

theorem optionalIn_strict (hlow : tag &&& 0x1F ≠ 0x1F) {c : Option Octets}
    (hshort : Short (optionalElement tag c)) :
    OptionalIn .strict tag c (optionalElement tag c) := by
  cases c with
  | none => exact .absent
  | some content => exact .present (elementIn_strict hlow hshort.content)

theorem eq_of_outcomeIn_strict {o : Outcome} (h : OutcomeIn .strict o hidden bytes) :
    (∃ dropped, hidden = optionalElement Field.referral dropped) ∧ bytes = o.encode ++ hidden := by
  obtain ⟨hcode, hdn, hdiagnostic, hreferral⟩ := h
  refine ⟨⟨_, eq_of_optionalIn_strict hreferral⟩, ?_⟩
  rw [Outcome.encode, List.append_assoc, List.append_assoc, eq_of_integerIn_strict hcode,
    eq_of_elementIn_strict hdn, eq_of_elementIn_strict hdiagnostic]
  rfl

theorem outcomeIn_strict {o : Outcome} (hshort : Short (o.encode ++ hidden))
    (hhides : ∃ dropped, hidden = optionalElement Field.referral dropped) :
    OutcomeIn .strict o hidden (o.encode ++ hidden) := by
  obtain ⟨dropped, rfl⟩ := hhides
  rw [Outcome.encode, List.append_assoc, List.append_assoc] at hshort ⊢
  exact .intro (integerIn_strict (by decide) o.code.value_bounds)
    (elementIn_strict (by decide) hshort.right.left.content)
    (elementIn_strict (by decide) hshort.right.right.left.content)
    (optionalIn_strict (by decide) hshort.right.right.right)

theorem eq_of_authenticationIn_strict {a : Authentication}
    (h : AuthenticationIn .strict a hidden bytes) :
    a.Hides hidden ∧ bytes = a.encodeWith hidden := by
  cases h with
  | simple h => exact ⟨rfl, eq_of_elementIn_strict h⟩
  | sasl hfirst hsecond hhidden h =>
      refine ⟨hhidden, ?_⟩
      rw [eq_of_elementIn_strict h, eq_of_elementIn_strict hfirst, eq_of_optionalIn_strict hsecond]
      rfl

theorem authenticationIn_strict {a : Authentication} (hshort : Short (a.encodeWith hidden))
    (hhides : a.Hides hidden) : AuthenticationIn .strict a hidden (a.encodeWith hidden) := by
  cases a with
  | simple password =>
      obtain rfl : hidden = [] := hhides
      exact .simple (elementIn_strict (by decide) hshort.content)
  | sasl mechanism credentials =>
      have hparts := hshort.content
      exact .sasl (elementIn_strict (by decide) hparts.left.content)
        (optionalIn_strict (by decide) hparts.right.left) hhides
        (elementIn_strict (by decide) hparts)

theorem eq_of_operationIn_strict {op : Operation} (hlow : tag &&& 0x1F ≠ 0x1F)
    (h : OperationIn .strict op tag hidden content) :
    op.WellFormed ∧ op.Hides hidden ∧ tag = op.tag ∧ content = op.contentWith hidden := by
  cases h with
  | bindRequest hrange hversion hname hauthentication =>
      obtain ⟨hhides, hparts⟩ := eq_of_authenticationIn_strict hauthentication
      refine ⟨hrange, hhides, rfl, ?_⟩
      rw [eq_of_integerIn_strict hversion, eq_of_elementIn_strict hname, hparts]
      rfl
  | bindResponse ho hc =>
      obtain ⟨hhides, houtcome⟩ := eq_of_outcomeIn_strict ho
      refine ⟨trivial, hhides, rfl, ?_⟩
      rw [houtcome, eq_of_optionalIn_strict hc]
      rfl
  | unbindRequest => exact ⟨trivial, trivial, rfl, rfl⟩
  | abandonRequest hrange htarget =>
      exact ⟨hrange, rfl, rfl, (fewest_integerContent_iff.mp htarget).2⟩
  | extendedRequest hn hv =>
      refine ⟨trivial, rfl, rfl, ?_⟩
      rw [eq_of_elementIn_strict hn, eq_of_optionalIn_strict hv]
      rfl
  | extendedResponse ho hn hv =>
      obtain ⟨hhides, houtcome⟩ := eq_of_outcomeIn_strict ho
      refine ⟨trivial, hhides, rfl, ?_⟩
      rw [houtcome, eq_of_optionalIn_strict hn, eq_of_optionalIn_strict hv]
      rfl
  | plainResponse htag ho =>
      obtain ⟨hhides, houtcome⟩ := eq_of_outcomeIn_strict ho
      exact ⟨trivial, hhides, mem_plainTags_iff.mp htag, houtcome⟩
  | other happlication hfree =>
      rw [ruledTags_eq] at hfree
      exact ⟨⟨happlication, hlow, hfree⟩, rfl, rfl, rfl⟩

theorem operationIn_strict {op : Operation} (hop : op.WellFormed)
    (hshort : Short (op.contentWith hidden)) (hhides : op.Hides hidden) :
    OperationIn .strict op op.tag hidden (op.contentWith hidden) := by
  cases op with
  | bindRequest r =>
      exact .bindRequest hop (integerIn_strict (by decide) r.version_bounds)
        (elementIn_strict (by decide) hshort.right.left.content)
        (authenticationIn_strict hshort.right.right hhides)
  | bindResponse outcome credentials =>
      exact .bindResponse (outcomeIn_strict hshort.left hhides)
        (optionalIn_strict (by decide) hshort.right)
  | unbindRequest => exact .unbindRequest hidden
  | abandonRequest target =>
      obtain rfl : hidden = [] := hhides
      exact .abandonRequest hop (integerContent_content (MessageId.toInt_bounds target))
  | extendedRequest name value =>
      obtain rfl : hidden = [] := hhides
      exact .extendedRequest (elementIn_strict (by decide) (Short.left hshort).content)
        (optionalIn_strict (by decide) (Short.right hshort))
  | extendedResponse outcome name value =>
      exact .extendedResponse (outcomeIn_strict hshort.left hhides)
        (optionalIn_strict (by decide) hshort.right.left)
        (optionalIn_strict (by decide) hshort.right.right)
  | plainResponse kind outcome =>
      exact .plainResponse (mem_plainTags_iff.mpr rfl) (outcomeIn_strict hshort hhides)
  | other tag payload =>
      obtain rfl : hidden = [] := hhides
      have hfree := hop.2.2
      rw [← ruledTags_eq] at hfree
      exact .other hop.1 hfree

/-- **Without padding nothing is an envelope of a message but the message as it is written**, with the
hidden octets in their place. -/
theorem envelopeIn_strict_iff :
    EnvelopeIn .strict m hidden bytes ↔ m.FitsWith hidden ∧ bytes = m.encodeWith hidden := by
  constructor
  · rintro ⟨hrange, hid, hoperation, hop, hcontrols, h⟩
    have hshort := short_of_elementForm (elementForm_of_strict h)
    obtain ⟨hwell, hhides, rfl, rfl⟩ := eq_of_operationIn_strict hoperation.low hop
    rw [eq_of_integerIn_strict hid, eq_of_elementIn_strict hoperation,
      eq_of_optionalIn_strict hcontrols] at hshort h
    exact ⟨⟨hrange, hwell, hhides, hshort⟩, eq_of_elementIn_strict h⟩
  · rintro ⟨⟨hrange, hwell, hhides, hshort⟩, rfl⟩
    have hparts := hshort
    rw [Message.contentWith] at hparts
    have hlow : m.op.tag &&& 0x1F ≠ 0x1F := isHighTag_iff.mp (Operation.isHighTag_tag hwell)
    exact .intro hrange (integerIn_strict (by decide) (MessageId.toInt_bounds m.id))
      (elementIn_strict hlow hparts.right.left.content)
      (operationIn_strict hwell hparts.right.left.content hhides)
      (optionalIn_strict (by decide) hparts.right.right) (elementIn_strict (by decide) hshort)

/-! ## What is left over -/

theorem Operation.whole_of_left {α : Type} {r : Reader α} {a : α}
    (h : r.on bytes = (.ok a, more)) (hmore : more ≠ []) :
    whole r bytes = .error (.trailingData more.length) := by
  rw [whole, Reader.answer_bind_of_on h]
  exact Reader.answer_finished_bind hmore

/-- Behind the last part of an operation nothing is accepted but one more part of it. -/
theorem Operation.decode_append {op : Operation} (h : decode tag content = .ok op)
    (hparts : HasParts op) (hmore : more ≠ []) (hopen : ∀ tag ∈ openTags op, more.head? ≠ some tag) :
    decode tag (content ++ more) = .error (.trailingData more.length) := by
  have hform := operationForm_of_readFrom (readFrom_of_decode h)
  obtain ⟨r, hdecode, hread⟩ := parts_of_operationForm hform hparts
  rw [hdecode]
  exact whole_of_left (hread more hopen) hmore

/-- Behind the last part of an envelope nothing is accepted but the controls. -/
theorem Message.answer_append (h : reader.answer content = .ok m) (hmore : more ≠ [])
    (hopen : m.controls = none → more.head? ≠ some Field.controls) :
    reader.answer (content ++ more) = .error (.trailingData more.length) := by
  obtain ⟨rest, hread⟩ := Reader.answer_eq_ok.mp h
  obtain ⟨raw, afterId, tag, opContent, afterOp, hraw, hid, hsplit, hop, hcontrols, -⟩ :=
    on_reader_eq_ok.mp hread
  obtain ⟨id, hidForm, rfl⟩ := on_integer_iff.mp hraw
  obtain ⟨operation, hoperation, rfl⟩ := elementForm_of_split hsplit
  obtain ⟨controls, hcontrolsForm, rfl, -⟩ := optionalForm_of_on hcontrols
  rw [List.append_assoc, List.append_assoc, List.append_nil, reader,
    Reader.answer_bind_of_on (on_integer_iff.mpr ⟨id, hidForm, rfl⟩),
    Reader.answer_bind_of_on (Reader.on_lift_eq_ok.mpr ⟨hid, rfl⟩),
    Reader.answer_bind_of_on (Reader.on_element_eq_ok.mpr (split_of_elementForm hoperation _))]
  dsimp only
  rw [Reader.answer_bind_of_on
      (Reader.on_lift_eq_ok.mpr ⟨Operation.decode_of_readFrom hop, rfl⟩),
    Reader.answer_bind_of_on (on_of_optionalForm hcontrolsForm hopen)]
  exact Reader.answer_finished_bind hmore

/-! ## Messages and their octets -/

/-- How the octets of a message and the message determine each other. The octets in which no length
and no integer is padded are those of the strict dialect. -/
structure Traces (m : Message) : Prop where
  /-- All that is decoded as the message is an envelope of it with some octets hidden. -/
  decoded : ∀ bytes, Message.decode bytes = .ok m ↔ ∃ hidden, EnvelopeIn .lax m hidden bytes
  /-- Without padding there is one envelope for any hidden octets that the message can have. -/
  tidy : ∀ bytes hidden,
    EnvelopeIn .strict m hidden bytes ↔ m.FitsWith hidden ∧ bytes = m.encodeWith hidden
  /-- Two of them are the same octets if and only if the same is hidden in them. -/
  same : ∀ bytes hidden bytes' hidden', EnvelopeIn .strict m hidden bytes →
    EnvelopeIn .strict m hidden' bytes' → (bytes = bytes' ↔ hidden = hidden')
  /-- The message as it is written is the one in which nothing is hidden. -/
  written : ∀ bytes hidden, EnvelopeIn .strict m hidden bytes → (bytes = m.encode ↔ hidden = [])
  /-- Nothing is hidden but the content of an unbind request, a referral behind an outcome, and what
  stands behind the credentials of a security mechanism. -/
  places : ∀ bytes hidden, EnvelopeIn .strict m hidden bytes → m.op ≠ .unbindRequest →
    (m.op.HoldsOutcome → hidden = []) → ¬m.op.NamesMechanism → bytes = m.encode
  /-- What is left over behind the envelope is refused. -/
  behindEnvelope : ∀ bytes more, Message.decode bytes = .ok m → more ≠ [] →
    Message.decode (bytes ++ more) = .error (.trailingData more.length)
  /-- What is left over behind the parts of the envelope is refused, unless it begins like controls
  that are not there yet. -/
  behindParts : ∀ content more, Message.reader.answer content = .ok m → more ≠ [] →
    (m.controls = none → more.head? ≠ some Field.controls) →
    Message.reader.answer (content ++ more) = .error (.trailingData more.length)
  /-- What is left over behind the parts of the operation is refused, unless it begins like one that
  is not there yet. -/
  behindOperation : ∀ content more, Operation.decode m.op.tag content = .ok m.op → HasParts m.op →
    more ≠ [] → (∀ tag ∈ openTags m.op, more.head? ≠ some tag) →
    Operation.decode m.op.tag (content ++ more) = .error (.trailingData more.length)

theorem hides_nil (op : Operation) : op.Hides [] := by
  cases op with
  | bindRequest r =>
      obtain ⟨version, name, authentication⟩ := r
      cases authentication with
      | simple password => rfl
      | sasl mechanism credentials => exact fun _ => head?_nil_ne _
  | unbindRequest => trivial
  | bindResponse => exact ⟨none, rfl⟩
  | extendedResponse => exact ⟨none, rfl⟩
  | plainResponse => exact ⟨none, rfl⟩
  | abandonRequest => rfl
  | extendedRequest => rfl
  | other => rfl

/-- Where nothing is dropped, nothing can be hidden. -/
theorem eq_nil_of_hides {op : Operation} (h : op.Hides hidden) (hop : op ≠ .unbindRequest)
    (houtcome : op.HoldsOutcome → hidden = []) (hmechanism : ¬op.NamesMechanism) : hidden = [] := by
  cases op with
  | bindRequest r =>
      obtain ⟨version, name, authentication⟩ := r
      cases authentication with
      | simple password => exact h
      | sasl mechanism credentials => exact absurd trivial hmechanism
  | unbindRequest => exact absurd rfl hop
  | bindResponse => exact houtcome trivial
  | extendedResponse => exact houtcome trivial
  | plainResponse => exact houtcome trivial
  | abandonRequest => exact h
  | extendedRequest => exact h
  | other => exact h

/-- **Padding apart, octets are a message and what is hidden in it.** Two runs of octets that are
decoded as one message and have no padding are the same if the same is hidden in both, and they are the
message as it is written if nothing is. Every level refuses what is left over behind its last part,
but for the security mechanism of a bind request: whatever stands behind its credentials is taken and
dropped, as a referral and the content of an unbind request are. -/
theorem hidden_octets (m : Message) : Traces m where
  decoded := fun bytes => decode_eq_ok_iff_lax
  tidy := fun bytes hidden => envelopeIn_strict_iff
  same := by
    intro bytes hidden bytes' hidden' h h'
    obtain ⟨hfits, rfl⟩ := envelopeIn_strict_iff.mp h
    obtain ⟨hfits', rfl⟩ := envelopeIn_strict_iff.mp h'
    exact Message.encodeWith_inj hfits.hides hfits'.hides
  written := by
    intro bytes hidden h
    obtain ⟨hfits, rfl⟩ := envelopeIn_strict_iff.mp h
    rw [← Message.encodeWith_nil]
    exact Message.encodeWith_inj hfits.hides (hides_nil m.op)
  places := by
    intro bytes hidden h hop houtcome hmechanism
    obtain ⟨hfits, rfl⟩ := envelopeIn_strict_iff.mp h
    rw [eq_nil_of_hides hfits.hides hop houtcome hmechanism, Message.encodeWith_nil]
  behindEnvelope := by
    intro bytes more hdecode hmore
    obtain ⟨content, hsplit, -⟩ := Message.decode_eq_ok_iff.mp hdecode
    obtain ⟨form, hform, rfl⟩ := elementForm_of_split hsplit
    rw [List.append_nil]
    exact (delimited_of_elementForm hform).trailing more hmore
  behindParts := fun content more => Message.answer_append
  behindOperation := fun content more => Operation.decode_append

def mechanismBind : Message :=
  { id := 1, op := .bindRequest ⟨3, "", .sasl "X" (some [0x63])⟩ }

def bareBind : Octets :=
  [0x30, 0x12, 0x02, 0x01, 0x01, 0x60, 0x0D, 0x02, 0x01, 0x03, 0x04, 0x00,
    0xA3, 0x06, 0x04, 0x01, 0x58, 0x04, 0x01, 0x63]

/-- The same with an empty element behind the credentials. -/
def ladenBind : Octets :=
  [0x30, 0x14, 0x02, 0x01, 0x01, 0x60, 0x0F, 0x02, 0x01, 0x03, 0x04, 0x00,
    0xA3, 0x08, 0x04, 0x01, 0x58, 0x04, 0x01, 0x63, 0x05, 0x00]

/-- Two different runs of octets without any padding are decoded as the same bind request. -/
theorem hidden_behind_credentials :
    Message.decode bareBind = .ok mechanismBind ∧ EnvelopeIn .strict mechanismBind [] bareBind ∧
    Message.decode ladenBind = .ok mechanismBind ∧
    EnvelopeIn .strict mechanismBind [0x05, 0x00] ladenBind ∧ bareBind ≠ ladenBind := by
  have hop : mechanismBind.op.WellFormed := ⟨by decide, by decide⟩
  have hshort : (mechanismBind.contentWith []).length < 2 ^ 32 ∧
      (mechanismBind.contentWith [0x05, 0x00]).length < 2 ^ 32 := by decide +kernel
  have hplain := envelopeIn_strict_iff.mpr
    ⟨⟨by decide, hop, nofun, hshort.1⟩, (by decide +kernel : bareBind = _)⟩
  have hladen := envelopeIn_strict_iff.mpr
    ⟨⟨by decide, hop, nofun, hshort.2⟩, (by decide +kernel : ladenBind = _)⟩
  exact ⟨by decide +kernel, hplain, by decide +kernel, hladen, by decide⟩

end Directory
