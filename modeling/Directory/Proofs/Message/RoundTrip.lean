import Directory.Message.Decode
import Directory.Message.Encode
import Directory.Proofs.Ber.Element

/-!
# Messages read back

Which messages survive being written and read again? Exactly the well-formed ones: the identifiers
and the version in their ranges, no operation with a structure of its own passed off as an opaque
one, and everything short of the 2³² octets that length octets can announce
(`Message.decode_encode_iff`).

One direction goes by the parts of a message in the order of reading: each part reads back whatever
follows it, except that an optional part must not be followed by its own tag. The other direction
needs no look at what was written: whatever is read at all has its fields in range, and whoever
announces more than four length octets can spell is longer than any envelope that is read.
-/

namespace Directory

open Ber Ber.Reader

/-! ## Well-formed messages -/

def Operation.structuredTags : List UInt8 := [
  Tag.bindRequest, Tag.bindResponse, Tag.unbindRequest, Tag.abandonRequest, Tag.extendedRequest,
  Tag.extendedResponse, PlainResponse.searchDone.tag, PlainResponse.modify.tag,
  PlainResponse.add.tag, PlainResponse.delete.tag, PlainResponse.modifyDn.tag,
  PlainResponse.compare.tag]

/-- The fields of an operation are in their ranges, and an opaque operation has an identifier octet
of the application class with a low tag number that no other operation has. -/
def Operation.WellFormed : Operation → Prop
  | bindRequest request => 1 ≤ request.version ∧ request.version ≤ 127
  | abandonRequest target => 0 ≤ target
  | other tag _ => tag &&& 0xC0 = 0x40 ∧ tag &&& 0x1F ≠ 0x1F ∧ tag ∉ structuredTags
  | _ => True

/-- A message that can be read back. -/
structure Message.WellFormed (m : Message) : Prop where
  id_nonneg : 0 ≤ m.id
  op : m.op.WellFormed
  short : m.content.length < 2 ^ 32

/-! ## Fields that are numbers -/

theorem MessageId.ofInteger_eq_ok {raw : Int} {id : MessageId} :
    MessageId.ofInteger raw = .ok id ↔ 0 ≤ id ∧ id.toInt = raw := by
  have hlt := id.toInt_lt
  rw [ofInteger, Int32.le_iff_toInt_le, Int32.toInt_zero]
  constructor
  · intro h
    split at h
    · rename_i hraw
      cases h
      rw [Int32.toInt_ofInt_of_le (by omega) (by omega)]
      exact ⟨hraw.1, rfl⟩
    · cases h
  · rintro ⟨hid, rfl⟩
    rw [if_pos ⟨hid, by omega⟩, Int32.ofInt_toInt]

theorem ResultCode.ofInteger_eq_ok {raw : Int} {c : ResultCode} :
    ResultCode.ofInteger raw = .ok c ↔ (c.value.toNat : Int) = raw := by
  have hlt : c.value.toNat < 2 ^ 32 := c.value.toNat_lt
  rw [ofInteger]
  constructor
  · intro h
    split at h
    · cases h
      rw [UInt32.toNat_ofNat']
      omega
    · cases h
  · rintro rfl
    rw [if_pos (by omega), Int.toNat_natCast, UInt32.ofNat_toNat]

theorem BindRequest.versionOfInteger_eq_ok {raw : Int} {v : UInt8} :
    BindRequest.versionOfInteger raw = .ok v ↔ (1 ≤ v ∧ v ≤ 127) ∧ (v.toNat : Int) = raw := by
  have hlow : 1 ≤ v ↔ 1 ≤ v.toNat := UInt8.le_iff_toNat_le
  have hhigh : v ≤ 127 ↔ v.toNat ≤ 127 := UInt8.le_iff_toNat_le
  rw [versionOfInteger, hlow, hhigh]
  constructor
  · intro h
    split at h
    · cases h
      rw [UInt8.toNat_ofNat']
      omega
    · cases h
  · rintro ⟨hv, rfl⟩
    rw [if_pos (by omega), Int.toNat_natCast, UInt8.ofNat_toNat]

/-! Eight octets can spell each of these numbers. -/

theorem MessageId.toInt_bounds (id : MessageId) : -(2 ^ 63) ≤ id.toInt ∧ id.toInt < 2 ^ 63 := by
  have hlow := id.le_toInt
  have hhigh := id.toInt_lt
  omega

theorem ResultCode.value_bounds (c : ResultCode) :
    -(2 ^ 63) ≤ (c.value.toNat : Int) ∧ (c.value.toNat : Int) < 2 ^ 63 := by
  have hlt : c.value.toNat < 2 ^ 32 := c.value.toNat_lt
  omega

theorem BindRequest.version_bounds (r : BindRequest) :
    -(2 ^ 63) ≤ (r.version.toNat : Int) ∧ (r.version.toNat : Int) < 2 ^ 63 := by
  have hlt := r.version.toNat_lt
  omega

/-! ## The parts of an operation -/

/-- An outcome reads back if no referral follows it. -/
theorem Outcome.on_reader_append {o : Outcome} {rest : Octets} (h : Short o.encode)
    (hrest : rest.head? ≠ some Field.referral) :
    Outcome.reader.on (o.encode ++ rest) = (.ok o, rest) := by
  rw [Outcome.encode] at h ⊢
  rw [List.append_assoc, List.append_assoc]
  simp only [Outcome.reader, on_bind_eq_ok, on_pure_eq_ok, on_lift_eq_ok]
  refine ⟨_, _, on_integer_append rfl o.code.value_bounds _, o.code, _, ⟨?_, rfl⟩, _, _,
    on_text_append rfl h.left.right.content _, _, _, on_text_append rfl h.right.content _,
    none, rest, ?_, rfl, rfl⟩
  · exact ResultCode.ofInteger_eq_ok.mpr rfl
  · exact on_optional_eq_ok.mpr ⟨hrest, rfl⟩

theorem Authentication.on_reader_append {a : Authentication} (h : Short a.encode)
    (rest : Octets) : Authentication.reader.on (a.encode ++ rest) = (.ok a, rest) := by
  simp only [Authentication.reader, on_bind_eq_ok]
  cases a with
  | simple password =>
      refine ⟨_, _, on_element_eq_ok.mpr (split_element_append rfl h.content rest), ?_⟩
      rw [if_pos rfl, on_pure_eq_ok]
      exact ⟨rfl, rfl⟩
  | sasl mechanism credentials =>
      refine ⟨_, _, on_element_eq_ok.mpr (split_element_append rfl h.content rest), ?_⟩
      have hne : Field.sasl ≠ Field.simplePassword := by decide
      rw [if_neg hne, if_pos rfl, on_lift_eq_ok, answer_eq_ok]
      refine ⟨⟨[], ?_⟩, rfl⟩
      have hparts := h.content
      simp only [Authentication.saslReader, on_bind_eq_ok, on_pure_eq_ok]
      exact ⟨_, _, on_text_append rfl hparts.left.content _, _, _,
        on_optional_end rfl hparts.right, rfl, rfl⟩

theorem BindRequest.on_reader_append {r : BindRequest} (hv : 1 ≤ r.version ∧ r.version ≤ 127)
    (h : Short (Operation.bindRequest r).content) (rest : Octets) :
    BindRequest.reader.on ((Operation.bindRequest r).content ++ rest) = (.ok r, rest) := by
  rw [Operation.content] at h ⊢
  rw [List.append_assoc, List.append_assoc]
  simp only [BindRequest.reader, on_bind_eq_ok, on_pure_eq_ok, on_lift_eq_ok]
  refine ⟨_, _, on_integer_append rfl r.version_bounds _, r.version, _, ⟨?_, rfl⟩, _, _,
    on_text_append rfl h.left.right.content _, _, _,
    Authentication.on_reader_append h.right _, rfl, rfl⟩
  exact BindRequest.versionOfInteger_eq_ok.mpr ⟨hv, rfl⟩

namespace Operation

theorem on_optionalText_append {tag : UInt8} {s : Option String} {rest : Octets}
    (htag : Header.isHighTag tag = false)
    (h : Short (optionalElement tag (s.map Octets.ofText))) (hrest : rest.head? ≠ some tag) :
    (optionalText tag).on (optionalElement tag (s.map Octets.ofText) ++ rest) =
      (.ok s, rest) := by
  simp only [optionalText, on_bind_eq_ok]
  refine ⟨_, _, on_optional_append htag h hrest, ?_⟩
  cases s with
  | none => exact on_pure_eq_ok.mpr ⟨rfl, rfl⟩
  | some s =>
      simp only [Option.map_some, on_bind_eq_ok, on_lift_eq_ok, on_pure_eq_ok]
      exact ⟨s, rest, ⟨spelling_ofText s, rfl⟩, rfl, rfl⟩

/-- What is left over when the parts were taken decides whether they were all. -/
theorem whole_eq_ok {α : Type} {r : Reader α} {content : Octets} {a : α} :
    whole r content = .ok a ↔ r.on content = (.ok a, []) := by
  simp only [whole, answer_eq_ok, on_bind_eq_ok, on_pure_eq_ok]
  constructor
  · rintro ⟨rest, b, mid, hr, _, left, hend, rfl, -⟩
    rw [hr, (on_finished_eq_ok.mp hend).1]
  · intro h
    exact ⟨[], a, [], h, (), [], on_finished_eq_ok.mpr ⟨rfl, rfl⟩, rfl, rfl⟩

theorem head?_optionalElement_append {tag : UInt8} {content : Option Octets} {rest : Octets}
    {other : UInt8} (h : tag ≠ other) (hrest : rest.head? ≠ some other) :
    (optionalElement tag content ++ rest).head? ≠ some other := by
  cases content with
  | none => exact hrest
  | some c =>
      rw [optionalElement, head?_element]
      exact fun heq => h (Option.some.inj heq)

/-- What is read for a tag and some content: each operation with a structure from its own tag and
all of the content, and the content as it is for every other tag of the application class. -/
def ReadFrom (tag : UInt8) (content : Octets) : Operation → Prop
  | bindRequest request =>
      tag = Tag.bindRequest ∧ BindRequest.reader.on content = (.ok request, [])
  | op@(bindResponse _ _) =>
      tag = Tag.bindResponse ∧ bindResponseReader.on content = (.ok op, [])
  | unbindRequest => tag = Tag.unbindRequest
  | abandonRequest target =>
      tag = Tag.abandonRequest ∧
        ∃ raw, Integer.ofContent content = .ok raw ∧ MessageId.ofInteger raw = .ok target
  | op@(extendedRequest _ _) =>
      tag = Tag.extendedRequest ∧ extendedRequestReader.on content = (.ok op, [])
  | op@(extendedResponse _ _ _) =>
      tag = Tag.extendedResponse ∧ extendedResponseReader.on content = (.ok op, [])
  | plainResponse kind outcome =>
      tag = kind.tag ∧ Outcome.reader.on content = (.ok outcome, [])
  | other found payload =>
      found = tag ∧ payload = content ∧ isApplication tag = true ∧ tag ∉ structuredTags

theorem decode_bindRequest (content : Octets) :
    decode Tag.bindRequest content = whole (bindRequest <$> BindRequest.reader) content := rfl

theorem decode_bindResponse (content : Octets) :
    decode Tag.bindResponse content = whole bindResponseReader content := rfl

theorem decode_abandonRequest (content : Octets) :
    decode Tag.abandonRequest content =
      (Integer.ofContent content >>= fun raw =>
        MessageId.ofInteger raw >>= fun target => pure (abandonRequest target)) := rfl

theorem decode_extendedRequest (content : Octets) :
    decode Tag.extendedRequest content = whole extendedRequestReader content := rfl

theorem decode_extendedResponse (content : Octets) :
    decode Tag.extendedResponse content = whole extendedResponseReader content := rfl

theorem decode_plainResponse (kind : PlainResponse) (content : Octets) :
    decode kind.tag content = whole (plainResponse kind <$> Outcome.reader) content := by
  cases kind <;> rfl

theorem decode_other {tag : UInt8} (happ : isApplication tag = true) (htag : tag ∉ structuredTags)
    (content : Octets) : decode tag content = .ok (other tag content) := by
  simp only [structuredTags, List.mem_cons, List.not_mem_nil, or_false, not_or] at htag
  have hplain : PlainResponse.ofTag? tag = none := by
    cases hk : PlainResponse.ofTag? tag with
    | none => rfl
    | some kind =>
        have := PlainResponse.tag_of_ofTag? hk
        cases kind <;> simp_all
  simp [decode, happ, htag, hplain]

theorem decode_of_readFrom {tag : UInt8} {content : Octets} {op : Operation}
    (h : op.ReadFrom tag content) : decode tag content = .ok op := by
  cases op with
  | bindRequest request =>
      obtain ⟨rfl, hread⟩ := h
      rw [decode_bindRequest, whole_eq_ok, on_map_eq_ok]
      exact ⟨request, hread, rfl⟩
  | bindResponse outcome credentials =>
      obtain ⟨rfl, hread⟩ := h
      rw [decode_bindResponse, whole_eq_ok]
      exact hread
  | unbindRequest =>
      rw [show tag = Tag.unbindRequest from h]
      rfl
  | abandonRequest target =>
      obtain ⟨rfl, raw, hraw, htarget⟩ := h
      rw [decode_abandonRequest, hraw]
      show (MessageId.ofInteger raw >>= fun target => pure (abandonRequest target)) = _
      rw [htarget]
      rfl
  | extendedRequest name value =>
      obtain ⟨rfl, hread⟩ := h
      rw [decode_extendedRequest, whole_eq_ok]
      exact hread
  | extendedResponse outcome name value =>
      obtain ⟨rfl, hread⟩ := h
      rw [decode_extendedResponse, whole_eq_ok]
      exact hread
  | plainResponse kind outcome =>
      obtain ⟨rfl, hread⟩ := h
      rw [decode_plainResponse, whole_eq_ok, on_map_eq_ok]
      exact ⟨outcome, hread, rfl⟩
  | other found payload =>
      obtain ⟨rfl, rfl, happ, htag⟩ := h
      exact decode_other happ htag payload

theorem readFrom_of_decode {tag : UInt8} {content : Octets} {op : Operation}
    (h : decode tag content = .ok op) : op.ReadFrom tag content := by
  unfold decode at h
  split at h
  · cases h
  rename_i happ
  split at h
  · rename_i htag
    rw [whole_eq_ok, on_map_eq_ok] at h
    obtain ⟨request, hread, rfl⟩ := h
    exact ⟨htag, hread⟩
  rename_i hbind
  split at h
  · rename_i htag
    rw [whole_eq_ok] at h
    have hread := h
    simp only [bindResponseReader, on_bind_eq_ok, on_pure_eq_ok] at h
    obtain ⟨_, _, _, _, _, _, rfl, _⟩ := h
    exact ⟨htag, hread⟩
  rename_i hbindResponse
  split at h
  · rename_i htag
    cases h
    exact htag
  rename_i hunbind
  split at h
  · rename_i htag
    cases hraw : Integer.ofContent content with
    | error e => rw [hraw] at h; cases h
    | ok raw =>
        rw [hraw] at h
        cases htarget : MessageId.ofInteger raw with
        | error e => simp only [bind, Except.bind, htarget] at h; cases h
        | ok target =>
            simp only [bind, Except.bind, htarget] at h
            cases h
            exact ⟨htag, raw, hraw, htarget⟩
  rename_i habandon
  split at h
  · rename_i htag
    rw [whole_eq_ok] at h
    have hread := h
    simp only [extendedRequestReader, on_bind_eq_ok, on_pure_eq_ok] at h
    obtain ⟨_, _, _, _, _, _, rfl, _⟩ := h
    exact ⟨htag, hread⟩
  rename_i hextended
  split at h
  · rename_i htag
    rw [whole_eq_ok] at h
    have hread := h
    simp only [extendedResponseReader, on_bind_eq_ok, on_pure_eq_ok] at h
    obtain ⟨_, _, _, _, _, _, _, _, _, rfl, _⟩ := h
    exact ⟨htag, hread⟩
  rename_i hextendedResponse
  split at h
  · rename_i kind hkind
    rw [whole_eq_ok, on_map_eq_ok] at h
    obtain ⟨outcome, hread, rfl⟩ := h
    exact ⟨(PlainResponse.tag_of_ofTag? hkind).symm, hread⟩
  · rename_i hplain
    cases h
    have hkind : ∀ kind : PlainResponse, tag ≠ kind.tag := by
      rintro kind rfl
      rw [PlainResponse.ofTag?_tag] at hplain
      cases hplain
    refine ⟨rfl, rfl, by simpa using happ, ?_⟩
    simp only [structuredTags, List.mem_cons, List.not_mem_nil, or_false, not_or]
    exact ⟨hbind, hbindResponse, hunbind, habandon, hextended, hextendedResponse,
      hkind _, hkind _, hkind _, hkind _, hkind _, hkind _⟩

/-- **What is decoded** is what is read for the tag and the content. -/
theorem decode_eq_ok_iff {tag : UInt8} {content : Octets} {op : Operation} :
    decode tag content = .ok op ↔ op.ReadFrom tag content :=
  ⟨readFrom_of_decode, decode_of_readFrom⟩

/-- **An operation reads back** from its tag and its content. -/
theorem readFrom_content {op : Operation} (hop : op.WellFormed) (h : Short op.content) :
    op.ReadFrom op.tag op.content := by
  cases op with
  | bindRequest request =>
      have hreads := BindRequest.on_reader_append hop h []
      rw [List.append_nil] at hreads
      exact ⟨rfl, hreads⟩
  | bindResponse outcome credentials =>
      refine ⟨rfl, ?_⟩
      simp only [bindResponseReader, on_bind_eq_ok, on_pure_eq_ok]
      refine ⟨_, _, Outcome.on_reader_append (Short.left h) ?_, _, _,
        on_optional_end rfl (Short.right h), rfl, rfl⟩
      rw [← List.append_nil (optionalElement _ _)]
      exact head?_optionalElement_append (by decide) (by simp)
  | unbindRequest => rfl
  | abandonRequest target =>
      exact ⟨rfl, target.toInt, ofContent_content (MessageId.toInt_bounds target),
        MessageId.ofInteger_eq_ok.mpr ⟨hop, rfl⟩⟩
  | extendedRequest name value =>
      refine ⟨rfl, ?_⟩
      simp only [extendedRequestReader, on_bind_eq_ok, on_pure_eq_ok]
      exact ⟨_, _, on_text_append rfl (Short.left h).content _, _, _,
        on_optional_end rfl (Short.right h), rfl, rfl⟩
  | extendedResponse outcome name value =>
      -- Neither the name nor the value that may follow an outcome is taken for a referral, and the
      -- value is not taken for the name.
      have hend : ∀ tag ≠ Field.responseValue,
          (optionalElement Field.responseValue value).head? ≠ some tag := by
        intro tag htag
        rw [← List.append_nil (optionalElement _ _)]
        exact head?_optionalElement_append htag.symm (by simp)
      refine ⟨rfl, ?_⟩
      rw [content, List.append_assoc] at h ⊢
      simp only [extendedResponseReader, on_bind_eq_ok, on_pure_eq_ok]
      refine ⟨_, _, Outcome.on_reader_append h.left ?_, _, _,
        on_optionalText_append rfl h.right.left (hend _ (by decide)), _, _,
        on_optional_end rfl h.right.right, rfl, rfl⟩
      exact head?_optionalElement_append (by decide) (hend _ (by decide))
  | plainResponse kind outcome =>
      have houtcome : Outcome.reader.on (outcome.encode ++ []) = (.ok outcome, []) :=
        Outcome.on_reader_append h (by simp)
      rw [List.append_nil] at houtcome
      exact ⟨rfl, houtcome⟩
  | other tag payload =>
      refine ⟨rfl, rfl, ?_, hop.2.2⟩
      rw [isApplication, classMask, applicationClass]
      exact beq_iff_eq.mpr hop.1

theorem wellFormed_of_readFrom {tag : UInt8} {content : Octets} {op : Operation}
    (hlow : Header.isHighTag tag = false) (h : op.ReadFrom tag content) : op.WellFormed := by
  cases op with
  | bindRequest request =>
      obtain ⟨-, hread⟩ := h
      simp only [BindRequest.reader, on_bind_eq_ok, on_pure_eq_ok, on_lift_eq_ok] at hread
      obtain ⟨_, _, _, _, _, ⟨hversion, -⟩, _, _, _, _, _, _, rfl, -⟩ := hread
      exact (BindRequest.versionOfInteger_eq_ok.mp hversion).1
  | abandonRequest target =>
      obtain ⟨-, raw, -, htarget⟩ := h
      exact (MessageId.ofInteger_eq_ok.mp htarget).1
  | other found payload =>
      obtain ⟨rfl, -, happ, htag⟩ := h
      rw [isApplication, classMask, applicationClass, beq_iff_eq] at happ
      rw [Header.isHighTag, beq_eq_false_iff_ne] at hlow
      exact ⟨happ, hlow, htag⟩
  | bindResponse outcome credentials => trivial
  | unbindRequest => trivial
  | extendedRequest name value => trivial
  | extendedResponse outcome name value => trivial
  | plainResponse kind outcome => trivial

theorem isHighTag_structuredTags {tag : UInt8} (h : tag ∈ structuredTags) :
    Header.isHighTag tag = false := by
  have hall : structuredTags.all (fun tag => !Header.isHighTag tag) = true := rfl
  simpa using List.all_eq_true.mp hall tag h

theorem mem_structuredTags (kind : PlainResponse) : kind.tag ∈ structuredTags := by
  cases kind <;> simp [structuredTags]

theorem isHighTag_tag {op : Operation} (hop : op.WellFormed) : Header.isHighTag op.tag = false := by
  cases op with
  | plainResponse kind outcome => exact isHighTag_structuredTags (mem_structuredTags kind)
  | other tag payload => exact beq_eq_false_iff_ne.mpr hop.2.1
  | bindRequest request =>
      exact isHighTag_structuredTags (by simp [structuredTags, tag])
  | bindResponse outcome credentials =>
      exact isHighTag_structuredTags (by simp [structuredTags, tag])
  | unbindRequest => exact isHighTag_structuredTags (by simp [structuredTags, tag])
  | abandonRequest target => exact isHighTag_structuredTags (by simp [structuredTags, tag])
  | extendedRequest name value => exact isHighTag_structuredTags (by simp [structuredTags, tag])
  | extendedResponse outcome name value =>
      exact isHighTag_structuredTags (by simp [structuredTags, tag])

end Operation

/-! ## Whole messages -/

namespace Message

theorem envelopeContent_eq_ok {bytes content : Octets} :
    envelopeContent bytes = .ok content ↔ split bytes = .ok (Ber.Tag.sequence, content, []) := by
  rw [envelopeContent]
  rcases split bytes with e | ⟨tag, c, rest⟩
  · simp
  · dsimp only
    split
    · rename_i htag
      simp [htag]
    · split
      · rename_i hrest
        simp [hrest]
      · rename_i htag hrest
        simp only [ne_eq, Decidable.not_not] at htag hrest
        simp [htag, hrest]

/-- **What is decoded** is one sequence that takes up all of the octets, and its content is read as
the parts of an envelope. -/
theorem decode_eq_ok_iff {bytes : Octets} {m : Message} :
    decode bytes = .ok m ↔
      ∃ content, split bytes = .ok (Ber.Tag.sequence, content, []) ∧
        ∃ rest, reader.on content = (.ok m, rest) := by
  have hdecode : decode bytes = (envelopeContent bytes >>= reader.answer) := rfl
  rw [hdecode]
  cases hcontent : envelopeContent bytes with
  | error e =>
      constructor
      · intro h
        cases h
      · rintro ⟨content, hsplit, -⟩
        rw [envelopeContent_eq_ok.mpr hsplit] at hcontent
        cases hcontent
  | ok content =>
      show reader.answer content = .ok m ↔ _
      rw [answer_eq_ok]
      rw [envelopeContent_eq_ok] at hcontent
      simp [hcontent]

theorem on_reader_eq_ok {content rest : Octets} {m : Message} :
    reader.on content = (.ok m, rest) ↔
      ∃ raw afterId tag opContent afterOp,
        (integer Ber.Tag.integer).on content = (.ok raw, afterId) ∧
        MessageId.ofInteger raw = .ok m.id ∧
        split afterId = .ok (tag, opContent, afterOp) ∧
        m.op.ReadFrom tag opContent ∧
        (optional Field.controls).on afterOp = (.ok m.controls, []) ∧ rest = [] := by
  simp only [reader, on_bind_eq_ok, on_lift_eq_ok, on_pure_eq_ok, Operation.decode_eq_ok_iff]
  constructor
  · rintro ⟨raw, afterId, hraw, id, _, ⟨hid, rfl⟩, ⟨tag, opContent⟩, afterOp, hel, op, _,
      ⟨hop, rfl⟩, controls, end₁, hcontrols, _, end₂, hend, rfl, rfl⟩
    obtain ⟨rfl, rfl⟩ := on_finished_eq_ok.mp hend
    exact ⟨raw, afterId, tag, opContent, _, hraw, hid, on_element_eq_ok.mp hel, hop, hcontrols, rfl⟩
  · rintro ⟨raw, afterId, tag, opContent, afterOp, hraw, hid, hsplit, hop, hcontrols, rfl⟩
    exact ⟨raw, afterId, hraw, m.id, _, ⟨hid, rfl⟩, (tag, opContent), afterOp,
      on_element_eq_ok.mpr hsplit, m.op, _, ⟨hop, rfl⟩, m.controls, [], hcontrols, (), [],
      on_finished_eq_ok.mpr ⟨rfl, rfl⟩, rfl, rfl⟩

theorem fields_of_decode {bytes : Octets} {m : Message} (h : decode bytes = .ok m) :
    0 ≤ m.id ∧ m.op.WellFormed := by
  obtain ⟨content, -, rest, hread⟩ := decode_eq_ok_iff.mp h
  obtain ⟨raw, afterId, tag, opContent, afterOp, -, hid, hsplit, hop, -⟩ :=
    on_reader_eq_ok.mp hread
  obtain ⟨-, -, -, -, -, -, hlow⟩ := append_of_split hsplit
  exact ⟨(MessageId.ofInteger_eq_ok.mp hid).1, Operation.wellFormed_of_readFrom hlow hop⟩

theorem length_of_decode {bytes : Octets} {m : Message} (h : decode bytes = .ok m) :
    bytes.length < Header.maxSize + 2 ^ 32 := by
  obtain ⟨content, hsplit, -⟩ := decode_eq_ok_iff.mp h
  obtain ⟨header, rfl, -, hheader, hcontent, -⟩ := append_of_split hsplit
  rw [Short] at hcontent
  rw [List.append_nil, List.length_append]
  omega

theorem on_reader_content {m : Message} (h : m.WellFormed) :
    reader.on m.content = (.ok m, []) := by
  have hshort : Short m.content := h.short
  rw [content] at hshort ⊢
  have hop : Short m.op.content := hshort.left.right.content
  rw [List.append_assoc]
  exact on_reader_eq_ok.mpr
    ⟨_, _, _, _, _, on_integer_append rfl (MessageId.toInt_bounds m.id) _,
      MessageId.ofInteger_eq_ok.mpr ⟨h.id_nonneg, rfl⟩,
      split_element_append (Operation.isHighTag_tag h.op) hop _,
      Operation.readFrom_content h.op hop, on_optional_end rfl hshort.right, rfl⟩

theorem decode_encode {m : Message} (h : m.WellFormed) : decode m.encode = .ok m := by
  have hsplit : split (m.encode ++ []) = .ok (Ber.Tag.sequence, m.content, []) :=
    split_element_append rfl h.short []
  rw [List.append_nil] at hsplit
  exact decode_eq_ok_iff.mpr ⟨m.content, hsplit, [], on_reader_content h⟩

/-- Content of 2³² octets or more makes an envelope that is too long to be decoded. -/
theorem short_of_decode_encode {m : Message} (h : decode m.encode = .ok m) :
    m.content.length < 2 ^ 32 := by
  by_contra hlong
  have hlength := length_of_decode h
  have hheader := Header.six_le_length_lengthOctets (Nat.le_of_not_lt hlong)
  have hmax : Header.maxSize = 6 := rfl
  rw [encode, length_element] at hlength
  omega

/-- **Exactly the well-formed messages survive being written and read.** A message whose identifier,
version or abandoned identifier is out of range, whose opaque operation has the identifier octet of
another one or none of the application class with a low tag number, or whose envelope has 2³² octets
of content or more, is refused or read as a different message. -/
theorem decode_encode_iff (m : Message) : decode m.encode = .ok m ↔ m.WellFormed := by
  constructor
  · intro h
    obtain ⟨hid, hop⟩ := fields_of_decode h
    exact ⟨hid, hop, short_of_decode_encode h⟩
  · exact decode_encode

end Message

end Directory
