import Directory.Proofs.Ber.Shortest
import Directory.Proofs.Message.Grammar

/-!
# The shortest octets for a message

Octets that are decoded may be padded, and may hold what the decoder drops: a referral, the content of
an unbind request, whatever follows the credentials of a security mechanism. Part by part, what is
written for the message is the shortest form of what was read (`Grammar.shortens_encode`), so to read
and to write again is a normalisation: it never makes a message longer, it leaves alone what is the
shortest already, and it does the same to everything that is read as the same message
(`Message.shortest_of_decode`).
-/

namespace Directory

open Ber Octets

namespace Grammar

variable {bytes content form : Octets} {tag : UInt8}

/-! ## The parts of a message -/

/-- A referral is dropped, and nothing stands in its place. -/
theorem shortens_outcome {o : Outcome} (h : OutcomeForm o form) : Shortens o.encode form := by
  obtain ⟨hcode, hdn, hdiagnostic, -⟩ := h
  exact (shortens_integerElement hcode).append_append (shortens_textElement hdn)
    ((shortens_textElement hdiagnostic).append_right _)

theorem shortens_authentication {a : Authentication} (h : AuthenticationForm a form) :
    Shortens a.encode form := by
  cases h with
  | simple helement => exact shortens_element helement (.refl _)
  | sasl hfirst hsecond _ helement =>
      exact shortens_element helement
        ((shortens_textElement hfirst).append ((shortens_optionalElement hsecond).append_right _))

theorem tag_of_operationForm {op : Operation} (h : OperationForm op tag content) : op.tag = tag := by
  cases h with
  | plainResponse htag ho => exact (mem_plainTags_iff.mp htag).symm
  | _ => rfl

theorem shortens_operation {op : Operation} (h : OperationForm op tag content) :
    Shortens op.content content := by
  cases h with
  | bindRequest hrange hversion hname hauthentication =>
      exact (shortens_integerElement hversion).append_append (shortens_textElement hname)
        (shortens_authentication hauthentication)
  | bindResponse ho hc => exact (shortens_outcome ho).append (shortens_optionalElement hc)
  | unbindRequest => exact .nil content
  | abandonRequest hrange htarget => exact shortens_content htarget
  | extendedRequest hn hv => exact (shortens_textElement hn).append (shortens_optionalElement hv)
  | extendedResponse ho hn hv =>
      exact (shortens_outcome ho).append_append
        (shortens_optionalElement (optionalTextForm_iff.mp hn)) (shortens_optionalElement hv)
  | plainResponse htag ho => exact shortens_outcome ho
  | other happlication hfree => exact .refl _

/-! ## Whole messages -/

/-- The content of an envelope that is derivable is no shorter than what is written for the
message. -/
theorem shortens_encode {m : Message} (h : EnvelopeForm m bytes) :
    Shortens m.encode bytes ∧ Short m.content := by
  obtain ⟨hrange, hid, hoperation, hop, hcontrols, hform⟩ := h
  have hwritten := shortens_element hoperation (shortens_operation hop)
  rw [← tag_of_operationForm hop] at hwritten
  have hcontent := (shortens_integerElement hid).append_append hwritten
    (shortens_optionalElement hcontrols)
  exact ⟨shortens_element hform hcontent,
    Nat.lt_of_le_of_lt hcontent.length_le (short_of_elementForm hform)⟩

end Grammar

namespace Message

/-- Reads octets and writes again what was read. -/
def normalise (bytes : Octets) : Except WireError Octets := encode <$> decode bytes

/-- The octets are read as the message, and no fewer octets are. -/
structure IsShortest (m : Message) (bytes : Octets) : Prop where
  reads : decode bytes = .ok m
  least : ∀ other, decode other = .ok m → bytes.length ≤ other.length

theorem wellFormed_of_decode {bytes : Octets} {m : Message} (h : decode bytes = .ok m) :
    m.WellFormed := by
  obtain ⟨hid, hop⟩ := fields_of_decode h
  exact ⟨hid, hop, (Grammar.shortens_encode (Grammar.envelopeForm_of_decode h)).2⟩

theorem shortens_of_decode {bytes : Octets} {m : Message} (h : decode bytes = .ok m) :
    Shortens m.encode bytes := (Grammar.shortens_encode (Grammar.envelopeForm_of_decode h)).1

/-- One run of octets only is the shortest for a message that can be read at all. -/
theorem isShortest_iff {bytes : Octets} {m : Message} (h : m.WellFormed) :
    IsShortest m bytes ↔ bytes = m.encode := by
  constructor
  · rintro ⟨hreads, hleast⟩
    have hshortens := shortens_of_decode hreads
    have hle := hleast m.encode (decode_encode h)
    exact (hshortens.eq_of_length_eq (Nat.le_antisymm hshortens.length_le hle)).symm
  · rintro rfl
    exact ⟨decode_encode h, fun other hother => (shortens_of_decode hother).length_le⟩

/-- **To read and to write again is to normalise.** A message that was read can be written, and what is
written is read as the same message. It is no longer than the octets that were read, and as long only
if it is the same octets. A second time it stays as it is, and no other octets for the message are as
few. -/
theorem shortest_of_decode {bytes : Octets} {m : Message} (h : decode bytes = .ok m) :
    m.WellFormed ∧ decode m.encode = .ok m ∧
    m.encode.length ≤ bytes.length ∧ (m.encode.length = bytes.length ↔ bytes = m.encode) ∧
    normalise bytes = .ok m.encode ∧ normalise m.encode = .ok m.encode ∧
    ∀ short, IsShortest m short ↔ short = m.encode := by
  have hm := wellFormed_of_decode h
  have hshortens := shortens_of_decode h
  have hreads := decode_encode hm
  refine ⟨hm, hreads, hshortens.length_le, ⟨fun heq => (hshortens.eq_of_length_eq heq).symm, ?_⟩,
    ?_, ?_, fun short => isShortest_iff hm⟩
  · rintro rfl
    rfl
  · rw [normalise, h]
    rfl
  · rw [normalise, hreads]
    rfl

/-- An unbind request with a padded length, a padded identifier and content that is ignored. -/
def paddedUnbind : Octets := [0x30, 0x81, 0x07, 0x02, 0x02, 0x00, 0x05, 0x42, 0x01, 0xFF]

/-- Ten octets are read as an unbind request that is written with seven. -/
theorem shortest_of_paddedUnbind :
    decode paddedUnbind = .ok { id := 5, op := .unbindRequest } ∧
      normalise paddedUnbind = .ok [0x30, 0x05, 0x02, 0x01, 0x05, 0x42, 0x00] := by
  have hreads : decode paddedUnbind = .ok { id := 5, op := .unbindRequest } := by decide +kernel
  have hwritten : encode { id := 5, op := .unbindRequest } =
      [0x30, 0x05, 0x02, 0x01, 0x05, 0x42, 0x00] := by decide +kernel
  obtain ⟨-, -, -, -, hnormalise, -⟩ := shortest_of_decode hreads
  rw [hwritten] at hnormalise
  exact ⟨hreads, hnormalise⟩

end Message

end Directory
