import Directory.Proofs.Ber.Grammar
import Directory.Proofs.Framing
import Directory.Proofs.Message.RoundTrip

/-!
# Where an envelope ends

The end of an envelope is found in two ways. `envelopeSize` looks at whatever has arrived so far and
may have to wait; `Message.decode` looks at octets that should be one envelope and may find too few
of them or too many. Both ask the header, and both answers are compared here with one thing, the
element of the grammar that stands at the front (`read_of_elementForm`, `read_of_prefix`).

What is decoded is delimited in the same way for both: `Delimited` says what is answered for it with
anything behind it, and for whatever is short of its end. And what is cut off a stream is a whole
element, so that only its content can still be refused (`CutsOff`).
-/

namespace Directory

open Ber Grammar

variable {bytes content form front : Octets} {tag : UInt8} {limit n : Nat}

/-! ## The header of an element -/

/-- **The header says where the element ends**, whatever follows. -/
theorem read_of_elementForm (h : ElementForm tag content form) (more : Octets) :
    ∃ header, Header.read (form ++ more) = .ok (some header) ∧ header.tag = tag ∧
      header.totalSize = form.length := by
  obtain ⟨hlow, hsize⟩ := h
  rename_i size
  refine ⟨⟨tag, 1 + size.length, content.length⟩, ?_, rfl, ?_⟩
  · rw [List.cons_append, List.append_assoc, read_of_lengthForm hlow hsize]
  · rw [Header.totalSize, List.length_cons, List.length_append]
    dsimp only
    omega

/-- Short of the end of an element the header is incomplete, or it is the same one. -/
theorem read_of_prefix (h : ElementForm tag content form) (hfront : front <+: form) :
    Header.read front = .ok none ∨
      ∃ header, Header.read front = .ok (some header) ∧ header.tag = tag ∧
        header.totalSize = form.length := by
  by_cases hread : Header.read front = .ok none
  · exact .inl hread
  · obtain ⟨back, rfl⟩ := hfront
    obtain ⟨header, hheader, htag, hsize⟩ := read_of_elementForm h []
    rw [List.append_nil, Header.read_append rfl hread] at hheader
    exact .inr ⟨header, hheader, htag, hsize⟩

theorem length_lt_of_prefix (hfront : front <+: form) (hne : front ≠ form) :
    front.length < form.length :=
  Nat.lt_of_le_of_ne hfront.length_le fun heq => hne (hfront.eq_of_length heq)

/-! ## The two ways to find the end -/

theorem split_of_prefix (h : ElementForm tag content form) (hfront : front <+: form)
    (hne : front ≠ form) : Reader.split front = .error .truncated := by
  have hlt := length_lt_of_prefix hfront hne
  rw [Reader.split]
  rcases read_of_prefix h hfront with hread | ⟨header, hread, -, hsize⟩
  · rw [hread]
  · have hall := (Header.read_bounds hread).1
    have hshort : ((front.drop header.size).take header.contentSize).length <
        header.contentSize := by
      rw [Header.totalSize] at hsize
      rw [List.length_take, List.length_drop]
      omega
    rw [hread]
    exact if_pos hshort

theorem envelopeSize_of_elementForm (h : ElementForm Tag.sequence content form) (limit : Nat)
    (more : Octets) :
    envelopeSize (form ++ more) limit =
      if form.length ≤ limit then .ok (some form.length)
      else .error (.frameTooLarge form.length limit) := by
  obtain ⟨header, hread, htag, hsize⟩ := read_of_elementForm h more
  have hdeclared : declaredSize (form ++ more) limit =
      if form.length ≤ limit then .ok (some form.length)
      else .error (.frameTooLarge form.length limit) := by
    rw [declaredSize, hread]
    dsimp only
    rw [hsize, if_neg (not_not_intro htag)]
    by_cases hlimit : form.length ≤ limit
    · rw [if_neg (Nat.not_lt.mpr hlimit), if_pos hlimit]
    · rw [if_pos (Nat.lt_of_not_le hlimit), if_neg hlimit]
  rw [envelopeSize, hdeclared]
  by_cases hlimit : form.length ≤ limit
  · rw [if_pos hlimit]
    dsimp only
    rw [List.take_left, if_neg (Nat.lt_irrefl _)]
  · rw [if_neg hlimit]

theorem envelopeSize_of_prefix (h : ElementForm Tag.sequence content form)
    (hfront : front <+: form) (hne : front ≠ form) (hlimit : form.length ≤ limit) :
    envelopeSize front limit = .ok none := by
  have hlt := length_lt_of_prefix hfront hne
  rw [envelopeSize, declaredSize]
  rcases read_of_prefix h hfront with hread | ⟨header, hread, htag, hsize⟩
  · rw [hread]
  · rw [hread]
    dsimp only
    rw [hsize, if_neg (not_not_intro htag), if_neg (Nat.not_lt.mpr hlimit)]
    dsimp only
    rw [List.take_of_length_le (Nat.le_of_lt hlt), if_pos hlt]

/-- **What is cut off a stream is one element**, with the tag of a sequence. -/
theorem elementForm_of_envelopeSize (h : envelopeSize bytes limit = .ok (some n)) :
    n ≤ limit ∧ ∃ content, ElementForm Tag.sequence content (bytes.take n) := by
  have hlen : (bytes.take n).length = n := List.length_take_of_le (envelopeSize_bounds h).2
  obtain ⟨header, hread, htag, hsize, hlimit⟩ :=
    read_of_declaredSize (declaredSize_take_self (declaredSize_of_envelopeSize h))
  obtain ⟨size, content, hbytes, hheader, hlow, hform⟩ := lengthForm_of_read hread
  -- The header is the one of an element of `n` octets, so the rest of them is the content.
  have hcontent : header.contentSize = content.length := by
    rw [Header.totalSize] at hsize
    rw [hbytes, List.length_cons, List.length_append] at hlen
    omega
  rw [hcontent] at hform
  rw [htag] at hlow hbytes
  refine ⟨hlimit, content, ?_⟩
  rw [hbytes]
  exact .intro hlow hform

/-! ## Whole messages -/

/-- The octets are one envelope, whatever stands behind them and wherever they are cut. -/
structure Delimited (envelope : Octets) : Prop where
  /-- Its size is found, or refused as too large, whatever follows. -/
  size : ∀ limit more, envelopeSize (envelope ++ more) limit =
    if envelope.length ≤ limit then .ok (some envelope.length)
    else .error (.frameTooLarge envelope.length limit)
  /-- All that stands behind it is refused. -/
  trailing : ∀ more, more ≠ [] →
    Message.decode (envelope ++ more) = .error (.trailingData more.length)
  /-- Short of its end nothing is decoded, and a stream waits for more. -/
  cut : ∀ front, front <+: envelope → front ≠ envelope →
    Message.decode front = .error .truncated ∧
      ∀ limit, envelope.length ≤ limit → envelopeSize front limit = .ok none

/-- The first octets of a stream can be cut off as an envelope: they are within bounds and one whole
sequence, so what is decoded is decided by its content. -/
structure CutsOff (buffer : Octets) (limit n : Nat) : Prop where
  two_le : 2 ≤ n
  le_length : n ≤ buffer.length
  le_limit : n ≤ limit
  whole : ∃ content,
    Reader.element.on (buffer.take n) = (.ok (Tag.sequence, content), []) ∧
      Message.envelopeContent (buffer.take n) = .ok content ∧
      Message.decode (buffer.take n) = Message.reader.answer content

theorem delimited_of_elementForm (h : ElementForm Tag.sequence content form) : Delimited form where
  size := envelopeSize_of_elementForm h
  trailing := by
    intro more hmore
    have hcontent : Message.envelopeContent (form ++ more) =
        .error (.trailingData more.length) := by
      rw [Message.envelopeContent, split_of_elementForm h more]
      dsimp only
      rw [if_neg (not_not_intro rfl), if_pos hmore]
    rw [Message.decode, hcontent]
    rfl
  cut := by
    intro front hfront hne
    have hcontent : Message.envelopeContent front = .error .truncated := by
      rw [Message.envelopeContent, split_of_prefix h hfront hne]
    refine ⟨?_, fun limit hlimit => envelopeSize_of_prefix h hfront hne hlimit⟩
    rw [Message.decode, hcontent]
    rfl

/-- **Both ways find the same end.** Octets that are decoded as a message are delimited: on a stream
they are one envelope whatever follows them, and whatever is too long or too short for a message by
itself is so for a stream. Conversely what is cut off a stream is refused, if it is, for its content
only. -/
theorem decode_agrees_with_envelopeSize :
    (∀ envelope m, Message.decode envelope = .ok m → Delimited envelope) ∧
      ∀ buffer limit n, envelopeSize buffer limit = .ok (some n) → CutsOff buffer limit n := by
  constructor
  · intro envelope m hdecode
    obtain ⟨content, hsplit, -⟩ := Message.decode_eq_ok_iff.mp hdecode
    obtain ⟨form, hform, rfl⟩ := elementForm_of_split hsplit
    rw [List.append_nil]
    exact delimited_of_elementForm hform
  · intro buffer limit n hsize
    obtain ⟨htwo, hlength⟩ := envelopeSize_bounds hsize
    obtain ⟨hlimit, content, hform⟩ := elementForm_of_envelopeSize hsize
    have hsplit : Reader.split (buffer.take n) = .ok (Tag.sequence, content, []) := by
      have happend := split_of_elementForm hform []
      rwa [List.append_nil] at happend
    have hcontent := Message.envelopeContent_eq_ok.mpr hsplit
    refine ⟨htwo, hlength, hlimit, content, Reader.on_element_eq_ok.mpr hsplit, hcontent, ?_⟩
    rw [Message.decode, hcontent]
    rfl

/-- A request to unbind, by itself and with the first octet of the next envelope behind it. -/
theorem decode_agrees_with_envelopeSize_unbind :
    (Message.decode [0x30, 0x05, 0x02, 0x01, 0x03, 0x42, 0x00] =
        .ok ⟨3, .unbindRequest, none⟩ ∧
      Delimited [0x30, 0x05, 0x02, 0x01, 0x03, 0x42, 0x00]) ∧
    (envelopeSize [0x30, 0x05, 0x02, 0x01, 0x03, 0x42, 0x00, 0x30] 16 = .ok (some 7) ∧
      CutsOff [0x30, 0x05, 0x02, 0x01, 0x03, 0x42, 0x00, 0x30] 16 7) :=
  ⟨⟨rfl, decode_agrees_with_envelopeSize.1 _ ⟨3, .unbindRequest, none⟩ rfl⟩,
    rfl, decode_agrees_with_envelopeSize.2 _ _ _ rfl⟩

end Directory
