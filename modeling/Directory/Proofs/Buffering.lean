import Directory.Proofs.Framing

/-!
# How much of a stream can wait

What has arrived and is not yet cut off waits in memory, so a client must not be able to make it grow
at will. Two things keep it small. A header is at most six octets, so five can wait for one that is
incomplete (`length_le_of_waiting`); and as soon as a header is complete it says how long the
envelope will be, so one that is too long is refused before any of its body is waited for
(`Oversized.next`). Both are facts about one look at the front of a buffer, and hold along a stream
because each round of cutting ends with such a look.
-/

namespace Directory

variable {bytes front : Octets} {limit n : Nat}

theorem read_of_undeclared (h : declaredSize bytes limit = .ok none) :
    Ber.Header.read bytes = .ok none := by
  unfold declaredSize at h
  split at h
  · cases h
  · assumption
  · split at h
    · cases h
    · split at h
      · cases h
      · cases h

/-- An envelope that is waited for is incomplete in its header, or in a body that is within the limit.
-/
theorem length_le_of_waiting (h : envelopeSize bytes limit = .ok none) :
    bytes.length ≤ max 5 (limit - 1) := by
  unfold envelopeSize at h
  split at h
  · cases h
  · rename_i hdeclared
    have hheader := Ber.Header.length_lt_of_read (read_of_undeclared hdeclared)
    have hsix : Ber.Header.maxSize = 6 := rfl
    omega
  · rename_i size hdeclared
    obtain ⟨-, -, -, -, hlimit⟩ := read_of_declaredSize hdeclared
    split at h
    · rename_i hshort
      rw [List.length_take] at hshort
      omega
    · cases h

theorem le_limit_of_envelopeSize (h : envelopeSize bytes limit = .ok (some n)) : n ≤ limit := by
  obtain ⟨-, -, -, -, hlimit⟩ := read_of_declaredSize (declaredSize_of_envelopeSize h)
  exact hlimit

/-- A complete header of an envelope that is declared to be too large. -/
structure Oversized (header : Ber.Header) (front : Octets) (limit : Nat) : Prop where
  read : Ber.Header.read front = .ok (some header)
  isSequence : header.tag = Ber.Tag.sequence
  tooLarge : limit < header.totalSize

namespace Oversized

variable {header : Ber.Header}

/-- **The header is enough to refuse an envelope**, whatever there is of its body. -/
theorem envelopeSize (h : Oversized header front limit) (body : Octets) :
    envelopeSize (front ++ body) limit = .error (.frameTooLarge header.totalSize limit) := by
  have hread : Ber.Header.read (front ++ body) = .ok (some header) :=
    Ber.Header.read_append h.read (by simp) body
  have hdeclared : declaredSize (front ++ body) limit =
      .error (.frameTooLarge header.totalSize limit) := by
    rw [declaredSize, hread]
    dsimp only
    rw [if_neg (not_not_intro h.isSequence), if_pos h.tooLarge]
  rw [Directory.envelopeSize, hdeclared]

theorem next (h : Oversized header front limit) {body : Octets} {s : Splitter}
    (hlimit : s.limit = limit) (hpending : s.pending = front ++ body) :
    s.next = .error (.frameTooLarge header.totalSize limit) := by
  rw [Splitter.next_eq, hlimit, hpending, h.envelopeSize]

/-- Nothing can be cut off behind it, however much follows. -/
theorem falls (h : Oversized header front limit) {frames : List Octets} {body : Octets}
    (hpeels : Peels limit bytes frames (front ++ body)) (later : Octets) :
    Falls limit (bytes ++ later) frames
      (some (.protocol (.frameTooLarge header.totalSize limit))) (front ++ (body ++ later)) := by
  have hmore := hpeels.append later
  rw [List.append_assoc] at hmore
  have hfalls := Falls.of_peels hmore (.refused (h.envelopeSize (body ++ later)))
  rwa [List.append_nil] at hfalls

end Oversized

namespace Splitter

/-- **A client cannot make more wait than one incomplete envelope.** However a stream is cut into
chunks, after each of them less is left than the largest envelope has, or than the longest header. No
envelope is longer than the limit. As soon as the header of a larger one stands at the front, in
whatever round of cutting, it is refused with its declared size, and neither it nor anything behind it
is ever cut off. -/
theorem bounded_feedAll (limit : Nat) (chunks : List Octets) :
    ((feedAll limit chunks).error = none →
      (feedAll limit chunks).rest.buffered ≤ max 5 (limit - 1)) ∧
    (∀ frame ∈ (feedAll limit chunks).frames, frame.length ≤ limit) ∧
    ∀ header front, Oversized header front limit → header.size ≤ 6 ∧ ∀ body,
      (∀ s : Splitter, s.limit = limit → s.pending = front ++ body →
        s.next = .error (.frameTooLarge header.totalSize limit)) ∧
      ∀ frames, Peels limit chunks.flatten frames (front ++ body) → ∀ later,
        (feedAll limit (chunks ++ later)).frames = frames ∧
        (feedAll limit (chunks ++ later)).error =
          some (.protocol (.frameTooLarge header.totalSize limit)) ∧
        (feedAll limit (chunks ++ later)).rest.pending = front ++ (body ++ later.flatten) := by
  obtain ⟨-, hfalls⟩ := falls_feedAll limit chunks
  refine ⟨?_, ?_, ?_⟩
  · intro herror
    rw [herror] at hfalls
    rw [← length_pending]
    cases hfalls.stuck with
    | waits hsize => exact length_le_of_waiting hsize
  · intro frame hmem
    exact le_limit_of_envelopeSize (hfalls.envelopeSize_of_mem frame hmem)
  · intro header front h
    refine ⟨(Ber.Header.read_bounds h.read).2.1, ?_⟩
    intro body
    refine ⟨fun s hlimit hpending => h.next hlimit hpending, ?_⟩
    intro frames hpeels later
    obtain ⟨-, hlater⟩ := falls_feedAll limit (chunks ++ later)
    rw [List.flatten_append] at hlater
    exact hlater.unique (h.falls hpeels later.flatten)

/-- The header of 38 octets arrives in two chunks behind an envelope of four, and nothing of its body. -/
theorem bounded_feedAll_oversized :
    (Oversized ⟨0x30, 6, 32⟩ [0x30, 0x84, 0x00, 0x00, 0x00, 0x20] 16 ∧
      Peels 16 [[0x30, 0x02, 0x05, 0x00, 0x30, 0x84], [0x00, 0x00, 0x00, 0x20]].flatten
        [[0x30, 0x02, 0x05, 0x00]] ([0x30, 0x84, 0x00, 0x00, 0x00, 0x20] ++ [])) ∧
    (feedAll 16 [[0x30, 0x02, 0x05, 0x00, 0x30, 0x84], [0x00, 0x00, 0x00, 0x20]]).error =
      some (.protocol (.frameTooLarge 38 16)) := by
  have hheader : Oversized ⟨0x30, 6, 32⟩ [0x30, 0x84, 0x00, 0x00, 0x00, 0x20] 16 :=
    ⟨rfl, rfl, by decide⟩
  have hpeels : Peels 16
      [[0x30, 0x02, 0x05, 0x00, 0x30, 0x84], [0x00, 0x00, 0x00, 0x20]].flatten
      [[0x30, 0x02, 0x05, 0x00]] ([0x30, 0x84, 0x00, 0x00, 0x00, 0x20] ++ []) :=
    .cut (n := 4) rfl .whole
  have hbounded :=
    bounded_feedAll 16 [[0x30, 0x02, 0x05, 0x00, 0x30, 0x84], [0x00, 0x00, 0x00, 0x20]]
  obtain ⟨-, hrun⟩ := (hbounded.2.2 _ _ hheader).2 []
  obtain ⟨-, herror, -⟩ := hrun _ hpeels []
  exact ⟨⟨hheader, hpeels⟩, herror⟩

/-- Five octets of a header wait under the smallest limit of all. -/
example : (feedAll 1 [[0x30, 0x84], [0x00, 0x00, 0x00]]).rest.buffered = 5 := by decide +kernel

end Splitter

end Directory
