import Mathlib.Data.List.Induction
import Directory.Framing
import Directory.Proofs.Ber.Element

/-!
# Where the chunks of a stream end makes no difference

A stream arrives in chunks, and after each of them the envelopes that are complete are cut off. The
theory is kept on the octets alone: `Peels` says that envelopes were cut off the front, and `Falls` how
a run of octets falls into envelopes, why no more can be cut, and what is left. It has one answer
(`Falls.unique`), and the answer for a longer run is found by going on from what was left of a shorter
one (`Falls.append`), because the size of an envelope that is decided at all is not changed by further
octets (`envelopeSize_append`). Feeding chunks computes that answer for their concatenation
(`falls_feedAll`), and everything else follows.
-/

namespace Directory

/-- The size of an envelope, or its refusal, does not hang on what follows. -/
theorem declaredSize_append {bytes : Octets} {limit : Nat}
    (hne : declaredSize bytes limit ≠ .ok none) (more : Octets) :
    declaredSize (bytes ++ more) limit = declaredSize bytes limit := by
  have hread : Ber.Header.read bytes ≠ .ok none := by
    intro hread
    rw [declaredSize, hread] at hne
    exact hne rfl
  rw [declaredSize, declaredSize, Ber.Header.read_append rfl hread more]

/-- **A decision stands.** An envelope that is complete, and one that is refused, are so whatever
follows. -/
theorem envelopeSize_append {bytes : Octets} {limit : Nat}
    (hne : envelopeSize bytes limit ≠ .ok none) (more : Octets) :
    envelopeSize (bytes ++ more) limit = envelopeSize bytes limit := by
  have hdeclared : declaredSize bytes limit ≠ .ok none := by
    intro hdeclared
    rw [envelopeSize, hdeclared] at hne
    exact hne rfl
  have hmore := declaredSize_append hdeclared more
  unfold envelopeSize at hne ⊢
  rw [hmore]
  split
  · rfl
  · rfl
  · rename_i n hn
    rw [hn] at hne
    dsimp only at hne ⊢
    by_cases hlen : (bytes.take n).length < n
    · rw [if_pos hlen] at hne
      exact absurd rfl hne
    · have hle : n ≤ bytes.length := by
        rw [List.length_take] at hlen
        omega
      rw [List.take_append_of_le_length hle]

theorem read_of_declaredSize {bytes : Octets} {limit n : Nat}
    (h : declaredSize bytes limit = .ok (some n)) :
    ∃ header, Ber.Header.read bytes = .ok (some header) ∧ header.tag = Ber.Tag.sequence ∧
      header.totalSize = n ∧ n ≤ limit := by
  unfold declaredSize at h
  split at h
  · cases h
  · cases h
  · rename_i header hread
    split at h
    · cases h
    · rename_i htag
      split at h
      · cases h
      · rename_i hlimit
        cases h
        exact ⟨header, hread, Decidable.not_not.mp htag, rfl, Nat.le_of_not_lt hlimit⟩

/-- An envelope that is complete is as long as it is declared. -/
theorem declaredSize_of_envelopeSize {bytes : Octets} {limit n : Nat}
    (h : envelopeSize bytes limit = .ok (some n)) : declaredSize bytes limit = .ok (some n) := by
  unfold envelopeSize at h
  split at h
  · cases h
  · cases h
  · rename_i m hm
    split at h
    · cases h
    · cases h
      exact hm

/-- What is declared is at least the header that declares it, and stands in the header. -/
theorem declaredSize_take_self {bytes : Octets} {limit n : Nat}
    (h : declaredSize bytes limit = .ok (some n)) :
    declaredSize (bytes.take n) limit = .ok (some n) := by
  obtain ⟨header, hread, -, hsize, -⟩ := read_of_declaredSize h
  have hle : header.size ≤ n := by
    rw [← hsize, Ber.Header.totalSize]
    exact Nat.le_add_right _ _
  have hfront : (bytes.take n).take header.size = bytes.take header.size := by
    rw [List.take_take, Nat.min_eq_left hle]
  have htake := Ber.Header.read_append (Ber.Header.read_take_size hread) (by simp)
    ((bytes.take n).drop header.size)
  rw [← hfront, List.take_append_drop] at htake
  rw [declaredSize, htake, ← h, declaredSize, hread]

/-- An envelope that is complete is one by itself, of all of its octets. -/
theorem envelopeSize_take {bytes : Octets} {limit n : Nat}
    (h : envelopeSize bytes limit = .ok (some n)) :
    envelopeSize (bytes.take n) limit = .ok (some (bytes.take n).length) := by
  have hlen : (bytes.take n).length = n := List.length_take_of_le (envelopeSize_bounds h).2
  rw [envelopeSize, declaredSize_take_self (declaredSize_of_envelopeSize h)]
  dsimp only
  rw [List.take_take, Nat.min_self, if_neg (by omega), hlen]

theorem envelopeSize_element {content : Octets} {limit : Nat} (h : Ber.Short content)
    (hlimit : (Ber.element Ber.Tag.sequence content).length ≤ limit) :
    envelopeSize (Ber.element Ber.Tag.sequence content) limit =
      .ok (some (Ber.element Ber.Tag.sequence content).length) := by
  have hdeclared : declaredSize (Ber.element Ber.Tag.sequence content) limit =
      .ok (some (Ber.element Ber.Tag.sequence content).length) := by
    rw [Ber.length_element] at hlimit ⊢
    rw [declaredSize, Ber.element, Ber.Header.read_lengthOctets rfl h]
    simp [Ber.Header.totalSize, Nat.not_lt.mpr hlimit]
  rw [envelopeSize, hdeclared]
  dsimp only
  rw [List.take_length, if_neg (Nat.lt_irrefl _)]

/-- Envelopes that were cut off the front of a run of octets, and what is left behind them. -/
inductive Peels (limit : Nat) : Octets → List Octets → Octets → Prop
  | whole {bytes : Octets} : Peels limit bytes [] bytes
  | cut {bytes left : Octets} {n : Nat} {frames : List Octets} :
      envelopeSize bytes limit = .ok (some n) →
      Peels limit (bytes.drop n) frames left →
      Peels limit bytes (bytes.take n :: frames) left

namespace Peels

variable {limit : Nat} {bytes left : Octets} {frames : List Octets}

theorem concat {n : Nat} (h : Peels limit bytes frames left)
    (hsize : envelopeSize left limit = .ok (some n)) :
    Peels limit bytes (frames ++ [left.take n]) (left.drop n) := by
  induction h with
  | whole => exact .cut hsize .whole
  | cut hcut _ ih => exact .cut hcut (ih hsize)

theorem append (h : Peels limit bytes frames left) (more : Octets) :
    Peels limit (bytes ++ more) frames (left ++ more) := by
  induction h with
  | whole => exact .whole
  | @cut bytes left n frames hsize _ ih =>
      have hle := (envelopeSize_bounds hsize).2
      have hsize' : envelopeSize (bytes ++ more) limit = .ok (some n) := by
        rw [envelopeSize_append (by rw [hsize]; simp) more, hsize]
      have hcut := Peels.cut hsize' (by rw [List.drop_append_of_le_length hle]; exact ih)
      rw [List.take_append_of_le_length hle] at hcut
      exact hcut

end Peels

/-- How a run of octets falls into envelopes: those that are complete in order, why no more can be
cut off, if the next one is refused, and the octets that are left. -/
inductive Falls (limit : Nat) : Octets → List Octets → Option StreamError → Octets → Prop
  | waits {bytes : Octets} :
      envelopeSize bytes limit = .ok none → Falls limit bytes [] none bytes
  | refused {bytes : Octets} {cause : WireError} :
      envelopeSize bytes limit = .error cause →
      Falls limit bytes [] (some (.protocol cause)) bytes
  | cuts {bytes left : Octets} {n : Nat} {frames : List Octets} {error : Option StreamError} :
      envelopeSize bytes limit = .ok (some n) →
      Falls limit (bytes.drop n) frames error left →
      Falls limit bytes (bytes.take n :: frames) error left

namespace Falls

variable {limit : Nat} {bytes left left' : Octets} {frames frames' : List Octets}
  {error error' : Option StreamError}

theorem unique (h : Falls limit bytes frames error left)
    (h' : Falls limit bytes frames' error' left') :
    frames = frames' ∧ error = error' ∧ left = left' := by
  induction h generalizing frames' error' left' with
  | waits hsize =>
      cases h' with
      | waits => exact ⟨rfl, rfl, rfl⟩
      | refused hsize' => rw [hsize] at hsize'; cases hsize'
      | cuts hsize' => rw [hsize] at hsize'; cases hsize'
  | refused hsize =>
      cases h' with
      | waits hsize' => rw [hsize] at hsize'; cases hsize'
      | refused hsize' =>
          rw [hsize] at hsize'
          cases hsize'
          exact ⟨rfl, rfl, rfl⟩
      | cuts hsize' => rw [hsize] at hsize'; cases hsize'
  | cuts hsize _ ih =>
      cases h' with
      | waits hsize' => rw [hsize] at hsize'; cases hsize'
      | refused hsize' => rw [hsize] at hsize'; cases hsize'
      | cuts hsize' hrest =>
          rw [hsize] at hsize'
          cases hsize'
          obtain ⟨rfl, rfl, rfl⟩ := ih hrest
          exact ⟨rfl, rfl, rfl⟩

theorem peels (h : Falls limit bytes frames error left) : Peels limit bytes frames left := by
  induction h with
  | waits => exact .whole
  | refused => exact .whole
  | cuts hsize _ ih => exact .cut hsize ih

theorem of_peels (h : Peels limit bytes frames left)
    (hleft : Falls limit left frames' error left') :
    Falls limit bytes (frames ++ frames') error left' := by
  induction h with
  | whole => exact hleft
  | cut hsize _ ih => exact .cuts hsize (ih hleft)

/-- **Cutting goes on where it stopped.** It makes no difference whether further octets are there from
the beginning or come when everything that was complete is cut off. -/
theorem append {more : Octets} (h : Falls limit bytes frames error left)
    (hmore : Falls limit (left ++ more) frames' error' left') :
    Falls limit (bytes ++ more) (frames ++ frames') error' left' :=
  .of_peels (h.peels.append more) hmore

theorem flatten_append (h : Falls limit bytes frames error left) :
    frames.flatten ++ left = bytes := by
  induction h with
  | waits => rfl
  | refused => rfl
  | cuts _ _ ih => rw [List.flatten_cons, List.append_assoc, ih, List.take_append_drop]

theorem envelopeSize_of_mem (h : Falls limit bytes frames error left) :
    ∀ frame ∈ frames, envelopeSize frame limit = .ok (some frame.length) := by
  induction h with
  | waits => simp
  | refused => simp
  | @cuts bytes left n frames error hsize _ ih =>
      intro frame hmem
      rcases List.mem_cons.mp hmem with rfl | hmem
      · exact envelopeSize_take hsize
      · exact ih frame hmem

theorem stuck (h : Falls limit bytes frames error left) :
    Falls limit left [] error left := by
  induction h with
  | waits hsize => exact .waits hsize
  | refused hsize => exact .refused hsize
  | cuts _ _ ih => exact ih

/-- A run that begins with octets that are refused is refused for the same cause, and left as it
is. -/
theorem append_of_refused {cause : StreamError} (h : Falls limit bytes frames (some cause) left)
    (more : Octets) : Falls limit (left ++ more) [] (some cause) (left ++ more) := by
  cases h.stuck with
  | refused hsize =>
      refine .refused ?_
      rw [envelopeSize_append (by rw [hsize]; simp) more, hsize]

/-- Envelopes one behind the other fall into just these envelopes, and nothing is left. -/
theorem of_flatten (h : ∀ frame ∈ frames, envelopeSize frame limit = .ok (some frame.length)) :
    Falls limit frames.flatten frames none [] := by
  induction frames with
  | nil => exact .waits rfl
  | cons frame rest ih =>
      have hframe := h frame List.mem_cons_self
      have hsize : envelopeSize (frame ++ rest.flatten) limit = .ok (some frame.length) := by
        rw [envelopeSize_append (by rw [hframe]; simp), hframe]
      have hrest := ih fun f hf => h f (List.mem_cons_of_mem frame hf)
      have hcut := Falls.cuts hsize (by rw [List.drop_left]; exact hrest)
      rw [List.take_left] at hcut
      exact hcut

end Falls

namespace Splitter

/-! ## One round of cutting -/

@[simp] theorem limit_receive (s : Splitter) (chunk : Octets) :
    (s.receive chunk).limit = s.limit := rfl

/-- What is cut off next hangs on the octets that are not yet cut and on nothing else. -/
theorem next_eq (s : Splitter) :
    s.next =
      match envelopeSize s.pending s.limit with
      | .error cause => .error cause
      | .ok none => .ok none
      | .ok (some n) => .ok (some (s.pending.take n, s.drop n)) := by
  rw [next, nextSize_eq]
  cases envelopeSize s.pending s.limit with
  | error cause => rfl
  | ok answer =>
      cases answer with
      | none => rfl
      | some n =>
          dsimp only
          rw [Backlog.ahead_eq_take]
          rfl

theorem drain_of_refused {s : Splitter} {cause : WireError} (h : s.next = .error cause) :
    s.drain = ⟨[], some (.protocol cause), s⟩ := by
  rw [drain]
  split <;> simp_all

theorem drain_of_waiting {s : Splitter} (h : s.next = .ok none) : s.drain = ⟨[], none, s⟩ := by
  rw [drain]
  split <;> simp_all

theorem drain_of_cut {s s' : Splitter} {frame : Octets} (h : s.next = .ok (some (frame, s'))) :
    s.drain = { s'.drain with frames := frame :: s'.drain.frames } := by
  rw [drain]
  split <;> simp_all

theorem size_of_next {s s' : Splitter} {frame : Octets} (h : s.next = .ok (some (frame, s'))) :
    ∃ n, envelopeSize s.pending s.limit = .ok (some n) ∧ s.pending.take n = frame ∧
      s.drop n = s' := by
  rw [next_eq] at h
  split at h <;> simp_all

/-- A round of cutting as a loop that gives up after a number of calls. -/
def drainWithin : Nat → Splitter → Option Cut
  | 0, _ => none
  | calls + 1, s =>
      match s.next with
      | .error cause => some ⟨[], some (.protocol cause), s⟩
      | .ok none => some ⟨[], none, s⟩
      | .ok (some (frame, s')) =>
          (drainWithin calls s').map fun c => { c with frames := frame :: c.frames }

/-- **A round of cutting ends.** Every call but the last takes two octets at least. -/
theorem drainWithin_eq (s : Splitter) (calls : Nat) (h : s.buffered / 2 < calls) :
    s.drainWithin calls = some s.drain := by
  induction calls generalizing s with
  | zero => exact absurd h (Nat.not_lt_zero _)
  | succ calls ih =>
      rw [drainWithin]
      split
      · rename_i hnext
        rw [drain_of_refused hnext]
      · rename_i hnext
        rw [drain_of_waiting hnext]
      · rename_i frame s' hnext
        -- The cut has taken two octets at least, so one call fewer is enough for the rest.
        have hshort : s'.buffered / 2 < calls := by
          obtain ⟨n, hsize, -, rfl⟩ := size_of_next hnext
          have hbounds := envelopeSize_bounds hsize
          rw [length_pending] at hbounds
          rw [buffered_drop]
          omega
        rw [ih s' hshort, drain_of_cut hnext]
        rfl

theorem falls_drain (s : Splitter) :
    s.drain.rest.limit = s.limit ∧
      Falls s.limit s.pending s.drain.frames s.drain.error s.drain.rest.pending := by
  induction s using drain.induct with
  | case1 s cause hnext =>
      rw [drain_of_refused hnext]
      refine ⟨rfl, .refused ?_⟩
      rw [next_eq] at hnext
      split at hnext <;> simp_all
  | case2 s hnext =>
      rw [drain_of_waiting hnext]
      refine ⟨rfl, .waits ?_⟩
      rw [next_eq] at hnext
      split at hnext <;> simp_all
  | case3 s frame s' hnext ih =>
      rw [drain_of_cut hnext]
      obtain ⟨n, hsize, rfl, rfl⟩ := size_of_next hnext
      obtain ⟨hlimit, hfalls⟩ := ih
      rw [pending_drop] at hfalls
      exact ⟨hlimit, .cuts hsize hfalls⟩

/-! ## Chunk after chunk -/

def Cut.feed (c : Cut) (chunk : Octets) : Cut :=
  let d := c.rest.feed chunk
  { d with frames := c.frames ++ d.frames }

def feedAll (limit : Nat) (chunks : List Octets) : Cut :=
  chunks.foldl Cut.feed ⟨[], none, { limit }⟩

theorem feedAll_concat (limit : Nat) (chunks : List Octets) (chunk : Octets) :
    feedAll limit (chunks ++ [chunk]) = (feedAll limit chunks).feed chunk := by
  rw [feedAll, List.foldl_append]
  rfl

/-- **Feeding chunks computes how their concatenation falls into envelopes.** -/
theorem falls_feedAll (limit : Nat) (chunks : List Octets) :
    (feedAll limit chunks).rest.limit = limit ∧
      Falls limit chunks.flatten (feedAll limit chunks).frames (feedAll limit chunks).error
        (feedAll limit chunks).rest.pending := by
  -- By the last chunk, which is put behind what the earlier ones have left.
  induction chunks using List.reverseRecOn with
  | nil => exact ⟨rfl, .waits rfl⟩
  | append_singleton chunks chunk ih =>
      obtain ⟨hlimit, hfalls⟩ := ih
      obtain ⟨hlimit', hfalls'⟩ := falls_drain ((feedAll limit chunks).rest.receive chunk)
      rw [limit_receive, hlimit] at hlimit' hfalls'
      rw [pending_receive] at hfalls'
      rw [feedAll_concat, List.flatten_append, List.flatten_singleton]
      exact ⟨hlimit', hfalls.append hfalls'⟩

/-- The stream may end where nothing is left and nothing is refused. -/
theorem error_finish_eq_none_iff (s : Splitter) :
    s.finish.error = none ↔ s.drain.error = none ∧ s.drain.rest.pending = [] := by
  have hempty : s.drain.rest.buffered = 0 ↔ s.drain.rest.pending = [] := by
    rw [← length_pending, List.length_eq_zero_iff]
  unfold finish
  dsimp only
  split
  · rename_i herror
    simp [herror]
  · rename_i herror
    split
    · rename_i hbuffered
      simp [herror, hempty.mp hbuffered]
    · rename_i hbuffered
      simp [mt hempty.mpr hbuffered]

/-- The stream may end exactly after envelopes that are complete. -/
theorem error_finish_feedAll_eq_none_iff (limit : Nat) (chunks : List Octets) :
    (feedAll limit chunks).rest.finish.error = none ↔
      ∃ envelopes : List Octets, chunks.flatten = envelopes.flatten ∧
        ∀ envelope ∈ envelopes, envelopeSize envelope limit = .ok (some envelope.length) := by
  obtain ⟨hlimit, hfalls⟩ := falls_feedAll limit chunks
  obtain ⟨-, hdrain⟩ := falls_drain (feedAll limit chunks).rest
  rw [hlimit] at hdrain
  obtain ⟨hframes, herror, hpending⟩ := hfalls.stuck.unique hdrain
  rw [error_finish_eq_none_iff, ← herror, ← hpending]
  constructor
  · rintro ⟨-, hleft⟩
    refine ⟨(feedAll limit chunks).frames, ?_, hfalls.envelopeSize_of_mem⟩
    rw [← hfalls.flatten_append, hleft, List.append_nil]
  · rintro ⟨envelopes, hflatten, haccepted⟩
    rw [hflatten] at hfalls
    obtain ⟨-, herror', hleft⟩ := hfalls.unique (Falls.of_flatten haccepted)
    exact ⟨herror', hleft⟩

/-- Once octets were refused, every later chunk is only put behind them. -/
theorem feed_feedAll_of_refused {limit : Nat} {chunks : List Octets} {cause : StreamError}
    (h : (feedAll limit chunks).error = some cause) (later : List Octets) (chunk : Octets) :
    let c := feedAll limit (chunks ++ later)
    (c.rest.feed chunk).frames = [] ∧ (c.rest.feed chunk).error = some cause ∧
      (c.rest.feed chunk).rest.pending = c.rest.pending ++ chunk := by
  obtain ⟨-, hfalls⟩ := falls_feedAll limit chunks
  obtain ⟨hlimit, hlater⟩ := falls_feedAll limit (chunks ++ later)
  rw [h] at hfalls
  rw [List.flatten_append] at hlater
  obtain ⟨-, herror, -⟩ := hlater.unique (hfalls.append (hfalls.append_of_refused later.flatten))
  rw [herror] at hlater
  obtain ⟨-, hfeed⟩ := falls_drain ((feedAll limit (chunks ++ later)).rest.receive chunk)
  rw [limit_receive, hlimit, pending_receive] at hfeed
  obtain ⟨hframes, herror, hpending⟩ := hfeed.unique (hlater.append_of_refused chunk)
  exact ⟨hframes, herror, hpending⟩

/-- **Where the chunks end makes no difference.** Two ways of cutting a stream into chunks give the
same envelopes, leave the same octets and end with the same refusal or with none. The envelopes and
what is left are the stream itself, and every round of cutting ends. A refusal is to be seen at the
front of what is left, of which it has taken nothing, and every later chunk meets the same one. The
stream may end exactly where it is made of complete envelopes that are accepted. -/
theorem feedAll_eq_of_flatten_eq (limit : Nat) (chunks others : List Octets)
    (h : chunks.flatten = others.flatten) :
    let c := feedAll limit chunks
    let d := feedAll limit others
    (c.frames = d.frames ∧ c.rest.pending = d.rest.pending ∧ c.error = d.error) ∧
    c.frames.flatten ++ c.rest.pending = chunks.flatten ∧
    (∀ s : Splitter, s.drainWithin (s.buffered / 2 + 1) = some s.drain) ∧
    (∀ cause, c.error = some cause →
      (∃ refusal, cause = .protocol refusal ∧
        envelopeSize c.rest.pending limit = .error refusal) ∧
      ∀ later chunk,
        let e := feedAll limit (chunks ++ later)
        (e.rest.feed chunk).frames = [] ∧ (e.rest.feed chunk).error = some cause ∧
          (e.rest.feed chunk).rest.pending = e.rest.pending ++ chunk) ∧
    (c.rest.finish.error = none ↔
      ∃ envelopes : List Octets, chunks.flatten = envelopes.flatten ∧
        ∀ envelope ∈ envelopes, envelopeSize envelope limit = .ok (some envelope.length)) := by
  obtain ⟨-, hfalls⟩ := falls_feedAll limit chunks
  obtain ⟨-, hothers⟩ := falls_feedAll limit others
  rw [← h] at hothers
  obtain ⟨hframes, herror, hpending⟩ := hfalls.unique hothers
  refine ⟨⟨hframes, hpending, herror⟩, hfalls.flatten_append, ?_, ?_,
    error_finish_feedAll_eq_none_iff limit chunks⟩
  · intro s
    exact drainWithin_eq s _ (Nat.lt_succ_self _)
  · intro cause hcause
    refine ⟨?_, feed_feedAll_of_refused hcause⟩
    rw [hcause] at hfalls
    cases hfalls.stuck with
    | refused hsize => exact ⟨_, rfl, hsize⟩

/-- Cuts within a header, within a body and between two envelopes, of which the second is refused. -/
theorem feedAll_eq_whole :
    [[0x30], [0x02, 0x05], [], [0x00], [0x04, 0x00]].flatten =
        [([0x30, 0x02, 0x05, 0x00, 0x04, 0x00] : Octets)].flatten ∧
      (feedAll 16 [[0x30], [0x02, 0x05], [], [0x00], [0x04, 0x00]]).frames =
        (feedAll 16 [[0x30, 0x02, 0x05, 0x00, 0x04, 0x00]]).frames :=
  ⟨rfl, (feedAll_eq_of_flatten_eq 16 [[0x30], [0x02, 0x05], [], [0x00], [0x04, 0x00]]
    [[0x30, 0x02, 0x05, 0x00, 0x04, 0x00]] rfl).1.1⟩

end Splitter

end Directory
