import Directory.Backlog
import Directory.Ber.Header

/-!
# Cutting a stream into envelopes

Every envelope is one sequence, and its length octets say where it ends, so a stream of octets
falls into envelopes without any other mark. `envelopeSize` looks at the front of what has arrived.
A `Splitter` holds what has arrived and is not yet cut; feeding it a chunk cuts off every envelope
that is now complete. It looks at no more octets than it has to, and still cuts where `envelopeSize`
says (`Splitter.nextSize_eq`): where the chunks ended makes no difference.

An envelope that is refused stays where it stands: there is no way to find the next boundary, so
the splitter reports the same refusal for ever after.
-/

namespace Directory

/-- The largest envelope accepted unless it is configured otherwise: ten mebibytes. -/
def defaultMaxMessageSize : Nat := 10 * 1024 * 1024

/-- How many octets the envelope at the front has, as its header declares; `none` while the header
is incomplete. A sequence whose declared size exceeds the limit is refused as soon as its header is
complete. -/
def declaredSize (bytes : Octets) (limit : Nat) : Except WireError (Option Nat) :=
  match Ber.Header.read bytes with
  | .error e => .error e
  | .ok none => .ok none
  | .ok (some h) =>
      if h.tag ≠ Ber.Tag.sequence then .error (.notAnEnvelope h.tag)
      else if limit < h.totalSize then .error (.frameTooLarge h.totalSize limit)
      else .ok (some h.totalSize)

theorem declaredSize_take (bytes : Octets) (limit : Nat) :
    declaredSize (bytes.take Ber.Header.maxSize) limit = declaredSize bytes limit := by
  rw [declaredSize, declaredSize, Ber.Header.read_take]

theorem two_le_of_declaredSize {bytes : Octets} {limit n : Nat}
    (h : declaredSize bytes limit = .ok (some n)) : 2 ≤ n := by
  unfold declaredSize at h
  split at h
  · simp at h
  · simp at h
  · rename_i hd hr
    have := Ber.Header.two_le_size hr
    split at h
    · simp at h
    · split at h
      · simp at h
      · injection h with h
        injection h with h
        subst h
        unfold Ber.Header.totalSize
        omega

/-- How many octets at the front form the next envelope; `none` while it is incomplete. -/
def envelopeSize (bytes : Octets) (limit : Nat) : Except WireError (Option Nat) :=
  match declaredSize bytes limit with
  | .error e => .error e
  | .ok none => .ok none
  | .ok (some n) => if (bytes.take n).length < n then .ok none else .ok (some n)

theorem envelopeSize_bounds {bytes : Octets} {limit n : Nat}
    (h : envelopeSize bytes limit = .ok (some n)) : 2 ≤ n ∧ n ≤ bytes.length := by
  unfold envelopeSize at h
  split at h
  · simp at h
  · simp at h
  · rename_i m hm
    have := two_le_of_declaredSize hm
    split at h
    · simp at h
    · rename_i hlen
      injection h with h
      injection h with h
      subst h
      rw [List.length_take] at hlen
      omega

inductive StreamError where
  | protocol (cause : WireError)
  /-- The stream has ended inside an envelope. -/
  | cutShort
  deriving DecidableEq, Repr

namespace StreamError

def message : StreamError → String
  | protocol cause => "protocol error: " ++ cause.message
  | cutShort => "I/O error: bytes remaining on stream"

end StreamError

structure Splitter where
  limit : Nat
  backlog : Backlog := .empty
  deriving DecidableEq, Repr

namespace Splitter

def pending (s : Splitter) : Octets := s.backlog.toOctets

def buffered (s : Splitter) : Nat := s.backlog.size

theorem length_pending (s : Splitter) : s.pending.length = s.buffered := s.backlog.length_toOctets

/-- Octets arrive. What may be a header is brought to the front, where it is looked for. -/
def receive (s : Splitter) (chunk : Octets) : Splitter :=
  { s with backlog := (s.backlog.push chunk).reach Ber.Header.maxSize }

@[simp] theorem pending_receive (s : Splitter) (chunk : Octets) :
    (s.receive chunk).pending = s.pending ++ chunk := by
  simp [receive, pending]

def drop (s : Splitter) (n : Nat) : Splitter :=
  { s with backlog := (s.backlog.drop n).reach Ber.Header.maxSize }

@[simp] theorem pending_drop (s : Splitter) (n : Nat) :
    (s.drop n).pending = s.pending.drop n := by
  simp [drop, pending]

@[simp] theorem buffered_drop (s : Splitter) (n : Nat) : (s.drop n).buffered = s.buffered - n := by
  simp [drop, buffered]

def nextSize (s : Splitter) : Except WireError (Option Nat) :=
  match declaredSize (s.backlog.ahead Ber.Header.maxSize) s.limit with
  | .error e => .error e
  | .ok none => .ok none
  | .ok (some n) => if s.buffered < n then .ok none else .ok (some n)

/-- Nothing but the octets that are not yet cut decides where the next envelope ends. -/
theorem nextSize_eq (s : Splitter) : s.nextSize = envelopeSize s.pending s.limit := by
  have hlen (n : Nat) : (s.pending.take n).length < n ↔ s.buffered < n := by
    rw [List.length_take, length_pending]
    omega
  simp only [nextSize, envelopeSize, hlen]
  rw [Backlog.ahead_eq_take, declaredSize_take, pending]

/-- Cuts the next envelope off the front; `none` while it is incomplete. -/
def next (s : Splitter) : Except WireError (Option (Octets × Splitter)) :=
  match s.nextSize with
  | .error e => .error e
  | .ok none => .ok none
  | .ok (some n) => .ok (some (s.backlog.ahead n, s.drop n))

def isWaiting (s : Splitter) : Bool :=
  match s.nextSize with
  | .ok none => true
  | _ => false

/-- Nothing is lost or made up at a cut: the envelope comes off the front, and the rest stays. -/
theorem pending_of_next {s s' : Splitter} {frame : Octets}
    (h : s.next = .ok (some (frame, s'))) : frame ++ s'.pending = s.pending := by
  unfold next at h
  split at h
  · simp at h
  · simp at h
  · injection h with h
    injection h with h
    injection h with hframe hrest
    subst hframe hrest
    rw [pending_drop, Backlog.ahead_eq_take, ← pending, List.take_append_drop]

theorem buffered_lt_of_next {s s' : Splitter} {frame : Octets}
    (h : s.next = .ok (some (frame, s'))) : s'.buffered < s.buffered := by
  unfold next at h
  split at h
  · simp at h
  · simp at h
  · rename_i n hn
    rw [nextSize_eq] at hn
    have := envelopeSize_bounds hn
    rw [length_pending] at this
    injection h with h
    injection h with h
    injection h with _ h
    subst h
    rw [buffered_drop]
    omega

/-- What a round of cutting gives: the envelopes in order, why it could not go on, if it was
refused, and what is left. -/
structure Cut where
  frames : List Octets
  error : Option StreamError
  rest : Splitter
  deriving DecidableEq, Repr

def drain (s : Splitter) : Cut :=
  match _h : s.next with
  | .error e => ⟨[], some (.protocol e), s⟩
  | .ok none => ⟨[], none, s⟩
  | .ok (some (frame, s')) =>
      let more := drain s'
      { more with frames := frame :: more.frames }
termination_by s.buffered
decreasing_by exact buffered_lt_of_next _h

def feed (s : Splitter) (chunk : Octets) : Cut :=
  (s.receive chunk).drain

/-- The stream has ended: what is complete is cut off, and whatever is left is an error. -/
def finish (s : Splitter) : Cut :=
  let c := s.drain
  match c.error with
  | some _ => c
  | none => if c.rest.buffered = 0 then c else { c with error := some .cutShort }

end Splitter

end Directory
