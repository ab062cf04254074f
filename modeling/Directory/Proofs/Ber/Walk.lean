import Directory.Proofs.Ber.Element

/-!
# Walking over elements

A reader stands at the beginning of an element, and every call either takes that element, all of it,
or leaves it where it is. `Consumes` says so for a call that wants an element: octets that do not
begin with a whole one are refused and stay, and a whole one has been taken even if it is then found to
be the wrong one. Only an optional element may also be passed over.

So after any calls whatsoever the reader stands behind some number of elements (`Takes`), and reading
one element after the other is a loop that ends (`walkWithin`) and gives back what was written.
-/

namespace Directory

namespace WireError

/-- The octets do not begin with a whole element: the header is refused, or too little is there. -/
def isRefusal : WireError → Bool
  | truncated => true
  | highTagNumber _ => true
  | indefiniteLength => true
  | lengthTooLong _ => true
  | _ => false

/-- A whole element is there, but not the one that was asked for: its tag is another one, or its
content cannot be used. -/
def isMisfit : WireError → Bool
  | unexpectedTag _ _ => true
  | invalidInteger => true
  | malformedPayload _ => true
  | invalidUtf8 => true
  | _ => false

theorem isRefusal_of_isMisfit {e : WireError} (h : e.isMisfit = true) : e.isRefusal = false := by
  cases e <;> first | rfl | cases h

end WireError

namespace Ber

namespace Header

theorem isRefusal_of_readLength {bytes : Octets} {e : WireError}
    (h : readLength bytes = .error e) : e.isRefusal = true := by
  unfold readLength at h
  split at h
  · cases h
  · dsimp only at h
    split at h
    · cases h
    · split at h
      · cases h
        rfl
      · split at h
        · cases h
          rfl
        · split at h
          · cases h
          · cases h

theorem isRefusal_of_read {bytes : Octets} {e : WireError} (h : read bytes = .error e) :
    e.isRefusal = true := by
  unfold read at h
  split at h
  · cases h
  · split at h
    · cases h
      rfl
    · split at h
      · rename_i hlength
        cases h
        exact isRefusal_of_readLength hlength
      · cases h
      · cases h

end Header

namespace Reader

/-- A whole element stands at the front: its header, and all of the content that it announces. -/
def Begins (bytes : Octets) (h : Header) : Prop :=
  Header.read bytes = .ok (some h) ∧ h.totalSize ≤ bytes.length

theorem isRefusal_of_split {bytes : Octets} {e : WireError} (h : split bytes = .error e) :
    e.isRefusal = true := by
  unfold split at h
  split at h
  · rename_i hread
    cases h
    exact Header.isRefusal_of_read hread
  · cases h
    rfl
  · dsimp only at h
    split at h
    · cases h
      rfl
    · cases h

theorem begins_of_split {bytes content rest : Octets} {tag : UInt8}
    (h : split bytes = .ok (tag, content, rest)) :
    ∃ header, Begins bytes header ∧ rest = bytes.drop header.totalSize := by
  unfold split at h
  split at h
  · cases h
  · cases h
  · rename_i header hread
    dsimp only at h
    split at h
    · cases h
    · rename_i hall
      cases h
      rw [List.length_take, List.length_drop] at hall
      have hsize := (Header.read_bounds hread).1
      refine ⟨header, ⟨hread, ?_⟩, ?_⟩
      · rw [Header.totalSize]
        omega
      · rw [Header.totalSize, List.drop_drop]

theorem split_of_begins {bytes : Octets} {header : Header} (h : Begins bytes header) :
    ∃ content, split bytes = .ok (header.tag, content, bytes.drop header.totalSize) := by
  obtain ⟨hread, hall⟩ := h
  rw [Header.totalSize] at hall
  have hcontent : ¬((bytes.drop header.size).take header.contentSize).length <
      header.contentSize := by
    rw [List.length_take, List.length_drop]
    omega
  refine ⟨(bytes.drop header.size).take header.contentSize, ?_⟩
  rw [split, hread]
  dsimp only
  rw [if_neg hcontent, List.drop_drop, Header.totalSize]

theorem length_lt_of_split {bytes content rest : Octets} {tag : UInt8}
    (h : split bytes = .ok (tag, content, rest)) : rest.length + 2 ≤ bytes.length := by
  obtain ⟨header, rfl, htwo, -⟩ := append_of_split h
  rw [List.length_append, List.length_append]
  omega

/-! ## One call -/

section Consumes

variable {α : Type} {bytes : Octets}

inductive Consumes (bytes : Octets) : Except WireError α × Octets → Prop
  /-- There is no whole element, and nothing is taken. -/
  | refused {e : WireError} : split bytes = .error e → Consumes bytes (.error e, bytes)
  /-- The element is taken, and may turn out to be a misfit. -/
  | taken {tag : UInt8} {content rest : Octets} {answer : Except WireError α} :
      split bytes = .ok (tag, content, rest) →
      (∀ e, answer = .error e → e.isMisfit = true) → Consumes bytes (answer, rest)

theorem on_element_of_error {e : WireError} (h : split bytes = .error e) :
    element.on bytes = (.error e, bytes) := by
  dsimp only [element, on, ExceptT.run, StateT.run]
  rw [h]

theorem consumes_element (bytes : Octets) : Consumes bytes (element.on bytes) := by
  cases hsplit : split bytes with
  | error e =>
      rw [on_element_of_error hsplit]
      exact .refused hsplit
  | ok parts =>
      obtain ⟨tag, content, rest⟩ := parts
      rw [on_element_eq_ok.mpr hsplit]
      exact .taken hsplit (by simp)

/-- What is done with an element once it is taken does not change how much was taken. -/
theorem Consumes.bind_lift {β : Type} {r : Reader α} {f : α → Except WireError β}
    (h : Consumes bytes (r.on bytes)) (hf : ∀ a e, f a = .error e → e.isMisfit = true) :
    Consumes bytes ((r >>= fun a => lift (f a)).on bytes) := by
  rw [on_bind]
  generalize r.on bytes = outcome at h
  cases h with
  | refused hsplit => exact .refused hsplit
  | @taken tag content rest answer hsplit hmisfit =>
      cases answer with
      | error e =>
          exact .taken hsplit fun e' he => hmisfit e' (by cases he; rfl)
      | ok a => exact .taken hsplit (hf a)

theorem consumes_expect (tag : UInt8) (bytes : Octets) : Consumes bytes ((expect tag).on bytes) := by
  have hexpect : expect tag = element >>= fun found =>
      lift (if found.1 = tag then .ok found.2 else .error (.unexpectedTag tag found.1)) := by
    rw [expect]
    congr 1
    funext found
    dsimp only
    split <;> rfl
  rw [hexpect]
  refine (consumes_element bytes).bind_lift ?_
  intro found e he
  split at he
  · cases he
  · cases he
    rfl

theorem consumes_optional {tag : UInt8} (h : bytes.head? = some tag) :
    Consumes bytes ((optional tag).on bytes) := by
  have hon : (optional tag).on bytes =
      (expect tag >>= fun content => lift (.ok (some content))).on bytes := by
    show (ite _ _ _ : Reader _) bytes = _
    rw [if_pos h]
    rfl
  rw [hon]
  exact (consumes_expect tag bytes).bind_lift (by simp)

theorem on_optional_of_absent {tag : UInt8} (h : bytes.head? ≠ some tag) :
    ((optional tag).on bytes).2 = bytes ∧ ∀ e, ((optional tag).on bytes).1 ≠ .error e := by
  have hon : (optional tag).on bytes = (.ok none, bytes) := on_optional_eq_ok.mpr ⟨h, rfl⟩
  rw [hon]
  exact ⟨rfl, fun e he => by cases he⟩

theorem isMisfit_of_ofContent (content : Octets) (e : WireError)
    (h : Integer.ofContent content = .error e) : e.isMisfit = true := by
  unfold Integer.ofContent at h
  split at h
  · cases h
    rfl
  · cases h

theorem isMisfit_of_truth (content : Octets) (e : WireError) (h : truth content = .error e) :
    e.isMisfit = true := by
  unfold truth at h
  split at h
  · cases h
  · cases h
    rfl

theorem isMisfit_of_spelling (content : Octets) (e : WireError)
    (h : spelling content = .error e) : e.isMisfit = true := by
  unfold spelling at h
  split at h
  · cases h
  · cases h
    rfl

end Consumes

inductive Call where
  | element
  | expect (tag : UInt8)
  | optional (tag : UInt8)
  | integer (tag : UInt8)
  | boolean (tag : UInt8)
  | text (tag : UInt8)
  deriving DecidableEq, Repr

namespace Call

def Answer : Call → Type
  | element => UInt8 × Octets
  | expect _ => Octets
  | optional _ => Option Octets
  | integer _ => Int
  | boolean _ => Bool
  | text _ => String

def reader : (c : Call) → Reader c.Answer
  | element => Reader.element
  | expect tag => Reader.expect tag
  | optional tag => Reader.optional tag
  | integer tag => Reader.integer tag
  | boolean tag => Reader.boolean tag
  | text tag => Reader.text tag

/-- The call asks for an element that need not be there, and another one or none is. -/
def passesOver : Call → Octets → Bool
  | optional tag, bytes => bytes.head? != some tag
  | _, _ => false

theorem on_of_passesOver {c : Call} {bytes : Octets} (h : c.passesOver bytes = true) :
    (c.reader.on bytes).2 = bytes ∧ ∀ e, (c.reader.on bytes).1 ≠ .error e := by
  cases c with
  | optional tag => exact on_optional_of_absent (by simpa [passesOver] using h)
  | _ => cases h

theorem consumes {c : Call} {bytes : Octets} (h : c.passesOver bytes = false) :
    Consumes bytes (c.reader.on bytes) := by
  cases c with
  | element => exact consumes_element bytes
  | expect tag => exact consumes_expect tag bytes
  | optional tag => exact consumes_optional (by simpa [passesOver] using h)
  | integer tag => exact (consumes_expect tag bytes).bind_lift isMisfit_of_ofContent
  | boolean tag => exact (consumes_expect tag bytes).bind_lift isMisfit_of_truth
  | text tag => exact (consumes_expect tag bytes).bind_lift isMisfit_of_spelling

end Call

/-- What a call does with the octets that it is made on. -/
structure WholeOrNothing (c : Call) (bytes : Octets) : Prop where
  /-- They are all still there exactly if the call was refused or has passed over an element. -/
  unchanged : (c.reader.on bytes).2 = bytes ↔
    (∃ e, (c.reader.on bytes).1 = .error e ∧ e.isRefusal = true) ∨ c.passesOver bytes = true
  /-- Otherwise one element was taken, header and content. -/
  taken : (c.reader.on bytes).2 ≠ bytes →
    ∃ h, Begins bytes h ∧ (c.reader.on bytes).2 = bytes.drop h.totalSize
  /-- It is refused exactly if it wants an element and no whole one is there. -/
  refused : (∃ e, (c.reader.on bytes).1 = .error e ∧ e.isRefusal = true) ↔
    c.passesOver bytes = false ∧ ∀ h, ¬Begins bytes h
  /-- Whatever else it fails with is found out when the element was taken. -/
  misfit : ∀ e, (c.reader.on bytes).1 = .error e → e.isRefusal = false →
    e.isMisfit = true ∧ (c.reader.on bytes).2 ≠ bytes
  suffix : (c.reader.on bytes).2 <:+ bytes

theorem not_begins_of_split {bytes : Octets} {e : WireError} (h : split bytes = .error e)
    (header : Header) : ¬Begins bytes header := by
  intro hbegins
  obtain ⟨content, hsplit⟩ := split_of_begins hbegins
  rw [h] at hsplit
  cases hsplit

/-- **A call takes one element or nothing**, on whatever octets it is made. -/
theorem wholeOrNothing (c : Call) (bytes : Octets) : WholeOrNothing c bytes := by
  cases hpass : c.passesOver bytes with
  | true =>
      obtain ⟨hrest, hanswer⟩ := Call.on_of_passesOver hpass
      exact {
        unchanged := ⟨fun _ => .inr hpass, fun _ => hrest⟩
        taken := fun hne => absurd hrest hne
        refused := ⟨fun ⟨e, he, _⟩ => absurd he (hanswer e), fun h => by simp [hpass] at h⟩
        misfit := fun e he => absurd he (hanswer e)
        suffix := ⟨[], by rw [List.nil_append, hrest]⟩ }
  | false =>
      have hconsumes := Call.consumes hpass
      generalize hon : c.reader.on bytes = outcome at hconsumes
      cases hconsumes with
      | @refused e hsplit =>
          have hrefusal := isRefusal_of_split hsplit
          have hanswer : ∃ e', (c.reader.on bytes).1 = .error e' ∧ e'.isRefusal = true :=
            ⟨e, by rw [hon], hrefusal⟩
          exact {
            unchanged := ⟨fun _ => .inl hanswer, fun _ => by rw [hon]⟩
            taken := fun hne => absurd (by rw [hon]) hne
            refused := ⟨fun _ => ⟨hpass, not_begins_of_split hsplit⟩, fun _ => hanswer⟩
            misfit := by
              intro e' he hno
              rw [hon] at he
              cases he
              rw [hrefusal] at hno
              cases hno
            suffix := ⟨[], by rw [List.nil_append, hon]⟩ }
      | @taken tag content rest answer hsplit hmisfit =>
          have hshorter := length_lt_of_split hsplit
          have hne : (c.reader.on bytes).2 ≠ bytes := by
            rw [hon]
            dsimp only
            rintro rfl
            omega
          have hanswer : ¬∃ e, (c.reader.on bytes).1 = .error e ∧ e.isRefusal = true := by
            rintro ⟨e, he, hrefusal⟩
            rw [hon] at he
            rw [WireError.isRefusal_of_isMisfit (hmisfit e he)] at hrefusal
            cases hrefusal
          obtain ⟨header, hbegins, hrest⟩ := begins_of_split hsplit
          exact {
            unchanged := by simp [hne, hanswer, hpass]
            taken := fun _ => ⟨header, hbegins, by rw [hon, hrest]⟩
            refused := ⟨fun h => absurd h hanswer, fun h => absurd hbegins (h.2 header)⟩
            misfit := fun e he _ => ⟨hmisfit e (by rw [hon] at he; exact he), hne⟩
            suffix := by rw [hon, hrest]; exact List.drop_suffix _ _ }

/-! ## Any number of calls -/

/-- Elements that were taken off the front of a run of octets, and what is left behind them. -/
inductive Takes : Octets → List (UInt8 × Octets) → Octets → Prop
  | nothing {bytes : Octets} : Takes bytes [] bytes
  | next {bytes content rest left : Octets} {tag : UInt8} {items : List (UInt8 × Octets)} :
      split bytes = .ok (tag, content, rest) → Takes rest items left →
      Takes bytes ((tag, content) :: items) left

namespace Takes

variable {bytes mid left : Octets} {items more : List (UInt8 × Octets)}

theorem append (h : Takes bytes items mid) (h' : Takes mid more left) :
    Takes bytes (items ++ more) left := by
  induction h with
  | nothing => exact h'
  | next hsplit _ ih => exact .next hsplit (ih h')

theorem suffix (h : Takes bytes items left) : left <:+ bytes := by
  induction h with
  | nothing => exact List.suffix_rfl
  | next hsplit _ ih =>
      obtain ⟨header, -, hrest⟩ := begins_of_split hsplit
      rw [hrest] at ih
      exact ih.trans (List.drop_suffix _ _)

end Takes

def leftBy (calls : List Call) (bytes : Octets) : Octets :=
  calls.foldl (fun rest c => (c.reader.on rest).2) bytes

theorem takes_call (c : Call) (bytes : Octets) :
    ∃ items, Takes bytes items (c.reader.on bytes).2 ∧ items.length ≤ 1 := by
  by_cases h : (c.reader.on bytes).2 = bytes
  · exact ⟨[], by rw [h]; exact .nothing, Nat.zero_le 1⟩
  · obtain ⟨header, hbegins, hrest⟩ := (wholeOrNothing c bytes).taken h
    obtain ⟨content, hsplit⟩ := split_of_begins hbegins
    exact ⟨[(header.tag, content)], by rw [hrest]; exact .next hsplit .nothing, Nat.le_refl 1⟩

/-- After any calls the reader stands behind some of the elements at the front. -/
theorem takes_leftBy (calls : List Call) (bytes : Octets) :
    ∃ items, Takes bytes items (leftBy calls bytes) ∧ items.length ≤ calls.length := by
  induction calls generalizing bytes with
  | nil => exact ⟨[], .nothing, Nat.le_refl 0⟩
  | cons c calls ih =>
      obtain ⟨first, hfirst, hone⟩ := takes_call c bytes
      obtain ⟨items, hitems, hlength⟩ := ih (c.reader.on bytes).2
      refine ⟨first ++ items, hfirst.append hitems, ?_⟩
      rw [List.length_append, List.length_cons]
      omega

/-! ## One element after the other -/

/-- What reading one element after the other gives: the elements, why it ended if it was not at the
end of the octets, and what is left. -/
structure Walk where
  elements : List (UInt8 × Octets)
  error : Option WireError
  left : Octets
  deriving DecidableEq, Repr

def Walk.behind (items : List (UInt8 × Octets)) (w : Walk) : Walk :=
  { w with elements := items ++ w.elements }

/-- Reads elements until nothing is left or one is refused, and gives up after a number of rounds. -/
def walkWithin : Nat → Octets → Option Walk
  | 0, _ => none
  | rounds + 1, bytes =>
      if bytes = [] then some ⟨[], none, []⟩
      else
        match element.on bytes with
        | (.error e, rest) => some ⟨[], some e, rest⟩
        | (.ok item, rest) => (walkWithin rounds rest).map (·.behind [item])

theorem walkWithin_of_split {bytes content rest : Octets} {tag : UInt8} (rounds : Nat)
    (h : split bytes = .ok (tag, content, rest)) :
    walkWithin (rounds + 1) bytes = (walkWithin rounds rest).map (·.behind [(tag, content)]) := by
  have hne : bytes ≠ [] := by
    rintro rfl
    cases h
  rw [walkWithin, if_neg hne, on_element_eq_ok.mpr h]

theorem walkWithin_of_refused {bytes : Octets} {e : WireError} (rounds : Nat) (hne : bytes ≠ [])
    (h : split bytes = .error e) : walkWithin (rounds + 1) bytes = some ⟨[], some e, bytes⟩ := by
  rw [walkWithin, if_neg hne, on_element_of_error h]

/-- Whole elements were taken, and why the walk goes no further is to be seen in what is left. -/
structure Walk.Ends (w : Walk) (bytes : Octets) : Prop where
  takes : Takes bytes w.elements w.left
  finished : w.error = none ↔ w.left = []
  refused : ∀ e, w.error = some e → split w.left = .error e

/-- **The walk ends**, because every round but the last takes two octets at least. -/
theorem walk_ends (bytes : Octets) : ∃ w : Walk, w.Ends bytes ∧
    ∀ rounds, bytes.length / 2 < rounds → walkWithin rounds bytes = some w := by
  induction hlength : bytes.length using Nat.strongRecOn generalizing bytes with
  | ind length ih =>
      subst hlength
      by_cases hne : bytes = []
      · subst hne
        refine ⟨⟨[], none, []⟩, ⟨.nothing, by simp, by simp⟩, ?_⟩
        intro rounds hrounds
        obtain ⟨rounds, rfl⟩ : ∃ r, rounds = r + 1 := ⟨rounds - 1, by omega⟩
        rfl
      · cases hsplit : split bytes with
        | error e =>
            refine ⟨⟨[], some e, bytes⟩, ⟨.nothing, by simp [hne], by simpa using hsplit⟩, ?_⟩
            intro rounds hrounds
            obtain ⟨rounds, rfl⟩ : ∃ r, rounds = r + 1 := ⟨rounds - 1, by omega⟩
            exact walkWithin_of_refused rounds hne hsplit
        | ok parts =>
            obtain ⟨tag, content, rest⟩ := parts
            have hshorter := length_lt_of_split hsplit
            obtain ⟨w, hends, hwalk⟩ := ih rest.length (by omega) rest rfl
            refine ⟨w.behind [(tag, content)], ⟨.next hsplit hends.takes, hends.finished,
              hends.refused⟩, ?_⟩
            intro rounds hrounds
            obtain ⟨rounds, rfl⟩ : ∃ r, rounds = r + 1 := ⟨rounds - 1, by omega⟩
            rw [walkWithin_of_split rounds hsplit, hwalk rounds (by omega)]
            rfl

def written (items : List (UInt8 × Octets)) : Octets :=
  items.flatMap fun item => Ber.element item.1 item.2

/-- What can be written as an element that reads back: a low tag, and content that is not too long. -/
def Writable (item : UInt8 × Octets) : Prop :=
  Header.isHighTag item.1 = false ∧ Short item.2

def elements : Nat → Reader (List (UInt8 × Octets))
  | 0 => pure []
  | n + 1 => do
      let item ← element
      let items ← elements n
      pure (item :: items)

theorem on_elements_eq_ok {n : Nat} {bytes left : Octets} {items : List (UInt8 × Octets)} :
    (elements n).on bytes = (.ok items, left) ↔ Takes bytes items left ∧ items.length = n := by
  induction n generalizing bytes items left with
  | zero =>
      rw [elements, on_pure_eq_ok]
      constructor
      · rintro ⟨rfl, rfl⟩
        exact ⟨.nothing, rfl⟩
      · rintro ⟨htakes, hlength⟩
        cases htakes with
        | nothing => exact ⟨rfl, rfl⟩
        | next => cases hlength
  | succ n ih =>
      simp only [elements, on_bind_eq_ok, on_pure_eq_ok, ih]
      constructor
      · rintro ⟨⟨tag, content⟩, rest, helement, more, _, ⟨htakes, rfl⟩, rfl, rfl⟩
        exact ⟨.next (on_element_eq_ok.mp helement) htakes, rfl⟩
      · rintro ⟨htakes, hlength⟩
        cases htakes with
        | nothing => cases hlength
        | next hsplit hmore =>
            exact ⟨_, _, on_element_eq_ok.mpr hsplit, _, _, ⟨hmore, Nat.succ.inj hlength⟩, rfl, rfl⟩

theorem takes_written {items : List (UInt8 × Octets)} (h : ∀ item ∈ items, Writable item)
    (rest : Octets) : Takes (written items ++ rest) items rest := by
  induction items with
  | nil => exact .nothing
  | cons item items ih =>
      obtain ⟨hlow, hshort⟩ := h item List.mem_cons_self
      have hmore := ih fun other hmem => h other (List.mem_cons_of_mem item hmem)
      refine .next ?_ hmore
      rw [written, List.flatMap_cons, List.append_assoc]
      exact split_element_append hlow hshort _

theorem walkWithin_of_takes {bytes left : Octets} {items : List (UInt8 × Octets)}
    (h : Takes bytes items left) (rounds : Nat) :
    walkWithin (items.length + rounds) bytes = (walkWithin rounds left).map (·.behind items) := by
  induction h with
  | nothing =>
      rw [List.length_nil, Nat.zero_add]
      exact Option.map_id'.symm
  | @next bytes content rest left tag items hsplit _ ih =>
      have hlength : ((tag, content) :: items).length + rounds = (items.length + rounds) + 1 := by
        rw [List.length_cons]
        omega
      rw [hlength, walkWithin_of_split _ hsplit, ih, Option.map_map]
      rfl

/-- **Elements are taken whole, and walking over them inverts writing.** Every call on any octets takes
one element or nothing, so that any sequence of calls leaves a suffix that begins behind some of the
elements. Reading one element after the other comes to an end. What was written as elements is read
back as these elements in order, and the reader then stands at what follows: reading on is reading
from there. -/
theorem walks_whole_elements :
    (∀ c bytes, WholeOrNothing c bytes) ∧
    (∀ calls bytes, leftBy calls bytes <:+ bytes ∧
      ∃ items, Takes bytes items (leftBy calls bytes) ∧ items.length ≤ calls.length) ∧
    (∀ bytes, ∃ w : Walk, w.Ends bytes ∧
      ∀ rounds, bytes.length / 2 < rounds → walkWithin rounds bytes = some w) ∧
    ∀ items : List (UInt8 × Octets), (∀ item ∈ items, Writable item) → ∀ rest,
      (elements items.length).on (written items ++ rest) = (.ok items, rest) ∧
      ∀ rounds, walkWithin (items.length + rounds) (written items ++ rest) =
        (walkWithin rounds rest).map (·.behind items) := by
  refine ⟨wholeOrNothing, ?_, walk_ends, ?_⟩
  · intro calls bytes
    obtain ⟨items, htakes, hlength⟩ := takes_leftBy calls bytes
    exact ⟨htakes.suffix, items, htakes, hlength⟩
  · intro items hwritable rest
    have htakes := takes_written hwritable rest
    exact ⟨on_elements_eq_ok.mpr ⟨htakes, rfl⟩, walkWithin_of_takes htakes⟩

/-- A text and an empty sequence, with an integer behind them that is cut short. -/
theorem walks_of_cut_integer :
    (∀ item ∈ [((0x04 : UInt8), [(0x61 : UInt8)]), (0x30, [])], Writable item) ∧
      (elements 2).on (written [(0x04, [0x61]), (0x30, [])] ++ [0x02, 0x05, 0x01]) =
        (.ok [(0x04, [0x61]), (0x30, [])], [0x02, 0x05, 0x01]) ∧
      walkWithin 3 (written [(0x04, [0x61]), (0x30, [])] ++ [0x02, 0x05, 0x01]) =
        some ⟨[(0x04, [0x61]), (0x30, [])], some .truncated, [0x02, 0x05, 0x01]⟩ := by
  have hwritable : ∀ item ∈ [((0x04 : UInt8), [(0x61 : UInt8)]), (0x30, [])], Writable item := by
    simp only [Writable, Short]
    decide
  obtain ⟨hread, hwalk⟩ :=
    walks_whole_elements.2.2.2 [(0x04, [0x61]), (0x30, [])] hwritable [0x02, 0x05, 0x01]
  exact ⟨hwritable, hread, (hwalk 1).trans rfl⟩

end Reader

end Ber

end Directory
