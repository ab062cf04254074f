import Directory.Proofs.Toml.Number
import Directory.Proofs.Toml.Quoted

/-!
# Lines of a document

A line of a document is a key and the text of a value. What a text stands for on the rest of its line
is said once for each kind of value (`StandsAs`), and a line adds what its text stands for to the tree,
whatever the rest of the document is (`lines_keyLine`). So a document is read line by line, and the tree
is what the lines add one after the other (`lines_keyLines`).

In the other direction, every number at the top of a tree that was read is one that a document can
hold (`Fits`).
-/

namespace Directory.Toml

variable {k text : String} {n : Node} {d : Document} {rest : List Char}

/-! ## What a text stands for -/

theorem isBlank_eq_false {p : Char → Bool} {c : Char} (hspace : p ' ' = false)
    (htab : p '\t' = false) (h : p c = true) : isBlank c = false := by
  cases hblank : isBlank c with
  | false => rfl
  | true =>
      rw [isBlank, Bool.or_eq_true, beq_iff_eq, beq_iff_eq] at hblank
      rcases hblank with rfl | rfl
      · exact absurd h (ne_true_of_eq_false hspace)
      · exact absurd h (ne_true_of_eq_false htab)

/-- A text is read as a value on the rest of a line, whatever the next lines are. -/
structure StandsAs (text : String) (n : Node) : Prop where
  value_eq : ∀ bound depth rest,
    value (bound + 1) depth (text.toList ++ '\n' :: rest) = some (n, '\n' :: rest)
  /-- There is no blank in front, which would be skipped. -/
  not_blank : ∀ c ∈ text.toList.head?, isBlank c = false

theorem head_quote (s : String) :
    ∃ c more, (quote s).toList = c :: more ∧ (c = '"' ∨ c = '\'') := by
  unfold quote
  dsimp only
  rw [String.toList_ofList]
  cases Quoting.choose s.toList with
  | basic => exact ⟨_, _, rfl, .inl rfl⟩
  | literal => exact ⟨_, _, rfl, .inr rfl⟩
  | basicLines => exact ⟨_, _, rfl, .inl rfl⟩
  | literalLines => exact ⟨_, _, rfl, .inr rfl⟩

theorem standsAs_quote (s : String) : StandsAs (quote s) (.text s) where
  value_eq := by
    intro bound depth rest
    have hnext : Unquoted ('\n' :: rest) := ⟨by simp, by simp⟩
    have hread := quoted_quote s hnext
    obtain ⟨c, more, htext, hquote⟩ := head_quote s
    rw [htext, List.cons_append] at hread ⊢
    rcases hquote with rfl | rfl
    · rw [value, hread]
      rfl
    · rw [value, hread]
      rfl
  not_blank := by
    obtain ⟨c, more, htext, hquote⟩ := head_quote s
    rw [htext]
    rcases hquote with rfl | rfl <;> simp [isBlank]

theorem standsAs_toString {m : Nat} (h : m < 2 ^ 63) : StandsAs (toString m) (.integer m) := by
  have htext : (toString m).toList = Nat.toDigits 10 m := by
    rw [Nat.toString_eq_ofList_toDigits, String.toList_ofList]
  constructor
  · intro bound depth rest
    rw [htext, value_toDigits h]
  · intro c hc
    have hdigit := (digits_toDigits m).isDigit c (by
      rw [htext] at hc
      exact List.mem_of_mem_head? hc)
    exact isBlank_eq_false rfl rfl hdigit

theorem standsAs_true : StandsAs "true" (.boolean true) where
  value_eq bound depth rest := by
    rw [show "true".toList = ['t', 'r', 'u', 'e'] from rfl]
    rfl
  not_blank c hc := by
    cases hc
    rfl

theorem standsAs_false : StandsAs "false" (.boolean false) where
  value_eq bound depth rest := by
    rw [show "false".toList = ['f', 'a', 'l', 's', 'e'] from rfl]
    rfl
  not_blank c hc := by
    cases hc
    rfl

/-! ## Keys -/

structure Bare (k : String) : Prop where
  ne_nil : k.toList ≠ []
  all_isKeyChar : k.toList.all isKeyChar = true

theorem Bare.isKeyChar (h : Bare k) : ∀ c ∈ k.toList, isKeyChar c = true :=
  List.all_eq_true.mp h.all_isKeyChar

/-- A key without quotes begins with a character that begins nothing else. -/
theorem Bare.head (h : Bare k) : ∃ c more, k.toList = c :: more ∧
    c ≠ '"' ∧ c ≠ '\'' ∧ c ≠ '[' ∧ c ≠ '#' ∧ c ≠ '\n' ∧ c ≠ '\r' ∧ isBlank c = false := by
  obtain ⟨c, more, htext⟩ := List.exists_cons_of_ne_nil h.ne_nil
  have hc := h.isKeyChar c (by rw [htext]; exact List.mem_cons_self)
  have hblank : isBlank c = false := isBlank_eq_false rfl rfl hc
  refine ⟨c, more, htext, ?_, ?_, ?_, ?_, ?_, ?_, hblank⟩ <;> rintro rfl <;> cases hc

theorem keyPart_bare (h : Bare k) {c : Char} (hc : isKeyChar c = false) (rest : List Char) :
    keyPart (k.toList ++ c :: rest) = some (k, c :: rest) := by
  have htake : (k.toList ++ c :: rest).takeWhile isKeyChar = k.toList := by
    rw [List.takeWhile_append_of_pos h.isKeyChar, List.takeWhile_cons_of_neg (by simp [hc]),
      List.append_nil]
  have hdrop : (k.toList ++ c :: rest).dropWhile isKeyChar = c :: rest := by
    rw [List.dropWhile_append_of_pos h.isKeyChar, List.dropWhile_cons_of_neg (by simp [hc])]
  obtain ⟨a, more, htext, hdouble, hsingle, -⟩ := h.head
  rw [htext, List.cons_append] at htake hdrop ⊢
  unfold keyPart
  split
  · rename_i heq
    exact absurd (List.cons.inj heq).1 hdouble
  · rename_i heq
    exact absurd (List.cons.inj heq).1 hsingle
  · rw [htake, hdrop]
    dsimp only
    rw [← htext, String.ofList_toList]

theorem skipBlanks_bare (h : Bare k) (rest : List Char) :
    skipBlanks (k.toList ++ rest) = k.toList ++ rest := by
  obtain ⟨c, more, htext, -, -, -, -, -, -, hblank⟩ := h.head
  rw [htext, List.cons_append, skipBlanks, List.dropWhile_cons_of_neg (by simp [hblank])]

theorem key_bare (h : Bare k) {c : Char} (hc : isKeyChar c = false)
    (hdot : ∀ more, skipBlanks (c :: rest) ≠ '.' :: more) :
    key (k.toList ++ c :: rest) = some (([], k), skipBlanks (c :: rest)) := by
  have hparts : keyParts (78 + 1) (k.toList ++ c :: rest) = some ([k], skipBlanks (c :: rest)) := by
    rw [keyParts, skipBlanks_bare h, keyPart_bare h hc]
    dsimp only [Option.bind_eq_bind, Option.bind_some]
    split
    · rename_i heq
      exact absurd heq (hdot _)
    · rfl
  rw [key, show depthLimit - 1 = 78 + 1 from rfl, hparts]
  rfl

/-! ## One line -/

structure KeyLine where
  key : String
  text : String
  node : Node
  bare : Bare key
  standsAs : StandsAs text node

def KeyLine.chars (e : KeyLine) : List Char :=
  e.key.toList ++ ' ' :: '=' :: ' ' :: (e.text.toList ++ ['\n'])

theorem skipBlanks_text (h : StandsAs text n) (rest : List Char) :
    skipBlanks (' ' :: (text.toList ++ '\n' :: rest)) = text.toList ++ '\n' :: rest := by
  rw [skipBlanks, List.dropWhile_cons_of_pos rfl]
  cases htext : text.toList with
  | nil => rfl
  | cons c more =>
      have hblank := h.not_blank c (by rw [htext]; rfl)
      rw [List.cons_append, List.dropWhile_cons_of_neg (by simp [hblank])]

namespace Document

theorem line_keyLine (e : KeyLine) (bound : Nat) (d : Document) (rest : List Char) :
    d.line (bound + 1) (e.chars ++ rest) = (d.addKey [] e.key e.node).map (·, rest) := by
  have hkey : key (e.chars ++ rest) =
      some (([], e.key), '=' :: ' ' :: (e.text.toList ++ '\n' :: rest)) := by
    rw [KeyLine.chars, List.append_assoc, List.cons_append, key_bare e.bare rfl]
    · simp [skipBlanks, isBlank]
    · intro more
      simp [skipBlanks, isBlank]
  obtain ⟨c, more, htext, -, -, hbracket, -⟩ := e.bare.head
  have hchars : e.chars ++ rest =
      c :: (more ++ ' ' :: '=' :: ' ' :: (e.text.toList ++ '\n' :: rest)) := by
    simp [KeyLine.chars, htext]
  unfold line
  rw [hchars] at hkey ⊢
  split
  · rename_i heq
    exact absurd (List.cons.inj heq).1 hbracket
  · rename_i heq
    exact absurd (List.cons.inj heq).1 hbracket
  · have hvalue : value (bound + 1) 0 (skipBlanks (' ' :: (e.text.toList ++ '\n' :: rest))) =
        some (e.node, '\n' :: rest) := by
      rw [skipBlanks_text e.standsAs, e.standsAs.value_eq]
    have hend : restOfLine? ('\n' :: rest) = some rest := rfl
    simp only [hkey, Option.bind_eq_bind, Option.bind_some, hvalue, hend]
    cases d.addKey [] e.key e.node <;> rfl

/-- A line that is neither blank nor a comment is taken in, then the lines behind it. -/
theorem lines_cons {c : Char} (hblank : isBlank c = false) (hhash : c ≠ '#') (hfeed : c ≠ '\n')
    (hreturn : c ≠ '\r') (bound : Nat) (d : Document) (cs : List Char) :
    lines (bound + 1) d (c :: cs) =
      (d.line bound (c :: cs)).bind fun (d, rest) => lines bound d rest := by
  rw [lines, skipBlanks, List.dropWhile_cons_of_neg (by simp [hblank])]
  split
  · cases ‹c :: cs = []›
  · rename_i heq
    exact absurd (List.cons.inj heq).1 hhash
  · rename_i heq
    obtain ⟨rfl, rfl⟩ := List.cons.inj heq
    rw [lineEnd?_cons hfeed hreturn]
    rfl

/-- **A line adds what its text stands for**, whatever the rest of the document is. -/
theorem lines_keyLine (e : KeyLine) (bound : Nat) (d : Document) (rest : List Char) :
    lines (bound + 2) d (e.chars ++ rest) =
      (d.addKey [] e.key e.node).bind fun d => lines (bound + 1) d rest := by
  have hline := line_keyLine e bound d rest
  obtain ⟨c, more, htext, -, -, -, hhash, hfeed, hreturn, hblank⟩ := e.bare.head
  have hchars : e.chars ++ rest = c :: (more ++ (e.chars.drop e.key.toList.length ++ rest)) := by
    simp [KeyLine.chars, htext]
  rw [hchars] at hline ⊢
  rw [lines_cons hblank hhash hfeed hreturn, hline]
  cases d.addKey [] e.key e.node <;> rfl

/-- Lines are taken in one after the other. -/
theorem lines_keyLines (es : List KeyLine) (bound : Nat) (d : Document) (rest : List Char) :
    lines (bound + 1 + es.length) d (es.flatMap KeyLine.chars ++ rest) =
      (es.foldlM (fun (d : Document) e => d.addKey [] e.key e.node) d).bind
        fun d => lines (bound + 1) d rest := by
  induction es generalizing d with
  | nil => rfl
  | cons e es ih =>
      have hone := lines_keyLine e (bound + es.length) d (es.flatMap KeyLine.chars ++ rest)
      rw [List.flatMap_cons, List.append_assoc, List.foldlM_cons, List.length_cons]
      rw [show bound + 1 + (es.length + 1) = bound + es.length + 2 by omega, hone]
      cases d.addKey [] e.key e.node with
      | none => rfl
      | some d =>
          rw [Option.bind_some, show bound + es.length + 1 = bound + 1 + es.length by omega, ih]
          rfl

theorem lines_blank (bound : Nat) (d : Document) (rest : List Char) :
    lines (bound + 1) d ('\n' :: rest) = lines bound d rest := rfl

theorem lines_header (h : Bare k) (bound : Nat) (d : Document) (rest : List Char) :
    lines (bound + 1) d ('[' :: (k.toList ++ ']' :: '\n' :: rest)) =
      (d.root.openTable [] k).bind fun root => lines bound { root, path := [k] } rest := by
  have hkey : key (k.toList ++ ']' :: '\n' :: rest) = some (([], k), ']' :: '\n' :: rest) := by
    rw [key_bare h rfl]
    · simp [skipBlanks, isBlank]
    · intro more
      simp [skipBlanks, isBlank]
  obtain ⟨c, more, htext, -, -, hbracket, -⟩ := h.head
  have hline : d.line bound ('[' :: (k.toList ++ ']' :: '\n' :: rest)) =
      (d.root.openTable [] k).map fun root => ({ root, path := [k] }, rest) := by
    have hend : restOfLine? ('\n' :: rest) = some rest := rfl
    rw [htext, List.cons_append] at hkey ⊢
    unfold line
    split
    · rename_i heq
      exact absurd (List.cons.inj (List.cons.inj heq).2).1 hbracket
    · rename_i heq
      rw [← (List.cons.inj heq).2]
      simp only [hkey, Option.bind_eq_bind, Option.bind_some, hend, List.nil_append]
      cases d.root.openTable [] k <;> rfl
    · rename_i hother
      exact absurd rfl (hother _)
  rw [lines_cons rfl (by decide) (by decide) (by decide), hline]
  cases d.root.openTable [] k <;> rfl

/-! ## The tree -/

/-- A table that keys are added to, in its place in the document. -/
def TakesKeys (place : Entries → Document) : Prop :=
  ∀ es k n, es.get? k = none → (place es).addKey [] k n = some (place (es.add k n))

theorem takesKeys_top : TakesKeys fun es => { root := es } := by
  intro es k n hkey
  rw [addKey, Entries.descend, Entries.addKey, Entries.descend]
  simp [hkey]

theorem takesKeys_under (t : String) (root : Entries) :
    TakesKeys fun es => { root := (t, .table .header es) :: root, path := [t] } := by
  intro es k n hkey
  have htable : Entries.get? ((t, .table .header es) :: root) t = some (.table .header es) :=
    List.lookup_cons_self
  rw [addKey, Entries.descend]
  simp [htable, Entries.descend, Entries.addKey, Entries.set, hkey]

/-- The keys of lines are all added if no two are the same. -/
theorem TakesKeys.foldlM {place : Entries → Document} (h : TakesKeys place) (es : List KeyLine)
    (table : Entries) (hnodup : (es.map KeyLine.key).Nodup)
    (hnew : ∀ e ∈ es, table.get? e.key = none) :
    es.foldlM (fun (d : Document) e => d.addKey [] e.key e.node) (place table) =
      some (place (es.foldl (fun table e => table.add e.key e.node) table)) := by
  induction es generalizing table with
  | nil => rfl
  | cons e es ih =>
      rw [List.map_cons, List.nodup_cons] at hnodup
      have hrest : ∀ e' ∈ es, (table.add e.key e.node).get? e'.key = none := by
        intro e' he'
        have hne : e'.key ≠ e.key := fun heq => hnodup.1 (heq ▸ List.mem_map_of_mem he')
        rw [Entries.get?, Entries.add, List.lookup_cons, beq_false_of_ne hne]
        exact hnew e' (List.mem_cons_of_mem e he')
      rw [List.foldlM_cons, h table e.key e.node (hnew e List.mem_cons_self)]
      exact ih _ hnodup.2 hrest

end Document

/-! ## Numbers of a tree that was read -/

/-- A node that is no integer beyond what a document can hold. -/
def Node.Fits (n : Node) : Prop := ∀ i, n = .integer i → i < 2 ^ 63

def Entries.Fits (es : Entries) : Prop := ∀ e ∈ es, e.2.Fits

namespace Entries

variable {es es' : Entries}

theorem Fits.add (h : es.Fits) (hn : n.Fits) : (es.add k n).Fits := by
  intro e he
  rcases List.mem_cons.mp he with rfl | he
  · exact hn
  · exact h e he

theorem Fits.set (h : es.Fits) (hn : n.Fits) : (es.set k n).Fits := by
  induction es with
  | nil => exact h
  | cons a es ih =>
      have hrest : Fits es := fun e he => h e (List.mem_cons_of_mem a he)
      rw [Entries.set]
      split
      · exact hrest.add hn
      · intro e he
        rcases List.mem_cons.mp he with rfl | he
        · exact h _ List.mem_cons_self
        · exact ih hrest e he

theorem Fits.get? (h : es.Fits) (hget : es.get? k = some n) : n.Fits := by
  obtain ⟨before, behind, rfl, -⟩ := List.lookup_eq_some_iff.mp hget
  exact h (k, n) (by simp)

/-- Below the top only tables change, so the change at the end of the path matters only if that is the
top itself. -/
theorem Fits.descend {dotted : Bool} {change : Origin → Entries → Option Entries}
    {path : List String} {origin : Origin}
    (hchange : ∀ origin es es', es.Fits → change origin es = some es' → es'.Fits) (h : es.Fits)
    (hdescend : es.descend dotted change path origin = some es') : es'.Fits := by
  have htable : ∀ origin sub, (Node.table origin sub).Fits := fun _ _ _ heq => by cases heq
  have htables : ∀ latest earlier, (Node.tables latest earlier).Fits := fun _ _ _ heq => by cases heq
  cases path with
  | nil => exact hchange origin es es' h hdescend
  | cons k path =>
      rw [Entries.descend] at hdescend
      split at hdescend
      · obtain ⟨sub, -, heq⟩ := Option.bind_eq_some_iff.mp hdescend
        cases heq
        exact h.add (htable _ _)
      · split at hdescend
        · cases hdescend
        · obtain ⟨sub, -, heq⟩ := Option.bind_eq_some_iff.mp hdescend
          cases heq
          exact h.set (htable _ _)
      · obtain ⟨sub, -, heq⟩ := Option.bind_eq_some_iff.mp hdescend
        cases heq
        exact h.set (htables _ _)
      · cases hdescend

theorem Fits.addKey {origin : Origin} {parents : List String} (hn : n.Fits) (h : es.Fits)
    (hadd : es.addKey origin parents k n = some es') : es'.Fits := by
  refine Fits.descend (fun origin es es' hes hchange => ?_) h hadd
  split at hchange
  · cases hchange
  · split at hchange
    · cases hchange
    · cases hchange
      exact hes.add hn

theorem Fits.openTable {parents : List String} (h : es.Fits)
    (hopen : es.openTable parents k = some es') : es'.Fits := by
  refine Fits.descend (fun origin es es' hes hchange => ?_) h hopen
  split at hchange
  · cases hchange
    exact hes.add fun _ heq => by cases heq
  · cases hchange
    exact hes.set fun _ heq => by cases heq
  · cases hchange

theorem Fits.openNext {parents : List String} (h : es.Fits)
    (hopen : es.openNext parents k = some es') : es'.Fits := by
  refine Fits.descend (fun origin es es' hes hchange => ?_) h hopen
  split at hchange
  · cases hchange
    exact hes.add fun _ heq => by cases heq
  · cases hchange
    exact hes.set fun _ heq => by cases heq
  · cases hchange

end Entries

namespace Document

theorem fits_addKey {parents : List String} {d' : Document} (hn : n.Fits) (h : d.root.Fits)
    (hadd : d.addKey parents k n = some d') : d'.root.Fits := by
  obtain ⟨root, hroot, heq⟩ := Option.bind_eq_some_iff.mp hadd
  cases heq
  exact Entries.Fits.descend (fun _ _ _ hes hchange => hes.addKey hn hchange) h hroot

/-- **One line** adds no number that is too large. -/
theorem fits_line {bound : Nat} {cs : List Char} {d' : Document} (h : d.root.Fits)
    (hline : d.line bound cs = some (d', rest)) : d'.root.Fits := by
  unfold line at hline
  simp only [Option.bind_eq_bind] at hline
  split at hline
  · obtain ⟨⟨⟨parents, last⟩, behind⟩, -, hline⟩ := Option.bind_eq_some_iff.mp hline
    split at hline
    · obtain ⟨root, hroot, hline⟩ := Option.bind_eq_some_iff.mp hline
      obtain ⟨_, -, heq⟩ := Option.bind_eq_some_iff.mp hline
      cases heq
      exact h.openNext hroot
    · cases hline
  · obtain ⟨⟨⟨parents, last⟩, behind⟩, -, hline⟩ := Option.bind_eq_some_iff.mp hline
    split at hline
    · obtain ⟨root, hroot, hline⟩ := Option.bind_eq_some_iff.mp hline
      obtain ⟨_, -, heq⟩ := Option.bind_eq_some_iff.mp hline
      cases heq
      exact h.openTable hroot
    · cases hline
  · obtain ⟨⟨⟨parents, last⟩, behind⟩, -, hline⟩ := Option.bind_eq_some_iff.mp hline
    split at hline
    · obtain ⟨⟨n, behind⟩, hvalue, hline⟩ := Option.bind_eq_some_iff.mp hline
      obtain ⟨_, -, hline⟩ := Option.bind_eq_some_iff.mp hline
      obtain ⟨d', hadd, heq⟩ := Option.bind_eq_some_iff.mp hline
      cases heq
      have hn : n.Fits := by
        rintro i rfl
        exact lt_of_value hvalue
      exact fits_addKey hn h hadd
    · cases hline

/-- **All lines** add no number that is too large. -/
theorem fits_lines {bound : Nat} {cs : List Char} {d' : Document} (h : d.root.Fits)
    (hlines : lines bound d cs = some d') : d'.root.Fits := by
  induction bound generalizing d cs with
  | zero => cases hlines
  | succ bound ih =>
      rw [lines] at hlines
      split at hlines
      · cases hlines
        exact h
      · obtain ⟨behind, -, hlines⟩ := Option.bind_eq_some_iff.mp hlines
        exact ih h hlines
      · split at hlines
        · exact ih h hlines
        · obtain ⟨⟨d₁, behind⟩, hline, hlines⟩ := Option.bind_eq_some_iff.mp hlines
          exact ih (fits_line h hline) hlines

/-- What was read can be written, as far as its numbers go. -/
theorem fits_parse? {s : String} {es : Entries} (h : parse? s = some es) : es.Fits := by
  obtain ⟨d, hlines, rfl⟩ := Option.map_eq_some_iff.mp h
  exact fits_lines (fun _ he => by cases he) hlines

end Document

end Directory.Toml
