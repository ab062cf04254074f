import Directory.Proofs.Toml.Document
import Directory.Settings

/-!
# Settings and their document

What is written of settings is a list of lines, each of which reads back by itself
(`Directory.Proofs.Toml.Document`). So the document reads back as the tree with these settings
(`tree`), from which every field is taken as it was (`ofEntries_tree`).

In the other direction, a document holds no number that could not be written
(`isWritable_of_parse?`), so settings that were read can be written and read again.
-/

namespace Directory.Settings

open Toml

variable {s : Settings}

theorem isWritable_iff : s.isWritable = true ↔
    s.readTimeoutMs < 2 ^ 63 ∧ s.writeTimeoutMs < 2 ^ 63 ∧ s.queueCapacity < 2 ^ 63 ∧
      s.maxMessageSize < 2 ^ 63 := by
  have hlargest : ∀ n, decide (n ≤ largestNumber) = true ↔ n < 2 ^ 63 := by
    intro n
    rw [decide_eq_true_eq, largestNumber]
    omega
  simp only [isWritable, Bool.and_eq_true, hlargest, and_assoc]

/-! ## The lines -/

def textLine (key : String) (h : Bare key) (value : String) : KeyLine :=
  ⟨key, quote value, .text value, h, standsAs_quote value⟩

def countLine (key : String) (h : Bare key) (value : Nat) (hvalue : value < 2 ^ 63) : KeyLine :=
  ⟨key, toString value, .integer value, h, standsAs_toString hvalue⟩

theorem standsAs_flagText (b : Bool) : StandsAs (flagText b) (.boolean b) := by
  cases b with
  | true => exact standsAs_true
  | false => exact standsAs_false

def topLines (s : Settings) (h : s.isWritable = true) : List KeyLine :=
  have h := isWritable_iff.mp h
  [textLine "bind_address" ⟨by decide, by decide⟩ s.bindAddress,
    countLine "read_timeout_ms" ⟨by decide, by decide⟩ s.readTimeoutMs h.1,
    countLine "write_timeout_ms" ⟨by decide, by decide⟩ s.writeTimeoutMs h.2.1,
    countLine "outbound_queue_capacity" ⟨by decide, by decide⟩ s.queueCapacity h.2.2.1,
    countLine "max_message_size" ⟨by decide, by decide⟩ s.maxMessageSize h.2.2.2]

def tlsLines (t : TlsSettings) : List KeyLine :=
  [textLine "cert_path" ⟨by decide, by decide⟩ t.certPath,
    textLine "key_path" ⟨by decide, by decide⟩ t.keyPath,
    ⟨"start_tls", flagText t.startTls, .boolean t.startTls, ⟨by decide, by decide⟩,
      standsAs_flagText t.startTls⟩]

/-- What the lines in front of any header stand for; like every table, with the latest key first. -/
def topTree (s : Settings) : Entries :=
  [("max_message_size", .integer s.maxMessageSize),
    ("outbound_queue_capacity", .integer s.queueCapacity),
    ("write_timeout_ms", .integer s.writeTimeoutMs),
    ("read_timeout_ms", .integer s.readTimeoutMs),
    ("bind_address", .text s.bindAddress)]

def tlsTree (t : TlsSettings) : Entries :=
  [("start_tls", .boolean t.startTls), ("key_path", .text t.keyPath),
    ("cert_path", .text t.certPath)]

def tree (s : Settings) : Entries :=
  match s.tls with
  | none => topTree s
  | some t => ("tls", .table .header (tlsTree t)) :: topTree s

theorem toList_line (key text : String) :
    (line key text).toList = key.toList ++ ' ' :: '=' :: ' ' :: (text.toList ++ ['\n']) := by
  simp [line]

theorem toList_document (h : s.isWritable = true) :
    s.document.toList = (topLines s h).flatMap KeyLine.chars ++
      match s.tls with
      | none => []
      | some t =>
          '\n' :: '[' :: ("tls".toList ++ ']' :: '\n' :: (tlsLines t).flatMap KeyLine.chars) := by
  cases htls : s.tls with
  | none => simp [document, htls, toList_line, topLines, textLine, countLine, KeyLine.chars]
  | some t =>
      simp [document, htls, toList_line, topLines, tlsLines, textLine, countLine, KeyLine.chars]

theorem addKeys_topLines (h : s.isWritable = true) :
    (topLines s h).foldlM (fun (d : Document) e => d.addKey [] e.key e.node) {} =
      some { root := topTree s } :=
  Document.takesKeys_top.foldlM (topLines s h) [] (by simp [topLines, textLine, countLine])
    fun _ _ => rfl

theorem addKeys_tlsLines (t : TlsSettings) (root : Entries) :
    (tlsLines t).foldlM (fun (d : Document) e => d.addKey [] e.key e.node)
        { root := ("tls", .table .header []) :: root, path := ["tls"] } =
      some { root := ("tls", .table .header (tlsTree t)) :: root, path := ["tls"] } :=
  (Document.takesKeys_under "tls" root).foldlM (tlsLines t) [] (by simp [tlsLines, textLine])
    fun _ _ => rfl

theorem openTable_topTree (s : Settings) :
    (topTree s).openTable [] "tls" = some (("tls", .table .header []) :: topTree s) := rfl

/-- **The lines read back** as the tree with these settings. -/
theorem lines_document (h : s.isWritable = true) (bound : Nat) :
    (Document.lines (bound + 11) {} s.document.toList).map Document.root = some (tree s) := by
  have htop : bound + 11 = bound + 5 + 1 + (topLines s h).length := rfl
  rw [toList_document h, htop, Document.lines_keyLines, addKeys_topLines, Option.bind_some, tree]
  cases s.tls with
  | none => rfl
  | some t =>
      have htls : bound + 4 = bound + 1 + (tlsLines t).length := rfl
      dsimp only
      rw [Document.lines_blank, Document.lines_header ⟨by decide, by decide⟩, openTable_topTree,
        Option.bind_some, ← List.append_nil ((tlsLines t).flatMap _), htls,
        Document.lines_keyLines, addKeys_tlsLines]
      rfl

/-- The document begins with a key, and so with no byte order mark. -/
theorem document_eq_append (h : s.isWritable = true) :
    ∃ more, s.document.toList = "bind_address".toList ++ more := by
  rw [toList_document h, topLines, List.flatMap_cons, KeyLine.chars, List.append_assoc,
    List.append_assoc]
  exact ⟨_, rfl⟩

theorem parse?_document (h : s.isWritable = true) :
    Document.parse? s.document = some (tree s) := by
  obtain ⟨more, hhead⟩ := document_eq_append h
  have hbound : 11 ≤ 2 * s.document.toList.length + 2 := by
    rw [hhead, List.length_append, show "bind_address".toList.length = 12 from rfl]
    omega
  have hlines := lines_document h (2 * s.document.toList.length + 2 - 11)
  rw [Nat.sub_add_cancel hbound] at hlines
  unfold Document.parse?
  split
  · rename_i heq
    rw [hhead] at heq
    cases (List.cons.inj heq).1
  · exact hlines

theorem ofEntries_tree (s : Settings) : ofEntries (tree s) = some s := by
  obtain ⟨bindAddress, readTimeoutMs, writeTimeoutMs, queueCapacity, maxMessageSize, tls⟩ := s
  cases tls with
  | none => rfl
  | some t => rfl

/-! ## What is read can be written -/

theorem lt_of_field {es : Entries} {key : String} {default n : Nat} (h : es.Fits)
    (hdefault : default < 2 ^ 63) (hfield : field es key asCount default = some n) : n < 2 ^ 63 := by
  unfold field at hfield
  split at hfield
  · cases hfield
    exact hdefault
  · rename_i node hget
    unfold asCount at hfield
    split at hfield
    · split at hfield
      · cases hfield
        have := h.get? hget _ rfl
        omega
      · cases hfield
    · cases hfield

theorem isWritable_of_parse? {document : String} (h : parse? document = some s) :
    s.isWritable = true := by
  obtain ⟨es, hparse, h⟩ := Option.bind_eq_some_iff.mp h
  have hfits := Document.fits_parse? hparse
  simp only [ofEntries, Option.bind_eq_bind, Option.bind_eq_some_iff] at h
  obtain ⟨_, -, _, hread, _, hwrite, _, hqueue, _, hsize, _, -, heq⟩ := h
  cases heq
  rw [isWritable_iff]
  exact ⟨lt_of_field hfits (by decide) hread, lt_of_field hfits (by decide) hwrite,
    lt_of_field hfits (by decide) hqueue, lt_of_field hfits (by decide) hsize⟩

theorem parse?_of_write? {document : String} (h : s.write? = some document) :
    parse? document = some s := by
  unfold write? at h
  split at h
  · rename_i hwritable
    cases h
    rw [parse?, parse?_document hwritable, Option.bind_some, ofEntries_tree]
  · cases h

/-- **Settings survive writing and reading.** They can be written exactly if every number fits, then the
document reads back as the same settings, and whatever was read can be written and read again. -/
theorem written_and_read :
    (∀ s : Settings, s.write?.isSome = true ↔
      s.readTimeoutMs ≤ 2 ^ 63 - 1 ∧ s.writeTimeoutMs ≤ 2 ^ 63 - 1 ∧
        s.queueCapacity ≤ 2 ^ 63 - 1 ∧ s.maxMessageSize ≤ 2 ^ 63 - 1) ∧
    (∀ (s : Settings) document, s.write? = some document → parse? document = some s) ∧
    ∀ document s, parse? document = some s →
      ∃ again, s.write? = some again ∧ parse? again = some s := by
  refine ⟨fun s => ?_, fun s document => parse?_of_write?, fun document s hparse => ?_⟩
  · rw [write?, Option.isSome_ite, isWritable_iff]
    omega
  · have hwrite : s.write? = some s.document := if_pos (isWritable_of_parse? hparse)
    exact ⟨s.document, hwrite, parse?_of_write? hwrite⟩

/-- Settings with text that every way of quoting has trouble with. -/
def awkward : Settings where
  bindAddress := "\n\"\"\"''' \\ \x07\x7f"
  queueCapacity := 2 ^ 63 - 1
  tls := some { certPath := "", keyPath := "''k\"", startTls := true }

theorem written_and_read_awkward :
    (awkward.write? = some awkward.document ∧ parse? awkward.document = some awkward) ∧
    ∃ again, ({ maxMessageSize := 16, tls := some ⟨"C:\\cert", "key", false⟩ } : Settings).write? =
        some again ∧
      parse? again = some { maxMessageSize := 16, tls := some ⟨"C:\\cert", "key", false⟩ } := by
  have hwrite : awkward.write? = some awkward.document := if_pos (by decide)
  have hparse : parse? "max_message_size = 0x10\n[tls]\ncert_path='C:\\cert'\nkey_path = 'key'" =
      some { maxMessageSize := 16, tls := some ⟨"C:\\cert", "key", false⟩ } := by
    decide +kernel
  exact ⟨⟨hwrite, written_and_read.2.1 awkward _ hwrite⟩, written_and_read.2.2 _ _ hparse⟩

end Directory.Settings
