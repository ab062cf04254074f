import Directory.Proofs.Ber.Grammar
import Directory.Proofs.Message.RoundTrip

/-!
# The grammar of messages

Which runs of octets are messages, and which message each of them is, said by rules: an operation has
its own identifier octet and its components one behind the other, and an envelope is one sequence of
a message identifier, one operation and, at most, the controls. The rules take every form of a length
and of a number that the elements allow, and they look ahead in one place only: behind the mechanism
of a security-mechanism element anything may stand, and it is the credentials if it begins like them.

The decoder is compared with the rules component by component. What it reads is derivable, for it
takes a form off the front at every step; what is derivable is read, for no optional component can be
taken for the one behind it.
-/

namespace Directory.Grammar

open Ber Ber.Reader

/-- A result code, a matched name and a diagnostic, with a referral that may stand behind them and
does not matter. -/
inductive OutcomeForm (o : Outcome) : Octets → Prop
  | intro {code dn diagnostic referral dropped}
      (hcode : IntegerForm 0x0A (o.code.value.toNat : Int) code) (hdn : TextForm 0x04 o.matchedDn dn)
      (hdiagnostic : TextForm 0x04 o.diagnostic diagnostic)
      (hreferral : OptionalForm 0xA3 dropped referral) :
      OutcomeForm o (code ++ (dn ++ (diagnostic ++ referral)))

/-- A password, or a mechanism with its credentials, behind which anything may stand that does not
begin like credentials. -/
inductive AuthenticationForm : Authentication → Octets → Prop
  | simple {password bytes} (h : ElementForm 0x80 password bytes) :
      AuthenticationForm (.simple password) bytes
  | sasl {mechanism credentials first second ignored bytes} (hfirst : TextForm 0x04 mechanism first)
      (hsecond : OptionalForm 0x04 credentials second)
      (hignored : credentials = none → ignored.head? ≠ some 0x04)
      (h : ElementForm 0xA3 (first ++ (second ++ ignored)) bytes) :
      AuthenticationForm (.sasl mechanism credentials) bytes

def plainTags : List (PlainResponse × UInt8) :=
  [(.searchDone, 0x65), (.modify, 0x67), (.add, 0x69), (.delete, 0x6B), (.modifyDn, 0x6D),
    (.compare, 0x6F)]

def ruledTags : List UInt8 := [0x60, 0x61, 0x42, 0x50, 0x77, 0x78] ++ plainTags.map (·.2)

/-- An operation from its identifier octet and the content of its element. -/
inductive OperationForm : Operation → UInt8 → Octets → Prop
  | bindRequest {r : BindRequest} {version name authentication}
      (hrange : 1 ≤ r.version ∧ r.version ≤ 127)
      (hversion : IntegerForm 0x02 (r.version.toNat : Int) version)
      (hname : TextForm 0x04 r.name name)
      (hauthentication : AuthenticationForm r.authentication authentication) :
      OperationForm (.bindRequest r) 0x60 (version ++ (name ++ authentication))
  | bindResponse {o c outcome credentials} (ho : OutcomeForm o outcome)
      (hc : OptionalForm 0x87 c credentials) :
      OperationForm (.bindResponse o c) 0x61 (outcome ++ credentials)
  | unbindRequest (ignored : Octets) : OperationForm .unbindRequest 0x42 ignored
  | abandonRequest {target : MessageId} {content} (hrange : 0 ≤ target)
      (htarget : IntegerContent content target.toInt) :
      OperationForm (.abandonRequest target) 0x50 content
  | extendedRequest {n v name value} (hn : TextForm 0x80 n name) (hv : OptionalForm 0x81 v value) :
      OperationForm (.extendedRequest n v) 0x77 (name ++ value)
  | extendedResponse {o n v outcome name value} (ho : OutcomeForm o outcome)
      (hn : OptionalTextForm 0x8A n name) (hv : OptionalForm 0x8B v value) :
      OperationForm (.extendedResponse o n v) 0x78 (outcome ++ (name ++ value))
  | plainResponse {kind o tag outcome} (htag : (kind, tag) ∈ plainTags) (ho : OutcomeForm o outcome) :
      OperationForm (.plainResponse kind o) tag outcome
  | other {tag payload} (happlication : tag &&& 0xC0 = 0x40) (hfree : tag ∉ ruledTags) :
      OperationForm (.other tag payload) tag payload

/-- A whole message: one sequence and nothing else. -/
inductive EnvelopeForm (m : Message) : Octets → Prop
  | intro {id tag content operation controls bytes} (hrange : 0 ≤ m.id)
      (hid : IntegerForm 0x02 m.id.toInt id) (hoperation : ElementForm tag content operation)
      (hop : OperationForm m.op tag content) (hcontrols : OptionalForm 0xA0 m.controls controls)
      (h : ElementForm 0x30 (id ++ (operation ++ controls)) bytes) : EnvelopeForm m bytes

variable {bytes content rest form : Octets} {tag : UInt8}

/-! ## Outcomes and authentications -/

theorem outcomeForm_of_on {o : Outcome} (h : Outcome.reader.on bytes = (.ok o, rest)) :
    ∃ form, OutcomeForm o form ∧ bytes = form ++ rest := by
  simp only [Outcome.reader, on_bind_eq_ok, on_pure_eq_ok, on_lift_eq_ok] at h
  obtain ⟨raw, _, ron, c, _, ⟨hc, rfl⟩, dn, _, don, diagnostic, _, gon, _, _, fon, rfl, rfl⟩ := h
  obtain ⟨code, hcode, rfl⟩ := on_integer_iff.mp ron
  obtain ⟨dnForm, hdn, rfl⟩ := on_text_iff.mp don
  obtain ⟨diagnosticForm, hdiagnostic, rfl⟩ := on_text_iff.mp gon
  obtain ⟨referral, hreferral, rfl, -⟩ := optionalForm_of_on fon
  rw [← ResultCode.ofInteger_eq_ok.mp hc] at hcode
  exact ⟨_, OutcomeForm.intro hcode hdn hdiagnostic hreferral, by simp only [List.append_assoc]⟩

theorem on_of_outcomeForm {o : Outcome} (h : OutcomeForm o form)
    (hrest : rest.head? ≠ some 0xA3) : Outcome.reader.on (form ++ rest) = (.ok o, rest) := by
  obtain ⟨hcode, hdn, hdiagnostic, hreferral⟩ := h
  simp only [Outcome.reader, on_bind_eq_ok, on_pure_eq_ok, on_lift_eq_ok, List.append_assoc]
  have hinteger : ResultCode.ofInteger (o.code.value.toNat : Int) = .ok o.code :=
    ResultCode.ofInteger_eq_ok.mpr rfl
  exact ⟨_, _, on_integer_iff.mpr ⟨_, hcode, rfl⟩, _, _, ⟨hinteger, rfl⟩, _, _,
    on_text_iff.mpr ⟨_, hdn, rfl⟩, _, _, on_text_iff.mpr ⟨_, hdiagnostic, rfl⟩, _, _,
    on_of_optionalForm hreferral fun _ => hrest, rfl, rfl⟩

theorem authenticationForm_of_on {a : Authentication}
    (h : Authentication.reader.on bytes = (.ok a, rest)) :
    ∃ form, AuthenticationForm a form ∧ bytes = form ++ rest := by
  simp only [Authentication.reader, on_bind_eq_ok] at h
  obtain ⟨⟨found, content⟩, _, hel, h⟩ := h
  obtain ⟨form, hform, rfl⟩ := elementForm_of_split (on_element_eq_ok.mp hel)
  split at h
  next hsimple =>
    obtain ⟨rfl, rfl⟩ := on_pure_eq_ok.mp h
    obtain rfl : found = 0x80 := hsimple
    exact ⟨form, AuthenticationForm.simple hform, rfl⟩
  next =>
    split at h
    next hsasl =>
      obtain rfl : found = 0xA3 := hsasl
      obtain ⟨hanswer, rfl⟩ := on_lift_eq_ok.mp h
      obtain ⟨ignored, hparts⟩ := answer_eq_ok.mp hanswer
      simp only [Authentication.saslReader, on_bind_eq_ok, on_pure_eq_ok] at hparts
      obtain ⟨mechanism, _, mon, credentials, _, con, rfl, rfl⟩ := hparts
      obtain ⟨first, hfirst, rfl⟩ := on_text_iff.mp mon
      obtain ⟨second, hsecond, rfl, hignored⟩ := optionalForm_of_on con
      exact ⟨form, AuthenticationForm.sasl hfirst hsecond hignored hform, rfl⟩
    next => cases h

theorem on_of_authenticationForm {a : Authentication} (h : AuthenticationForm a form)
    (rest : Octets) : Authentication.reader.on (form ++ rest) = (.ok a, rest) := by
  simp only [Authentication.reader, on_bind_eq_ok]
  cases h with
  | simple hform =>
      refine ⟨_, _, on_element_eq_ok.mpr (split_of_elementForm hform rest), ?_⟩
      rw [if_pos (show (0x80 : UInt8) = Field.simplePassword from rfl), on_pure_eq_ok]
      exact ⟨rfl, rfl⟩
  | sasl hfirst hsecond hignored hform =>
      refine ⟨_, _, on_element_eq_ok.mpr (split_of_elementForm hform rest), ?_⟩
      rw [if_neg (show ¬(0xA3 : UInt8) = Field.simplePassword by decide),
        if_pos (show (0xA3 : UInt8) = Field.sasl from rfl), on_lift_eq_ok, answer_eq_ok]
      refine ⟨?_, rfl⟩
      simp only [Authentication.saslReader, on_bind_eq_ok, on_pure_eq_ok]
      exact ⟨_, _, _, on_text_iff.mpr ⟨_, hfirst, rfl⟩, _, _, on_of_optionalForm hsecond hignored,
        rfl, rfl⟩

/-! ## Operations -/

theorem optionalTextForm_of_on {s : Option String}
    (h : (Operation.optionalText tag).on bytes = (.ok s, rest)) :
    ∃ form, OptionalTextForm tag s form ∧ bytes = form ++ rest := by
  simp only [Operation.optionalText, on_bind_eq_ok] at h
  obtain ⟨c, _, hoptional, h⟩ := h
  obtain ⟨form, hform, rfl, -⟩ := optionalForm_of_on hoptional
  cases c with
  | none =>
      obtain ⟨rfl, rfl⟩ := on_pure_eq_ok.mp h
      exact ⟨form, optionalTextForm_iff.mpr hform, rfl⟩
  | some content =>
      simp only [on_bind_eq_ok, on_lift_eq_ok, on_pure_eq_ok] at h
      obtain ⟨text, _, ⟨htext, rfl⟩, rfl, rfl⟩ := h
      obtain rfl := spelling_eq_ok_iff.mp htext
      exact ⟨form, optionalTextForm_iff.mpr hform, rfl⟩

theorem on_of_optionalTextForm {s : Option String} (h : OptionalTextForm tag s form)
    (hrest : s = none → rest.head? ≠ some tag) :
    (Operation.optionalText tag).on (form ++ rest) = (.ok s, rest) := by
  rw [optionalTextForm_iff] at h
  simp only [Operation.optionalText, on_bind_eq_ok]
  refine ⟨_, _, on_of_optionalForm h fun hnone => hrest (Option.map_eq_none_iff.mp hnone), ?_⟩
  cases s with
  | none => exact on_pure_eq_ok.mpr ⟨rfl, rfl⟩
  | some s =>
      simp only [Option.map_some, on_bind_eq_ok, on_lift_eq_ok, on_pure_eq_ok]
      exact ⟨s, rest, ⟨spelling_eq_ok_iff.mpr rfl, rfl⟩, rfl, rfl⟩

theorem mem_plainTags_iff {kind : PlainResponse} : (kind, tag) ∈ plainTags ↔ tag = kind.tag := by
  constructor
  · intro h
    simp only [plainTags, List.mem_cons, Prod.mk.injEq, List.not_mem_nil, or_false] at h
    rcases h with ⟨rfl, rfl⟩ | ⟨rfl, rfl⟩ | ⟨rfl, rfl⟩ | ⟨rfl, rfl⟩ | ⟨rfl, rfl⟩ | ⟨rfl, rfl⟩ <;> rfl
  · rintro rfl
    cases kind <;> decide

theorem ruledTags_eq : ruledTags = Operation.structuredTags := by decide

theorem operationForm_of_readFrom {op : Operation} (h : op.ReadFrom tag content) :
    OperationForm op tag content := by
  cases op with
  | bindRequest r =>
      obtain ⟨rfl, h⟩ := h
      simp only [BindRequest.reader, on_bind_eq_ok, on_pure_eq_ok, on_lift_eq_ok] at h
      obtain ⟨raw, _, von, version, _, ⟨hof, rfl⟩, name, _, non, authentication, _, aon, rfl,
        rfl⟩ := h
      obtain ⟨hrange, rfl⟩ := BindRequest.versionOfInteger_eq_ok.mp hof
      obtain ⟨_, hversion, rfl⟩ := on_integer_iff.mp von
      obtain ⟨_, hname, rfl⟩ := on_text_iff.mp non
      obtain ⟨_, hauthentication, rfl⟩ := authenticationForm_of_on aon
      rw [List.append_nil]
      exact OperationForm.bindRequest hrange hversion hname hauthentication
  | bindResponse o c =>
      obtain ⟨rfl, h⟩ := h
      simp only [Operation.bindResponseReader, on_bind_eq_ok, on_pure_eq_ok] at h
      obtain ⟨_, _, oon, _, _, con, heq, rfl⟩ := h
      cases heq
      obtain ⟨_, ho, rfl⟩ := outcomeForm_of_on oon
      obtain ⟨_, hc, rfl, -⟩ := optionalForm_of_on con
      rw [List.append_nil]
      exact OperationForm.bindResponse ho hc
  | unbindRequest =>
      obtain rfl : tag = Operation.Tag.unbindRequest := h
      exact OperationForm.unbindRequest content
  | abandonRequest target =>
      obtain ⟨rfl, raw, hraw, htarget⟩ := h
      obtain ⟨hrange, rfl⟩ := MessageId.ofInteger_eq_ok.mp htarget
      exact OperationForm.abandonRequest hrange (integerContent_iff.mpr hraw)
  | extendedRequest n v =>
      obtain ⟨rfl, h⟩ := h
      simp only [Operation.extendedRequestReader, on_bind_eq_ok, on_pure_eq_ok] at h
      obtain ⟨_, _, non, _, _, von, heq, rfl⟩ := h
      cases heq
      obtain ⟨_, hn, rfl⟩ := on_text_iff.mp non
      obtain ⟨_, hv, rfl, -⟩ := optionalForm_of_on von
      rw [List.append_nil]
      exact OperationForm.extendedRequest hn hv
  | extendedResponse o n v =>
      obtain ⟨rfl, h⟩ := h
      simp only [Operation.extendedResponseReader, on_bind_eq_ok, on_pure_eq_ok] at h
      obtain ⟨_, _, oon, _, _, non, _, _, von, heq, rfl⟩ := h
      cases heq
      obtain ⟨_, ho, rfl⟩ := outcomeForm_of_on oon
      obtain ⟨_, hn, rfl⟩ := optionalTextForm_of_on non
      obtain ⟨_, hv, rfl, -⟩ := optionalForm_of_on von
      rw [List.append_nil]
      exact OperationForm.extendedResponse ho hn hv
  | plainResponse kind o =>
      obtain ⟨htag, h⟩ := h
      obtain ⟨_, ho, rfl⟩ := outcomeForm_of_on h
      rw [List.append_nil]
      exact OperationForm.plainResponse (mem_plainTags_iff.mpr htag) ho
  | other found payload =>
      obtain ⟨rfl, rfl, happlication, hfree⟩ := h
      rw [← ruledTags_eq] at hfree
      exact OperationForm.other (beq_iff_eq.mp happlication) hfree

theorem head?_nil_ne (tag : UInt8) : ([] : Octets).head? ≠ some tag := nofun

def HasParts : Operation → Prop
  | .unbindRequest | .abandonRequest _ | .other _ _ => False
  | _ => True

/-- The identifier octets of the parts that can still be put behind those that are there. -/
def openTags : Operation → List UInt8
  | .bindResponse _ none => [0xA3, 0x87]
  | .extendedRequest _ none => [0x81]
  | .extendedResponse _ none none => [0xA3, 0x8A, 0x8B]
  | .extendedResponse _ (some _) none => [0x8B]
  | .plainResponse _ _ => [0xA3]
  | _ => []

/-- **The parts of an operation are read**, whatever follows them, if it is not taken for one more of
them. -/
theorem parts_of_operationForm {op : Operation} (h : OperationForm op tag content)
    (hparts : HasParts op) :
    ∃ r : Reader Operation, (∀ bytes, Operation.decode tag bytes = Operation.whole r bytes) ∧
      ∀ more, (∀ tag ∈ openTags op, more.head? ≠ some tag) →
        r.on (content ++ more) = (.ok op, more) := by
  cases h with
  | bindRequest hrange hversion hname hauthentication =>
      refine ⟨_, Operation.decode_bindRequest, fun more _ => ?_⟩
      simp only [on_map_eq_ok, BindRequest.reader, on_bind_eq_ok, on_pure_eq_ok, on_lift_eq_ok,
        List.append_assoc]
      exact ⟨_, ⟨_, _, on_integer_iff.mpr ⟨_, hversion, rfl⟩, _, _,
        ⟨BindRequest.versionOfInteger_eq_ok.mpr ⟨hrange, rfl⟩, rfl⟩, _, _,
        on_text_iff.mpr ⟨_, hname, rfl⟩, _, _, on_of_authenticationForm hauthentication _, rfl,
        rfl⟩, rfl⟩
  | @bindResponse o c _ _ ho hc =>
      refine ⟨_, Operation.decode_bindResponse, fun more hmore => ?_⟩
      simp only [Operation.bindResponseReader, on_bind_eq_ok, on_pure_eq_ok, List.append_assoc]
      have hopen : c = none → ∀ tag ∈ [0xA3, 0x87], more.head? ≠ some tag := by
        rintro rfl
        exact hmore
      have hreferral := head?_of_optionalForm hc (by decide) fun hnone => hopen hnone 0xA3 (by simp)
      exact ⟨_, _, on_of_outcomeForm ho hreferral, _, _,
        on_of_optionalForm hc fun hnone => hopen hnone 0x87 (by simp), rfl, rfl⟩
  | @extendedRequest _ v _ _ hn hv =>
      refine ⟨_, Operation.decode_extendedRequest, fun more hmore => ?_⟩
      simp only [Operation.extendedRequestReader, on_bind_eq_ok, on_pure_eq_ok, List.append_assoc]
      have hopen : v = none → more.head? ≠ some 0x81 := by
        rintro rfl
        exact hmore 0x81 (by simp [openTags])
      exact ⟨_, _, on_text_iff.mpr ⟨_, hn, rfl⟩, _, _, on_of_optionalForm hv hopen, rfl, rfl⟩
  | @extendedResponse o n v _ _ _ ho hn hv =>
      refine ⟨_, Operation.decode_extendedResponse, fun more hmore => ?_⟩
      simp only [Operation.extendedResponseReader, on_bind_eq_ok, on_pure_eq_ok, List.append_assoc]
      have hopen : v = none → more.head? ≠ some 0x8B := by
        rintro rfl
        cases n with
        | none => exact hmore 0x8B (by simp [openTags])
        | some _ => exact hmore 0x8B (by simp [openTags])
      have hboth : n = none → v = none → ∀ tag ∈ [0xA3, 0x8A, 0x8B], more.head? ≠ some tag := by
        rintro rfl rfl
        exact hmore
      -- Neither the name nor the value is taken for a referral, nor the value for the name.
      have hname : n = none → (_ ++ more).head? ≠ some 0x8A := fun hnone =>
        head?_of_optionalForm hv (by decide) fun hnone' => hboth hnone hnone' 0x8A (by simp)
      have hreferral := head?_of_optionalForm (optionalTextForm_iff.mp hn) (by decide) fun hnone =>
        head?_of_optionalForm hv (by decide) fun hnone' =>
          hboth (Option.map_eq_none_iff.mp hnone) hnone' 0xA3 (by simp)
      exact ⟨_, _, on_of_outcomeForm ho hreferral, _, _, on_of_optionalTextForm hn hname, _, _,
        on_of_optionalForm hv hopen, rfl, rfl⟩
  | @plainResponse kind _ _ _ htag ho =>
      obtain rfl := mem_plainTags_iff.mp htag
      refine ⟨_, Operation.decode_plainResponse kind, fun more hmore => ?_⟩
      rw [on_map_eq_ok]
      exact ⟨_, on_of_outcomeForm ho (hmore 0xA3 (by simp [openTags])), rfl⟩
  | unbindRequest => exact hparts.elim
  | abandonRequest => exact hparts.elim
  | other => exact hparts.elim

theorem decode_of_operationForm {op : Operation} (h : OperationForm op tag content)
    (hparts : HasParts op) : Operation.decode tag content = .ok op := by
  obtain ⟨r, hdecode, hread⟩ := parts_of_operationForm h hparts
  have hend := hread [] fun tag _ => head?_nil_ne tag
  rw [List.append_nil] at hend
  rw [hdecode, Operation.whole_eq_ok, hend]

theorem readFrom_of_operationForm {op : Operation} (h : OperationForm op tag content) :
    op.ReadFrom tag content := by
  by_cases hparts : HasParts op
  · exact Operation.readFrom_of_decode (decode_of_operationForm h hparts)
  · cases h with
    | unbindRequest ignored => rfl
    | abandonRequest hrange htarget =>
        exact ⟨rfl, _, integerContent_iff.mp htarget, MessageId.ofInteger_eq_ok.mpr ⟨hrange, rfl⟩⟩
    | other happlication hfree =>
        rw [ruledTags_eq] at hfree
        exact ⟨rfl, rfl, beq_iff_eq.mpr happlication, hfree⟩
    | _ => exact absurd trivial hparts

/-! ## Whole messages -/

theorem envelopeForm_of_decode {m : Message} (h : Message.decode bytes = .ok m) :
    EnvelopeForm m bytes := by
  obtain ⟨content, hsplit, _, hread⟩ := Message.decode_eq_ok_iff.mp h
  obtain ⟨raw, _, tag, opContent, _, ion, hof, hop, hreadFrom, con, rfl⟩ :=
    Message.on_reader_eq_ok.mp hread
  obtain ⟨hrange, rfl⟩ := MessageId.ofInteger_eq_ok.mp hof
  obtain ⟨id, hid, rfl⟩ := on_integer_iff.mp ion
  obtain ⟨operation, hoperation, rfl⟩ := elementForm_of_split hop
  obtain ⟨controls, hcontrols, rfl, -⟩ := optionalForm_of_on con
  obtain ⟨form, hform, rfl⟩ := elementForm_of_split hsplit
  rw [List.append_nil] at hform ⊢
  exact EnvelopeForm.intro hrange hid hoperation (operationForm_of_readFrom hreadFrom) hcontrols
    hform

theorem decode_of_envelopeForm {m : Message} (h : EnvelopeForm m bytes) :
    Message.decode bytes = .ok m := by
  obtain ⟨hrange, hid, hoperation, hop, hcontrols, hform⟩ := h
  have hsplit := split_of_elementForm hform []
  have hend := on_of_optionalForm hcontrols fun _ => head?_nil_ne Field.controls
  rw [List.append_nil] at hsplit hend
  refine Message.decode_eq_ok_iff.mpr ⟨_, hsplit, [], Message.on_reader_eq_ok.mpr ?_⟩
  exact ⟨_, _, _, _, _, on_integer_iff.mpr ⟨_, hid, rfl⟩,
    MessageId.ofInteger_eq_ok.mpr ⟨hrange, rfl⟩, split_of_elementForm hoperation _,
    readFrom_of_operationForm hop, hend, rfl⟩

end Directory.Grammar

namespace Directory.Message

/-- **The decoder accepts what the grammar derives**, and answers with the message that it is derived
for. -/
theorem decode_eq_ok_iff_envelopeForm (bytes : Octets) (m : Message) :
    decode bytes = .ok m ↔ Grammar.EnvelopeForm m bytes := by
  constructor
  · exact Grammar.envelopeForm_of_decode
  · exact Grammar.decode_of_envelopeForm

end Directory.Message
