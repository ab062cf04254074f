import Directory.Proofs.Output.Chronicle
import Directory.Proofs.Output.Service
import Directory.Proofs.Session.Offers
import Directory.Proofs.Session.Progress

/-!
# Whom the envelopes answer

All that a session offers to its output is the notice of the watcher, a control item, or what was
written through the sink of a request, and so under the identifier of that request (`Offers`). Hence
every envelope on the connection is the notice or has the identifier of a request that was handed to a
handler before (`Addressed`): the output writes nothing but what it has taken, envelope by envelope
(`Envelopes`).
-/

namespace Directory

/-- Octets that are the envelopes of good messages, one behind the other. -/
inductive Envelopes (good : Message → Prop) : Octets → Prop
  | nil : Envelopes good []
  | concat {front m} (hfront : Envelopes good front) (hm : good m) : Envelopes good (front ++ m.encode)

/-- Moreover a first part of one more may come last. -/
inductive Envelopes.Cut (good : Message → Prop) : Octets → Prop
  | whole {bytes} (h : Envelopes good bytes) : Cut good bytes
  | part {front m cut} (hfront : Envelopes good front) (hm : good m) (hcut : cut <+: m.encode) :
      Cut good (front ++ cut)

namespace Envelopes

variable {good better : Message → Prop} {bytes : Octets}

theorem mono (h : Envelopes good bytes) (himp : ∀ m, good m → better m) : Envelopes better bytes := by
  induction h with
  | nil => exact .nil
  | concat _ hm ih => exact .concat ih (himp _ hm)

theorem Cut.mono (h : Cut good bytes) (himp : ∀ m, good m → better m) : Cut better bytes := by
  cases h with
  | whole h => exact .whole (h.mono himp)
  | part hfront hm hcut => exact .part (hfront.mono himp) (himp _ hm) hcut

end Envelopes

namespace Output

variable {good : Message → Prop} {o o' : Output} {act : Act} {events : List Event}

/-- What was offered is good, and nothing else is on the connection. -/
structure Writes (good : Message → Prop) (o : Output) : Prop where
  offered : ∀ {m}, .message m ∈ o.outbox.offered → good m
  wires : ∀ c, Envelopes.Cut good (o.wires.on c)
  whole : o.failed = false → o.AtRest → ∀ c, Envelopes good (o.wires.on c)
  /-- The envelope being written comes last, and on the other channel nothing is cut. -/
  writing : ∀ {c left}, o.phase = .writing c left →
    (∃ front m cut, o.wires.on c = front ++ cut ∧ Envelopes good front ∧ good m ∧
      cut ++ left = m.encode) ∧
    ∀ d, d ≠ c → Envelopes good (o.wires.on d)

namespace Writes

theorem mono (h : Writes good o) {better : Message → Prop} (himp : ∀ m, good m → better m) :
    Writes better o where
  offered hm := himp _ (h.offered hm)
  wires c := (h.wires c).mono himp
  whole hf hrest c := (h.whole hf hrest c).mono himp
  writing hp := by
    obtain ⟨⟨front, m, cut, hon, hfront, hm, hcut⟩, hother⟩ := h.writing hp
    exact ⟨⟨front, m, cut, hon, hfront.mono himp, himp m hm, hcut⟩,
      fun d hd => (hother d hd).mono himp⟩

theorem rest (h : Writes good o) (hoffered : ∀ {m}, .message m ∈ o'.outbox.offered → good m)
    (hwires : o'.wires = o.wires)
    (hwhole : o'.failed = false → o'.AtRest → o.failed = false ∧ o.AtRest)
    (hphase : ∀ {c left}, o'.phase = .writing c left → o.phase = .writing c left) :
    Writes good o' where
  offered := hoffered
  wires := by
    rw [hwires]
    exact h.wires
  whole hf hrest := by
    rw [hwires]
    exact h.whole (hwhole hf hrest).1 (hwhole hf hrest).2
  writing hp := by
    rw [hwires]
    exact h.writing (hphase hp)

theorem put (h : Writes good o) {channel : Channel} {left : Octets}
    (hp : o.phase = .writing channel left) (count : Nat) : Writes good (o.put channel left count) := by
  obtain ⟨⟨front, m, cut, hon, hfront, hm, hcut⟩, hother⟩ := h.writing hp
  have hnow : (o.put channel left count).wires.on channel = front ++ (cut ++ left.take count) := by
    rw [← List.append_assoc, ← hon]
    exact Wires.on_write_self ..
  have hwhole : (cut ++ left.take count) ++ left.drop count = m.encode := by
    rw [List.append_assoc, List.take_append_drop, hcut]
  have helse (d : Channel) (hd : d ≠ channel) :
      Envelopes good ((o.put channel left count).wires.on d) := by
    rw [show (o.put channel left count).wires.on d = o.wires.on d from
      Wires.on_write_other _ _ hd]
    exact hother d hd
  refine ⟨h.offered, fun c => ?_, fun hf hrest c => ?_, fun {c rest} hrest => ?_⟩
  · by_cases hc : c = channel
    · rw [hc, hnow]
      exact .part hfront hm ⟨_, hwhole⟩
    · exact .whole (helse c hc)
  · -- The output is at rest again because nothing is left.
    have hnil := drop_of_atRest_put hrest
    by_cases hc : c = channel
    · rw [hnil, List.append_nil] at hwhole
      rw [hc, hnow, hwhole]
      exact .concat hfront hm
    · exact helse c hc
  · obtain ⟨rfl, rfl, -⟩ := writing_of_put hrest
    exact ⟨⟨front, m, _, hnow, hfront, hm, hwhole⟩, helse⟩

theorem turn (h : Writes good o) (ht : Turn o act events o') : Writes good o' := by
  have hdrains := drains_of_turn ht
  have hoffered {m : Message} (hm : .message m ∈ o'.outbox.offered) : good m :=
    h.offered (hdrains.offered_prefix.subset hm)
  cases ht with
  | start htakes hf =>
      have hm := h.offered (Outbox.mem_offered_of_take htakes.take_eq)
      have hwhole := h.whole hf (atRest_of_ready htakes.ready)
      refine ⟨hoffered, h.wires, fun _ hrest => absurd rfl (hrest _ _), fun {c left} hp => ?_⟩
      cases hp
      exact ⟨⟨_, _, [], (List.append_nil _).symm, hwhole _, hm, rfl⟩, fun d _ => hwhole d⟩
  | write hp => exact h.put hp _
  | discard hm | skip hm | closes hm => exact h.rest hoffered rfl (fun hf hrest => ⟨hf, hrest⟩) id
  | writerMissing | «break» | expire => exact h.rest hoffered rfl nofun nofun
  | pause hm => exact h.rest hoffered rfl (fun hf _ => ⟨hf, atRest_of_ready hm.ready⟩) nofun
  | finish hp => exact h.rest hoffered rfl (fun hf _ => ⟨hf, atRest_of_ready hp⟩) nofun
  | resume hp | forsake hp =>
      exact h.rest hoffered rfl (fun hf _ => ⟨hf, fun _ _ hw => nomatch hp.symm.trans hw⟩) nofun

end Writes

end Output

namespace Session

variable {s s' s₀ : Session} {a : Action} {actions : List Action}

/-- The message is the notice, or has the identifier of a request that was handed to a handler. -/
def IsReply (s : Session) (m : Message) : Prop := m = notice ∨ ∃ l ∈ s.letters, m.id = l.message.id

theorem letters_prefix_of_move (hm : Move s a s') : s.letters <+: s'.letters := by
  rcases letters_of_move hm with heq | ⟨_, _, _, _, -, -, heq, -, -⟩
  · exact heq ▸ List.prefix_refl _
  · exact heq ▸ List.prefix_append ..

theorem isReply_of_move (hm : Move s a s') {m : Message} (h : s.IsReply m) : s'.IsReply m :=
  h.imp_right fun ⟨l, hl, hid⟩ => ⟨l, (letters_prefix_of_move hm).subset hl, hid⟩

theorem isReply_of_offers {m : Message} (h : Offers s a (.message m)) : s.IsReply m := by
  cases h with
  | @response r i m hi =>
      exact .inr ⟨i.letter, List.mem_map_of_mem (List.mem_of_getElem? hi), rfl⟩
  | notice => exact .inl rfl

theorem mem_offered_of_move (hm : Move s a s') {item : Item} (h : item ∈ s'.output.outbox.offered) :
    item ∈ s.output.outbox.offered ∨ Offers s a item := by
  rcases outbox_of_move hm with ⟨other, hoffers, heq⟩ | hdrains
  · rw [heq, Outbox.offered_send] at h
    split at h
    · exact .inl h
    · rcases List.mem_append.mp h with hold | hnew
      · exact .inl hold
      · rw [List.mem_singleton.mp hnew]
        exact .inr hoffers
  · exact .inl (hdrains.offered_prefix.subset h)

theorem writes_of_move (ha : s.output.Account) (h : s.output.Writes s.IsReply) (hm : Move s a s') :
    s'.output.Writes s'.IsReply := by
  have hoffered {m : Message} (hmem : .message m ∈ s'.output.outbox.offered) : s.IsReply m :=
    (mem_offered_of_move hm hmem).elim h.offered isReply_of_offers
  refine .mono ?_ fun m => isReply_of_move hm
  rcases (Passage.of_move ha hm).rests ha with hrests | ⟨act, events, -, hturn, -⟩
  · refine h.rest hoffered hrests.wires_eq ?_ ?_
    · rw [hrests.failed_eq, Output.AtRest, hrests.phase_eq]
      exact fun hf hrest => ⟨hf, hrest⟩
    · rw [hrests.phase_eq]
      exact id
  · exact h.turn hturn

/-- What a session says, and to whom. -/
structure Addressed (s : Session) : Prop where
  /-- Whatever is in the outbox, waits for room in it or has left it, is a reply. -/
  offered : ∀ {m}, .message m ∈ s.output.outbox.offered → s.IsReply m
  /-- All that is on the connection is envelopes of replies, the last one perhaps cut short, and this
  only if it is being written or its write has failed. -/
  wires : ∀ c, Envelopes.Cut s.IsReply (s.output.wires.on c)
  whole : s.output.failed = false → s.output.AtRest → ∀ c, Envelopes s.IsReply (s.output.wires.on c)
  /-- What a step adds is the next octets of an envelope, and at that time it is that of a reply. -/
  writes : ∀ {a s'}, s.step? a = some s' → s'.output.wires ≠ s.output.wires →
    ∃ c front m cut left count, a = .output (.write count) ∧ s.IsReply m ∧
      s.output.wires.on c = front ++ cut ∧ cut ++ left = m.encode ∧
      s'.output.wires = s.output.wires.write c (left.take count)

theorem writes_of_run {options : Options} {info : SessionInfo} {stopping : Bool}
    (h₀ : start? options info stopping = some s₀) (h : s₀.run? actions = some s) :
    s.output.Writes s.IsReply := by
  refine run?_induction (motive := fun _ t => t.output.Writes t.IsReply) ?_ ?_ h
  · obtain ⟨-, rfl⟩ := start?_eq_some h₀
    have hnothing (c : Channel) : ({} : Wires).on c = [] := by cases c <;> rfl
    exact ⟨nofun, fun c => hnothing c ▸ .whole .nil, fun _ _ c => hnothing c ▸ .nil, nofun⟩
  · intro actions mid a next hmid hwrites hm
    exact writes_of_move (Teardown.run h₀ hmid).account hwrites hm

/-- Only by writing does anything come to the connection. -/
theorem wires_of_turn {o o' : Output} {act : Output.Act} {events : List Event}
    (ht : Output.Turn o act events o') (hne : o'.wires ≠ o.wires) : ∃ c left count,
      act = .write count ∧ o.phase = .writing c left ∧
        o'.wires = o.wires.write c (left.take count) := by
  cases ht with
  | write hp => exact ⟨_, _, _, rfl, hp, rfl⟩
  | _ => exact absurd rfl hne

theorem addressed_of_run {options : Options} {info : SessionInfo} {stopping : Bool}
    (h₀ : start? options info stopping = some s₀) (h : s₀.run? actions = some s) : s.Addressed := by
  have haccount := (Teardown.run h₀ h).account
  have hwrites := writes_of_run h₀ h
  refine ⟨hwrites.offered, hwrites.wires, hwrites.whole, fun {a s'} hstep hne => ?_⟩
  have hpassage := Passage.of_move haccount (move_of_step? hstep)
  rcases hpassage.rests haccount with hrests | ⟨act, events, ha, hturn, -⟩
  · exact absurd hrests.wires_eq hne
  · obtain ⟨c, left, count, rfl, hp, hwires⟩ := wires_of_turn hturn hne
    obtain ⟨⟨front, m, cut, hon, -, hm, hcut⟩, -⟩ := hwrites.writing hp
    exact ⟨c, front, m, cut, left, count, ha, hm, hon, hcut, hwires⟩

open Rehearsal.Sink in
/-- **Responses keep their order and their identifier.** Whatever is written through any number of
sinks over one outbox, and whenever somebody reads or closes it, the writes are served in turn and what
was let in is received as it was written. So all that a session writes is the notice of the watcher or
has the identifier of a request that it has handed to a handler before. -/
theorem served_in_turn {capacity : Nat} (hroom : 0 < capacity) (script : List Step)
    {options : Options} {info : SessionInfo} {stopping : Bool}
    (h₀ : start? options info stopping = some s₀) (h : s₀.run? actions = some s) :
    InTurn capacity script (play capacity script) ∧ s.Addressed :=
  ⟨inTurn_of_play hroom script, addressed_of_run h₀ h⟩

open Rehearsal.Sink in
/-- Three sinks, two of them with one identifier, write into an outbox with room for one message. -/
def crowdedScript : List Step :=
  [.openSink 7, .openSink 7, .openSink 9, .write 0 lateResponse.op,
    .writeRaw 2 { id := 7, op := .plainResponse .add .success, controls := some [0x30, 0x00] },
    .write 1 lateResponse.op, .receive, .close, .write 2 lateResponse.op, .receive, .receive]

open Rehearsal.Sink in
/-- What was let in before the closing is still received, under the identifier of its sink. -/
theorem served_in_turn_crowded : ∃ s₀ s, start? {} silentInfo false = some s₀ ∧
    s₀.run? lateActions = some s ∧
    (InTurn 1 crowdedScript (play 1 crowdedScript) ∧ s.Addressed) ∧
    ended .queued (play 1 crowdedScript) = [3, 4] ∧
    ended .sessionClosed (play 1 crowdedScript) = [5, 8] ∧
    received (play 1 crowdedScript) =
      [lateResponse,
        { id := 9, op := .plainResponse .add .success, controls := some [0x30, 0x00] }] ∧
    s.output.wires.on .plain = lateResponse.encode := by
  have hends : ((start? {} silentInfo false).bind (·.run? lateActions)).any (fun s =>
      s.output.wires.on .plain = lateResponse.encode) = true := by
    decide +kernel
  obtain ⟨s, hs, hend⟩ := (Option.any_eq_true _ _).mp hends
  obtain ⟨s₀, h₀, hrun⟩ := Option.bind_eq_some_iff.mp hs
  exact ⟨s₀, s, h₀, hrun, served_in_turn Nat.one_pos crowdedScript h₀ hrun, by decide +kernel,
    by decide +kernel, by decide +kernel, of_decide_eq_true hend⟩

end Session

end Directory
