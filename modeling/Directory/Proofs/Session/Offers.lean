import Directory.Proofs.Output.Place
import Directory.Proofs.Session.Teardown

/-!
# Who offers what to the output

Four parties put items into the outbox of a session: whoever holds the sink of a request, the
reading party when it asks for a pause, the watcher, and the closing down (`Session.Offers`). What
was offered in a run is kept with the step that offered it (`Session.offerings`), so that two items
of the same content can be told apart. What was let in is a beginning of that list (`Recorded`): the
outbox leaves nothing out and changes no order.
-/

namespace Directory.Session

inductive Offers (s : Session) : Action → Item → Prop where
  | response {r i m} (hi : s.requests[r]? = some i) :
      Offers s (.handler r (.write m)) (.message ((sinkOf i).stamp m))
  | pause {r i} (hr : s.Agreed r i) : Offers s .read (.pause s.output.nextPause)
  | notice (hw : s.watcher = .watching) (hc : s.closing = false) (hs : s.stopping = true) :
      Offers s .watch (.message notice)
  | close (hp : s.phase = .closing .sealing) : Offers s .close .close

variable {s s' s₀ mid next : Session} {a : Action} {actions more : List Action}

/-- A move leaves the outbox to the output, or offers it an item. -/
theorem outbox_of_move (hm : Move s a s') :
    (∃ item, Offers s a item ∧ s'.output.outbox = (s.output.outbox.send item).2) ∨
      s.output.outbox.Drains s'.output.outbox := by
  have hsent {o o' : Output} {item : Item} {receipt : Receipt} (ho : o.send item = (receipt, o')) :
      o'.outbox = (o.outbox.send item).2 := (congrArg (·.2.outbox) ho).symm
  have hpause {o' : Output} {receipt : Receipt} (ho : s.requestPause = (receipt, o')) :
      o'.outbox = (s.output.outbox.send (.pause s.output.nextPause)).2 :=
    (congrArg (·.2.outbox) ho).symm
  cases hm with
  | write hi => exact .inl ⟨_, .response hi, rfl⟩
  | pauseQueued hr hs hb ho | pauseOffered hr hs hb ho | pauseRefused hr hs hb ho =>
      exact .inl ⟨_, .pause hr, hpause ho⟩
  | noticeQueued hw hc hs ho | noticeOffered hw hc hs ho | noticeRefused hw hc hs ho =>
      exact .inl ⟨_, .notice hw hc hs, hsent ho⟩
  | closeQueued hp ho | closeOffered hp ho | closeRefused hp ho =>
      exact .inl ⟨_, .close hp, hsent ho⟩
  | emit ho => exact .inr (Output.drains_of_turn (Output.turn_of_step? ho))
  | _ => exact .inr .rests

theorem place_of_move (hm : Move s a s') (hn : s.output.outbox.Numbered) {ticket index : Nat}
    (h : s.output.outbox.Place ticket index) : s'.output.outbox.Place ticket index := by
  rcases outbox_of_move hm with ⟨item, -, heq⟩ | hdrains
  · exact heq ▸ h.send item
  · exact h.drains hn hdrains

theorem admitted_of_move (hm : Move s a s') :
    s.output.outbox.admitted <+: s'.output.outbox.admitted := by
  rcases outbox_of_move hm with ⟨item, -, heq⟩ | hdrains
  · exact heq ▸ Outbox.admitted_prefix_send ..
  · exact hdrains.admitted_prefix

theorem admitted_of_run (h : s.run? actions = some s') :
    s.output.outbox.admitted <+: s'.output.outbox.admitted :=
  run?_induction (motive := fun _ t => s.output.outbox.admitted <+: t.output.outbox.admitted)
    (List.prefix_refl _) (fun _ hmid hm => hmid.trans (admitted_of_move hm)) h

theorem numbered_of_move (hm : Move s a s') (hn : s.output.outbox.Numbered) :
    s'.output.outbox.Numbered := by
  rcases outbox_of_move hm with ⟨item, -, heq⟩ | hdrains
  · exact heq ▸ hn.send item
  · exact hn.drains hdrains

theorem numbered_of_run (hn : s.output.outbox.Numbered) (hrun : s.run? actions = some s') :
    s'.output.outbox.Numbered :=
  run?_induction (motive := fun _ t => t.output.outbox.Numbered) hn
    (fun _ hmid hm => numbered_of_move hm hmid) hrun

/-- A receipt keeps its worth. -/
theorem holds_of_run (hn : s.output.outbox.Numbered) {index : Nat} {receipt : Receipt}
    (h : s.output.outbox.Holds index receipt) (hrun : s.run? actions = some s') :
    s'.output.outbox.Holds index receipt := by
  refine run?_induction (motive := fun _ t => t.output.outbox.Holds index receipt) h ?_ hrun
  intro actions mid a next hmid hholds hm
  cases hholds with
  | letIn hlt => exact .letIn (Nat.lt_of_lt_of_le hlt (admitted_of_move hm).length_le)
  | inLine hplace => exact .inLine (place_of_move hm (numbered_of_run hn hmid) hplace)

/-! ## The offers of a run -/

def added (s s' : Session) : List Item :=
  s'.output.outbox.offered.drop s.output.outbox.offered.length

/-- What was let in or made to wait for room in a run, each item with the step that offered it. -/
def offerings (s : Session) : List Action → List (Action × Item)
  | [] => []
  | a :: rest =>
      (s.step? a).elim [] fun s' => (added s s').map (a, ·) ++ offerings s' rest

theorem offerings_append (h : s.run? actions = some mid) (more : List Action) :
    offerings s (actions ++ more) = offerings s actions ++ offerings mid more := by
  induction actions generalizing s with
  | nil =>
      cases h
      rfl
  | cons a rest ih =>
      obtain ⟨next, hnext, hrest⟩ := Option.bind_eq_some_iff.mp h
      rw [List.cons_append, offerings, offerings, hnext]
      simp only [Option.elim_some]
      rw [ih hrest, List.append_assoc]

theorem offerings_singleton (ha : s.step? a = some s') :
    offerings s [a] = (added s s').map (a, ·) := by
  rw [offerings, ha]
  exact List.append_nil _

theorem added_of_move (hm : Move s a s') :
    (∃ item, Offers s a item ∧ s.output.outbox.closed = false ∧
      s'.output.outbox = (s.output.outbox.send item).2 ∧ added s s' = [item]) ∨
    s.output.outbox.Drains s'.output.outbox ∧ added s s' = [] := by
  have hdrains (h : s.output.outbox.Drains s'.output.outbox) : added s s' = [] :=
    List.drop_eq_nil_of_le h.offered_prefix.length_le
  rcases outbox_of_move hm with ⟨item, hoffers, heq⟩ | h
  · cases hclosed : s.output.outbox.closed with
    | true =>
        rw [Outbox.send_of_closed hclosed] at heq
        exact .inr ⟨heq ▸ .rests, hdrains (heq ▸ .rests)⟩
    | false =>
        refine .inl ⟨item, hoffers, rfl, heq, ?_⟩
        rw [added, heq, Outbox.offered_send, hclosed]
        exact List.drop_left
  · exact .inr ⟨h, hdrains h⟩

/-- An account of what was offered fits the outbox. -/
structure Recorded (entries : List (Action × Item)) (s : Session) : Prop where
  numbered : s.output.outbox.Numbered
  admitted : s.output.outbox.admitted <+: entries.map (·.2)
  offered : s.output.outbox.closed = false → s.output.outbox.offered = entries.map (·.2)

namespace Recorded

variable {entries : List (Action × Item)}

theorem length_eq (h : Recorded entries s) (hopen : s.output.outbox.closed = false) :
    s.output.outbox.offered.length = entries.length := by rw [h.offered hopen, List.length_map]

theorem move (h : Recorded entries s) (hm : Move s a s') :
    Recorded (entries ++ (added s s').map (a, ·)) s' := by
  rcases added_of_move hm with ⟨item, -, hopen, heq, hadded⟩ | ⟨hdrains, hadded⟩
  · have hoffered : s'.output.outbox.offered = entries.map (·.2) ++ [item] := by
      rw [heq, Outbox.offered_send, hopen, h.offered hopen]
      rfl
    have hentries : (entries ++ (added s s').map (a, ·)).map (·.2) = s'.output.outbox.offered := by
      rw [hadded, hoffered, List.map_append]
      rfl
    refine ⟨numbered_of_move hm h.numbered, ?_, fun _ => hentries.symm⟩
    rw [hentries]
    exact List.prefix_append ..
  · rw [hadded, List.map_nil, List.append_nil]
    refine ⟨numbered_of_move hm h.numbered, ?_, fun hopen => ?_⟩
    · cases hclosed : s.output.outbox.closed with
      | true => exact hdrains.admitted_eq h.numbered.sound hclosed ▸ h.admitted
      | false =>
          rw [← h.offered hclosed]
          exact (List.prefix_append ..).trans hdrains.offered_prefix
    · rw [hdrains.offered_eq hopen]
      exact h.offered (hdrains.closed_mono hopen)

theorem start {options : Options} {info : SessionInfo} {stopping : Bool}
    (h : start? options info stopping = some s) : Recorded [] s := by
  obtain ⟨-, rfl⟩ := start?_eq_some h
  exact ⟨⟨⟨Nat.zero_le _, fun _ => rfl⟩, List.nodup_nil, nofun, fun _ => rfl⟩, List.prefix_refl _,
    fun _ => rfl⟩

end Recorded

/-- What is kept by every move together with the account of what was offered holds after a run. -/
theorem offerings_induction {motive : List (Action × Item) → Session → Prop} (h₀ : motive [] s)
    (hmove : ∀ {actions entries mid a next}, s.run? actions = some mid → motive entries mid →
      Move mid a next → motive (entries ++ (added mid next).map (a, ·)) next)
    (h : s.run? actions = some s') : motive (offerings s actions) s' := by
  refine foldlM_induction (motive := fun actions t => motive (offerings s actions) t) h₀ ?_ h
  intro actions mid a next hmid hmotive ha
  rw [offerings_append hmid, offerings_singleton ha]
  exact hmove hmid hmotive (move_of_step? ha)

theorem Recorded.run {options : Options} {info : SessionInfo} {stopping : Bool}
    (h₀ : start? options info stopping = some s₀) (h : s₀.run? actions = some s) :
    Recorded (offerings s₀ actions) s :=
  offerings_induction (Recorded.start h₀) (fun _ hmid hm => hmid.move hm) h

/-! ## What becomes of the offers -/

/-- The connection has the octets of these items, of a first part in the clear and of the rest
encrypted. -/
def Delivered (s : Session) (items : List Item) : Prop :=
  ∃ clear secret, items = clear ++ secret ∧
    s.output.wires.on .plain = Item.spelled clear ∧
    s.output.wires.on .secure = Item.spelled secret

theorem Delivered.octets_of_message {front back : List Item} {m : Message}
    (h : s.Delivered (front ++ .message m :: back)) :
    ∃ c before behind, s.output.wires.on c = before ++ m.encode ++ behind := by
  obtain ⟨clear, secret, hsplit, hplain, hsecure⟩ := h
  rcases List.append_eq_append_iff.mp hsplit with
    ⟨between, hbefore, hrest⟩ | ⟨between, hbefore, hrest⟩
  · cases between with
    | nil =>
        refine ⟨.secure, [], Item.spelled back, ?_⟩
        rw [hsecure, ← List.nil_append secret, ← hrest, Item.spelled_cons, List.nil_append]
        rfl
    | cons first between =>
        obtain ⟨rfl, -⟩ := List.cons.inj hrest
        refine ⟨.plain, Item.spelled front, Item.spelled between, ?_⟩
        rw [hplain, hbefore, Item.spelled_append, Item.spelled_cons, List.append_assoc]
        rfl
  · -- It is behind all that was written in the clear.
    refine ⟨.secure, Item.spelled between, Item.spelled back, ?_⟩
    rw [hsecure, hrest, Item.spelled_append, Item.spelled_cons, List.append_assoc]
    rfl

namespace Recorded

variable {entries : List (Action × Item)}

theorem offered_prefix (h : Recorded entries s) :
    s.output.outbox.offered <+: entries.map (·.2) := by
  cases hclosed : s.output.outbox.closed with
  | true =>
      rw [Outbox.offered, h.numbered.sound.nobody_waits hclosed, List.map_nil, List.append_nil]
      exact h.admitted
  | false => exact h.offered hclosed ▸ List.prefix_refl _

/-- The closing item is among the offers once the closing down has offered it, and not before. -/
theorem close_mem_iff (h : Recorded entries s) (ht : s.Teardown) :
    .close ∈ entries.map (·.2) ↔ s.phase.hasSealed = true := by
  rw [← ht.close_mem_iff]
  refine ⟨fun hmem => ?_, fun hmem => h.offered_prefix.subset hmem⟩
  by_contra hnot
  have hunsealed : s.phase.hasSealed = false :=
    eq_false_of_ne_true fun hsealed => hnot (ht.close_mem_iff.mpr hsealed)
  rw [← h.offered (ht.outbox_open hunsealed)] at hmem
  exact hnot hmem

/-- When the connection is given up, and no write has failed, it has what was offered ahead of the
closing item. -/
theorem written (h : Recorded entries s) (ht : s.Teardown)
    (hp : s.phase = .closing .leaving ∨ s.phase = .closed) (hf : s.output.failed = false) :
    s.Delivered (Item.ahead (entries.map (·.2))) ∧
      (Item.ahead (entries.map (·.2))).length < s.output.outbox.admitted.length := by
  obtain ⟨clear, secret, behind, hadmitted, hnot, hplain, hsecure⟩ := ht.written hp hf
  obtain ⟨later, hlater⟩ := h.admitted
  have hahead : Item.ahead (entries.map (·.2)) = clear ++ secret := by
    rw [← hlater, hadmitted, List.append_assoc, List.cons_append]
    exact Item.ahead_of_split hnot _
  refine ⟨⟨clear, secret, hahead, hplain, hsecure⟩, ?_⟩
  rw [hahead, hadmitted]
  simp only [List.length_append, List.length_cons]
  omega

/-- A message that stands ahead of the closing item is let in and written. -/
theorem written_of_ahead (h : Recorded entries s) (ht : s.Teardown)
    (hp : s.phase = .closing .leaving ∨ s.phase = .closed) (hf : s.output.failed = false)
    {front back : List (Action × Item)} {m : Message}
    (hentries : entries = front ++ (a, .message m) :: back) (hahead : .close ∉ front.map (·.2)) :
    front.length < s.output.outbox.admitted.length ∧
      s.Delivered (front.map (·.2) ++ .message m :: Item.ahead (back.map (·.2))) := by
  have hsplit : Item.ahead (entries.map (·.2)) =
      front.map (·.2) ++ .message m :: Item.ahead (back.map (·.2)) := by
    rw [hentries, List.map_append, Item.ahead_append_of_not_mem hahead]
    rfl
  obtain ⟨hdelivered, hlt⟩ := h.written ht hp hf
  rw [hsplit] at hdelivered hlt
  refine ⟨?_, hdelivered⟩
  rw [List.length_append, List.length_map] at hlt
  omega

end Recorded

end Directory.Session
