import Directory.Proofs.Session.Offers
import Directory.Proofs.Session.Progress

/-!
# The announcement that the server is stopping

The watcher makes its announcement before it interrupts the reading, and it looks whether the
session is closing down before it makes it. `Told` follows it by what the watcher is at: there is no
announcement among what was offered, or there is one, behind which everything stands that is offered
later, the closing item for one. While the watcher waits for room, its place in line is known; when
it goes on, the announcement was let in. So a reading that the watcher interrupts has been announced
to the client (`AnnouncesOnce`), however often the server is told to stop and whatever else is going
on.
-/

namespace Directory.Session

/-- The announcement is one of the offers of a run, with these ahead of it and those behind it. It
is the only one of the watcher, and the closing item is not ahead of it. -/
structure Stands (entries front back : List (Action × Item)) : Prop where
  entries_eq : entries = front ++ (.watch, .message notice) :: back
  sole : ∀ x ∈ front ++ back, x.1 ≠ .watch
  ahead : .close ∉ front.map (·.2)

structure Announced (entries front back : List (Action × Item)) (s : Session) : Prop
    extends Stands entries front back where
  letIn : front.length < s.output.outbox.admitted.length

/-- What was offered by the watcher so far, by what it is at. -/
inductive Told (entries : List (Action × Item)) (s : Session) : Prop where
  | nothing (hnone : ∀ x ∈ entries, x.1 ≠ .watch)
      (hw : s.watcher = .watching ∨ s.watcher = .done ∧ s.closing = true)
  | offered {front back ticket} (hstands : Stands entries front back)
      (hw : s.watcher = .offering ticket)
      (hplace : s.output.outbox.Place ticket front.length)
  | announced {front back} (hannounced : Announced entries front back s)
      (hw : s.watcher = .announced ∨ s.watcher = .done)

variable {s s' s₀ : Session} {a : Action} {actions more : List Action}
  {entries front back later : List (Action × Item)}

/-! ## What the other parties do -/

theorem watcher_of_move (hm : Move s a s') (ha : a ≠ .watch) : s'.watcher = s.watcher := by
  cases hm with
  | silenced | noticeQueued | noticeOffered | noticeRefused | noticeAdmitted | noticeTurnedAway
  | watcherInterrupts => exact absurd rfl ha
  | _ => rfl

theorem closing_mono (hm : Move s a s') (h : s.closing = true) : s'.closing = true := by
  cases hm with
  | silence => rfl
  | _ => exact h

theorem Stands.append (h : Stands entries front back) (hlater : ∀ x ∈ later, x.1 ≠ .watch) :
    Stands (entries ++ later) front (back ++ later) where
  entries_eq := by rw [h.entries_eq, List.append_assoc, List.cons_append]
  sole := by
    rw [← List.append_assoc]
    intro x hx
    rcases List.mem_append.mp hx with hold | hnew
    · exact h.sole x hold
    · exact hlater x hnew
  ahead := h.ahead

theorem author_ne_watch (ha : a ≠ .watch) (items : List Item) :
    ∀ x ∈ items.map (a, ·), x.1 ≠ Action.watch := by
  intro x hx
  obtain ⟨item, -, rfl⟩ := List.mem_map.mp hx
  exact ha

theorem admitted_length_le (hm : Move s a s') :
    s.output.outbox.admitted.length ≤ s'.output.outbox.admitted.length :=
  (admitted_of_move hm).length_le

theorem added_of_outbox_eq (h : s'.output.outbox = s.output.outbox) : added s s' = [] := by
  rw [added, h]
  exact List.drop_length

namespace Told

theorem move_of_ne_watch (h : Told entries s) (hr : Recorded entries s) (hm : Move s a s')
    (ha : a ≠ .watch) : Told (entries ++ (added s s').map (a, ·)) s' := by
  have hwatcher := watcher_of_move hm ha
  have hlater := author_ne_watch ha (added s s')
  cases h with
  | nothing hnone hw =>
      refine .nothing ?_ ?_
      · intro x hx
        rcases List.mem_append.mp hx with hold | hnew
        · exact hnone x hold
        · exact hlater x hnew
      · rw [hwatcher]
        exact hw.imp_right fun ⟨hdone, hclosing⟩ => ⟨hdone, closing_mono hm hclosing⟩
  | offered hstands hw hplace =>
      exact .offered (hstands.append hlater) (hwatcher.trans hw)
        (place_of_move hm hr.numbered hplace)
  | announced hannounced hw =>
      refine .announced ⟨hannounced.toStands.append hlater, ?_⟩ (hwatcher ▸ hw)
      exact Nat.lt_of_lt_of_le hannounced.letIn (admitted_length_le hm)

end Told

/-! ## What the watcher does -/

/-- Until the watcher has done its work, the closing item is not offered. -/
theorem unsealed_of_watcher (h : s.Teardown) (hw : s.watcher ≠ .done) :
    s.phase.hasSealed = false := by
  apply eq_false_of_ne_true
  intro hsealed
  exact hw (h.still_of_hasSealed hsealed).2

namespace Told

theorem none_of_watching (h : Told entries s) (hw : s.watcher = .watching) :
    ∀ x ∈ entries, x.1 ≠ .watch := by
  cases h with
  | nothing hnone => exact hnone
  | offered _ hw' => cases hw.symm.trans hw'
  | announced _ hw' => rcases hw' with hw' | hw' <;> cases hw.symm.trans hw'

/-- The announcement is offered: it is behind all that was offered before, and that is not the
closing item. -/
theorem stands_of_announce (h : Told entries s) (hr : Recorded entries s) (ht : s.Teardown)
    (hw : s.watcher = .watching) : Stands (entries ++ [(.watch, .message notice)]) entries [] := by
  have hunsealed := unsealed_of_watcher ht (by rw [hw]; nofun)
  refine ⟨rfl, ?_, ?_⟩
  · rw [List.append_nil]
    exact h.none_of_watching hw
  · rw [hr.close_mem_iff ht, hunsealed]
    exact Bool.false_ne_true

theorem announce (h : Told entries s) (hr : Recorded entries s) (ht : s.Teardown)
    (hw : s.watcher = .watching) {receipt : Receipt} {o : Output}
    (ho : s.output.send (.message notice) = (receipt, o)) (hs' : s'.output = o)
    (hreceipt : (receipt = .queued ∨ receipt = .closed) ∧ s'.watcher = .announced ∨
      ∃ ticket, receipt = .waiting ticket ∧ s'.watcher = .offering ticket) :
    Told (entries ++ (added s s').map (.watch, ·)) s' := by
  have hstands := h.stands_of_announce hr ht hw
  have hopen := ht.outbox_open (unsealed_of_watcher ht (by rw [hw]; nofun))
  have hout : s'.output.outbox = (s.output.outbox.send (.message notice)).2 :=
    hs' ▸ (congrArg (·.2.outbox) ho).symm
  have hfst : (s.output.outbox.send (.message notice)).1 = receipt := congrArg Prod.fst ho
  have hholds : s'.output.outbox.Holds entries.length receipt := by
    rw [hout, ← hfst, ← hr.length_eq hopen]
    exact .of_send hopen _
  have hadded : added s s' = [.message notice] := by
    rw [added, hout, Outbox.offered_send, hopen]
    exact List.drop_left
  rw [hadded, List.map_singleton]
  rcases hreceipt with ⟨rfl | rfl, hw'⟩ | ⟨ticket, rfl, hw'⟩
  · cases hholds with
    | letIn hlt => exact .announced ⟨hstands, hlt⟩ (.inl hw')
  · cases hholds
  · cases hholds with
    | inLine hplace => exact .offered hstands hw' hplace

theorem move_of_watch (h : Told entries s) (hr : Recorded entries s) (ht : s.Teardown)
    (hm : Move s .watch s') : Told (entries ++ (added s s').map (.watch, ·)) s' := by
  have hsame (heq : s'.output.outbox = s.output.outbox)
      (htold : Told entries s') : Told (entries ++ (added s s').map (.watch, ·)) s' := by
    rw [added_of_outbox_eq heq, List.map_nil, List.append_nil]
    exact htold
  cases hm with
  | silenced hw hc => exact hsame rfl (.nothing (h.none_of_watching hw) (.inr ⟨rfl, hc⟩))
  | noticeQueued hw hc hs ho => exact h.announce hr ht hw ho rfl (.inl ⟨.inl rfl, rfl⟩)
  | noticeOffered hw hc hs ho => exact h.announce hr ht hw ho rfl (.inr ⟨_, rfl, rfl⟩)
  | noticeRefused hw hc hs ho => exact h.announce hr ht hw ho rfl (.inl ⟨.inr rfl, rfl⟩)
  | noticeAdmitted hw hst =>
      refine hsame rfl ?_
      cases h with
      | nothing _ hw' => rcases hw' with hw' | ⟨hw', -⟩ <;> cases hw.symm.trans hw'
      | offered hstands hw' hplace =>
          cases hw.symm.trans hw'
          have hlt := (hplace.standing_eq_queued_iff hr.numbered).mp hst
          exact .announced ⟨hstands, hlt⟩ (.inl rfl)
      | announced _ hw' => rcases hw' with hw' | hw' <;> cases hw.symm.trans hw'
  | noticeTurnedAway hw hst =>
      -- Nobody is turned away before the closing item is offered.
      have hopen := ht.outbox_open (unsealed_of_watcher ht (by rw [hw]; nofun))
      exact absurd hst (hr.numbered.standing_ne_refused hopen _)
  | watcherInterrupts hw =>
      refine hsame rfl ?_
      cases h with
      | nothing _ hw' => rcases hw' with hw' | ⟨hw', -⟩ <;> cases hw.symm.trans hw'
      | offered _ hw' => cases hw.symm.trans hw'
      | announced hannounced _ =>
          exact .announced ⟨hannounced.toStands, hannounced.letIn⟩ (.inr rfl)

theorem move (h : Told entries s) (hr : Recorded entries s) (ht : s.Teardown) (hm : Move s a s') :
    Told (entries ++ (added s s').map (a, ·)) s' := by
  by_cases ha : a = .watch
  · subst ha
    exact h.move_of_watch hr ht hm
  · exact h.move_of_ne_watch hr hm ha

theorem start {options : Options} {info : SessionInfo} {stopping : Bool}
    (h : start? options info stopping = some s) : Told [] s := by
  obtain ⟨-, rfl⟩ := start?_eq_some h
  exact .nothing (fun _ hx => nomatch hx) (.inl rfl)

theorem run {options : Options} {info : SessionInfo} {stopping : Bool}
    (h₀ : start? options info stopping = some s₀) (hrun : s₀.run? actions = some s) :
    Told (offerings s₀ actions) s := by
  have hboth : Recorded (offerings s₀ actions) s ∧ Told (offerings s₀ actions) s := by
    refine offerings_induction (motive := fun entries s => Recorded entries s ∧ Told entries s)
      ⟨.start h₀, .start h₀⟩ ?_ hrun
    intro actions entries mid a next hmid hboth hm
    have hteardown : mid.Teardown := Teardown.run h₀ hmid
    exact ⟨hboth.1.move hm, hboth.2.move hboth.1 hteardown hm⟩
  exact hboth.2

end Told

/-! ## Who interrupts the reading -/

theorem done_of_move (hm : Move s a s') (h : s.watcher = .done) : s'.watcher = .done := by
  by_cases ha : a = .watch
  · subst ha
    cases hm with
    | silenced | watcherInterrupts => rfl
    | noticeQueued hw | noticeOffered hw | noticeRefused hw | noticeAdmitted hw
    | noticeTurnedAway hw => cases h.symm.trans hw
  · exact (watcher_of_move hm ha).trans h

theorem failed_of_move (ha : s.output.Account) (hm : Move s a s') (h : s.output.failed = true) :
    s'.output.failed = true := by
  rcases (Passage.of_move ha hm).rests ha with hrests | ⟨act, events, -, hturn, -⟩
  · exact hrests.failed_eq.trans h
  · exact Output.failed_mono hturn h

/-- A reading that is interrupted before it is over was interrupted by a write that failed, or by
the watcher. -/
def Explained (s : Session) : Prop :=
  s.interrupted = true →
    s.phase.isOver = true ∨ s.output.failed = true ∨ s.watcher = .done

theorem Explained.move (h : s.Explained) (ha : s.output.Account) (hm : Move s a s') :
    s'.Explained := by
  intro hi
  have hkept (hi : s.interrupted = true) :
      s'.phase.isOver = true ∨ s'.output.failed = true ∨ s'.watcher = .done :=
    (h hi).imp (isOver_of_move hm) (Or.imp (failed_of_move ha hm) (done_of_move hm))
  cases hm with
  | watcherInterrupts => exact .inr (.inr rfl)
  | stopReading => exact .inl rfl
  | emit ho =>
      rcases (Bool.or_eq_true _ _).mp hi with hi | hf
      · exact hkept hi
      · exact .inr (.inl hf)
  | _ => exact hkept hi

theorem Explained.run {options : Options} {info : SessionInfo} {stopping : Bool}
    (h₀ : start? options info stopping = some s₀) (hrun : s₀.run? actions = some s) :
    s.Explained := by
  refine run?_induction (motive := fun _ s => s.Explained) ?_ ?_ hrun
  · obtain ⟨-, rfl⟩ := start?_eq_some h₀
    exact nofun
  · intro actions mid a next hmid hexplained hm
    have hteardown : mid.Teardown := Teardown.run h₀ hmid
    exact hexplained.move hteardown.account hm

/-! ## The promise -/

/-- What is promised of the announcement after a run. -/
structure AnnouncesOnce (s₀ : Session) (actions : List Action) (s : Session) : Prop where
  /-- What was let in is a beginning of what was offered, in that order. -/
  order : s.output.outbox.admitted <+: (offerings s₀ actions).map (·.2)
  /-- The watcher offers nothing but the announcement, at most once and never behind the closing
  item. -/
  once : (∀ x ∈ offerings s₀ actions, x.1 ≠ .watch) ∨
    ∃ front back, Stands (offerings s₀ actions) front back
  unsolicited : ∀ x ∈ offerings s₀ actions, x.1 = .watch → ∃ m, x.2 = .message m ∧ m.id = 0
  /-- When the watcher interrupts the reading, the announcement was let in. -/
  interrupts : ∀ {s'}, s.step? .watch = some s' → s.interrupted = false → s'.interrupted = true →
    ∃ front back, Announced (offerings s₀ actions) front back s
  /-- So it was when the reading, or an upgrade, is to end and no write has failed. -/
  ends : s.interrupted = true → s.phase.isOver = false → s.output.failed = false →
    ∃ front back, Announced (offerings s₀ actions) front back s
  /-- Everything that is offered later stands behind it: all that comes of the sweep, for one. -/
  lasts : ∀ {front back more s'}, Announced (offerings s₀ actions) front back s →
    s.run? more = some s' →
    Announced (offerings s₀ (actions ++ more)) front (back ++ offerings s more) s'
  /-- If it was offered and no write has failed, it is on the connection before that is given up. -/
  written : s.phase = .closing .leaving ∨ s.phase = .closed → s.output.failed = false →
    ∀ x ∈ offerings s₀ actions, x.1 = .watch →
      ∃ c before behind, s.output.wires.on c = before ++ notice.encode ++ behind
  /-- A watcher that finds the session closing down announces nothing. -/
  silent : s.closing = true → s.watcher = .watching → ∀ {more s'}, s.run? more = some s' →
    ∀ x ∈ offerings s₀ (actions ++ more), x.1 ≠ .watch

theorem Stands.countP_eq (h : Stands entries front back) :
    entries.countP (·.1 = .watch) = 1 := by
  have hnone {xs : List (Action × Item)} (hxs : ∀ x ∈ xs, x.1 ≠ .watch) :
      xs.countP (·.1 = .watch) = 0 :=
    List.countP_eq_zero.mpr fun x hx => by simpa using hxs x hx
  rw [h.entries_eq, List.countP_append, List.countP_cons,
    hnone fun x hx => h.sole x (List.mem_append_left _ hx),
    hnone fun x hx => h.sole x (List.mem_append_right _ hx)]
  rfl

namespace Told

theorem once (h : Told entries s) :
    (∀ x ∈ entries, x.1 ≠ .watch) ∨ ∃ front back, Stands entries front back := by
  cases h with
  | nothing hnone => exact .inl hnone
  | offered hstands => exact .inr ⟨_, _, hstands⟩
  | announced hannounced => exact .inr ⟨_, _, hannounced.toStands⟩

theorem announced_of_watcher (h : Told entries s) (hc : s.closing = false)
    (hw : s.watcher = .announced ∨ s.watcher = .done) :
    ∃ front back, Announced entries front back s := by
  cases h with
  | nothing _ hw' =>
      rcases hw' with hw' | ⟨-, hclosing⟩
      · rcases hw with hw | hw <;> cases hw.symm.trans hw'
      · cases hc.symm.trans hclosing
  | offered _ hw' => rcases hw with hw | hw <;> cases hw.symm.trans hw'
  | announced hannounced => exact ⟨_, _, hannounced⟩

theorem later_of_stands (h : Told (entries ++ later) s) (hstands : Stands entries front back) :
    ∀ x ∈ later, x.1 ≠ .watch := by
  have hcount := hstands.countP_eq
  rcases h.once with hnone | ⟨front', back', hlater⟩
  · exact fun x hx => hnone x (List.mem_append_right _ hx)
  · have hall := hlater.countP_eq
    rw [List.countP_append, hcount] at hall
    have hzero : later.countP (·.1 = .watch) = 0 := by omega
    intro x hx
    simpa using List.countP_eq_zero.mp hzero x hx

end Told

/-- Once the session closes down while the watcher still watches, nothing is announced. -/
theorem silent_of_run (hc : s.closing = true) (hw : s.watcher = .watching)
    (hrun : s.run? more = some s') : ∀ x ∈ offerings s more, x.1 ≠ .watch := by
  have hkept : (s'.closing = true ∧ (s'.watcher = .watching ∨ s'.watcher = .done)) ∧
      ∀ x ∈ offerings s more, x.1 ≠ .watch := by
    refine offerings_induction (motive := fun entries t => (t.closing = true ∧
      (t.watcher = .watching ∨ t.watcher = .done)) ∧ ∀ x ∈ entries, x.1 ≠ .watch)
      ⟨⟨hc, .inl hw⟩, fun _ hx => nomatch hx⟩ ?_ hrun
    intro actions entries mid a next _ hmid hm
    obtain ⟨⟨hclosing, hwatcher⟩, hnone⟩ := hmid
    refine ⟨⟨closing_mono hm hclosing, ?_⟩, ?_⟩
    · by_cases ha : a = .watch
      · subst ha
        cases hm with
        | silenced | watcherInterrupts => exact .inr rfl
        | noticeQueued _ hopen | noticeOffered _ hopen | noticeRefused _ hopen =>
            cases hclosing.symm.trans hopen
        | noticeAdmitted hw' | noticeTurnedAway hw' =>
            rcases hwatcher with hwatcher | hwatcher <;> cases hwatcher.symm.trans hw'
      · rw [watcher_of_move hm ha]
        exact hwatcher
    · intro x hx
      rcases List.mem_append.mp hx with hold | hnew
      · exact hnone x hold
      · obtain ⟨item, hitem, rfl⟩ := List.mem_map.mp hnew
        rintro rfl
        rcases added_of_move hm with ⟨_, hoffers, -⟩ | ⟨-, hnothing⟩
        · cases hoffers with
          | notice _ hopen => cases hclosing.symm.trans hopen
        · rw [hnothing] at hitem
          cases hitem
  exact hkept.2

/-- **The client is told before anybody is interrupted.** However the parties are interleaved and
how often the server is told to stop, the watcher announces it at most once, ahead of the closing
item and of all that is offered after the reading was interrupted; and what it has announced is
written. -/
theorem announcesOnce_of_run {options : Options} {info : SessionInfo} {stopping : Bool}
    (h₀ : start? options info stopping = some s₀) (hrun : s₀.run? actions = some s) :
    AnnouncesOnce s₀ actions s := by
  have hrecorded := Recorded.run h₀ hrun
  have htold := Told.run h₀ hrun
  have hprompt := (Reached.run h₀ hrun).prompt
  have hopen (hover : s.phase.isOver = false) : s.closing = false := by
    apply eq_false_of_ne_true
    intro hclosing
    cases hover.symm.trans (hprompt.closing hclosing)
  constructor
  case order => exact hrecorded.admitted
  case once => exact htold.once
  case unsolicited =>
    intro x hx hwatch
    rcases htold.once with hnone | ⟨front, back, hstands⟩
    · exact absurd hwatch (hnone x hx)
    · rw [hstands.entries_eq, List.mem_append, List.mem_cons] at hx
      rcases hx with hx | rfl | hx
      · exact absurd hwatch (hstands.sole x (List.mem_append_left _ hx))
      · exact ⟨notice, rfl, rfl⟩
      · exact absurd hwatch (hstands.sole x (List.mem_append_right _ hx))
  case interrupts =>
    intro s' hstep hnot hi
    have hm := move_of_step? hstep
    cases hm with
    | watcherInterrupts hw =>
        cases htold with
        | nothing _ hw' => rcases hw' with hw' | ⟨hw', -⟩ <;> cases hw.symm.trans hw'
        | offered _ hw' => cases hw.symm.trans hw'
        | announced hannounced => exact ⟨_, _, hannounced⟩
    | _ => cases hnot.symm.trans hi
  case ends =>
    intro hi hover hf
    rcases Explained.run h₀ hrun hi with hover' | hf' | hdone
    · cases hover.symm.trans hover'
    · cases hf.symm.trans hf'
    · exact htold.announced_of_watcher (hopen hover) (.inr hdone)
  case lasts =>
    intro front back more s' hannounced hmore
    have hrun' : s₀.run? (actions ++ more) = some s' :=
      foldlM_append_eq_some.mpr ⟨s, hrun, hmore⟩
    have htold' := Told.run h₀ hrun'
    rw [offerings_append hrun] at htold' ⊢
    refine ⟨hannounced.toStands.append (htold'.later_of_stands hannounced.toStands), ?_⟩
    exact Nat.lt_of_lt_of_le hannounced.letIn (admitted_of_run hmore).length_le
  case written =>
    intro hp hf x hx hwatch
    rcases htold.once with hnone | ⟨front, back, hstands⟩
    · exact absurd hwatch (hnone x hx)
    · obtain ⟨-, hdelivered⟩ :=
        hrecorded.written_of_ahead (.run h₀ hrun) hp hf hstands.entries_eq hstands.ahead
      exact hdelivered.octets_of_message
  case silent =>
    intro hc hw more s' hmore x hx
    rw [offerings_append hrun] at hx
    rcases List.mem_append.mp hx with hold | hnew
    · exact htold.none_of_watching hw x hold
    · exact silent_of_run hc hw hmore x hnew

/-- The server is told to stop twice while a request is served, and its handler answers when it is
asked to stop. -/
def farewellActions : List Action :=
  [.receive lateRequest.encode, .read, .stop, .stop, .watch, .watch, .read, .close, .close, .close,
    .handler 0 .popReason, .handler 0 (.write lateResponse), .output .take,
    .output (.write notice.encode.length), .output .take, .handler 0 .return, .close, .close,
    .output (.write lateResponse.encode.length), .output .take, .output .take, .close, .close]

/-- The client reads the announcement first and the response after that. -/
theorem announcesOnce_farewell : ∃ s₀ s, start? narrowOptions silentInfo false = some s₀ ∧
    s₀.run? farewellActions = some s ∧ AnnouncesOnce s₀ farewellActions s ∧ s.phase = .closed ∧
    s.output.failed = false ∧ s.output.wires.on .plain = notice.encode ++ lateResponse.encode := by
  have hends : ((start? narrowOptions silentInfo false).bind (·.run? farewellActions)).any (fun s =>
      s.phase = .closed ∧ s.output.failed = false ∧
        s.output.wires.on .plain = notice.encode ++ lateResponse.encode) = true := by
    decide +kernel
  obtain ⟨s, hs, hend⟩ := (Option.any_eq_true _ _).mp hends
  obtain ⟨s₀, h₀, hrun⟩ := Option.bind_eq_some_iff.mp hs
  exact ⟨s₀, s, h₀, hrun, announcesOnce_of_run h₀ hrun, of_decide_eq_true hend⟩

end Directory.Session
