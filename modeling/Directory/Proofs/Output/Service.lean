import Directory.Proofs.Output.Script
import Mathlib.Data.List.Basic

/-!
# First come, first served

Writes end in the order in which they come, first those that are let in and then those that are turned
away, and the messages received are those that were let in, from the first one on (`InTurn`). Behind it
is an invariant between a script, its notes and the stage (`Kept`): the numbers of the writes lie in the
stage as they lie in the script, those that were let in ahead of those that wait.
-/

namespace Directory.Rehearsal.Sink

variable {script : List Step} {a : Step} {notes : List Note} {s s' : Stage} {number capacity : Nat}

/-! ## The invariant -/

/-- What a stage has kept of the script that has led to it, and how this fits what was noted. -/
structure Kept (capacity : Nat) (script : List Step) (notes : List Note) (s : Stage) : Prop where
  length_eq : notes.length = script.length
  ids : s.ids = opened script
  reading : s.reading = true ↔ .drop ∉ script
  closed : s.outbox.closed = true ↔ Closes script
  fits : s.outbox.Fits capacity
  received : received notes = s.outbox.gone.map (·.message)
  queued : ended .queued notes = s.outbox.admitted.map (·.step)
  /-- Who has come earlier has ended earlier, and who waits has come last. -/
  order : writes script =
    ended .queued notes ++ (ended .sessionClosed notes ++ s.outbox.waiting.map (·.2.step))
  spared : s.outbox.closed = false → ended .sessionClosed notes = []
  messages : ∀ w ∈ s.outbox.offered, w.step < script.length ∧ written script w.step = some w.message
  pending : waiting notes = s.outbox.waiting.length

/-- Where nothing is taken and nothing closed, no write ends that has waited. -/
theorem settled_eq_nil (hs : s.outbox.Sound) (hclosed : s'.outbox.closed = s.outbox.closed)
    (htaken : s'.outbox.taken = s.outbox.taken) : s.settled s' = [] := by
  unfold Stage.settled
  rw [hclosed, if_pos htaken]
  split
  next hc => rw [hs.nobody_waits hc, List.map_nil]
  next => rfl

/-- What is taken makes room for the write that has waited longest, at an open outbox. -/
theorem settled_of_take {w : Written} {outbox : Outbox Written} (hs : s.outbox.Sound)
    (ht : s.outbox.take = (.item w, outbox)) :
    s.settled { s with outbox } = s.outbox.waiting.head?.toList.map fun w => (w.2.step, .queued) := by
  have htaken : outbox.taken ≠ s.outbox.taken := by
    rw [Outbox.taken_of_take ht]
    omega
  simp only [Stage.settled, if_neg htaken, Outbox.closed_of_take ht]
  split
  next hc => rw [hs.nobody_waits hc, List.head?_nil, List.map_nil, Option.toList_none, List.map_nil]
  next => rfl

theorem map_step_of_filter (entries : List (Nat × Written)) (how how' : Outcome) :
    ((entries.map fun w => (w.2.step, how')).filter (·.2 = how)).map (·.1) =
      if how = how' then entries.map (·.2.step) else [] := by
  by_cases heq : how' = how
  · simp [List.filter_map, Function.comp_def, heq, List.filter_true]
  · simp [List.filter_map, Function.comp_def, heq, Ne.symm heq]

theorem messages_mono {w : Written}
    (h : w.step < script.length ∧ written script w.step = some w.message) :
    w.step < (script ++ [a]).length ∧ written (script ++ [a]) w.step = some w.message := by
  refine ⟨?_, ?_⟩
  · rw [List.length_append]
    exact Nat.lt_add_right _ h.1
  · rw [written_append h.1]
    exact h.2

namespace Kept

theorem start (h : 0 < capacity) : Kept capacity [] [] { outbox := { capacity } } where
  length_eq := rfl
  ids := rfl
  reading := iff_of_true rfl List.not_mem_nil
  closed := iff_of_false Bool.false_ne_true (not_or.mpr ⟨List.not_mem_nil, List.not_mem_nil⟩)
  fits := .start h
  received := rfl
  queued := rfl
  order := rfl
  spared _ := rfl
  messages := nofun
  pending := rfl

theorem rests (h : Kept capacity script notes s) {reply : Reply} (hm : a.message? s.ids = none)
    (hout : s'.outbox = s.outbox) (hids : s'.ids = s.ids ++ a.opens?.toList)
    (hreading : s'.reading = s.reading) (hending : reply.ending? = none)
    (hreceived : reply.received? = none) (hdrop : a ≠ .drop)
    (hclose : a = .close → s.reading = false) :
    Kept capacity (script ++ [a]) (notes ++ [⟨reply, s.settled s', s'.pending⟩]) s' := by
  have hsettled : s.settled s' = [] := settled_eq_nil h.fits.sound (by rw [hout]) (by rw [hout])
  have hended (how : Outcome) :
      ended how (notes ++ [⟨reply, s.settled s', s'.pending⟩]) = ended how notes := by
    rw [ended_concat, hsettled, hending]
    simp
  constructor
  case length_eq => simp [h.length_eq]
  case ids => rw [hids, h.ids, opened_concat]
  case reading =>
    rw [hreading, h.reading]
    simp [hdrop.symm]
  case closed =>
    rw [hout, h.closed, closes_concat]
    refine ⟨.inl, fun hcloses => hcloses.elim id fun ha => ?_⟩
    -- Closing does nothing only if the reader is gone, and so the outbox is closed.
    have hgone := hclose (ha.resolve_right hdrop)
    by_contra hopen
    have hreads := h.reading.mpr fun hmem => hopen (.inr hmem)
    rw [hgone] at hreads
    cases hreads
  case fits => exact hout ▸ h.fits
  case received =>
    rw [received_concat, hreceived, hout, h.received, Option.toList_none, List.append_nil]
  case queued => rw [hended, hout, h.queued]
  case order =>
    rw [writes_concat, ← h.ids, hm, hended, hended, hout, h.order]
    simp
  case spared =>
    rw [hended, hout]
    exact h.spared
  case messages =>
    rw [hout]
    exact fun w hw => messages_mono (h.messages w hw)
  case pending =>
    rw [waiting_concat]
    rfl

/-- What becomes of a write decides which of the three lists of numbers its own is the last of. -/
theorem numbers_of_send (h : Kept capacity script notes s) {m : Message} {receipt : Receipt}
    {outbox : Outbox Written} (hs : s.outbox.send ⟨script.length, m⟩ = (receipt, outbox)) :
    let own (how : Outcome) :=
      if (Reply.write (.ofReceipt receipt)).ending? = some how then [script.length] else []
    ended .queued notes ++ own .queued = outbox.admitted.map (·.step) ∧
      writes script ++ [script.length] = outbox.admitted.map (·.step) ++
        (ended .sessionClosed notes ++ own .sessionClosed ++ outbox.waiting.map (·.2.step)) ∧
      (outbox.closed = false →
        (Reply.write (.ofReceipt receipt)).ending? ≠ some .sessionClosed) := by
  dsimp only
  rw [h.order, h.queued]
  rcases Outbox.send_cases s.outbox ⟨script.length, m⟩ with
    ⟨hc, hcase⟩ | ⟨hc, hw, hcase⟩ | ⟨hc, hcase⟩
  · cases hcase.symm.trans hs
    have hnobody := h.fits.sound.nobody_waits hc
    refine ⟨?_, ?_, fun hopen => ?_⟩
    · simp [Outcome.ofReceipt, Reply.ending?]
    · simp [Outcome.ofReceipt, Reply.ending?, hnobody]
    · cases hc.symm.trans hopen
  · cases hcase.symm.trans hs
    refine ⟨?_, ?_, fun _ hending => ?_⟩
    · simp [Outcome.ofReceipt, Reply.ending?, Outbox.letIn]
    · simp [Outcome.ofReceipt, Reply.ending?, Outbox.letIn, hw, h.spared hc]
    · cases hending
  · cases hcase.symm.trans hs
    refine ⟨?_, ?_, fun _ hending => ?_⟩
    · simp [Outcome.ofReceipt, Reply.ending?]
    · simp [Outcome.ofReceipt, Reply.ending?]
    · cases hending

theorem sends (h : Kept capacity script notes s) {m : Message} {receipt : Receipt}
    {outbox : Outbox Written} (hm : a.message? s.ids = some m) (hopens : a.opens? = none)
    (hclose : a ≠ .close) (hdrop : a ≠ .drop)
    (hs : s.outbox.send ⟨script.length, m⟩ = (receipt, outbox)) :
    Kept capacity (script ++ [a])
      (notes ++ [⟨.write (.ofReceipt receipt), s.settled { s with outbox },
        { s with outbox }.pending⟩]) { s with outbox } := by
  have heq : (s.outbox.send ⟨script.length, m⟩).2 = outbox := congrArg Prod.snd hs
  have hclosed : outbox.closed = s.outbox.closed := heq ▸ Outbox.closed_send ..
  have hgone : outbox.gone = s.outbox.gone := heq ▸ Outbox.gone_send h.fits.sound _
  have hsettled : s.settled { s with outbox } = [] :=
    settled_eq_nil h.fits.sound hclosed (heq ▸ Outbox.taken_send ..)
  have hwrites : writes (script ++ [a]) = writes script ++ [script.length] := by
    rw [writes_concat, ← h.ids, hm]
    rfl
  have hended (how : Outcome) :
      ended how (notes ++ [⟨.write (.ofReceipt receipt), s.settled { s with outbox },
        { s with outbox }.pending⟩]) =
      ended how notes ++
        if (Reply.write (.ofReceipt receipt)).ending? = some how then [script.length] else [] := by
    rw [ended_concat, hsettled, h.length_eq]
    simp
  have hoffered := Outbox.offered_send s.outbox ⟨script.length, m⟩
  rw [heq] at hoffered
  obtain ⟨hqueued, horder, hspared⟩ := h.numbers_of_send hs
  constructor
  case length_eq => simp [h.length_eq]
  case ids => simp [Stage.ids, opened_concat, hopens, ← h.ids]
  case reading => simp [h.reading, hdrop.symm]
  case closed => simp [hclosed, h.closed, closes_concat, hclose, hdrop]
  case fits => exact heq ▸ h.fits.send _
  case received =>
    rw [received_concat, hgone, h.received]
    exact List.append_nil _
  case queued =>
    rw [hended]
    exact hqueued
  case order =>
    rw [hwrites, hended, hended, hqueued]
    exact horder
  case spared =>
    intro hopen
    rw [hended, h.spared (hclosed ▸ hopen), if_neg (hspared hopen)]
    rfl
  case messages =>
    intro w hw
    replace hw : w ∈ outbox.offered := hw
    rw [hoffered] at hw
    split at hw
    · exact messages_mono (h.messages w hw)
    · rcases List.mem_append.mp hw with hw | hw
      · exact messages_mono (h.messages w hw)
      · rw [List.mem_singleton.mp hw]
        refine ⟨by simp, ?_⟩
        rw [written_concat, ← h.ids]
        exact hm
  case pending =>
    rw [waiting_concat]
    rfl

theorem takes (h : Kept capacity script notes s) {w : Written} {outbox : Outbox Written}
    (ht : s.outbox.take = (.item w, outbox)) :
    Kept capacity (script ++ [.receive])
      (notes ++ [⟨.received w.message, s.settled { s with outbox }, { s with outbox }.pending⟩])
      { s with outbox } := by
  have hclosed := Outbox.closed_of_take ht
  have hsettled := settled_of_take h.fits.sound ht
  have hwrites : writes (script ++ [.receive]) = writes script := by
    rw [writes_concat]
    exact List.append_nil _
  have hended (how : Outcome) :
      ended how (notes ++ [⟨.received w.message, s.settled { s with outbox },
        { s with outbox }.pending⟩]) =
      ended how notes ++
        if how = .queued then s.outbox.waiting.head?.toList.map (·.2.step) else [] := by
    rw [ended_concat, hsettled, map_step_of_filter]
    rfl
  have hnext : outbox.admitted = s.outbox.admitted ++ s.outbox.waiting.head?.toList.map (·.2) ∧
      outbox.waiting = s.outbox.waiting.tail := by
    rcases Outbox.take_cases ht with ⟨hw, rfl⟩ | ⟨entry, rest, hw, rfl⟩
    · simp [hw]
    · simp [hw]
  constructor
  case length_eq => simp [h.length_eq]
  case ids =>
    rw [opened_concat]
    exact h.ids.trans (List.append_nil _).symm
  case reading => simp [h.reading]
  case closed => simp [hclosed, h.closed, closes_concat]
  case fits => exact h.fits.take ht
  case received =>
    rw [received_concat, Outbox.gone_of_take h.fits.sound ht, h.received, List.map_append]
    rfl
  case queued => simp [hended, h.queued, hnext.1]
  case order =>
    rw [hwrites, hended, hended, h.order, hnext.2]
    cases hw : s.outbox.waiting with
    | nil => simp
    | cons entry rest =>
        have hopen : s.outbox.closed = false := by
          by_contra hc
          have hnobody := h.fits.sound.nobody_waits (eq_true_of_ne_false hc)
          rw [hw] at hnobody
          cases hnobody
        simp [h.spared hopen]
  case spared =>
    intro hopen
    rw [hended, h.spared (hclosed ▸ hopen)]
    rfl
  case messages =>
    intro w hw
    replace hw : w ∈ outbox.offered := hw
    rw [Outbox.offered_of_take ht] at hw
    exact messages_mono (h.messages w hw)
  case pending =>
    rw [waiting_concat]
    rfl

theorem closes (h : Kept capacity script notes s) {reply : Reply} {reading : Bool}
    (ha : a = .close ∧ reading = s.reading ∨ a = .drop ∧ reading = false)
    (hending : reply.ending? = none) (hreceived : reply.received? = none) :
    Kept capacity (script ++ [a])
      (notes ++ [⟨reply, s.settled { s with outbox := s.outbox.close, reading }, 0⟩])
      { s with outbox := s.outbox.close, reading } := by
  have hsettled : s.settled { s with outbox := s.outbox.close, reading } =
      s.outbox.waiting.map fun w => (w.2.step, .sessionClosed) := rfl
  have hmessage : a.message? (opened script) = none := by
    rcases ha with ⟨rfl, -⟩ | ⟨rfl, -⟩ <;> rfl
  have hopens : a.opens? = none := by rcases ha with ⟨rfl, -⟩ | ⟨rfl, -⟩ <;> rfl
  have hended (how : Outcome) :
      ended how (notes ++ [⟨reply, s.settled { s with outbox := s.outbox.close, reading }, 0⟩]) =
      ended how notes ++ if how = .sessionClosed then s.outbox.waiting.map (·.2.step) else [] := by
    rw [ended_concat, hsettled, hending, map_step_of_filter]
    rfl
  constructor
  case length_eq => simp [h.length_eq]
  case ids => simp [Stage.ids, opened_concat, hopens, ← h.ids]
  case reading =>
    rcases ha with ⟨rfl, rfl⟩ | ⟨rfl, rfl⟩
    · simp [h.reading]
    · simp
  case closed =>
    refine iff_of_true rfl (closes_concat.mpr (.inr ?_))
    exact ha.imp And.left And.left
  case fits => exact h.fits.close
  case received =>
    rw [received_concat, hreceived, h.received]
    exact List.append_nil _
  case queued =>
    rw [hended, h.queued]
    exact List.append_nil _
  case order =>
    rw [writes_concat, hmessage, hended, hended, h.order]
    simp [Outbox.close]
  case spared =>
    intro hopen
    cases hopen
  case messages =>
    intro w hw
    replace hw : w ∈ s.outbox.close.offered := hw
    rw [Outbox.offered_close] at hw
    exact messages_mono (h.messages w (List.mem_append_left _ hw))
  case pending => exact waiting_concat _

/-- **One step keeps what a stage has kept.** -/
theorem step (h : Kept capacity script notes s) (a : Step) :
    Kept capacity (script ++ [a]) (notes ++ [s.note script.length a])
      (s.step script.length a).2 := by
  have hturn := turn_of_step s script.length a
  unfold Stage.note
  generalize (s.step script.length a).1 = reply, (s.step script.length a).2 = s' at hturn ⊢
  cases hturn with
  | rests hm hout hids hreading hending hreceived hdrop hclose =>
      exact h.rests hm hout hids hreading hending hreceived hdrop hclose
  | sends hm hopens hclose hdrop hs => exact h.sends hm hopens hclose hdrop hs
  | takes ha ht =>
      subst ha
      exact h.takes ht
  | closes ha hending hreceived => exact h.closes ha hending hreceived

end Kept

theorem kept_of_play (h : 0 < capacity) (script : List Step) :
    Kept capacity script (play capacity script) (after capacity script) := by
  induction script using List.reverseRecOn with
  | nil => exact .start h
  | append_singleton script a ih =>
      rw [play_concat, after_concat]
      exact ih.step a

/-! ## First come, first served -/

instance : Decidable (Closes script) := inferInstanceAs (Decidable (_ ∨ _))

def answer (capacity : Nat) (script : List Step) (a : Step) : Option Reply :=
  (play capacity (script ++ [a])).getLast?.map (·.reply)

/-- What is noted of a script over an outbox with room for so many messages. -/
structure InTurn (capacity : Nat) (script : List Step) (notes : List Note) : Prop where
  /-- The messages received are those of the writes that were let in, from the first one on. -/
  received : (received notes).map some =
    ((ended .queued notes).take (received notes).length).map (written script)
  /-- No more are let in and not yet received than there is room for, and nobody waits for less. -/
  within : (ended .queued notes).length ≤ (Sink.received notes).length + capacity
  full : waiting notes ≠ 0 →
    (ended .queued notes).length = (Sink.received notes).length + capacity
  /-- Who has come earlier has ended earlier: first come the writes that were let in, then those that
  were turned away, then those that wait. -/
  order : ∃ last, writes script = ended .queued notes ++ (ended .sessionClosed notes ++ last) ∧
    last.length = waiting notes
  spared : ¬Closes script → ended .sessionClosed notes = []
  /-- From the closing on nobody waits and nothing more is let in. -/
  settled : Closes script → waiting notes = 0 ∧
    ∀ more, ended .queued (play capacity (script ++ more)) = ended .queued notes
  /-- What becomes of a write that comes next. -/
  write : ∀ {a m}, a.message? (opened script) = some m → answer capacity script a =
    some (.write (if Closes script then .sessionClosed
      else if (writes script).length < (Sink.received notes).length + capacity then .queued
      else .pending))
  /-- What a reader finds who comes next. -/
  next : .drop ∉ script → ∀ {number},
    (ended .queued notes)[(Sink.received notes).length]? = some number →
    answer capacity script .receive = (written script number).map .received
  nothing : .drop ∉ script →
    (ended .queued notes).length = (Sink.received notes).length →
    answer capacity script .receive = some (if Closes script then .ended else .empty)
  /-- As long as there is a reader, all that is let in can be received. -/
  drained : .drop ∉ script → ∀ {reads}, (writes script).length ≤ reads →
    let notes := play capacity (script ++ List.replicate reads .receive)
    (Sink.received notes).length = (ended .queued notes).length ∧ waiting notes = 0

theorem step_receive (hreading : s.reading = true) :
    (s.outbox.items = [] ∧
      s.step number .receive = (if s.outbox.closed then .ended else .empty, s)) ∨
    ∃ w rest outbox, s.outbox.items = w :: rest ∧ s.outbox.take = (.item w, outbox) ∧
      s.step number .receive = (.received w.message, { s with outbox }) := by
  simp only [Stage.step, if_pos hreading]
  cases hitems : s.outbox.items with
  | nil =>
      rw [Outbox.take_of_nil hitems]
      refine .inl ⟨rfl, ?_⟩
      cases s.outbox.closed <;> rfl
  | cons w rest =>
      have ht : s.outbox.take =
          (.item w, { s.outbox with taken := s.outbox.taken + 1 }.letOldestIn) := by
        rw [Outbox.take, hitems]
      exact .inr ⟨w, rest, _, rfl, ht, by rw [ht]⟩

theorem answer_eq : answer capacity script a =
    some ((after capacity script).step script.length a).1 := by
  rw [answer, play_concat, List.getLast?_concat]
  rfl

theorem Turn.admitted_eq {reply : Reply} (h : Turn s number a reply s') (hs : s.outbox.Sound)
    (hclosed : s.outbox.closed = true) : s'.outbox.admitted = s.outbox.admitted := by
  cases h with
  | rests _ hout => rw [hout]
  | sends _ _ _ _ hsend =>
      rw [Outbox.send_of_closed hclosed] at hsend
      cases hsend
      rfl
  | takes _ ht => exact (Outbox.Drains.takes ht).admitted_eq hs hclosed
  | closes => rfl

namespace Kept

theorem length_received (h : Kept capacity script notes s) :
    (Sink.received notes).length = s.outbox.gone.length := by rw [h.received, List.length_map]

theorem length_queued (h : Kept capacity script notes s) :
    (ended .queued notes).length = s.outbox.admitted.length := by rw [h.queued, List.length_map]

/-- The messages that were let in, each with the write that it came from. -/
theorem written_eq (h : Kept capacity script notes s) {w : Written} (hw : w ∈ s.outbox.admitted) :
    written script w.step = some w.message :=
  (h.messages w (List.mem_append_left _ hw)).2

theorem length_writes (h : Kept capacity script notes s) (hopen : ¬Closes script) :
    (writes script).length = s.outbox.admitted.length + s.outbox.waiting.length := by
  rw [h.order, h.spared (eq_false_of_ne_true (h.closed.not.mpr hopen)), h.queued]
  simp

/-- There is room for a write that comes next just if so few have come before it. -/
theorem hasRoom_iff (h : Kept capacity script notes s) (hopen : ¬Closes script) :
    s.outbox.hasRoom = true ↔ (writes script).length < (Sink.received notes).length + capacity := by
  have hle := h.fits.sound.taken_le
  rw [h.length_writes hopen, h.length_received]
  by_cases hw : s.outbox.waiting = []
  · rw [Outbox.length_gone h.fits.sound]
    simp only [Outbox.hasRoom, hw, Outbox.length_items, h.fits.capacity_eq, List.isEmpty_nil,
      Bool.true_and, decide_eq_true_iff, List.length_nil]
    omega
  · have hfull := h.fits.length_admitted_of_waiting hw
    simp only [Outbox.hasRoom, List.isEmpty_eq_false_iff.mpr hw, Bool.false_and,
      Bool.false_eq_true, false_iff]
    omega

theorem received_eq (h : Kept capacity script notes s) : (Sink.received notes).map some =
    ((ended .queued notes).take (Sink.received notes).length).map (written script) := by
  have hgone : s.outbox.gone.map (written script ·.step) = s.outbox.gone.map (some ·.message) :=
    List.map_congr_left fun w hw => h.written_eq (Outbox.mem_admitted_of_mem_gone hw)
  rw [h.length_received, Outbox.length_gone h.fits.sound, h.received, h.queued, ← List.map_take,
    List.map_map, List.map_map]
  exact hgone.symm

theorem write (h : Kept capacity script notes s) {m : Message}
    (hm : a.message? (opened script) = some m) : (s.step script.length a).1 =
      .write (if Closes script then .sessionClosed
        else if (writes script).length < (Sink.received notes).length + capacity then .queued
        else .pending) := by
  have hturn := turn_of_step s script.length a
  rw [← h.ids] at hm
  generalize (s.step script.length a).1 = reply, (s.step script.length a).2 = s' at hturn ⊢
  cases hturn with
  | rests hnone => cases hm.symm.trans hnone
  | takes ha =>
      subst ha
      cases hm
  | closes ha =>
      rcases ha with ⟨rfl, -⟩ | ⟨rfl, -⟩
      · cases hm
      · cases hm
  | @sends m receipt outbox hm' _ _ _ hs =>
      obtain rfl : (s.outbox.send ⟨script.length, m⟩).1 = receipt := congrArg Prod.fst hs
      by_cases hc : Closes script
      · rw [if_pos hc, Outbox.send_of_closed (h.closed.mpr hc)]
        rfl
      · rw [if_neg hc]
        simp only [Outbox.send, h.closed, if_neg hc, h.hasRoom_iff hc]
        split <;> rfl

theorem next (h : Kept capacity script notes s) (hreads : .drop ∉ script)
    (hnumber : (ended .queued notes)[(Sink.received notes).length]? = some number) :
    some (s.step script.length .receive).1 = (written script number).map .received := by
  rw [h.queued, h.length_received, Outbox.length_gone h.fits.sound, List.getElem?_map] at hnumber
  obtain ⟨w, hw, rfl⟩ := Option.map_eq_some_iff.mp hnumber
  rcases step_receive (h.reading.mpr hreads) with ⟨hnil, -⟩ | ⟨first, rest, outbox, hitems, -, hstep⟩
  · have hle := List.drop_eq_nil_iff.mp hnil
    rw [List.getElem?_eq_none hle] at hw
    cases hw
  · have hfirst : s.outbox.admitted[s.outbox.taken]? = some first := by
      rw [← List.head?_drop]
      exact congrArg List.head? hitems
    cases hfirst.symm.trans hw
    rw [hstep, h.written_eq (List.mem_of_getElem? hw)]
    rfl

theorem nothing (h : Kept capacity script notes s) (hreads : .drop ∉ script)
    (hall : (ended .queued notes).length = (Sink.received notes).length) :
    (s.step script.length .receive).1 = if Closes script then .ended else .empty := by
  rcases step_receive (h.reading.mpr hreads) with ⟨-, hstep⟩ | ⟨first, rest, outbox, hitems, -, -⟩
  · rw [hstep]
    simp only [h.closed]
  · obtain ⟨hlt, -⟩ := Outbox.admitted_of_items hitems
    rw [h.length_queued, h.length_received, Outbox.length_gone h.fits.sound] at hall
    omega

end Kept

theorem queued_of_closes (hroom : 0 < capacity) (hc : Closes script) (more : List Step) :
    ended .queued (play capacity (script ++ more)) = ended .queued (play capacity script) := by
  induction more using List.reverseRecOn with
  | nil => rw [List.append_nil]
  | append_singleton more a ih =>
      have hkept := kept_of_play hroom (script ++ more)
      have hclosed : (after capacity (script ++ more)).outbox.closed = true :=
        hkept.closed.mpr (hc.imp (List.mem_append_left _) (List.mem_append_left _))
      have hnext := kept_of_play hroom (script ++ more ++ [a])
      rw [← List.append_assoc, ← ih, hkept.queued, hnext.queued, after_concat,
        (turn_of_step _ _ _).admitted_eq hkept.fits.sound hclosed]

/-- With every step a reader takes one more, until nothing is left and nobody waits. -/
theorem taken_of_receives (hroom : 0 < capacity) (hreads : .drop ∉ script) (reads : Nat) :
    let o := (after capacity (script ++ List.replicate reads .receive)).outbox
    o.items = [] ∨ reads ≤ o.taken := by
  induction reads with
  | zero => exact .inr (Nat.zero_le _)
  | succ reads ih =>
      have hkept := kept_of_play hroom (script ++ List.replicate reads .receive)
      rw [List.replicate_succ', ← List.append_assoc, after_concat]
      rcases step_receive (hkept.reading.mpr (by simp [hreads])) with
        ⟨hnil, hstep⟩ | ⟨w, rest, outbox, hitems, ht, hstep⟩
      · rw [hstep]
        exact .inl hnil
      · rw [hstep]
        refine .inr ?_
        rcases ih with hnil | hle
        · rw [hnil] at hitems
          cases hitems
        · rw [Outbox.taken_of_take ht]
          exact Nat.succ_le_succ hle

theorem writes_replicate (reads : Nat) :
    writes (script ++ List.replicate reads .receive) = writes script := by
  induction reads with
  | zero => rw [List.replicate_zero, List.append_nil]
  | succ reads ih =>
      rw [List.replicate_succ', ← List.append_assoc, writes_concat, ih]
      exact List.append_nil _

theorem drained_of_receives (hroom : 0 < capacity) (hreads : .drop ∉ script) {reads : Nat}
    (hmany : (writes script).length ≤ reads) :
    let notes := play capacity (script ++ List.replicate reads .receive)
    (received notes).length = (ended .queued notes).length ∧ waiting notes = 0 := by
  have hkept := kept_of_play hroom (script ++ List.replicate reads .receive)
  have hle := hkept.fits.sound.taken_le
  dsimp only
  rw [hkept.length_received, hkept.length_queued, hkept.pending,
    Outbox.length_gone hkept.fits.sound]
  rcases taken_of_receives hroom hreads reads with hnil | hall
  · have hnobody := Classical.byContradiction fun hw => hkept.fits.tight.items_ne_nil hw hnil
    refine ⟨?_, by rw [hnobody, List.length_nil]⟩
    exact Nat.le_antisymm hle (List.drop_eq_nil_iff.mp hnil)
  · have horder := congrArg List.length hkept.order
    rw [writes_replicate, hkept.queued] at horder
    simp only [List.length_append, List.length_map] at horder
    omega

/-- **Writes are served in the order in which they come, and are received as they were written.** -/
theorem inTurn_of_play (hroom : 0 < capacity) (script : List Step) :
    InTurn capacity script (play capacity script) := by
  have h := kept_of_play hroom script
  constructor
  case received => exact h.received_eq
  case within =>
    rw [h.length_queued, h.length_received]
    exact h.fits.length_admitted
  case full =>
    intro hwaiting
    rw [h.length_queued, h.length_received]
    refine h.fits.length_admitted_of_waiting fun hnil => hwaiting ?_
    rw [h.pending, hnil, List.length_nil]
  case order => exact ⟨_, h.order, by rw [List.length_map, h.pending]⟩
  case spared => exact fun hopen => h.spared (eq_false_of_ne_true (h.closed.not.mpr hopen))
  case settled =>
    intro hc
    refine ⟨?_, queued_of_closes hroom hc⟩
    rw [h.pending, h.fits.sound.nobody_waits (h.closed.mpr hc), List.length_nil]
  case write => exact fun hm => answer_eq.trans (congrArg some (h.write hm))
  case next => exact fun hreads _ hnumber => answer_eq.trans (h.next hreads hnumber)
  case nothing => exact fun hreads hall => answer_eq.trans (congrArg some (h.nothing hreads hall))
  case drained => exact fun hreads _ => drained_of_receives hroom hreads

end Directory.Rehearsal.Sink
