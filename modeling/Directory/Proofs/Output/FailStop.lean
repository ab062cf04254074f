import Directory.Proofs.Entry
import Directory.Proofs.Framing
import Directory.Proofs.Output.Chronicle
import Directory.Proofs.Output.Room
import Directory.Session.Step

/-!
# The output stops writing, but not taking

Whoever queues an item counts on it that the output comes to it, also when nothing can be written any
more: a pause that is never reported would hold up an upgrade for ever. So after a failure, and after
the closing item, the output writes nothing, but it goes on to the end of the queue.

What was written is read off `Chronicle.Tally`. That the queue comes to its end rests on
`Output.rank`, the number of steps for which there is something to do: every step of the output
makes it smaller (`Output.rank_of_turn`), and nobody else makes it greater but by queueing an item.
That every pause is heard of is an invariant of its own, `Output.Heard`.
-/

namespace Directory

namespace Outbox

variable {α : Type} {o o' : Outbox α} {a : α}

def due (o : Outbox α) : List α := o.items ++ o.waiting.map (·.2)

theorem due_of_take (h : o.take = (.item a, o')) : o.due = a :: o'.due := by
  obtain ⟨rest, hitems, rfl⟩ := take_eq_item h
  obtain ⟨hlt, -⟩ := admitted_of_items hitems
  have hrest : o.admitted.drop (o.taken + 1) = rest := by
    rw [← List.tail_drop, show o.admitted.drop o.taken = a :: rest from hitems, List.tail_cons]
  rw [due, hitems, List.cons_append]
  rcases letOldestIn_cases { o with taken := o.taken + 1 } with ⟨hw, hin⟩ | ⟨entry, later, hw, hin⟩
  · rw [hin]
    show _ = a :: (o.admitted.drop (o.taken + 1) ++ _)
    rw [hrest]
  · rw [hin]
    show _ = a :: ((o.admitted ++ [entry.2]).drop (o.taken + 1) ++ later.map (·.2))
    rw [List.drop_append_of_le_length hlt, hrest, show o.waiting = entry :: later from hw,
      List.map_cons, List.append_assoc, List.singleton_append]

theorem due_send (h : o.Sound) (a : α) :
    (o.send a).2.due = o.due ∨ (o.send a).2.due = o.due ++ [a] := by
  rcases send_cases o a with ⟨-, hs⟩ | ⟨-, hw, hs⟩ | ⟨-, hs⟩
  · rw [hs]
    exact .inl rfl
  · rw [hs]
    refine .inr ?_
    show (o.admitted ++ [a]).drop o.taken ++ o.waiting.map (·.2) = _
    rw [List.drop_append_of_le_length h.taken_le, due, hw, items, List.map_nil, List.append_nil,
      List.append_nil]
  · rw [hs]
    refine .inr ?_
    show o.items ++ (o.waiting ++ [(o.tickets, a)]).map (·.2) = _
    rw [List.map_append, ← List.append_assoc]
    rfl

end Outbox

/-- How many steps an item is good for. -/
def Item.cost : Item → Nat
  | .message m => m.encode.length + 2
  | .pause _ => 2
  | .close => 1

/-- The output has reported the pause, or nobody wants to hear of it. -/
def Pause.isHeard (p : Pause) : Bool := p.reported || !p.watched

namespace Output

variable {o o' : Output} {act : Act} {events : List Event} {stir : Stir}
  {item : Item} {outbox : Outbox Item}

/-! ## Something is left to do for a while only -/

/-- How many steps the output is from taking an item. -/
def Phase.cost : Phase → Nat
  | .ready => 1
  | .writing _ left => left.length + 2
  | .paused _ => 2
  | .finished => 0

def toll (items : List Item) : Nat := (items.map Item.cost).sum

/-- For how many steps there is something to do. -/
def rank (o : Output) : Nat := toll o.outbox.due + o.phase.cost

theorem toll_cons (item : Item) (items : List Item) : toll (item :: items) = item.cost + toll items :=
  List.sum_cons

theorem toll_append (items more : List Item) : toll (items ++ more) = toll items + toll more := by
  rw [toll, List.map_append, List.sum_append]
  rfl

theorem toll_close (outbox : Outbox Item) : toll outbox.close.due ≤ toll outbox.due := by
  show toll (outbox.items ++ []) ≤ toll (outbox.items ++ outbox.waiting.map (·.2))
  rw [List.append_nil, toll_append]
  exact Nat.le_add_right _ _

/-- What an item is good for is more than what is begun with it. -/
theorem rank_lt_of_takes (ht : o.Takes item outbox) (hdue : toll o'.outbox.due ≤ toll outbox.due)
    (hphase : o'.phase.cost ≤ item.cost) : o'.rank < o.rank := by
  rw [rank, rank, Outbox.due_of_take ht.take_eq, toll_cons, ht.ready]
  show _ < item.cost + toll outbox.due + 1
  omega

theorem rank_lt_of_phase (houtbox : o'.outbox = o.outbox) (hphase : o'.phase.cost < o.phase.cost) :
    o'.rank < o.rank := by
  rw [rank, rank, houtbox]
  exact Nat.add_lt_add_left hphase _

theorem cost_put {channel : Channel} {left : Octets} {count : Nat} (hc : 0 < count)
    (hl : (left.take count).length = count) : (o.put channel left count).phase.cost < left.length + 2 := by
  have hlength : left.length = count + (left.drop count).length := by
    rw [List.length_take] at hl
    rw [List.length_drop]
    omega
  rcases put_cases o channel left count with ⟨-, hp⟩ | ⟨-, hp⟩
  · rw [hp]
    exact Nat.lt_add_left _ (by decide)
  · rw [hp]
    show (left.drop count).length + 2 < left.length + 2
    omega

/-- **Every turn of the output leaves less to do.** -/
theorem rank_of_turn (ht : Turn o act events o') : o'.rank < o.rank := by
  have hready (item : Item) : Phase.ready.cost ≤ item.cost := by
    cases item <;> simp [Phase.cost, Item.cost]
  cases ht with
  | discard hm => exact rank_lt_of_takes hm (Nat.le_refl _) (hm.ready ▸ hready _)
  | writerMissing hm => exact rank_lt_of_takes hm (Nat.le_refl _) (hready _)
  | start hm => exact rank_lt_of_takes hm (Nat.le_refl _) (Nat.le_refl _)
  | pause hm => exact rank_lt_of_takes hm (Nat.le_refl _) (Nat.le_refl _)
  | skip hm => exact rank_lt_of_takes hm (Nat.le_refl _) (hm.ready ▸ hready _)
  | closes hm => exact rank_lt_of_takes hm (toll_close _) (hm.ready ▸ hready _)
  | finish hp => exact rank_lt_of_phase rfl (by simp [hp, Phase.cost])
  | write hp hc hl => exact rank_lt_of_phase rfl (hp ▸ cost_put hc hl)
  | «break» hp => exact rank_lt_of_phase rfl (by simp [hp, Phase.cost])
  | expire hp => exact rank_lt_of_phase rfl (by simp [hp, Phase.cost])
  | resume hp => exact rank_lt_of_phase rfl (by simp [hp, Phase.cost])
  | forsake hp => exact rank_lt_of_phase rfl (by simp [hp, Phase.cost])

theorem rank_send (h : o.outbox.Sound) (item : Item) : (o.send item).2.rank ≤ o.rank + item.cost := by
  show toll (o.outbox.send item).2.due + o.phase.cost ≤ toll o.outbox.due + o.phase.cost + item.cost
  rcases Outbox.due_send h item with hdue | hdue
  · rw [hdue]
    omega
  · rw [hdue, toll_append, toll_cons]
    show _ + (item.cost + 0) + _ ≤ _
    omega

def Stir.isAct : Stir → Bool
  | .act _ => true
  | _ => false

def Stir.cost : Stir → Nat
  | .message m => (Item.message m).cost
  | .pause => (Item.pause 0).cost
  | .close => Item.close.cost
  | _ => 0

theorem rank_of_stir? (h : o.outbox.Sound) (hs : o.stir? stir = some (events, o')) :
    o'.rank + stir.isAct.toNat ≤ o.rank + stir.cost := by
  cases stir with
  | act a => exact rank_of_turn (turn_of_step? hs)
  | message m =>
      cases hs
      exact rank_send h _
  | close =>
      cases hs
      exact rank_send h _
  | pause =>
      cases hs
      exact rank_send (o := o.openPause) h (.pause o.nextPause)
  | desert =>
      cases hs
      exact Nat.add_le_add_right (toll_close _) _
  | ignore number =>
      cases hs
      exact Nat.le_refl _
  | endPause number resumed =>
      cases hs
      exact Nat.le_refl _
  | place writer =>
      obtain ⟨-, hs⟩ := Option.ite_none_left_eq_some.mp hs
      cases hs
      exact Nat.le_refl _

/-! ## Which steps fail, and what they leave behind -/

/-- A write fails in this step: the connection breaks or takes too long, or there is no writer for
the message that is taken. -/
inductive WriteFails (o : Output) : Stir → Prop where
  | breaks {cause} (hb : o.busy = true) : WriteFails o (.act (.break cause))
  | expires (hb : o.busy = true) : WriteFails o (.act .expire)
  | unwritable {m outbox} (ht : o.Takes (.message m) outbox) (hf : o.failed = false)
      (hs : o.sealed = false) (hw : o.writer = none) : WriteFails o (.act .take)

theorem busy_of_writing {channel : Channel} {left : Octets} (hp : o.phase = .writing channel left) :
    o.busy = true := by
  rw [busy, hp]

/-- What is taken makes the write fail only if it is a message, and nothing has stopped the output
before. -/
theorem WriteFails.of_takes (h : o.WriteFails (.act .take)) (ht : o.Takes item outbox) :
    (∃ m, item = .message m) ∧ o.failed = false ∧ o.sealed = false ∧ o.writer = none := by
  cases h with
  | unwritable ht' hf hs hw =>
      have heq := ht.take_eq.symm.trans ht'.take_eq
      cases heq
      exact ⟨⟨_, rfl⟩, hf, hs, hw⟩

theorem failed_of_turn (ht : Turn o act events o') :
    o'.failed = true ↔ o.failed = true ∨ o.WriteFails (.act act) := by
  cases ht with
  | discard hm hd =>
      refine (or_iff_left fun hfails => ?_).symm
      obtain ⟨-, hf, hs, -⟩ := hfails.of_takes hm
      simp [hf, hs] at hd
  | writerMissing hm hf hs hw => exact iff_of_true rfl (.inr (.unwritable hm hf hs hw))
  | start hm hf hs hw =>
      refine (or_iff_left fun hfails => ?_).symm
      exact nomatch (hfails.of_takes hm).2.2.2.symm.trans hw
  | pause hm => exact (or_iff_left fun hfails => nomatch (hfails.of_takes hm).1).symm
  | skip hm => exact (or_iff_left fun hfails => nomatch (hfails.of_takes hm).1).symm
  | closes hm => exact (or_iff_left fun hfails => nomatch (hfails.of_takes hm).1).symm
  | finish hp he =>
      refine (or_iff_left fun hfails => ?_).symm
      cases hfails with
      | unwritable ht => exact nomatch he.symm.trans ht.take_eq
  | write hp => exact (or_iff_left nofun).symm
  | «break» hp => exact iff_of_true rfl (.inr (.breaks (busy_of_writing hp)))
  | expire hp => exact iff_of_true rfl (.inr (.expires (busy_of_writing hp)))
  | resume hp => exact (or_iff_left nofun).symm
  | forsake hp => exact (or_iff_left nofun).symm

theorem sealed_of_turn (ht : Turn o act events o') (h : o.sealed = true) : o'.sealed = true := by
  cases ht with
  | closes => rfl
  | _ => exact h

theorem failed_of_stir? (hs : o.stir? stir = some (events, o')) :
    o'.failed = true ↔ o.failed = true ∨ o.WriteFails stir := by
  cases stir with
  | act a => exact failed_of_turn (turn_of_step? hs)
  | place writer =>
      obtain ⟨-, hs⟩ := Option.ite_none_left_eq_some.mp hs
      cases hs
      exact (or_iff_left nofun).symm
  | _ =>
      cases hs
      exact (or_iff_left nofun).symm

theorem sealed_of_stir? (hs : o.stir? stir = some (events, o')) (h : o.sealed = true) :
    o'.sealed = true := by
  cases stir with
  | act a => exact sealed_of_turn (turn_of_step? hs) h
  | place writer =>
      obtain ⟨-, hs⟩ := Option.ite_none_left_eq_some.mp hs
      cases hs
      exact h
  | _ =>
      cases hs
      exact h

/-! ## Every pause is heard of -/

structure Heard (o : Output) : Prop where
  known : ∀ n, .pause n ∈ o.outbox.offered → n < o.pauses.length
  heard : ∀ n, .pause n ∈ o.outbox.gone → o.pauses[n]?.any Pause.isHeard = true

namespace Heard

theorem modify (h : o.Heard) {f : Pause → Pause} (hf : ∀ p, p.isHeard = true → (f p).isHeard)
    (k : Nat) : Heard { o with pauses := o.pauses.modify k f } := by
  refine ⟨fun n hn => ?_, fun n hn => any_modify hf k (h.heard n hn)⟩
  rw [List.length_modify]
  exact h.known n hn

/-- Something is offered that is no pause, or turned away, and nothing is taken. -/
theorem frame (h : o.Heard) (hoffered : ∀ n, .pause n ∈ o'.outbox.offered → .pause n ∈ o.outbox.offered)
    (hgone : o'.outbox.gone = o.outbox.gone) (hpauses : o'.pauses = o.pauses) : o'.Heard := by
  refine ⟨fun n hn => ?_, fun n hn => ?_⟩
  · rw [hpauses]
    exact h.known n (hoffered n hn)
  · rw [hgone] at hn
    rw [hpauses]
    exact h.heard n hn

theorem send (h : o.Heard) (hsound : o.outbox.Sound) (hi : ∀ n, item = .pause n → n < o.pauses.length) :
    (o.send item).2.Heard := by
  refine ⟨fun n hn => ?_, fun n hn => ?_⟩
  · have hn' : .pause n ∈ (o.outbox.send item).2.offered := hn
    rw [Outbox.offered_send] at hn'
    split at hn'
    · exact h.known n hn'
    · rcases List.mem_append.mp hn' with hold | hnew
      · exact h.known n hold
      · exact hi n (List.mem_singleton.mp hnew).symm
  · have hn' : .pause n ∈ (o.outbox.send item).2.gone := hn
    rw [Outbox.gone_send hsound] at hn'
    exact h.heard n hn'

/-- A pause that was just prepared was never offered. -/
theorem openPause (h : o.Heard) : o.openPause.Heard := by
  refine ⟨fun n hn => ?_, fun n hn => ?_⟩
  · show n < (o.pauses ++ [({} : Pause)]).length
    rw [List.length_append]
    exact Nat.lt_add_right _ (h.known n hn)
  · have hlt : n < o.pauses.length :=
      h.known n ((Outbox.gone_prefix_offered _).subset hn)
    show (o.pauses ++ [({} : Pause)])[n]?.any _ = true
    rw [List.getElem?_append_left hlt]
    exact h.heard n hn

theorem desert (h : o.Heard) : Heard { o with outbox := o.outbox.close } := by
  refine h.frame (fun n hn => ?_) rfl rfl
  have hn' : .pause n ∈ o.outbox.close.offered := hn
  rw [Outbox.offered_close] at hn'
  exact List.mem_append_left _ hn'

theorem takes (h : o.Heard) (hsound : o.outbox.Sound) (ht : o.Takes item outbox)
    (hoffered : ∀ n, .pause n ∈ o'.outbox.offered → .pause n ∈ outbox.offered)
    (hgone : o'.outbox.gone = outbox.gone) (hlength : o'.pauses.length = o.pauses.length)
    (hold : ∀ n : Nat, o.pauses[n]?.any Pause.isHeard = true → o'.pauses[n]?.any Pause.isHeard = true)
    (hnew : ∀ n : Nat, item = .pause n → n < o.pauses.length → o'.pauses[n]?.any Pause.isHeard = true) :
    o'.Heard := by
  have hbefore := Outbox.offered_of_take ht.take_eq
  refine ⟨fun n hn => ?_, fun n hn => ?_⟩
  · rw [hlength]
    exact h.known n (hbefore ▸ hoffered n hn)
  · rw [hgone, Outbox.gone_of_take hsound ht.take_eq] at hn
    rcases List.mem_append.mp hn with hn | hn
    · exact hold n (h.heard n hn)
    · have hitem := (List.mem_singleton.mp hn).symm
      refine hnew n hitem (h.known n ?_)
      rw [← hbefore]
      refine (Outbox.gone_prefix_offered _).subset ?_
      rw [Outbox.gone_of_take hsound ht.take_eq, hitem]
      exact List.mem_concat_self ..

theorem turn (h : o.Heard) (hsound : o.outbox.Sound) (ht : Turn o act events o') : o'.Heard := by
  cases ht with
  | discard hm => exact h.takes hsound hm (fun _ => id) rfl rfl (fun _ => id) nofun
  | writerMissing hm => exact h.takes hsound hm (fun _ => id) rfl rfl (fun _ => id) nofun
  | start hm => exact h.takes hsound hm (fun _ => id) rfl rfl (fun _ => id) nofun
  | @pause n outbox hm hw =>
      have hreported : ∀ p : Pause, p.isHeard = true → ({ p with reported := true } : Pause).isHeard :=
        fun _ _ => rfl
      refine h.takes hsound hm (fun _ => id) rfl (List.length_modify ..)
        (fun _ => any_modify hreported n) fun k hk hlt => ?_
      cases hk
      show ((o.pauses.modify n _)[n]?).any _ = true
      rw [List.getElem?_modify, List.getElem?_eq_getElem hlt]
      simp [Pause.isHeard]
  | skip hm hw =>
      refine h.takes hsound hm (fun _ => id) rfl rfl (fun _ => id) fun k hk hlt => ?_
      cases hk
      rw [List.getElem?_eq_getElem hlt] at hw ⊢
      rw [Option.any_some] at hw ⊢
      rw [Pause.isHeard, hw]
      simp
  | @closes outbox hm =>
      refine h.takes hsound hm (fun n hn => ?_) rfl rfl (fun _ => id) nofun
      have hn' : .pause n ∈ outbox.close.offered := hn
      rw [Outbox.offered_close] at hn'
      exact List.mem_append_left _ hn'
  | finish => exact h.frame (fun _ => id) rfl rfl
  | write => exact h.frame (fun _ => id) rfl rfl
  | «break» => exact h.frame (fun _ => id) rfl rfl
  | expire => exact h.frame (fun _ => id) rfl rfl
  | resume => exact h.frame (fun _ => id) rfl rfl
  | forsake => exact h.frame (fun _ => id) rfl rfl

theorem stir? (h : o.Heard) (hsound : o.outbox.Sound) (hs : o.stir? stir = some (events, o')) :
    o'.Heard := by
  cases stir with
  | act a => exact h.turn hsound (turn_of_step? hs)
  | message m =>
      cases hs
      exact h.send hsound nofun
  | close =>
      cases hs
      exact h.send hsound nofun
  | pause =>
      cases hs
      refine h.openPause.send hsound fun n hn => ?_
      cases hn
      show o.pauses.length < (o.pauses ++ [({} : Pause)]).length
      rw [List.length_append]
      exact Nat.lt_succ_self _
  | desert =>
      cases hs
      exact h.desert
  | ignore number =>
      cases hs
      exact h.modify (fun p _ => by simp [Pause.isHeard]) number
  | endPause number resumed =>
      cases hs
      exact h.modify (f := fun p => { p with ending := p.ending.or (some resumed) })
        (fun _ hp => hp) number
  | place writer =>
      obtain ⟨-, hs⟩ := Option.ite_none_left_eq_some.mp hs
      cases hs
      exact h.frame (fun _ => id) rfl rfl

end Heard

end Output

namespace Chronicle

open Output

variable {p q first : Chronicle} {stirs : List Stir} {stir : Stir}

/-! ## Runs -/

theorem stir?_of_step? (h : p.step? stir = some q) :
    ∃ events, p.output.stir? stir = some (events, q.output) := by
  obtain ⟨⟨events, o'⟩, hstir, rfl⟩ := Option.map_eq_some_iff.mp h
  exact ⟨events, hstir⟩

theorem pieces_of_step? (h : p.step? stir = some q) : q.pieces = p.pieces ++ p.output.puts stir := by
  obtain ⟨⟨events, o'⟩, hstir, rfl⟩ := Option.map_eq_some_iff.mp h
  rfl

/-- Nothing is written after a failure, nor after the closing item. -/
theorem still_of_run (h : p.Tally) (hstop : p.output.failed = true ∨ p.output.sealed = true)
    (hrun : p.run? stirs = some q) : q.pieces = p.pieces := by
  have hall : q.Tally ∧ (q.output.failed = true ∨ q.output.sealed = true) ∧ q.pieces = p.pieces := by
    refine foldlM_induction (motive := fun _ r => r.Tally ∧
      (r.output.failed = true ∨ r.output.sealed = true) ∧ r.pieces = p.pieces) ⟨h, hstop, rfl⟩ ?_ hrun
    rintro - r stir next - ⟨htally, hstop, hsame⟩ hstep
    obtain ⟨events, hstir⟩ := stir?_of_step? hstep
    have hrest : r.output.AtRest := by
      intro channel left hp
      obtain ⟨hf, hs, -⟩ := htally.writing hp
      simp [hf, hs] at hstop
    refine ⟨htally.step hstep, ?_, ?_⟩
    · exact hstop.imp (fun hf => (failed_of_stir? hstir).mpr (.inl hf)) (sealed_of_stir? hstir)
    · rw [pieces_of_step? hstep, puts_of_atRest hrest, List.append_nil, hsame]
  exact hall.2.2

theorem failed_of_run (h : first.output.failed = false) (hrun : first.run? stirs = some p) :
    p.output.failed = true ↔ ∃ before stir after q, stirs = before ++ stir :: after ∧
      first.run? before = some q ∧ q.output.WriteFails stir := by
  refine foldlM_induction (motive := fun stirs p => p.output.failed = true ↔
    ∃ before stir after q, stirs = before ++ stir :: after ∧
      first.run? before = some q ∧ q.output.WriteFails stir) ?_ ?_ hrun
  · simp [h]
  · intro stirs r stir next hr ih hstep
    obtain ⟨events, hstir⟩ := stir?_of_step? hstep
    rw [failed_of_stir? hstir, ih]
    constructor
    · rintro (⟨before, one, after, q, rfl, hq, hfails⟩ | hfails)
      · exact ⟨before, one, after ++ [stir], q, by simp, hq, hfails⟩
      · exact ⟨stirs, stir, [], r, rfl, hr, hfails⟩
    · rintro ⟨before, one, after, q, hsplit, hq, hfails⟩
      rcases List.eq_nil_or_concat after with rfl | ⟨after, last, rfl⟩
      · obtain ⟨rfl, hlast⟩ := List.append_inj' hsplit rfl
        cases hlast
        rw [run?, hr] at hq
        cases hq
        exact .inr hfails
      · have hsplit' : stirs ++ [stir] = (before ++ one :: after) ++ [last] := by
          simpa using hsplit
        obtain ⟨rfl, -⟩ := List.append_inj' hsplit' rfl
        exact .inl ⟨before, one, after, q, rfl, hq, hfails⟩

/-- The steps of the output are paid for by what there was to do and what was queued since. -/
theorem rank_of_run (h : p.Tally) (hrun : p.run? stirs = some q) :
    q.output.rank + stirs.countP Stir.isAct ≤ p.output.rank + (stirs.map Stir.cost).sum := by
  have hall : q.Tally ∧
      q.output.rank + stirs.countP Stir.isAct ≤ p.output.rank + (stirs.map Stir.cost).sum := by
    refine foldlM_induction (motive := fun stirs q => q.Tally ∧
      q.output.rank + stirs.countP Stir.isAct ≤ p.output.rank + (stirs.map Stir.cost).sum)
      ⟨h, Nat.le_refl _⟩ ?_ hrun
    rintro stirs r stir next - ⟨htally, hle⟩ hstep
    obtain ⟨events, hstir⟩ := stir?_of_step? hstep
    have hrank := rank_of_stir? htally.sound hstir
    refine ⟨htally.step hstep, ?_⟩
    have hcount : [stir].countP Stir.isAct = stir.isAct.toNat := by
      cases h : stir.isAct <;> simp [h]
    rw [List.countP_append, List.map_append, List.sum_append, hcount, List.map_singleton,
      List.sum_singleton]
    omega
  exact hall.2

/-! ## Where the output ends -/

/-- What the output rests on, apart from what was written. -/
structure Steady (p : Chronicle) : Prop where
  tally : p.Tally
  heard : p.output.Heard
  tight : p.output.outbox.Tight

theorem Steady.step (h : p.Steady) (hstep : p.step? stir = some q) : q.Steady := by
  obtain ⟨events, hstir⟩ := stir?_of_step? hstep
  refine ⟨h.tally.step hstep, h.heard.stir? h.tally.sound hstir, ?_⟩
  revert hstir
  generalize q.output = o'
  intro hstir
  cases stir with
  | act a => exact h.tight.drains (drains_of_turn (turn_of_step? hstir))
  | message m =>
      cases hstir
      exact h.tight.send _
  | close =>
      cases hstir
      exact h.tight.send _
  | pause =>
      cases hstir
      exact h.tight.send _
  | desert =>
      cases hstir
      exact h.tight.close
  | ignore number =>
      cases hstir
      exact h.tight
  | endPause number resumed =>
      cases hstir
      exact h.tight
  | place writer =>
      obtain ⟨-, hstir⟩ := Option.ite_none_left_eq_some.mp hstir
      cases hstir
      exact h.tight

theorem Steady.start {capacity : Nat} {limit : Option Span} {writer : Option Channel}
    (h : start? capacity limit writer = some p) : p.Steady := by
  refine ⟨.start h, ?_, ?_⟩
  all_goals
    obtain ⟨outbox, hcreate, rfl⟩ := Option.map_eq_some_iff.mp h
    obtain ⟨hroom, rfl⟩ := Outbox.create?_eq_some hcreate
  · exact ⟨by simp [Outbox.offered], by simp [Outbox.gone]⟩
  · exact ⟨hroom, fun hne => absurd rfl hne, fun entry hmem => absurd hmem List.not_mem_nil⟩

/-- The output that has nothing left to do has taken all there was. -/
theorem Steady.ends (h : p.Steady) (hstuck : ∀ act, p.step? (.act act) = none)
    (hclosing : p.output.outbox.closed = true ∨ .close ∈ p.output.outbox.offered)
    (hpause : ∀ n, p.output.phase = .paused n → (p.output.pauses[n]?.bind (·.ending)).isSome) :
    p.output.phase = .finished ∧ p.output.outbox.gone = p.output.outbox.offered := by
  have hall (hclosed : p.output.outbox.closed = true) (hitems : p.output.outbox.items = []) :
      p.output.outbox.gone = p.output.outbox.offered := by
    rw [Outbox.offered, h.tally.sound.nobody_waits hclosed, Outbox.gone_eq_admitted hitems,
      List.map_nil, List.append_nil]
  have hnone (act : Act) : p.output.step? act = none := Option.map_eq_none_iff.mp (hstuck act)
  rcases idle_of_stuck (fun hp => (h.tally.writing hp).2.2.1) (hnone _) (hnone _) (hnone _) with
    ⟨-, hitems, hopen⟩ | hfinished | ⟨n, hp, hending⟩
  · -- Nobody waits where there is nothing, so the closing item was taken and has closed the outbox.
    have hwaiting : p.output.outbox.waiting = [] := by
      by_contra hw
      exact h.tight.items_ne_nil hw hitems
    have hclose : .close ∈ p.output.outbox.gone := by
      have hoffered := hclosing.resolve_left (by simp [hopen])
      rwa [Outbox.offered, hwaiting, List.map_nil, List.append_nil,
        ← Outbox.gone_eq_admitted hitems] at hoffered
    cases hopen.symm.trans (h.tally.closed (h.tally.sealed_iff.mpr hclose))
  · obtain ⟨hclosed, hitems⟩ := h.tally.finished hfinished
    exact ⟨hfinished, hall hclosed hitems⟩
  · have hended := hpause n hp
    rw [hending] at hended
    cases hended

/-! ## Reading back what was written -/

def envelopes (items : List Item) : List Octets :=
  items.filterMap fun
    | .message m => some m.encode
    | _ => none

theorem flatten_envelopes (items : List Item) : (envelopes items).flatten = Item.spelled items := by
  induction items with
  | nil => rfl
  | cons item items ih =>
      cases item with
      | message m =>
          show m.encode ++ (envelopes items).flatten = m.encode ++ Item.spelled items
          rw [ih]
      | pause number => exact ih
      | close => exact ih

theorem mem_envelopes {items : List Item} {envelope : Octets} :
    envelope ∈ envelopes items ↔ ∃ m, .message m ∈ items ∧ m.encode = envelope := by
  rw [envelopes, List.mem_filterMap]
  constructor
  · rintro ⟨item, hmem, heq⟩
    cases item with
    | message m => exact ⟨m, hmem, Option.some.inj heq⟩
    | pause number => cases heq
    | close => cases heq
  · rintro ⟨m, hmem, rfl⟩
    exact ⟨.message m, hmem, rfl⟩

/-- The envelopes of short messages are found again, however the octets arrive. -/
theorem feedAll_of_spelled {items : List Item} {limit : Nat} {chunks : List Octets}
    (hshort : ∀ m, .message m ∈ items → Ber.Short m.content ∧ m.encode.length ≤ limit)
    (hchunks : chunks.flatten = Item.spelled items) :
    (Splitter.feedAll limit chunks).frames = envelopes items ∧
      (Splitter.feedAll limit chunks).error = none ∧
      (Splitter.feedAll limit chunks).rest.pending = [] := by
  have hsizes : ∀ envelope ∈ envelopes items,
      envelopeSize envelope limit = .ok (some envelope.length) := by
    intro envelope hmem
    obtain ⟨m, hm, rfl⟩ := mem_envelopes.mp hmem
    obtain ⟨hcontent, hlimit⟩ := hshort m hm
    exact envelopeSize_element hcontent hlimit
  obtain ⟨-, hfalls⟩ := Splitter.falls_feedAll limit chunks
  rw [hchunks, ← flatten_envelopes] at hfalls
  exact hfalls.unique (.of_flatten hsizes)

/-! ## The whole -/

/-- What an output that has come to `p` by some steps has done, and will do. -/
structure FailStop (first : Chronicle) (stirs : List Stir) (p : Chronicle) : Prop where
  /-- What stands on a channel is the pieces that were written on it. -/
  wires : ∀ c, p.output.wires.on c = (p.pieces.filter (·.1 = c)).flatMap (·.2)
  /-- As long as no write fails, the messages that were taken ahead of the closing item are written
  one behind the other, the last perhaps not yet to its end, and those behind it are thrown away. -/
  whole : p.output.failed = false →
    p.written ++ p.output.unwritten = Item.spelled (Item.ahead p.output.outbox.gone) ∧
      discards p.events = idsOf (behind p.output.outbox.gone)
  /-- After a failure it is those ahead of one message, a first part of this message, and no more. -/
  cut : p.output.failed = true → p.Broken
  /-- Nothing is written any more after a failure, nor after the closing item. -/
  still : p.output.failed = true ∨ .close ∈ p.output.outbox.gone →
    ∀ more q, p.run? more = some q → q.pieces = p.pieces
  failed_iff : p.output.failed = true ↔ ∃ before stir after q, stirs = before ++ stir :: after ∧
    first.run? before = some q ∧ q.output.WriteFails stir
  signals : (∃ cause, .writeFailed cause ∈ p.events) ↔ p.output.failed = true
  /-- A session is interrupted by a step of its output if, and only if, a write has failed. -/
  interrupts : ∀ (s : Session) act q, s.output = p.output → p.step? (.act act) = some q →
    ∃ s', s.step? (.output act) = some s' ∧ s'.output = q.output ∧
      s'.interrupted = (s.interrupted || q.output.failed)
  /-- Every pause that was taken is reported, unless nobody wants to hear of it. -/
  heard : ∀ n, .pause n ∈ p.output.outbox.gone → p.output.pauses[n]?.any Pause.isHeard = true
  /-- There is no end of steps only if there is no end of items. -/
  bounded : ∀ more q, p.run? more = some q →
    q.output.rank + more.countP Stir.isAct ≤ p.output.rank + (more.map Stir.cost).sum
  /-- Once the outbox is closed, or the closing item is queued, and as long as every pause is ended,
  the output stops only when it has taken all there was. -/
  ends : (∀ act, p.step? (.act act) = none) →
    p.output.outbox.closed = true ∨ .close ∈ p.output.outbox.offered →
    (∀ n, p.output.phase = .paused n → (p.output.pauses[n]?.bind (·.ending)).isSome) →
    p.output.phase = .finished ∧ p.output.outbox.gone = p.output.outbox.offered
  /-- Where no write has failed and none is going on, the envelopes that were written are found again
  by cutting what was written, if their contents are short and the limit is no less than any. -/
  frames : p.output.failed = false → p.output.AtRest → ∀ limit,
    (∀ m, .message m ∈ Item.ahead p.output.outbox.gone →
      Ber.Short m.content ∧ m.encode.length ≤ limit) →
    ∀ chunks : List Octets, chunks.flatten = p.written →
      (Splitter.feedAll limit chunks).frames = envelopes (Item.ahead p.output.outbox.gone) ∧
        (Splitter.feedAll limit chunks).error = none ∧
        (Splitter.feedAll limit chunks).rest.pending = []

theorem Tally.written_append_unwritten (h : p.Tally) (hf : p.output.failed = false) :
    p.written ++ p.output.unwritten = Item.spelled (Item.ahead p.output.outbox.gone) := by
  cases hp : p.output.phase with
  | writing channel left =>
      obtain ⟨-, hs, -, front, m, cut, hgone, hcut, hwritten⟩ := h.writing hp
      rw [unwritten, hp, Item.ahead_of_not_mem (h.not_closing hs), hgone, Item.spelled_concat, hwritten,
        List.append_assoc]
      exact congrArg _ hcut.symm
  | _ =>
      rw [unwritten, hp, List.append_nil]
      exact h.whole (fun _ _ hw => nomatch hp.symm.trans hw) hf

theorem interrupted_of_step? {s : Session} {act : Act} (hs : s.output = p.output)
    (hstep : p.step? (.act act) = some q) :
    ∃ s', s.step? (.output act) = some s' ∧ s'.output = q.output ∧
      s'.interrupted = (s.interrupted || q.output.failed) := by
  obtain ⟨events, hstir⟩ := stir?_of_step? hstep
  have hact : s.output.step? act = some (events, q.output) := by
    rw [hs]
    exact hstir
  refine ⟨{ s with
    output := q.output
    events := s.events ++ events
    interrupted := s.interrupted || q.output.failed }, ?_, rfl, rfl⟩
  show s.emit act = some _
  rw [Session.emit, hact]
  rfl

/-- **The output is a single writer that stops at the first failure.** Whatever is queued for it,
whenever its writer is taken away and put back, and however every write ends, it has written the
messages that it took ahead of the closing item, each once and in order, up to the first that failed,
and of that one a first part; it throws away what comes later, still reports every pause, and comes to
the end of the queue. -/
theorem failStop_of_run {capacity : Nat} {limit : Option Span} {writer : Option Channel}
    (hstart : start? capacity limit writer = some first) (hrun : first.run? stirs = some p) :
    FailStop first stirs p := by
  have hsteady : p.Steady :=
    foldlM_induction (motive := fun _ p => p.Steady) (.start hstart)
      (fun _ hmid hstep => hmid.step hstep) hrun
  have htally := hsteady.tally
  have hfirst : first.output.failed = false := by
    obtain ⟨outbox, -, rfl⟩ := Option.map_eq_some_iff.mp hstart
    rfl
  exact
    { wires := htally.wires
      whole := fun hf => ⟨htally.written_append_unwritten hf, htally.spared hf⟩
      cut := htally.broken
      still := fun hstop _ _ hmore => still_of_run htally (hstop.imp_right htally.sealed_iff.mpr) hmore
      failed_iff := failed_of_run hfirst hrun
      signals := htally.signals.symm
      interrupts := fun _ _ _ hs hstep => interrupted_of_step? hs hstep
      heard := hsteady.heard.heard
      bounded := fun _ _ hmore => rank_of_run htally hmore
      ends := hsteady.ends
      frames := fun hf hrest _ hshort _ hchunks =>
        feedAll_of_spelled hshort (hchunks.trans (htally.whole hrest hf)) }

def shortMessage (id : MessageId) : Message := { id, op := .plainResponse .delete .success }

/-- A message is written in two pieces, another one only in part; then come a message, a pause and the
closing item, and behind it one more message. -/
def brokenStirs : List Stir :=
  [.message (shortMessage 1), .message (shortMessage 2), .message (shortMessage 3), .pause, .act .take,
    .act (.write 5), .act (.write 9), .close, .message (shortMessage 4), .act .take, .act (.write 4),
    .act (.break .brokenPipe), .act .take, .act .take, .endPause 0 true, .act .resume, .act .take,
    .act .take, .act .take]

/-- The first message is whole on the connection, the second as far as it got. -/
theorem failStop_broken : ∃ first p, start? 5 none (some .plain) = some first ∧
    first.run? brokenStirs = some p ∧ FailStop first brokenStirs p ∧
    (p.output.phase = .finished ∧
      p.written = (shortMessage 1).encode ++ (shortMessage 2).encode.take 4 ∧
      discards p.events = [3, 4] ∧ p.output.hasPaused 0 = true) := by
  have hends : ((start? 5 none (some .plain)).bind (·.run? brokenStirs)).any (fun p =>
      p.output.phase = .finished ∧
        p.written = (shortMessage 1).encode ++ (shortMessage 2).encode.take 4 ∧
        discards p.events = [3, 4] ∧ p.output.hasPaused 0 = true) = true := by
    decide +kernel
  obtain ⟨p, hp, hend⟩ := (Option.any_eq_true _ _).mp hends
  obtain ⟨first, hstart, hrun⟩ := Option.bind_eq_some_iff.mp hp
  exact ⟨first, p, hstart, hrun, failStop_of_run hstart hrun, of_decide_eq_true hend⟩

end Chronicle

end Directory
