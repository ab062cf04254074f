import Directory.Proofs.Output.Account

/-!
# Where the closing item stands

The closing item is offered like any other one, but what is said of it is a number: how often it was
offered so far. `Output.Keeps` is what every operation on the output keeps that does not offer it:
the number, and who waits with it for room. Taking it turns away all who wait, so the number is kept
only if it was offered once (`Keeps.turn`).
-/

namespace Directory

/-- An output has become another one in which the closing item stands as it stood. -/
structure Output.Keeps (o o' : Output) : Prop where
  account : o'.Account
  count_eq : o'.outbox.offered.count .close = o.outbox.offered.count .close
  waits : ∀ ticket, (ticket, .close) ∈ o'.outbox.waiting → (ticket, .close) ∈ o.outbox.waiting
  finished : o.phase = .finished → o'.phase = .finished

namespace Output.Keeps

variable {o o' : Output}

theorem refl (h : o.Account) : o.Keeps o := ⟨h, rfl, fun _ => id, id⟩

theorem trans {o'' : Output} (h : o.Keeps o') (h' : o'.Keeps o'') : o.Keeps o'' :=
  ⟨h'.account, h'.count_eq.trans h.count_eq, fun t ht => h.waits t (h'.waits t ht),
    fun hf => h'.finished (h.finished hf)⟩

theorem of_send {item : Item} {receipt : Receipt} (h : o.Account) (hi : item ≠ .close)
    (hs : o.send item = (receipt, o')) : o.Keeps o' := by
  have heq : (o.send item).2 = o' := congrArg Prod.snd hs
  subst heq
  refine ⟨h.send item, ?_, ?_, id⟩
  · show (o.outbox.send item).2.offered.count .close = _
    rw [Outbox.offered_send]
    split
    · rfl
    · rw [List.count_append, List.count_singleton]
      simp [hi]
  · intro ticket hmem
    rcases Outbox.mem_waiting_send hmem with hold | ⟨hnew, _⟩
    · exact hold
    · exact absurd hnew.symm hi

theorem pauses (h : o.Account) (ps : List Pause) : o.Keeps { o with pauses := ps } :=
  ⟨h.pauses ps, rfl, fun _ => id, id⟩

theorem endPause (h : o.Account) (n : Nat) (resumed : Bool) : o.Keeps (o.endPause n resumed) :=
  pauses h _

theorem takeWriter (h : o.Account) : o.Keeps { o with writer := none } :=
  ⟨h.takeWriter, rfl, fun _ => id, id⟩

theorem putSecure (h : o.Account) : o.Keeps { o with writer := some .secure } :=
  ⟨h.putSecure, rfl, fun _ => id, id⟩

theorem of_takes {item : Item} {outbox : Outbox Item} (ht : o.Takes item outbox)
    (h : o'.Account) (houtbox : o'.outbox = outbox) : o.Keeps o' := by
  refine ⟨h, ?_, ?_, ?_⟩
  · rw [houtbox, Outbox.offered_of_take ht.take_eq]
  · intro ticket hmem
    rw [houtbox] at hmem
    exact Outbox.waiting_subset_of_take ht.take_eq hmem
  · intro hphase
    rw [ht.ready] at hphase
    cases hphase

theorem of_closes {outbox : Outbox Item} (h : o.Account) (ht : o.Takes .close outbox)
    (hcount : o.outbox.offered.count .close ≤ 1) :
    o.Keeps { o with sealed := true, outbox := outbox.close } := by
  refine ⟨h.closes ht, ?_, ?_, ?_⟩
  · -- The closing item was let in, so nobody else can wait with one.
    have hoffered := Outbox.offered_of_take ht.take_eq
    have hmem : .close ∈ outbox.admitted := by
      apply Outbox.mem_admitted_of_mem_gone
      rw [Outbox.gone_of_take h.sound ht.take_eq]
      exact List.mem_concat_self ..
    have hpos : 0 < outbox.admitted.count .close := List.count_pos_iff.mpr hmem
    show outbox.close.offered.count .close = _
    rw [Outbox.offered_close]
    rw [← hoffered, Outbox.offered, List.count_append] at hcount ⊢
    omega
  · intro ticket hmem
    cases hmem
  · intro hphase
    rw [ht.ready] at hphase
    cases hphase

theorem turn {act : Act} {events : List Event} (h : o.Account)
    (hcount : o.outbox.offered.count .close ≤ 1) (ht : Turn o act events o') : o.Keeps o' := by
  have haccount := h.turn ht
  cases ht with
  | discard hm => exact of_takes hm haccount rfl
  | writerMissing hm => exact of_takes hm haccount rfl
  | start hm => exact of_takes hm haccount rfl
  | pause hm => exact of_takes hm haccount rfl
  | skip hm => exact of_takes hm haccount rfl
  | closes hm => exact of_closes h hm hcount
  | finish hp he => exact ⟨haccount, rfl, fun _ => id, fun _ => rfl⟩
  | write hp => exact ⟨haccount, rfl, fun _ => id, fun hf => nomatch hp.symm.trans hf⟩
  | «break» hp => exact ⟨haccount, rfl, fun _ => id, fun hf => nomatch hp.symm.trans hf⟩
  | expire hp => exact ⟨haccount, rfl, fun _ => id, fun hf => nomatch hp.symm.trans hf⟩
  | resume hp => exact ⟨haccount, rfl, fun _ => id, fun hf => nomatch hp.symm.trans hf⟩
  | forsake hp => exact ⟨haccount, rfl, fun _ => id, fun hf => nomatch hp.symm.trans hf⟩

end Output.Keeps

end Directory
