import Directory.Output.Basic
import Directory.Proofs.Output.Outbox

/-!
# What a turn of the output can be

`Output.step?` goes by the phase, the act and what is found. `Output.Turn` lists the outcomes of all
these branches, each with what was checked on the way, so that a proof about the output goes by its
cases and opens no function (`turn_of_step?`).
-/

namespace Directory.Output

/-- The output is ready for an item and gets it. -/
structure Takes (o : Output) (item : Item) (outbox : Outbox Item) : Prop where
  ready : o.phase = .ready
  take_eq : o.outbox.take = (.item item, outbox)

inductive Turn (o : Output) : Act → List Event → Output → Prop where
  | discard {m outbox} (ht : o.Takes (.message m) outbox) (hd : o.failed = true ∨ o.sealed = true) :
      Turn o .take [.discarded m.id] { o with outbox }
  | writerMissing {m outbox} (ht : o.Takes (.message m) outbox) (hf : o.failed = false)
      (hs : o.sealed = false) (hw : o.writer = none) :
      Turn o .take [.writeFailed .writerUnavailable]
        { o with outbox, failed := true, phase := .ready }
  | start {m outbox channel} (ht : o.Takes (.message m) outbox) (hf : o.failed = false)
      (hs : o.sealed = false) (hw : o.writer = some channel) :
      Turn o .take [] { o with outbox, phase := .writing channel m.encode }
  | pause {n outbox} (ht : o.Takes (.pause n) outbox)
      (hw : o.pauses[n]?.any (·.watched) = true) :
      Turn o .take []
        { o with
          outbox
          phase := .paused n
          pauses := o.pauses.modify n fun p => { p with reported := true } }
  | skip {n outbox} (ht : o.Takes (.pause n) outbox)
      (hw : o.pauses[n]?.any (·.watched) = false) :
      Turn o .take [] { o with outbox }
  | closes {outbox} (ht : o.Takes .close outbox) :
      Turn o .take [] { o with sealed := true, outbox := outbox.close }
  | finish {outbox} (hp : o.phase = .ready) (he : o.outbox.take = (.ended, outbox)) :
      Turn o .take [.outputFinished] { o with phase := .finished }
  | write {channel left count} (hp : o.phase = .writing channel left) (hc : 0 < count)
      (hl : (left.take count).length = count) :
      Turn o (.write count) [] (o.put channel left count)
  | break {channel left cause} (hp : o.phase = .writing channel left) :
      Turn o (.break cause) [.writeFailed cause] { o with failed := true, phase := .ready }
  | expire {channel left limit} (hp : o.phase = .writing channel left)
      (hl : o.limit = some limit) :
      Turn o .expire [.writeFailed (.writeTimeout limit)]
        { o with failed := true, phase := .ready }
  | resume {n} (hp : o.phase = .paused n)
      (he : o.pauses[n]?.bind (·.ending) = some true) :
      Turn o .resume [] { o with phase := .ready }
  | forsake {n} (hp : o.phase = .paused n)
      (he : o.pauses[n]?.bind (·.ending) = some false) :
      Turn o .resume [.pauseForsaken] { o with phase := .ready }

variable {o o' : Output} {events : List Event}

theorem turn_of_handle {item : Item} {outbox : Outbox Item} (ht : o.Takes item outbox)
    (h : { o with outbox }.handle item = (events, o')) : Turn o .take events o' := by
  cases item with
  | message m =>
      simp only [handle] at h
      by_cases hd : (o.failed || o.sealed) = true
      · rw [if_pos hd] at h
        cases h
        exact .discard ht (by simpa using hd)
      · rw [if_neg hd] at h
        obtain ⟨hf, hs⟩ : o.failed = false ∧ o.sealed = false := by simpa using hd
        cases hw : o.writer with
        | none =>
            simp only [hw, fail] at h
            cases h
            have hturn := Turn.writerMissing ht hf hs hw
            rw [hw] at hturn
            exact hturn
        | some channel =>
            simp only [hw] at h
            cases h
            have hturn := Turn.start ht hf hs hw
            rw [hw] at hturn
            exact hturn
  | pause n =>
      simp only [handle] at h
      by_cases hw : o.pauses[n]?.any (·.watched) = true
      · rw [if_pos hw] at h
        cases h
        exact .pause ht hw
      · rw [if_neg hw] at h
        cases h
        exact .skip ht (eq_false_of_ne_true hw)
  | close =>
      cases h
      exact .closes ht

theorem turn_of_takeNext (hp : o.phase = .ready) (h : o.takeNext = some (events, o')) :
    Turn o .take events o' := by
  unfold takeNext at h
  split at h
  next item outbox ht => exact turn_of_handle ⟨hp, ht⟩ (Option.some.inj h)
  next => cases h
  next outbox he =>
    cases h
    exact .finish hp he

theorem turn_of_step? {act : Act} (h : o.step? act = some (events, o')) :
    Turn o act events o' := by
  unfold step? at h
  split at h
  next hp => exact turn_of_takeNext hp h
  next channel left count hp =>
    obtain ⟨⟨hc, hl⟩, h⟩ := Option.ite_none_right_eq_some.mp h
    cases h
    exact .write hp hc hl
  next cause hp =>
    cases h
    exact .break hp
  next hp =>
    obtain ⟨limit, hl, h⟩ := Option.map_eq_some_iff.mp h
    cases h
    exact .expire hp hl
  next n hp =>
    split at h
    next => cases h
    next he =>
      cases h
      exact .resume hp he
    next he =>
      cases h
      exact .forsake hp he
  next => cases h

/-! ## A write of some octets -/

section

variable {channel c : Channel} {left rest : Octets} {count : Nat}

/-- After a write the message is at its end, or what is left of it comes next. -/
theorem put_cases (o : Output) (channel : Channel) (left : Octets) (count : Nat) :
    left.drop count = [] ∧ (o.put channel left count).phase = .ready ∨
      left.drop count ≠ [] ∧
        (o.put channel left count).phase = .writing channel (left.drop count) := by
  cases hd : left.drop count with
  | nil => exact .inl ⟨rfl, by simp only [put, hd]⟩
  | cons first more => exact .inr ⟨List.cons_ne_nil _ _, by simp only [put, hd]⟩

theorem writing_of_put (h : (o.put channel left count).phase = .writing c rest) :
    channel = c ∧ left.drop count = rest ∧ rest ≠ [] := by
  rcases put_cases o channel left count with ⟨-, hp⟩ | ⟨hne, hp⟩
  · cases hp.symm.trans h
  · cases hp.symm.trans h
    exact ⟨rfl, rfl, hne⟩

theorem unfinished_of_put : (o.put channel left count).phase ≠ .finished := by
  intro h
  rcases put_cases o channel left count with ⟨-, hp⟩ | ⟨-, hp⟩ <;> cases hp.symm.trans h

theorem unpaused_of_put {n : Nat} : (o.put channel left count).phase ≠ .paused n := by
  intro h
  rcases put_cases o channel left count with ⟨-, hp⟩ | ⟨-, hp⟩ <;> cases hp.symm.trans h

end

theorem failed_mono {act : Act} (h : Turn o act events o') (hf : o.failed = true) :
    o'.failed = true := by
  cases h with
  | writerMissing | «break» | expire => rfl
  | _ => exact hf

end Directory.Output
