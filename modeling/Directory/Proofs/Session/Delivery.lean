import Directory.Proofs.Session.Offers
import Directory.Proofs.Session.Progress

/-!
# Which responses are delivered

Whoever writes a response, a handler or a task that outlives it, is told that it was queued as soon
as the outbox has let it in. A response that was offered ahead of the item that closes the outbox is
delivered, and a handler that has not finished is always that early.

The outbox is closed when the output takes the closing item, and not when that item is offered. A
task that outlives its handler may write in between: it is told that its response was queued, though
the output discards it (`Outcome`). Only after that is everybody turned away.
-/

namespace Directory.Session

variable {s s₀ mid : Session} {before after : List Action} {r : Nat} {i : Invocation} {m : Message}

/-- What becomes of a response to a request, written between two parts of a run at whose end the
connection is given up. -/
structure Outcome (s₀ : Session) (before : List Action) (mid : Session) (r : Nat) (i : Invocation)
    (m : Message) (s : Session) : Prop where
  /-- The writer has an answer. -/
  answered : s.output.outbox.answer (mid.respond i m).1 ≠ .waiting
  /-- It is that the response was queued just if the outbox was open and let in what was offered up
  to it. -/
  queued_iff : s.output.outbox.answer (mid.respond i m).1 = .queued ↔
    mid.output.outbox.closed = false ∧
      (offerings s₀ before).length < s.output.outbox.admitted.length
  /-- Before the closing item is offered, the response is queued and delivered, behind all that was
  offered before. -/
  delivered : mid.phase.hasSealed = false →
    s.output.outbox.answer (mid.respond i m).1 = .queued ∧
      ∃ later, s.Delivered
        ((offerings s₀ before).map (·.2) ++ .message ((sinkOf i).stamp m) :: later)
  /-- After that nothing is delivered but what was offered ahead of the closing item. -/
  undelivered : mid.phase.hasSealed = true →
    .close ∈ (offerings s₀ before).map (·.2) ∧
      s.Delivered (Item.ahead ((offerings s₀ before).map (·.2)))
  /-- It is when the output has taken the closing item that writers are turned away. -/
  refused_iff : (mid.respond i m).1 = .closed ↔ mid.output.sealed = true
  /-- A handler that has not finished is not late. -/
  timely : mid.Runs r → mid.phase.hasSealed = false

theorem step?_write (hi : mid.requests[r]? = some i) :
    mid.step? (.handler r (.write m)) = some (mid.respond i m).2 := by
  show mid.perform r (.write m) = _
  rw [perform, hi]
  rfl

theorem run?_write (hbefore : s₀.run? before = some mid) (hi : mid.requests[r]? = some i)
    (hafter : (mid.respond i m).2.run? after = some s) :
    s₀.run? (before ++ .handler r (.write m) :: after) = some s := by
  refine foldlM_append_eq_some.mpr ⟨mid, hbefore, ?_⟩
  rw [List.foldlM_cons, step?_write hi]
  exact hafter

theorem offerings_write (hbefore : s₀.run? before = some mid) (hi : mid.requests[r]? = some i)
    (hopen : mid.output.outbox.closed = false) :
    offerings s₀ (before ++ .handler r (.write m) :: after) = offerings s₀ before ++
      (.handler r (.write m), .message ((sinkOf i).stamp m)) ::
        offerings (mid.respond i m).2 after := by
  have hadded : added mid (mid.respond i m).2 = [.message ((sinkOf i).stamp m)] := by
    show (mid.output.outbox.send _).2.offered.drop _ = _
    rw [Outbox.offered_send, hopen]
    exact List.drop_left
  rw [offerings_append hbefore, offerings, step?_write hi, Option.elim_some, hadded]
  rfl

/-- A response is let in just if all that was offered up to it is. -/
theorem answer_eq_queued_iff {entries : List (Action × Item)} (h : Recorded entries mid)
    (hafter : (mid.respond i m).2.run? after = some s) :
    s.output.outbox.answer (mid.respond i m).1 = .queued ↔
      mid.output.outbox.closed = false ∧ entries.length < s.output.outbox.admitted.length := by
  have hreceipt : (mid.respond i m).1 =
    (mid.output.outbox.send (.message ((sinkOf i).stamp m))).1 := rfl
  have hn : (mid.respond i m).2.output.outbox.Numbered := h.numbered.send _
  cases hclosed : mid.output.outbox.closed with
  | true =>
      rw [hreceipt, Outbox.send_of_closed hclosed]
      exact iff_of_false nofun nofun
  | false =>
      have hholds : (mid.respond i m).2.output.outbox.Holds entries.length (mid.respond i m).1 :=
        h.length_eq hclosed ▸ .of_send hclosed _
      rw [(holds_of_run hn hholds hafter).answer_eq_queued_iff (numbered_of_run hn hafter)]
      exact (and_iff_right rfl).symm

/-- **Who is early is delivered; who is late may be told so all the same.** However the parties are
interleaved, a response that is written before the session offers the item that closes the outbox is
on the connection in the end, if no write has failed. -/
theorem outcome_of_run {options : Options} {info : SessionInfo} {stopping : Bool}
    (h₀ : start? options info stopping = some s₀) (hbefore : s₀.run? before = some mid)
    (hi : mid.requests[r]? = some i) (hafter : (mid.respond i m).2.run? after = some s)
    (hover : s.phase = .closing .leaving ∨ s.phase = .closed) (hf : s.output.failed = false) :
    Outcome s₀ before mid r i m s := by
  have hrun := run?_write hbefore hi hafter
  have hmid := Recorded.run h₀ hbefore
  have hend := Recorded.run h₀ hrun
  have htmid : mid.Teardown := Teardown.run h₀ hbefore
  have htend : s.Teardown := Teardown.run h₀ hrun
  have hqueued := answer_eq_queued_iff hmid hafter
  constructor
  case answered =>
    exact Outbox.answer_ne_waiting htend.account.sound
      (htend.account.finished (htend.finished hover)).1 _
  case queued_iff => exact hqueued
  case delivered =>
    intro hunsealed
    have hopen := htmid.outbox_open hunsealed
    have hahead : .close ∉ (offerings s₀ before).map (·.2) := by
      rw [hmid.close_mem_iff htmid, hunsealed]
      exact Bool.false_ne_true
    obtain ⟨hlt, hdelivered⟩ :=
      hend.written_of_ahead htend hover hf (offerings_write hbefore hi hopen) hahead
    exact ⟨hqueued.mpr ⟨hopen, hlt⟩, _, hdelivered⟩
  case undelivered =>
    intro hsealed
    have hclose := (hmid.close_mem_iff htmid).mpr hsealed
    refine ⟨hclose, ?_⟩
    have hdelivered := (hend.written htend hover hf).1
    rw [offerings_append hbefore, List.map_append, Item.ahead_append hclose] at hdelivered
    exact hdelivered
  case refused_iff =>
    rw [← htmid.account.closed_eq]
    exact Outbox.send_eq_closed_iff
  case timely =>
    rintro ⟨j, hj, hrunning⟩
    apply eq_false_of_ne_true
    intro hsealed
    have hdone := List.all_eq_true.mp (htmid.still_of_hasSealed hsealed).1
    exact of_decide_eq_true (hdone j (List.mem_of_getElem? hj)) hrunning

def awaitedActions : List Action :=
  [.receive lateRequest.encode, .read, .endOfStream, .close, .close, .close, .watch]

def servedActions : List Action :=
  [.handler 0 .return, .close, .close, .output .take,
    .output (.write lateResponse.encode.length), .output .take, .output .take, .close, .close]

theorem outcome_of_awaited_write : ∃ s₀ mid i s, start? {} silentInfo false = some s₀ ∧
    s₀.run? awaitedActions = some mid ∧ mid.requests[0]? = some i ∧
    (mid.respond i lateResponse).2.run? servedActions = some s ∧
    (s.phase = .closing .leaving ∨ s.phase = .closed) ∧ s.output.failed = false ∧
    Outcome s₀ awaitedActions mid 0 i lateResponse s := by
  have hends : ((start? {} silentInfo false).any fun s₀ => (s₀.run? awaitedActions).any fun mid =>
      mid.requests[0]?.any fun i => ((mid.respond i lateResponse).2.run? servedActions).any fun s =>
        s.phase = .closed ∧ s.output.failed = false) = true := by
    decide +kernel
  obtain ⟨s₀, h₀, hs⟩ := (Option.any_eq_true _ _).mp hends
  obtain ⟨mid, hbefore, hs⟩ := (Option.any_eq_true _ _).mp hs
  obtain ⟨i, hi, hs⟩ := (Option.any_eq_true _ _).mp hs
  obtain ⟨s, hafter, hend⟩ := (Option.any_eq_true _ _).mp hs
  obtain ⟨hclosed, hf⟩ := of_decide_eq_true hend
  exact ⟨s₀, mid, i, s, h₀, hbefore, hi, hafter, .inr hclosed, hf,
    outcome_of_run h₀ hbefore hi hafter (.inr hclosed) hf⟩

def sealedActions : List Action := awaitedActions ++ [.handler 0 .return, .close, .close]

def emptiedActions : List Action :=
  [.output .take, .output .take, .output .take, .close, .close]

/-- A task that outlives the handler writes a response behind the closing item, before the output
has taken that. It is told that its response was queued, but nothing is ever on the connection. -/
theorem queued_but_undelivered : ∃ s₀ mid i s, start? {} silentInfo false = some s₀ ∧
    s₀.run? sealedActions = some mid ∧ mid.requests[0]? = some i ∧
    (mid.respond i lateResponse).2.run? emptiedActions = some s ∧
    s.phase = .closed ∧ s.output.failed = false ∧
    s.output.outbox.answer (mid.respond i lateResponse).1 = .queued ∧
    s.output.wires.on .plain = [] ∧ s.output.wires.on .secure = [] := by
  have hends : ((start? {} silentInfo false).any fun s₀ => (s₀.run? sealedActions).any fun mid =>
      mid.requests[0]?.any fun i =>
        ((mid.respond i lateResponse).2.run? emptiedActions).any fun s =>
          s.phase = .closed ∧ s.output.failed = false ∧
            s.output.outbox.answer (mid.respond i lateResponse).1 = .queued ∧
            s.output.wires.on .plain = [] ∧ s.output.wires.on .secure = []) = true := by
    decide +kernel
  obtain ⟨s₀, h₀, hs⟩ := (Option.any_eq_true _ _).mp hends
  obtain ⟨mid, hbefore, hs⟩ := (Option.any_eq_true _ _).mp hs
  obtain ⟨i, hi, hs⟩ := (Option.any_eq_true _ _).mp hs
  obtain ⟨s, hafter, hend⟩ := (Option.any_eq_true _ _).mp hs
  exact ⟨s₀, mid, i, s, h₀, hbefore, hi, hafter, of_decide_eq_true hend⟩

end Directory.Session
