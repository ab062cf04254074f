import Directory.Proofs.Output.Room
import Directory.Rehearsal.Sink
import Mathlib.Data.List.Induction

/-!
# Scripts of writing

Any number of sinks write into one outbox, several of them perhaps with the same identifier, and one
reader takes out what was let in. What is written in a script of such steps is read off the script
alone (`written`); which messages were received (`received`), and which writes have ended, and how
(`ended`), is read off its notes. All of these grow with the script at its end, and so does the stage
that has gone through it (`after`). `Turn` lists what one step can do to the outbox.
-/

namespace Directory

namespace Rehearsal.Sink

/-! ## What a script writes -/

def Step.opens? : Step → Option MessageId
  | .openSink id => some id
  | _ => none

/-- The message that a step writes, where sinks with these identifiers are open: the operation and the
controls as they are given, under the identifier of the sink. -/
def Step.message? (ids : List MessageId) : Step → Option Message
  | .write sink op => ids[sink]?.map fun id => { id, op, controls := none }
  | .writeRaw sink m => ids[sink]?.map fun id => { m with id }
  | _ => none

def opened (script : List Step) : List MessageId := script.filterMap Step.opens?

/-- The message that is written in a step of a script, if that step writes through a sink. -/
def written (script : List Step) (number : Nat) : Option Message :=
  script[number]?.bind (·.message? (opened (script.take number)))

def writes (script : List Step) : List Nat :=
  (List.range script.length).filter fun number => (written script number).isSome

/-- The outbox is closed in a script, by request or because its reader goes away. -/
def Closes (script : List Step) : Prop := .close ∈ script ∨ .drop ∈ script

/-! ## What is noted of it -/

def Reply.received? : Reply → Option Message
  | .received m => some m
  | _ => none

/-- How a write ends that need not wait. -/
def Reply.ending? : Reply → Option Outcome
  | .write .queued => some .queued
  | .write .sessionClosed => some .sessionClosed
  | _ => none

/-- The writes that end in a step, the one of the step itself first. -/
def Note.endings (note : Note) (number : Nat) : List (Nat × Outcome) :=
  note.reply.ending?.toList.map (number, ·) ++ note.completed

def received (notes : List Note) : List Message := notes.filterMap (·.reply.received?)

/-- The writes that have ended in one way, in the order in which they ended. -/
def ended (how : Outcome) (notes : List Note) : List Nat :=
  notes.zipIdx.flatMap fun (note, number) =>
    ((note.endings number).filter (·.2 = how)).map (·.1)

def waiting (notes : List Note) : Nat := (notes.getLast?.map (·.pending)).getD 0

/-! ## One more step -/

variable {script : List Step} {a : Step} {notes : List Note} {s s' : Stage} {number capacity : Nat}

theorem opened_concat : opened (script ++ [a]) = opened script ++ a.opens?.toList := by
  rw [opened, List.filterMap_append]
  cases h : a.opens? <;> simp [opened, h]

theorem written_append (h : number < script.length) (more : List Step) :
    written (script ++ more) number = written script number := by
  rw [written, written, List.getElem?_append_left h, List.take_append_of_le_length (Nat.le_of_lt h)]

theorem written_concat :
    written (script ++ [a]) script.length = a.message? (opened script) := by
  rw [written, List.getElem?_concat_length, List.take_left]
  rfl

theorem writes_concat : writes (script ++ [a]) =
    writes script ++ if (a.message? (opened script)).isSome then [script.length] else [] := by
  have hbefore : (List.range script.length).filter
      (fun number => (written (script ++ [a]) number).isSome) = writes script :=
    List.filter_congr fun number hnumber => by
      rw [written_append (List.mem_range.mp hnumber)]
  rw [writes, List.length_append, List.length_singleton, List.range_succ, List.filter_append,
    hbefore, List.filter_cons, written_concat, List.filter_nil]

theorem closes_concat : Closes (script ++ [a]) ↔ Closes script ∨ a = .close ∨ a = .drop := by
  simp only [Closes, List.mem_append, List.mem_singleton, eq_comm (a := a)]
  grind

theorem received_concat (note : Note) :
    received (notes ++ [note]) = received notes ++ note.reply.received?.toList := by
  rw [received, List.filterMap_append]
  cases h : note.reply.received? <;> simp [received, h]

theorem ended_concat (how : Outcome) (note : Note) : ended how (notes ++ [note]) =
    ended how notes ++ ((if note.reply.ending? = some how then [notes.length] else []) ++
      (note.completed.filter (·.2 = how)).map (·.1)) := by
  rw [ended, List.zipIdx_append, List.flatMap_append]
  cases hending : note.reply.ending? with
  | none => simp [ended, Note.endings, hending]
  | some ending =>
      by_cases hhow : ending = how
      · simp [ended, Note.endings, hending, hhow]
      · simp [ended, Note.endings, hending, hhow]

theorem waiting_concat (note : Note) : waiting (notes ++ [note]) = note.pending := by
  simp [waiting]

/-! ## The stage after a script -/

def stageFrom (s : Stage) (number : Nat) : List Step → Stage
  | [] => s
  | step :: rest => stageFrom (s.step number step).2 (number + 1) rest

def after (capacity : Nat) (script : List Step) : Stage :=
  stageFrom { outbox := { capacity } } 0 script

def Stage.note (s : Stage) (number : Nat) (a : Step) : Note :=
  ⟨(s.step number a).1, s.settled (s.step number a).2, (s.step number a).2.pending⟩

theorem playFrom_append (more : List Step) :
    playFrom s number (script ++ more) =
      playFrom s number script ++
        playFrom (stageFrom s number script) (number + script.length) more := by
  induction script generalizing s number with
  | nil => rfl
  | cons step rest ih =>
      simp only [List.cons_append, playFrom, stageFrom, List.length_cons]
      rw [ih, Nat.add_assoc, Nat.add_comm 1]

theorem stageFrom_append (more : List Step) :
    stageFrom s number (script ++ more) =
      stageFrom (stageFrom s number script) (number + script.length) more := by
  induction script generalizing s number with
  | nil => rfl
  | cons step rest ih =>
      simp only [List.cons_append, stageFrom, List.length_cons]
      rw [ih, Nat.add_assoc, Nat.add_comm 1]

theorem play_concat : play capacity (script ++ [a]) =
    play capacity script ++ [(after capacity script).note script.length a] := by
  rw [play, playFrom_append, Nat.zero_add]
  rfl

theorem after_concat : after capacity (script ++ [a]) =
    ((after capacity script).step script.length a).2 := by
  rw [after, stageFrom_append, Nat.zero_add]
  rfl

/-! ## What a step does to the outbox -/

def Stage.ids (s : Stage) : List MessageId := s.sinks.map (·.id)

def Outcome.ofReceipt : Receipt → Outcome
  | .queued => .queued
  | .waiting _ => .pending
  | .closed => .sessionClosed

inductive Turn (s : Stage) (number : Nat) (a : Step) : Reply → Stage → Prop where
  | rests {reply s'} (hm : a.message? s.ids = none) (hout : s'.outbox = s.outbox)
      (hids : s'.ids = s.ids ++ a.opens?.toList) (hreading : s'.reading = s.reading)
      (hending : reply.ending? = none) (hreceived : reply.received? = none)
      (hdrop : a ≠ .drop) (hclose : a = .close → s.reading = false) : Turn s number a reply s'
  | sends {m receipt outbox} (hm : a.message? s.ids = some m) (hopens : a.opens? = none)
      (hclose : a ≠ .close) (hdrop : a ≠ .drop)
      (hs : s.outbox.send ⟨number, m⟩ = (receipt, outbox)) :
      Turn s number a (.write (.ofReceipt receipt)) { s with outbox }
  | takes {w outbox} (ha : a = .receive) (ht : s.outbox.take = (.item w, outbox)) :
      Turn s number a (.received w.message) { s with outbox }
  | closes {reply reading} (ha : a = .close ∧ reading = s.reading ∨ a = .drop ∧ reading = false)
      (hending : reply.ending? = none) (hreceived : reply.received? = none) :
      Turn s number a reply { s with outbox := s.outbox.close, reading }

/-- A step that changes nothing, and opens, writes and ends nothing. -/
theorem Turn.nothing {reply : Reply} (hm : a.message? s.ids = none) (hopens : a.opens? = none)
    (hending : reply.ending? = none) (hreceived : reply.received? = none) (hdrop : a ≠ .drop)
    (hclose : a = .close → s.reading = false) : Turn s number a reply s :=
  .rests hm rfl (by rw [hopens, Option.toList_none, List.append_nil]) rfl hending hreceived hdrop
    hclose

theorem turn_of_write {m : Message} (hm : a.message? s.ids = some m) (hopens : a.opens? = none)
    (hclose : a ≠ .close) (hdrop : a ≠ .drop) :
    Turn s number a (s.write number m).1 (s.write number m).2 := by
  unfold Stage.write
  rcases hs : s.outbox.send ⟨number, m⟩ with ⟨receipt, outbox⟩
  cases receipt with
  | queued | waiting | closed => exact .sends hm hopens hclose hdrop hs

theorem turn_of_step (s : Stage) (number : Nat) (a : Step) :
    Turn s number a (s.step number a).1 (s.step number a).2 := by
  have hid (k : Nat) : s.ids[k]? = s.sinks[k]?.map (·.id) := List.getElem?_map ..
  cases a with
  | openSink id => exact .rests rfl rfl (List.map_append ..) rfl rfl rfl nofun nofun
  | identifier sink =>
      simp only [Stage.step, Stage.atSink]
      cases s.sinks[sink]? with
      | none => exact .nothing rfl rfl rfl rfl nofun nofun
      | some _ => exact .nothing rfl rfl rfl rfl nofun nofun
  | write k op =>
      simp only [Stage.step, Stage.atSink]
      cases hsink : s.sinks[k]? with
      | none => exact .nothing (by simp [Step.message?, hid, hsink]) rfl rfl rfl nofun nofun
      | some sink =>
          have hm : (Step.write k op).message? s.ids = some (sink.response op) := by
            simp [Step.message?, hid, hsink, Sink.response]
          exact turn_of_write hm rfl nofun nofun
  | writeRaw k m =>
      simp only [Stage.step, Stage.atSink]
      cases hsink : s.sinks[k]? with
      | none => exact .nothing (by simp [Step.message?, hid, hsink]) rfl rfl rfl nofun nofun
      | some sink =>
          have hm : (Step.writeRaw k m).message? s.ids = some (sink.stamp m) := by
            simp [Step.message?, hid, hsink, Sink.stamp]
          exact turn_of_write hm rfl nofun nofun
  | receive =>
      simp only [Stage.step]
      by_cases hreading : s.reading = true
      · rw [if_pos hreading]
        rcases ht : s.outbox.take with ⟨found, outbox⟩
        cases found with
        | item w => exact .takes rfl ht
        | empty | ended =>
            obtain rfl := Outbox.eq_of_take ht fun _ => nofun
            exact .nothing rfl rfl rfl rfl nofun nofun
      · rw [if_neg hreading]
        exact .nothing rfl rfl rfl rfl nofun nofun
  | close =>
      simp only [Stage.step]
      by_cases hreading : s.reading = true
      · rw [if_pos hreading]
        exact .closes (.inl ⟨rfl, rfl⟩) rfl rfl
      · rw [if_neg hreading]
        exact .nothing rfl rfl rfl rfl nofun fun _ => eq_false_of_ne_true hreading
  | drop => exact .closes (.inr ⟨rfl, rfl⟩) rfl rfl

end Rehearsal.Sink

end Directory
