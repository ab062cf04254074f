import Directory.Proofs.Request.Ledger
import Directory.Proofs.Request.Posting

/-!
# What a handler learns of the end of its session

A request keeps the first reasons that were posted to it and not asked for, and no more than there
are slots. Which ones these are can be read off a script alone: `Ledger.reasonsTo` are the reasons
that a step posts to a request, and `kept` takes the first of them and lets go of those that were
asked for (`Stage.Keeps`).

The slots belong to nobody. When the session closes down its reason is kept if a slot is free, so it
reaches the handler of a request to which at most one reason was posted since none was kept, and it
does not reach a handler whose client has taken both slots (`SweepHeard`). The request counts as
cancelled in either case.
-/

namespace Directory

open Cancellation (slots)

namespace Rehearsal.Roster

variable {s : Stage} {l : Ledger} {request : Nat} {script before between : List Step}

/-- Posting in turn keeps the first ones that find a slot. -/
theorem pendingOf_postEach {cs : Cancellations} (h : request < cs.length)
    (hroom : (cs.pendingOf request).length ≤ slots) (posts : List (Nat × Reason)) :
    (postEach cs posts).pendingOf request =
      (cs.pendingOf request ++ (posts.filter (·.1 = request)).map (·.2)).take slots := by
  induction posts generalizing cs with
  | nil => simp [postEach, List.take_of_length_le hroom]
  | cons first rest ih =>
      have hpost : (cs.post first.1 first.2).pendingOf request = _ :=
        Cancellations.pendingOf_post h hroom first.2
      have hlength : ((cs.post first.1 first.2).pendingOf request).length ≤ slots := by
        rw [hpost]
        exact List.length_take_le ..
      show (postEach (cs.post first.1 first.2) rest).pendingOf request = _
      rw [ih (by rw [Cancellations.length_post]; exact h) hlength, hpost, take_take_append,
        List.append_assoc]
      by_cases hfirst : first.1 = request <;> simp [hfirst]

theorem length_postEach (cs : Cancellations) (posts : List (Nat × Reason)) :
    (postEach cs posts).length = cs.length := by
  induction posts generalizing cs with
  | nil => rfl
  | cons first rest ih => exact (ih _).trans (Cancellations.length_post ..)

/-! ## The reasons kept, read off a script -/

namespace Ledger

def posts (l : Ledger) : Step → List (Nat × Reason)
  | .post request reason => [(request, reason)]
  | a => (l.answer? a).elim [] (·.2)

def reasonsTo (l : Ledger) (request : Nat) (a : Step) : List Reason :=
  if request < l.ids.length then ((l.posts a).filter (·.1 = request)).map (·.2) else []

/-- What is kept for a request after a step: a handler that asks takes the oldest reason. -/
def keep (l : Ledger) (request : Nat) (kept : List Reason) (a : Step) : List Reason :=
  if a = .pop request then kept.tail else (kept ++ l.reasonsTo request a).take slots

def keepAll (l : Ledger) (request : Nat) (kept : List Reason) : List Step → List Reason
  | [] => kept
  | a :: rest => (l.step a).keepAll request (l.keep request kept a) rest

def reasonsToAll (l : Ledger) (request : Nat) : List Step → List Reason
  | [] => []
  | a :: rest => l.reasonsTo request a ++ (l.step a).reasonsToAll request rest

theorem posts_of_answer? {a : Step} {reply : Reply} {posts : List (Nat × Reason)}
    (h : l.answer? a = some (reply, posts)) : l.posts a = posts := by
  cases a with
  | post => cases h
  | _ => rw [Ledger.posts, h, Option.elim_some]; exact nofun

theorem ids_step {a : Step} (ha : ∀ message session, a ≠ .request message session) :
    (l.step a).ids = l.ids := by
  cases a with
  | request message session => exact absurd rfl (ha message session)
  | register request =>
      rw [Ledger.step]
      split <;> rfl
  | release guard | unwind guard =>
      rw [Ledger.step, letGo]
      split <;> rfl
  | _ => rfl

end Ledger

def kept (script : List Step) (request : Nat) : List Reason :=
  ({} : Ledger).keepAll request [] script

/-- A stage keeps these reasons for a request. -/
structure Stage.Keeps (s : Stage) (l : Ledger) (request : Nat) (reasons : List Reason) : Prop where
  length : s.cancellations.length = l.ids.length
  pending : s.cancellations.pendingOf request = reasons
  room : reasons.length ≤ slots

namespace Stage.Keeps

variable {s' : Stage} {l' : Ledger} {reasons : List Reason}

theorem post (h : s.Keeps l request reasons) {posts : List (Nat × Reason)}
    (hcs : s'.cancellations = postEach s.cancellations posts) (hids : l'.ids = l.ids) :
    s'.Keeps l' request ((reasons ++ if request < l.ids.length
      then (posts.filter (·.1 = request)).map (·.2) else []).take slots) := by
  refine ⟨?_, ?_, List.length_take_le ..⟩
  · rw [hcs, length_postEach, hids, h.length]
  · rw [hcs]
    by_cases hlt : request < l.ids.length
    · rw [if_pos hlt, pendingOf_postEach (h.length ▸ hlt) (h.pending ▸ h.room), h.pending]
    · have hle : s.cancellations.length ≤ request := h.length ▸ Nat.le_of_not_lt hlt
      rw [if_neg hlt, List.append_nil, List.take_of_length_le h.room, ← h.pending,
        Cancellations.pendingOf_of_le hle,
        Cancellations.pendingOf_of_le (by rw [length_postEach]; exact hle)]

theorem frame (h : s.Keeps l request reasons) {a : Step} (ha : a ≠ .pop request)
    (hlength : s'.cancellations.length = l'.ids.length)
    (hpending : s'.cancellations.pendingOf request = s.cancellations.pendingOf request)
    (hnothing : l.posts a = []) : s'.Keeps l' request (l.keep request reasons a) := by
  have hkeep : l.keep request reasons a = reasons := by
    rw [Ledger.keep, if_neg ha, Ledger.reasonsTo, hnothing]
    simp [List.take_of_length_le h.room]
  rw [hkeep]
  exact ⟨hlength, hpending.trans h.pending, h.room⟩

theorem pop (h : s.Keeps l request reasons) :
    (s.step (.pop request)).2.Keeps l request reasons.tail := by
  refine ⟨(List.length_modify ..).trans h.length, ?_, ?_⟩
  · show Cancellations.pendingOf (s.cancellations.modify request (·.pop)) request = _
    rw [Cancellations.pendingOf_modify (fun _ => rfl) List.tail_nil, if_pos rfl, h.pending]
  · rw [List.length_tail]
    exact Nat.le_trans (Nat.sub_le ..) h.room

theorem step (h : s.Keeps l request reasons) (hm : s.Mirrors l) (a : Step) :
    (s.step a).2.Keeps (l.step a) request (l.keep request reasons a) := by
  by_cases hpop : a = .pop request
  · subst hpop
    rw [Ledger.keep, if_pos rfl]
    exact h.pop
  cases hl : l.answer? a with
  | some answer =>
      -- What the roster is asked, it answers with posts.
      obtain ⟨reply, posts⟩ := answer
      have hids : (l.step a).ids = l.ids := by
        apply Ledger.ids_step
        rintro message session rfl
        cases hl
      have hpost := h.post (hm.answers hl).2 hids
      rw [← Ledger.posts_of_answer? hl] at hpost
      rw [Ledger.keep, if_neg hpop]
      exact hpost
  | none =>
      cases a with
      | post other reason =>
          rw [Ledger.keep, if_neg hpop]
          exact h.post (show _ = postEach s.cancellations [(other, reason)] from rfl) rfl
      | pop other =>
          refine h.frame hpop ((List.length_modify ..).trans h.length) ?_ rfl
          show Cancellations.pendingOf (s.cancellations.modify other (·.pop)) request = _
          rw [Cancellations.pendingOf_modify (fun _ => rfl) List.tail_nil,
            if_neg fun heq => hpop (congrArg Step.pop heq)]
      | request message session =>
          refine h.frame hpop ?_ (Cancellations.pendingOf_fresh ..) rfl
          show (s.cancellations ++ [({} : Cancellation)]).length = (l.ids ++ [message.id]).length
          rw [List.length_append, List.length_append, h.length]
          rfl
      | handOut other =>
          refine h.frame hpop ((List.length_modify ..).trans h.length) ?_ rfl
          exact Cancellations.pendingOf_modify_of_eq fun _ => rfl
      | cancelToken token =>
          simp only [Stage.step]
          split
          · exact h.frame hpop h.length rfl rfl
          · refine h.frame hpop ((List.length_modify ..).trans h.length) ?_ rfl
            exact Cancellations.pendingOf_modify_of_eq fun _ => rfl
      | openSession info =>
          simp only [Stage.step, Stage.asOwner]
          split <;> exact h.frame hpop h.length rfl rfl
      | cloneSession session | sessionInfo session | requestInfo other | guarded guard =>
          simp only [Stage.step]
          split <;> exact h.frame hpop h.length rfl rfl
      | markTls | setAcl | isCancelled | acceptStartTls => exact h.frame hpop h.length rfl rfl
      | _ => cases hl

theorem start (request : Nat) : ({} : Stage).Keeps {} request [] :=
  ⟨rfl, rfl, Nat.zero_le _⟩

theorem run (h : s.Keeps l request reasons) (hm : s.Mirrors l) (script : List Step) :
    (script.foldl (fun s a => (s.step a).2) s).Keeps (script.foldl Ledger.step l) request
      (l.keepAll request reasons script) := by
  induction script generalizing s l reasons with
  | nil => exact h
  | cons a rest ih => exact ih (h.step hm a) (hm.step a)

/-- After any script a stage keeps what the script says. -/
theorem after (script : List Step) (request : Nat) :
    (Stage.after script).Keeps (Ledger.after script) request (kept script request) :=
  (start request).run Mirrors.start script

end Stage.Keeps

/-! ## Asking until there is none -/

/-- The reasons that a handler gets that asks until there is none, a number of times at most. -/
def Stage.ask (s : Stage) (request : Nat) : Nat → List Reason
  | 0 => []
  | times + 1 =>
      match s.step (.pop request) with
      | (.reason (some reason), next) => reason :: next.ask request times
      | _ => []

theorem Stage.ask_eq (s : Stage) (request times : Nat) :
    s.ask request times = (s.cancellations.pendingOf request).take times := by
  induction times generalizing s with
  | zero => rfl
  | succ times ih =>
      have hnext : (s.step (.pop request)).2.cancellations.pendingOf request =
          (s.cancellations.pendingOf request).tail :=
        (Cancellations.pendingOf_modify (fun _ => rfl) List.tail_nil).trans (if_pos rfl)
      have hreply : (s.step (.pop request)).1 =
          .reason (s.cancellations.pendingOf request).head? := by
        show Reply.reason (s.cancellations[request]?.bind (·.next?)) = _
        rw [Cancellations.pendingOf]
        cases s.cancellations[request]? <;> rfl
      rw [Stage.ask]
      cases hpending : s.cancellations.pendingOf request with
      | nil =>
          rw [hpending] at hreply
          split
          next reason next heq => rw [heq] at hreply; cases hreply
          next => rfl
      | cons reason rest =>
          rw [hpending] at hreply hnext
          have heq : s.step (.pop request) =
              (.reason (some reason), (s.step (.pop request)).2) := Prod.ext hreply rfl
          rw [heq]
          show reason :: (s.step (.pop request)).2.ask request times = _
          rw [ih, hnext]
          rfl

namespace Ledger

theorem keepAll_append (l : Ledger) (request : Nat) (reasons : List Reason)
    (before between : List Step) : l.keepAll request reasons (before ++ between) =
      (before.foldl step l).keepAll request (l.keepAll request reasons before) between := by
  induction before generalizing l reasons with
  | nil => rfl
  | cons a rest ih => exact ih ..

/-- No more is kept than was kept before and was posted since. -/
theorem length_keepAll_le (l : Ledger) (request : Nat) (reasons : List Reason)
    (script : List Step) : (l.keepAll request reasons script).length ≤
      reasons.length + (l.reasonsToAll request script).length := by
  induction script generalizing l reasons with
  | nil => exact Nat.le_refl _
  | cons a rest ih =>
      have hone : (l.keep request reasons a).length ≤
          reasons.length + (l.reasonsTo request a).length := by
        unfold keep
        split
        · rw [List.length_tail]
          omega
        · rw [List.length_take, List.length_append]
          exact Nat.min_le_right ..
      have hrest := ih (l.step a) (l.keep request reasons a)
      rw [keepAll, reasonsToAll, List.length_append]
      omega

end Ledger

/-! ## The sweep -/

/-- One more reason finds a slot unless the client has taken all of them. -/
theorem sessionClosing_mem_take_iff {reasons : List Reason} {count : Nat}
    (hroom : reasons.length ≤ slots) (hcount : 0 < count) :
    Reason.sessionClosing ∈ (reasons ++ List.replicate count Reason.sessionClosing).take slots ↔
      reasons ≠ List.replicate slots .client := by
  constructor
  · rintro hmem rfl
    rw [List.take_left' List.length_replicate, List.mem_replicate] at hmem
    cases hmem.2
  · intro hne
    by_cases hfull : reasons.length = slots
    · rw [List.take_left' hfull]
      by_contra hmem
      refine hne (List.eq_replicate_iff.mpr ⟨hfull, ?_⟩)
      intro reason hreason
      cases reason with
      | client => rfl
      | sessionClosing => exact absurd hreason hmem
    · have hlast : (reasons ++ List.replicate count Reason.sessionClosing)[reasons.length]? =
          some .sessionClosing := by
        rw [List.getElem?_append_right (Nat.le_refl _), Nat.sub_self]
        exact List.getElem?_replicate_of_lt hcount
      refine List.mem_of_getElem? (i := reasons.length) ?_
      rw [List.getElem?_take_of_lt (Nat.lt_of_le_of_ne hroom hfull), hlast]

theorem filter_entries (entries : List Nat) (request : Nat) (reason : Reason) :
    ((entries.map fun entry => (entry, reason)).filter (·.1 = request)).map (·.2) =
      List.replicate (entries.count request) reason := by
  induction entries with
  | nil => rfl
  | cons first rest ih =>
      by_cases h : first = request <;> simp [h, ih, List.replicate_succ]

def Stage.swept (script : List Step) : Stage :=
  ((Stage.after script).step (.cancelAll .sessionClosing)).2

theorem pendingOf_swept (howned : (Ledger.after script).owned = true)
    (hmem : request ∈ (Ledger.after script).entries) :
    (Stage.swept script).cancellations.pendingOf request =
      (kept script request ++ List.replicate ((Ledger.after script).entries.count request)
        Reason.sessionClosing).take slots := by
  have hm := Stage.Mirrors.after script
  have hkeeps := (Stage.Keeps.after script request).step hm (.cancelAll .sessionClosing)
  have hanswer : (Ledger.after script).answer? (.cancelAll .sessionClosing) =
      some (.number (Ledger.after script).entries.length,
        (Ledger.after script).entries.map fun entry => (entry, .sessionClosing)) :=
    congrArg some (if_pos howned)
  rw [Stage.swept, hkeeps.pending, Ledger.keep, if_neg nofun, Ledger.reasonsTo,
    if_pos (hm.known_entry hmem), Ledger.posts_of_answer? hanswer, filter_entries]

/-- A request that is registered when the sweep comes is cancelled by it. -/
theorem isCancelled_swept (howned : (Ledger.after script).owned = true)
    (hmem : request ∈ (Ledger.after script).entries) :
    ((Stage.swept script).step (.isCancelled request)).1 = .truth true := by
  have hm := Stage.Mirrors.after script
  have hlt : request < (Stage.after script).cancellations.length := by
    rw [(Stage.Keeps.after script request).length]
    exact hm.known_entry hmem
  have hlisted : request ∈
      ((Ledger.after script).entries.map (Ledger.after script).registration).map (·.2) := by
    rw [List.map_map]
    exact List.mem_map.mpr ⟨request, hmem, rfl⟩
  have hcs : (Stage.swept script).cancellations =
      (Stage.after script).shared.roster.cancelAll .sessionClosing
        (Stage.after script).cancellations := by
    show ((Stage.after script).asOwner _).2.cancellations = _
    rw [Stage.asOwner, if_pos (hm.owned.trans howned)]
  show Reply.truth ((Stage.swept script).cancellations.isRaised request) = _
  rw [hcs, hm.lists.cancelAll_eq, Cancellations.isRaised_postAll_of_mem _ hlisted hlt]

/-- What a handler learns when the session closes down on its request. -/
structure SweepHeard (script : List Step) (request : Nat) : Prop where
  /-- Asking until there is none yields what was kept and, as far as there are slots, the reason of
  the session for every registration of the request. -/
  asked : ∀ times, slots ≤ times → (Stage.swept script).ask request times =
    (kept script request ++ List.replicate ((Ledger.after script).entries.count request)
      Reason.sessionClosing).take slots
  /-- So the reason of the session is heard unless the client has taken every slot. -/
  heard_iff : ∀ times, slots ≤ times →
    (Reason.sessionClosing ∈ (Stage.swept script).ask request times ↔
      kept script request ≠ List.replicate slots .client)
  /-- It is heard if at most one reason was posted to the request since none was kept for it. -/
  spared : ∀ before between, script = before ++ between → kept before request = [] →
    ((Ledger.after before).reasonsToAll request between).length ≤ 1 →
    ∀ times, slots ≤ times → Reason.sessionClosing ∈ (Stage.swept script).ask request times
  /-- Heard or not, the request counts as cancelled. -/
  cancelled : ((Stage.swept script).step (.isCancelled request)).1 = .truth true

/-- **The session is heard unless the client has taken every slot.** Of a request that is registered
when the session closes down this holds whatever was posted and asked for before. -/
theorem sweepHeard_after (script : List Step) (request : Nat)
    (howned : (Ledger.after script).owned = true)
    (hmem : request ∈ (Ledger.after script).entries) : SweepHeard script request := by
  have hasked : ∀ times, slots ≤ times → (Stage.swept script).ask request times =
      (kept script request ++ List.replicate ((Ledger.after script).entries.count request)
        Reason.sessionClosing).take slots := by
    intro times htimes
    rw [Stage.ask_eq, pendingOf_swept howned hmem, List.take_take, Nat.min_eq_right htimes]
  have hheard : ∀ times, slots ≤ times →
      (Reason.sessionClosing ∈ (Stage.swept script).ask request times ↔
        kept script request ≠ List.replicate slots .client) := by
    intro times htimes
    rw [hasked times htimes]
    exact sessionClosing_mem_take_iff (Stage.Keeps.after script request).room
      (List.count_pos_iff.mpr hmem)
  refine ⟨hasked, hheard, ?_, isCancelled_swept howned hmem⟩
  rintro before between rfl hnone hfew times htimes
  rw [hheard times htimes]
  intro hfull
  have hlength := Ledger.length_keepAll_le (Ledger.after before) request (kept before request)
    between
  rw [hnone, List.length_nil, Nat.zero_add] at hlength
  have hkept : kept (before ++ between) request =
      (Ledger.after before).keepAll request (kept before request) between :=
    Ledger.keepAll_append ..
  rw [← hnone, ← hkept, hfull, List.length_replicate] at hlength
  exact absurd (Nat.le_trans hlength hfew) (by decide)

def registered (between : List Step) : List Step :=
  .request ⟨1, .unbindRequest, none⟩ 0 :: .register 0 :: between

theorem sweepHeard_after_one_abandon :
    (Ledger.after (registered [.sessionAbandon 0 1])).owned = true ∧
      0 ∈ (Ledger.after (registered [.sessionAbandon 0 1])).entries ∧
      SweepHeard (registered [.sessionAbandon 0 1]) 0 :=
  ⟨by decide, by decide,
    sweepHeard_after (registered [.sessionAbandon 0 1]) 0 (by decide) (by decide)⟩

/-- Two abandons of the client take both slots, and the handler is not told that the session closes
down, though the sweep has counted its request. -/
theorem unheard_after_two_abandons :
    0 ∈ (Ledger.after (registered [.sessionAbandon 0 1, .sessionAbandon 0 1])).entries ∧
      ((Stage.after (registered [.sessionAbandon 0 1, .sessionAbandon 0 1])).step
        (.cancelAll .sessionClosing)).1 = .number 1 ∧
      (Stage.swept (registered [.sessionAbandon 0 1, .sessionAbandon 0 1])).ask 0 3 =
        [.client, .client] := by decide

end Rehearsal.Roster

end Directory
