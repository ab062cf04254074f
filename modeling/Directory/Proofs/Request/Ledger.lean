import Directory.Proofs.Entry
import Directory.Proofs.Request.Lines
import Directory.Rehearsal.Roster
import Mathlib.Data.List.ReduceOption

/-!
# A roster played against a plain list

The plain list is the `Ledger`: the requests registered, one entry for each registration that stands,
in the order in which they were made. Registering adds an entry at the end, letting a guard go strikes
out every entry of its request, and nothing else touches the list. `Ledger.answer?` says from the list
alone what a step is answered and which requests get a reason by it.

`Mirrors` is the invariant between a stage and its ledger; every step keeps it (`Mirrors.step`), so
that after any script the roster holds what the list says and answers as the list does
(`agrees_after`).
-/

namespace Directory.Rehearsal.Roster

open Directory.Roster

/-- The registrations of a roster as a plain list, with all that decides about them. -/
structure Ledger where
  ids : List MessageId := []
  /-- The request of every registration that stands, in the order of registration. -/
  entries : List Nat := []
  /-- The request of every registration that was ever made. -/
  made : List Nat := []
  /-- The request of every guard that is still held, by the number of the guard. -/
  guards : List (Option Nat) := []
  owned : Bool := true

namespace Ledger

/-- A registration is possible while there is an owner to make it, and for a request that exists. -/
def admits (l : Ledger) (request : Nat) : Bool := l.owned && decide (request < l.ids.length)

def letGo (l : Ledger) (guard : Nat) : Ledger :=
  match l.guards.getD guard none with
  | none => l
  | some request =>
      { l with
        entries := l.entries.filter (· ≠ request)
        guards := l.guards.set guard none }

def step (l : Ledger) : Step → Ledger
  | .request message _ => { l with ids := l.ids ++ [message.id] }
  | .register request =>
      if l.admits request then
        { l with
          entries := l.entries ++ [request]
          made := l.made ++ [request]
          guards := l.guards ++ [some request] }
      else l
  | .release guard => l.letGo guard
  | .unwind guard => l.letGo guard
  | .disown => { l with owned := false }
  | _ => l

def under (l : Ledger) (id : MessageId) : List Nat :=
  l.entries.filter fun request => l.ids[request]? = some id

def latest? (l : Ledger) (id : MessageId) : Option Nat := (l.under id).getLast?

def toOwner (l : Ledger) (reply : Reply) (posts : List (Nat × Reason)) :
    Reply × List (Nat × Reason) :=
  if l.owned then (reply, posts) else (.gone, [])

/-- What a step is answered, and whom it posts which reason to; `none` for a step that does not ask
the roster. -/
def answer? (l : Ledger) : Step → Option (Reply × List (Nat × Reason))
  | .register request =>
      some (if l.admits request then (.number l.guards.length, []) else (.gone, []))
  | .release guard => some (.truth (l.guards.getD guard none).isSome, [])
  | .unwind _ => some (.truth true, [])
  | .latest id => some (l.toOwner (.found (l.latest? id)) [])
  | .abandon id reason => some (l.toOwner (.truth (l.latest? id).isSome)
      ((l.latest? id).toList.map fun request => (request, reason)))
  | .cancelAll reason => some (l.toOwner (.number l.entries.length)
      (l.entries.map fun request => (request, reason)))
  | .isEmpty => some (l.toOwner (.truth l.entries.isEmpty) [])
  | .disown => some (.truth l.owned, [])
  | .sessionAbandon _ id => some (.truth (l.latest? id).isSome,
      (l.latest? id).toList.map fun request => (request, .client))
  | .abandonOther _ id => some (.truth (l.latest? id).isSome,
      (l.latest? id).toList.map fun request => (request, .client))
  | _ => none

def after (script : List Step) : Ledger := script.foldl step {}

def registration (l : Ledger) (request : Nat) : Registration := (l.ids.getD request 0, request)

end Ledger

def postEach (cs : Cancellations) (posts : List (Nat × Reason)) : Cancellations :=
  posts.foldl (fun cs post => cs.post post.1 post.2) cs

def Stage.after (script : List Step) : Stage := script.foldl (fun s a => (s.step a).2) {}

/-- A roster holds what a plain list says, and answers as the list does. -/
structure Stage.Agrees (s : Stage) (l : Ledger) : Prop where
  /-- The line of an identifier has the entries under it, in their order. -/
  line : ∀ id, s.shared.roster.line id = l.under id
  /-- No identifier has two lines. -/
  keys : (s.shared.roster.lines.map (·.1)).Nodup
  /-- No identifier has an empty line. -/
  full : ∀ entry ∈ s.shared.roster.lines, entry.2 ≠ []
  size : s.shared.roster.size = l.entries.length
  /-- Whatever comes next is answered from the list, and posts once to everybody that it is to reach. -/
  answers : ∀ {a reply posts}, l.answer? a = some (reply, posts) →
    (s.step a).1 = reply ∧ (s.step a).2.cancellations = postEach s.cancellations posts
  /-- A session sees as many requests in flight as there are entries. -/
  inFlight : s.shared.inFlight = l.entries.length
  /-- While the roster lasts a session abandons as its owner would do for the client. -/
  lasting : s.shared.alive = true → ∀ id cs,
    s.shared.abandon id cs = s.shared.roster.abandon id .client cs
  /-- It lasts as long as the owner or a guard holds it. -/
  alive_iff : s.shared.alive = true ↔ l.owned = true ∨ ∃ request, some request ∈ l.guards
  /-- Afterwards there is nothing left, neither to be seen nor to be abandoned. -/
  ended : s.shared.alive = false → s.shared.inFlight = 0 ∧ ∀ id cs, s.shared.abandon id cs = none
  /-- If no request is registered twice, there is one entry for every guard that is held. -/
  held : l.made.Nodup → s.shared.roster.size = s.shared.guards.countP Option.isSome

/-! ## Guards -/

theorem getElem?_of_getD {guards : List (Option Nat)} {guard request : Nat}
    (h : guards.getD guard none = some request) : guards[guard]? = some (some request) := by
  rw [List.getD_eq_getElem?_getD] at h
  cases hget : guards[guard]? with
  | none => simp [hget] at h
  | some found =>
      rw [hget, Option.getD_some] at h
      rw [h]

/-- Where no two guards keep the same request, letting one go takes its request and no other one off
those that are kept. -/
theorem reduceOption_set {guards : List (Option Nat)} {guard request : Nat}
    (hguard : guards.getD guard none = some request) (hnodup : guards.reduceOption.Nodup) :
    (guards.set guard none).reduceOption = guards.reduceOption.filter (· ≠ request) := by
  induction guards generalizing guard with
  | nil => cases hguard
  | cons first rest ih =>
      cases guard with
      | zero =>
          obtain rfl : first = some request := hguard
          rw [List.reduceOption_cons_of_some, List.nodup_cons] at hnodup
          have hrest : ∀ other ∈ rest.reduceOption, decide (other ≠ request) = true := by
            intro other hother
            refine decide_eq_true ?_
            rintro rfl
            exact hnodup.1 hother
          rw [List.set_cons_zero, List.reduceOption_cons_of_none, List.reduceOption_cons_of_some,
            List.filter_cons_of_neg (by simp), List.filter_eq_self.mpr hrest]
      | succ guard =>
          have hrest : rest.getD guard none = some request := hguard
          cases first with
          | none =>
              rw [List.reduceOption_cons_of_none] at hnodup
              rw [List.set_cons_succ, List.reduceOption_cons_of_none, List.reduceOption_cons_of_none]
              exact ih hrest hnodup
          | some other =>
              rw [List.reduceOption_cons_of_some, List.nodup_cons] at hnodup
              have hmem : request ∈ rest.reduceOption :=
                List.reduceOption_mem_iff.mpr (List.mem_of_getElem? (getElem?_of_getD hrest))
              have hne : decide (other ≠ request) = true := by
                refine decide_eq_true ?_
                rintro rfl
                exact hnodup.1 hmem
              rw [List.set_cons_succ, List.reduceOption_cons_of_some,
                List.reduceOption_cons_of_some, List.filter_cons, if_pos hne, ih hrest hnodup.2]

theorem reduceOption_set_sublist (guards : List (Option Nat)) (guard : Nat) :
    (guards.set guard none).reduceOption.Sublist guards.reduceOption := by
  induction guards generalizing guard with
  | nil => exact List.Sublist.slnil
  | cons first rest ih =>
      cases guard with
      | zero =>
          rw [List.set_cons_zero, List.reduceOption_cons_of_none]
          cases first with
          | none => exact List.Sublist.refl _
          | some request => exact List.sublist_cons_self request _
      | succ guard =>
          rw [List.set_cons_succ]
          cases first with
          | none => exact ih guard
          | some request => exact (ih guard).cons_cons request

/-! ## The invariant -/

/-- What joins a stage and its ledger after every step. -/
structure Stage.Mirrors (s : Stage) (l : Ledger) : Prop where
  ids : s.requests.map (·.1.message.id) = l.ids
  owned : s.shared.owned = l.owned
  guards : s.shared.guards = l.guards.map (·.map l.registration)
  lists : s.shared.roster.Lists (l.entries.map l.registration)
  known : ∀ request, some request ∈ l.guards → request < l.ids.length
  /-- Every entry has a guard that is still held. -/
  guarded : ∀ request ∈ l.entries, some request ∈ l.guards
  kept : l.guards.reduceOption.Sublist l.made
  held : l.made.Nodup → l.entries = l.guards.reduceOption

variable {s s' : Stage} {l : Ledger}

namespace Stage.Mirrors

theorem frame (h : s.Mirrors l) (hshared : s'.shared = s.shared)
    (hids : s'.requests.map (·.1.message.id) = s.requests.map (·.1.message.id)) : s'.Mirrors l where
  ids := hids.trans h.ids
  owned := by rw [hshared, h.owned]
  guards := by rw [hshared, h.guards]
  lists := by
    rw [hshared]
    exact h.lists
  known := h.known
  guarded := h.guarded
  kept := h.kept
  held := h.held

theorem asOwner (h : s.Mirrors l) {act : Reply × Stage} (hact : s.shared.owned = true →
    act.2.shared = s.shared ∧ act.2.requests = s.requests) : (s.asOwner act).2.Mirrors l := by
  unfold Stage.asOwner
  split
  next howned =>
    obtain ⟨hshared, hrequests⟩ := hact howned
    exact h.frame hshared (by rw [hrequests])
  next => exact h

theorem registration_append (request : Nat) (id : MessageId) (h : request < l.ids.length) :
    ({ l with ids := l.ids ++ [id] } : Ledger).registration request = l.registration request := by
  simp only [Ledger.registration, List.getD_eq_getElem?_getD, List.getElem?_append_left h]

theorem known_entry (h : s.Mirrors l) {request : Nat} (hmem : request ∈ l.entries) :
    request < l.ids.length := h.known request (h.guarded request hmem)

theorem addRequest (h : s.Mirrors l) (message : Message) (session : Nat) :
    (s.step (.request message session)).2.Mirrors (l.step (.request message session)) where
  ids := by
    show (s.requests ++ [(Request.ofMessage message, session)]).map (fun x => x.1.message.id) =
      l.ids ++ [message.id]
    rw [List.map_append, h.ids]
    rfl
  owned := h.owned
  guards := by
    show s.shared.guards = _
    rw [h.guards]
    apply List.map_congr_left
    intro guard hguard
    cases guard with
    | none => rfl
    | some request => exact congrArg some (registration_append _ _ (h.known request hguard)).symm
  lists := by
    show s.shared.roster.Lists (l.entries.map _)
    -- The entries have their identifiers already, and a further one is put behind those.
    have heq : l.entries.map l.registration =
        l.entries.map ({ l with ids := l.ids ++ [message.id] } : Ledger).registration :=
      List.map_congr_left fun request hmem =>
        (registration_append request message.id (h.known_entry hmem)).symm
    rw [show (l.step (.request message session)).registration =
      ({ l with ids := l.ids ++ [message.id] } : Ledger).registration from rfl, ← heq]
    exact h.lists
  known := by
    intro request hmem
    have hlt := h.known request hmem
    show request < (l.ids ++ [message.id]).length
    rw [List.length_append]
    omega
  guarded := h.guarded
  kept := h.kept
  held := h.held

theorem register (h : s.Mirrors l) {request : Nat} {r : Request} {session : Nat}
    (hr : s.requests[request]? = some (r, session)) :
    { s with shared := s.shared.register r.message.id request }.Mirrors
      { l with
        entries := l.entries ++ [request]
        made := l.made ++ [request]
        guards := l.guards ++ [some request] } := by
  have hid : l.ids[request]? = some r.message.id := by
    rw [← h.ids, List.getElem?_map, hr]
    rfl
  have hregistration : l.registration request = (r.message.id, request) := by
    rw [Ledger.registration, List.getD_eq_getElem?_getD, hid]
    rfl
  refine ⟨h.ids, h.owned, ?_, ?_, ?_, ?_, ?_, ?_⟩
  · show s.shared.guards ++ [some (r.message.id, request)] = (l.guards ++ [some request]).map _
    rw [List.map_append, h.guards]
    congr 1
    rw [List.map_singleton, Option.map_some]
    exact congrArg (fun x => [some x]) hregistration.symm
  · show (s.shared.roster.register r.message.id request).Lists ((l.entries ++ [request]).map _)
    rw [List.map_append, List.map_singleton]
    have hlists := h.lists.register r.message.id request
    rw [← hregistration] at hlists
    exact hlists
  · intro other hmem
    rcases List.mem_append.mp hmem with hold | hnew
    · exact h.known other hold
    · cases List.mem_singleton.mp hnew
      obtain ⟨hlt, -⟩ := List.getElem?_eq_some_iff.mp hid
      exact hlt
  · intro other hmem
    rcases List.mem_append.mp hmem with hold | hnew
    · exact List.mem_append_left _ (h.guarded other hold)
    · rw [List.mem_singleton.mp hnew]
      exact List.mem_append_right _ (List.mem_singleton_self _)
  · show ((l.guards ++ [some request]).reduceOption).Sublist (l.made ++ [request])
    rw [List.reduceOption_append]
    exact h.kept.append (List.Sublist.refl [request])
  · intro hnodup
    show l.entries ++ [request] = (l.guards ++ [some request]).reduceOption
    rw [List.reduceOption_append, ← h.held (hnodup.sublist (List.sublist_append_left ..))]
    rfl

theorem guarded?_eq (h : s.Mirrors l) (guard : Nat) :
    s.shared.guarded? guard = (l.guards.getD guard none).map l.registration := by
  rw [SharedRoster.guarded?, h.guards, List.getD_eq_getElem?_getD, List.getD_eq_getElem?_getD,
    List.getElem?_map]
  cases l.guards[guard]? <;> rfl

theorem letGo (h : s.Mirrors l) (guard : Nat) :
    { s with shared := s.shared.release guard }.Mirrors (l.letGo guard) := by
  have hguarded := h.guarded?_eq guard
  unfold SharedRoster.release Ledger.letGo
  cases hguard : l.guards.getD guard none with
  | none =>
      rw [hguard] at hguarded
      rw [hguarded]
      exact h
  | some request =>
      rw [hguard] at hguarded
      rw [hguarded]
      refine ⟨h.ids, h.owned, ?_, ?_, ?_, ?_, ?_, ?_⟩
      · show s.shared.guards.set guard none = (l.guards.set guard none).map _
        rw [List.map_set, h.guards]
        rfl
      · -- A request has one identifier, so all its entries are in the line of that one.
        have hsame : ∀ x ∈ l.entries.map l.registration, x.2 = request →
            x.1 = (l.registration request).1 := by
          intro x hx hrequest
          obtain ⟨other, -, rfl⟩ := List.mem_map.mp hx
          rw [← hrequest]
          rfl
        have hlists := h.lists.unregister hsame
        rw [List.filter_map] at hlists
        exact hlists
      · intro other hmem
        rcases List.mem_or_eq_of_mem_set hmem with hold | hnone
        · exact h.known other hold
        · cases hnone
      · intro other hmem
        obtain ⟨hmem, hne⟩ := List.mem_filter.mp hmem
        have hdiff : some other ≠ some request := by simpa using hne
        exact mem_set_of_ne (getElem?_of_getD hguard) (h.guarded other hmem) hdiff none
      · exact (reduceOption_set_sublist l.guards guard).trans h.kept
      · -- With every request registered once, the guard let go was the only one of its request.
        intro hnodup
        show l.entries.filter (· ≠ request) = (l.guards.set guard none).reduceOption
        rw [reduceOption_set hguard (hnodup.sublist h.kept), ← h.held hnodup]

theorem disown (h : s.Mirrors l) :
    { s with shared := s.shared.disown }.Mirrors { l with owned := false } :=
  { h with owned := rfl }

theorem admits_iff (h : s.Mirrors l) (request : Nat) :
    l.admits request = true ↔ s.shared.owned = true ∧ ∃ r, s.requests[request]? = some r := by
  rw [Ledger.admits, Bool.and_eq_true, decide_eq_true_eq, h.owned, ← h.ids, List.length_map]
  constructor
  · rintro ⟨howned, hlt⟩
    exact ⟨howned, s.requests[request], List.getElem?_eq_getElem hlt⟩
  · rintro ⟨howned, r, hr⟩
    obtain ⟨hlt, -⟩ := List.getElem?_eq_some_iff.mp hr
    exact ⟨howned, hlt⟩

theorem stepRegister (h : s.Mirrors l) (request : Nat) :
    (s.step (.register request)).2.Mirrors (l.step (.register request)) ∧
      l.answer? (.register request) = some ((s.step (.register request)).1, []) := by
  by_cases hadmits : l.admits request = true
  · obtain ⟨howned, ⟨r, session⟩, hr⟩ := (h.admits_iff request).mp hadmits
    have hs : s.step (.register request) = (.number s.shared.guards.length,
        { s with shared := s.shared.register r.message.id request }) := by
      show s.asOwner _ = _
      rw [Stage.asOwner, if_pos howned, hr]
    have hl : l.step (.register request) = { l with
        entries := l.entries ++ [request]
        made := l.made ++ [request]
        guards := l.guards ++ [some request] } := if_pos hadmits
    have hanswer : l.answer? (.register request) = some (.number l.guards.length, []) :=
      congrArg some (if_pos hadmits)
    rw [hs, hl, hanswer, h.guards, List.length_map]
    exact ⟨h.register hr, rfl⟩
  · have hs : s.step (.register request) = (.gone, s) := by
      show s.asOwner _ = _
      rw [Stage.asOwner]
      split
      next howned =>
        cases hr : s.requests[request]? with
        | none => rfl
        | some found => exact absurd ((h.admits_iff request).mpr ⟨howned, found, hr⟩) hadmits
      next => rfl
    have hl : l.step (.register request) = l := if_neg hadmits
    have hanswer : l.answer? (.register request) = some (.gone, []) :=
      congrArg some (if_neg hadmits)
    rw [hs, hl, hanswer]
    exact ⟨h, rfl⟩

theorem abandonBySession (h : s.Mirrors l) (id : MessageId) :
    (s.abandonBySession id).2.Mirrors l := by
  unfold Stage.abandonBySession
  split
  next => exact h
  next => exact h.frame rfl rfl

/-- **Every step keeps the invariant.** -/
theorem step (h : s.Mirrors l) (a : Step) : (s.step a).2.Mirrors (l.step a) := by
  cases a with
  | request message session => exact h.addRequest message session
  | register request => exact (h.stepRegister request).1
  | release guard => exact h.letGo guard
  | unwind guard => exact h.letGo guard
  | disown => exact h.disown
  | openSession info => exact h.asOwner fun _ => ⟨rfl, rfl⟩
  | latest id => exact h.asOwner fun _ => ⟨rfl, rfl⟩
  | cancelAll reason => exact h.asOwner fun _ => ⟨rfl, rfl⟩
  | isEmpty => exact h.asOwner fun _ => ⟨rfl, rfl⟩
  | abandon id reason =>
      refine h.asOwner fun _ => ?_
      split <;> exact ⟨rfl, rfl⟩
  | sessionAbandon session id => exact h.abandonBySession id
  | abandonOther request id => exact h.abandonBySession id
  | acceptStartTls request =>
      refine h.frame rfl (map_modify_of_eq (fun x => ?_) ..)
      rfl
  | cloneSession session => simp only [Stage.step]; split <;> exact h.frame rfl rfl
  | sessionInfo session => simp only [Stage.step]; split <;> exact h.frame rfl rfl
  | requestInfo request => simp only [Stage.step]; split <;> exact h.frame rfl rfl
  | guarded guard => simp only [Stage.step]; split <;> exact h.frame rfl rfl
  | cancelToken token => simp only [Stage.step]; split <;> exact h.frame rfl rfl
  | markTls session => exact h.frame rfl rfl
  | setAcl session acl => exact h.frame rfl rfl
  | post request reason => exact h.frame rfl rfl
  | pop request => exact h.frame rfl rfl
  | isCancelled request => exact h.frame rfl rfl
  | handOut request => exact h.frame rfl rfl

theorem start : ({} : Stage).Mirrors {} where
  ids := rfl
  owned := rfl
  guards := rfl
  lists := ⟨List.Pairwise.nil, nofun, fun _ => rfl⟩
  known := nofun
  guarded := nofun
  kept := List.Sublist.slnil
  held := fun _ => rfl

theorem after (script : List Step) : (Stage.after script).Mirrors (Ledger.after script) := by
  suffices hfold : ∀ {s : Stage} {l : Ledger}, s.Mirrors l →
      (script.foldl (fun s a => (s.step a).2) s).Mirrors (script.foldl Ledger.step l) from
    hfold start
  intro s l h
  induction script generalizing s l with
  | nil => exact h
  | cons a rest ih => exact ih (h.step a)

/-! ## What is answered -/

theorem line_eq (h : s.Mirrors l) (id : MessageId) : s.shared.roster.line id = l.under id := by
  rw [h.lists.line_eq, Registration.under, List.filter_map, List.map_map, Ledger.under]
  have hsnd : (fun x : Registration => x.2) ∘ l.registration = fun request => request := rfl
  rw [hsnd, List.map_id']
  apply List.filter_congr
  intro request hmem
  have hlt := h.known_entry hmem
  simp only [Function.comp_apply, Ledger.registration, List.getD_eq_getElem?_getD,
    List.getElem?_eq_getElem hlt, Option.getD_some, Option.some.injEq]

theorem latest?_eq (h : s.Mirrors l) (id : MessageId) :
    s.shared.roster.latest? id = l.latest? id := by
  rw [Roster.latest?, h.line_eq, Ledger.latest?]

theorem size_eq (h : s.Mirrors l) : s.shared.roster.size = l.entries.length := by
  rw [h.lists.size_eq, List.length_map]

theorem cancelAll_eq (h : s.Mirrors l) (reason : Reason) :
    s.shared.roster.cancelAll reason s.cancellations =
      postEach s.cancellations (l.entries.map fun request => (request, reason)) := by
  rw [h.lists.cancelAll_eq, List.map_map, postEach, List.foldl_map, Cancellations.postAll,
    List.foldl_map]
  rfl

theorem abandon_eq (h : s.Mirrors l) (id : MessageId) (reason : Reason) (cs : Cancellations) :
    s.shared.roster.abandon id reason cs =
      (l.latest? id).map fun request => cs.post request reason := by
  rw [Roster.abandon, h.latest?_eq]

theorem alive_iff (h : s.Mirrors l) :
    s.shared.alive = true ↔ l.owned = true ∨ ∃ request, some request ∈ l.guards := by
  rw [SharedRoster.alive, Bool.or_eq_true, h.owned, h.guards, List.any_eq_true]
  constructor
  · rintro (howned | ⟨guard, hmem, hsome⟩)
    · exact Or.inl howned
    · obtain ⟨held, hheld, rfl⟩ := List.mem_map.mp hmem
      cases held with
      | none => cases hsome
      | some request => exact Or.inr ⟨request, hheld⟩
  · rintro (howned | ⟨request, hmem⟩)
    · exact Or.inl howned
    · exact Or.inr ⟨_, List.mem_map.mpr ⟨_, hmem, rfl⟩, rfl⟩

/-- Once nobody holds the roster, nothing is left on it. -/
theorem entries_of_not_alive (h : s.Mirrors l) (halive : s.shared.alive = false) :
    l.entries = [] := by
  rw [List.eq_nil_iff_forall_not_mem]
  intro request hmem
  have hlasts := h.alive_iff.mpr (Or.inr ⟨request, h.guarded request hmem⟩)
  rw [halive] at hlasts
  cases hlasts

theorem inFlight_eq (h : s.Mirrors l) : s.shared.inFlight = l.entries.length := by
  rw [SharedRoster.inFlight]
  split
  next => exact h.size_eq
  next halive => rw [h.entries_of_not_alive (eq_false_of_ne_true halive), List.length_nil]

/-- For a session it makes no difference that the roster is gone: there is nothing under any
identifier. -/
theorem sharedAbandon_eq (h : s.Mirrors l) (id : MessageId) (cs : Cancellations) :
    s.shared.abandon id cs = (l.latest? id).map fun request => cs.post request .client := by
  rw [SharedRoster.abandon]
  split
  next => exact h.abandon_eq id .client cs
  next halive =>
    have hnone : l.latest? id = none := by
      rw [Ledger.latest?, Ledger.under, h.entries_of_not_alive (eq_false_of_ne_true halive)]
      rfl
    rw [hnone]
    rfl

theorem answers_abandonBySession (h : s.Mirrors l) (id : MessageId) :
    (s.abandonBySession id).1 = .truth (l.latest? id).isSome ∧
      (s.abandonBySession id).2.cancellations =
        postEach s.cancellations ((l.latest? id).toList.map fun request => (request, .client)) := by
  unfold Stage.abandonBySession
  rw [h.sharedAbandon_eq]
  cases l.latest? id <;> exact ⟨rfl, rfl⟩

theorem answers_asOwner (h : s.Mirrors l) {act : Reply × Stage} {reply answer : Reply}
    {posts given : List (Nat × Reason)} (hl : some (l.toOwner reply posts) = some (answer, given))
    (hreply : act.1 = reply) (hposts : act.2.cancellations = postEach s.cancellations posts) :
    (s.asOwner act).1 = answer ∧ (s.asOwner act).2.cancellations = postEach s.cancellations given := by
  unfold Ledger.toOwner at hl
  unfold Stage.asOwner
  rw [h.owned]
  split at hl
  next howned =>
    cases hl
    rw [if_pos howned]
    exact ⟨hreply, hposts⟩
  next howned =>
    cases hl
    rw [if_neg howned]
    exact ⟨rfl, rfl⟩

theorem answers (h : s.Mirrors l) {a : Step} {reply : Reply} {posts : List (Nat × Reason)}
    (hl : l.answer? a = some (reply, posts)) :
    (s.step a).1 = reply ∧ (s.step a).2.cancellations = postEach s.cancellations posts := by
  cases a with
  | register request =>
      obtain ⟨-, hanswer⟩ := h.stepRegister request
      rw [hanswer] at hl
      cases hl
      refine ⟨rfl, ?_⟩
      simp only [Stage.step, Stage.asOwner]
      split
      · split <;> rfl
      · rfl
  | release guard =>
      cases hl
      refine ⟨?_, rfl⟩
      show Reply.truth (s.shared.guarded? guard).isSome = _
      rw [h.guarded?_eq, Option.isSome_map]
  | unwind guard =>
      cases hl
      exact ⟨rfl, rfl⟩
  | latest id =>
      refine h.answers_asOwner hl ?_ rfl
      rw [h.latest?_eq]
  | abandon id reason =>
      refine h.answers_asOwner hl ?_ ?_
      · rw [h.abandon_eq]
        cases l.latest? id <;> rfl
      · rw [h.abandon_eq]
        cases l.latest? id <;> rfl
  | cancelAll reason =>
      refine h.answers_asOwner hl ?_ (h.cancelAll_eq reason)
      rw [h.size_eq]
  | isEmpty =>
      refine h.answers_asOwner hl ?_ rfl
      rw [h.size_eq]
      cases l.entries <;> rfl
  | disown =>
      cases hl
      refine ⟨?_, rfl⟩
      show Reply.truth s.shared.owned = _
      rw [h.owned]
  | sessionAbandon session id =>
      cases hl
      exact h.answers_abandonBySession id
  | abandonOther request id =>
      cases hl
      exact h.answers_abandonBySession id
  | _ => cases hl

end Stage.Mirrors

/-- **A roster is a plain list of registrations.** After every script, however identifiers repeat,
whichever guards go first and in whatever way, and whether the owner is still there or not, the roster
holds the entries of the list and every step is answered from the list. -/
theorem agrees_after (script : List Step) : (Stage.after script).Agrees (Ledger.after script) := by
  have h := Stage.Mirrors.after script
  refine ⟨h.line_eq, h.lists.keys, h.lists.full, h.size_eq, h.answers, h.inFlight_eq, ?_,
    h.alive_iff, ?_, ?_⟩
  · intro halive id cs
    exact if_pos halive
  · intro halive
    constructor
    · rw [h.inFlight_eq, h.entries_of_not_alive halive, List.length_nil]
    · intro id cs
      rw [SharedRoster.abandon, if_neg (by rw [halive]; exact Bool.false_ne_true)]
  · intro hnodup
    have hsome : ∀ guard : Option Nat, (guard.map (Ledger.after script).registration).isSome =
        guard.isSome := fun guard => Option.isSome_map
    rw [h.size_eq, h.held hnodup, List.reduceOption_length_eq, ← List.countP_eq_length_filter,
      h.guards, List.countP_map]
    apply List.countP_congr
    intro guard _
    simp [hsome]

end Directory.Rehearsal.Roster
