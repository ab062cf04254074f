import Directory.Request.Roster
import Mathlib.Data.List.Perm.Basic

/-!
# A roster is a list of registrations

A roster keeps a line of requests for every message identifier. What it holds is said by a plain
list: the registrations in the order in which they were made, each an identifier and a request. The
line of an identifier is what the list has under it (`Roster.Lists`). Registering adds an entry at
the end of the list, taking a request off strikes its entries out of the list, and everything that a
roster is asked can be answered from the list.
-/

namespace Directory

abbrev Registration := MessageId × Nat

def Registration.under (id : MessageId) (xs : List Registration) : List Nat :=
  (xs.filter (·.1 = id)).map (·.2)

namespace Roster

def find (id : MessageId) (lines : List (MessageId × List Nat)) : List Nat :=
  (lines.lookup id).getD []

/-- A roster holds the registrations of a list: there is one line for an identifier, no line is
empty, and the line of an identifier has what the list has under it. -/
structure Lists (r : Roster) (xs : List Registration) : Prop where
  keys : (r.lines.map (·.1)).Nodup
  full : ∀ entry ∈ r.lines, entry.2 ≠ []
  line_eq : ∀ id, r.line id = Registration.under id xs

variable {r : Roster} {xs : List Registration} {lines : List (MessageId × List Nat)}
  {id key : MessageId} {request : Nat}

theorem find_nil (key : MessageId) : find key [] = [] := rfl

theorem find_cons (key id : MessageId) (line : List Nat) (lines : List (MessageId × List Nat)) :
    find key ((id, line) :: lines) = if key = id then line else find key lines := by
  by_cases h : key = id
  · simp [find, h]
  · have hne : (key == id) = false := beq_eq_false_iff_ne.mpr h
    simp [find, List.lookup_cons, h, hne]

theorem find_of_not_mem (h : key ∉ lines.map (·.1)) : find key lines = [] := by
  induction lines with
  | nil => rfl
  | cons entry rest ih =>
      obtain ⟨id, line⟩ := entry
      rw [List.map_cons, List.mem_cons, not_or] at h
      rw [find_cons, if_neg h.1]
      exact ih h.2

theorem under_append (id : MessageId) (xs ys : List Registration) :
    Registration.under id (xs ++ ys) = Registration.under id xs ++ Registration.under id ys := by
  simp [Registration.under]

/-! ## Registering -/

theorem find_extend (key id : MessageId) (request : Nat) (lines : List (MessageId × List Nat)) :
    find key (extend id request lines) =
      find key lines ++ Registration.under key [(id, request)] := by
  induction lines with
  | nil =>
      rw [extend, find_cons, find_nil]
      by_cases h : key = id
      · simp [Registration.under, h]
      · simp [Registration.under, h, Ne.symm h]
  | cons entry rest ih =>
      obtain ⟨first, line⟩ := entry
      rw [extend]
      by_cases hfirst : first = id
      · rw [if_pos hfirst, find_cons, find_cons]
        by_cases h : key = first
        · simp [Registration.under, h, hfirst]
        · have hid : id ≠ key := by
            rw [← hfirst]
            exact Ne.symm h
          simp [Registration.under, h, hid]
      · rw [if_neg hfirst, find_cons, find_cons, ih]
        by_cases h : key = first
        · simp [Registration.under, h, Ne.symm hfirst]
        · simp [h]

theorem keys_extend (id : MessageId) (request : Nat) (lines : List (MessageId × List Nat)) :
    (extend id request lines).map (·.1) =
      if id ∈ lines.map (·.1) then lines.map (·.1) else lines.map (·.1) ++ [id] := by
  induction lines with
  | nil => rfl
  | cons entry rest ih =>
      obtain ⟨first, line⟩ := entry
      rw [extend]
      by_cases hfirst : first = id
      · rw [if_pos hfirst]
        simp [hfirst]
      · have hmem : id ∈ first :: rest.map (·.1) ↔ id ∈ rest.map (·.1) := by
          rw [List.mem_cons]
          exact or_iff_right (Ne.symm hfirst)
        rw [if_neg hfirst, List.map_cons, List.map_cons, ih]
        simp only [hmem]
        split <;> rfl

theorem full_extend (h : ∀ entry ∈ lines, entry.2 ≠ []) :
    ∀ entry ∈ extend id request lines, entry.2 ≠ [] := by
  induction lines with
  | nil =>
      intro entry hmem
      rw [extend, List.mem_singleton] at hmem
      rw [hmem]
      exact List.cons_ne_nil request []
  | cons first rest ih =>
      obtain ⟨key, line⟩ := first
      obtain ⟨hfirst, hrest⟩ := List.forall_mem_cons.mp h
      intro entry hmem
      rw [extend] at hmem
      split at hmem
      next =>
        rcases List.mem_cons.mp hmem with rfl | hmem
        · exact List.concat_ne_nil request line
        · exact hrest entry hmem
      next =>
        rcases List.mem_cons.mp hmem with rfl | hmem
        · exact hfirst
        · exact ih hrest entry hmem

/-- **Registering adds an entry at the end of the list.** -/
theorem Lists.register (h : r.Lists xs) (id : MessageId) (request : Nat) :
    (r.register id request).Lists (xs ++ [(id, request)]) where
  keys := by
    show ((extend id request r.lines).map (·.1)).Nodup
    rw [keys_extend]
    split
    next => exact h.keys
    next hnew =>
      rw [List.nodup_append]
      refine ⟨h.keys, List.pairwise_singleton _ id, ?_⟩
      rintro key hkey _ hid rfl
      rw [List.mem_singleton.mp hid] at hkey
      exact hnew hkey
  full := full_extend h.full
  line_eq := by
    intro key
    rw [under_append, ← h.line_eq key]
    exact find_extend key id request r.lines

/-! ## Taking a request off -/

theorem strike_self (line : List Nat) : strike id request (id, line) =
    if line.filter (· ≠ request) = [] then none else some (id, line.filter (· ≠ request)) := by
  rw [strike, if_pos rfl]
  cases line.filter (· ≠ request) <;> simp

theorem strike_other (h : key ≠ id) (line : List Nat) :
    strike id request (key, line) = some (key, line) := if_neg h

theorem key_of_strike {entry kept : MessageId × List Nat} (h : strike id request entry = some kept) :
    kept.1 = entry.1 ∧ (entry.2 ≠ [] → kept.2 ≠ []) := by
  obtain ⟨key, line⟩ := entry
  by_cases hkey : key = id
  · subst hkey
    rw [strike_self] at h
    split at h
    next => cases h
    next hleft =>
      cases h
      exact ⟨rfl, fun _ => hleft⟩
  · rw [strike_other hkey] at h
    cases h
    exact ⟨rfl, fun hfull => hfull⟩

theorem keys_filterMap_strike (id : MessageId) (request : Nat)
    (lines : List (MessageId × List Nat)) :
    ((lines.filterMap (strike id request)).map (·.1)).Sublist (lines.map (·.1)) := by
  induction lines with
  | nil => exact List.Sublist.slnil
  | cons entry rest ih =>
      rw [List.filterMap_cons]
      split
      next => exact ih.cons _
      next kept hkept =>
        rw [List.map_cons, List.map_cons, (key_of_strike hkept).1]
        exact ih.cons_cons _

theorem find_filterMap_strike (hkeys : (lines.map (·.1)).Nodup) (key : MessageId) :
    find key (lines.filterMap (strike id request)) =
      if key = id then (find key lines).filter (· ≠ request) else find key lines := by
  induction lines with
  | nil => simp [find_nil]
  | cons entry rest ih =>
      obtain ⟨first, line⟩ := entry
      rw [List.map_cons, List.nodup_cons] at hkeys
      obtain ⟨hnew, hrest⟩ := hkeys
      -- Behind the only line of an identifier there is no other one that could be found.
      have hgone : find first (rest.filterMap (strike id request)) = [] :=
        find_of_not_mem fun hmem => hnew ((keys_filterMap_strike id request rest).subset hmem)
      rw [List.filterMap_cons, find_cons]
      by_cases hfirst : first = id
      · subst hfirst
        rw [strike_self]
        by_cases hleft : line.filter (· ≠ request) = []
        · rw [if_pos hleft]
          by_cases hkey : key = first
          · subst hkey
            simp only [if_true]
            rw [hgone, hleft]
          · simp only [if_neg hkey]
            rw [ih hrest, if_neg hkey]
        · rw [if_neg hleft]
          by_cases hkey : key = first
          · simp [find_cons, hkey]
          · simp only [find_cons, if_neg hkey]
            rw [ih hrest, if_neg hkey]
      · rw [strike_other hfirst]
        simp only [find_cons]
        by_cases hkey : key = first
        · rw [if_pos hkey, if_pos hkey, if_neg (by rw [hkey]; exact hfirst)]
        · rw [if_neg hkey, if_neg hkey, ih hrest]

/-- **Taking a request off strikes out its entries** and no other ones, if all of them are under its
identifier. -/
theorem Lists.unregister (h : r.Lists xs) (hid : ∀ x ∈ xs, x.2 = request → x.1 = id) :
    (r.unregister id request).Lists (xs.filter (·.2 ≠ request)) where
  keys := h.keys.sublist (keys_filterMap_strike id request r.lines)
  full := by
    intro entry hmem
    obtain ⟨before, hbefore, hstrike⟩ := List.mem_filterMap.mp hmem
    exact (key_of_strike hstrike).2 (h.full before hbefore)
  line_eq := by
    intro key
    show find key (r.lines.filterMap (strike id request)) = _
    rw [find_filterMap_strike h.keys]
    have hline : find key r.lines = Registration.under key xs := h.line_eq key
    rw [hline, Registration.under, Registration.under, List.filter_filter]
    by_cases hkey : key = id
    · rw [if_pos hkey, List.filter_map, List.filter_filter]
      congr 1
      apply List.filter_congr
      intro x _
      exact Bool.and_comm _ _
    · rw [if_neg hkey]
      congr 1
      apply List.filter_congr
      intro x hx
      by_cases hrequest : x.2 = request
      · have hne : x.1 ≠ key := by
          rw [hid x hx hrequest]
          exact Ne.symm hkey
        simp [hne]
      · simp [hrequest]

/-! ## What a roster is asked -/

namespace Lists

/-- The lines together hold the requests of the list, each as often as it is there. -/
theorem members_perm (h : r.Lists xs) : r.members.Perm (xs.map (·.2)) := by
  obtain ⟨lines⟩ := r
  have hkeys : (lines.map (·.1)).Nodup := h.keys
  have hline : ∀ id, find id lines = Registration.under id xs := h.line_eq
  clear h
  show (lines.flatMap (·.2)).Perm _
  induction lines generalizing xs with
  | nil =>
      have hxs : xs = [] := by
        rw [List.eq_nil_iff_forall_not_mem]
        intro x hx
        have hunder : x.2 ∈ Registration.under x.1 xs :=
          List.mem_map.mpr ⟨x, List.mem_filter.mpr ⟨hx, decide_eq_true rfl⟩, rfl⟩
        rw [← hline x.1] at hunder
        cases hunder
      rw [hxs]
      exact List.Perm.refl _
  | cons entry rest ih =>
      obtain ⟨id, line⟩ := entry
      rw [List.map_cons, List.nodup_cons] at hkeys
      obtain ⟨hnew, hrest⟩ := hkeys
      have hfirst : line = (xs.filter (·.1 = id)).map (·.2) := by
        have hfind := hline id
        rwa [find_cons, if_pos rfl] at hfind
      -- The other lines list what is left without the identifier of this one.
      have hothers : ∀ key, find key rest =
          Registration.under key (xs.filter fun x => !decide (x.1 = id)) := by
        intro key
        rw [Registration.under, List.filter_filter]
        by_cases hkey : key = id
        · subst hkey
          rw [find_of_not_mem hnew]
          simp
        · have hfind := hline key
          rw [find_cons, if_neg hkey] at hfind
          rw [hfind, Registration.under]
          congr 1
          apply List.filter_congr
          intro x _
          by_cases hx : x.1 = key
          · simp [hx, hkey]
          · simp [hx]
      rw [List.flatMap_cons, hfirst]
      refine ((ih hrest hothers).append_left _).trans ?_
      rw [← List.map_append]
      exact (List.filter_append_perm (fun x : Registration => decide (x.1 = id)) xs).map _

theorem lines_eq_nil (h : r.Lists []) : r.lines = [] := by
  obtain ⟨_ | ⟨⟨id, line⟩, rest⟩⟩ := r
  · rfl
  · have hline : find id ((id, line) :: rest) = [] := h.line_eq id
    rw [find_cons, if_pos rfl] at hline
    exact absurd hline (h.full _ List.mem_cons_self)

theorem size_eq (h : r.Lists xs) : r.size = xs.length := by
  rw [size, h.members_perm.length_eq, List.length_map]

end Lists

end Roster

/-! ## Posting to several requests -/

namespace Cancellations

theorem post_comm (cs : Cancellations) (i j : Nat) (reason : Reason) :
    (cs.post i reason).post j reason = (cs.post j reason).post i reason := by
  apply List.ext_getElem?
  intro n
  simp only [post, List.getElem?_modify]
  cases cs[n]? <;> by_cases hi : i = n <;> by_cases hj : j = n <;> simp [hi, hj]

theorem postAll_perm {xs ys : List Nat} (h : xs.Perm ys) (cs : Cancellations) (reason : Reason) :
    cs.postAll xs reason = cs.postAll ys reason :=
  h.foldl_eq' (fun i _ j _ cs => post_comm cs i j reason) cs

end Cancellations

theorem Roster.Lists.cancelAll_eq {r : Roster} {xs : List Registration} (h : r.Lists xs)
    (reason : Reason) (cs : Cancellations) :
    r.cancelAll reason cs = cs.postAll (xs.map (·.2)) reason :=
  Cancellations.postAll_perm h.members_perm cs reason

end Directory
