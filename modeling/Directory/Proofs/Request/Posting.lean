import Directory.Proofs.Entry
import Directory.Request.Cancellation
import Mathlib.Data.List.Nodup

/-!
# What posting does to the requests

A request that was posted to is cancelled for good (`isRaised`). Which reasons it keeps are the
first ones that found a slot (`pendingOf`): a post adds its reason at the end if there is room.
-/

namespace Directory

open Cancellation (slots)

def Cancellations.isRaised (cs : Cancellations) (request : Nat) : Bool :=
  cs[request]?.any (·.raised)

namespace Cancellations

variable {cs : Cancellations} {r q : Nat}

theorem isRaised_modify {f : Cancellation → Cancellation}
    (hf : ∀ c, c.raised = true → (f c).raised = true) (h : cs.isRaised r = true) :
    Cancellations.isRaised (cs.modify q f) r = true := any_modify hf q h

theorem isRaised_append (more : Cancellations) (h : cs.isRaised r = true) :
    Cancellations.isRaised (cs ++ more) r = true := by
  rw [isRaised, Option.any_eq_true] at h ⊢
  obtain ⟨c, hc, hraised⟩ := h
  obtain ⟨hlt, -⟩ := List.getElem?_eq_some_iff.mp hc
  exact ⟨c, (List.getElem?_append_left hlt).trans hc, hraised⟩

theorem isRaised_post (reason : Reason) (h : cs.isRaised r = true) :
    (cs.post q reason).isRaised r = true := isRaised_modify (fun c _ => c.raised_post reason) h

theorem isRaised_post_self (reason : Reason) (h : r < cs.length) :
    (cs.post r reason).isRaised r = true := by
  rw [isRaised, post, List.getElem?_modify, List.getElem?_eq_getElem h]
  simp [Cancellation.post]

theorem isRaised_postAll (requests : List Nat) (reason : Reason) (h : cs.isRaised r = true) :
    (cs.postAll requests reason).isRaised r = true := by
  induction requests generalizing cs with
  | nil => exact h
  | cons first rest ih => exact ih (isRaised_post reason h)

theorem isRaised_postAll_of_mem {requests : List Nat} (reason : Reason) (hmem : r ∈ requests)
    (h : r < cs.length) : (cs.postAll requests reason).isRaised r = true := by
  induction requests generalizing cs with
  | nil => cases hmem
  | cons first rest ih =>
      rcases List.mem_cons.mp hmem with rfl | hmem
      · exact isRaised_postAll rest reason (isRaised_post_self reason h)
      · exact ih hmem (by rw [length_post]; exact h)

theorem getElem?_postAll {requests : List Nat} (reason : Reason) (hnodup : requests.Nodup)
    (r : Nat) : (cs.postAll requests reason)[r]? =
      cs[r]?.map fun c => if r ∈ requests then c.post reason else c := by
  induction requests generalizing cs with
  | nil => simp [postAll]
  | cons first rest ih =>
      obtain ⟨hnew, hrest⟩ := List.nodup_cons.mp hnodup
      show ((cs.post first reason).postAll rest reason)[r]? = _
      rw [ih hrest, post, List.getElem?_modify]
      cases cs[r]? with
      | none => rfl
      | some c =>
          by_cases hr : first = r
          · subst hr
            simp [hnew]
          · simp [hr, Ne.symm hr]

end Cancellations

/-! ## The reasons that are kept -/

theorem take_take_append {α : Type} (n : Nat) (xs ys : List α) :
    (xs.take n ++ ys).take n = (xs ++ ys).take n := by
  have h : n - min n xs.length = n - xs.length := by omega
  rw [List.take_append, List.take_append, List.take_take, Nat.min_self, List.length_take, h]

theorem Cancellation.pending_post {c : Cancellation} (h : c.pending.length ≤ slots)
    (reason : Reason) : (c.post reason).pending = (c.pending ++ [reason]).take slots := by
  by_cases hroom : c.hasRoom = true
  · rw [pending_post_of_room _ hroom, List.take_of_length_le]
    rw [List.length_append]
    exact of_decide_eq_true hroom
  · have hfull : slots ≤ c.pending.length := by simpa [hasRoom] using hroom
    rw [pending_post_of_full _ (eq_false_of_ne_true hroom), List.take_append_of_le_length hfull,
      List.take_of_length_le h]

/-- The reasons that a handler has not asked for. -/
def Cancellations.pendingOf (cs : Cancellations) (request : Nat) : List Reason :=
  cs[request]?.elim [] (·.pending)

namespace Cancellations

variable {cs : Cancellations} {request other : Nat}

theorem pendingOf_of_le (h : cs.length ≤ request) : cs.pendingOf request = [] := by
  rw [pendingOf, List.getElem?_eq_none h]
  rfl

theorem pendingOf_modify {f : Cancellation → Cancellation} {g : List Reason → List Reason}
    (hf : ∀ c, (f c).pending = g c.pending) (hg : g [] = []) :
    Cancellations.pendingOf (cs.modify other f) request =
      if other = request then g (cs.pendingOf request) else cs.pendingOf request := by
  unfold pendingOf
  rw [List.getElem?_modify]
  by_cases h : other = request
  · cases cs[request]? <;> simp [h, hf, hg]
  · cases cs[request]? <;> simp [h]

theorem pendingOf_modify_of_eq {f : Cancellation → Cancellation}
    (hf : ∀ c, (f c).pending = c.pending) :
    Cancellations.pendingOf (cs.modify other f) request = cs.pendingOf request := by
  rw [pendingOf_modify (g := id) hf rfl]
  exact ite_self _

theorem pendingOf_fresh (cs : Cancellations) (request : Nat) :
    Cancellations.pendingOf (cs ++ [({} : Cancellation)]) request = cs.pendingOf request := by
  unfold pendingOf
  by_cases h : request < cs.length
  · rw [List.getElem?_append_left h]
  · rw [List.getElem?_append_right (Nat.le_of_not_lt h),
      List.getElem?_eq_none (Nat.le_of_not_lt h)]
    cases request - cs.length <;> rfl

theorem pendingOf_post (h : request < cs.length) (hroom : (cs.pendingOf request).length ≤ slots)
    (reason : Reason) : (cs.post other reason).pendingOf request =
      (cs.pendingOf request ++ if other = request then [reason] else []).take slots := by
  have hpending : cs.pendingOf request = cs[request].pending := by
    rw [pendingOf, List.getElem?_eq_getElem h]
    rfl
  rw [hpending] at hroom ⊢
  rw [pendingOf, post, List.getElem?_modify, List.getElem?_eq_getElem h]
  by_cases hother : other = request
  · simp only [hother, if_true, Option.map_eq_map, Option.map_some, Option.elim_some]
    exact Cancellation.pending_post hroom reason
  · simp only [hother, if_false, Option.map_eq_map, Option.map_some, Option.elim_some,
      List.append_nil]
    exact (List.take_of_length_le hroom).symm

end Cancellations

end Directory
