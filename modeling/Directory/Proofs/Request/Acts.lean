import Directory.Request.Cancellation
import Mathlib.Data.List.Induction

/-!
# The history of one request

What is done to the cancellation of one request are posts, a handler asking for a reason, tokens that
are handed out, and tokens that are cancelled by themselves (`Cancellation.Act`). How a request stands
after any number of these can be read off the acts alone: the reasons that its handler got and those
that are pending are the ones that found a slot, in their order (`popped_append_pending`); it counts as
cancelled just if anything was posted at all (`raised_iff`), and a token does so just if the request
does or the token was cancelled by itself (`tokenCancelled_iff`).
-/

namespace Directory.Cancellation

inductive Act where
  | post (reason : Reason)
  | pop
  | handOut
  | cancelToken (token : Nat)
  deriving DecidableEq, Repr

def undergo (c : Cancellation) : Act → Cancellation
  | .post reason => c.post reason
  | .pop => c.pop
  | .handOut => c.handOut
  | .cancelToken token => c.cancelToken token

/-- The cancellation of a request to which these acts were done and no other. -/
def after (acts : List Act) : Cancellation := acts.foldl undergo {}

/-! ## What is read off the acts -/

/-- A post is turned down while both slots are taken. -/
def accepts (c : Cancellation) : Act → List Reason
  | .post reason => if c.pending.length < slots then [reason] else []
  | _ => []

def yields (c : Cancellation) : Act → List Reason
  | .pop => c.pending.head?.toList
  | _ => []

def gather (f : Cancellation → Act → List Reason) (c : Cancellation) : List Act → List Reason
  | [] => []
  | a :: rest => f c a ++ gather f (c.undergo a) rest

def accepted (acts : List Act) : List Reason := gather accepts {} acts

def popped (acts : List Act) : List Reason := gather yields {} acts

def Posted (acts : List Act) : Prop := ∃ reason, .post reason ∈ acts

/-- A token was cancelled by itself after it had been handed out. -/
def Revoked (acts : List Act) (token : Nat) : Prop :=
  ∃ front back, acts = front ++ .cancelToken token :: back ∧ token < front.count .handOut

variable {c : Cancellation} {acts : List Act} {a : Act} {token : Nat}

theorem gather_concat (f : Cancellation → Act → List Reason) :
    gather f c (acts ++ [a]) = gather f c acts ++ f (acts.foldl undergo c) a := by
  induction acts generalizing c with
  | nil => exact List.append_nil _
  | cons first rest ih =>
      rw [List.cons_append, gather, ih, ← List.append_assoc]
      rfl

theorem accepted_concat : accepted (acts ++ [a]) = accepted acts ++ (after acts).accepts a :=
  gather_concat accepts

theorem popped_concat : popped (acts ++ [a]) = popped acts ++ (after acts).yields a :=
  gather_concat yields

/-- Something that is found in a list with one more at its end was there before or is the last. -/
theorem exists_split_concat {α : Type} {xs : List α} {x y : α} {P : List α → Prop} :
    (∃ front back, xs ++ [x] = front ++ y :: back ∧ P front) ↔
      (∃ front back, xs = front ++ y :: back ∧ P front) ∨ x = y ∧ P xs := by
  constructor
  · rintro ⟨front, back, heq, hfront⟩
    rcases List.eq_nil_or_concat back with rfl | ⟨back, last, rfl⟩
    · obtain ⟨rfl, hx⟩ := List.append_inj' heq rfl
      exact .inr ⟨(List.cons.inj hx).1, hfront⟩
    · rw [List.concat_eq_append, ← List.cons_append, ← List.append_assoc] at heq
      obtain ⟨rfl, -⟩ := List.append_inj' heq rfl
      exact .inl ⟨front, back, rfl, hfront⟩
  · rintro (⟨front, back, rfl, hfront⟩ | ⟨rfl, hxs⟩)
    · exact ⟨front, back ++ [x], by simp, hfront⟩
    · exact ⟨xs, [], rfl, hxs⟩

theorem after_append (acts more : List Act) :
    after (acts ++ more) = more.foldl undergo (after acts) := List.foldl_append

theorem after_concat : after (acts ++ [a]) = (after acts).undergo a := after_append ..

/-! ## Reasons -/

/-- One act moves a reason to the handler, or puts one behind those that are pending. -/
theorem yields_append_pending (c : Cancellation) (a : Act) :
    c.yields a ++ (c.undergo a).pending = c.pending ++ c.accepts a := by
  cases a with
  | post reason =>
      by_cases hroom : c.pending.length < slots <;>
        simp [yields, accepts, undergo, post, hasRoom, hroom]
  | pop => cases hp : c.pending <;> simp [yields, accepts, undergo, pop, hp]
  | handOut | cancelToken => exact (List.append_nil _).symm

/-- **No reason is lost that was kept, and none is heard twice.** -/
theorem popped_append_pending (acts : List Act) :
    popped acts ++ (after acts).pending = accepted acts := by
  induction acts using List.reverseRecOn with
  | nil => rfl
  | append_singleton acts a ih =>
      rw [popped_concat, accepted_concat, after_concat, List.append_assoc, yields_append_pending,
        ← List.append_assoc, ih]

theorem length_pending_le (acts : List Act) : (after acts).pending.length ≤ slots := by
  induction acts using List.reverseRecOn with
  | nil => exact Nat.zero_le _
  | append_singleton acts a ih =>
      rw [after_concat]
      cases a with
      | post reason => exact pending_post_le _ reason ih
      | pop => exact Nat.le_trans (List.length_tail ▸ Nat.sub_le ..) ih
      | handOut => exact ih
      | cancelToken token => exact ih

/-! ## The request and its tokens -/

theorem posted_concat : Posted (acts ++ [a]) ↔ Posted acts ∨ ∃ reason, a = .post reason := by
  simp only [Posted, List.mem_append, List.mem_singleton, exists_or, eq_comm (a := a)]

/-- A request counts as cancelled as soon as anything was posted, and for ever. -/
theorem raised_iff : (after acts).raised = true ↔ Posted acts := by
  induction acts using List.reverseRecOn with
  | nil => exact iff_of_false Bool.false_ne_true fun ⟨_, hmem⟩ => nomatch hmem
  | append_singleton acts a ih =>
      rw [after_concat, posted_concat, ← ih]
      cases a with
      | post reason => exact iff_of_true rfl (.inr ⟨reason, rfl⟩)
      | pop | handOut | cancelToken => simp [undergo, pop, handOut, cancelToken]

instance : Decidable (Posted acts) := decidable_of_iff _ raised_iff

theorem length_tokens : (after acts).tokens.length = acts.count .handOut := by
  induction acts using List.reverseRecOn with
  | nil => rfl
  | append_singleton acts a ih =>
      rw [after_concat, List.count_append, ← ih]
      cases a <;> simp [undergo, post, pop, handOut, cancelToken]

theorem Revoked.lt (h : Revoked acts token) : token < acts.count .handOut := by
  obtain ⟨front, back, rfl, hlt⟩ := h
  rw [List.count_append]
  exact Nat.lt_add_right _ hlt

theorem revoked_concat : Revoked (acts ++ [a]) token ↔
    Revoked acts token ∨ a = .cancelToken token ∧ token < acts.count .handOut :=
  exists_split_concat

theorem revoked_append {more : List Act} (h : ∀ k, .cancelToken k ∉ more) (token : Nat) :
    Revoked (acts ++ more) token ↔ Revoked acts token := by
  induction more using List.reverseRecOn with
  | nil => rw [List.append_nil]
  | append_singleton more a ih =>
      rw [← List.append_assoc, revoked_concat, ih fun k hmem => h k (List.mem_append_left _ hmem)]
      refine or_iff_left fun hlast => h token ?_
      rw [hlast.1]
      exact List.mem_append_right _ List.mem_cons_self

theorem tokens_iff : (after acts).tokens.getD token false = true ↔ Revoked acts token := by
  induction acts using List.reverseRecOn with
  | nil => exact iff_of_false Bool.false_ne_true fun h => nomatch h.lt
  | append_singleton acts a ih =>
      rw [after_concat, revoked_concat, ← ih, List.getD_eq_getElem?_getD, List.getD_eq_getElem?_getD]
      cases a with
      | post reason | pop => simp [undergo, post, pop]
      | handOut =>
          -- The new token is not cancelled, and neither is one that does not exist.
          rcases Nat.lt_trichotomy token (after acts).tokens.length with hlt | rfl | hgt
          · simp [undergo, handOut, List.getElem?_append_left hlt]
          · simp [undergo, handOut]
          · have hnew : (after acts).tokens.length + 1 ≤ token := hgt
            rw [undergo, handOut, List.getElem?_eq_none (Nat.le_of_lt hgt),
              List.getElem?_eq_none (by simpa using hnew)]
            simp
      | cancelToken other =>
          rw [← length_tokens]
          simp only [undergo, cancelToken, List.getElem?_set, Act.cancelToken.injEq]
          by_cases hother : other = token
          · subst hother
            by_cases hlt : other < (after acts).tokens.length
            · simp [hlt]
            · simp [hlt]
          · simp [hother]

/-- A token is cancelled by itself or together with the request, whenever it was handed out. -/
theorem tokenCancelled_iff :
    (after acts).tokenCancelled token = true ↔ Revoked acts token ∨ Posted acts := by
  rw [tokenCancelled, Bool.or_eq_true, tokens_iff, raised_iff]

end Directory.Cancellation
