/-!
# Cancelling a request

A request is asked to stop by posting a reason. Posting never waits: two reasons are kept until the
handler asks for them, a further one is not kept, and the request counts as cancelled in either case
and for ever after. A handler may hand out tokens, each of which is cancelled by itself or together
with the request.
-/

namespace Directory

inductive Reason where
  | client
  | sessionClosing
  deriving DecidableEq, Repr

structure Cancellation where
  pending : List Reason := []
  /-- A reason has been posted, whether it was kept or not. -/
  raised : Bool := false
  /-- The tokens handed out, by number: whether each was cancelled by itself. -/
  tokens : List Bool := []
  deriving DecidableEq, Repr

namespace Cancellation

/-- How many reasons are kept: one for the client and one for the end of the session. -/
def slots : Nat := 2

def hasRoom (c : Cancellation) : Bool := c.pending.length < slots

def post (c : Cancellation) (reason : Reason) : Cancellation :=
  { c with
    pending := if c.hasRoom then c.pending ++ [reason] else c.pending
    raised := true }

def next? (c : Cancellation) : Option Reason := c.pending.head?

def pop (c : Cancellation) : Cancellation := { c with pending := c.pending.tail }

def handOut (c : Cancellation) : Cancellation := { c with tokens := c.tokens ++ [false] }

def cancelToken (c : Cancellation) (token : Nat) : Cancellation :=
  { c with tokens := c.tokens.set token true }

/-- A token is cancelled by itself or together with the request. -/
def tokenCancelled (c : Cancellation) (token : Nat) : Bool := c.tokens.getD token false || c.raised

theorem pending_post_of_room {c : Cancellation} (reason : Reason) (h : c.hasRoom = true) :
    (c.post reason).pending = c.pending ++ [reason] := by simp [post, h]

theorem pending_post_of_full {c : Cancellation} (reason : Reason) (h : c.hasRoom = false) :
    (c.post reason).pending = c.pending := by simp [post, h]

/-- Posting leaves a request cancelled, kept or not. -/
theorem raised_post (c : Cancellation) (reason : Reason) : (c.post reason).raised = true := rfl

theorem pending_post_le (c : Cancellation) (reason : Reason) (h : c.pending.length ≤ slots) :
    (c.post reason).pending.length ≤ slots := by
  unfold post hasRoom
  by_cases room : c.pending.length < slots
  · simp only [room, decide_true, if_true, List.length_append, List.length_singleton]
    omega
  · simpa [room] using h

end Cancellation

abbrev Cancellations := List Cancellation

namespace Cancellations

def post (cs : Cancellations) (request : Nat) (reason : Reason) : Cancellations :=
  cs.modify request (·.post reason)

/-- Posts a reason to every request named, once for each time that it is named. -/
def postAll (cs : Cancellations) (requests : List Nat) (reason : Reason) : Cancellations :=
  requests.foldl (fun cs request => cs.post request reason) cs

theorem length_post (cs : Cancellations) (request : Nat) (reason : Reason) :
    (cs.post request reason).length = cs.length := by simp [post]

theorem length_postAll (cs : Cancellations) (requests : List Nat) (reason : Reason) :
    (cs.postAll requests reason).length = cs.length := by
  induction requests generalizing cs with
  | nil => rfl
  | cons request rest ih => rw [postAll, List.foldl_cons, ← postAll, ih, length_post]

end Cancellations

end Directory
