import Directory.Octets

/-!
# Backlogs

Octets arrive in runs of any size and leave from the front in amounts of another size. A backlog
keeps the runs apart until somebody needs what they hold, so that a run is taken in without a walk
over what is there already, and it counts the octets as they come and go.

`toOctets` is what a backlog holds, and every operation is pinned down by what it does to that: how
the octets happen to lie in runs can be seen by nobody.
-/

namespace Directory

/-- Octets that have arrived and not left, in order. -/
structure Backlog where
  front : Octets
  /-- The runs that came behind them, latest first. -/
  later : List Octets
  size : Nat
  size_eq : size = front.length + later.flatten.length
  deriving DecidableEq, Repr

namespace Backlog

def empty : Backlog := ⟨[], [], 0, rfl⟩

def toOctets (b : Backlog) : Octets := b.front ++ b.later.reverse.flatten

theorem length_toOctets (b : Backlog) : b.toOctets.length = b.size := by
  rw [toOctets, List.length_append, b.size_eq, List.length_flatten, List.length_flatten,
    List.map_reverse, List.sum_reverse]

def push (b : Backlog) (run : Octets) : Backlog where
  front := b.front
  later := run :: b.later
  size := b.size + run.length
  size_eq := by
    rw [b.size_eq, List.flatten_cons, List.length_append]
    omega

@[simp] theorem toOctets_push (b : Backlog) (run : Octets) :
    (b.push run).toOctets = b.toOctets ++ run := by
  simp [toOctets, push]

/-- The first `n` octets lie at the front, or as many as there are. -/
def reaches (b : Backlog) (n : Nat) : Bool := b.later.isEmpty || (b.front.take n).length == n

def reach (b : Backlog) (n : Nat) : Backlog :=
  if b.reaches n then b
  else ⟨b.toOctets, [], b.size, by simp [length_toOctets]⟩

@[simp] theorem toOctets_reach (b : Backlog) (n : Nat) : (b.reach n).toOctets = b.toOctets := by
  unfold reach
  split
  · rfl
  · simp [toOctets]

@[simp] theorem size_reach (b : Backlog) (n : Nat) : (b.reach n).size = b.size := by
  rw [← length_toOctets, toOctets_reach, length_toOctets]

/-- Behind the first `n` octets there is nothing but what has not been brought forward. -/
theorem later_reach (b : Backlog) (n : Nat) :
    (b.reach n).later = [] ∨ n ≤ (b.reach n).front.length := by
  unfold reach
  split
  · rename_i h
    rw [reaches, Bool.or_eq_true, List.isEmpty_iff, beq_iff_eq, List.length_take] at h
    exact h.imp_right fun h => by omega
  · exact Or.inl rfl

def ahead (b : Backlog) (n : Nat) : Octets := (b.reach n).front.take n

theorem ahead_eq_take (b : Backlog) (n : Nat) : b.ahead n = b.toOctets.take n := by
  rw [ahead, ← b.toOctets_reach n, toOctets]
  rcases b.later_reach n with h | h
  · simp [h]
  · rw [List.take_append_of_le_length h]

def drop (b : Backlog) (n : Nat) : Backlog :=
  let r := b.reach n
  { front := r.front.drop n
    later := r.later
    size := r.size - n
    size_eq := by
      rw [r.size_eq, List.length_drop]
      rcases b.later_reach n with h | h
      · simp [r, h]
      · simp only [r]; omega }

@[simp] theorem size_drop (b : Backlog) (n : Nat) : (b.drop n).size = b.size - n := by
  simp [drop]

@[simp] theorem toOctets_drop (b : Backlog) (n : Nat) :
    (b.drop n).toOctets = b.toOctets.drop n := by
  rw [← b.toOctets_reach n, toOctets, toOctets, drop]
  rcases b.later_reach n with h | h
  · simp [h]
  · rw [List.drop_append_of_le_length h]

end Backlog

end Directory
