import Mathlib.Data.List.Induction

/-!
# Runs

A machine takes steps that may not fit its state, and a run is a list of steps that all fit. What
every step keeps, every run keeps: `foldlM_induction` is that argument, with the steps so far at
hand.
-/

namespace Directory

variable {σ α : Type} {step : σ → α → Option σ} {s s' : σ}

theorem foldlM_append_eq_some {actions more : List α} :
    (actions ++ more).foldlM step s = some s' ↔
      ∃ mid, actions.foldlM step s = some mid ∧ more.foldlM step mid = some s' := by
  rw [List.foldlM_append]
  exact Option.bind_eq_some_iff

theorem foldlM_concat_eq_some {actions : List α} {a : α} :
    (actions ++ [a]).foldlM step s = some s' ↔
      ∃ mid, actions.foldlM step s = some mid ∧ step mid a = some s' := by
  simp [List.foldlM_append, Option.bind_eq_some_iff]

/-- What holds at the beginning and is kept by every step holds after every run. -/
theorem foldlM_induction {motive : List α → σ → Prop} (h₀ : motive [] s)
    (hstep : ∀ {actions mid a next}, actions.foldlM step s = some mid → motive actions mid →
      step mid a = some next → motive (actions ++ [a]) next)
    {actions : List α} (h : actions.foldlM step s = some s') : motive actions s' := by
  -- By the last step: the state before it is one that the motive speaks of.
  induction actions using List.reverseRecOn generalizing s' with
  | nil =>
      cases h
      exact h₀
  | append_singleton actions a ih =>
      obtain ⟨mid, hmid, ha⟩ := foldlM_concat_eq_some.mp h
      exact hstep hmid (ih hmid) ha

end Directory
