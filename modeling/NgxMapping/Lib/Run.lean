import Mathlib.Tactic

/-!
Runs of a system that is fed one input after another.

`ok s x` says that the input `x` may arrive in the state `s`, `next s x` is the state after it.
-/

namespace NgxMapping.Lib

section Run

variable {σ ι : Type} (ok : σ → ι → Prop) (next : σ → ι → σ)

/-- Every input arrives in a state that allows it. -/
def Run : σ → List ι → Prop
  | _, [] => True
  | s, x :: xs => ok s x ∧ Run (next s x) xs

variable {ok next}

lemma run_append {s : σ} {xs ys : List ι} :
    Run ok next s (xs ++ ys) ↔ Run ok next s xs ∧ Run ok next (xs.foldl next s) ys := by
  induction xs generalizing s with
  | nil => simp [Run]
  | cons x xs ih => simp [Run, ih, and_assoc]

/-- What every admissible input preserves holds at the end of a run. -/
theorem run_invariant {I : σ → Prop} {Q : ι → Prop} {s : σ} {xs : List ι}
    (hstep : ∀ s x, I s → ok s x → Q x → I (next s x)) (hrun : Run ok next s xs)
    (hq : ∀ x ∈ xs, Q x) (h0 : I s) : I (xs.foldl next s) := by
  induction xs generalizing s with
  | nil => exact h0
  | cons x xs ih =>
    rw [List.foldl_cons]
    exact ih hrun.2 (fun y hy => hq y (by simp [hy])) (hstep s x h0 hrun.1 (hq x (by simp)))

end Run

end NgxMapping.Lib
