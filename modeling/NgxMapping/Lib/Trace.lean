import Mathlib.Data.List.Basic
import Mathlib.Tactic

/-!
Systems that show some of their steps, and simulation between two of them.

The lower system is a function of a schedule: `next s x` is the state after the step `x` and what
the step shows. The upper one is a relation `step s o s'`, in which a step shows `o` or, for
`none`, nothing. If every step of the lower system is matched by steps of the upper one that show
the same, then whatever a schedule shows is a trace of the upper system. The relation between the
states may count the steps made so far, for systems that are right for a bounded time only.
-/

namespace NgxMapping.Lib

section Trace

variable {σ τ ι ε : Type}

/-! ### Traces of a relation -/

/-- The steps from one state to another show the events. -/
inductive Trace (step : τ → Option ε → τ → Prop) (s : τ) : List ε → τ → Prop
  | nil : Trace step s [] s
  | snoc {es : List ε} {t u : τ} {o : Option ε} :
      Trace step s es t → step t o u → Trace step s (es ++ o.toList) u

namespace Trace

variable {step : τ → Option ε → τ → Prop} {s t u : τ} {es fs : List ε}

lemma shows {e : ε} (h : step s (some e) t) : Trace step s [e] t := snoc nil h

lemma silent (h : step s none t) : Trace step s [] t := snoc nil h

lemma append (h : Trace step s es t) (h' : Trace step t fs u) : Trace step s (es ++ fs) u := by
  induction h' with
  | nil => simpa using h
  | snoc _ hstep ih =>
    rw [← List.append_assoc]
    exact snoc ih hstep

/-- What holds at first and is kept by every step, together with what has been shown, holds along
every trace. -/
theorem invariant {I : List ε → τ → Prop} (h0 : I [] s)
    (hstep : ∀ es t o u, I es t → step t o u → I (es ++ o.toList) u) (h : Trace step s es t) :
    I es t := by
  induction h with
  | nil => exact h0
  | snoc _ hs ih => exact hstep _ _ _ _ ih hs

end Trace

/-! ### Schedules -/

variable (next : σ → ι → σ × Option ε)

def after (s : σ) (xs : List ι) : σ := xs.foldl (fun s x => (next s x).1) s

/-- What a schedule shows. -/
def shown : σ → List ι → List ε
  | _, [] => []
  | s, x :: xs => (next s x).2.toList ++ shown (next s x).1 xs

variable {next}

@[simp] lemma after_nil (s : σ) : after next s [] = s := rfl

@[simp] lemma after_cons (s : σ) (x : ι) (xs : List ι) :
    after next s (x :: xs) = after next (next s x).1 xs := rfl

lemma after_append (s : σ) (xs ys : List ι) :
    after next s (xs ++ ys) = after next (after next s xs) ys := List.foldl_append

lemma shown_append (s : σ) (xs ys : List ι) :
    shown next s (xs ++ ys) = shown next s xs ++ shown next (after next s xs) ys := by
  induction xs generalizing s with
  | nil => rfl
  | cons x xs ih =>
    rw [List.cons_append, shown, ih, shown, after_cons, List.append_assoc]

/-- What every step keeps, together with what has been shown, holds after every schedule. -/
theorem shown_invariant {I : List ε → σ → Prop}
    (hstep : ∀ es s x, I es s → I (es ++ (next s x).2.toList) (next s x).1) {es : List ε} {s : σ}
    (h : I es s) (xs : List ι) : I (es ++ shown next s xs) (after next s xs) := by
  induction xs generalizing es s with
  | nil => simpa [shown] using h
  | cons x xs ih =>
    rw [shown, ← List.append_assoc]
    exact ih (hstep es s x h)

/-- **Simulation.** If the upper system can follow each of the first `bound` steps, then what a
schedule of at most `bound` steps shows is a trace of it. -/
theorem trace_of_simulation {step : τ → Option ε → τ → Prop} {R : ℕ → σ → τ → Prop} {bound : ℕ}
    (hstep : ∀ n s t x, n < bound → R n s t →
      ∃ t', Trace step t (next s x).2.toList t' ∧ R (n + 1) (next s x).1 t')
    {n : ℕ} {s : σ} {t : τ} {xs : List ι} (hn : n + xs.length ≤ bound) (h : R n s t) :
    ∃ t', Trace step t (shown next s xs) t' ∧ R (n + xs.length) (after next s xs) t' := by
  induction xs generalizing n s t with
  | nil => exact ⟨t, .nil, h⟩
  | cons x xs ih =>
    rw [List.length_cons] at hn
    obtain ⟨t', htrace, hR⟩ := hstep n s t x (by omega) h
    obtain ⟨t'', htrace', hR'⟩ := ih (by omega) hR
    rw [Nat.add_right_comm, Nat.add_assoc] at hR'
    exact ⟨t'', htrace.append htrace', hR'⟩

end Trace

end NgxMapping.Lib
