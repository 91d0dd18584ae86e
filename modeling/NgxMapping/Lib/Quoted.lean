import Mathlib.Data.List.Basic
import Mathlib.Tactic

/-!
String literals between quotes.

A literal ends at the first quote that is not followed by another one; two quotes in a row
stand for a quote. `quoted` reads the literal after its opening quote, `double` writes one.
A text that is put between quotes as it is comes back exactly when it has no quote.
-/

namespace NgxMapping.Lib

variable {α : Type} [DecidableEq α]

/-- The literal after its opening quote, and what follows its closing quote. -/
def quoted (q : α) : List α → Option (List α × List α)
  | [] => none
  | [c] => if c = q then some ([], []) else none
  | c :: d :: s =>
    if c = q then
      if d = q then (quoted q s).map fun p => (q :: p.1, p.2) else some ([], d :: s)
    else (quoted q (d :: s)).map fun p => (c :: p.1, p.2)

def double (q : α) (u : List α) : List α := u.flatMap fun c => if c = q then [q, q] else [c]

@[simp] lemma double_nil (q : α) : double q [] = [] := rfl

lemma double_quote (q : α) (u : List α) : double q (q :: u) = q :: q :: double q u := by
  simp [double]

lemma double_cons {q c : α} (h : c ≠ q) (u : List α) : double q (c :: u) = c :: double q u := by
  simp [double, h]

lemma double_eq_self {q : α} {u : List α} (h : q ∉ u) : double q u = u := by
  induction u with
  | nil => rfl
  | cons c u ih =>
    rw [List.mem_cons, not_or] at h
    rw [double_cons (Ne.symm h.1), ih h.2]

lemma quoted_cons {q c : α} (h : c ≠ q) (s : List α) :
    quoted q (c :: s) = (quoted q s).map fun p => (c :: p.1, p.2) := by
  cases s with
  | nil => simp [quoted, h]
  | cons d s => rw [quoted, if_neg h]

lemma quoted_double (q : α) (u : List α) {r : List α} (hr : r.head? ≠ some q) :
    quoted q (double q u ++ q :: r) = some (u, r) := by
  induction u with
  | nil =>
    cases r with
    | nil => simp [quoted]
    | cons d r =>
      have hd : d ≠ q := by simpa using hr
      rw [double_nil, List.nil_append, quoted, if_pos rfl, if_neg hd]
  | cons c u ih =>
    by_cases hc : c = q
    · subst hc
      rw [double_quote, List.cons_append, List.cons_append, quoted, if_pos rfl, if_pos rfl, ih]
      rfl
    · rw [double_cons hc, List.cons_append, quoted_cons hc, ih]
      rfl

lemma eq_double_of_quoted {q : α} {s u r : List α} (h : quoted q s = some (u, r)) :
    s = double q u ++ q :: r := by
  induction s using quoted.induct q generalizing u with
  | case1 => simp [quoted] at h
  | case2 =>
    simp [quoted] at h
    obtain ⟨rfl, rfl⟩ := h
    rfl
  | case3 c hc => simp [quoted, hc] at h
  | case4 s ih =>
    rw [quoted, if_pos rfl, if_pos rfl, Option.map_eq_some_iff] at h
    obtain ⟨⟨v, t⟩, hv, he⟩ := h
    obtain ⟨rfl, rfl⟩ := Prod.mk.inj he
    rw [ih hv, double_quote]
    rfl
  | case5 d s hd =>
    rw [quoted, if_pos rfl, if_neg hd] at h
    obtain ⟨rfl, rfl⟩ := Prod.mk.inj (Option.some.inj h)
    rfl
  | case6 c d s hc ih =>
    rw [quoted, if_neg hc, Option.map_eq_some_iff] at h
    obtain ⟨⟨v, t⟩, hv, he⟩ := h
    obtain ⟨rfl, rfl⟩ := Prod.mk.inj he
    rw [ih hv, double_cons hc]
    rfl

lemma replicate_double_quote (q : α) (k : ℕ) (u s : List α) :
    List.replicate k q ++ (double q (q :: u) ++ s) =
      q :: (List.replicate (k + 1) q ++ (double q u ++ s)) := by
  calc List.replicate k q ++ (double q (q :: u) ++ s)
      = List.replicate k q ++ [q] ++ [q] ++ (double q u ++ s) := by simp [double_quote]
    _ = List.replicate (k + 1 + 1) q ++ (double q u ++ s) := by
        rw [← List.replicate_succ', ← List.replicate_succ']
    _ = q :: (List.replicate (k + 1) q ++ (double q u ++ s)) := by
        rw [List.replicate_succ, List.cons_append]

/-- The text `u` against its own doubling that starts `k` quotes later: every quote of `u` makes
the distance grow, and at the end of `u` there is only one quote. -/
lemma not_mem_of_double {q x : α} (hx : x ≠ q) {u t r : List α} {k : ℕ}
    (h : u ++ q :: x :: t = List.replicate k q ++ (double q u ++ q :: r)) : k = 0 ∧ q ∉ u := by
  induction u generalizing k with
  | nil =>
    refine ⟨?_, List.not_mem_nil⟩
    cases k with
    | zero => rfl
    | succ k =>
      -- the second byte is `x` on the left and a quote on the right
      exfalso
      rw [List.replicate_succ, List.cons_append, List.nil_append, List.cons.injEq] at h
      cases k with
      | zero => exact hx (List.cons.inj h.2).1
      | succ k => exact hx (List.cons.inj h.2).1
  | cons c u ih =>
    by_cases hc : c = q
    · subst hc
      rw [replicate_double_quote] at h
      have hnext := ih (List.cons.inj h).2
      exact absurd hnext.1 (Nat.succ_ne_zero k)
    · cases k with
      | zero =>
        rw [double_cons hc] at h
        have hnext := ih (k := 0) (List.cons.inj h).2
        refine ⟨rfl, ?_⟩
        rw [List.mem_cons, not_or]
        exact ⟨Ne.symm hc, hnext.2⟩
      | succ k => exact absurd (List.cons.inj h).1 hc

lemma quoted_of_not_mem {q x : α} (hx : x ≠ q) {u : List α} (hu : q ∉ u) (t : List α) :
    quoted q (u ++ q :: x :: t) = some (u, x :: t) := by
  have hhead : (x :: t).head? ≠ some q := by simpa using hx
  have hself := quoted_double q u hhead
  rwa [double_eq_self hu] at hself

/-- **A text between quotes is read as itself exactly when it has no quote.** -/
theorem quoted_self_iff {q x : α} (hx : x ≠ q) (u t : List α) :
    (∃ r, quoted q (u ++ q :: x :: t) = some (u, r)) ↔ q ∉ u := by
  constructor
  · rintro ⟨r, hr⟩
    exact (not_mem_of_double (k := 0) hx (eq_double_of_quoted hr)).2
  · intro h
    exact ⟨x :: t, quoted_of_not_mem hx h t⟩

end NgxMapping.Lib
