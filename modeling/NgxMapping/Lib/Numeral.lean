import Mathlib.Data.Nat.Digits.Lemmas
import Mathlib.Tactic

/-!
Numerals over an alphabet, the most significant digit first.

The digit of a symbol is its place in the alphabet and the base is the number of symbols. A
numeral is fixed by its length and its value, and by its value alone when it does not begin with
the zero.
-/

namespace NgxMapping.Lib

variable {α : Type} [DecidableEq α] {A : List α}

def value (A s : List α) : ℕ := Nat.ofDigits A.length (s.map A.idxOf).reverse

lemma value_cons (c : α) (s : List α) :
    value A (c :: s) = A.idxOf c * A.length ^ s.length + value A s := by
  rw [value, List.map_cons, Nat.ofDigits_reverse_cons, List.length_map, value]
  ring

lemma digits_lt {s : List α} (hs : s ⊆ A) : ∀ d ∈ (s.map A.idxOf).reverse, d < A.length := by
  intro d hd
  obtain ⟨c, hc, rfl⟩ := List.mem_map.mp (List.mem_reverse.mp hd)
  exact List.idxOf_lt_length_of_mem (hs hc)

lemma value_lt (hA : 1 < A.length) {s : List α} (hs : s ⊆ A) : value A s < A.length ^ s.length := by
  have h := Nat.ofDigits_lt_base_pow_length hA (digits_lt hs)
  rwa [List.length_reverse, List.length_map] at h

lemma map_idxOf_injective {s t : List α} (hs : s ⊆ A) (h : s.map A.idxOf = t.map A.idxOf) :
    s = t := by
  induction s generalizing t with
  | nil => exact (List.map_eq_nil_iff.mp h.symm).symm
  | cons c s ih =>
    obtain ⟨d, t, rfl⟩ : ∃ d u, t = d :: u := by
      cases t with
      | nil => simp at h
      | cons d u => exact ⟨d, u, rfl⟩
    rw [List.map_cons, List.map_cons, List.cons.injEq] at h
    have hc : c = d := (List.idxOf_inj (hs List.mem_cons_self)).mp h.1
    rw [hc, ih (fun x hx => hs (List.mem_cons_of_mem c hx)) h.2]

lemma value_injective (hA : 1 < A.length) {s t : List α} (hs : s ⊆ A) (ht : t ⊆ A)
    (hlen : s.length = t.length) (h : value A s = value A t) : s = t := by
  apply map_idxOf_injective hs
  apply List.reverse_injective
  apply Nat.ofDigits_inj_of_len_eq hA
  · simpa using hlen
  · exact digits_lt hs
  · exact digits_lt ht
  · exact h

lemma log_value (hA : 1 < A.length) {c : α} {s : List α} (hs : c :: s ⊆ A) (hc : A.idxOf c ≠ 0) :
    Nat.log A.length (value A (c :: s)) = s.length := by
  apply Nat.log_eq_of_pow_le_of_lt_pow
  · calc A.length ^ s.length ≤ A.idxOf c * A.length ^ s.length :=
          Nat.le_mul_of_pos_left _ (Nat.pos_of_ne_zero hc)
      _ ≤ value A (c :: s) := by rw [value_cons]; exact Nat.le_add_right _ _
  · exact value_lt hA hs

end NgxMapping.Lib
