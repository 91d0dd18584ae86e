import Mathlib.Algebra.Field.ZMod
import Mathlib.Algebra.Polynomial.Div
import Mathlib.Data.Nat.Bitwise
import Mathlib.Data.Nat.Size
import Mathlib.Tactic

/-!
Cyclic redundancy checks.

The bits of a number are the coefficients of a polynomial over the field of two elements. The
check of a string of bytes is the remainder of the string, moved up by the width of the check,
by a generator of that degree. It is computed a byte at a time from a table of the remainders of
all bytes.
-/

namespace NgxMapping.Lib

open Polynomial

/-! ### Numbers as polynomials -/

/-- The polynomial whose coefficients are the bits of a number. -/
noncomputable def bitPoly (n : ℕ) : (ZMod 2)[X] :=
  ∑ i ∈ Finset.range n.size, if n.testBit i then X ^ i else 0

@[simp] lemma coeff_bitPoly (n i : ℕ) :
    (bitPoly n).coeff i = if n.testBit i then 1 else 0 := by
  have hterm : ∀ j, (if n.testBit j then (X : (ZMod 2)[X]) ^ j else 0).coeff i =
      if j = i then (if n.testBit i then 1 else 0) else 0 := by
    intro j
    rcases eq_or_ne j i with rfl | hj
    · split <;> simp
    · rw [if_neg hj]
      split
      · rw [coeff_X_pow, if_neg (Ne.symm hj)]
      · exact coeff_zero i
  rw [bitPoly, finsetSum_coeff, Finset.sum_congr rfl fun j _ => hterm j, Finset.sum_ite_eq']
  split
  · rfl
  · rename_i hi
    have hlt : n < 2 ^ i := Nat.size_le.mp (by simpa using hi)
    simp [Nat.testBit_lt_two_pow hlt]

@[simp] lemma bitPoly_zero : bitPoly 0 = 0 := by
  ext i
  simp

@[simp] lemma bitPoly_one : bitPoly 1 = 1 := by
  ext i
  rw [coeff_bitPoly, coeff_one]
  cases i with
  | zero => simp
  | succ i => simp [Nat.testBit_succ]

lemma bitPoly_xor (m n : ℕ) : bitPoly (m ^^^ n) = bitPoly m + bitPoly n := by
  ext i
  rw [coeff_add, coeff_bitPoly, coeff_bitPoly, coeff_bitPoly, Nat.testBit_xor]
  cases m.testBit i <;> cases n.testBit i <;> decide

lemma bitPoly_shiftLeft (n k : ℕ) : bitPoly (n <<< k) = X ^ k * bitPoly n := by
  ext i
  rw [coeff_X_pow_mul', coeff_bitPoly, Nat.testBit_shiftLeft]
  by_cases h : k ≤ i
  · simp [h]
  · simp [h]

/-- The bits below `w` are all bits without those from `w` on, and adding takes off. -/
lemma bitPoly_low (n w : ℕ) :
    bitPoly (n &&& (2 ^ w - 1)) = bitPoly n + X ^ w * bitPoly (n >>> w) := by
  ext i
  rw [coeff_add, coeff_X_pow_mul', coeff_bitPoly, coeff_bitPoly, coeff_bitPoly, Nat.testBit_and,
    Nat.testBit_two_pow_sub_one, Nat.testBit_shiftRight]
  by_cases h : w ≤ i
  · have hi : ¬ i < w := by omega
    simp only [h, hi, if_true, decide_false, Bool.and_false, Nat.add_sub_cancel' h]
    exact (CharTwo.add_self_eq_zero _).symm
  · have hi : i < w := by omega
    simp [h, hi]

lemma degree_bitPoly_lt {n w : ℕ} (h : n < 2 ^ w) : (bitPoly n).degree < w := by
  rw [degree_lt_iff_coeff_zero]
  intro i hi
  have hlt : n < 2 ^ i := lt_of_lt_of_le h (Nat.pow_le_pow_right (by omega) hi)
  rw [coeff_bitPoly, Nat.testBit_lt_two_pow hlt]
  rfl

/-! ### Division -/

section Crc

variable (w G : ℕ)

/-- The generator of degree `w`, without its highest term. -/
noncomputable def generator : (ZMod 2)[X] := X ^ w + bitPoly G

lemma generator_monic (hG : G < 2 ^ w) : (generator w G).Monic :=
  monic_X_pow_add (degree_bitPoly_lt hG)

/-- One bit: the number moves up, and if it gets too long the generator is taken off. -/
def shiftOne (c : ℕ) : ℕ :=
  if c.testBit (w - 1) then (c <<< 1 ^^^ G) &&& (2 ^ w - 1) else (c <<< 1) &&& (2 ^ w - 1)

/-- The remainders of the bytes. -/
def IsTable (T : ℕ → ℕ) : Prop :=
  ∀ i < 256, T i < 2 ^ w ∧ (shiftOne w G)^[8] (i <<< (w - 8)) = T i

def crcByte (T : ℕ → ℕ) (crc b : ℕ) : ℕ :=
  ((crc <<< 8) ^^^ T ((crc >>> (w - 8)) ^^^ b)) &&& (2 ^ w - 1)

noncomputable def message (s : List ℕ) : (ZMod 2)[X] :=
  s.foldl (fun p b => X ^ 8 * p + bitPoly b) 0

variable {w G}

lemma shiftOne_dvd (hw : 0 < w) (hG : G < 2 ^ w) {c : ℕ} (hc : c < 2 ^ w) :
    generator w G ∣ bitPoly (shiftOne w G c) + X * bitPoly c := by
  have hpow : 2 ^ w = 2 * 2 ^ (w - 1) := by rw [← pow_succ', Nat.sub_add_cancel hw]
  have htop : (c <<< 1) >>> w = c / 2 ^ (w - 1) := by
    rw [Nat.shiftLeft_eq, Nat.shiftRight_eq_div_pow, hpow, pow_one, mul_comm c,
      Nat.mul_div_mul_left _ _ (by omega)]
  have hlt : c / 2 ^ (w - 1) < 2 := by
    rw [Nat.div_lt_iff_lt_mul (by positivity), ← hpow]
    exact hc
  have hbit : c.testBit (w - 1) = decide (c / 2 ^ (w - 1) % 2 = 1) :=
    Nat.testBit_eq_decide_div_mod_eq
  have hGtop : G >>> w = 0 := by rw [Nat.shiftRight_eq_div_pow, Nat.div_eq_of_lt hG]
  generalize c / 2 ^ (w - 1) = q at htop hlt hbit
  unfold shiftOne
  split
  · -- the top bit leaves, and the generator with it
    rename_i h
    have hone : q = 1 := by
      rw [hbit, decide_eq_true_eq] at h
      omega
    rw [bitPoly_low, Nat.shiftRight_xor_distrib, htop, hone, hGtop, Nat.xor_zero, bitPoly_one,
      bitPoly_xor,
      bitPoly_shiftLeft, pow_one, mul_one, generator]
    have : X * bitPoly c + bitPoly G + X ^ w + X * bitPoly c =
        X ^ w + bitPoly G + (X * bitPoly c + X * bitPoly c) := by ring
    rw [this, CharTwo.add_self_eq_zero, add_zero]
  · rename_i h
    have hzero : q = 0 := by
      rw [hbit, decide_eq_true_eq] at h
      omega
    rw [bitPoly_low, htop, hzero, bitPoly_zero, mul_zero, add_zero, bitPoly_shiftLeft, pow_one,
      CharTwo.add_self_eq_zero]
    exact dvd_zero _

lemma shiftOne_lt (c : ℕ) : shiftOne w G c < 2 ^ w := by
  unfold shiftOne
  split
  · exact Nat.and_lt_two_pow _ (Nat.sub_one_lt (by positivity))
  · exact Nat.and_lt_two_pow _ (Nat.sub_one_lt (by positivity))

lemma shifts_dvd (hw : 0 < w) (hG : G < 2 ^ w) (k : ℕ) {c : ℕ} (hc : c < 2 ^ w) :
    generator w G ∣ bitPoly ((shiftOne w G)^[k] c) + X ^ k * bitPoly c := by
  induction k generalizing c with
  | zero =>
    rw [Function.iterate_zero, id, pow_zero, one_mul, CharTwo.add_self_eq_zero]
    exact dvd_zero _
  | succ k ih =>
    have h1 := ih (shiftOne_lt (w := w) (G := G) c)
    have h2 := (shiftOne_dvd hw hG hc).mul_left (X ^ k)
    rw [Function.iterate_succ_apply]
    have := dvd_add h1 h2
    rwa [mul_add, ← mul_assoc, ← pow_succ, ← add_assoc, add_assoc (bitPoly _),
      CharTwo.add_self_eq_zero, add_zero] at this

lemma table_dvd (hw : 8 ≤ w) (hG : G < 2 ^ w) {T : ℕ → ℕ} (hT : IsTable w G T) {i : ℕ}
    (hi : i < 256) : generator w G ∣ bitPoly (T i) + X ^ w * bitPoly i := by
  have hlt : i <<< (w - 8) < 2 ^ w := by
    rw [Nat.shiftLeft_eq]
    calc i * 2 ^ (w - 8) < 2 ^ 8 * 2 ^ (w - 8) :=
          Nat.mul_lt_mul_of_pos_right hi (by positivity)
      _ = 2 ^ w := by rw [← pow_add, Nat.add_sub_cancel' hw]
  have h := shifts_dvd (by omega) hG 8 hlt
  rwa [(hT i hi).2, bitPoly_shiftLeft, ← mul_assoc, ← pow_add, Nat.add_sub_cancel' hw] at h

lemma crcByte_dvd (hw : 8 ≤ w) (hG : G < 2 ^ w) {T : ℕ → ℕ} (hT : IsTable w G T) {crc b : ℕ}
    (hc : crc < 2 ^ w) (hb : b < 256) :
    generator w G ∣
      bitPoly (crcByte w T crc b) + (X ^ 8 * bitPoly crc + X ^ w * bitPoly b) := by
  have hpow : 2 ^ w = 2 ^ 8 * 2 ^ (w - 8) := by rw [← pow_add, Nat.add_sub_cancel' hw]
  have hi : (crc >>> (w - 8)) ^^^ b < 256 := by
    apply Nat.xor_lt_two_pow (n := 8)
    · rw [Nat.shiftRight_eq_div_pow, Nat.div_lt_iff_lt_mul (by positivity), ← hpow]
      exact hc
    · exact hb
  have htop : (crc <<< 8) >>> w = crc >>> (w - 8) := by
    rw [Nat.shiftLeft_eq, Nat.shiftRight_eq_div_pow, Nat.shiftRight_eq_div_pow, hpow,
      mul_comm crc, Nat.mul_div_mul_left _ _ (by positivity)]
  have hTtop : T ((crc >>> (w - 8)) ^^^ b) >>> w = 0 := by
    rw [Nat.shiftRight_eq_div_pow, Nat.div_eq_of_lt (hT _ hi).1]
  have h := table_dvd hw hG hT hi
  rw [bitPoly_xor] at h
  rw [crcByte, bitPoly_low, Nat.shiftRight_xor_distrib, htop, hTtop, Nat.xor_zero, bitPoly_xor,
    bitPoly_shiftLeft]
  generalize bitPoly (crc >>> (w - 8)) = u at h ⊢
  have hsum : X ^ 8 * bitPoly crc + bitPoly (T (crc >>> (w - 8) ^^^ b)) + X ^ w * u +
        (X ^ 8 * bitPoly crc + X ^ w * bitPoly b) =
      bitPoly (T (crc >>> (w - 8) ^^^ b)) + X ^ w * (u + bitPoly b) +
        (X ^ 8 * bitPoly crc + X ^ 8 * bitPoly crc) := by ring
  rwa [hsum, CharTwo.add_self_eq_zero, add_zero]

lemma crcByte_lt (T : ℕ → ℕ) (crc b : ℕ) : crcByte w T crc b < 2 ^ w :=
  Nat.and_lt_two_pow _ (Nat.sub_one_lt (by positivity))

/-- **The check is a remainder.** -/
theorem crc_remainder (hw : 8 ≤ w) (hG : G < 2 ^ w) {T : ℕ → ℕ} (hT : IsTable w G T) {s : List ℕ}
    (hs : ∀ b ∈ s, b < 256) :
    s.foldl (crcByte w T) 0 < 2 ^ w ∧
      bitPoly (s.foldl (crcByte w T) 0) = (X ^ w * message s) %ₘ generator w G := by
  have hmonic := generator_monic w G hG
  have hdeg : (generator w G).degree = w := by
    rw [generator, degree_add_eq_left_of_degree_lt, degree_X_pow]
    rw [degree_X_pow]
    exact degree_bitPoly_lt hG
  have key : s.foldl (crcByte w T) 0 < 2 ^ w ∧
      generator w G ∣ bitPoly (s.foldl (crcByte w T) 0) + X ^ w * message s := by
    induction s using List.reverseRecOn with
    | nil => exact ⟨by positivity, by simp [message]⟩
    | append_singleton s b ih =>
      obtain ⟨hlt, hdvd⟩ := ih fun x hx => hs x (by simp [hx])
      refine ⟨?_, ?_⟩
      · rw [List.foldl_append]
        exact crcByte_lt T _ _
      · have hbyte := crcByte_dvd hw hG hT hlt (hs b (by simp))
        have hmul := hdvd.mul_left (X ^ 8)
        have hmsg : message (s ++ [b]) = X ^ 8 * message s + bitPoly b := by
          rw [message, List.foldl_append]
          rfl
        rw [List.foldl_append, List.foldl_cons, List.foldl_nil, hmsg]
        generalize bitPoly (crcByte w T (s.foldl (crcByte w T) 0) b) = v at hbyte ⊢
        generalize bitPoly (s.foldl (crcByte w T) 0) = u at hbyte hmul
        have hsum : v + (X ^ 8 * u + X ^ w * bitPoly b) + X ^ 8 * (u + X ^ w * message s) =
            v + X ^ w * (X ^ 8 * message s + bitPoly b) + (X ^ 8 * u + X ^ 8 * u) := by ring
        have := dvd_add hbyte hmul
        rwa [hsum, CharTwo.add_self_eq_zero, add_zero] at this
  refine ⟨key.1, ?_⟩
  have hself : bitPoly (s.foldl (crcByte w T) 0) %ₘ generator w G =
      bitPoly (s.foldl (crcByte w T) 0) := by
    rw [modByMonic_eq_self_iff hmonic, hdeg]
    exact degree_bitPoly_lt key.1
  rw [← hself]
  apply modByMonic_eq_of_dvd_sub hmonic
  rw [CharTwo.sub_eq_add]
  exact key.2

end Crc

end NgxMapping.Lib
