import Mathlib.Data.List.Basic
import Mathlib.Tactic

/-!
Streams of frames.

A reader takes one item off the front of a stream and leaves the rest; it has nothing to give
while the first item has not come in whole. If a reader inverts a code and does not go back on
what it has read, then a stream of codes that is cut anywhere gives the items before the cut.
-/

namespace NgxMapping.Lib

section Framing

variable {σ α β : Type}

abbrev Reader (σ α : Type) := List σ → Option (α × List σ)

/-- What has been read does not change when more comes in. -/
def Stable (read : Reader σ α) : Prop :=
  ∀ s a r, read s = some (a, r) → ∀ t, read (s ++ t) = some (a, r ++ t)

/-- The code of an item is read as the item, whatever follows it. -/
def Inverts (read : Reader σ α) (code : α → List σ) : Prop :=
  ∀ a rest, read (code a ++ rest) = some (a, rest)

/-! ### Readers one after another -/

def andThen (read : Reader σ α) (f : α → Reader σ β) : Reader σ β := fun s =>
  match read s with
  | none => none
  | some (a, r) => f a r

lemma andThen_eq {read : Reader σ α} {f : α → Reader σ β} {s r : List σ} {a : α}
    (h : read s = some (a, r)) : andThen read f s = f a r := by
  rw [andThen, h]

lemma Stable.andThen {read : Reader σ α} {f : α → Reader σ β} (h : Stable read)
    (hf : ∀ a, Stable (f a)) : Stable (andThen read f) := by
  intro s b r hr t
  unfold Lib.andThen at hr ⊢
  split at hr
  · cases hr
  · rename_i a u hu
    rw [h s a u hu t]
    exact hf a u b r hr t

def times (read : Reader σ α) : ℕ → Reader σ (List α)
  | 0 => fun s => some ([], s)
  | n + 1 => andThen read fun a => andThen (times read n) fun as s => some (a :: as, s)

lemma Stable.times {read : Reader σ α} (h : Stable read) (n : ℕ) : Stable (times read n) := by
  induction n with
  | zero =>
    intro s as r hr t
    simp only [Lib.times, Option.some.injEq, Prod.mk.injEq] at hr ⊢
    exact ⟨hr.1, by rw [hr.2]⟩
  | succ n ih =>
    apply h.andThen
    intro a
    apply ih.andThen
    intro as s b r hr t
    simp only [Option.some.injEq, Prod.mk.injEq] at hr ⊢
    exact ⟨hr.1, by rw [hr.2]⟩

lemma times_flatMap {read : Reader σ α} {code : α → List σ} (h : Inverts read code) (as : List α)
    (rest : List σ) : times read as.length (as.flatMap code ++ rest) = some (as, rest) := by
  induction as with
  | nil => rfl
  | cons a as ih =>
    rw [List.length_cons, List.flatMap_cons, List.append_assoc, times, andThen_eq (h a _),
      andThen_eq ih]

/-! ### All items of a stream -/

/-- The items that have come in whole, and the rest. -/
def drain (read : Reader σ α) : ℕ → List σ → List α × List σ
  | 0, s => ([], s)
  | n + 1, s =>
    match read s with
    | none => ([], s)
    | some (a, r) => (a :: (drain read n r).1, (drain read n r).2)

variable {read : Reader σ α} {code : α → List σ}

lemma read_part (hs : Stable read) (hi : Inverts read code) {a : α} {p q : List σ}
    (h : code a = p ++ q) (hq : q ≠ []) : read p = none := by
  rcases hp : read p with _ | ⟨b, r⟩
  · rfl
  · have h1 : read (p ++ q) = some (b, r ++ q) := hs p b r hp q
    have h2 : read (p ++ q) = some (a, []) := by rw [← h, ← hi a [], List.append_nil]
    rw [h1, Option.some.injEq, Prod.mk.injEq, List.append_eq_nil_iff] at h2
    exact absurd h2.2.2 hq

/-- **A stream that is cut anywhere** gives the items before the cut. -/
theorem drain_take (hs : Stable read) (hi : Inverts read code) (hne : ∀ a, code a ≠ [])
    (as : List α) (n fuel : ℕ) (hf : as.length ≤ fuel) :
    ∃ k r, drain read fuel ((as.flatMap code).take n) = (as.take k, r) ∧
      (as.take k).flatMap code ++ r = (as.flatMap code).take n ∧
      ((as.flatMap code).length ≤ n → as.take k = as) := by
  induction as generalizing n fuel with
  | nil =>
    refine ⟨0, [], ?_, by simp, by simp⟩
    cases fuel with
    | zero => simp [drain]
    | succ fuel =>
      have hnil : read [] = none := by
        rcases hr : read [] with _ | ⟨a, r⟩
        · rfl
        · exact (read_part hs hi (a := a) (List.nil_append _).symm (hne a)) ▸ hr.symm
      simp [drain, hnil]
  | cons a as ih =>
    obtain ⟨fuel, rfl⟩ : ∃ m, fuel = m + 1 := ⟨fuel - 1, by simp at hf; omega⟩
    simp only [List.flatMap_cons]
    rcases Nat.lt_or_ge n (code a).length with hn | hn
    · -- the cut is within the first code
      have hpart : read ((code a).take n) = none := by
        apply read_part hs hi (List.take_append_drop n (code a)).symm
        rw [← List.length_pos_iff, List.length_drop]
        omega
      refine ⟨0, (code a).take n, ?_, ?_, ?_⟩
      · rw [List.take_append_of_le_length (by omega), drain, hpart]
        rfl
      · rw [List.take_append_of_le_length (by omega)]
        rfl
      · intro hlen
        rw [List.length_append] at hlen
        omega
    · obtain ⟨k, r, hd, happ, hall⟩ := ih (n - (code a).length) fuel (by simpa using hf)
      have htake : (code a ++ as.flatMap code).take n =
          code a ++ (as.flatMap code).take (n - (code a).length) := by
        rw [List.take_append, List.take_of_length_le hn]
      refine ⟨k + 1, r, ?_, ?_, ?_⟩
      · rw [htake, drain, hi]
        simp only [hd, List.take_succ_cons]
      · rw [htake, List.take_succ_cons, List.flatMap_cons, List.append_assoc, happ]
      · intro hlen
        rw [List.length_append] at hlen
        rw [List.take_succ_cons, hall (by omega)]

end Framing

end NgxMapping.Lib
