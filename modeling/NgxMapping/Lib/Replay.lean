import Mathlib.Logic.Function.Basic
import Mathlib.Tactic

/-!
Stores that are written to key by key.

A store gives each key its value, a write sets one key. A list of writes may be replayed after
a part of it, or any writes to the same keys, has been carried out already.

A table whose rows carry their keys is written to in the same way: a row replaces the one of its
key. Such a table tracks the rows that have been written as long as rows are only taken out under
keys one does not care for.
-/

namespace NgxMapping.Lib

variable {κ α : Type} [DecidableEq κ]

abbrev Store (κ α : Type) := κ → Option α

/-- The store after the writes, in their order. -/
def replay (s : Store κ α) (ws : List (κ × α)) : Store κ α :=
  ws.foldl (fun s w => Function.update s w.1 (some w.2)) s

@[simp] lemma replay_nil (s : Store κ α) : replay s [] = s := rfl

lemma replay_append (s : Store κ α) (us ws : List (κ × α)) :
    replay s (us ++ ws) = replay (replay s us) ws := List.foldl_append

lemma replay_frame (s : Store κ α) {ws : List (κ × α)} {k : κ} (h : k ∉ ws.map Prod.fst) :
    replay s ws k = s k := by
  induction ws generalizing s with
  | nil => rfl
  | cons w ws ih =>
    rw [List.map_cons, List.mem_cons, not_or] at h
    calc replay s (w :: ws) k
        = replay (Function.update s w.1 (some w.2)) ws k := rfl
      _ = Function.update s w.1 (some w.2) k := ih _ h.2
      _ = s k := Function.update_of_ne h.1 _ _

lemma replay_of_mem (s t : Store κ α) {ws : List (κ × α)} {k : κ} (h : k ∈ ws.map Prod.fst) :
    replay s ws k = replay t ws k := by
  induction ws generalizing s t with
  | nil => simp at h
  | cons w ws ih =>
    change replay (Function.update s w.1 (some w.2)) ws k =
      replay (Function.update t w.1 (some w.2)) ws k
    by_cases hk : k ∈ ws.map Prod.fst
    · exact ih _ _ hk
    · rw [List.map_cons, List.mem_cons] at h
      rw [replay_frame _ hk, replay_frame _ hk, h.resolve_right hk, Function.update_self,
        Function.update_self]

lemma replay_filter {s t : Store κ α} (ws : List (κ × α)) {p : κ → Bool} {k : κ} (hp : p k = true)
    (h : s k = t k) : replay s (ws.filter fun w => p w.1) k = replay t ws k := by
  induction ws generalizing s t with
  | nil => exact h
  | cons w ws ih =>
    change _ = replay (Function.update t w.1 (some w.2)) ws k
    by_cases hw : p w.1 = true
    · rw [List.filter_cons_of_pos (by simpa using hw)]
      apply ih
      change Function.update s w.1 (some w.2) k = Function.update t w.1 (some w.2) k
      rw [Function.update_apply, Function.update_apply, h]
    · rw [List.filter_cons_of_neg (by simpa using hw)]
      apply ih
      have hk : k ≠ w.1 := fun he => hw (he ▸ hp)
      rw [Function.update_of_ne hk, h]

/-- **Writes to keys that are written again leave no trace.** -/
theorem replay_absorb (s : Store κ α) {us ws : List (κ × α)}
    (h : ∀ u ∈ us, u.1 ∈ ws.map Prod.fst) : replay (replay s us) ws = replay s ws := by
  funext k
  by_cases hk : k ∈ ws.map Prod.fst
  · exact replay_of_mem _ _ hk
  · have hu : k ∉ us.map Prod.fst := by
      intro hmem
      obtain ⟨u, hu, rfl⟩ := List.mem_map.mp hmem
      exact hk (h u hu)
    rw [replay_frame _ hk, replay_frame _ hk, replay_frame _ hu]

/-! ### Rows that carry their keys -/

section Rows

variable {ρ : Type} (key : ρ → κ)

def others (k : κ) (rows : List ρ) : List ρ := rows.filter fun r => key r ≠ k

/-- The table with a row that replaces the one of its key. -/
def upsert (rows : List ρ) (r : ρ) : List ρ := others key (key r) rows ++ [r]

/-- Behind this row there is none of its key in the list. -/
def LastOf (l : List ρ) (r : ρ) : Prop := ∃ as bs, l = as ++ r :: bs ∧ ∀ t ∈ bs, key t ≠ key r

variable {key} {k : κ} {l rows : List ρ} {r t : ρ}

lemma mem_others : r ∈ others key k rows ↔ r ∈ rows ∧ key r ≠ k := by
  simp [others]

lemma mem_upsert : t ∈ upsert key rows r ↔ t ∈ rows ∧ key t ≠ key r ∨ t = r := by
  rw [upsert, List.mem_append, mem_others, List.mem_singleton]

omit [DecidableEq κ] in
lemma LastOf.mem (h : LastOf key l r) : r ∈ l := by
  obtain ⟨as, bs, rfl, -⟩ := h
  simp

omit [DecidableEq κ] in
lemma lastOf_snoc : LastOf key (l ++ [t]) r ↔ LastOf key l r ∧ key r ≠ key t ∨ r = t := by
  constructor
  · rintro ⟨as, bs, hl, hbs⟩
    rcases List.eq_nil_or_concat bs with rfl | ⟨bs, b, rfl⟩
    · exact .inr (by simpa using (congrArg List.getLast? hl).symm)
    · have hsplit : l ++ [t] = (as ++ r :: bs) ++ [b] := by rw [hl]; simp
      obtain ⟨rfl, hb⟩ := List.append_inj' hsplit rfl
      obtain rfl := List.singleton_injective hb
      exact .inl ⟨⟨as, bs, rfl, fun u hu => hbs u (by simp [hu])⟩, (hbs t (by simp)).symm⟩
  · rintro (⟨⟨as, bs, rfl, hbs⟩, hne⟩ | rfl)
    · refine ⟨as, bs ++ [t], by simp, fun u hu => ?_⟩
      rcases List.mem_append.mp hu with hu | hu
      · exact hbs u hu
      · rw [List.mem_singleton.mp hu]
        exact hne.symm
    · exact ⟨l, [], rfl, by simp⟩

/-- The table holds rows that were the last of their keys to be written, and under the keys `Q`
all of them. -/
structure Tracks (key : ρ → κ) (Q : κ → Prop) (l rows : List ρ) : Prop where
  last : ∀ r ∈ rows, LastOf key l r
  kept : ∀ r, LastOf key l r → Q (key r) → r ∈ rows

namespace Tracks

variable {Q : κ → Prop}

omit [DecidableEq κ] in
lemma nil : Tracks key Q [] [] where
  last r hr := by cases hr
  kept r h _ := by simpa using h.mem

lemma upsert (h : Tracks key Q l rows) (r : ρ) : Tracks key Q (l ++ [r]) (upsert key rows r) where
  last t ht := by
    rw [lastOf_snoc]
    rcases mem_upsert.mp ht with ⟨ht, hne⟩ | rfl
    · exact .inl ⟨h.last t ht, hne⟩
    · exact .inr rfl
  kept t ht hq := by
    rw [mem_upsert]
    rcases lastOf_snoc.mp ht with ⟨ht, hne⟩ | rfl
    · exact .inl ⟨h.kept t ht hq, hne⟩
    · exact .inr rfl

lemma foldl (h : Tracks key Q l rows) (ws : List ρ) :
    Tracks key Q (l ++ ws) (ws.foldl (Lib.upsert key) rows) := by
  induction ws generalizing l rows with
  | nil => simpa using h
  | cons w ws ih =>
    have := ih (h.upsert w)
    rwa [List.append_assoc] at this

lemma others (h : Tracks key Q l rows) (hk : ¬ Q k) : Tracks key Q l (others key k rows) where
  last t ht := h.last t (mem_others.mp ht).1
  kept t ht hq := mem_others.mpr ⟨h.kept t ht hq, fun he => hk (he ▸ hq)⟩

end Tracks

lemma mem_or_mem_of_mem_upserts {ws : List ρ} (h : r ∈ ws.foldl (upsert key) rows) :
    r ∈ rows ∨ r ∈ ws := by
  induction ws generalizing rows with
  | nil => exact .inl h
  | cons w ws ih =>
    rcases ih h with h | h
    · rcases mem_upsert.mp h with ⟨h, -⟩ | rfl
      · exact .inl h
      · exact .inr List.mem_cons_self
    · exact .inr (List.mem_cons_of_mem _ h)

end Rows

end NgxMapping.Lib
