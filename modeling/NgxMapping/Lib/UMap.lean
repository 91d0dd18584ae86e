import Mathlib.Data.List.Nodup
import Mathlib.Tactic

/-!
`std::unordered_map`: finitely many entries under pairwise different keys.

The entries stand in the order in which the map is iterated. The container leaves that
order open, so statements about all maps are statements about all orders.
-/

namespace NgxMapping.Lib

variable {κ α : Type} [DecidableEq κ]

structure UMap (κ α : Type) [DecidableEq κ] where
  entries : List (κ × α)
  nodup : (entries.map Prod.fst).Nodup

namespace UMap

def empty : UMap κ α := ⟨[], List.nodup_nil⟩

def keys (m : UMap κ α) : List κ := m.entries.map Prod.fst

/-- `find`, giving the value found. -/
def find (m : UMap κ α) (k : κ) : Option α := m.entries.lookup k

def size (m : UMap κ α) : ℕ := m.entries.length

/-- `m[k] = v` on the entries. -/
def put (k : κ) (v : α) : List (κ × α) → List (κ × α)
  | [] => [(k, v)]
  | e :: es => if e.1 = k then (k, v) :: es else e :: put k v es

lemma mem_keys_put {k j : κ} {v : α} {es : List (κ × α)} :
    j ∈ (put k v es).map Prod.fst ↔ j = k ∨ j ∈ es.map Prod.fst := by
  induction es with
  | nil => simp [put]
  | cons e es ih =>
    unfold put
    split
    · rename_i h; subst h; simp
    · simp only [List.map_cons, List.mem_cons, ih]; tauto

lemma nodup_put {k : κ} {v : α} {es : List (κ × α)} (h : (es.map Prod.fst).Nodup) :
    ((put k v es).map Prod.fst).Nodup := by
  induction es with
  | nil => simp [put]
  | cons e es ih =>
    rw [List.map_cons, List.nodup_cons] at h
    unfold put
    split
    · rename_i hk; subst hk; simpa using h
    · rename_i hk
      rw [List.map_cons, List.nodup_cons, mem_keys_put]
      exact ⟨fun hc => hc.elim hk h.1, ih h.2⟩

/-- `m[k] = v`. -/
def insert (m : UMap κ α) (k : κ) (v : α) : UMap κ α := ⟨put k v m.entries, nodup_put m.nodup⟩

lemma lookup_put (k j : κ) (v : α) (es : List (κ × α)) :
    (put k v es).lookup j = if j = k then some v else es.lookup j := by
  induction es with
  | nil =>
    by_cases h : j = k
    · subst h; simp [put]
    · simp [put, List.lookup_cons, beq_false_of_ne h, h]
  | cons e es ih =>
    obtain ⟨i, w⟩ := e
    unfold put
    by_cases hi : i = k
    · subst hi
      by_cases h : j = i
      · subst h; simp
      · simp [List.lookup_cons, beq_false_of_ne h, h]
    · by_cases h : j = i
      · subst h; simp [hi]
      · rw [if_neg hi, List.lookup_cons, List.lookup_cons, ih, beq_false_of_ne h]

@[simp] lemma find_empty (k : κ) : (empty : UMap κ α).find k = none := rfl

lemma find_insert (m : UMap κ α) (k j : κ) (v : α) :
    (m.insert k v).find j = if j = k then some v else m.find j := lookup_put k j v m.entries

lemma find_eq_some_iff {m : UMap κ α} {k : κ} {v : α} :
    m.find k = some v ↔ (k, v) ∈ m.entries := by
  obtain ⟨es, hn⟩ := m
  unfold find
  induction es with
  | nil => simp
  | cons e es ih =>
    obtain ⟨i, w⟩ := e
    rw [List.map_cons, List.nodup_cons] at hn
    have ih := ih hn.2
    by_cases h : k = i
    · subst h
      have : (k, v) ∉ es := fun hm => hn.1 (List.mem_map.mpr ⟨(k, v), hm, rfl⟩)
      simp [this, eq_comm]
    · simp only [List.lookup_cons, beq_false_of_ne h, List.mem_cons, Prod.mk.injEq, h, false_and,
        false_or]
      exact ih

lemma mem_keys_iff {m : UMap κ α} {k : κ} : k ∈ m.keys ↔ ∃ v, m.find k = some v := by
  simp [find_eq_some_iff, keys]

lemma filter_key (m : UMap κ α) (k : κ) :
    m.entries.filter (fun e => e.1 = k) = (m.find k).toList.map fun v => (k, v) := by
  obtain ⟨es, hn⟩ := m
  unfold find
  induction es with
  | nil => simp
  | cons e es ih =>
    obtain ⟨i, w⟩ := e
    rw [List.map_cons, List.nodup_cons] at hn
    have ih := ih hn.2
    by_cases h : k = i
    · subst h
      have hnone : es.filter (fun e => e.1 = k) = [] :=
        List.filter_eq_nil_iff.mpr fun e he hk =>
          hn.1 (List.mem_map.mpr ⟨e, he, by simpa using hk⟩)
      simp [hnone]
    · rw [List.filter_cons_of_neg (by simpa using Ne.symm h), ih, List.lookup_cons,
        beq_false_of_ne h]

lemma values_of_perm {m : UMap κ α} {order : List (κ × α)} (h : order.Perm m.entries) (k : κ) :
    (order.filter fun e => e.1 = k).map Prod.snd = (m.find k).toList := by
  have hp := (h.filter fun e => e.1 = k).map Prod.snd
  rw [filter_key] at hp
  cases hf : m.find k with
  | none => simpa [hf] using hp
  | some v => simpa [hf] using hp

/-- `erase`. -/
def erase (m : UMap κ α) (k : κ) : UMap κ α where
  entries := m.entries.filter fun e => e.1 ≠ k
  nodup := m.nodup.sublist (List.filter_sublist.map _)

lemma mem_erase {m : UMap κ α} {k : κ} {e : κ × α} :
    e ∈ (m.erase k).entries ↔ e ∈ m.entries ∧ e.1 ≠ k := by simp [erase]

lemma find_erase (m : UMap κ α) {k j : κ} (h : j ≠ k) : (m.erase k).find j = m.find j := by
  refine Option.ext fun v => ?_
  rw [find_eq_some_iff, find_eq_some_iff, mem_erase]
  exact and_iff_left h

lemma mem_insert {m : UMap κ α} {k : κ} {v : α} {e : κ × α} (h : e ∈ (m.insert k v).entries) :
    e = (k, v) ∨ e ∈ m.entries := by
  obtain ⟨j, w⟩ := e
  have hf := find_eq_some_iff.mpr h
  rw [find_insert] at hf
  split at hf
  · rename_i hj
    simp_all
  · exact .inr (find_eq_some_iff.mp hf)

end UMap

end NgxMapping.Lib
