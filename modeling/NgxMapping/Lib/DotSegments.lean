import Mathlib.Tactic

/-!
Paths with dot segments.

A path is segments with a separator before each. A segment that another one follows is a step in
the tree: an empty one or a dot stays where it is, two dots go up, any other goes down. The steps
are taken one after another from the root. What is left of them is clean, and there is no way
above the root.
-/

namespace NgxMapping.Lib

open scoped List

section DotSegments

variable {α : Type} [DecidableEq α] (sep dot : α)

/-- The text of a path: the steps that have been taken, and the last segment. -/
def render (segs : List (List α)) (last : List α) : List α := segs.flatMap (sep :: ·) ++ sep :: last

/-- One step; `none` is a step above the root. -/
def enter (segs : List (List α)) (seg : List α) : Option (List (List α)) :=
  if seg = [] ∨ seg = [dot] then some segs
  else if seg = [dot, dot] then if segs = [] then none else some segs.dropLast
  else some (segs ++ [seg])

/-- The segments that another one follows. -/
def stepsOf (s : List α) : List (List α) := (s.splitOn sep).dropLast

def lastOf (s : List α) : List α := (s.splitOn sep).getLastD []

def resolve (steps : List (List α)) : Option (List (List α)) := steps.foldlM (enter dot) []

/-- What a step down is called. -/
structure Proper (seg : List α) : Prop where
  ne_nil : seg ≠ []
  ne_dot : seg ≠ [dot]
  ne_up : seg ≠ [dot, dot]
  sep : sep ∉ seg

def height (seg : List α) : ℤ :=
  if seg = [] ∨ seg = [dot] then 0 else if seg = [dot, dot] then -1 else 1

/-- How far below the root the steps lead. -/
def level (steps : List (List α)) : ℤ := (steps.map (height dot)).sum

variable {sep dot}

lemma enter_down {segs : List (List α)} {seg : List α} (h : Proper sep dot seg) :
    enter dot segs seg = some (segs ++ [seg]) := by
  rw [enter, if_neg (by simp [h.ne_nil, h.ne_dot]), if_neg h.ne_up]

omit [DecidableEq α] in
lemma proper_of_ne {seg : List α} (h1 : ¬ (seg = [] ∨ seg = [dot])) (h2 : seg ≠ [dot, dot])
    (h3 : sep ∉ seg) : Proper sep dot seg :=
  ⟨fun h => h1 (.inl h), fun h => h1 (.inr h), h2, h3⟩

lemma enter_proper {segs segs' : List (List α)} {seg : List α}
    (h : ∀ t ∈ segs, Proper sep dot t) (hs : sep ∉ seg) (he : enter dot segs seg = some segs') :
    ∀ t ∈ segs', Proper sep dot t := by
  unfold enter at he
  split at he
  · rwa [← Option.some.inj he]
  rename_i h1
  split at he
  · split at he
    · cases he
    · rw [← Option.some.inj he]
      exact fun t ht => h t (List.dropLast_subset _ ht)
  · rename_i h2
    rw [← Option.some.inj he]
    intro t ht
    rcases List.mem_append.mp ht with ht | ht
    · exact h t ht
    · rw [List.mem_singleton.mp ht]
      exact proper_of_ne h1 h2 hs

lemma enter_length {segs : List (List α)} {seg : List α} :
    (enter dot segs seg = none ↔ (segs.length : ℤ) + height dot seg < 0) ∧
      ∀ segs', enter dot segs seg = some segs' →
        (segs'.length : ℤ) = segs.length + height dot seg := by
  unfold enter height
  split
  · refine ⟨by simp, fun segs' h => ?_⟩
    rw [← Option.some.inj h, add_zero]
  split
  · split
    · rename_i h
      subst h
      simp
    · rename_i h
      have hpos := List.length_pos_iff.mpr h
      refine ⟨by simp; omega, fun segs' h' => ?_⟩
      rw [← Option.some.inj h', List.length_dropLast]
      omega
  · refine ⟨by simp; omega, fun segs' h => ?_⟩
    rw [← Option.some.inj h, List.length_append, List.length_singleton]
    push_cast
    rfl

lemma enter_sublist {segs segs' : List (List α)} {seg : List α}
    (he : enter dot segs seg = some segs') : segs' <+ segs ++ [seg] := by
  unfold enter at he
  split at he
  · rw [← Option.some.inj he]
    exact List.sublist_append_left _ _
  split at he
  · split at he
    · cases he
    · rw [← Option.some.inj he]
      exact (List.dropLast_sublist _).trans (List.sublist_append_left _ _)
  · rw [← Option.some.inj he]

lemma mem_splitOn_sep {s seg : List α} (h : seg ∈ s.splitOn sep) : sep ∉ seg := by
  induction s generalizing seg with
  | nil =>
    rw [List.splitOn_nil, List.mem_singleton] at h
    simp [h]
  | cons c s ih =>
    rw [List.splitOn, List.splitOnP_cons_eq_if_modifyHead] at h
    split at h
    · rcases List.mem_cons.mp h with rfl | h
      · exact List.not_mem_nil
      · exact ih h
    · rename_i hc
      obtain ⟨t, ts, hts⟩ := List.exists_cons_of_ne_nil (List.splitOn_ne_nil sep s)
      rw [List.splitOn] at hts
      rw [hts, List.modifyHead_cons] at h
      have hmem : ∀ u ∈ t :: ts, sep ∉ u := fun u hu => ih (by rw [List.splitOn, hts]; exact hu)
      rcases List.mem_cons.mp h with rfl | h
      · intro hs
        rcases List.mem_cons.mp hs with rfl | hs
        · simp at hc
        · exact hmem t List.mem_cons_self hs
      · exact hmem seg (List.mem_cons_of_mem _ h)

/-! ### From the root -/

lemma foldlM_enter_proper {segs segs' steps : List (List α)} (h : ∀ t ∈ segs, Proper sep dot t)
    (hs : ∀ t ∈ steps, sep ∉ t) (he : steps.foldlM (enter dot) segs = some segs') :
    ∀ t ∈ segs', Proper sep dot t := by
  induction steps generalizing segs with
  | nil => rwa [← Option.some.inj he]
  | cons seg steps ih =>
    rw [List.foldlM_cons] at he
    obtain ⟨mid, hmid, he⟩ := Option.bind_eq_some_iff.mp he
    exact ih (enter_proper h (hs seg List.mem_cons_self) hmid)
      (fun t ht => hs t (List.mem_cons_of_mem _ ht)) he

lemma foldlM_enter_sublist {segs segs' steps : List (List α)}
    (he : steps.foldlM (enter dot) segs = some segs') : segs' <+ segs ++ steps := by
  induction steps generalizing segs with
  | nil =>
    rw [← Option.some.inj he, List.append_nil]
  | cons seg steps ih =>
    rw [List.foldlM_cons] at he
    obtain ⟨mid, hmid, he⟩ := Option.bind_eq_some_iff.mp he
    have := (ih he).trans ((enter_sublist hmid).append_right steps)
    rwa [List.append_assoc] at this

lemma level_cons (seg : List α) (steps : List (List α)) :
    level dot (seg :: steps) = height dot seg + level dot steps := by
  rw [level, List.map_cons, List.sum_cons]
  rfl

lemma foldlM_enter_length {segs segs' steps : List (List α)}
    (he : steps.foldlM (enter dot) segs = some segs') :
    (segs'.length : ℤ) = segs.length + level dot steps := by
  induction steps generalizing segs with
  | nil =>
    rw [← Option.some.inj he]
    simp [level]
  | cons seg steps ih =>
    rw [List.foldlM_cons] at he
    obtain ⟨mid, hmid, he⟩ := Option.bind_eq_some_iff.mp he
    rw [ih he, enter_length.2 mid hmid, level_cons, add_assoc]

/-- There is a way from `segs` on unless some of the steps lead above the root. -/
lemma foldlM_enter_isSome {segs steps : List (List α)} :
    (steps.foldlM (enter dot) segs).isSome ↔
      ∀ l, l <+: steps → 0 ≤ (segs.length : ℤ) + level dot l := by
  induction steps generalizing segs with
  | nil =>
    refine iff_of_true rfl fun l hl => ?_
    rw [List.prefix_nil.mp hl]
    simp [level]
  | cons seg steps ih =>
    rw [List.foldlM_cons]
    cases he : enter dot segs seg with
    | none =>
      refine iff_of_false (by simp) fun h => ?_
      have hneg := enter_length.1.mp he
      have := h [seg] ((List.prefix_cons_inj seg).mpr List.nil_prefix)
      rw [level_cons] at this
      simp only [level, List.map_nil, List.sum_nil] at this
      omega
    | some mid =>
      have hlen := enter_length.2 mid he
      rw [Option.bind_eq_bind, Option.bind_some, ih]
      constructor
      · intro h l hl
        cases l with
        | nil => simp [level]
        | cons c l =>
          obtain ⟨hc, hl'⟩ := List.cons_prefix_cons.mp hl
          rw [hc, level_cons, ← add_assoc, ← hlen]
          exact h l hl'
      · intro h l hl
        have := h (seg :: l) ((List.prefix_cons_inj seg).mpr hl)
        rwa [level_cons, ← add_assoc, ← hlen] at this

/-- **Paths are resolved** exactly if no steps from the root lead above it. -/
theorem resolve_isSome {steps : List (List α)} :
    (resolve dot steps).isSome ↔ ∀ l, l <+: steps → 0 ≤ level dot l := by
  rw [resolve, foldlM_enter_isSome]
  simp

/-- Where a path leads is said by some of its own segments, which are all steps down. -/
theorem resolve_proper {steps segs : List (List α)} (hs : ∀ t ∈ steps, sep ∉ t)
    (he : resolve dot steps = some segs) :
    (∀ t ∈ segs, Proper sep dot t) ∧ segs <+ steps ∧ (segs.length : ℤ) = level dot steps := by
  refine ⟨foldlM_enter_proper (by simp) hs he, ?_, ?_⟩
  · exact foldlM_enter_sublist he
  · rw [foldlM_enter_length he, List.length_nil, Nat.cast_zero, zero_add]

/-! ### One character after another -/

variable (sep dot)

/-- The steps that have been taken, the segment that has begun, and the rest of the text. -/
def walk : List (List α) → List α → List α → Option (List (List α) × List α)
  | segs, seg, [] => some (segs, seg)
  | segs, seg, c :: s =>
    if c = sep then (enter dot segs seg).bind fun segs => walk segs [] s
    else walk segs (seg ++ [c]) s

variable {sep dot}

lemma walk_from (segs : List (List α)) (seg s : List α) :
    walk sep dot segs seg s =
      (((s.splitOn sep).modifyHead (seg ++ ·)).dropLast.foldlM (enter dot) segs).map fun segs' =>
        (segs', ((s.splitOn sep).modifyHead (seg ++ ·)).getLastD []) := by
  induction s generalizing segs seg with
  | nil => simp [walk]
  | cons c s ih =>
    obtain ⟨t, ts, hts⟩ := List.exists_cons_of_ne_nil (List.splitOn_ne_nil sep s)
    have hcons : (c :: s).splitOn sep =
        if c = sep then [] :: s.splitOn sep else (s.splitOn sep).modifyHead (c :: ·) := by
      rw [List.splitOn, List.splitOnP_cons_eq_if_modifyHead]
      simp only [beq_iff_eq]
      rfl
    rw [walk, hcons]
    by_cases hc : c = sep
    · rw [if_pos hc, if_pos hc, hts, List.modifyHead_cons, List.append_nil, List.dropLast_cons_cons,
        List.foldlM_cons, Option.bind_eq_bind]
      cases enter dot segs seg with
      | none => rfl
      | some mid =>
        rw [Option.bind_some, Option.bind_some, ih, hts, List.modifyHead_cons, List.nil_append]
        simp
    · rw [if_neg hc, if_neg hc, ih, hts]
      simp

/-- The walk resolves the path behind the separator it starts with. -/
theorem walk_eq (s : List α) :
    walk sep dot [] [] s =
      (resolve dot (stepsOf sep s)).map fun segs => (segs, lastOf sep s) := by
  rw [walk_from, resolve, stepsOf, lastOf]
  obtain ⟨t, ts, hts⟩ := List.exists_cons_of_ne_nil (List.splitOn_ne_nil sep s)
  rw [hts, List.modifyHead_cons, List.nil_append]

end DotSegments

end NgxMapping.Lib
