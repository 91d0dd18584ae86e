import NgxMapping.Lib.Bytes

/-!
Substring search.

`find` is `std::string::find`. `scan` reads a text from the left and cuts out the leftmost
non-overlapping matches of a matcher, which is what a global regular expression iterator, a
global replacement and a split at a separator all do.
-/

namespace NgxMapping.Lib

variable {α : Type} [DecidableEq α]

/-- The first match in `s`, which starts at position `pos` of the whole text. -/
def findFrom (needle : List α) (pos : ℕ) : List α → Option ℕ
  | [] => if needle = [] then some pos else none
  | c :: s => if needle <+: c :: s then some pos else findFrom needle (pos + 1) s

/-- `text.find(needle, from)`. -/
def find (needle text : List α) (start : ℕ) : Option ℕ :=
  if start ≤ text.length then findFrom needle start (text.drop start) else none

lemma findFrom_some {needle s : List α} {pos q : ℕ} (h : findFrom needle pos s = some q) :
    ∃ k, q = pos + k ∧ needle <+: s.drop k ∧ ∀ j < k, ¬ needle <+: s.drop j := by
  induction s generalizing pos with
  | nil =>
    simp only [findFrom] at h
    split at h
    · rename_i hn
      exact ⟨0, by simpa using h.symm, by simp [hn], by simp⟩
    · simp at h
  | cons c s ih =>
    simp only [findFrom] at h
    split at h
    · rename_i hp
      exact ⟨0, by simpa using h.symm, by simpa using hp, by simp⟩
    · rename_i hp
      obtain ⟨k, rfl, hk, hlt⟩ := ih h
      refine ⟨k + 1, by omega, by simpa using hk, fun j hj => ?_⟩
      cases j with
      | zero => simpa using hp
      | succ j => simpa using hlt j (by omega)

lemma findFrom_none {needle s : List α} {pos : ℕ} (h : findFrom needle pos s = none) :
    ∀ k, ¬ needle <+: s.drop k := by
  induction s generalizing pos with
  | nil =>
    simp only [findFrom] at h
    split at h
    · simp at h
    · rename_i hn
      simpa using hn
  | cons c s ih =>
    simp only [findFrom] at h
    split at h
    · simp at h
    · rename_i hp
      intro k
      cases k with
      | zero => simpa using hp
      | succ k => simpa using ih h k

lemma find_some {needle text : List α} {start q : ℕ} (h : find needle text start = some q) :
    start ≤ q ∧ needle <+: text.drop q ∧ ∀ r, start ≤ r → r < q → ¬ needle <+: text.drop r := by
  unfold find at h
  split at h
  · obtain ⟨k, rfl, hk, hlt⟩ := findFrom_some h
    refine ⟨by omega, by simpa [List.drop_drop] using hk, fun r h1 h2 => ?_⟩
    have := hlt (r - start) (by omega)
    rwa [List.drop_drop, show start + (r - start) = r by omega] at this
  · simp at h

lemma find_none {needle text : List α} {start : ℕ} (hn : needle ≠ [])
    (h : find needle text start = none) : ∀ r, start ≤ r → ¬ needle <+: text.drop r := by
  intro r hr
  unfold find at h
  split at h
  · have := findFrom_none h (r - start)
    rwa [List.drop_drop, show start + (r - start) = r by omega] at this
  · rw [List.drop_eq_nil_of_le (by omega)]
    simpa using hn

/-! ### Leftmost matches -/

/-- The text with its leftmost non-overlapping matches replaced by `none`. `m s` is the
length of the match at the head of `s`, zero for no match; the first argument counts the
bytes of the current match still to be passed over. -/
def scan {α : Type} (m : List α → ℕ) : ℕ → List α → List (Option α)
  | _, [] => []
  | k + 1, _ :: s => scan m k s
  | 0, c :: s =>
    match m (c :: s) with
    | 0 => some c :: scan m 0 s
    | k + 1 => none :: scan m k s

def word (w : List α) (s : List α) : ℕ := if w <+: s then w.length else 0

lemma scan_skip {α : Type} (m : List α → ℕ) (k : ℕ) (s : List α) :
    scan m k s = scan m 0 (s.drop k) := by
  induction s generalizing k with
  | nil => cases k <;> simp [scan]
  | cons c s ih =>
    cases k with
    | zero => simp
    | succ k => rw [scan, ih, List.drop_succ_cons]

lemma scan_match {α : Type} (m : List α → ℕ) {k : ℕ} {s : List α} (hs : s ≠ [])
    (h : m s = k + 1) : scan m 0 s = none :: scan m 0 (s.drop (k + 1)) := by
  cases s with
  | nil => exact absurd rfl hs
  | cons c s => rw [scan, h, List.drop_succ_cons]; simp only [scan_skip m k s]

lemma scan_next {α : Type} (m : List α → ℕ) {c : α} {s : List α} (h : m (c :: s) = 0) :
    scan m 0 (c :: s) = some c :: scan m 0 s := by
  rw [scan, h]

lemma scan_append {α : Type} (m : List α → ℕ) (u s : List α)
    (h : ∀ k < u.length, m (u.drop k ++ s) = 0) :
    scan m 0 (u ++ s) = u.map some ++ scan m 0 s := by
  induction u with
  | nil => rfl
  | cons c u ih =>
    have h0 : m (c :: (u ++ s)) = 0 := by simpa using h 0 (by simp)
    rw [List.cons_append, scan_next m h0,
      ih fun k hk => by simpa using h (k + 1) (by simpa using hk)]
    rfl

lemma scan_separator {α : Type} (m : List α → ℕ) (x : α) (u v : List α) (h0 : m [] = 0)
    (h : ∀ t, m (t ++ x :: v) = m t ∧ m t ≤ t.length) :
    scan m 0 (u ++ x :: v) = scan m 0 u ++ some x :: scan m 0 v := by
  induction hn : u.length using Nat.strong_induction_on generalizing u with
  | _ n ih =>
    cases u with
    | nil =>
      have hx : m (x :: v) = 0 := (h []).1.trans h0
      rw [List.nil_append, scan_next m hx]
      rfl
    | cons c u =>
      obtain ⟨heq, hle⟩ := h (c :: u)
      cases hm : m (c :: u) with
      | zero =>
        rw [hm] at heq
        rw [List.cons_append] at heq ⊢
        rw [scan_next m heq, scan_next m hm, ih u.length (by simp [← hn]) u rfl, List.cons_append]
      | succ k =>
        rw [hm] at heq hle
        rw [scan_match m (by simp) heq, scan_match m (by simp) hm,
          List.drop_append_of_le_length hle, ih _ (by simp [← hn]) ((c :: u).drop (k + 1)) rfl,
          List.cons_append]

lemma word_eq_zero {w s : List α} (h : ¬ w <+: s) : word w s = 0 := if_neg h

lemma scan_self {w u : List α} (hu : ¬ w <:+: u) : scan (word w) 0 u = u.map some := by
  have h0 : ∀ k < u.length, word w (u.drop k ++ []) = 0 := by
    intro k _
    refine word_eq_zero fun hp => hu ?_
    rw [List.append_nil] at hp
    exact hp.isInfix.trans (List.drop_suffix k u).isInfix
  have h := scan_append (word w) u [] h0
  rwa [List.append_nil, scan, List.append_nil] at h

/-! ### Splitting at a separator -/

/-- The runs of text between the matches. -/
def cut {α : Type} : List (Option α) → List (List α)
  | [] => [[]]
  | none :: t => [] :: cut t
  | some c :: t =>
    match cut t with
    | [] => [[c]]
    | p :: ps => (c :: p) :: ps

/-- The text split at every leftmost match of a separator. -/
def explode (sep s : List α) : List (List α) := cut (scan (word sep) 0 s)

lemma cut_ne_nil {α : Type} (t : List (Option α)) : cut t ≠ [] := by
  rcases t with _ | ⟨_ | c, t⟩
  · simp [cut]
  · simp [cut]
  · rw [cut]
    split <;> simp

lemma cut_map_append {α : Type} (u : List α) (t : List (Option α)) :
    ∃ p ps, cut t = p :: ps ∧ cut (u.map some ++ t) = (u ++ p) :: ps := by
  obtain ⟨p, ps, h⟩ := List.exists_cons_of_ne_nil (cut_ne_nil t)
  refine ⟨p, ps, h, ?_⟩
  induction u with
  | nil => exact h
  | cons c u ih => rw [List.map_cons, List.cons_append, cut, ih]; rfl

lemma cut_head_prefix (w s : List α) {p : List α} {ps : List (List α)}
    (h : cut (scan (word w) 0 s) = p :: ps) : p <+: s := by
  induction s generalizing p ps with
  | nil =>
    simp only [scan, cut, List.cons.injEq] at h
    simp [← h.1]
  | cons c s ih =>
    rw [scan] at h
    split at h
    · obtain ⟨q, qs, hq⟩ := List.exists_cons_of_ne_nil (cut_ne_nil (scan (word w) 0 s))
      simp only [cut, hq, List.cons.injEq] at h
      rw [← h.1]
      exact List.cons_prefix_cons.mpr ⟨rfl, ih hq⟩
    · simp only [cut, List.cons.injEq] at h
      simp [← h.1]

lemma not_infix_of_mem_explode {sep s p : List α} (hsep : sep ≠ []) (hp : p ∈ explode sep s) :
    ¬ sep <:+: p := by
  have key : ∀ (s : List α) (k : ℕ), ∀ p ∈ cut (scan (word sep) k s), ¬ sep <:+: p := by
    intro s
    induction s with
    | nil => intro k p hp; cases k <;> simp_all [scan, cut]
    | cons c s ih =>
      intro k p hp
      cases k with
      | succ k => exact ih k p (by rwa [scan] at hp)
      | zero =>
        rw [scan] at hp
        split at hp
        · rename_i h0
          obtain ⟨q, qs, hq⟩ := List.exists_cons_of_ne_nil (cut_ne_nil (scan (word sep) 0 s))
          rw [cut, hq] at hp
          rcases List.mem_cons.mp hp with rfl | hp
          · intro hi
            rcases List.infix_cons_iff.mp hi with hi | hi
            · -- a separator at the head of the part would have been a match
              have hpre := hi.trans (List.cons_prefix_cons.mpr ⟨rfl, cut_head_prefix sep s hq⟩)
              rw [word, if_pos hpre] at h0
              exact hsep (List.length_eq_zero_iff.mp h0)
            · exact ih 0 q (by simp [hq]) hi
          · exact ih 0 p (by simp [hq, hp])
        · rename_i j _
          rcases List.mem_cons.mp hp with rfl | hp
          · simpa using hsep
          · exact ih j p hp
  exact key s 0 p hp

/-- A separator of two different bytes does not reach from a part into the separator
behind it. -/
lemma explode_append {x y : α} (hxy : x ≠ y) {u : List α} (hu : ¬ [x, y] <:+: u) (s : List α) :
    explode [x, y] (u ++ [x, y] ++ s) = u :: explode [x, y] s := by
  have h0 : ∀ k < u.length, word [x, y] (u.drop k ++ ([x, y] ++ s)) = 0 := by
    intro k hk
    refine word_eq_zero fun hp => ?_
    rw [List.drop_eq_getElem_cons hk] at hp
    rcases Nat.lt_or_ge (k + 1) u.length with h1 | h1
    · rw [List.drop_eq_getElem_cons h1] at hp
      simp only [List.cons_append, List.cons_prefix_cons, List.nil_prefix, and_true] at hp
      refine hu ⟨u.take k, u.drop (k + 2), ?_⟩
      rw [hp.1, hp.2, List.append_assoc, List.cons_append, List.cons_append, List.nil_append,
        ← List.drop_eq_getElem_cons h1, ← List.drop_eq_getElem_cons hk, List.take_append_drop]
    · rw [List.drop_eq_nil_of_le h1] at hp
      simp only [List.cons_append, List.nil_append, List.cons_prefix_cons, List.nil_prefix,
        and_true] at hp
      exact hxy hp.2.symm
  have hm : word [x, y] ([x, y] ++ s) = 1 + 1 := by simp [word]
  rw [explode, List.append_assoc, scan_append _ _ _ h0, scan_match _ (by simp) hm]
  obtain ⟨p, ps, h1, h2⟩ := cut_map_append u (none :: scan (word [x, y]) 0 s)
  rw [cut, List.cons.injEq] at h1
  simpa [explode, ← h1.1, ← h1.2] using h2

lemma explode_self {sep u : List α} (hu : ¬ sep <:+: u) : explode sep u = [u] := by
  obtain ⟨p, ps, h1, h2⟩ := cut_map_append u ([] : List (Option α))
  rw [cut, List.cons.injEq] at h1
  rw [List.append_nil] at h2
  rw [explode, scan_self hu, h2, ← h1.1, ← h1.2, List.append_nil]

/-! ### Separators -/

lemma idxOf?_split {s : List α} {x : α} {i : ℕ} (h : s.idxOf? x = some i) :
    s.takeWhile (· ≠ x) = s.take i ∧ s.dropWhile (· ≠ x) = x :: s.drop (i + 1) ∧ i < s.length := by
  induction s generalizing i with
  | nil => simp at h
  | cons c s ih =>
    rw [List.idxOf?_cons] at h
    by_cases hc : c = x
    · subst hc
      simp only [beq_self_eq_true, if_true, Option.some.injEq] at h
      subst h
      simp
    · simp only [beq_iff_eq, hc, if_false, Option.map_eq_some_iff] at h
      obtain ⟨j, hj, rfl⟩ := h
      obtain ⟨h1, h2, h3⟩ := ih hj
      exact ⟨by simpa [hc] using h1, by simpa [hc] using h2, by simpa using h3⟩

lemma append_cons_inj {α : Type} {a b c d : List α} {x : α} (ha : x ∉ a) (hb : x ∉ b)
    (h : a ++ x :: c = b ++ x :: d) : a = b ∧ c = d := by
  induction a generalizing b with
  | nil =>
    rcases b with _ | ⟨y, b⟩
    · exact ⟨rfl, (List.cons.inj h).2⟩
    · exact absurd (by simp [(List.cons.inj h).1]) hb
  | cons y a ih =>
    rcases b with _ | ⟨z, b⟩
    · exact absurd (by simp [(List.cons.inj h).1]) ha
    · rw [List.cons_append, List.cons_append, List.cons.injEq] at h
      rw [List.mem_cons, not_or] at ha hb
      obtain ⟨rfl, hc⟩ := ih ha.2 hb.2 h.2
      exact ⟨by rw [h.1], hc⟩

lemma infix_append_cons {α : Type} {p a b : List α} {x : α} (hx : x ∉ p) :
    p <:+: a ++ x :: b ↔ p <:+: a ∨ p <:+: b := by
  constructor
  · rintro ⟨u, v, h⟩
    rcases List.append_eq_append_iff.mp h with ⟨a', ha, -⟩ | ⟨c, hc, hv⟩
    · exact .inl ⟨u, a', ha.symm⟩
    · rcases List.append_eq_append_iff.mp hc with ⟨a', ha, hp⟩ | ⟨d, hd, rfl⟩
      · rcases c with _ | ⟨y, c⟩
        · exact .inl ⟨u, [], by simp [ha, hp]⟩
        · obtain ⟨rfl, -⟩ := List.cons.inj hv
          exact absurd (by simp [hp]) hx
      · rcases d with _ | ⟨y, d⟩
        · rcases p with _ | ⟨y, p⟩
          · exact .inl List.nil_infix
          · obtain ⟨rfl, -⟩ := List.cons.inj hv
            exact absurd (by simp) hx
        · obtain ⟨-, hb⟩ := List.cons.inj hv
          exact .inr ⟨d, v, hb.symm⟩
  · rintro (h | h)
    · exact h.trans (List.prefix_append a _).isInfix
    · exact h.trans ((List.suffix_cons x b).trans (List.suffix_append a _)).isInfix

lemma infix_intercalate {α : Type} {p : List α} {x : α} (hp : p ≠ []) (hx : x ∉ p)
    (ts : List (List α)) : p <:+: [x].intercalate ts ↔ ∃ t ∈ ts, p <:+: t := by
  induction ts with
  | nil => simp [List.intercalate, hp]
  | cons t ts ih =>
    cases ts with
    | nil => simp [List.intercalate]
    | cons u ts =>
      have h : [x].intercalate (t :: u :: ts) = t ++ x :: [x].intercalate (u :: ts) := by
        simp [List.intercalate]
      rw [h, infix_append_cons hx, ih, List.exists_mem_cons_iff (a := t)]

end NgxMapping.Lib
