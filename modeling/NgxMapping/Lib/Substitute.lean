import NgxMapping.Lib.Search

/-!
Substitution of keys in a text.

`replaceWord` replaces one word from the left to the right, `substitute` replaces all keys in one
pass. The keys begin with a mark that stands nowhere else in them; when no value contains the
mark and every mark of the text begins a key, one pass for each key does the same.
-/

namespace NgxMapping.Lib

variable {α : Type} [DecidableEq α]

/-- The text with every leftmost occurrence of `w` replaced by `v`. -/
def replaceWord (w v s : List α) : List α :=
  (scan (word w) 0 s).flatMap fun
    | none => v
    | some c => [c]

/-- One pass for all keys; `k` counts the symbols of the current key still to be passed over. -/
def substituteFrom (kvs : List (List α × List α)) : ℕ → List α → List α
  | _, [] => []
  | k + 1, _ :: s => substituteFrom kvs k s
  | 0, c :: s =>
    match kvs.find? fun kv => kv.1 <+: c :: s with
    | some kv => kv.2 ++ substituteFrom kvs (kv.1.length - 1) s
    | none => c :: substituteFrom kvs 0 s

def substitute (kvs : List (List α × List α)) (s : List α) : List α := substituteFrom kvs 0 s

/-- Keys that begin with the mark `x`, none of them the beginning of another, and values without
the mark. -/
structure Marked (x : α) (kvs : List (List α × List α)) : Prop where
  key : ∀ kv ∈ kvs, ∃ body, kv.1 = x :: body ∧ x ∉ body
  value : ∀ kv ∈ kvs, x ∉ kv.2
  apart : kvs.Pairwise fun a b => ¬ a.1 <+: b.1 ∧ ¬ b.1 <+: a.1

/-- Every mark of the text begins a key. -/
def Covered (x : α) (keys : List (List α)) (s : List α) : Prop :=
  ∀ t ∈ s.tails, t.head? = some x → ∃ key ∈ keys, key <+: t

instance (x : α) (keys : List (List α)) (s : List α) : Decidable (Covered x keys s) :=
  inferInstanceAs (Decidable (∀ t ∈ s.tails, t.head? = some x → ∃ key ∈ keys, key <+: t))

section Covered

variable {α : Type} {x : α} {keys : List (List α)} {s : List α}

lemma Covered.suffix (h : Covered x keys s) {t : List α} (ht : t <:+ s) : Covered x keys t := by
  intro u hu
  rw [List.mem_tails] at hu
  exact h u ((List.mem_tails u s).mpr (hu.trans ht))

lemma Covered.cons (h : Covered x keys s) {c : α} (hc : c = x → ∃ key ∈ keys, key <+: c :: s) :
    Covered x keys (c :: s) := by
  intro t ht hx
  rw [List.tails_cons, List.mem_cons] at ht
  rcases ht with rfl | ht
  · exact hc (by simpa using hx)
  · exact h t ht hx

lemma Covered.append (h : Covered x keys s) {u : List α} (hu : x ∉ u) :
    Covered x keys (u ++ s) := by
  induction u with
  | nil => exact h
  | cons c u ih =>
    rw [List.mem_cons, not_or] at hu
    exact (ih hu.2).cons fun hc => absurd hc.symm hu.1

/-- A covered text is read symbol by symbol or key by key. -/
theorem Covered.induction {P : List α → Prop}
    (hkeys : ∀ key ∈ keys, ∃ body, key = x :: body)
    (nil : P []) (text : ∀ c s, c ≠ x → Covered x keys s → P s → P (c :: s))
    (key : ∀ k ∈ keys, ∀ s, Covered x keys s → P s → P (k ++ s)) (h : Covered x keys s) : P s := by
  induction hn : s.length using Nat.strong_induction_on generalizing s with
  | _ n ih =>
    cases s with
    | nil => exact nil
    | cons c s =>
      by_cases hc : c = x
      · obtain ⟨k, hk, t, ht⟩ := h (c :: s) (by simp) (by simp [hc])
        obtain ⟨body, rfl⟩ := hkeys k hk
        have hlen := congrArg List.length ht
        simp only [List.length_append, List.length_cons] at hlen hn
        have htail : Covered x keys t := h.suffix (ht ▸ List.suffix_append _ _)
        rw [← ht]
        exact key _ hk t htail (ih _ (by omega) htail rfl)
      · have htail : Covered x keys s := h.suffix (List.suffix_cons c s)
        exact text c s hc htail (ih _ (by simp [← hn]) htail rfl)

variable {kvs : List (List α × List α)}

lemma Marked.tail {kv : List α × List α} (h : Marked x (kv :: kvs)) : Marked x kvs where
  key := fun b hb => h.key b (by simp [hb])
  value := fun b hb => h.value b (by simp [hb])
  apart := (List.pairwise_cons.mp h.apart).2

lemma Marked.starts (h : Marked x kvs) : ∀ key ∈ kvs.map Prod.fst, ∃ body, key = x :: body := by
  intro key hkey
  obtain ⟨kv, hkv, rfl⟩ := List.mem_map.mp hkey
  obtain ⟨body, hb, -⟩ := h.key kv hkv
  exact ⟨body, hb⟩

end Covered

/-! ### One word -/

lemma replaceWord_nil (w v : List α) : replaceWord w v [] = [] := rfl

lemma replaceWord_append {x : α} {w u : List α} (v : List α) (hu : x ∉ u) (s : List α) :
    replaceWord (x :: w) v (u ++ s) = u ++ replaceWord (x :: w) v s := by
  have h0 : ∀ k < u.length, word (x :: w) (u.drop k ++ s) = 0 := by
    intro k hk
    refine word_eq_zero fun hp => ?_
    rw [List.drop_eq_getElem_cons hk, List.cons_append, List.cons_prefix_cons] at hp
    exact hu (hp.1 ▸ List.getElem_mem hk)
  unfold replaceWord
  rw [scan_append _ _ _ h0, List.flatMap_append, List.flatMap_map]
  simp only [List.flatMap_singleton']

lemma replaceWord_word {w : List α} (v : List α) (hw : w ≠ []) (s : List α) :
    replaceWord w v (w ++ s) = v ++ replaceWord w v s := by
  obtain ⟨k, hk⟩ : ∃ k, w.length = k + 1 :=
    Nat.exists_eq_succ_of_ne_zero (by simpa using hw)
  have hm : word w (w ++ s) = k + 1 := by rw [word, if_pos (List.prefix_append w s), hk]
  unfold replaceWord
  rw [scan_match _ (by simp [hw]) hm, ← hk, List.drop_left, List.flatMap_cons]

lemma replaceWord_next {w s : List α} {c : α} (v : List α) (h : ¬ w <+: c :: s) :
    replaceWord w v (c :: s) = c :: replaceWord w v s := by
  unfold replaceWord
  rw [scan_next _ (word_eq_zero h), List.flatMap_cons, List.singleton_append]

/-- A text is read symbol by symbol or word by word. -/
theorem replaceWord_induction {w : List α} {P : List α → Prop} (hw : w ≠ []) (nil : P [])
    (next : ∀ c s, ¬ w <+: c :: s → P s → P (c :: s)) (hit : ∀ s, P s → P (w ++ s))
    (s : List α) : P s := by
  induction hn : s.length using Nat.strong_induction_on generalizing s with
  | _ n ih =>
    cases s with
    | nil => exact nil
    | cons c s =>
      by_cases hp : w <+: c :: s
      · obtain ⟨t, ht⟩ := hp
        have hlen := congrArg List.length ht
        have hpos := List.length_pos_iff.mpr hw
        rw [List.length_append] at hlen
        rw [← ht]
        exact hit t (ih t.length (by omega) t rfl)
      · exact next c s hp (ih s.length (by simp [← hn]) s rfl)

lemma length_replaceWord {w v : List α} (hw : w ≠ []) (hv : w.length < v.length) (s : List α) :
    s.length ≤ (replaceWord w v s).length ∧
      (w <:+: s → s.length < (replaceWord w v s).length) := by
  refine replaceWord_induction (P := fun s => s.length ≤ (replaceWord w v s).length ∧
    (w <:+: s → s.length < (replaceWord w v s).length)) hw ?_ ?_ ?_ s
  · exact ⟨le_rfl, fun h => absurd (List.infix_nil.mp h) hw⟩
  · intro c s hp ih
    rw [replaceWord_next v hp, List.length_cons, List.length_cons]
    refine ⟨by omega, fun h => ?_⟩
    have hlt := ih.2 ((List.infix_cons_iff.mp h).resolve_left hp)
    omega
  · intro s ih
    rw [replaceWord_word v hw, List.length_append, List.length_append]
    exact ⟨by omega, fun _ => by omega⟩

lemma replaceWord_self {w s : List α} (v : List α) (h : ¬ w <:+: s) : replaceWord w v s = s := by
  unfold replaceWord
  rw [scan_self h, List.flatMap_map]
  exact List.flatMap_singleton' s

lemma replaceWord_ne_nil {w v s : List α} (hv : v ≠ []) (hs : s ≠ []) :
    replaceWord w v s ≠ [] := by
  cases s with
  | nil => exact absurd rfl hs
  | cons c s =>
    unfold replaceWord
    rw [scan]
    split <;> simp [hv]

lemma replaceWord_eq_self_iff {w v : List α} (hw : w ≠ []) (hv : w.length < v.length)
    (s : List α) : replaceWord w v s = s ↔ ¬ w <:+: s := by
  refine ⟨fun h hin => ?_, replaceWord_self v⟩
  have hlt := (length_replaceWord hw hv s).2 hin
  rw [h] at hlt
  omega

lemma infix_of_infix_append {α : Type} {y : α} {p u s : List α} (hy : y ∉ u)
    (h : y :: p <:+: u ++ s) : y :: p <:+: s := by
  obtain ⟨l, t, h⟩ := h
  rw [List.append_assoc] at h
  rcases List.append_eq_append_iff.mp h with ⟨a, ha, hb⟩ | ⟨a, ha, hb⟩
  · cases a with
    | nil => exact ⟨[], t, by simpa using hb⟩
    | cons z a =>
      obtain ⟨rfl, -⟩ := List.cons.inj hb
      exact absurd (ha ▸ List.mem_append_right l (by simp)) hy
  · exact ⟨a, t, by rw [hb, List.append_assoc]⟩

/-- A part that neither holds the first symbol of the word nor begins inside it stays. -/
lemma infix_replaceWord {x y : α} {w p s : List α} (v : List α) (hx : x ∉ y :: p)
    (hy : y ∉ x :: w) (h : y :: p <:+: s) : y :: p <:+: replaceWord (x :: w) v s := by
  refine replaceWord_induction (w := x :: w) (P := fun s => y :: p <:+: s →
    y :: p <:+: replaceWord (x :: w) v s) (by simp) ?_ ?_ ?_ s h
  · exact fun h => absurd (List.infix_nil.mp h) (by simp)
  · intro c s hp ih h
    rcases List.infix_cons_iff.mp h with ⟨t, ht⟩ | h
    · rw [← ht, replaceWord_append v hx]
      exact (List.prefix_append _ _).isInfix
    · rw [replaceWord_next v hp]
      exact (ih h).trans (List.suffix_cons c _).isInfix
  · intro s ih h
    rw [replaceWord_word v (by simp)]
    exact (ih (infix_of_infix_append hy h)).trans (List.suffix_append v _).isInfix

lemma prefix_of_prefix_replaceWord {w v p s : List α} (hw : w ≠ []) (hv : v ≠ [])
    (hd : ∀ c ∈ p, c ∉ v) (h : p <+: replaceWord w v s) : p <+: s := by
  refine replaceWord_induction (P := fun s => ∀ p : List α, (∀ c ∈ p, c ∉ v) →
    p <+: replaceWord w v s → p <+: s) hw ?_ ?_ ?_ s p hd h
  · exact fun p _ h => h
  · intro c s hno ih p hd h
    rw [replaceWord_next v hno] at h
    cases p with
    | nil => exact List.nil_prefix
    | cons y p =>
      rw [List.cons_prefix_cons] at h ⊢
      exact ⟨h.1, ih p (fun d hdm => hd d (by simp [hdm])) h.2⟩
  · intro s _ p hd h
    rw [replaceWord_word v hw] at h
    cases p with
    | nil => exact List.nil_prefix
    | cons y p =>
      obtain ⟨a, v, rfl⟩ := List.exists_cons_of_ne_nil hv
      rw [List.cons_append, List.cons_prefix_cons] at h
      exact absurd (by simp [h.1]) (hd y (by simp))

lemma infix_of_infix_replaceWord {y : α} {w v p s : List α} (hw : w ≠ []) (hv : v ≠ [])
    (hd : ∀ c ∈ y :: p, c ∉ v) (h : y :: p <:+: replaceWord w v s) : y :: p <:+: s := by
  refine replaceWord_induction (P := fun s => y :: p <:+: replaceWord w v s → y :: p <:+: s)
    hw ?_ ?_ ?_ s h
  · exact fun h => h
  · intro c s hno ih h
    rw [replaceWord_next v hno] at h
    rcases List.infix_cons_iff.mp h with h | h
    · rw [← replaceWord_next v hno] at h
      exact (prefix_of_prefix_replaceWord hw hv hd h).isInfix
    · exact (ih h).trans (List.suffix_cons c s).isInfix
  · intro s ih h
    rw [replaceWord_word v hw] at h
    have hin := infix_of_infix_append (hd y (by simp)) h
    exact (ih hin).trans (List.suffix_append w s).isInfix

lemma replaceWord_key {x : α} {w body : List α} (v s : List α) (hb : x ∉ body)
    (h : ¬ x :: w <+: x :: body ++ s) :
    replaceWord (x :: w) v (x :: body ++ s) = x :: body ++ replaceWord (x :: w) v s := by
  rw [List.cons_append] at h
  rw [List.cons_append, replaceWord_next v h, replaceWord_append v hb, List.cons_append]

/-! ### All keys -/

section

variable {x : α} {kvs : List (List α × List α)}

lemma substituteFrom_eq (k : ℕ) (s : List α) :
    substituteFrom kvs k s = substitute kvs (s.drop k) := by
  induction s generalizing k with
  | nil => cases k <;> simp [substituteFrom, substitute]
  | cons c s ih =>
    cases k with
    | zero => rfl
    | succ k => rw [substituteFrom, ih, List.drop_succ_cons]

lemma Marked.find (h : Marked x kvs) {kv : List α × List α} (hkv : kv ∈ kvs) (s : List α) :
    kvs.find? (fun kv' => kv'.1 <+: kv.1 ++ s) = some kv := by
  induction kvs with
  | nil => simp at hkv
  | cons a kvs ih =>
    have happart := (List.pairwise_cons.mp h.apart).1
    rcases List.mem_cons.mp hkv with rfl | hkv
    · rw [List.find?_cons_of_pos (by simp)]
    · rw [List.find?_cons_of_neg, ih h.tail hkv]
      intro hp
      have hp : a.1 <+: kv.1 ++ s := by simpa using hp
      rcases List.prefix_or_prefix_of_prefix hp (List.prefix_append kv.1 s) with hle | hle
      · exact (happart kv hkv).1 hle
      · exact (happart kv hkv).2 hle

lemma Marked.substitute_key (h : Marked x kvs) {kv : List α × List α} (hkv : kv ∈ kvs)
    (s : List α) : substitute kvs (kv.1 ++ s) = kv.2 ++ substitute kvs s := by
  have hf := h.find hkv s
  obtain ⟨body, hk, -⟩ := h.key kv hkv
  unfold substitute
  rw [hk, List.cons_append] at hf ⊢
  rw [substituteFrom, hf]
  dsimp only
  rw [substituteFrom_eq, hk, List.length_cons, Nat.add_sub_cancel, List.drop_left]
  rfl

lemma Marked.substitute_append (h : Marked x kvs) {u : List α} (hu : x ∉ u) (s : List α) :
    substitute kvs (u ++ s) = u ++ substitute kvs s := by
  induction u with
  | nil => rfl
  | cons c u ih =>
    rw [List.mem_cons, not_or] at hu
    have hf : kvs.find? (fun kv => kv.1 <+: c :: (u ++ s)) = none := by
      refine List.find?_eq_none.mpr fun kv hkv hp => ?_
      obtain ⟨body, hk, -⟩ := h.key kv hkv
      have hp : kv.1 <+: c :: (u ++ s) := by simpa using hp
      rw [hk, List.cons_prefix_cons] at hp
      exact hu.1 hp.1
    unfold substitute at ih ⊢
    rw [List.cons_append, substituteFrom, hf]
    dsimp only
    rw [ih hu.2, List.cons_append]

lemma Marked.not_mem_substitute (h : Marked x kvs) {s : List α}
    (hs : Covered x (kvs.map Prod.fst) s) : x ∉ substitute kvs s := by
  refine Covered.induction (P := fun s => x ∉ substitute kvs s) h.starts ?_ ?_ ?_ hs
  · exact List.not_mem_nil
  · intro c s hc _ ih
    have hone := h.substitute_append (u := [c]) (by simpa using Ne.symm hc) s
    rw [List.singleton_append] at hone
    rw [hone, List.singleton_append, List.mem_cons, not_or]
    exact ⟨Ne.symm hc, ih⟩
  · intro k hk s _ ih
    obtain ⟨kv, hkv, rfl⟩ := List.mem_map.mp hk
    rw [h.substitute_key hkv, List.mem_append, not_or]
    exact ⟨h.value kv hkv, ih⟩

/-- A pass for the first key leaves a text that the others cover, with the same result. -/
lemma Marked.substitute_replaceWord {kv : List α × List α} (h : Marked x (kv :: kvs)) {s : List α}
    (hs : Covered x ((kv :: kvs).map Prod.fst) s) :
    Covered x (kvs.map Prod.fst) (replaceWord kv.1 kv.2 s) ∧
      substitute kvs (replaceWord kv.1 kv.2 s) = substitute (kv :: kvs) s := by
  obtain ⟨w, hw, -⟩ := h.key kv (by simp)
  have hv := h.value kv (by simp)
  refine Covered.induction (P := fun s => Covered x (kvs.map Prod.fst) (replaceWord kv.1 kv.2 s) ∧
    substitute kvs (replaceWord kv.1 kv.2 s) = substitute (kv :: kvs) s) h.starts ?_ ?_ ?_ hs
  · exact ⟨by simp [Covered, replaceWord_nil], rfl⟩
  · intro c s hc _ ih
    have hu : x ∉ [c] := by simpa using Ne.symm hc
    have h1 := replaceWord_append (w := w) kv.2 hu s
    rw [← hw] at h1
    rw [← List.singleton_append, h1]
    refine ⟨ih.1.append hu, ?_⟩
    rw [h.tail.substitute_append hu, h.substitute_append hu, ih.2]
  · intro k hk s _ ih
    rw [List.map_cons, List.mem_cons] at hk
    rcases hk with rfl | hk
    · -- the key of the pass
      rw [replaceWord_word kv.2 (by simp [hw]), h.substitute_key (by simp)]
      exact ⟨ih.1.append hv, by rw [h.tail.substitute_append hv, ih.2]⟩
    · obtain ⟨b, hb, rfl⟩ := List.mem_map.mp hk
      obtain ⟨body, hbody, hx⟩ := h.key b (by simp [hb])
      have hapart := (List.pairwise_cons.mp h.apart).1 b hb
      have hno : ¬ kv.1 <+: b.1 ++ s := by
        intro hp
        rcases List.prefix_or_prefix_of_prefix hp (List.prefix_append b.1 s) with hle | hle
        · exact hapart.1 hle
        · exact hapart.2 hle
      have hkey : replaceWord kv.1 kv.2 (b.1 ++ s) = b.1 ++ replaceWord kv.1 kv.2 s := by
        rw [hw, hbody] at hno ⊢
        exact replaceWord_key kv.2 s hx hno
      rw [hkey, h.tail.substitute_key hb, h.substitute_key (by simp [hb]), ih.2]
      refine ⟨?_, rfl⟩
      have hcov := ih.1.append hx
      rw [hbody, List.cons_append]
      refine hcov.cons fun _ => ⟨b.1, List.mem_map.mpr ⟨b, hb, rfl⟩, ?_⟩
      rw [hbody, ← List.cons_append]
      exact List.prefix_append _ _

/-- **One pass for each key is the substitution of all keys at once.** -/
theorem Marked.foldl_replaceWord (h : Marked x kvs) {s : List α}
    (hs : Covered x (kvs.map Prod.fst) s) :
    kvs.foldl (fun s kv => replaceWord kv.1 kv.2 s) s = substitute kvs s := by
  induction kvs generalizing s with
  | nil =>
    have hx : x ∉ s := by
      intro hx
      obtain ⟨u, t, rfl⟩ := List.append_of_mem hx
      obtain ⟨key, hkey, -⟩ := hs (x :: t) (by simp) rfl
      simp at hkey
    have hself := h.substitute_append hx []
    rw [List.append_nil] at hself
    rw [List.foldl_nil, hself]
    exact (List.append_nil s).symm
  | cons kv kvs ih =>
    obtain ⟨hcov, heq⟩ := h.substitute_replaceWord hs
    rw [List.foldl_cons, ih h.tail hcov, heq]

end

end NgxMapping.Lib
