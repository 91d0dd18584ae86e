import NgxMapping.MappingModel

/-!
What `checkVaildExpire` selects.
-/

namespace NgxMapping.Selection

open Lib MappingModel

/-- The weight of a partner, zero when it has none. -/
def weightOf (weight : UMap ℤ ℤ) (pid : ℤ) : ℤ := (weight.find pid).getD 0

/-- A partner of `expires` that the loop lets through. -/
def Eligible (now : ℕ) (header : Bytes) (ext : ℤ) (expires : UMap ℤ ℤ) (pid : ℤ) : Prop :=
  ∃ expire, expires.find pid = some expire ∧ eligible now header ext pid expire = true

lemma mem_winnersOf_iff {now : ℕ} {header : Bytes} {ext : ℤ} {weight expires : UMap ℤ ℤ}
    {w : ℤ × ℤ} :
    w ∈ (winnersOf now header ext weight expires).entries ↔
      Eligible now header ext expires w.1 ∧ w.2 = weightOf weight w.1 := by
  have key : ∀ (es : List (ℤ × ℤ)) (acc : UMap ℤ ℤ) (pid v : ℤ),
      (es.foldl (fun winners e => if eligible now header ext e.1 e.2 then
          winners.insert e.1 ((weight.find e.1).getD 0) else winners) acc).find pid = some v ↔
        ((∃ e ∈ es, e.1 = pid ∧ eligible now header ext e.1 e.2 = true) ∧
            v = weightOf weight pid) ∨
          ((¬ ∃ e ∈ es, e.1 = pid ∧ eligible now header ext e.1 e.2 = true) ∧
            acc.find pid = some v) := by
    intro es
    induction es with
    | nil => simp
    | cons e es ih =>
      intro acc pid v
      rw [List.foldl_cons, ih, List.exists_mem_cons_iff]
      by_cases he : eligible now header ext e.1 e.2 = true
      · rw [if_pos he, UMap.find_insert]
        by_cases hp : pid = e.1
        · subst hp
          by_cases hr : ∃ d ∈ es, d.1 = e.1 ∧ eligible now header ext d.1 d.2 = true
          · simp [he, hr]
          · simp only [he, hr, and_self, or_false, true_and, not_true_eq_false, false_and,
              not_false_eq_true, if_true, Option.some.injEq, weightOf, false_or]
            exact eq_comm
        · simp [hp, Ne.symm hp]
      · simp [he]
  obtain ⟨pid, v⟩ := w
  rw [← UMap.find_eq_some_iff, winnersOf, key]
  simp only [UMap.find_empty, reduceCtorEq, and_false, or_false]
  refine and_congr_left fun _ => ?_
  constructor
  · rintro ⟨⟨q, c⟩, hq, rfl, hel⟩
    exact ⟨c, UMap.find_eq_some_iff.mpr hq, hel⟩
  · rintro ⟨c, hc, hel⟩
    exact ⟨(pid, c), UMap.find_eq_some_iff.mp hc, rfl, hel⟩

/-- **A selected partner is in the table, and the loop has let it through.** -/
theorem checkVaildExpire_eligible {E : Env} {header : Bytes} {ext pid : ℤ}
    {weight expires : UMap ℤ ℤ} (hpid : pid ≠ 0)
    (h : checkVaildExpire E header ext weight expires = pid) :
    ∃ expire, expires.find pid = some expire ∧
      eligible E.checkTime header ext pid expire = true := by
  unfold checkVaildExpire checkVaildExpireIn at h
  split at h
  · exact absurd h.symm hpid
  · dsimp only at h
    split at h
    · exact absurd h.symm hpid
    · split at h
      · exact absurd h.symm hpid
      · rename_i h0
        generalize hps : (List.filter _ _).map Prod.fst = pids at h h0
        have hmem : pid ∈ pids := by
          rw [← (E.shuffle_perm pids).mem_iff]
          cases hl : E.shuffle pids with
          | nil => simp [hl] at h0
          | cons q qs =>
            rw [hl] at h
            simp [← h]
        rw [← hps] at hmem
        obtain ⟨w, hw, rfl⟩ := List.mem_map.mp hmem
        exact (mem_winnersOf_iff.mp (List.mem_filter.mp hw).1).1

/-! ### The choice -/

/-- What `checkVaildExpire` can return, over the orders of the maps and the shuffles. The map of
the weights is not iterated. -/
def results (now : ℕ) (header : Bytes) (ext : ℤ) (weight expires : UMap ℤ ℤ) : Set ℤ :=
  {pid | ∃ (E : Env) (order : List (ℤ × ℤ) → List (ℤ × ℤ)) (expires' : UMap ℤ ℤ),
    E.checkTime = now ∧ (∀ l, (order l).Perm l) ∧ expires'.entries.Perm expires.entries ∧
    checkVaildExpireIn E order header ext weight expires' = pid}

lemma checkVaildExpire_mem_results (E : Env) (header : Bytes) (ext : ℤ)
    (weight expires : UMap ℤ ℤ) :
    checkVaildExpire E header ext weight expires ∈ results E.checkTime header ext weight expires :=
  ⟨E, id, expires, rfl, fun l => List.Perm.refl l, List.Perm.refl _, rfl⟩

/-- One round of the loop over the winners. -/
def track (a w : ℤ × ℤ) : ℤ × ℤ := (if w.2 > a.1 then w.2 else a.1, wrap32 (a.2 + w.2))

lemma maxAndSum_eq (ws : List (ℤ × ℤ)) : maxAndSum ws = ws.foldl track (0, 0) := rfl

lemma track_fst (a w : ℤ × ℤ) : (track a w).1 = max a.1 w.2 := by
  unfold track
  dsimp only
  split <;> omega

/-- The running maximum bounds the weights, and is one of them unless it is still zero. -/
lemma maxAndSum_max (ws : List (ℤ × ℤ)) :
    0 ≤ (maxAndSum ws).1 ∧ (∀ w ∈ ws, w.2 ≤ (maxAndSum ws).1) ∧
      ((maxAndSum ws).1 = 0 ∨ ∃ w ∈ ws, w.2 = (maxAndSum ws).1) := by
  have key : ∀ (ws : List (ℤ × ℤ)) (a : ℤ × ℤ), a.1 ≤ (ws.foldl track a).1 ∧
      (∀ w ∈ ws, w.2 ≤ (ws.foldl track a).1) ∧
      ((ws.foldl track a).1 = a.1 ∨ ∃ w ∈ ws, w.2 = (ws.foldl track a).1) := by
    intro ws
    induction ws with
    | nil => simp
    | cons w ws ih =>
      intro a
      rw [List.foldl_cons]
      obtain ⟨h1, h2, h3⟩ := ih (track a w)
      rw [track_fst] at h1 h3
      refine ⟨by omega, fun u hu => ?_, ?_⟩
      · rcases List.mem_cons.mp hu with rfl | hu
        · omega
        · exact h2 u hu
      · rcases h3 with h3 | ⟨u, hu, he⟩
        · rcases max_choice a.1 w.2 with hm | hm
          · exact .inl (h3.trans hm)
          · exact .inr ⟨w, by simp, (h3.trans hm).symm⟩
        · exact .inr ⟨u, by simp [hu], he⟩
  simp only [maxAndSum_eq]
  exact key ws (0, 0)

lemma maxAndSum_sum {ws : List (ℤ × ℤ)} (h0 : ∀ w ∈ ws, 0 ≤ w.2)
    (hs : (ws.map Prod.snd).sum < 2 ^ 31) : (maxAndSum ws).2 = (ws.map Prod.snd).sum := by
  have key : ∀ (ws : List (ℤ × ℤ)) (a : ℤ × ℤ), (∀ w ∈ ws, 0 ≤ w.2) → 0 ≤ a.2 →
      a.2 + (ws.map Prod.snd).sum < 2 ^ 31 →
      (ws.foldl track a).2 = a.2 + (ws.map Prod.snd).sum := by
    intro ws
    induction ws with
    | nil => simp
    | cons w ws ih =>
      intro a h0 ha hs
      have hw := h0 w (by simp)
      have hrest : 0 ≤ (ws.map Prod.snd).sum := by
        refine List.sum_nonneg fun v hv => ?_
        obtain ⟨u, hu, rfl⟩ := List.mem_map.mp hv
        exact h0 u (by simp [hu])
      rw [List.map_cons, List.sum_cons] at hs ⊢
      have hwrap : (track a w).2 = a.2 + w.2 := wrap32_of_bounds (by omega) (by omega)
      rw [List.foldl_cons, ih (track a w) (fun u hu => h0 u (by simp [hu])) (by omega) (by omega),
        hwrap, add_assoc]
  have h := key ws (0, 0) h0 (le_refl 0) (by rwa [zero_add])
  rwa [zero_add, ← maxAndSum_eq] at h

lemma weightOf_nonneg {weight : UMap ℤ ℤ} (h0 : ∀ e ∈ weight.entries, 0 ≤ e.2) (pid : ℤ) :
    0 ≤ weightOf weight pid := by
  unfold weightOf
  cases hf : weight.find pid with
  | none => simp
  | some v => exact h0 _ (UMap.find_eq_some_iff.mp hf)

lemma sum_weightOf_le {weight : UMap ℤ ℤ} (h0 : ∀ e ∈ weight.entries, 0 ≤ e.2) {pids : List ℤ}
    (hn : pids.Nodup) :
    (pids.map (weightOf weight)).sum ≤ (weight.entries.map Prod.snd).sum := by
  have hentries : weight.entries.map Prod.snd = weight.keys.map (weightOf weight) := by
    rw [UMap.keys, List.map_map]
    refine List.map_congr_left fun e he => ?_
    have hf : weight.find e.1 = some e.2 := UMap.find_eq_some_iff.mpr he
    simp [weightOf, hf]
  have hnone : ∀ pid, pid ∉ weight.keys.toFinset → weightOf weight pid = 0 := by
    intro pid hp
    have hf : weight.find pid = none := by
      by_contra hf
      obtain ⟨v, hv⟩ := Option.ne_none_iff_exists'.mp hf
      exact hp (List.mem_toFinset.mpr (UMap.mem_keys_iff.mpr ⟨v, hv⟩))
    simp [weightOf, hf]
  have hk : weight.keys.Nodup := weight.nodup
  rw [hentries, ← List.sum_toFinset _ hn, ← List.sum_toFinset _ hk]
  calc ∑ pid ∈ pids.toFinset, weightOf weight pid
      ≤ ∑ pid ∈ pids.toFinset ∪ weight.keys.toFinset, weightOf weight pid :=
        Finset.sum_le_sum_of_subset_of_nonneg Finset.subset_union_left fun pid _ _ =>
          weightOf_nonneg h0 pid
    _ = ∑ pid ∈ weight.keys.toFinset, weightOf weight pid :=
        (Finset.sum_subset Finset.subset_union_right fun pid _ hp => hnone pid hp).symm

section Choice

variable {now : ℕ} {header : Bytes} {ext : ℤ} {weight expires : UMap ℤ ℤ}

/-- An eligible partner that no other eligible one outweighs. -/
def Heaviest (now : ℕ) (header : Bytes) (ext : ℤ) (weight expires : UMap ℤ ℤ) (pid : ℤ) : Prop :=
  Eligible now header ext expires pid ∧
    ∀ q, Eligible now header ext expires q → weightOf weight q ≤ weightOf weight pid

/-- The list that is shuffled. -/
def maxWeightPids (ws : List (ℤ × ℤ)) : List ℤ :=
  (ws.filter fun w => w.2 = (maxAndSum ws).1).map Prod.fst

/-- The winners in the order they are walked. -/
structure Walk (now : ℕ) (header : Bytes) (ext : ℤ) (weight expires : UMap ℤ ℤ)
    (ws : List (ℤ × ℤ)) : Prop where
  nodup : (ws.map Prod.fst).Nodup
  mem_iff : ∀ w, w ∈ ws ↔ Eligible now header ext expires w.1 ∧ w.2 = weightOf weight w.1

lemma walk_of_perm {order : List (ℤ × ℤ) → List (ℤ × ℤ)} (ho : ∀ l, (order l).Perm l)
    {expires' : UMap ℤ ℤ} (he : expires'.entries.Perm expires.entries) :
    Walk now header ext weight expires
      (order (winnersOf now header ext weight expires').entries) where
  nodup := ((ho _).map Prod.fst).nodup_iff.mpr (UMap.nodup _)
  mem_iff := fun w => by
    have hel : Eligible now header ext expires' w.1 ↔ Eligible now header ext expires w.1 := by
      simp only [Eligible, UMap.find_eq_some_iff, he.mem_iff]
    rw [(ho _).mem_iff, mem_winnersOf_iff, hel]

variable {ws : List (ℤ × ℤ)}

lemma Walk.sum_eq (hw : Walk now header ext weight expires ws)
    (h0 : ∀ e ∈ weight.entries, 0 ≤ e.2) (hs : (weight.entries.map Prod.snd).sum < 2 ^ 31) :
    (maxAndSum ws).2 = (ws.map Prod.snd).sum ∧ ∀ w ∈ ws, 0 ≤ w.2 := by
  have hpos : ∀ w ∈ ws, 0 ≤ w.2 := by
    intro w hmem
    rw [((hw.mem_iff w).mp hmem).2]
    exact weightOf_nonneg h0 w.1
  have hsum : ws.map Prod.snd = (ws.map Prod.fst).map (weightOf weight) := by
    rw [List.map_map]
    exact List.map_congr_left fun w hmem => ((hw.mem_iff w).mp hmem).2
  refine ⟨maxAndSum_sum hpos ?_, hpos⟩
  calc (ws.map Prod.snd).sum
      = ((ws.map Prod.fst).map (weightOf weight)).sum := by rw [hsum]
    _ ≤ (weight.entries.map Prod.snd).sum := sum_weightOf_le h0 hw.nodup
    _ < 2 ^ 31 := hs

lemma Walk.sum_eq_zero (hw : Walk now header ext weight expires ws)
    (h0 : ∀ e ∈ weight.entries, 0 ≤ e.2) (hs : (weight.entries.map Prod.snd).sum < 2 ^ 31)
    (hno : ¬ ∃ pid, Eligible now header ext expires pid ∧ 0 < weightOf weight pid) :
    (maxAndSum ws).2 = 0 := by
  obtain ⟨hsum, hpos⟩ := hw.sum_eq h0 hs
  rw [hsum]
  refine List.sum_eq_zero fun v hv => ?_
  obtain ⟨w, hmem, rfl⟩ := List.mem_map.mp hv
  obtain ⟨hel, hwt⟩ := (hw.mem_iff w).mp hmem
  have hle : weightOf weight w.1 ≤ 0 := by
    by_contra hlt
    exact hno ⟨w.1, hel, by omega⟩
  have := hpos w hmem
  omega

lemma Walk.sum_ne_zero (hw : Walk now header ext weight expires ws)
    (h0 : ∀ e ∈ weight.entries, 0 ≤ e.2) (hs : (weight.entries.map Prod.snd).sum < 2 ^ 31)
    {pid : ℤ} (hel : Eligible now header ext expires pid) (hp : 0 < weightOf weight pid) :
    (maxAndSum ws).2 ≠ 0 := by
  obtain ⟨hsum, hpos⟩ := hw.sum_eq h0 hs
  have hmem : (pid, weightOf weight pid) ∈ ws := (hw.mem_iff _).mpr ⟨hel, rfl⟩
  have hle : weightOf weight pid ≤ (ws.map Prod.snd).sum := by
    refine List.single_le_sum ?_ _ (List.mem_map.mpr ⟨_, hmem, rfl⟩)
    intro v hv
    obtain ⟨w, hw, rfl⟩ := List.mem_map.mp hv
    exact hpos w hw
  omega

lemma Walk.mem_maxWeightPids (hw : Walk now header ext weight expires ws) {pid : ℤ}
    (hel : Eligible now header ext expires pid) (hp : 0 < weightOf weight pid) (q : ℤ) :
    q ∈ maxWeightPids ws ↔ Heaviest now header ext weight expires q := by
  obtain ⟨-, hle, hmax⟩ := maxAndSum_max ws
  have hbound : ∀ q, Eligible now header ext expires q →
      weightOf weight q ≤ (maxAndSum ws).1 :=
    fun q hq => hle _ ((hw.mem_iff (q, weightOf weight q)).mpr ⟨hq, rfl⟩)
  have hpmax := hbound pid hel
  constructor
  · intro hq
    obtain ⟨w, hmem, rfl⟩ := List.mem_map.mp hq
    obtain ⟨hmem, heq⟩ := List.mem_filter.mp hmem
    obtain ⟨helw, hwt⟩ := (hw.mem_iff w).mp hmem
    refine ⟨helw, fun q hq => ?_⟩
    calc weightOf weight q ≤ (maxAndSum ws).1 := hbound q hq
      _ = w.2 := (of_decide_eq_true heq).symm
      _ = weightOf weight w.1 := hwt
  · rintro ⟨helq, hall⟩
    have heq : weightOf weight q = (maxAndSum ws).1 := by
      rcases hmax with h | ⟨w, hmem, h⟩
      · omega
      · obtain ⟨helw, hwt⟩ := (hw.mem_iff w).mp hmem
        have := hall w.1 helw
        have := hbound q helq
        omega
    refine List.mem_map.mpr ⟨(q, weightOf weight q), List.mem_filter.mpr ⟨?_, ?_⟩, rfl⟩
    · exact (hw.mem_iff _).mpr ⟨helq, rfl⟩
    · simpa using heq

lemma Walk.exists_heaviest (hw : Walk now header ext weight expires ws) {pid : ℤ}
    (hel : Eligible now header ext expires pid) (hp : 0 < weightOf weight pid) :
    ∃ q, q ∈ maxWeightPids ws := by
  obtain ⟨-, hle, hmax⟩ := maxAndSum_max ws
  have hpmax := hle _ ((hw.mem_iff (pid, weightOf weight pid)).mpr ⟨hel, rfl⟩)
  rcases hmax with hz | ⟨w, hmem, heq⟩
  · rw [hz] at hpmax
    exact absurd hp (not_lt.mpr hpmax)
  · exact ⟨w.1, List.mem_map.mpr ⟨w, List.mem_filter.mpr ⟨hmem, by simpa using heq⟩, rfl⟩⟩

section Value

variable {E : Env} {order : List (ℤ × ℤ) → List (ℤ × ℤ)} {expires' : UMap ℤ ℤ}

lemma checkVaildExpireIn_zero (ho : ∀ l, (order l).Perm l)
    (he : expires'.entries.Perm expires.entries)
    (h0 : ∀ e ∈ weight.entries, 0 ≤ e.2) (hs : (weight.entries.map Prod.snd).sum < 2 ^ 31)
    (hno : ¬ ∃ pid, Eligible E.checkTime header ext expires pid ∧ 0 < weightOf weight pid) :
    checkVaildExpireIn E order header ext weight expires' = 0 := by
  have hw : Walk E.checkTime header ext weight expires _ := walk_of_perm ho he
  have hsum := hw.sum_eq_zero h0 hs hno
  unfold checkVaildExpireIn
  split
  · rfl
  · dsimp only
    split
    · rfl
    · exact if_pos (.inr hsum)

lemma checkVaildExpireIn_head (ho : ∀ l, (order l).Perm l)
    (he : expires'.entries.Perm expires.entries) (hk : ∀ e ∈ expires.entries, e.1 ≠ 0)
    (h0 : ∀ e ∈ weight.entries, 0 ≤ e.2) (hs : (weight.entries.map Prod.snd).sum < 2 ^ 31)
    {pid : ℤ} (hel : Eligible E.checkTime header ext expires pid) (hp : 0 < weightOf weight pid) :
    (E.shuffle (maxWeightPids
        (order (winnersOf E.checkTime header ext weight expires').entries))).head? =
      some (checkVaildExpireIn E order header ext weight expires') := by
  have hw : Walk E.checkTime header ext weight expires
    (order (winnersOf E.checkTime header ext weight expires').entries) := walk_of_perm ho he
  have hweight : weight.size ≠ 0 := by
    intro hz
    have hnil : weight.entries = [] := List.length_eq_zero_iff.mp hz
    simp [weightOf, UMap.find, hnil] at hp
  have hwin : (winnersOf E.checkTime header ext weight expires').size ≠ 0 := by
    intro hz
    have hmem := (ho _).mem_iff.mp ((hw.mem_iff (pid, weightOf weight pid)).mpr ⟨hel, rfl⟩)
    rw [List.length_eq_zero_iff.mp hz] at hmem
    exact List.not_mem_nil hmem
  have hval : ∀ ws, ws = order (winnersOf E.checkTime header ext weight expires').entries →
      checkVaildExpireIn E order header ext weight expires' =
        if (E.shuffle (maxWeightPids ws)).head?.getD 0 = 0 ∨ (maxAndSum ws).2 = 0 then 0
        else (E.shuffle (maxWeightPids ws)).head?.getD 0 := by
    rintro ws rfl
    unfold checkVaildExpireIn
    rw [if_neg hweight]
    dsimp only
    rw [if_neg hwin]
    rfl
  rw [hval _ rfl]
  generalize order (winnersOf E.checkTime header ext weight expires').entries = ws at hw
  have hsum := hw.sum_ne_zero h0 hs hel hp
  obtain ⟨q, hq⟩ := hw.exists_heaviest hel hp
  rw [← (E.shuffle_perm _).mem_iff] at hq
  cases hl : E.shuffle (maxWeightPids ws) with
  | nil => exact absurd (hl ▸ hq) List.not_mem_nil
  | cons r rs =>
    have hr : r ∈ maxWeightPids ws := (E.shuffle_perm _).mem_iff.mp (hl ▸ List.mem_cons_self)
    obtain ⟨⟨c, hc, -⟩, -⟩ := (hw.mem_maxWeightPids hel hp r).mp hr
    have hne : r ≠ 0 := hk _ (UMap.find_eq_some_iff.mp hc)
    simp [hne, hsum]

end Value

/-- A shuffle that brings `pid` to the front. -/
def shuffleTo (pid : ℤ) (l : List ℤ) : List ℤ := if pid ∈ l then pid :: l.erase pid else l

lemma shuffleTo_perm (pid : ℤ) (l : List ℤ) : (shuffleTo pid l).Perm l := by
  unfold shuffleTo
  split
  · rename_i h
    exact (List.perm_cons_erase h).symm
  · exact List.Perm.refl l

lemma head?_shuffleTo {pid : ℤ} {l : List ℤ} (h : pid ∈ l) :
    (shuffleTo pid l).head? = some pid := by
  rw [shuffleTo, if_pos h, List.head?_cons]

/-- A run at `now` whose shuffle does so. -/
def bringing (now : ℕ) (pid : ℤ) : Env :=
  { Env.still now with shuffle := shuffleTo pid, shuffle_perm := shuffleTo_perm pid }

open Classical in
/-- **The selection is the weighted argmax.** -/
theorem results_eq (now : ℕ) (header : Bytes) (ext : ℤ) (weight expires : UMap ℤ ℤ)
    (hk : ∀ e ∈ expires.entries, e.1 ≠ 0) (h0 : ∀ e ∈ weight.entries, 0 ≤ e.2)
    (hs : (weight.entries.map Prod.snd).sum < 2 ^ 31) :
    results now header ext weight expires =
      if ∃ pid, Eligible now header ext expires pid ∧ 0 < weightOf weight pid then
        {pid | Eligible now header ext expires pid ∧
          ∀ q, Eligible now header ext expires q → weightOf weight q ≤ weightOf weight pid}
      else {0} := by
  split
  · rename_i hex
    obtain ⟨p, hel, hp⟩ := hex
    ext pid
    constructor
    · rintro ⟨E, order, expires', rfl, ho, he, rfl⟩
      have hw : Walk E.checkTime header ext weight expires
        (order (winnersOf E.checkTime header ext weight expires').entries) := walk_of_perm ho he
      have hhead := checkVaildExpireIn_head ho he hk h0 hs hel hp
      exact (hw.mem_maxWeightPids hel hp _).mp
        ((E.shuffle_perm _).mem_iff.mp (List.mem_of_mem_head? hhead))
    · intro hpid
      have ho : ∀ l : List (ℤ × ℤ), (id l).Perm l := fun l => List.Perm.refl l
      have hw : Walk now header ext weight expires
        (id (winnersOf now header ext weight expires).entries) :=
        walk_of_perm ho (List.Perm.refl _)
      have hmem := (hw.mem_maxWeightPids hel hp pid).mpr hpid
      have hhead := checkVaildExpireIn_head (E := bringing now pid) ho
        (List.Perm.refl expires.entries) hk h0 hs hel hp
      refine ⟨bringing now pid, id, expires, rfl, ho, List.Perm.refl _, ?_⟩
      exact Option.some.inj (hhead.symm.trans (head?_shuffleTo hmem))
  · rename_i hno
    ext pid
    constructor
    · rintro ⟨E, order, expires', rfl, ho, he, rfl⟩
      exact checkVaildExpireIn_zero ho he h0 hs hno
    · rintro rfl
      exact ⟨Env.still now, id, expires, rfl, fun l => List.Perm.refl l, List.Perm.refl _,
        checkVaildExpireIn_zero (fun l => List.Perm.refl l) (List.Perm.refl _) h0 hs hno⟩

/-- Three partners without a cookie, two of them with the same weight. -/
theorem results_eq_two :
    results 1500000000 [] 3 ⟨[(4, 3), (5, 1), (7, 3)], by decide⟩
      ⟨[(4, 1296000), (5, 1296000), (7, 1296000)], by decide⟩ = {4, 7} := by
  have hel : ∀ pid, Eligible 1500000000 [] 3
      ⟨[(4, 1296000), (5, 1296000), (7, 1296000)], by decide⟩ pid ↔
        pid = 4 ∨ pid = 5 ∨ pid = 7 := by
    intro pid
    simp only [Eligible, UMap.find_eq_some_iff]
    constructor
    · rintro ⟨expire, hmem, -⟩
      simp only [List.mem_cons, Prod.mk.injEq, List.not_mem_nil, or_false] at hmem
      tauto
    · rintro (rfl | rfl | rfl) <;> exact ⟨1296000, by decide, by decide +kernel⟩
  rw [results_eq 1500000000 [] 3 _ _ (by decide) (by decide) (by decide),
    if_pos ⟨4, (hel 4).mpr (.inl rfl), by decide⟩]
  ext pid
  simp only [hel, Set.mem_insert_iff, Set.mem_singleton_iff]
  constructor
  · rintro ⟨rfl | rfl | rfl, hall⟩
    · exact .inl rfl
    · exact absurd (hall 4 (.inl rfl)) (by decide)
    · exact .inr rfl
  · rintro (rfl | rfl)
    · refine ⟨.inl rfl, ?_⟩
      rintro q (rfl | rfl | rfl) <;> decide
    · refine ⟨.inr (.inr rfl), ?_⟩
      rintro q (rfl | rfl | rfl) <;> decide

end Choice

/-! ### Cycles -/

/-- The sum that is compared with the clock is the exact one, reduced to an `int`. -/
lemma eligible_of_cookie {now v : ℕ} {header : Bytes} {ext pid e : ℤ} (hv : v < 2 ^ 63)
    (hc : CookieHeader.getCookie header (timeCookie pid) = natStr v) :
    eligible now header ext pid e = true ↔ wrap32 (v + e) < now := by
  have hlen : (natStr v).length ≠ 0 := fun h => natStr_ne_nil v (List.length_eq_zero_iff.mp h)
  have hsum : wrap32 (wrap32 v + e) = wrap32 (v + e) := Int.bmod_add_bmod
  simp only [eligible, hc, if_neg hlen, decide_eq_true_eq, atoi_natStr v hv, hsum]

/-- **The cycles for which the throttle cookie is read correctly.** -/
theorem expired_iff (now v : ℕ) (header : Bytes) (ext pid e : ℤ) (he : 0 ≤ e ∧ e < 2 ^ 31)
    (hv : v < 2 ^ 63) (hc : CookieHeader.getCookie header (timeCookie pid) = natStr v) :
    (eligible now header ext pid e = true ↔ (v : ℤ) + e < now) ↔
      (v : ℤ) + e < now ∨ now ≤ wrap32 (v + e) := by
  rw [eligible_of_cookie hv hc]
  by_cases h : (v : ℤ) + e < 2 ^ 31
  · rw [wrap32_of_bounds (by omega) h]
    exact iff_of_true Iff.rfl (lt_or_ge _ _)
  · have hlt := wrap32_lt ((v : ℤ) + e)
    constructor
    · intro hiff
      by_contra hno
      omega
    · intro hor
      constructor
      · intro hw
        omega
      · intro hw
        omega

/-- Ten minutes into a cycle of fifteen days. -/
theorem expired_iff_miaozhen :
    eligible 1500000600 (lit "a=1; t_4=1500000000") 3 4 1296000 = true ↔
      (1500000000 : ℤ) + 1296000 < 1500000600 :=
  (expired_iff 1500000600 1500000000 (lit "a=1; t_4=1500000000") 3 4 1296000 (by decide) (by decide)
    (by decide +kernel)).mpr (.inr (by decide))

/-- Close to the end of the 32-bit clock a cycle is over at once. -/
theorem expired_at_once :
    eligible 2147483001 (lit "t_4=2147483000") 3 4 1296000 = true ∧
      ¬ (2147483000 : ℤ) + 1296000 < 2147483001 := by
  decide +kernel

end NgxMapping.Selection
