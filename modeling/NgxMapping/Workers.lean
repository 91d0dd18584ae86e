import NgxMapping.PartnerSync

/-!
The partner tables of different workers.

Every worker starts with an empty table and calls `syncPartners` by itself. A call adds and
overwrites entries and removes none, so what a clean call leaves of a table is what Redis
holds, and under the other keys what the worker has stored before.
-/

namespace NgxMapping.Workers

open Lib PartnerTable PartnerSync

section Workers

variable {Node : Type} {J : PropertyTree Node}

lemma keyed_syncPartners (c : Call) (P : Partners) :
    ∀ k ∈ (syncPartners J c P.map).keys, ∃ i ≤ maxPartnerId, k = MAPPING_KEY ++ natStr i := by
  intro k hk
  by_contra hno
  have hframe : (syncPartners J c P.map).find k = P.map.find k :=
    syncPartners_frame P.map fun i hi he => hno ⟨i, hi, he⟩
  obtain ⟨p, hp⟩ := UMap.mem_keys_iff.mp hk
  exact hno (P.keyed k (UMap.mem_keys_iff.mpr ⟨p, hframe ▸ hp⟩))

variable (J) in
/-- `syncPartners` on the table of a worker. -/
def sync (P : Partners) (c : Call) : Partners := ⟨syncPartners J c P.map, keyed_syncPartners c P⟩

def noPartners : Partners := ⟨UMap.empty, by simp [UMap.keys, UMap.empty]⟩

variable (J) in
/-- The table of a worker after its calls. -/
def worker (calls : List Call) : Partners := calls.foldl (sync J) noPartners

lemma worker_snoc (calls : List Call) (c : Call) :
    worker J (calls ++ [c]) = sync J (worker J calls) c := by
  rw [worker, List.foldl_append]
  rfl

/-- All replies of the call are read from `contents`, which gives the fields of each hash, none
for a key that does not exist. -/
def Answers (contents : ℕ → List (Bytes × Bytes)) (c : Call) : Prop :=
  c.connected = true ∧ ∀ i ≤ maxPartnerId, c.reply i = .array (contents i)

/-- The key exists in Redis. -/
def Present (contents : ℕ → List (Bytes × Bytes)) (id : Bytes) : Prop :=
  ∃ i ≤ maxPartnerId, id = natStr i ∧ contents i ≠ []

variable {contents : ℕ → List (Bytes × Bytes)} {c : Call}

lemma Answers.not_stops (hc : Answers contents c) {i j : ℕ} (hi : i ≤ maxPartnerId) (hj : j < i) :
    ¬ (c.reply j).Stops := by
  rw [hc.2 j (by omega)]
  simp [Reply.Stops]

lemma lookup_present (hc : Answers contents c) (P : Partners) {i : ℕ} (hi : i ≤ maxPartnerId)
    (hne : contents i ≠ []) (hp : completeParse J (contents i) ≠ none) :
    (sync J P c).lookup (natStr i) = completeParse J (contents i) := by
  obtain ⟨p, hp⟩ := Option.ne_none_iff_exists'.mp hp
  have h := syncPartners_reached (J := J) P.map hc.1 hi fun j hj => hc.not_stops hi hj
  rw [hc.2 i hi] at h
  dsimp only at h
  rw [if_neg (by simpa using hne), hp, Option.some_or] at h
  rw [hp]
  exact h

lemma lookup_absent (hc : Answers contents c) (P : Partners) {id : Bytes}
    (hid : ¬ Present contents id) : (sync J P c).lookup id = P.lookup id := by
  by_cases h : ∃ i ≤ maxPartnerId, id = natStr i
  · obtain ⟨i, hi, rfl⟩ := h
    have hnil : contents i = [] := by
      by_contra hne
      exact hid ⟨i, hi, rfl, hne⟩
    have h := syncPartners_reached (J := J) P.map hc.1 hi fun j hj => hc.not_stops hi hj
    rw [hc.2 i hi, hnil] at h
    exact h
  · refine syncPartners_frame P.map fun i hi he => h ⟨i, hi, ?_⟩
    exact List.append_cancel_left he

/-- **After a clean call two workers agree on what Redis holds, and keep the rest.** -/
theorem workers_agree (J : PropertyTree Node) (contents : ℕ → List (Bytes × Bytes))
    (hp : ∀ i ≤ maxPartnerId, contents i ≠ [] → completeParse J (contents i) ≠ none)
    (calls calls' : List Call) (c c' : Call) (hc : Answers contents c)
    (hc' : Answers contents c') :
    (∀ i ≤ maxPartnerId, contents i ≠ [] →
      (worker J (calls ++ [c])).lookup (natStr i) = completeParse J (contents i) ∧
      (worker J (calls' ++ [c'])).lookup (natStr i) = completeParse J (contents i)) ∧
    (∀ id, ¬ Present contents id →
      (worker J (calls ++ [c])).lookup id = (worker J calls).lookup id ∧
      (worker J (calls' ++ [c'])).lookup id = (worker J calls').lookup id) ∧
    ((∀ id, (worker J (calls ++ [c])).lookup id = (worker J (calls' ++ [c'])).lookup id) ↔
      ∀ id, ¬ Present contents id → (worker J calls).lookup id = (worker J calls').lookup id) ∧
    ((∀ id, (worker J (calls ++ [c])).lookup id ≠ none ↔ Present contents id) ↔
      ∀ id, (worker J calls).lookup id ≠ none → Present contents id) := by
  simp only [worker_snoc]
  have hpresent : ∀ (P : Partners) {c : Call}, Answers contents c → ∀ i ≤ maxPartnerId,
      contents i ≠ [] → (sync J P c).lookup (natStr i) = completeParse J (contents i) :=
    fun P c hc i hi hne => lookup_present hc P hi hne (hp i hi hne)
  refine ⟨fun i hi hne => ⟨hpresent _ hc i hi hne, hpresent _ hc' i hi hne⟩,
    fun id hid => ⟨lookup_absent hc _ hid, lookup_absent hc' _ hid⟩, ?_, ?_⟩
  · constructor
    · intro heq id hid
      calc (worker J calls).lookup id
          = (sync J (worker J calls) c).lookup id := (lookup_absent hc _ hid).symm
        _ = (sync J (worker J calls') c').lookup id := heq id
        _ = (worker J calls').lookup id := lookup_absent hc' _ hid
    · intro hrest id
      by_cases hid : Present contents id
      · obtain ⟨i, hi, rfl, hne⟩ := hid
        rw [hpresent _ hc i hi hne, hpresent _ hc' i hi hne]
      · rw [lookup_absent hc _ hid, lookup_absent hc' _ hid]
        exact hrest id hid
  · constructor
    · intro hiff id hold
      by_contra hid
      exact hid ((hiff id).mp (by rwa [lookup_absent hc _ hid]))
    · intro hold id
      constructor
      · intro hne
        by_contra hid
        rw [lookup_absent hc _ hid] at hne
        exact hid (hold id hne)
      · rintro ⟨i, hi, rfl, hne⟩
        rw [hpresent _ hc i hi hne]
        exact hp i hi hne

end Workers

def oneHash (i : ℕ) : List (Bytes × Bytes) := if i = 3 then sampleHash else []

def cleanCall (contents : ℕ → List (Bytes × Bytes)) : Call where
  connected := true
  reply := fun i => .array (contents i)

lemma answers_cleanCall (contents : ℕ → List (Bytes × Bytes)) :
    Answers contents (cleanCall contents) := ⟨rfl, fun _ _ => rfl⟩

/-- A worker without a connection at first and one that was there from the start. -/
theorem workers_agree_late :
    ((worker sampleTree ([⟨false, fun _ => .null⟩] ++ [cleanCall oneHash])).lookup
      (lit "3")).isSome ∧
      ∀ id, (worker sampleTree ([⟨false, fun _ => .null⟩] ++ [cleanCall oneHash])).lookup id =
        (worker sampleTree ([] ++ [cleanCall oneHash])).lookup id := by
  have hp : ∀ i ≤ maxPartnerId, oneHash i ≠ [] → completeParse sampleTree (oneHash i) ≠ none := by
    intro i _ hne
    unfold oneHash at hne ⊢
    split
    · exact Option.isSome_iff_ne_none.mp (by decide +kernel)
    · rename_i hi
      rw [if_neg hi] at hne
      exact absurd rfl hne
  have h := workers_agree sampleTree oneHash hp [⟨false, fun _ => .null⟩] [] (cleanCall oneHash)
    (cleanCall oneHash) (answers_cleanCall oneHash) (answers_cleanCall oneHash)
  exact ⟨by decide +kernel, h.2.2.1.mpr fun id _ => rfl⟩

def noHash (_ : ℕ) : List (Bytes × Bytes) := []

/-- A partner deleted from Redis lives on in the worker that has seen it. -/
theorem workers_disagree :
    Answers noHash (cleanCall noHash) ∧
    (∀ i ≤ maxPartnerId, noHash i ≠ [] → completeParse sampleTree (noHash i) ≠ none) ∧
    (worker sampleTree ([cleanCall oneHash] ++ [cleanCall noHash])).lookup (lit "3") ≠ none ∧
    (worker sampleTree ([] ++ [cleanCall noHash])).lookup (lit "3") = none := by
  refine ⟨answers_cleanCall _, fun i _ hne => absurd rfl hne, ?_, ?_⟩
  · exact Option.isSome_iff_ne_none.mp (by decide +kernel)
  · exact Option.isNone_iff_eq_none.mp (by decide +kernel)

end NgxMapping.Workers
