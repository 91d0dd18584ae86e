import NgxMapping.Import
import NgxMapping.LogPipeline

/-!
The stream and the log over a whole run.

A request sends its pair to the subscriber and its record to the log. What is imported from the
log of a run, however the threads of the logger were scheduled, is what has been streamed.
-/

namespace NgxMapping.ImportRun

open Lib MappingModel MappingSpec Answer ScyllaMessage Scylla LogPipeline Import

lemma batch_logFile {texts : List Bytes} (h : ∀ t ∈ texts, Line t) (table : Bytes) :
    batch table (logFile texts) = texts.flatMap fun t => batch table (logFile [t]) := by
  have hone : ∀ t ∈ texts, readLines (logFile [t]).length (logFile [t]) = [t] := by
    intro t ht
    apply readLines_logFile _ le_rfl
    intro u hu
    rw [List.mem_singleton.mp hu]
    exact h t ht
  have hall : readLines (logFile texts).length (logFile texts) = texts :=
    readLines_logFile h le_rfl
  simp only [batch, hall]
  clear hall
  unfold cinLog
  split
  · rename_i hnone
    symm
    rw [List.flatMap_eq_nil_iff]
    intro t _
    rfl
  · rename_i ext _ _
    induction texts with
    | nil => split <;> rfl
    | cons t ts ih =>
      have iht := ih (fun u hu => h u (by simp [hu])) fun u hu => hone u (by simp [hu])
      rw [List.flatMap_cons, ← iht, hone t (by simp)]
      split
      · rw [← List.flatMap_append, ← List.filter_append]
        rfl
      · simp

/-- The request ends without a fault, its ids are words and its messages fit the queues. -/
structure Importable (v : Visit) : Prop where
  finished : (serve v.E v.P v.headers v.uri).exit ≠ .uidFault ∧
    (serve v.E v.P v.headers v.uri).exit ≠ .selfFault
  rmid : Word (rmidOf v.E v.headers v.uri)
  uid : Word (uidOf v.P v.uri)
  log : v.log ≠ []
  scylla : (serve v.E v.P v.headers v.uri).exit ≠ .mobile →
    sendsScylla (object v.E v.P v.headers v.uri) = true →
    (scyllaMsg (extOf v.uri) (rmidOf v.E v.headers v.uri) (uidOf v.P v.uri)).length ≤ scyllaLimit

/-- What the request sends to `mapping_scylla`. -/
def pairsOf (v : Visit) : List Bytes := (serve v.E v.P v.headers v.uri).queues.scylla

lemma Importable.agrees {v : Visit} (h : Importable v) {key : ℕ} {table : Bytes}
    (ht : (key, table) ∈ tablePairs) (h0 : key ≠ 0) :
    ((stream (pairsOf v)).filter fun row => row.table ∈ [table, dmp table]).Perm
      (batch table (logFile v.log)) := by
  have hf : ¬ UidFault v.P v.uri := not_uidFault h.finished.1
  obtain ⟨o, rUrl, ho, hq⟩ := ends_logged (serve_ends hf) rfl h.finished.2
  have hlog := h.log
  rw [Visit.log, hq] at hlog
  rw [pairsOf, Visit.log, hq]
  refine logSave_agrees (loggable_of_logged ho h.rmid h.uid) ?_ (fun hs => ?_) ht h0
  · by_contra hl
    exact hlog (by simp [logSave, send, hl])
  · obtain ⟨hm, hs⟩ := logged_sends ho rfl hs
    rw [ho.ext, ho.rmid, ho.uid]
    exact h.scylla hm hs

lemma batch_visits {vs : List Visit} (table : Bytes) :
    batch table (logFile (vs.flatMap Visit.log)) =
      vs.flatMap fun v => batch table (logFile v.log) := by
  have hline : ∀ v ∈ vs, ∀ t ∈ v.log, Line t := fun v _ t ht => line_of_mem_log ht
  rw [batch_logFile fun t ht => by
    obtain ⟨v, hv, hvt⟩ := List.mem_flatMap.mp ht
    exact hline v hv t hvt, List.flatMap_assoc]
  apply List.flatMap_congr
  intro v hv
  rw [← batch_logFile (hline v hv)]

/-- **The log of a run imports to what was streamed.** When all records of a run have been
written, the rows imported from the log for a table are those that the messages of the same
requests bring into it. -/
theorem run_imports_agree (steps : List Step) (hn : steps.length + qSize.val ≤ 2 ^ 63)
    (hall : ∀ v ∈ (Pipeline.run steps).served, Importable v)
    (hdone : (Pipeline.run steps).helper.written.length = (Pipeline.run steps).sent.length)
    (key : ℕ) (table : Bytes) (ht : (key, table) ∈ tablePairs) (htest : table ≠ lit "test") :
    ((stream ((Pipeline.run steps).served.flatMap pairsOf)).filter fun row =>
        row.table ∈ [table, dmp table]).Perm
      (batch table (Pipeline.run steps).helper.written.flatten) := by
  have h0 : key ≠ 0 := by
    have hkeys : ∀ pair ∈ tablePairs, pair.2 ≠ lit "test" → pair.1 ≠ 0 := by decide +kernel
    exact hkeys _ ht htest
  have hwritten := (written_eq (inv_run steps) hn).1
  rw [hdone, List.take_length] at hwritten
  rw [hwritten, Pipeline.sent, batch_visits]
  unfold stream
  rw [List.flatMap_assoc, List.filter_flatMap]
  exact List.Perm.flatMap_left _ fun v hv => (hall v hv).agrees ht h0

lemma mem_served {steps : List Step} {v : Visit} (h : v ∈ (Pipeline.run steps).served) :
    Step.serve v ∈ steps := by
  induction steps using List.reverseRecOn with
  | nil => cases h
  | append_singleton steps s ih =>
    rw [Pipeline.run, List.foldl_append] at h
    change v ∈ ((Pipeline.run steps).step s).served at h
    rw [List.mem_append]
    cases s with
    | serve u =>
      simp only [Pipeline.step] at h
      split at h
      · rcases List.mem_append.mp h with h | h
        · exact .inl (ih h)
        · exact .inr (by rw [List.mem_singleton.mp h]; simp)
      · exact .inl (ih h)
    | receive =>
      simp only [Pipeline.step] at h
      split at h
      · exact .inl (ih h)
      · split at h <;> exact .inl (ih h)
    | log => exact .inl (ih h)

/-- One visitor from iqiyi, whose record is received and written without a pause. -/
def iqiyiSteps : List Step :=
  [.serve ⟨.still 1500000000, iqiyiOnly, iqiyiHeaders, iqiyiUri⟩, .receive] ++
    List.replicate 7 (.log .consumer false false false) ++
    List.replicate 7 (.log .writer false false false)

theorem run_imports_agree_iqiyi :
    (Pipeline.run iqiyiSteps).sent.length = 1 ∧
    ((stream ((Pipeline.run iqiyiSteps).served.flatMap pairsOf)).filter fun row =>
        row.table ∈ [lit "iqiyi", dmp (lit "iqiyi")]).Perm
      (batch (lit "iqiyi") (Pipeline.run iqiyiSteps).helper.written.flatten) := by
  refine ⟨by decide +kernel, run_imports_agree iqiyiSteps (by decide +kernel) ?_
    (by decide +kernel) 3 _ (by decide +kernel) (by decide +kernel)⟩
  intro v hv
  obtain rfl : v = ⟨.still 1500000000, iqiyiOnly, iqiyiHeaders, iqiyiUri⟩ := by
    simpa [iqiyiSteps] using mem_served hv
  exact ⟨by decide +kernel, ⟨by decide +kernel, by decide +kernel⟩,
    ⟨by decide +kernel, by decide +kernel⟩, by decide +kernel, fun _ _ => by decide +kernel⟩

end NgxMapping.ImportRun
