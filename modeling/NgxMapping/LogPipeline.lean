import NgxMapping.AsyncLog
import NgxMapping.Scylla

/-!
The way of a log record from the request to the log file.

The handler sends the record to the queue `mapping_log`; `log_consumer` receives it and gives it
to the asynchronous logger, whose writer thread writes it to the file of the hour. The queue is
that of the operating system: `send` waits while it is full, `receive` while it is empty, and
messages of equal priority leave it in the order in which they came.
-/

namespace NgxMapping.LogPipeline

open Lib HttpRequest HttpResponse PartnerTable MappingModel ScyllaMessage Scylla MpmcQueue AsyncLog

/-- The threads of the logger that have to do with `mapping_log`. -/
inductive Thread
  | consumer
  | writer
  deriving DecidableEq

/-- `q_size` of `init_logger`. -/
def qSize : Size := ⟨4096, by decide, by decide⟩

/-- The `max message number` of `mapping_log`. -/
def maxMessageNumber : ℕ := 100000

/-- A request and what it finds. -/
structure Visit where
  E : Env
  P : Partners
  headers : UMap Bytes Bytes
  uri : Bytes

/-- What the request sends to `mapping_log`. -/
def Visit.log (v : Visit) : List Bytes := (serve v.E v.P v.headers v.uri).queues.log

structure Pipeline where
  served : List Visit := []
  mq : List Bytes := []
  helper : Helper Thread := {}

/-- A step: an nginx worker answers a request, `log_consumer` receives a message and calls
`logger->info`, or a thread of the logger goes on. -/
inductive Step
  | serve (v : Visit)
  | receive
  | log (t : Thread) (spurious expired fails : Bool)

namespace Pipeline

/-- One step. A request that finds the queue full and a consumer that finds it empty wait. -/
def step (p : Pipeline) : Step → Pipeline
  | .serve v =>
    if p.mq.length + v.log.length ≤ maxMessageNumber then
      { p with served := p.served ++ [v], mq := p.mq ++ v.log } else p
  | .receive =>
    match p.mq with
    | [] => p
    | msg :: rest =>
      if (p.helper.pushing .consumer).isSome then p
      else { p with
        mq := rest
        helper := p.helper.step qSize .writer .blockRetry (.push .consumer (.log (relay msg))) }
  | .log t spurious expired fails =>
    { p with
      helper := p.helper.step qSize .writer .blockRetry (.run t spurious expired fails) }

def run (steps : List Step) : Pipeline := steps.foldl step {}

/-- The messages that the requests served so far have sent. -/
def sent (p : Pipeline) : List Bytes := p.served.flatMap Visit.log

end Pipeline

/-- What the consumer pushes for a message. -/
def pushOf (msg : Bytes) : Thread × Msg := (.consumer, .log (relay msg))

/-- What has been sent has been pushed or is still in the queue, in this order, and the helper has
come to its state by steps of its own. -/
structure Inv (n : ℕ) (p : Pipeline) : Prop where
  split : ∃ pushed, p.sent = pushed ++ p.mq ∧ p.helper.pushed = pushed.map pushOf
  bounded : p.mq.length ≤ maxMessageNumber
  helper : ∃ acts : List (Act Thread), acts.length ≤ n ∧
    p.helper = Helper.run qSize .writer .blockRetry acts

lemma helper_step {n : ℕ} {h : Helper Thread}
    (hh : ∃ acts : List (Act Thread), acts.length ≤ n ∧
      h = Helper.run qSize .writer .blockRetry acts) (act : Act Thread) :
    ∃ acts : List (Act Thread), acts.length ≤ n + 1 ∧
      h.step qSize .writer .blockRetry act = Helper.run qSize .writer .blockRetry acts := by
  obtain ⟨acts, hlen, rfl⟩ := hh
  refine ⟨acts ++ [act], by simpa using hlen, ?_⟩
  rw [Helper.run, Helper.run, List.foldl_append]
  rfl

lemma Inv.step {n : ℕ} {p : Pipeline} (hi : Inv n p) (s : Step) : Inv (n + 1) (p.step s) := by
  obtain ⟨pushed, hsplit, hpushed⟩ := hi.split
  obtain ⟨acts, hlen, hrun⟩ := hi.helper
  cases s with
  | serve v =>
    simp only [Pipeline.step]
    split
    · rename_i hroom
      refine ⟨⟨pushed, ?_, hpushed⟩, by simpa using hroom, acts, by omega, hrun⟩
      rw [Pipeline.sent, List.flatMap_append, ← Pipeline.sent, hsplit]
      simp
    · exact ⟨hi.split, hi.bounded, acts, by omega, hrun⟩
  | receive =>
    simp only [Pipeline.step]
    split
    · exact ⟨hi.split, hi.bounded, acts, by omega, hrun⟩
    rename_i msg rest hmq
    split
    · exact ⟨hi.split, hi.bounded, acts, by omega, hrun⟩
    · rename_i hidle
      have hbound := hi.bounded
      rw [hmq, List.length_cons] at hbound
      refine ⟨⟨pushed ++ [msg], ?_, ?_⟩, by simp only; omega,
        helper_step hi.helper (.push .consumer (.log (relay msg)))⟩
      · change p.sent = _
        rw [hsplit, hmq]
        simp
      · simp [Helper.step, hidle, hpushed, pushOf]
  | log t spurious expired fails =>
    refine ⟨⟨pushed, hsplit, ?_⟩, hi.bounded,
      helper_step hi.helper (.run t spurious expired fails)⟩
    rw [← hpushed]
    exact pushed_run ..

lemma inv_run (steps : List Step) : Inv steps.length (Pipeline.run steps) := by
  induction steps using List.reverseRecOn with
  | nil => exact ⟨⟨[], rfl, rfl⟩, Nat.zero_le _, [], le_rfl, rfl⟩
  | append_singleton steps s ih =>
    rw [List.length_append, Pipeline.run, List.foldl_append]
    exact ih.step s

/-! ### The lines of a log -/

/-- A text that is a line of its own. -/
structure Line (text : Bytes) : Prop where
  zero : (0 : UInt8) ∉ text
  newline : (10 : UInt8) ∉ text
  length : text.length ≤ 1022

lemma Line.relay {text : Bytes} (h : Line text) : relay text = text := by
  rw [relay_eq, cstr_eq_self h.zero]

lemma logFile_cons {text : Bytes} (h : Line text) (texts : List Bytes) :
    logFile (text :: texts) = text ++ 10 :: logFile texts := by
  simp [logFile, h.relay]

lemma readLines_logFile {texts : List Bytes} (h : ∀ t ∈ texts, Line t) {n : ℕ}
    (hn : (logFile texts).length ≤ n) : readLines n (logFile texts) = texts := by
  induction texts generalizing n with
  | nil => cases n <;> simp [readLines, logFile]
  | cons t ts ih =>
    have ht := h t (by simp)
    rw [logFile_cons ht] at hn ⊢
    rw [List.length_append, List.length_cons] at hn
    obtain ⟨m, rfl⟩ : ∃ m, n = m + 1 := ⟨n - 1, by omega⟩
    have hfilter : (t ++ [10]).filter (· ≠ 10) = t := by
      rw [List.filter_append, List.filter_eq_self.mpr]
      · simp
      · intro c hc
        simpa using fun he : c = 10 => ht.newline (he ▸ hc)
    have hlen := ht.length
    rw [readLines, if_neg (by simp), fgets_append ht.newline (by omega), hfilter,
      ih (fun u hu => h u (by simp [hu])) (by omega)]

lemma mem_log {v : Visit} {msg : Bytes} (h : msg ∈ v.log) :
    ∃ o, msg = LogRecord.writeObject (record v.E o) ∧ msg.length ≤ logLimit := by
  by_cases hf : MappingSpec.UidFault v.P v.uri
  · rw [Visit.log, MappingSpec.serve_fault hf] at h
    cases h
  by_cases hx : (serve v.E v.P v.headers v.uri).exit = .selfFault
  · have hends := @Answer.serve_ends v.E v.P v.headers v.uri hf
    rw [Visit.log] at h
    generalize serve v.E v.P v.headers v.uri = out at hends hx h
    cases hends with
    | selfFault => cases h
    | _ => cases hx
  · obtain ⟨o, rUrl, -, hq⟩ := Answer.ends_logged (Answer.serve_ends hf) rfl hx
    rw [Visit.log, hq] at h
    simp only [logSave, send] at h
    split at h
    · rename_i hlen
      rw [List.nil_append, List.mem_singleton] at h
      exact ⟨o, h, h ▸ hlen⟩
    · cases h

lemma line_of_mem_log {v : Visit} {msg : Bytes} (h : msg ∈ v.log) : Line msg := by
  obtain ⟨o, rfl, hlen⟩ := mem_log h
  refine ⟨fun h0 => ?_, fun h10 => ?_, hlen.trans (by decide)⟩
  · exact absurd (LogRecord.mem_text h0).1 (by decide)
  · exact absurd (LogRecord.mem_text h10).1 (by decide)

lemma line_of_mem_sent {p : Pipeline} {msg : Bytes} (h : msg ∈ p.sent) : Line msg := by
  obtain ⟨v, -, hv⟩ := List.mem_flatMap.mp h
  exact line_of_mem_log hv

/-! ### From the request to the file -/

lemma lines_pushOf (msgs : List Bytes) :
    lines ((msgs.map pushOf).map Prod.snd) = msgs.map fun msg => relay msg ++ [10] := by
  induction msgs with
  | nil => rfl
  | cons m ms ih =>
    rw [List.map_cons, List.map_cons, ← List.singleton_append, lines_append, ih]
    rfl

lemma written_eq {n : ℕ} {p : Pipeline} (hi : Inv n p) (hn : n + qSize.val ≤ 2 ^ 63) :
    p.helper.written.flatten = logFile (p.sent.take p.helper.written.length) ∧
      (p.helper.status ≠ .failed →
        p.sent.length ≤ p.helper.written.length + qSize.val + maxMessageNumber + 2) := by
  obtain ⟨pushed, hsplit, hpushed⟩ := hi.split
  obtain ⟨acts, hlen, hrun⟩ := hi.helper
  obtain ⟨a, hl⟩ := @linked_run _ _ qSize .writer acts (by omega)
  rw [← hrun] at hl
  have hall : ∀ t, t ≠ Thread.consumer → Channel.itemsOf t p.helper.pushed = [] := by
    intro t ht
    rw [hpushed, Channel.itemsOf, List.filterMap_eq_nil_iff]
    intro x hx
    obtain ⟨msg, -, rfl⟩ := List.mem_map.mp hx
    rw [if_neg]
    exact ht.symm
  have hone : Channel.itemsOf .consumer a.accepted = a.accepted.map Prod.snd := by
    apply Channel.itemsOf_eq_map
    intro t ht
    have := (hl.accepted t).1
    rw [hall t ht] at this
    exact List.prefix_nil.mp this
  obtain ⟨hpre, hle, -⟩ := hl.accepted .consumer
  rw [hone, Channel.itemsOf_eq_map hall] at hpre hle
  obtain ⟨hw, hlag⟩ := hl.written
  obtain ⟨more, hmore⟩ := hpre
  have hcount : (lines (a.accepted.map Prod.snd)).length = a.accepted.length := by
    have htake : a.accepted.map Prod.snd =
        ((pushed.take a.accepted.length).map pushOf).map Prod.snd := by
      have := congrArg (List.take a.accepted.length) hmore
      rw [List.take_left' (by simp), hpushed] at this
      rw [this, ← List.map_take, ← List.map_take]
    have hlt : a.accepted.length ≤ pushed.length := by
      have := congrArg List.length hmore
      rw [hpushed] at this
      simp only [List.length_append, List.length_map] at this
      omega
    rw [htake, lines_pushOf, List.length_map, List.length_take, Nat.min_eq_left hlt]
  have hlines : p.helper.written <+: p.sent.map fun msg => relay msg ++ [10] := by
    have : lines (a.accepted.map Prod.snd) <+: pushed.map fun msg => relay msg ++ [10] := by
      rw [← lines_pushOf, ← hpushed, ← hmore, lines_append]
      exact List.prefix_append _ _
    apply (hw.trans this).trans
    rw [hsplit, List.map_append]
    exact List.prefix_append _ _
  constructor
  · rw [List.prefix_iff_eq_take.mp hlines, List.length_take, ← List.map_take, ← List.flatMap_def,
      logFile, List.length_map, List.take_eq_take_iff.mpr]
    have := hlines.length_le
    rw [List.length_map] at this
    omega
  · intro hf
    have hbound := hi.bounded
    have hlag := hlag hf
    have hsent := congrArg List.length hsplit
    rw [hpushed] at hle
    simp only [List.length_map] at hle
    rw [List.length_append] at hsent
    omega

/-- **Every record reaches the log.** Whatever requests come, and in whatever order the workers,
the consumer and the writer run: the lines that have been written are the records of the requests
served, in the order in which they were sent, each once, up to those still on their way; what is
on its way fits the two queues, unless a write has failed; and a line is read back as the record
it was made from. -/
theorem log_pipeline_faithful (steps : List Step) (hn : steps.length + qSize.val ≤ 2 ^ 63) :
    ∃ k, readLines (Pipeline.run steps).helper.written.flatten.length
          (Pipeline.run steps).helper.written.flatten = (Pipeline.run steps).sent.take k ∧
      ((Pipeline.run steps).helper.status ≠ .failed →
        (Pipeline.run steps).sent.length ≤ k + qSize.val + maxMessageNumber + 2) ∧
      ∀ line ∈ (Pipeline.run steps).sent, ∃ v ∈ (Pipeline.run steps).served, ∃ o,
        line ∈ v.log ∧ LogDecode.parseObject line = some (record v.E o) := by
  obtain ⟨hwritten, hlag⟩ := written_eq (inv_run steps) hn
  refine ⟨(Pipeline.run steps).helper.written.length, ?_, hlag, ?_⟩
  · rw [hwritten]
    exact readLines_logFile (fun t ht => line_of_mem_sent (List.mem_of_mem_take ht)) le_rfl
  · intro line hline
    obtain ⟨v, hv, hlog⟩ := List.mem_flatMap.mp hline
    obtain ⟨o, rfl, -⟩ := mem_log hlog
    exact ⟨v, hv, o, hlog, LogDecode.parseObject_writeObject _ (by simp [record])⟩

/-- One request, whose record is received and written without a pause. -/
def oneVisit : List Step :=
  [.serve ⟨.still 1500000000, .ofList [(3, { open_ := 1, type := 2, uid := lit "iqiyi_id" })]
      (by decide) (by decide), ⟨[], by decide⟩, lit "/r.gif?ext=a"⟩, .receive] ++
    List.replicate 7 (.log .consumer false false false) ++
    List.replicate 7 (.log .writer false false false)

theorem log_pipeline_faithful_one :
    (Pipeline.run oneVisit).helper.written.length = 1 ∧
      ∃ k, readLines (Pipeline.run oneVisit).helper.written.flatten.length
        (Pipeline.run oneVisit).helper.written.flatten = (Pipeline.run oneVisit).sent.take k := by
  obtain ⟨k, hk, -, -⟩ := log_pipeline_faithful oneVisit (by decide +kernel)
  exact ⟨by decide +kernel, k, hk⟩

end NgxMapping.LogPipeline
