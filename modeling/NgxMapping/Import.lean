import NgxMapping.Attribution
import NgxMapping.Scylla

/-!
The stream and the log agree.

A finished request leaves a message for the subscriber and a record for the batch import. For
identifiers made of word characters both insert the same rows, although they select them by
different tests.
-/

namespace NgxMapping.Import

open Lib HttpRequest HttpResponse PartnerTable MappingModel MappingSpec Answer LogRecord LogDecode
open LogGrep ScyllaMessage Scylla

/-- ASCII letters, digits, `_` and `-`. -/
def wordByte (c : UInt8) : Bool :=
  isdigit c || (65 ≤ c && c ≤ 90) || (97 ≤ c && c ≤ 122) || c == 95 || c == 45

structure Word (s : Bytes) : Prop where
  ne_nil : s ≠ []
  bytes : ∀ c ∈ s, wordByte c = true

lemma Word.field {s : Bytes} (h : Word s) : Field s where
  sep := fun hi => absurd (h.bytes 44 (hi.subset (by decide))) (by decide)
  zero := fun h0 => absurd (h.bytes 0 h0) (by decide)

lemma Word.cstr {s : Bytes} (h : Word s) : cstr s = s := cstr_eq_self h.field.zero

lemma wordByte_lt {c : UInt8} (h : wordByte c = true) : c < 0x80 := by
  have h : dateByte c = true ∨ c = 95 := by
    simp only [wordByte, dateByte, Bool.or_eq_true, beq_iff_eq] at h ⊢
    tauto
  rcases h with h | rfl
  · exact dateByte_lt h
  · decide

/-! ### The batch import of a record -/

lemma get_uid (E : Env) (o : Mapping) :
    get (record E o) (lit "uid") = some (.string (cstr o.uid)) := rfl

lemma get_rmid (E : Env) (o : Mapping) :
    get (record E o) (lit "rmid") = some (.string (cstr o.rmid)) := rfl

lemma get_m (E : Env) (o : Mapping) : get (record E o) (lit "m") = some (.uint o.request.m) := rfl

lemma get_ext (E : Env) (o : Mapping) :
    get (record E o) (lit "ext") = some (.uint (toUint o.ext)) := rfl

/-- The names in a record, in their order. -/
def names : List Bytes :=
  [lit "source", lit "ext", lit "f", lit "m", lit "type", lit "time", lit "uid", lit "rmid",
    lit "is_new", lit "winner", lit "is_open", lit "error", lit "usetime"]

lemma record_names (E : Env) (o : Mapping) : (record E o).map Prod.fst = names := rfl

lemma record_plain (E : Env) (o : Mapping) : ∀ f ∈ record E o, Plain f.1 := by
  have hnames : ∀ k ∈ names, Plain k := by decide +kernel
  exact fun f hf => hnames f.1 (record_names E o ▸ List.mem_map.mpr ⟨f, hf, rfl⟩)

/-- The filter of the script lets a record through exactly when the call is active. -/
lemma grep_flag {E : Env} {o : Mapping} (hf : o.request.flag ≤ 1) :
    grep (lit "\"f\":1") (writeObject (record E o)) = true ↔ o.request.flag = 1 := by
  have hp : lit "\"f\":1" = pattern (lit "f") [49] := by decide
  rw [hp, grep_iff (by decide) (by decide) (by decide) (record_plain E o)]
  constructor
  · rintro ⟨n, hn, hpre⟩
    have hn : n = o.request.flag := by simpa +decide [record] using hn
    have h0 : o.request.flag ≠ 0 := by
      intro h0
      rw [hn, h0] at hpre
      exact absurd hpre (by decide)
    omega
  · intro h
    exact ⟨1, by rw [← h]; simp [record], by decide⟩

lemma readLines_record {E : Env} {o : Mapping} (hl : (writeObject (record E o)).length ≤ logLimit) :
    readLines (logFile [writeObject (record E o)]).length (logFile [writeObject (record E o)]) =
      [writeObject (record E o)] := by
  have h10 : (10 : UInt8) ∉ writeObject (record E o) := fun h => absurd (mem_text h).1 (by decide)
  have h0 : (0 : UInt8) ∉ writeObject (record E o) := fun h => absurd (mem_text h).1 (by decide)
  have htext : logFile [writeObject (record E o)] = writeObject (record E o) ++ [10] := by
    simp [logFile, relay_eq, cstr_eq_self h0]
  rw [htext]
  exact readLines_line h10 (hl.trans (by decide))

/-- The pair of an object, inserted into a table. -/
def insertPair (table : Bytes) (o : Mapping) : List Row :=
  insert table (some (.string o.rmid)) (some (.string o.uid))

lemma cinLine_record {E : Env} {o : Mapping} (hr : Word o.rmid) (hu : Word o.uid)
    (hv : validUtf8 (writeObject (record E o)) = true) (h0 : -2 ^ 31 ≤ o.ext) (h1 : o.ext < 2 ^ 31)
    {key : ℕ} (hk : key < 2 ^ 31) (table : Bytes) (sp : Bool) :
    cinLine key table sp (writeObject (record E o)) =
      if o.request.m ≠ 1 ∧ o.ext = key then
        insertPair table o ++ if sp then insertPair (dmp table) o else []
      else [] := by
  have hd : jsonDecode (writeObject (record E o)) = some (record E o) := by
    rw [jsonDecode, if_pos hv, parseObject_writeObject _ (by simp [record])]
  unfold cinLine
  rw [hd]
  simp only [get_uid, get_rmid, get_m, get_ext, hr.cstr, hu.cstr, looseEq, decide_eq_true_eq,
    Bool.not_eq_true', decide_eq_false_iff_not, toUint_eq_iff h0 h1 hk]
  by_cases he : phpEmpty (some (.string o.rmid)) || phpEmpty (some (.string o.uid))
  · have hnil : ∀ t, insertPair t o = [] := fun t => if_pos he
    rw [Bool.or_comm, if_pos he, hnil, hnil]
    simp
  · rw [Bool.or_comm, if_neg he]
    by_cases hm : o.request.m = 1
    · simp [hm]
    · by_cases hx : o.ext = key
      · simp [hm, hx, insertPair]
      · simp [hm, hx]

/-! ### The tables -/

/-- What the two programs rely on in the list of tables. -/
structure Listed (key : ℕ) (table : Bytes) : Prop where
  small : key < 2 ^ 31
  last : (tablePairs.filter fun pair => pair.2 = table).getLast? = some (key, table)
  first : (tablePairs.find? fun pair => (pair.1 : ℤ) = key) = some (key, table)
  special : (table = lit "iqiyi" ∨ table = lit "youku") ↔ key = 3 ∨ key = 8
  tencent : table = lit "tencent" ↔ key = 2
  mapped : key ≠ 0 → (key : ℤ) ∈ mappingVec

lemma listed {key : ℕ} {table : Bytes} (h : (key, table) ∈ tablePairs) : Listed key table := by
  have h1 : ∀ pair ∈ tablePairs, pair.1 < 2 ^ 31 ∧
    (tablePairs.filter fun q => q.2 = pair.2).getLast? = some pair ∧
    (tablePairs.find? fun q => (q.1 : ℤ) = pair.1) = some pair ∧
    ((pair.2 = lit "iqiyi" ∨ pair.2 = lit "youku") ↔ pair.1 = 3 ∨ pair.1 = 8) ∧
    (pair.2 = lit "tencent" ↔ pair.1 = 2) ∧
    (pair.1 ≠ 0 → (pair.1 : ℤ) ∈ mappingVec) := by decide +kernel
  obtain ⟨k1, k2, k3, k4, k5, k6⟩ := h1 (key, table) h
  exact ⟨k1, k2, k3, k4, k5, k6⟩

lemma key_eq {key key' : ℕ} {table table' : Bytes} (h : (key, table) ∈ tablePairs)
    (h' : (key', table') ∈ tablePairs)
    (ht : table' ∈ [table, dmp table] ∨ dmp table' ∈ [table, dmp table]) : key' = key := by
  have h1 : ∀ p ∈ tablePairs, ∀ q ∈ tablePairs,
    q.2 ∈ [p.2, dmp p.2] ∨ dmp q.2 ∈ [p.2, dmp p.2] → q.1 = p.1 := by decide +kernel
  exact h1 _ h _ h' ht

lemma batch_record {E : Env} {o : Mapping} (hr : Word o.rmid) (hu : Word o.uid)
    (hv : validUtf8 (writeObject (record E o)) = true) (h0 : -2 ^ 31 ≤ o.ext) (h1 : o.ext < 2 ^ 31)
    (hf : o.request.flag ≤ 1) (hl : (writeObject (record E o)).length ≤ logLimit)
    {key : ℕ} {table : Bytes} (ht : Listed key table) :
    batch table (logFile [writeObject (record E o)]) =
      if (key = 2 → o.request.flag = 1) ∧ o.request.m ≠ 1 ∧ o.ext = key then
        insertPair table o ++ if key = 3 ∨ key = 8 then insertPair (dmp table) o else []
      else [] := by
  have hsp : (decide (table = lit "iqiyi") || decide (table = lit "youku")) =
      decide (key = 3 ∨ key = 8) := by
    rw [Bool.eq_iff_iff]
    simpa using ht.special
  have hlines : (if table = lit "tencent" then
        [writeObject (record E o)].filter (grep (lit "\"f\":1")) else [writeObject (record E o)]) =
      if key = 2 → o.request.flag = 1 then [writeObject (record E o)] else [] := by
    by_cases hk : key = 2
    · rw [if_pos (ht.tencent.mpr hk), List.filter_singleton, Bool.cond_eq_ite]
      simp only [grep_flag hf, hk, true_imp_iff]
    · rw [if_neg fun h => hk (ht.tencent.mp h), if_pos fun h => absurd h hk]
  unfold batch cinLog
  simp only [readLines_record hl, ht.last, hsp, hlines]
  split
  · rename_i ha
    rw [List.flatMap_singleton, cinLine_record hr hu hv h0 h1 ht.small]
    simp only [eq_true ha, true_and, decide_eq_true_eq]
  · rename_i ha
    simp [ha]

lemma batch_invalid {E : Env} {o : Mapping} (hv : validUtf8 (writeObject (record E o)) = false)
    (hl : (writeObject (record E o)).length ≤ logLimit) (table : Bytes) :
    batch table (logFile [writeObject (record E o)]) = [] := by
  have hline : ∀ ext table sp, cinLine ext table sp (writeObject (record E o)) = [] := by
    intro ext table sp
    simp [cinLine, jsonDecode, hv]
  unfold batch cinLog
  simp only [readLines_record hl]
  split
  · rfl
  · split
    · rw [List.filter_singleton, Bool.cond_eq_ite]
      split <;> simp [hline]
    · simp [hline]

/-! ### The subscriber -/

lemma subscriber_message {o : Mapping} (hr : Word o.rmid) (hu : Word o.uid) :
    subscriber (relay (scyllaMsg o.ext o.rmid o.uid)) =
      match tablePairs.find? fun pair => (pair.1 : ℤ) = o.ext with
      | none => []
      | some (key, table) =>
        (if key = 3 ∨ key = 8 then insertPair (dmp table) o else []) ++ insertPair table o := by
  have hkey : ∀ n : ℕ, some (natStr n) = some (toStr o.ext) ↔ (n : ℤ) = o.ext := by
    intro n
    rw [← toStr_natCast, Option.some_inj, toStr_injective.eq_iff]
  unfold subscriber scyllaMsg
  rw [splitContent_relay (field_toStr o.ext) hr.field hu.field]
  simp only [hkey]
  rfl

lemma subscriber_table {o : Mapping} (hr : Word o.rmid) (hu : Word o.uid) {key : ℕ} {table : Bytes}
    (ht : (key, table) ∈ tablePairs) :
    ((subscriber (relay (scyllaMsg o.ext o.rmid o.uid))).filter fun row =>
        row.table ∈ [table, dmp table]).Perm
      (if o.ext = key then
        insertPair table o ++ if key = 3 ∨ key = 8 then insertPair (dmp table) o else []
      else []) := by
  have hrows : ∀ t, ∀ row ∈ insertPair t o, row.table = t := by
    intro t row hrow
    unfold insertPair Scylla.insert at hrow
    split at hrow
    · simp at hrow
    · simp_all
  rw [subscriber_message hr hu]
  by_cases he : o.ext = key
  · rw [if_pos he, he, (listed ht).first, List.filter_eq_self.mpr]
    · exact List.perm_append_comm
    · intro row hrow
      rcases List.mem_append.mp hrow with hrow | hrow
      · split at hrow
        · simp [hrows _ row hrow]
        · simp at hrow
      · simp [hrows _ row hrow]
  · rw [if_neg he, List.filter_eq_nil_iff.mpr]
    intro row hrow hmem
    split at hrow
    · simp at hrow
    · rename_i key' table' hfind
      have hmem : row.table ∈ [table, dmp table] := by simpa using hmem
      have hkey' : (key' : ℤ) = o.ext := by simpa using List.find?_some hfind
      refine he (hkey' ▸ congrArg Nat.cast (key_eq ht (List.mem_of_find?_eq_some hfind) ?_))
      rcases List.mem_append.mp hrow with hrow | hrow
      · split at hrow
        · exact .inr (hrows _ row hrow ▸ hmem)
        · simp at hrow
      · exact .inl (hrows _ row hrow ▸ hmem)

/-! ### A logged object -/

lemma mem_strings_record {E : Env} {o : Mapping} {f : Bytes × Value} {s : Bytes}
    (hf : f ∈ record E o) (hs : s ∈ strings f) :
    s ∈ names ∨ s ∈ [cstr o.request.source, logDate (E.localtime E.logTime), cstr o.uid,
      cstr o.rmid] := by
  have hname : f.1 ∈ names := record_names E o ▸ List.mem_map.mpr ⟨f, hf, rfl⟩
  obtain ⟨k, v⟩ := f
  cases v with
  | uint n => exact .inl (List.mem_singleton.mp hs ▸ hname)
  | string t =>
    rcases List.mem_cons.mp hs with rfl | hs
    · exact .inl hname
    · obtain rfl := List.mem_singleton.mp hs
      right
      simp only [record, List.mem_cons, Prod.mk.injEq, Value.string.injEq, reduceCtorEq, and_false,
        false_or, or_false, List.not_mem_nil] at hf ⊢
      tauto

lemma valid_record {E : Env} {o : Mapping} (hr : Word o.rmid) (hu : Word o.uid) {n : ℕ}
    (hs : o.request.source = natStr n) : validUtf8 (writeObject (record E o)) = true := by
  have hnames : ∀ s ∈ names, ∀ c ∈ s, c < 0x80 := by decide +kernel
  refine validUtf8_ascii fun d hd => (mem_text hd).2 fun f hf s hfs c hc => ?_
  rcases mem_strings_record hf hfs with h | h
  · exact hnames s h c hc
  · simp only [List.mem_cons, List.not_mem_nil, or_false] at h
    rcases h with rfl | rfl | rfl | rfl
    · rw [hs] at hc
      exact (isdigit_printable (isdigit_of_mem_natStr (cstr_subset _ hc))).2
    · exact dateByte_lt (List.all_eq_true.mp (dateByte_logDate _) c hc)
    · exact wordByte_lt (hu.bytes c (cstr_subset _ hc))
    · exact wordByte_lt (hr.bytes c (cstr_subset _ hc))

/-- An object as `log_save` meets it: numbers in their ranges, two words, and a source that is a
number when a pair is sent. -/
structure Loggable (o : Mapping) : Prop where
  rmid : Word o.rmid
  uid : Word o.uid
  ext_ge : -2 ^ 31 ≤ o.ext
  ext_lt : o.ext < 2 ^ 31
  flag : o.request.flag ≤ 1
  m : o.request.m ≤ 1
  source : sendsScylla o = true → ∃ n, o.request.source = natStr n

/-- A table is asked for by its code; the other tests of the handler are those of the import. -/
lemma sends_iff {o : Mapping} (ho : Loggable o) {key : ℕ} {table : Bytes} (ht : Listed key table)
    (h0 : key ≠ 0) (he : o.ext = key) :
    sendsScylla o = true ↔ (key = 2 → o.request.flag = 1) ∧ o.request.m ≠ 1 := by
  have hm := ho.m
  have hmap := ht.mapped h0
  have hr := ho.rmid.ne_nil
  have hu := ho.uid.ne_nil
  rw [Attribution.sendsScylla_iff, he]
  by_cases hk : key = 2
  · have h2 : ((key : ℕ) : ℤ) = 2 := by omega
    rw [if_pos h2]
    constructor
    · rintro ⟨-, -, h1, h2⟩
      exact ⟨fun _ => h2, by omega⟩
    · rintro ⟨h1, h2⟩
      exact ⟨hr, hu, by omega, h1 hk⟩
  · have h2 : ((key : ℕ) : ℤ) ≠ 2 := by omega
    rw [if_neg h2]
    constructor
    · rintro ⟨-, -, h1, -⟩
      exact ⟨fun h => absurd h hk, by omega⟩
    · rintro ⟨-, h2⟩
      exact ⟨hr, hu, by omega, hmap⟩

lemma logSave_agrees {E : Env} {o : Mapping} {rUrl : Bytes} (ho : Loggable o)
    (hl : (writeObject (record E o)).length ≤ logLimit)
    (hs : sendsScylla o = true → (scyllaMsg o.ext o.rmid o.uid).length ≤ scyllaLimit)
    {key : ℕ} {table : Bytes} (ht : (key, table) ∈ tablePairs) (h0 : key ≠ 0) :
    ((stream (logSave E o rUrl).scylla).filter fun row => row.table ∈ [table, dmp table]).Perm
      (batch table (logFile (logSave E o rUrl).log)) := by
  have hlog : (logSave E o rUrl).log = [writeObject (record E o)] := by simp [logSave, send, hl]
  have hscylla : (logSave E o rUrl).scylla =
      if sendsScylla o then [scyllaMsg o.ext o.rmid o.uid] else [] := by
    by_cases h : sendsScylla o = true
    · simp [logSave, send, h, hs h]
    · simp [logSave, h]
  rw [hlog, hscylla, stream]
  by_cases hv : validUtf8 (writeObject (record E o)) = true
  · rw [batch_record ho.rmid ho.uid hv ho.ext_ge ho.ext_lt ho.flag hl (listed ht)]
    by_cases he : o.ext = key
    · have hiff := sends_iff ho (listed ht) h0 he
      by_cases hsend : sendsScylla o = true
      · rw [if_pos hsend, List.flatMap_singleton,
          if_pos ⟨(hiff.mp hsend).1, (hiff.mp hsend).2, he⟩]
        simpa [he] using subscriber_table ho.rmid ho.uid ht
      · rw [if_neg hsend, if_neg fun h => hsend (hiff.mpr ⟨h.1, h.2.1⟩)]
        simp
    · have hno : ¬ ((key = 2 → o.request.flag = 1) ∧ o.request.m ≠ 1 ∧ o.ext = key) :=
        fun h => he h.2.2
      rw [if_neg hno]
      split
      · rw [List.flatMap_singleton]
        simpa [he] using subscriber_table ho.rmid ho.uid ht
      · simp
  · -- what is sent would be ASCII
    have hsend : sendsScylla o ≠ true := by
      intro hsend
      obtain ⟨n, hn⟩ := ho.source hsend
      exact hv (valid_record ho.rmid ho.uid hn)
    rw [if_neg hsend, batch_invalid (by simpa using hv) hl]
    simp

/-! ### Finished requests -/

lemma logged_sends {o o' : Mapping} {exit : Exit} (h : Logged o exit o') (hm : o.request.m = 0)
    (hs : sendsScylla o' = true) : exit ≠ .mobile ∧ sendsScylla o = true := by
  rw [Attribution.sendsScylla_iff, h.rmid, h.uid, h.m, h.ext, h.flag] at hs
  obtain ⟨h1, h2, h3, h4⟩ := hs
  refine ⟨fun hx => by simp [hx] at h3, (Attribution.sendsScylla_iff o).mpr ⟨h1, h2, hm, h4⟩⟩

lemma extOf_bounds (uri : Bytes) : -2 ^ 31 ≤ extOf uri ∧ extOf uri < 2 ^ 31 := by
  have hite : ∀ (p : Prop) [Decidable p] {a b : ℤ}, -2 ^ 31 ≤ a ∧ a < 2 ^ 31 →
      -2 ^ 31 ≤ b ∧ b < 2 ^ 31 →
      -2 ^ 31 ≤ (if p then a else b) ∧ (if p then a else b) < 2 ^ 31 := by
    intro p _ a b ha hb
    split
    · exact ha
    · exact hb
  have hcode : ∀ s, -2 ^ 31 ≤ extCode s ∧ extCode s < 2 ^ 31 := by
    intro s
    unfold extCode
    iterate 10 refine hite _ (by decide) ?_
    exact hite _ ⟨wrap32_ge _, wrap32_lt _⟩ (by decide)
  unfold extOf givenExt
  exact hite _ (by decide) (hite _ (by decide) (hite _ (by decide) (hcode _)))

lemma loggable_of_logged {E : Env} {P : Partners} {headers : UMap Bytes Bytes} {uri : Bytes}
    {exit : Exit} {o : Mapping} (h : Logged (object E P headers uri) exit o)
    (hr : Word (rmidOf E headers uri)) (hu : Word (uidOf P uri)) : Loggable o where
  rmid := h.rmid ▸ hr
  uid := h.uid ▸ hu
  ext_ge := h.ext ▸ (extOf_bounds uri).1
  ext_lt := h.ext ▸ (extOf_bounds uri).2
  flag := by
    have hflag : o.request.flag = flagOf uri := h.flag
    rw [hflag, flagOf]
    split <;> omega
  m := by
    rw [h.m]
    split <;> omega
  source := by
    intro hs
    have hs : sendsScylla (object E P headers uri) = true := (logged_sends h rfl hs).2
    have hsrc := (Attribution.not_adDefault hs).2
    obtain ⟨p, hp⟩ := Option.isSome_iff_exists.mp (by simpa using hsrc)
    obtain ⟨i, -, hi⟩ := Partners.lookup_some hp
    exact ⟨i, h.source.trans hi⟩

/-- **The stream and the log agree.** -/
theorem import_agrees (E : Env) (P : Partners) (headers : UMap Bytes Bytes) (uri : Bytes)
    (hfinished : (serve E P headers uri).exit ≠ .uidFault ∧
      (serve E P headers uri).exit ≠ .selfFault)
    (hr : Word (rmidOf E headers uri)) (hu : Word (uidOf P uri))
    (hlog : (serve E P headers uri).queues.log ≠ [])
    (hscylla : (serve E P headers uri).exit ≠ .mobile →
      sendsScylla (object E P headers uri) = true →
      (scyllaMsg (extOf uri) (rmidOf E headers uri) (uidOf P uri)).length ≤ scyllaLimit)
    (key : ℕ) (table : Bytes) (ht : (key, table) ∈ tablePairs) (htest : table ≠ lit "test") :
    ((stream (serve E P headers uri).queues.scylla).filter fun row =>
        row.table ∈ [table, dmp table]).Perm
      (batch table (logFile (serve E P headers uri).queues.log)) := by
  have hf : ¬ UidFault P uri := not_uidFault hfinished.1
  have h0 : key ≠ 0 := by
    have hkeys : ∀ pair ∈ tablePairs, pair.2 ≠ lit "test" → pair.1 ≠ 0 := by decide +kernel
    exact hkeys _ ht htest
  obtain ⟨o, rUrl, ho, hq⟩ := ends_logged (serve_ends hf) rfl hfinished.2
  rw [hq] at hlog ⊢
  refine logSave_agrees (loggable_of_logged ho hr hu) ?_ (fun hs => ?_) ht h0
  · by_contra hl
    exact hlog (by simp [logSave, send, hl])
  · obtain ⟨hm, hs⟩ := logged_sends ho rfl hs
    rw [ho.ext, ho.rmid, ho.uid]
    exact hscylla hm hs

def iqiyiOnly : Partners := .ofList [(3, { open_ := 1, type := 1, uid := lit "qiyi_uid" })]
  (by decide) (by decide)

def iqiyiHeaders : UMap Bytes Bytes := ⟨[(lit "Cookie", lit "a=6fh7lUjA2X")], by decide⟩

def iqiyiUri : Bytes := lit "/r.gif?ext=a&qiyi_uid=q7_1"

theorem import_agrees_iqiyi :
    ((stream (serve (.still 1500000000) iqiyiOnly iqiyiHeaders iqiyiUri).queues.scylla).filter
        fun row => row.table ∈ [lit "iqiyi", dmp (lit "iqiyi")]).Perm
      (batch (lit "iqiyi")
        (logFile (serve (.still 1500000000) iqiyiOnly iqiyiHeaders iqiyiUri).queues.log)) ∧
    stream (serve (.still 1500000000) iqiyiOnly iqiyiHeaders iqiyiUri).queues.scylla =
      [⟨lit "iqiyi_dmp", lit "6fh7lUjA2X", lit "q7_1"⟩,
        ⟨lit "iqiyi", lit "6fh7lUjA2X", lit "q7_1"⟩] :=
  ⟨import_agrees _ _ _ _ (by decide +kernel) ⟨by decide +kernel, by decide +kernel⟩
    ⟨by decide +kernel, by decide +kernel⟩ (by decide +kernel) (fun _ _ => by decide +kernel) 3 _
    (by decide +kernel) (by decide +kernel), by decide +kernel⟩

end NgxMapping.Import
