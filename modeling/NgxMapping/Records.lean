import NgxMapping.Attribution

/-!
Which records reach the queues.

Every way of `handle` ends in one call of `log_save`, but the queues are created with limits
of 400 and 100 bytes, and what exceeds them is dropped. The lengths are functions of the
request and of the partner it names.
-/

namespace NgxMapping.Records

open Lib HttpRequest HttpResponse PartnerTable TokenMatch LogRecord MappingModel MappingSpec Answer

/-- The bytes a string takes inside its quotes. -/
def escapedLength (s : Bytes) : ℕ := (s.flatMap escape).length

def digits (n : ℕ) : ℕ := (natStr n).length

def valueLength : Value → ℕ
  | .string s => escapedLength s + 2
  | .uint n => digits n

lemma digits_of_lt {n : ℕ} (h : n < 10) : digits n = 1 := by
  interval_cases n <;> rfl

lemma length_writeField (f : Bytes × Value) :
    (writeField f).length = escapedLength f.1 + valueLength f.2 + 3 := by
  obtain ⟨k, v⟩ := f
  cases v with
  | string s => simp [writeField, writeString, writeValue, escapedLength, valueLength]; omega
  | uint n => simp [writeField, writeString, writeValue, escapedLength, valueLength, digits]; omega

lemma length_writeObject (f : Bytes × Value) (fs : List (Bytes × Value)) :
    (writeObject (f :: fs)).length =
      ((f :: fs).map fun f => escapedLength f.1 + valueLength f.2 + 4).sum + 1 := by
  have key : ∀ (ts : List Bytes) (t : Bytes), (([44] : Bytes).intercalate (t :: ts)).length + 1 =
      ((t :: ts).map fun t => t.length + 1).sum := by
    intro ts
    induction ts with
    | nil => simp [List.intercalate]
    | cons u ts ih =>
      intro t
      have h := ih u
      have hj : ([44] : Bytes).intercalate (t :: u :: ts) =
          t ++ 44 :: ([44] : Bytes).intercalate (u :: ts) := by simp [List.intercalate]
      rw [hj, List.length_append, List.length_cons, List.map_cons, List.sum_cons, ← h]
      omega
  have h := key (fs.map writeField) (writeField f)
  rw [← List.map_cons, List.map_map] at h
  have hlen : ((fun t : Bytes => t.length + 1) ∘ writeField) =
      fun f => escapedLength f.1 + valueLength f.2 + 4 := by
    funext f
    rw [Function.comp_apply, length_writeField]
  rw [hlen] at h
  rw [writeObject, List.length_cons, List.length_append, List.length_singleton, ← h]

/-- The length of a record, for all values that are not of one digit in every record. -/
lemma length_record (E : Env) {o : Mapping} (hf : o.request.flag < 10) (hm : o.request.m < 10)
    (hn : o.request.isNew < 10) :
    (writeObject (record E o)).length =
      123 + escapedLength (cstr o.request.source) + escapedLength (cstr o.uid) +
        escapedLength (cstr o.rmid) + escapedLength (logDate (E.localtime E.logTime)) +
        digits (toUint o.ext) + digits (toUint o.request.type) + digits (toUint o.request.pid) +
        digits (toUint o.request.partner.open_) := by
  have herr : o.request.error.code < 10 := by cases o.request.error <;> decide
  have hnames : escapedLength (lit "source") = 6 ∧ escapedLength (lit "ext") = 3 ∧
      escapedLength (lit "f") = 1 ∧ escapedLength (lit "m") = 1 ∧ escapedLength (lit "type") = 4 ∧
      escapedLength (lit "time") = 4 ∧ escapedLength (lit "uid") = 3 ∧
      escapedLength (lit "rmid") = 4 ∧ escapedLength (lit "is_new") = 6 ∧
      escapedLength (lit "winner") = 6 ∧ escapedLength (lit "is_open") = 7 ∧
      escapedLength (lit "error") = 5 ∧ escapedLength (lit "usetime") = 7 := by decide
  obtain ⟨h1, h2, h3, h4, h5, h6, h7, h8, h9, h10, h11, h12, h13⟩ := hnames
  unfold record
  rw [length_writeObject]
  simp only [List.map_cons, List.map_nil, List.sum_cons, List.sum_nil, valueLength, h1, h2, h3, h4,
    h5, h6, h7, h8, h9, h10, h11, h12, h13, digits_of_lt hf, digits_of_lt hm, digits_of_lt hn,
    digits_of_lt herr, digits_of_lt (show 0 < 10 by decide)]
  omega

/-! ### What is logged -/

instance (ua : Bytes) (o : Mapping) : Decidable (Passes ua o) :=
  decidable_of_iff (o.request.error = .error ∧ o.request.partner.open_ ≠ 0 ∧
      (o.ext = 4 ∨ tokenMatchSize ua mobile ≤ 1))
    ⟨fun h => ⟨h.1, h.2.1, h.2.2⟩, fun h => ⟨h.clean, h.isOpen, h.desktop⟩⟩

/-- The request is turned away as a mobile one. -/
def TurnedAway (ua : Bytes) (o : Mapping) : Prop :=
  o.request.error = .error ∧ o.request.partner.open_ ≠ 0 ∧ o.ext ≠ 4 ∧
    1 < tokenMatchSize ua mobile

instance (ua : Bytes) (o : Mapping) : Decidable (TurnedAway ua o) :=
  inferInstanceAs (Decidable (_ ∧ _))

/-- The object as it is logged: the fields that a record shows. -/
structure Recorded (E : Env) (ua : Bytes) (o o' : Mapping) : Prop where
  ext : o'.ext = o.ext
  rmid : o'.rmid = o.rmid
  uid : o'.uid = o.uid
  source : o'.request.source = o.request.source
  flag : o'.request.flag = o.request.flag
  type : o'.request.type = o.request.type
  isNew : o'.request.isNew = o.request.isNew
  partner : o'.request.partner = o.request.partner
  winner : o'.request.pid = if Passes ua o then selected E o else 0
  m : o'.request.m = if TurnedAway ua o then 1 else 0

lemma not_turnedAway_of_passes {ua : Bytes} {o : Mapping} (h : Passes ua o) :
    ¬ TurnedAway ua o := by
  intro ht
  have := h.desktop
  have := ht.2.2
  omega

section Recorded

variable {E : Env} {ua : Bytes} {o : Mapping}

lemma recorded_of_stopped (hno : ¬ Passes ua o) (ht : ¬ TurnedAway ua o) (hm : o.request.m = 0)
    (hpid : o.request.pid = 0) : Recorded E ua o o where
  ext := rfl
  rmid := rfl
  uid := rfl
  source := rfl
  flag := rfl
  type := rfl
  isNew := rfl
  partner := rfl
  winner := by rw [if_neg hno, hpid]
  m := by rw [if_neg ht, hm]

lemma recorded_of_turnedAway (ht : TurnedAway ua o) (hpid : o.request.pid = 0) :
    Recorded E ua o { o with request := { o.request with m := 1 } } where
  ext := rfl
  rmid := rfl
  uid := rfl
  source := rfl
  flag := rfl
  type := rfl
  isNew := rfl
  partner := rfl
  winner := by rw [if_neg fun hp => not_turnedAway_of_passes hp ht, hpid]
  m := by rw [if_pos ht]

lemma recorded_of_passes (h : Passes ua o) (hm : o.request.m = 0) :
    Recorded E ua o (chosen E o) where
  ext := rfl
  rmid := rfl
  uid := rfl
  source := rfl
  flag := rfl
  type := rfl
  isNew := rfl
  partner := rfl
  winner := (if_pos h).symm
  m := by
    rw [if_neg (not_turnedAway_of_passes h)]
    exact hm

/-- **Every way of the handler logs its object once.** -/
theorem ends_recorded {P : Partners} {rep : Response} {out : Outcome} (h : Ends E P ua o rep out)
    (hm : o.request.m = 0) (hpid : o.request.pid = 0) (hx : out.exit ≠ .selfFault) :
    ∃ o' rUrl, Recorded E ua o o' ∧ out.queues = logSave E o' rUrl := by
  cases h with
  | error h =>
    have hno : ¬ Passes ua o := fun hp => h hp.clean
    exact ⟨o, [], recorded_of_stopped hno (fun ht => h ht.1) hm hpid, rfl⟩
  | closed h ho =>
    have hno : ¬ Passes ua o := fun hp => hp.isOpen ho
    exact ⟨o, [], recorded_of_stopped hno (fun ht => ht.2.1 ho) hm hpid, rfl⟩
  | mobile h ho he hc => exact ⟨_, [], recorded_of_turnedAway ⟨h, ho, he, hc⟩ hpid, rfl⟩
  | selfFault => exact absurd rfl hx
  | tencentSelf h => exact ⟨chosen E o, _, recorded_of_passes h hm, rfl⟩
  | ownSelf h => exact ⟨chosen E o, _, recorded_of_passes h hm, rfl⟩
  | nothing h => exact ⟨chosen E o, [], recorded_of_passes h hm, rfl⟩
  | noUrl h =>
    obtain ⟨h1, h2, h3, h4, h5, h6, h7, h8, h9, h10⟩ := recorded_of_passes (E := E) h hm
    exact ⟨urlless (chosen E o), [], ⟨h1, h2, h3, h4, h5, h6, h7, h8, h9, h10⟩, rfl⟩
  | partnerUrl h => exact ⟨chosen E o, _, recorded_of_passes h hm, rfl⟩

end Recorded

/-! ### The limits -/

section Limits

variable (E : Env) (P : Partners) (headers : UMap Bytes Bytes) (uri : Bytes)

/-- The length of the record of a request: 123 bytes, the escaped strings, and the digits of
the code and of the partner's numbers. -/
def recordLength : ℕ :=
  let o := object E P headers uri
  123 + escapedLength (cstr (sourceOf uri)) + escapedLength (cstr (uidOf P uri)) +
    escapedLength (cstr (rmidOf E headers uri)) +
    escapedLength (logDate (E.localtime E.logTime)) + digits (toUint (extOf uri)) +
    digits (toUint o.request.type) +
    digits (toUint (if Passes (userAgent headers) o then selected E o else 0)) +
    digits (toUint o.request.partner.open_)

/-- The length of the message with its pair. -/
def messageLength : ℕ :=
  (toStr (extOf uri)).length + 2 + (rmidOf E headers uri).length + 2 + (uidOf P uri).length

def Wanted : Prop :=
  rmidOf E headers uri ≠ [] ∧ uidOf P uri ≠ [] ∧
    ¬ TurnedAway (userAgent headers) (object E P headers uri) ∧
    (extOf uri = 2 ∧ flagOf uri = 1 ∨ extOf uri ≠ 2 ∧ extOf uri ∈ mappingVec)

instance : Decidable (Wanted E P headers uri) := inferInstanceAs (Decidable (_ ∧ _))

end Limits

lemma length_send_eq_one (limit : ℕ) (msg : Bytes) :
    (send limit [] msg).length = 1 ↔ msg.length ≤ limit := by
  unfold send
  split
  · rename_i h
    exact iff_of_true rfl h
  · rename_i h
    exact iff_of_false (by decide) h

section Logged

variable {E : Env} {P : Partners} {headers : UMap Bytes Bytes} {uri : Bytes} {o' : Mapping}

variable (uri) in
lemma flagOf_lt : flagOf uri < 10 := by
  unfold flagOf
  split <;> decide

variable (E P headers uri) in
lemma object_isNew_lt : (object E P headers uri).request.isNew < 10 := by
  unfold object
  dsimp only
  split <;> decide

lemma length_record_of_recorded
    (h : Recorded E (userAgent headers) (object E P headers uri) o') :
    (writeObject (record E o')).length = recordLength E P headers uri := by
  have hflag : o'.request.flag < 10 := by
    rw [h.flag]
    exact flagOf_lt uri
  have hnew : o'.request.isNew < 10 := by
    rw [h.isNew]
    exact object_isNew_lt E P headers uri
  have hm : o'.request.m < 10 := by
    rw [h.m]
    split <;> decide
  rw [length_record E hflag hm hnew, h.source, h.uid, h.rmid, h.ext, h.type, h.winner, h.partner]
  rfl

lemma sendsScylla_of_recorded
    (h : Recorded E (userAgent headers) (object E P headers uri) o') :
    sendsScylla o' = true ↔ Wanted E P headers uri := by
  have hm : o'.request.m = 0 ↔ ¬ TurnedAway (userAgent headers) (object E P headers uri) := by
    rw [h.m]
    split
    · rename_i ht
      exact iff_of_false (by decide) (not_not.mpr ht)
    · rename_i ht
      exact iff_of_true rfl ht
  have hcode : (if extOf uri = 2 then flagOf uri = 1 else extOf uri ∈ mappingVec) ↔
      extOf uri = 2 ∧ flagOf uri = 1 ∨ extOf uri ≠ 2 ∧ extOf uri ∈ mappingVec := by
    split
    · rename_i he
      simp [he]
    · rename_i he
      simp [he]
  rw [Attribution.sendsScylla_iff, hm, h.rmid, h.uid, h.ext, h.flag]
  exact and_congr Iff.rfl (and_congr Iff.rfl (and_congr Iff.rfl hcode))

lemma length_scyllaMsg_of_recorded
    (h : Recorded E (userAgent headers) (object E P headers uri) o') :
    (scyllaMsg o'.ext o'.rmid o'.uid).length = messageLength E P headers uri := by
  have hsep : (lit ", ").length = 2 := by decide
  rw [h.ext, h.rmid, h.uid, scyllaMsg, List.length_append, List.length_append, List.length_append,
    List.length_append, hsep]
  rfl

end Logged

/-- **The records that are lost are those above the limits.** -/
theorem no_record_lost_iff (E : Env) (P : Partners) (headers : UMap Bytes Bytes) (uri : Bytes)
    (hx : (serve E P headers uri).exit ≠ .uidFault ∧ (serve E P headers uri).exit ≠ .selfFault) :
    ((serve E P headers uri).queues.log.length = 1 ∧
      (serve E P headers uri).queues.scylla.length =
        if Wanted E P headers uri then 1 else 0) ↔
      recordLength E P headers uri ≤ 400 ∧
        (Wanted E P headers uri → messageLength E P headers uri ≤ 100) := by
  have hends := @serve_ends E P headers uri (not_uidFault hx.1)
  obtain ⟨o', rUrl, hrec, hq⟩ := ends_recorded hends rfl rfl hx.2
  have hlog : (logSave E o' rUrl).log.length = 1 ↔ recordLength E P headers uri ≤ 400 := by
    rw [logSave, length_send_eq_one, length_record_of_recorded hrec, logLimit]
  have hscylla : ((logSave E o' rUrl).scylla.length = if Wanted E P headers uri then 1 else 0) ↔
      (Wanted E P headers uri → messageLength E P headers uri ≤ 100) := by
    rw [logSave]
    dsimp only
    by_cases hw : Wanted E P headers uri
    · rw [if_pos ((sendsScylla_of_recorded hrec).mpr hw), if_pos hw, length_send_eq_one,
        length_scyllaMsg_of_recorded hrec, scyllaLimit]
      exact (imp_iff_right hw).symm
    · rw [if_neg fun hs => hw ((sendsScylla_of_recorded hrec).mp hs), if_neg hw]
      simp [hw]
  rw [hq, hlog, hscylla]

def iqiyiTable : Partners :=
  .ofList [(3, { open_ := 1, type := 1, uid := lit "aid" })] (by decide) (by decide)

/-- A short user id is logged and stored. -/
theorem no_record_lost_iqiyi :
    (serve (.still 1500000000) iqiyiTable UMap.empty
        (lit "/m.gif?aid=O05Oc0&ext=3")).queues.log.length = 1 ∧
      (serve (.still 1500000000) iqiyiTable UMap.empty
        (lit "/m.gif?aid=O05Oc0&ext=3")).queues.scylla.length =
        if Wanted (.still 1500000000) iqiyiTable UMap.empty (lit "/m.gif?aid=O05Oc0&ext=3") then 1
        else 0 :=
  (no_record_lost_iff (.still 1500000000) iqiyiTable UMap.empty (lit "/m.gif?aid=O05Oc0&ext=3")
    (by decide +kernel)).mpr (by decide +kernel)

/-- The pair of a user id of ninety bytes is logged but not stored. -/
theorem pair_lost_iqiyi :
    (serve (.still 1500000000) iqiyiTable UMap.empty
      (lit "/m.gif?ext=3&aid=" ++ List.replicate 90 97)).exit = .nothing ∧
    Wanted (.still 1500000000) iqiyiTable UMap.empty
      (lit "/m.gif?ext=3&aid=" ++ List.replicate 90 97) ∧
    (serve (.still 1500000000) iqiyiTable UMap.empty
      (lit "/m.gif?ext=3&aid=" ++ List.replicate 90 97)).queues.scylla.length = 0 := by
  decide +kernel

end NgxMapping.Records
