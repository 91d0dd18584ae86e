import NgxMapping.Lib.Quoted
import NgxMapping.MonthStamp

/-!
The statements of `scripts/scylla` as texts.

`insert` writes the strings of a row into the text of the statement, `batchInsert` binds them to
markers, and the delete loop of `mappingClean` escapes the uid with `addslashes`. The database is
given by what it does with such texts: in a literal between quotes only the doubled quote is an
escape, and a term of the values that begins with a quote is such a literal.
-/

namespace NgxMapping.Cql

open Lib ScyllaMessage Scylla MonthStamp

/-! ### Statements and the database -/

/-- What a statement does to `mapping.<table>`. -/
inductive Effect (ω : Type) where
  | nothing
  | put (rmid uid : Bytes) (lastAccess : ℤ)
  | other (w : ω)
  deriving DecidableEq

/-- A statement with markers and the values bound to them. -/
structure Bound where
  cql : Bytes
  rmid : Bytes
  uid : Bytes
  lastAccess : ℤ

/-- An insert statement up to the first quote of its values. -/
def insertHead (table : Bytes) : Bytes :=
  lit "INSERT INTO mapping." ++ table ++ lit "  (rmid, uid, last_access) VALUES ('"

/-- The text of `scylla::insert`. -/
def insertCql (table rmid uid : Bytes) (lastAccess : ℤ) : Bytes :=
  insertHead table ++ rmid ++ lit "', '" ++ uid ++ lit "', " ++ toStr lastAccess ++ lit ")"

/-- The text of `scylla::batchInsert`. -/
def batchCql (table : Bytes) : Bytes :=
  lit "INSERT INTO mapping." ++ table ++ lit "  (rmid, uid, last_access) VALUES (?, ?, ?)"

/-- A database with the table `mapping.<table>`. -/
structure Engine (ω : Type) (table : Bytes) where
  exec : Bytes → Effect ω
  batch : List Bound → Effect ω
  batch_nil : batch [] = .nothing
  /-- Bound values are stored as they are. -/
  batch_bound (rmid uid : Bytes) (n : ℤ) :
    batch [⟨batchCql table, rmid, uid, n⟩] = .put rmid uid n
  /-- Two literals and a number are a row. -/
  stores {s t rmid uid : Bytes} {n : ℤ} :
    quoted 39 s = some (rmid, lit ", '" ++ t) →
    quoted 39 t = some (uid, lit ", " ++ toStr n ++ lit ")") →
    exec (insertHead table ++ s) = .put rmid uid n
  /-- No row is stored but with the literal that the text gives for its `rmid`, -/
  first {s rmid uid : Bytes} {n : ℤ} :
    exec (insertHead table ++ s) = .put rmid uid n → ∃ rest, quoted 39 s = some (rmid, rest)
  /-- and, where a literal follows, for its `uid`. -/
  second {s t r rmid uid : Bytes} {n : ℤ} :
    quoted 39 s = some (r, lit ", '" ++ t) →
    exec (insertHead table ++ s) = .put rmid uid n → ∃ rest, quoted 39 t = some (uid, rest)

variable {ω : Type} {table : Bytes}

/-- `empty($row['rmid']) || empty($row['uid'])`, for strings. -/
def skips (rmid uid : Bytes) : Bool :=
  phpEmpty (some (.string rmid)) || phpEmpty (some (.string uid))

/-- `scylla::insert`. -/
def insert (E : Engine ω table) (σ : Statics) (rmid uid : Bytes) : Effect ω :=
  if skips rmid uid then .nothing else E.exec (insertCql table rmid uid σ.monthMillisecond)

/-- `scylla::batchInsert`. A `Timestamp` is made from seconds. -/
def batchInsert (E : Engine ω table) (σ : Statics) (rows : List (Bytes × Bytes)) : Effect ω :=
  E.batch ((rows.filter fun row => !skips row.1 row.2).map fun row =>
    ⟨batchCql table, row.1, row.2, σ.monthMicrosecond * 1000⟩)

/-- PHP's `addslashes`. -/
def addslashes (s : Bytes) : Bytes :=
  s.flatMap fun c =>
    if c = 0 then [92, 48] else if c = 39 ∨ c = 34 ∨ c = 92 then [92, c] else [c]

def deleteHead (table : Bytes) : Bytes :=
  lit "DELETE FROM mapping." ++ table ++ lit " WHERE uid = '"

/-- The text that the loop of `mappingClean` builds for a row. `time` gives whole seconds. -/
def deleteCql (table uid : Bytes) (lastAccess : ℤ) : Bytes :=
  deleteHead table ++ addslashes uid ++ lit "' AND last_access = " ++
    toStr (lastAccess.tdiv 1000 * 1000)

/-- The delete statement is about the row of this uid and this time. -/
def Denotes (table text uid : Bytes) (lastAccess : ℤ) : Prop :=
  ∃ s, text = deleteHead table ++ s ∧
    quoted 39 s = some (uid, lit " AND last_access = " ++ toStr lastAccess)

/-! ### The two ways to insert a row -/

/-- What writing the rows of the model does. -/
def written (rows : List Row) (lastAccess : ℤ) : Effect ω :=
  match rows with
  | [] => .nothing
  | row :: _ => .put row.rmid row.uid lastAccess

lemma written_insert (rmid uid : Bytes) (n : ℤ) :
    (written (Scylla.insert table (some (.string rmid)) (some (.string uid))) n : Effect ω) =
      if skips rmid uid then .nothing else .put rmid uid n := by
  unfold Scylla.insert skips
  split
  · rfl
  · rfl

lemma batchInsert_spec (E : Engine ω table) (σ : Statics) (rmid uid : Bytes) :
    batchInsert E σ [(rmid, uid)] =
      written (Scylla.insert table (some (.string rmid)) (some (.string uid)))
        (σ.monthMicrosecond * 1000) := by
  rw [written_insert, batchInsert]
  by_cases h : skips rmid uid = true
  · rw [if_pos h, List.filter_cons_of_neg (by simp [h]), List.filter_nil, List.map_nil,
      E.batch_nil]
  · rw [if_neg h, List.filter_cons_of_pos (by simp [h]), List.filter_nil, List.map_cons,
      List.map_nil, E.batch_bound]

lemma insertCql_eq (table rmid uid : Bytes) (n : ℤ) :
    insertCql table rmid uid n =
      insertHead table ++ (rmid ++ 39 :: 44 :: 32 :: 39 :: (uid ++ 39 :: 44 ::
        (lit " " ++ toStr n ++ lit ")"))) := by
  have h1 : lit "', '" = [39, 44, 32, 39] := rfl
  have h2 : lit "', " = 39 :: 44 :: lit " " := rfl
  simp [insertCql, h1, h2]

lemma exec_insertCql_iff (E : Engine ω table) (rmid uid : Bytes) (n : ℤ) :
    E.exec (insertCql table rmid uid n) = .put rmid uid n ↔
      (39 : UInt8) ∉ rmid ∧ (39 : UInt8) ∉ uid := by
  have h44 : (44 : UInt8) ≠ 39 := by decide
  rw [insertCql_eq]
  constructor
  · intro h
    have hr : (39 : UInt8) ∉ rmid := (quoted_self_iff h44 _ _).mp (E.first h)
    have hfirst := quoted_of_not_mem h44 hr
      (32 :: 39 :: (uid ++ 39 :: 44 :: (lit " " ++ toStr n ++ lit ")")))
    exact ⟨hr, (quoted_self_iff h44 _ _).mp (E.second hfirst h)⟩
  · rintro ⟨hr, hu⟩
    exact E.stores (quoted_of_not_mem h44 hr _) (quoted_of_not_mem h44 hu _)

lemma insert_spec_iff (E : Engine ω table) (σ : Statics) (rmid uid : Bytes) :
    insert E σ rmid uid =
        written (Scylla.insert table (some (.string rmid)) (some (.string uid)))
          σ.monthMillisecond ↔
      skips rmid uid = true ∨ ((39 : UInt8) ∉ rmid ∧ (39 : UInt8) ∉ uid) := by
  rw [written_insert, insert]
  by_cases h : skips rmid uid = true
  · rw [if_pos h, if_pos h]
    exact iff_of_true rfl (.inl h)
  · rw [if_neg h, if_neg h, exec_insertCql_iff]
    exact ⟨.inr, fun hor => hor.resolve_left h⟩

/-! ### The delete statement -/

/-- The bytes that `addslashes` escapes. -/
def escapes (c : UInt8) : Bool := c = 39 || c = 34 || c = 92 || c = 0

lemma addslashes_eq_self {s : Bytes} (h : ∀ c ∈ s, escapes c = false) : addslashes s = s := by
  induction s with
  | nil => rfl
  | cons c s ih =>
    have hc := h c List.mem_cons_self
    simp only [escapes, Bool.or_eq_false_iff, decide_eq_false_iff_not] at hc
    have htail : addslashes (c :: s) = c :: addslashes s := by
      simp [addslashes, hc]
    rw [htail, ih fun d hd => h d (List.mem_cons_of_mem _ hd)]

lemma count_addslashes_one (c : UInt8) :
    (addslashes [c]).count 92 = [c].count 92 + [c].countP escapes := by
  by_cases h : escapes c = true
  · simp only [escapes, Bool.or_eq_true, decide_eq_true_eq] at h
    rcases h with ((rfl | rfl) | rfl) | rfl
    · decide
    · decide
    · decide
    · decide
  · have hself : addslashes [c] = [c] := addslashes_eq_self (by simpa using h)
    rw [hself, List.countP_singleton, if_neg h, Nat.add_zero]

lemma count_addslashes (s : Bytes) :
    (addslashes s).count 92 = s.count 92 + s.countP escapes := by
  induction s with
  | nil => rfl
  | cons c s ih =>
    have hcons : addslashes (c :: s) = addslashes [c] ++ addslashes s := by
      simp [addslashes]
    have hone := count_addslashes_one c
    have hsplit : c :: s = [c] ++ s := rfl
    rw [hcons, List.count_append, ih, hone, hsplit, List.count_append, List.countP_append]
    omega

lemma count_double (s : Bytes) : (double 39 s).count 92 = s.count 92 := by
  induction s with
  | nil => rfl
  | cons c s ih =>
    by_cases hc : c = 39
    · subst hc
      rw [double_quote, List.count_cons_of_ne (by decide), List.count_cons_of_ne (by decide),
        List.count_cons_of_ne (by decide), ih]
    · rw [double_cons hc, List.count_cons, List.count_cons, ih]

/-- The escapes of PHP and of the literal agree only on a string that needs none. -/
lemma addslashes_eq_double_iff (s : Bytes) :
    addslashes s = double 39 s ↔ ∀ c ∈ s, escapes c = false := by
  constructor
  · intro h
    have hcount := count_addslashes s
    rw [h, count_double] at hcount
    have hzero : s.countP escapes = 0 := by omega
    intro c hc
    simpa using List.countP_eq_zero.mp hzero c hc
  · intro h
    have h39 : (39 : UInt8) ∉ s := fun hmem => by simpa [escapes] using h 39 hmem
    rw [addslashes_eq_self h, double_eq_self h39]

lemma deleteCql_denotes_iff (table uid : Bytes) (seconds : ℤ) :
    Denotes table (deleteCql table uid (seconds * 1000)) uid (seconds * 1000) ↔
      ∀ c ∈ uid, escapes c = false := by
  have htext : deleteCql table uid (seconds * 1000) = deleteHead table ++
      (addslashes uid ++ 39 :: (lit " AND last_access = " ++ toStr (seconds * 1000))) := by
    have hl : lit "' AND last_access = " = 39 :: lit " AND last_access = " := rfl
    simp [deleteCql, hl]
  rw [htext, ← addslashes_eq_double_iff]
  constructor
  · rintro ⟨s, hs, hq⟩
    rw [← List.append_cancel_left hs] at hq
    exact List.append_cancel_right (eq_double_of_quoted hq)
  · intro h
    refine ⟨_, rfl, ?_⟩
    rw [h]
    exact quoted_double 39 uid (by simp [lit])

/-! ### A database that reads the texts -/

/-- A whole number at the start of a text. -/
def number : Bytes → ℤ
  | 45 :: s => -(digitLoop 0 s : ℤ)
  | s => digitLoop 0 s

lemma number_toStr (n : ℤ) : number (toStr n ++ lit ")") = n := by
  have hparen : ∀ c ∈ (lit ")").head?, isdigit c = false := by
    intro c hc
    have h41 : some (41 : UInt8) = some c := hc
    rw [← Option.some.inj h41]
    rfl
  cases n with
  | ofNat k =>
    obtain ⟨c, s, hc, hd⟩ := natStr_cons k
    have h45 := isdigit_ne hd (d := 45) (by decide)
    have hv := digitLoop_natStr k _ hparen
    change number (natStr k ++ lit ")") = k
    rw [hc, List.cons_append] at hv ⊢
    unfold number
    split
    · rename_i r he
      exact absurd (List.cons.inj he).1 h45
    · rw [hv]
  | negSucc k =>
    change -(digitLoop 0 (natStr (k + 1) ++ lit ")") : ℤ) = _
    rw [digitLoop_natStr _ _ hparen]
    rfl

def values (s : Bytes) : Option (Bytes × Bytes × ℤ) := do
  let (rmid, s) ← quoted 39 s
  let s ← s.dropPrefix? (lit ", '")
  let (uid, s) ← quoted 39 s
  let s ← s.dropPrefix? (lit ", ")
  if s = toStr (number s) ++ lit ")" then some (rmid, uid, number s) else none

lemma dropPrefix_append (p s : Bytes) : (p ++ s).dropPrefix? p = some s :=
  List.dropPrefix?_append_of_beq s (beq_self_eq_true p)

lemma values_of_quoted {s t rmid uid : Bytes} {n : ℤ}
    (h1 : quoted 39 s = some (rmid, lit ", '" ++ t))
    (h2 : quoted 39 t = some (uid, lit ", " ++ toStr n ++ lit ")")) :
    values s = some (rmid, uid, n) := by
  have hn := number_toStr n
  rw [List.append_assoc] at h2
  simp only [values, h1, h2, dropPrefix_append, Option.bind_eq_bind, Option.bind_some, hn,
    if_pos]

lemma quoted_of_values {s rmid uid : Bytes} {n : ℤ} (h : values s = some (rmid, uid, n)) :
    ∃ rest, quoted 39 s = some (rmid, rest) ∧
      ∀ t, rest = lit ", '" ++ t → ∃ rest', quoted 39 t = some (uid, rest') := by
  obtain ⟨⟨r, s1⟩, h1, h⟩ := Option.bind_eq_some_iff.mp h
  obtain ⟨s2, h2, h⟩ := Option.bind_eq_some_iff.mp h
  obtain ⟨⟨u, s3⟩, h3, h⟩ := Option.bind_eq_some_iff.mp h
  obtain ⟨s4, h4, h⟩ := Option.bind_eq_some_iff.mp h
  split at h
  · obtain ⟨rfl, rfl, rfl⟩ : r = rmid ∧ u = uid ∧ number s4 = n := by simpa using h
    refine ⟨s1, h1, ?_⟩
    rintro t rfl
    rw [dropPrefix_append] at h2
    rw [Option.some.inj h2]
    exact ⟨s3, h3⟩
  · exact absurd h (by simp)

/-- A database for which a text that is no insert statement with two literals and a number does
nothing. -/
def execText (table text : Bytes) : Effect Empty :=
  match (text.dropPrefix? (insertHead table)).bind values with
  | some (rmid, uid, n) => .put rmid uid n
  | none => .nothing

lemma execText_eq_put_iff {table s rmid uid : Bytes} {n : ℤ} :
    execText table (insertHead table ++ s) = .put rmid uid n ↔
      values s = some (rmid, uid, n) := by
  rw [execText, dropPrefix_append, Option.bind_some]
  cases h : values s with
  | none => simp
  | some v => simp [Prod.ext_iff]

def sampleEngine (table : Bytes) : Engine Empty table where
  exec := execText table
  batch
    | [b] => .put b.rmid b.uid b.lastAccess
    | _ => .nothing
  batch_nil := rfl
  batch_bound _ _ _ := rfl
  stores h1 h2 := execText_eq_put_iff.mpr (values_of_quoted h1 h2)
  first h := by
    obtain ⟨rest, hrest, -⟩ := quoted_of_values (execText_eq_put_iff.mp h)
    exact ⟨rest, hrest⟩
  second h1 h := by
    obtain ⟨rest, hrest, hnext⟩ := quoted_of_values (execText_eq_put_iff.mp h)
    rw [h1] at hrest
    exact hnext _ (Prod.mk.inj (Option.some.inj hrest)).2.symm

/-! ### The texts against the data -/

/-- **The texts denote the data exactly when nothing in them is escaped.** -/
theorem text_denotes_iff (E : Engine ω table) (z : Zone) (now : ℕ) (rmid uid : Bytes) :
    (insert E (createClustersSession z now) rmid uid =
        batchInsert E (createClustersSession z now) [(rmid, uid)] ∧
      ∀ r u n, batchInsert E (createClustersSession z now) [(rmid, uid)] = .put r u n →
        Denotes table (deleteCql table u n) u n) ↔
      skips rmid uid = true ∨ ((39 : UInt8) ∉ rmid ∧ ∀ c ∈ uid, escapes c = false) := by
  set σ := createClustersSession z now
  have hstamp : σ.monthMillisecond = σ.monthMicrosecond * 1000 := rfl
  rw [batchInsert_spec, ← hstamp, insert_spec_iff, hstamp, written_insert]
  by_cases h : skips rmid uid = true
  · rw [if_pos h]
    refine iff_of_true ⟨.inl h, ?_⟩ (.inl h)
    intro r u n hput
    exact absurd hput (by simp)
  · rw [if_neg h]
    constructor
    · rintro ⟨hquote, hdel⟩
      have hden := hdel rmid uid _ rfl
      exact .inr ⟨(hquote.resolve_left h).1, (deleteCql_denotes_iff table uid _).mp hden⟩
    · intro hor
      obtain ⟨hr, hu⟩ := hor.resolve_left h
      have h39 : (39 : UInt8) ∉ uid := fun hmem => by simpa [escapes] using hu 39 hmem
      refine ⟨.inr ⟨hr, h39⟩, ?_⟩
      intro r u n hput
      obtain ⟨rfl, rfl, rfl⟩ := Effect.put.inj hput
      exact (deleteCql_denotes_iff table _ _).mpr hu

/-- An apostrophe in the uid: the batch stores the row, the single insert does not, and the
delete statement ends its literal at the backslash. -/
theorem text_lost_apostrophe :
    batchInsert (sampleEngine (lit "iqiyi"))
        (createClustersSession (.fixed 28800 (by decide)) 1498800000) [(lit "R", lit "a'b")] =
      .put (lit "R") (lit "a'b") 1496246400000 ∧
    insert (sampleEngine (lit "iqiyi"))
        (createClustersSession (.fixed 28800 (by decide)) 1498800000) (lit "R") (lit "a'b") =
      .nothing ∧
    ¬Denotes (lit "iqiyi") (deleteCql (lit "iqiyi") (lit "a'b") 1496246400000) (lit "a'b")
      1496246400000 := by
  refine ⟨by decide +kernel, by decide +kernel, ?_⟩
  rintro ⟨s, hs, hq⟩
  rw [deleteCql, List.append_assoc, List.append_assoc] at hs
  rw [← List.append_cancel_left hs] at hq
  exact absurd hq (by decide +kernel)

end NgxMapping.Cql
