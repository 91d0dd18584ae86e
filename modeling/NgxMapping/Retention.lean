import NgxMapping.CleanCutoff
import NgxMapping.Lib.Replay

/-!
How long a pair stays in the database.

Subscribers store pairs under the month in which their session was created, and a cleaner asks
once for the rows up to its cut-off and then deletes them one statement at a time. Pairs go on
coming in meanwhile, from any number of subscribers, and several cleaners may be at work. A
statement takes effect when it is executed; a row is found by its uid and its time, and a later
pair with both replaces it, whatever its rmid is.
-/

namespace NgxMapping.Retention

open Lib ScyllaMessage Scylla MonthStamp Cql CleanCutoff

variable {ω ι κ : Type} {table : Bytes}

/-- What a delete statement does. -/
inductive Removal (ω : Type)
  | nothing
  | row (uid : Bytes) (lastAccess : ℤ)
  | other (w : ω)

/-- A database with the table `mapping.<table>`, as the scripts know it. -/
structure Database (ω : Type) (table : Bytes) extends Engine ω table where
  delete : Bytes → Removal ω
  /-- A statement that is about a row removes this row. -/
  removes {text uid : Bytes} {n : ℤ} : Denotes table text uid n → delete text = .row uid n
  /-- whatever else a text may do to the rows -/
  effect : ω → List Stamped → List Stamped
  paging : Paging

/-- What a row is found by: the uid and the time are the primary key of the tables. -/
def key (s : Stamped) : Bytes × ℤ := (s.row.uid, s.lastAccess)

namespace Database

variable (D : Database ω table)

def put (rows : List Stamped) : Effect ω → List Stamped
  | .nothing => rows
  | .put rmid uid n => upsert key rows ⟨⟨table, rmid, uid⟩, n⟩
  | .other w => D.effect w rows

def remove (rows : List Stamped) : Removal ω → List Stamped
  | .nothing => rows
  | .row uid n => others key (uid, n) rows
  | .other w => D.effect w rows

/-- The table after a message: `insert` for each of its rows. -/
def store (σ : Statics) (rows : List Stamped) (content : Bytes) : List Stamped :=
  ((subscriber content).filter fun row => row.table = table).foldl
    (fun rows row => D.put rows (Cql.insert D.toEngine σ row.rmid row.uid)) rows

end Database

/-- The sessions of the subscribers, the table, and the statements that the cleaners have still to
execute. -/
structure State (ι κ : Type) where
  sessions : ι → Option Statics := fun _ => none
  rows : List Stamped := []
  pending : κ → List Bytes := fun _ => []

/-- A subscriber starts or starts again, or receives a message; a cleaner asks for the rows, or
executes its next statement. -/
inductive Event (ι κ : Type)
  | start (k : ι) (now : ℕ)
  | message (k : ι) (content : Bytes)
  | query (j : κ) (d : Date)
  | delete (j : κ)

section Run

variable [DecidableEq ι] [DecidableEq κ] (D : Database ω table) (z : FixedZone) (month : ℕ)

/-- One event. A cleaner that has not finished does not ask again. -/
def step (w : State ι κ) : Event ι κ → State ι κ
  | .start k now =>
    { w with sessions := Function.update w.sessions k (some (createClustersSession z.zone now)) }
  | .message k content =>
    match w.sessions k with
    | none => w
    | some σ => { w with rows := D.store σ w.rows content }
  | .query j d =>
    if w.pending j = [] then
      { w with
        pending := Function.update w.pending j (mappingClean D.paging z table month d w.rows) }
    else w
  | .delete j =>
    match w.pending j with
    | [] => w
    | text :: rest =>
      { w with
        rows := D.remove w.rows (D.delete text)
        pending := Function.update w.pending j rest }

def run (es : List (Event ι κ)) : State ι κ := es.foldl (step D z month) {}

end Run

/-! ### What comes in -/

/-- The rows of the table in a message, with the stamp of the session. -/
def stored (table : Bytes) (σ : Statics) (content : Bytes) : List Stamped :=
  ((subscriber content).filter fun row => row.table = table).map fun row =>
    ⟨row, σ.monthMillisecond⟩

section Came

variable [DecidableEq ι] (table : Bytes) (z : FixedZone)

def restart (sessions : ι → Option Statics) : Event ι κ → ι → Option Statics
  | .start k now => Function.update sessions k (some (createClustersSession z.zone now))
  | _ => sessions

def incoming (sessions : ι → Option Statics) : Event ι κ → List Stamped
  | .start _ _ => []
  | .message k content => ((sessions k).map fun σ => stored table σ content).getD []
  | .query _ _ => []
  | .delete _ => []

/-- The pairs that come in, in their order, each with the month of the session that stores it. -/
def came : (ι → Option Statics) → List (Event ι κ) → List Stamped
  | _, [] => []
  | sessions, e :: es => incoming table sessions e ++ came (restart z sessions e) es

end Came

lemma skips_of_mem {content : Bytes} {row : Row} (h : row ∈ subscriber content) :
    skips row.rmid row.uid = false := by
  have hinsert : ∀ (t : Bytes) (rmid uid : Option Bytes),
      row ∈ Scylla.insert t (rmid.map .string) (uid.map .string) →
        skips row.rmid row.uid = false := by
    intro t rmid uid hrow
    unfold Scylla.insert at hrow
    split at hrow
    · cases hrow
    rename_i hempty
    obtain rfl := List.mem_singleton.mp hrow
    cases rmid with
    | none => exact absurd rfl hempty
    | some r =>
      cases uid with
      | none => simp [phpEmpty] at hempty
      | some u => exact eq_false_of_ne_true hempty
  unfold subscriber at h
  simp only at h
  split at h
  · cases h
  rcases List.mem_append.mp h with h | h
  · split at h
    · exact hinsert _ _ _ h
    · cases h
  · exact hinsert _ _ _ h

/-- A uid that the delete statement gives as it is, and a time in whole seconds. -/
def Clean (uid : Bytes) (n : ℤ) : Prop :=
  (∀ c ∈ uid, escapes c = false) ∧ ∃ seconds : ℤ, n = seconds * 1000

def PlainRow (row : Row) : Prop := (39 : UInt8) ∉ row.rmid ∧ ∀ c ∈ row.uid, escapes c = false

variable {D : Database ω table} {z : FixedZone} {month : ℕ}

lemma delete_deleteCql {uid : Bytes} {n : ℤ} (h : Clean uid n) :
    D.delete (deleteCql table uid n) = .row uid n := by
  obtain ⟨hc, seconds, rfl⟩ := h
  exact D.removes ((deleteCql_denotes_iff table uid seconds).mpr hc)

lemma store_eq {content : Bytes} (now : ℕ)
    (hplain : ∀ row ∈ subscriber content, row.table = table → PlainRow row) (rows : List Stamped) :
    D.store (createClustersSession z.zone now) rows content =
      (stored table (createClustersSession z.zone now) content).foldl (upsert key) rows := by
  have hfold : ∀ l : List Row,
      (∀ row ∈ l, row.table = table ∧ PlainRow row ∧ skips row.rmid row.uid = false) → ∀ rows,
        l.foldl (fun rows row =>
          D.put rows (Cql.insert D.toEngine (createClustersSession z.zone now) row.rmid row.uid))
          rows =
        (l.map fun row => (⟨row, monthOf z.zone now⟩ : Stamped)).foldl (upsert key) rows := by
    intro l
    induction l with
    | nil => exact fun _ _ => rfl
    | cons row l ih =>
      intro hl rows
      obtain ⟨ht, ⟨hrmid, huid⟩, hskip⟩ := hl row List.mem_cons_self
      have h39 : (39 : UInt8) ∉ row.uid := fun hmem => by simpa [escapes] using huid 39 hmem
      have heff : Cql.insert D.toEngine (createClustersSession z.zone now) row.rmid row.uid =
          .put row.rmid row.uid (monthOf z.zone now) := by
        rw [Cql.insert, hskip, if_neg Bool.false_ne_true]
        exact (exec_insertCql_iff _ _ _ _).mpr ⟨hrmid, h39⟩
      rw [List.foldl_cons, heff, List.map_cons, List.foldl_cons, Database.put,
        ih fun r hr => hl r (List.mem_cons_of_mem _ hr)]
      rw [← ht]
  refine hfold _ (fun row hrow => ?_) rows
  obtain ⟨hmem, ht⟩ := List.mem_filter.mp hrow
  have ht : row.table = table := of_decide_eq_true ht
  exact ⟨ht, hplain row hmem ht, skips_of_mem hmem⟩

lemma clean_of_mem_stored {content : Bytes} (now : ℕ)
    (hplain : ∀ row ∈ subscriber content, row.table = table → PlainRow row) {s : Stamped}
    (h : s ∈ stored table (createClustersSession z.zone now) content) :
    Clean s.row.uid s.lastAccess := by
  obtain ⟨row, hrow, rfl⟩ := List.mem_map.mp h
  obtain ⟨hmem, ht⟩ := List.mem_filter.mp hrow
  exact ⟨(hplain row hmem (of_decide_eq_true ht)).2, _, rfl⟩

/-! ### The cut-off against the month of a session -/

lemma le_instant_iff (now : ℕ) (c : ℤ) :
    monthOf z.zone now ≤ instant z c ↔ (z.zone.month now : ℤ) ≤ c := by
  have hoff : z.zone.offset (z.zone.month now) = z.offset := rfl
  have hmono : firstDay (z.zone.month now) ≤ firstDay c ↔ (z.zone.month now : ℤ) ≤ c :=
    firstDay_strictMono.le_iff_le
  rw [firstDay_natCast] at hmono
  rw [← hmono, monthOf, Zone.start, hoff, instant]
  omega

/-! ### What every event keeps -/

/-- A message of plain rows; the other events are what they are. -/
def Plain (table : Bytes) : Event ι κ → Prop
  | .message _ content => ∀ row ∈ subscriber content, row.table = table → PlainRow row
  | _ => True

/-- Stamps and rows are as the scripts make them, what is to be deleted has a time for which `P`
holds, and the table tracks what has come in under the other times. -/
structure Sound (table : Bytes) (z : FixedZone) (P : ℤ → Prop) (arrived : List Stamped)
    (w : State ι κ) : Prop where
  sessions : ∀ k σ, w.sessions k = some σ → ∃ now, σ = createClustersSession z.zone now
  rows : ∀ s ∈ w.rows, Clean s.row.uid s.lastAccess
  pending : ∀ j, ∀ text ∈ w.pending j, ∃ uid n, Clean uid n ∧ P n ∧ text = deleteCql table uid n
  tracks : Tracks key (fun k => ¬ P k.2) arrived w.rows

lemma sound_init (P : ℤ → Prop) : Sound table z P [] ({} : State ι κ) where
  sessions _ _ h := by cases h
  rows _ h := by cases h
  pending _ _ h := by cases h
  tracks := .nil

lemma mem_mappingClean {d : Date} {rows : List Stamped} {text : Bytes} :
    text ∈ mappingClean D.paging z table month d rows ↔ ∃ s ∈ rows,
      s.lastAccess ≤ instant z (expirs d month) ∧
        text = deleteCql table s.row.uid s.lastAccess := by
  rw [mappingClean_eq, List.mem_map]
  constructor
  · rintro ⟨s, hs, rfl⟩
    obtain ⟨hmem, hle⟩ := List.mem_filter.mp hs
    exact ⟨s, hmem, of_decide_eq_true hle, rfl⟩
  · rintro ⟨s, hs, hle, rfl⟩
    exact ⟨s, List.mem_filter.mpr ⟨hs, decide_eq_true hle⟩, rfl⟩

section Events

variable [DecidableEq ι] [DecidableEq κ]

lemma sessions_step (w : State ι κ) (e : Event ι κ) :
    (step D z month w e).sessions = restart z w.sessions e := by
  cases e with
  | start k now => rfl
  | message k content =>
    simp only [step]
    split <;> rfl
  | query j d =>
    simp only [step]
    split <;> rfl
  | delete j =>
    simp only [step]
    split <;> rfl

lemma rows_message {k : ι} {content : Bytes} {w : State ι κ}
    (hs : ∀ k σ, w.sessions k = some σ → ∃ now, σ = createClustersSession z.zone now)
    (hp : Plain table (.message k content : Event ι κ)) :
    (step D z month w (.message k content)).rows =
      (incoming table w.sessions (.message k content : Event ι κ)).foldl (upsert key) w.rows := by
  simp only [step, incoming]
  cases hk : w.sessions k with
  | none => rfl
  | some σ =>
    obtain ⟨now, rfl⟩ := hs k σ hk
    exact store_eq now hp w.rows

omit [DecidableEq ι] [DecidableEq κ] in
lemma clean_of_mem_incoming {e : Event ι κ} {w : State ι κ}
    (hs : ∀ k σ, w.sessions k = some σ → ∃ now, σ = createClustersSession z.zone now)
    (hp : Plain table e) {s : Stamped} (h : s ∈ incoming table w.sessions e) :
    Clean s.row.uid s.lastAccess := by
  cases e with
  | message k content =>
    rw [incoming] at h
    cases hk : w.sessions k with
    | none => simp [hk] at h
    | some σ =>
      obtain ⟨now, rfl⟩ := hs k σ hk
      exact clean_of_mem_stored now hp (by simpa [hk] using h)
  | _ => cases h

lemma Sound.step {P : ℤ → Prop} {arrived : List Stamped} {w : State ι κ}
    (h : Sound table z P arrived w) (e : Event ι κ) (hp : Plain table e)
    (hq : ∀ j d, e = .query j d → ∀ n ≤ instant z (expirs d month), P n) :
    Sound table z P (arrived ++ incoming table w.sessions e) (step D z month w e) := by
  cases e with
  | start k now =>
    rw [incoming, List.append_nil]
    refine ⟨fun k' σ hσ => ?_, h.rows, h.pending, h.tracks⟩
    rcases eq_or_ne k' k with rfl | hne
    · simp only [Retention.step, Function.update_self, Option.some.injEq] at hσ
      exact ⟨now, hσ.symm⟩
    · simp only [Retention.step, Function.update_of_ne hne] at hσ
      exact h.sessions k' σ hσ
  | message k content =>
    have hrows : (Retention.step D z month w (.message k content)).rows = _ :=
      rows_message h.sessions hp
    refine ⟨?_, fun s hs => ?_, ?_, ?_⟩
    · rw [sessions_step]
      exact h.sessions
    · rw [hrows] at hs
      rcases mem_or_mem_of_mem_upserts hs with hs | hs
      · exact h.rows s hs
      · exact clean_of_mem_incoming h.sessions hp hs
    · simp only [Retention.step]
      split
      · exact h.pending
      · exact h.pending
    · rw [hrows]
      exact h.tracks.foldl _
  | query j d =>
    rw [incoming, List.append_nil]
    simp only [Retention.step]
    split
    swap
    · exact h
    refine ⟨h.sessions, h.rows, fun j' text ht => ?_, h.tracks⟩
    rcases eq_or_ne j' j with rfl | hne
    · simp only [Function.update_self] at ht
      obtain ⟨s, hs, hle, rfl⟩ := mem_mappingClean.mp ht
      exact ⟨_, _, h.rows s hs, hq _ _ rfl _ hle, rfl⟩
    · simp only [Function.update_of_ne hne] at ht
      exact h.pending j' text ht
  | delete j =>
    rw [incoming, List.append_nil]
    simp only [Retention.step]
    split
    · exact h
    rename_i text rest hpend
    obtain ⟨uid, n, hclean, hP, rfl⟩ := h.pending j text (by simp [hpend])
    rw [delete_deleteCql hclean]
    refine ⟨h.sessions, fun s hs => h.rows s (mem_others.mp hs).1, fun j' text ht => ?_,
      h.tracks.others fun hn => hn hP⟩
    rcases eq_or_ne j' j with rfl | hne
    · simp only [Function.update_self] at ht
      exact h.pending j' text (by simp [hpend, ht])
    · simp only [Function.update_of_ne hne] at ht
      exact h.pending j' text ht

/-- What a cleaner has found is in the table only as long as the cleaner has still to delete it,
unless it has come in since. -/
def Due (table : Bytes) (j : κ) (cut : ℤ) (since : List Stamped) (w : State ι κ) : Prop :=
  ∀ s ∈ w.rows, s.lastAccess ≤ cut →
    s ∈ since ∨ deleteCql table s.row.uid s.lastAccess ∈ w.pending j

lemma Due.step {P : ℤ → Prop} {arrived since : List Stamped} {w : State ι κ} {j : κ} {cut : ℤ}
    (hdue : Due table j cut since w) (h : Sound table z P arrived w) (e : Event ι κ)
    (hp : Plain table e) (hnq : ∀ d, e ≠ .query j d) :
    Due table j cut (since ++ incoming table w.sessions e) (step D z month w e) := by
  cases e with
  | start k now =>
    rw [incoming, List.append_nil]
    exact hdue
  | message k content =>
    intro s hs hle
    rw [rows_message h.sessions hp] at hs
    rw [List.mem_append]
    rcases mem_or_mem_of_mem_upserts hs with hs | hs
    · refine (hdue s hs hle).imp .inl fun hpend => ?_
      simp only [Retention.step]
      split
      · exact hpend
      · exact hpend
    · exact .inl (.inr hs)
  | query j' d =>
    rw [incoming, List.append_nil]
    simp only [Retention.step]
    split
    swap
    · exact hdue
    have hne : j ≠ j' := by
      rintro rfl
      exact hnq d rfl
    simpa only [Due, Function.update_of_ne hne] using hdue
  | delete j' =>
    rw [incoming, List.append_nil]
    simp only [Retention.step]
    split
    · exact hdue
    rename_i text rest hpend
    obtain ⟨uid', n', hclean, -, rfl⟩ := h.pending j' text (by simp [hpend])
    rw [delete_deleteCql hclean]
    intro s hs hle
    obtain ⟨hmem, hkey⟩ := mem_others.mp hs
    refine (hdue s hmem hle).imp_right fun hdel => ?_
    rcases eq_or_ne j j' with rfl | hne
    · simp only [Function.update_self]
      rw [hpend] at hdel
      refine (List.mem_cons.mp hdel).resolve_left fun he => hkey ?_
      -- two clean rows with one text are one row
      have := delete_deleteCql (D := D) (h.rows s hmem)
      rw [he, delete_deleteCql hclean] at this
      cases this
      rfl
    · simp only [Function.update_of_ne hne]
      exact hdel

/-! ### Runs -/

lemma Sound.foldl {P : ℤ → Prop} {arrived : List Stamped} {w : State ι κ}
    (h : Sound table z P arrived w) {es : List (Event ι κ)} (hp : ∀ e ∈ es, Plain table e)
    (hq : ∀ j d, .query j d ∈ es → ∀ n ≤ instant z (expirs d month), P n) :
    Sound table z P (arrived ++ came table z w.sessions es)
      (es.foldl (Retention.step D z month) w) := by
  induction es generalizing arrived w with
  | nil => simpa [came] using h
  | cons e es ih =>
    have hstep : Sound table z P (arrived ++ incoming table w.sessions e)
        (Retention.step D z month w e) := by
      refine h.step e (hp e List.mem_cons_self) ?_
      rintro j d rfl
      exact hq j d List.mem_cons_self
    have := ih hstep (fun e' he' => hp e' (List.mem_cons_of_mem _ he'))
      fun j d hjd => hq j d (List.mem_cons_of_mem _ hjd)
    rwa [sessions_step, List.append_assoc] at this

lemma Due.foldl {arrived since : List Stamped} {w : State ι κ} {j : κ} {cut : ℤ}
    (hdue : Due table j cut since w) (h : Sound table z (fun _ => True) arrived w)
    {es : List (Event ι κ)} (hp : ∀ e ∈ es, Plain table e) (hnq : ∀ d, .query j d ∉ es) :
    Due table j cut (since ++ came table z w.sessions es)
      (es.foldl (Retention.step D z month) w) := by
  induction es generalizing arrived since w with
  | nil => simpa [came] using hdue
  | cons e es ih =>
    have he := hp e List.mem_cons_self
    have hstep : Due table j cut (since ++ incoming table w.sessions e)
        (Retention.step D z month w e) := by
      refine hdue.step h e he ?_
      rintro d rfl
      exact hnq d List.mem_cons_self
    have := ih hstep (h.step e he fun _ _ _ _ _ => trivial)
      (fun e' he' => hp e' (List.mem_cons_of_mem _ he'))
      fun d hd => hnq d (List.mem_cons_of_mem _ hd)
    rwa [sessions_step, List.append_assoc] at this

/-- **A pair is kept for the month of its session and no longer than the cleaner allows.** In
every interleaving of subscribers and cleaners in which the pairs of the table need no escape:
the table holds pairs that have come in, under a uid and a month only the last; this pair is still
there at the end if every cut-off lies before its month, which is that of the session that stored
it; and once a cleaner has worked off its query, no pair up to its cut-off is left but those that
have come in since the query, whenever they came in before. -/
theorem retention (D : Database ω table) (z : FixedZone) (month : ℕ) (es : List (Event ι κ))
    (hp : ∀ e ∈ es, Plain table e) :
    (∀ s ∈ (run D z month es).rows, LastOf key (came table z (fun _ => none) es) s) ∧
    (∀ s now, LastOf key (came table z (fun _ => none) es) s →
      s.lastAccess = monthOf z.zone now →
      (∀ j d, .query j d ∈ es → expirs d month < z.zone.month now) →
      s ∈ (run D z month es).rows) ∧
    ∀ es₁ j d es₂ s now, es = es₁ ++ .query j d :: es₂ →
      (run D z month es₁).pending j = [] → (∀ d', .query j d' ∉ es₂) →
      (run D z month es).pending j = [] → s.lastAccess = monthOf z.zone now →
      z.zone.month now ≤ expirs d month → s ∈ (run D z month es).rows →
      s ∈ came table z (run D z month es₁).sessions es₂ := by
  refine ⟨fun s hs => ?_, fun s now hlast hs hq => ?_, ?_⟩
  · exact ((sound_init fun _ => True).foldl hp fun _ _ _ _ _ => trivial).tracks.last s hs
  · have hsound : Sound table z (· < monthOf z.zone now) _ (run D z month es) :=
      (sound_init _).foldl hp fun j d hjd n hn => by
        have := hq j d hjd
        have := mt (le_instant_iff (z := z) now (expirs d month)).mp (by omega)
        omega
    exact hsound.tracks.kept s hlast (by rw [key, hs]; exact lt_irrefl _)
  · rintro es₁ j d es₂ s now rfl hidle hnq hdone hs hle hmem
    have hsound : Sound table z (fun _ => True) _ (run D z month es₁) :=
      (sound_init _).foldl (fun e he => hp e (by simp [he])) fun _ _ _ _ _ => trivial
    have hquery : Sound table z (fun _ => True) _
        (step D z month (run D z month es₁) (.query j d)) :=
      hsound.step (.query j d) (hp _ (by simp)) fun _ _ _ _ _ => trivial
    have hdue : Due table j (monthOf z.zone now) []
        (step D z month (run D z month es₁) (.query j d)) := by
      intro s hs hn
      simp only [step, if_pos hidle, Function.update_self] at hs ⊢
      exact .inr (mem_mappingClean.mpr
        ⟨s, hs, hn.trans ((le_instant_iff now _).mpr hle), rfl⟩)
    have hend : Due table j _ _ (es₂.foldl (step D z month)
        (step D z month (run D z month es₁) (.query j d))) :=
      hdue.foldl hquery (fun e he => hp e (by simp [he])) hnq
    rw [sessions_step, List.nil_append] at hend
    rw [run, List.foldl_append, List.foldl_cons] at hmem hdone
    exact (hend s hmem hs.le).resolve_right fun hpend => List.not_mem_nil (hdone ▸ hpend)

end Events

/-- A database for which a text that is no delete statement with a literal and a number does
nothing, and whose results fit one page. -/
def sampleDatabase (table : Bytes) : Database Empty table where
  toEngine := sampleEngine table
  delete text :=
    match (text.dropPrefix? (deleteHead table)).bind (quoted 39) with
    | none => .nothing
    | some (uid, s) =>
      match s.dropPrefix? (lit " AND last_access = ") with
      | none => .nothing
      | some s => .row uid (number (s ++ lit ")"))
  removes := by
    rintro _ uid n ⟨s, rfl, hq⟩
    simp only [dropPrefix_append, Option.bind_some, hq, number_toStr]
  effect w := w.elim
  paging := onePage

/-- A session of the last day of June 2017 and two messages for it, with one uid. -/
def juneRun : List (Event Unit Unit) :=
  [.start () 1498800000, .message () (lit "6, R, U"), .message () (lit "6, S, U")]

def august : Date := ⟨12 * 2017 + 7, 1, by decide⟩

/-- The pair that came in last is there until a cleaner runs in August. -/
theorem retention_june :
    (⟨⟨lit "miaozhen", lit "S", lit "U"⟩, 1496246400000⟩ : Stamped) ∈
      (run (sampleDatabase (lit "miaozhen")) ⟨28800, by decide⟩ 2 juneRun).rows ∧
    (⟨⟨lit "miaozhen", lit "S", lit "U"⟩, 1496246400000⟩ : Stamped) ∉
      (run (sampleDatabase (lit "miaozhen")) ⟨28800, by decide⟩ 2
        (juneRun ++ [.query () august, .delete ()])).rows := by
  have hmonth : monthOf (FixedZone.zone ⟨28800, by decide⟩) 1498800000 = 1496246400000 := by
    decide +kernel
  have hfirst : subscriber (lit "6, R, U") = [⟨lit "miaozhen", lit "R", lit "U"⟩] := by
    decide +kernel
  have hsecond : subscriber (lit "6, S, U") = [⟨lit "miaozhen", lit "S", lit "U"⟩] := by
    decide +kernel
  have hplain : ∀ e ∈ juneRun ++ [.query () august, .delete ()], Plain (lit "miaozhen") e := by
    have hrow : PlainRow ⟨lit "miaozhen", lit "R", lit "U"⟩ ∧
        PlainRow ⟨lit "miaozhen", lit "S", lit "U"⟩ := by
      unfold PlainRow
      decide +kernel
    simpa [juneRun, Plain, hfirst, hsecond] using hrow
  constructor
  · refine (retention _ _ 2 juneRun fun e he => hplain e (by simp [he])).2.1 _ 1498800000
      ⟨[⟨⟨lit "miaozhen", lit "R", lit "U"⟩, 1496246400000⟩], [], ?_, by simp⟩ hmonth.symm
      (by simp [juneRun])
    decide +kernel
  · intro hmem
    have := (retention _ _ 2 _ hplain).2.2 juneRun () august [.delete ()] _ 1498800000 rfl rfl
      (by simp) (by decide +kernel) hmonth.symm (by rw [expirs_eq]; decide +kernel) hmem
    cases this

end NgxMapping.Retention
