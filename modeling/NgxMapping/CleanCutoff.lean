import NgxMapping.Cql

/-!
What `mappingClean` deletes.

The cut-off is `date("Y-m-1 00:00:00", strtotime("-$month month"))`. The relative month keeps the
day number and carries what the target month is too short for into the next one: on the 30th of
April two months earlier is the second of March, and the rows stamped with March are deleted as
well.
-/

namespace NgxMapping.CleanCutoff

open Lib MonthStamp Cql

/-- A date. Months are counted from January of the year 0. -/
structure Date where
  month : ℤ
  day : ℕ
  valid : 1 ≤ day ∧ day ≤ monthLength month

/-- `strtotime("-$month month")`: the number of the day it lies in. -/
def strtotime (d : Date) (month : ℕ) : ℤ := firstDay (d.month - month) + (d.day - 1)

/-- `$expirs`: the month of which `date` prints the first day. -/
def expirs (d : Date) (month : ℕ) : ℤ := monthAt (strtotime d month)

/-- The instant the database takes the text of the first of a month for, in milliseconds. -/
def instant (z : FixedZone) (n : ℤ) : ℤ := (86400 * (firstDay n - epochDay) - z.offset) * 1000

/-- The rows of a table that `last_access <= '$expirs'` selects. -/
def select (z : FixedZone) (n : ℤ) (rows : List Stamped) : List Stamped :=
  rows.filter fun s => s.lastAccess ≤ instant z n

/-- The pages in which the driver hands out a result. -/
structure Paging where
  pages : List Stamped → List (List Stamped)
  complete : ∀ rows, (pages rows).flatten = rows

/-- The loop over the pages. `nextPage` gets `$i` by value, so the loop never counts. -/
def cleanLoop (table : Bytes) (i : ℕ) : List (List Stamped) → List Bytes
  | [] => []
  | page :: rest =>
    if i < 100 then (page.map fun s => deleteCql table s.row.uid s.lastAccess) ++
      cleanLoop table i rest
    else []

/-- `mappingClean` run on a date: the statements it executes after the query. -/
def mappingClean (P : Paging) (z : FixedZone) (table : Bytes) (month : ℕ) (d : Date)
    (rows : List Stamped) : List Bytes :=
  cleanLoop table 1 (P.pages (select z (expirs d month) rows))

/-- The cut-off lies the given number of months before the month of the run, and the statements
are those of the rows up to it, whatever the day. -/
structure Intended (P : Paging) (z : FixedZone) (table : Bytes) (month : ℕ) (d : Date) : Prop where
  cutoff : expirs d month = d.month - month
  deleted : ∀ rows, mappingClean P z table month d rows =
    (select z (d.month - month) rows).map fun s => deleteCql table s.row.uid s.lastAccess

lemma cleanLoop_eq (table : Bytes) {i : ℕ} (hi : i < 100) (pages : List (List Stamped)) :
    cleanLoop table i pages =
      pages.flatten.map fun s => deleteCql table s.row.uid s.lastAccess := by
  induction pages with
  | nil => rfl
  | cons page rest ih => rw [cleanLoop, if_pos hi, ih, List.flatten_cons, List.map_append]

lemma mappingClean_eq (P : Paging) (z : FixedZone) (table : Bytes) (month : ℕ) (d : Date)
    (rows : List Stamped) : mappingClean P z table month d rows =
      (select z (expirs d month) rows).map fun s => deleteCql table s.row.uid s.lastAccess := by
  rw [mappingClean, cleanLoop_eq table (by norm_num), P.complete]

lemma expirs_eq (d : Date) (month : ℕ) : expirs d month =
    if d.day ≤ monthLength (d.month - month) then d.month - month else d.month - month + 1 := by
  have hday := d.valid
  have hlen := monthLength_cast (d.month - month)
  have hrun := monthLength_cast d.month
  have hmax := firstDay_succ d.month
  have hnext := firstDay_succ (d.month - month + 1)
  have hthis := firstDay_succ (d.month - month)
  unfold expirs
  split
  · rw [monthAt_eq_iff]
    unfold strtotime
    omega
  · rw [monthAt_eq_iff]
    unfold strtotime
    omega

/-- **The cleaner's cut-off is the intended month exactly when that month has the day of the
run.** -/
theorem intended_iff (P : Paging) (z : FixedZone) (table : Bytes) (month : ℕ) (d : Date) :
    Intended P z table month d ↔ d.day ≤ monthLength (d.month - month) := by
  constructor
  · intro h
    by_contra hday
    have hcut := h.cutoff
    rw [expirs_eq, if_neg hday] at hcut
    omega
  · intro hday
    have hcut : expirs d month = d.month - month := by rw [expirs_eq, if_pos hday]
    refine ⟨hcut, fun rows => ?_⟩
    rw [mappingClean_eq, hcut]

def april (day : ℕ) (h : 1 ≤ day ∧ day ≤ 30) : Date :=
  ⟨12 * 2017 + 3, day, by rw [show monthLength (12 * 2017 + 3) = 30 by decide]; exact h⟩

def marchRow : Stamped := ⟨⟨lit "iqiyi", lit "R", lit "U"⟩, 1488326400000⟩

def onePage : Paging := ⟨fun rows => [rows], fun rows => by simp⟩

def utc : FixedZone := ⟨0, by decide⟩

/-- Two months before the 30th of April 2017: the row of March is deleted, which a run on the 28th
keeps. -/
theorem march_deleted_in_april :
    mappingClean onePage utc (lit "iqiyi") 2 (april 28 (by decide)) [marchRow] = [] ∧
      mappingClean onePage utc (lit "iqiyi") 2 (april 30 (by decide)) [marchRow] =
        [lit "DELETE FROM mapping.iqiyi WHERE uid = 'U' AND last_access = 1488326400000"] ∧
      ¬ Intended onePage utc (lit "iqiyi") 2 (april 30 (by decide)) := by
  have h28 : expirs (april 28 (by decide)) 2 = 12 * 2017 + 1 := by
    rw [expirs_eq]
    decide
  have h30 : expirs (april 30 (by decide)) 2 = 12 * 2017 + 2 := by
    rw [expirs_eq]
    decide
  refine ⟨?_, ?_, fun h => ?_⟩
  · rw [mappingClean_eq, h28]
    decide +kernel
  · rw [mappingClean_eq, h30]
    decide +kernel
  · have hcut := h.cutoff
    rw [h30] at hcut
    exact absurd hcut (by decide)

end NgxMapping.CleanCutoff
