import NgxMapping.Lib.Calendar

/-!
`hour_file_sink` of `logger/utils/log.h`: a log file for every hour.

Every message costs one reading of the clock. When the clock has passed the rotation point, two
more follow: one from which the next rotation point is computed and one from which the file is
named. An hour may change between the two, and any number of hours between two messages.
-/

namespace NgxMapping.HourFile

open Lib

variable (z : FixedZone)

/-- `%Y%m%d%H`. -/
def putTime (tm : Tm) : Bytes :=
  natStr tm.year ++ pad2 (tm.mon + 1) ++ pad2 tm.mday ++ pad2 tm.hour

/-- `calc_filename` at a time in seconds. -/
def calcFilename (path : Bytes) (tt : ℕ) : Bytes :=
  path ++ lit "/" ++ putTime (z.localtime tt) ++ lit ".log"

/-- `_next_rotation_tp` at a time in seconds, in nanoseconds. -/
def nextRotationTp (tt : ℕ) : ℤ :=
  1000000000 * z.mktime { z.localtime tt with
    min := 0, sec := 0, hour := (z.localtime tt).hour + 1 }

/-- `time(nullptr)` for a reading in nanoseconds. -/
def seconds (ns : ℕ) : ℕ := ns / 1000000000

/-- A message as it was written, with the reading it was compared at and, when the call rotated,
the one its file was named from. -/
structure Write where
  msg : Bytes
  file : Bytes
  now : ℕ
  named : Option ℕ

/-- The sink, with the number of readings made and what it has written. -/
structure Sink where
  rotationTp : ℤ
  file : Bytes
  readings : ℕ
  written : List Write := []

/-- The constructor. -/
def construct (clock : ℕ → ℕ) (path : Bytes) : Sink where
  rotationTp := nextRotationTp z (seconds (clock 0))
  file := calcFilename z path (seconds (clock 1))
  readings := 2

/-- `_sink_it`. -/
def sinkIt (clock : ℕ → ℕ) (path : Bytes) (s : Sink) (msg : Bytes) : Sink :=
  let now := clock s.readings
  if s.rotationTp < now then
    let named := clock (s.readings + 2)
    let file := calcFilename z path (seconds named)
    { rotationTp := nextRotationTp z (seconds (clock (s.readings + 1)))
      file := file
      readings := s.readings + 3
      written := s.written ++ [⟨msg, file, now, some named⟩] }
  else
    { s with
      readings := s.readings + 1
      written := s.written ++ [⟨msg, s.file, now, none⟩] }

def run (clock : ℕ → ℕ) (path : Bytes) (msgs : List Bytes) : Sink :=
  msgs.foldl (sinkIt z clock path) (construct z clock path)

/-! ### The name of a file -/

lemma putTime_injective {tm tm' : Tm} (hd : tm.mday < 100 ∧ tm'.mday < 100)
    (hh : tm.hour < 100 ∧ tm'.hour < 100) (h : putTime tm = putTime tm') :
    tm.year = tm'.year ∧ tm.mon = tm'.mon ∧ tm.mday = tm'.mday ∧ tm.hour = tm'.hour := by
  have hm := tm.mon.isLt
  have hm' := tm'.mon.isLt
  unfold putTime at h
  obtain ⟨h, hhour⟩ := List.append_inj' h (by rw [length_pad2 hh.1, length_pad2 hh.2])
  obtain ⟨h, hday⟩ := List.append_inj' h (by rw [length_pad2 hd.1, length_pad2 hd.2])
  obtain ⟨h, hmon⟩ := List.append_inj' h
    (by rw [length_pad2 (by omega), length_pad2 (by omega)])
  have hmon := pad2_injective hmon
  exact ⟨natStr_injective h, Fin.ext (by omega), pad2_injective hday, pad2_injective hhour⟩

lemma calcFilename_eq_iff (path : Bytes) (t u : ℕ) :
    calcFilename z path t = calcFilename z path u ↔ z.hour t = z.hour u := by
  have ht := z.localtime_lt t
  have hu := z.localtime_lt u
  rw [FixedZone.hour_eq_iff]
  constructor
  · intro h
    unfold calcFilename at h
    have h := List.append_cancel_left (List.append_cancel_right h)
    exact putTime_injective ⟨by omega, by omega⟩ ⟨by omega, by omega⟩ h
  · rintro ⟨hy, hm, hd, hh⟩
    unfold calcFilename putTime
    rw [hy, hm, hd, hh]

/-! ### Messages and hours -/

/-- The file is that of the hour in which `t` lies, and of no other hour. -/
def FileOf (path file : Bytes) (t : ℕ) : Prop :=
  ∀ u, file = calcFilename z path u ↔ z.hour u = z.hour t

/-- A reading that is exactly the beginning of an hour. -/
def OnHour (ns : ℕ) : Prop := ∃ k : ℤ, (ns : ℤ) = 1000000000 * (3600 * k - z.offset)

/-- The message is in the file of its hour; one whose call has rotated is in the file of the hour
in which the file was named. -/
def Filed (path : Bytes) (w : Write) : Prop :=
  match w.named with
  | some named => FileOf z path w.file (seconds named)
  | none => ¬ OnHour z w.now → FileOf z path w.file (seconds w.now)

lemma fileOf_calcFilename {path : Bytes} {t u : ℕ} (h : z.hour t = z.hour u) :
    FileOf z path (calcFilename z path t) u := by
  intro v
  rw [calcFilename_eq_iff, h]
  exact eq_comm

lemma nextRotationTp_eq (tt : ℕ) :
    nextRotationTp z tt = 1000000000 * (3600 * (z.hour tt + 1) - z.offset) := by
  rw [nextRotationTp, z.mktime_hour tt 1]
  rfl

/-- The readings between the one of the rotation point and the rotation point lie in one hour. -/
lemma hour_eq_of_lt {a b c : ℕ} (hab : a ≤ b) (hbc : b ≤ c)
    (hc : (c : ℤ) < nextRotationTp z (seconds a)) :
    z.hour (seconds b) = z.hour (seconds c) := by
  rw [nextRotationTp_eq] at hc
  unfold FixedZone.hour seconds at *
  omega

variable {z} {clock : ℕ → ℕ} {path : Bytes}

/-- The rotation point and the open file come from two readings, in this order. -/
structure Opened (z : FixedZone) (clock : ℕ → ℕ) (path : Bytes) (s : Sink) : Prop where
  readings : ∃ a b, a ≤ b ∧ b ≤ clock s.readings ∧ s.rotationTp = nextRotationTp z (seconds a) ∧
    s.file = calcFilename z path (seconds b)
  filed : ∀ w ∈ s.written, Filed z path w

lemma opened_construct (hclock : Monotone clock) :
    Opened z clock path (construct z clock path) where
  readings := ⟨clock 0, clock 1, hclock (by omega), hclock (show 1 ≤ 2 by omega), rfl, rfl⟩
  filed := by simp [construct]

lemma Opened.filed_now {s : Sink} (h : Opened z clock path s)
    (hnow : ¬ s.rotationTp < clock s.readings) (msg : Bytes) :
    Filed z path ⟨msg, s.file, clock s.readings, none⟩ := by
  obtain ⟨a, b, hab, hb, htp, hfile⟩ := h.readings
  intro hon
  show FileOf z path s.file _
  rw [hfile]
  apply fileOf_calcFilename
  apply hour_eq_of_lt z hab hb
  -- the reading is not the rotation point itself, which begins an hour
  have hne : (clock s.readings : ℤ) ≠ nextRotationTp z (seconds a) := by
    intro heq
    exact hon ⟨_, heq.trans (nextRotationTp_eq z _)⟩
  rw [htp] at hnow
  omega

lemma opened_sinkIt (hclock : Monotone clock) {s : Sink} (h : Opened z clock path s)
    (msg : Bytes) : Opened z clock path (sinkIt z clock path s msg) := by
  unfold sinkIt
  dsimp only
  split
  · refine ⟨⟨clock (s.readings + 1), clock (s.readings + 2), hclock (by omega),
      hclock (show s.readings + 2 ≤ s.readings + 3 by omega), rfl, rfl⟩, fun w hw => ?_⟩
    rcases List.mem_append.mp hw with hw | hw
    · exact h.filed w hw
    · rw [List.mem_singleton.mp hw]
      exact fileOf_calcFilename z rfl
  · rename_i hnow
    obtain ⟨a, b, hab, hb, htp, hfile⟩ := h.readings
    refine ⟨⟨a, b, hab, hb.trans (hclock (Nat.le_succ _)), htp, hfile⟩, fun w hw => ?_⟩
    rcases List.mem_append.mp hw with hw | hw
    · exact h.filed w hw
    · rw [List.mem_singleton.mp hw]
      exact h.filed_now hnow msg

lemma opened_run (hclock : Monotone clock) (msgs : List Bytes) :
    Opened z clock path (run z clock path msgs) :=
  List.foldlRecOn msgs _ (opened_construct hclock) fun _ h msg _ => opened_sinkIt hclock h msg

lemma written_run (msgs : List Bytes) :
    (run z clock path msgs).written.map Write.msg = msgs := by
  unfold run
  induction msgs using List.reverseRecOn with
  | nil => rfl
  | append_singleton msgs msg ih =>
    rw [List.foldl_append, List.foldl_cons, List.foldl_nil, sinkIt]
    dsimp only
    split <;> simp [ih]

lemma length_written_run (msgs : List Bytes) :
    (run z clock path msgs).written.length = msgs.length := by
  rw [← List.length_map (f := Write.msg), written_run]

/-- The reading a call names the file from, if it rotates. -/
def namedAt (clock : ℕ → ℕ) (s : Sink) : Option ℕ :=
  if s.rotationTp < clock s.readings then some (clock (s.readings + 2)) else none

lemma written_sinkIt (s : Sink) (msg : Bytes) :
    ∃ file, (sinkIt z clock path s msg).written =
      s.written ++ [⟨msg, file, clock s.readings, namedAt clock s⟩] := by
  unfold sinkIt namedAt
  dsimp only
  split
  · exact ⟨_, rfl⟩
  · exact ⟨_, rfl⟩

lemma written_prefix (s : Sink) (msgs : List Bytes) :
    s.written <+: (msgs.foldl (sinkIt z clock path) s).written := by
  induction msgs generalizing s with
  | nil => exact List.prefix_rfl
  | cons msg msgs ih =>
    obtain ⟨file, h⟩ := @written_sinkIt z clock path s msg
    exact (h ▸ List.prefix_append _ _).trans (ih _)

/-- **Every message is written to the file of its hour.** What is written for a message bears the
readings of its call: the one it was compared at, and the one its file was named from when the call
rotated. -/
theorem run_filed (z : FixedZone) (clock : ℕ → ℕ) (hclock : Monotone clock) (path : Bytes)
    (msgs : List Bytes) :
    (run z clock path msgs).written.map Write.msg = msgs ∧
      (∀ w ∈ (run z clock path msgs).written, Filed z path w) ∧
      ∀ before msg after, msgs = before ++ msg :: after →
        ∃ file, (run z clock path msgs).written[before.length]? =
          some ⟨msg, file, clock (run z clock path before).readings,
            namedAt clock (run z clock path before)⟩ := by
  refine ⟨written_run msgs, (opened_run hclock msgs).filed, ?_⟩
  rintro before msg after rfl
  obtain ⟨file, h⟩ := @written_sinkIt z clock path (run z clock path before) msg
  obtain ⟨rest, hrest⟩ := written_prefix (sinkIt z clock path (run z clock path before) msg) after
  have hrun : run z clock path (before ++ msg :: after) =
      after.foldl (sinkIt z clock path) (sinkIt z clock path (run z clock path before) msg) :=
    List.foldl_append
  have hlen := @length_written_run z clock path before
  refine ⟨file, ?_⟩
  rw [hrun, ← hrest, h, List.append_assoc, ← hlen, List.getElem?_append_right le_rfl, Nat.sub_self]
  rfl

def beijing : FixedZone := ⟨28800, by decide⟩

/-- A clock that is read a little more than every twenty minutes. -/
def slowClock (i : ℕ) : ℕ := 1200000000001 * i

theorem run_filed_slow :
    (run beijing slowClock (lit "l") [[1], [2], [3]]).written.map Write.msg = [[1], [2], [3]] ∧
      (∀ w ∈ (run beijing slowClock (lit "l") [[1], [2], [3]]).written,
        Filed beijing (lit "l") w) ∧
      ∀ before msg after, [[1], [2], [3]] = before ++ msg :: after →
        ∃ file, (run beijing slowClock (lit "l") [[1], [2], [3]]).written[before.length]? =
          some ⟨msg, file, slowClock (run beijing slowClock (lit "l") before).readings,
            namedAt slowClock (run beijing slowClock (lit "l") before)⟩ :=
  run_filed beijing slowClock (fun _ _ h => Nat.mul_le_mul_left _ h) (lit "l") [[1], [2], [3]]

example : (run beijing slowClock (lit "l") [[1], [2], [3]]).written.map Write.file =
    [lit "l/1970010108.log", lit "l/1970010109.log", lit "l/1970010110.log"] := by
  decide +kernel

end NgxMapping.HourFile
