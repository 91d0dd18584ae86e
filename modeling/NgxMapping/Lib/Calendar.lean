import Mathlib.Data.Nat.Find
import Mathlib.Order.Monotone.Basic
import Mathlib.Tactic
import NgxMapping.Lib.Bytes

/-!
Months of the Gregorian calendar and the instants at which they begin.

Months are counted from January of the year 0, days from its first day. A time zone says by
how many seconds its clocks are ahead of the world's when a month begins; `month` is the month
in which an instant lies. With one offset for all times, `mktime` undoes `localtime` and the hours
are a division.
-/

namespace NgxMapping.Lib

def isLeap (y : ℕ) : Prop := y % 4 = 0 ∧ (y % 100 ≠ 0 ∨ y % 400 = 0)

instance (y : ℕ) : Decidable (isLeap y) := inferInstanceAs (Decidable (_ ∧ _))

/-- The days of the months before month `m` of a common year. -/
def daysBefore (m : ℕ) : ℕ := [0, 31, 59, 90, 120, 151, 181, 212, 243, 273, 304, 334].getD m 365

/-- The number of the first day of a year: every fourth year is longer, less the centuries, but
for every fourth of these. -/
def yearStart (y : ℕ) : ℕ := 365 * y + (y + 3) / 4 - (y + 99) / 100 + (y + 399) / 400

/-- The days of a year before its month `m`. -/
def monthDays (y m : ℕ) : ℕ := daysBefore m + if 1 < m ∧ isLeap y then 1 else 0

/-- The number of the first day of a month. -/
def monthStart (n : ℕ) : ℕ := yearStart (n / 12) + monthDays (n / 12) (n % 12)

/-- The first of January 1970. -/
def epochDay : ℕ := monthStart (12 * 1970)

lemma epochDay_eq : epochDay = 719528 := rfl

lemma yearStart_succ (y : ℕ) : yearStart (y + 1) = yearStart y + if isLeap y then 366 else 365 := by
  have h4 : (y + 1 + 3) / 4 = (y + 3) / 4 + if y % 4 = 0 then 1 else 0 := by split <;> omega
  have h100 : (y + 1 + 99) / 100 = (y + 99) / 100 + if y % 100 = 0 then 1 else 0 := by
    split <;> omega
  have h400 : (y + 1 + 399) / 400 = (y + 399) / 400 + if y % 400 = 0 then 1 else 0 := by
    split <;> omega
  have hle : (y + 99) / 100 ≤ 365 * y + (y + 3) / 4 := by omega
  have h1 : y % 100 = 0 → y % 4 = 0 := by omega
  have h2 : y % 400 = 0 → y % 100 = 0 := by omega
  unfold yearStart
  rw [h4, h100, h400]
  by_cases hy4 : y % 4 = 0
  · by_cases hy100 : y % 100 = 0
    · by_cases hy400 : y % 400 = 0
      · rw [if_pos hy4, if_pos hy100, if_pos hy400, if_pos ⟨hy4, .inr hy400⟩]
        omega
      · have hno : ¬ isLeap y := fun h => h.2.elim (fun h => h hy100) hy400
        rw [if_pos hy4, if_pos hy100, if_neg hy400, if_neg hno]
        omega
    · rw [if_pos hy4, if_neg hy100, if_neg fun h => hy100 (h2 h), if_pos ⟨hy4, .inl hy100⟩]
      omega
  · have hy100 : ¬ y % 100 = 0 := fun h => hy4 (h1 h)
    rw [if_neg hy4, if_neg hy100, if_neg fun h => hy100 (h2 h), if_neg fun h => hy4 h.1]
    omega

lemma monthDays_succ (y : ℕ) {m : ℕ} (hm : m < 11) :
    monthDays y m + 28 ≤ monthDays y (m + 1) ∧ monthDays y (m + 1) ≤ monthDays y m + 31 := by
  unfold monthDays
  by_cases h : isLeap y
  · simp only [h, and_true]
    interval_cases m <;> decide
  · simp only [h, and_false, if_false]
    interval_cases m <;> decide

lemma monthStart_succ (n : ℕ) :
    monthStart n + 28 ≤ monthStart (n + 1) ∧ monthStart (n + 1) ≤ monthStart n + 31 := by
  unfold monthStart
  by_cases hm : n % 12 < 11
  · rw [show (n + 1) / 12 = n / 12 by omega, show (n + 1) % 12 = n % 12 + 1 by omega]
    have := monthDays_succ (n / 12) hm
    omega
  · -- from December to January
    rw [show (n + 1) / 12 = n / 12 + 1 by omega, show (n + 1) % 12 = 0 by omega,
      show n % 12 = 11 by omega, yearStart_succ]
    have hjan : monthDays (n / 12 + 1) 0 = 0 := by simp [monthDays, daysBefore]
    have hdec : monthDays (n / 12) 11 = 334 + if isLeap (n / 12) then 1 else 0 := by
      simp [monthDays, daysBefore]
    rw [hjan, hdec]
    split <;> omega

lemma le_monthStart (n : ℕ) : yearStart (n / 12) ≤ monthStart n := Nat.le_add_right _ _

/-! ### All years

The calendar repeats itself after 400 years, which are 4800 months and 146097 days. -/

/-- The number of the first day of a month, also before the year 0. -/
def firstDay (n : ℤ) : ℤ := 146097 * (n / 4800) + monthStart (n % 4800).toNat

def monthAt (d : ℤ) : ℤ :=
  4800 * (d / 146097) + Nat.findGreatest (fun n => (monthStart n : ℤ) ≤ d % 146097) 4799

def monthLength (n : ℤ) : ℕ := (firstDay (n + 1) - firstDay n).toNat

lemma firstDay_add (q : ℤ) {k : ℕ} (hk : k ≤ 4800) :
    firstDay (4800 * q + k) = 146097 * q + monthStart k := by
  unfold firstDay
  by_cases h : k = 4800
  · have hstart : monthStart 4800 = 146097 := by decide
    have hzero : monthStart 0 = 0 := rfl
    rw [h, hstart, show (4800 * q + (4800 : ℕ)) / 4800 = q + 1 by omega,
      show ((4800 * q + (4800 : ℕ)) % 4800).toNat = 0 by omega, hzero]
    push_cast
    ring
  · rw [show (4800 * q + k) / 4800 = q by omega, show ((4800 * q + k) % 4800).toNat = k by omega]

lemma firstDay_natCast (n : ℕ) : firstDay n = monthStart n := by
  have hrep : monthStart n = 146097 * (n / 4800) + monthStart (n % 4800) := by
    have hleap : isLeap (n / 12) ↔ isLeap (n % 4800 / 12) := by
      unfold isLeap
      omega
    have hyear : yearStart (n / 12) = 146097 * (n / 4800) + yearStart (n % 4800 / 12) := by
      unfold yearStart
      omega
    have hmonth : n % 4800 % 12 = n % 12 := Nat.mod_mod_of_dvd n (by decide)
    rw [monthStart, monthStart, hyear, hmonth, monthDays, monthDays, if_congr (and_congr_right
      fun _ => hleap) rfl rfl, add_assoc]
  rw [firstDay, show ((n : ℤ) % 4800).toNat = n % 4800 by omega, hrep]
  push_cast
  rfl

lemma firstDay_succ (n : ℤ) : firstDay n + 28 ≤ firstDay (n + 1) ∧
    firstDay (n + 1) ≤ firstDay n + 31 := by
  obtain ⟨q, k, hk, rfl⟩ : ∃ (q : ℤ) (k : ℕ), k < 4800 ∧ n = 4800 * q + k :=
    ⟨n / 4800, (n % 4800).toNat, by omega, by omega⟩
  have hnext := firstDay_add q (show k + 1 ≤ 4800 by omega)
  have hmonth := monthStart_succ k
  push_cast at hnext
  rw [firstDay_add q hk.le, show 4800 * q + (k : ℤ) + 1 = 4800 * q + (k + 1) by ring, hnext]
  omega

lemma firstDay_strictMono : StrictMono firstDay := by
  refine strictMono_int_of_lt_succ fun n => ?_
  have := firstDay_succ n
  omega

lemma monthLength_cast (n : ℤ) : (monthLength n : ℤ) = firstDay (n + 1) - firstDay n := by
  have := firstDay_succ n
  unfold monthLength
  omega

lemma monthAt_spec (d : ℤ) : firstDay (monthAt d) ≤ d ∧ d < firstDay (monthAt d + 1) := by
  set P : ℕ → Prop := fun n => (monthStart n : ℤ) ≤ d % 146097 with hP
  set k := Nat.findGreatest P 4799 with hk
  have hle : k ≤ 4799 := Nat.findGreatest_le 4799
  have hlo : (monthStart k : ℤ) ≤ d % 146097 := by
    refine Nat.findGreatest_spec (P := P) (Nat.zero_le 4799) ?_
    have : monthStart 0 = 0 := rfl
    rw [hP]
    simp only
    omega
  have hhi : d % 146097 < (monthStart (k + 1) : ℤ) := by
    by_cases hlast : k = 4799
    · have : monthStart 4800 = 146097 := by decide
      rw [hlast, this]
      omega
    · have := Nat.findGreatest_is_greatest (P := P) (show k < k + 1 by omega) (by omega)
      simpa [hP] using this
  have hnext := firstDay_add (d / 146097) (show k + 1 ≤ 4800 by omega)
  push_cast at hnext
  have hmonth : monthAt d = 4800 * (d / 146097) + k := rfl
  rw [hmonth, firstDay_add _ (by omega), Int.add_assoc, hnext]
  omega

lemma monthAt_eq_iff {d n : ℤ} : monthAt d = n ↔ firstDay n ≤ d ∧ d < firstDay (n + 1) := by
  constructor
  · rintro rfl
    exact monthAt_spec d
  · rintro ⟨h1, h2⟩
    obtain ⟨h3, h4⟩ := monthAt_spec d
    have h5 : monthAt d < n + 1 := firstDay_strictMono.lt_iff_lt.mp (by omega)
    have h6 : n < monthAt d + 1 := firstDay_strictMono.lt_iff_lt.mp (by omega)
    omega

structure Zone where
  /-- how far the clocks are ahead when a month begins, in seconds -/
  offset : ℕ → ℤ
  bounded : ∀ n, -86400 < offset n ∧ offset n < 86400

def Zone.fixed (offset : ℤ) (h : -86400 < offset ∧ offset < 86400) : Zone :=
  ⟨fun _ => offset, fun _ => h⟩

namespace Zone

variable (z : Zone)

def start (n : ℕ) : ℤ := 86400 * ((monthStart n : ℤ) - epochDay) - z.offset n

lemma start_strictMono : StrictMono z.start := by
  refine strictMono_nat_of_lt_succ fun n => ?_
  have h1 := monthStart_succ n
  have h2 := z.bounded n
  have h3 := z.bounded (n + 1)
  unfold start
  omega

/-- The month in which an instant lies. The search goes down from a month behind it. -/
def month (t : ℕ) : ℕ := Nat.findGreatest (fun n => z.start n ≤ t) (12 * (t / 31536000 + 1972))

lemma le_bound {t n : ℕ} (h : z.start n ≤ t) : n ≤ 12 * (t / 31536000 + 1972) := by
  have hoff := z.bounded n
  have hle := le_monthStart n
  unfold start at h
  rw [epochDay_eq] at h
  unfold yearStart at hle
  omega

lemma start_month_le (t : ℕ) : z.start (z.month t) ≤ t := by
  have h0 : z.start 0 ≤ t := by
    have := z.bounded 0
    have : monthStart 0 = 0 := rfl
    unfold start
    rw [epochDay_eq]
    omega
  exact Nat.findGreatest_spec (P := fun n => z.start n ≤ t) (Nat.zero_le _) h0

lemma lt_start_month_succ (t : ℕ) : (t : ℤ) < z.start (z.month t + 1) := by
  by_contra hle
  have hle : z.start (z.month t + 1) ≤ t := by omega
  have := Nat.le_findGreatest (P := fun n => z.start n ≤ t) (z.le_bound hle) hle
  unfold month at this
  omega

lemma month_eq_iff {t n : ℕ} : z.month t = n ↔ z.start n ≤ t ∧ (t : ℤ) < z.start (n + 1) := by
  constructor
  · rintro rfl
    exact ⟨z.start_month_le t, z.lt_start_month_succ t⟩
  · rintro ⟨h1, h2⟩
    have h3 := z.start_month_le t
    have h4 := z.lt_start_month_succ t
    have h5 : z.month t < n + 1 := z.start_strictMono.lt_iff_lt.mp (by omega)
    have h6 : n < z.month t + 1 := z.start_strictMono.lt_iff_lt.mp (by omega)
    omega

end Zone

/-! ### Local time at a fixed offset -/

structure FixedZone where
  offset : ℤ
  bounded : -86400 < offset ∧ offset < 86400

namespace FixedZone

variable (z : FixedZone)

def zone : Zone := Zone.fixed z.offset z.bounded

/-- The number of the hour in which an instant lies. -/
def hour (t : ℕ) : ℤ := (t + z.offset) / 3600

/-- The number of the local day in which an instant lies. -/
def day (t : ℕ) : ℤ := (t + z.offset) / 86400 + epochDay

/-- `localtime_r`. The first day of 1970 was a Thursday. -/
def localtime (t : ℕ) : Tm where
  year := z.zone.month t / 12
  mon := ⟨z.zone.month t % 12, Nat.mod_lt _ (by decide)⟩
  mday := (z.day t - monthStart (z.zone.month t)).toNat + 1
  hour := ((t + z.offset) % 86400 / 3600).toNat
  min := ((t + z.offset) % 3600 / 60).toNat
  sec := ((t + z.offset) % 60).toNat
  wday := ⟨(((t + z.offset) / 86400 + 4) % 7).toNat, by omega⟩

/-- `mktime`: every field counts, also beyond its range. -/
def mktime (tm : Tm) : ℤ :=
  86400 * (monthStart (12 * tm.year + tm.mon) + tm.mday - 1 - epochDay) + 3600 * tm.hour +
    60 * tm.min + tm.sec - z.offset

lemma start_month_le_day (t : ℕ) :
    (monthStart (z.zone.month t) : ℤ) ≤ z.day t ∧
      z.day t < monthStart (z.zone.month t + 1) := by
  have h1 := z.zone.start_month_le t
  have h2 := z.zone.lt_start_month_succ t
  have hoff : ∀ n, z.zone.offset n = z.offset := fun _ => rfl
  simp only [Zone.start, hoff] at h1 h2
  unfold day
  omega

lemma day_localtime (t : ℕ) :
    (monthStart (12 * (z.localtime t).year + (z.localtime t).mon) : ℤ) + (z.localtime t).mday - 1 =
      z.day t := by
  have hle := (z.start_month_le_day t).1
  have hmonth : 12 * (z.localtime t).year + (z.localtime t).mon = z.zone.month t := by
    simp only [localtime]
    omega
  rw [hmonth]
  simp only [localtime]
  omega

lemma mktime_hour (t k : ℕ) :
    z.mktime { z.localtime t with min := 0, sec := 0, hour := (z.localtime t).hour + k } =
      3600 * (z.hour t + k) - z.offset := by
  rw [mktime, day_localtime]
  simp only [localtime, day, hour]
  push_cast
  omega

lemma localtime_lt (t : ℕ) : (z.localtime t).mday ≤ 31 ∧ (z.localtime t).hour < 24 := by
  have hday := z.start_month_le_day t
  have hlen := monthStart_succ (z.zone.month t)
  simp only [localtime]
  omega

lemma month_eq_of_hour_eq {t u : ℕ} (h : z.hour t = z.hour u) :
    z.zone.month t = z.zone.month u := by
  have h1 := z.zone.start_month_le u
  have h2 := z.zone.lt_start_month_succ u
  have hoff : ∀ n, z.zone.offset n = z.offset := fun _ => rfl
  simp only [Zone.start, hoff] at h1 h2
  rw [Zone.month_eq_iff]
  simp only [Zone.start, hoff]
  unfold hour at h
  omega

lemma hour_eq_iff {t u : ℕ} : z.hour t = z.hour u ↔
    (z.localtime t).year = (z.localtime u).year ∧ (z.localtime t).mon = (z.localtime u).mon ∧
      (z.localtime t).mday = (z.localtime u).mday ∧
      (z.localtime t).hour = (z.localtime u).hour := by
  constructor
  · intro h
    have hmonth := z.month_eq_of_hour_eq h
    have hday : z.day t = z.day u := by
      unfold hour at h
      unfold day
      omega
    refine ⟨by simp only [localtime, hmonth], by simp only [localtime, hmonth],
      by simp only [localtime, hmonth, hday], ?_⟩
    unfold hour at h
    simp only [localtime]
    omega
  · rintro ⟨hy, hm, hd, hh⟩
    have ht := z.mktime_hour t 0
    have hu := z.mktime_hour u 0
    simp only [mktime, hy, hm, hd, hh] at ht hu
    omega

end FixedZone

end NgxMapping.Lib
