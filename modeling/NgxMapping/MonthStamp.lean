import NgxMapping.Lib.Calendar
import NgxMapping.Scylla

/-!
The month that is stored with a pair.

`createClustersSession` computes the stamp once and keeps it in a static variable; the
subscriber then runs until it is stopped. The stamp of a row is the month in which the session
was created, whenever the message arrives.
-/

namespace NgxMapping.MonthStamp

open Lib Scylla

/-- The static variables of `scylla` that `insert` and `batchInsert` read. -/
structure Statics where
  monthMicrosecond : ℤ
  monthMillisecond : ℤ

/-- `createClustersSession`: the first second of the month at the time of the call. -/
def createClustersSession (z : Zone) (now : ℕ) : Statics :=
  let seconds := z.start (z.month now)
  { monthMicrosecond := seconds, monthMillisecond := seconds * 1000 }

structure Stamped where
  row : Row
  lastAccess : ℤ
  deriving DecidableEq

/-- A message and the time at which it is received. -/
structure Received where
  time : ℕ
  content : Bytes

/-- One round of the subscriber loop: the rows that `insert` writes. -/
def receive (σ : Statics) (msg : Received) : List Stamped :=
  (subscriber msg.content).map fun row => ⟨row, σ.monthMillisecond⟩

/-- A run of `subscriber.php` that creates its session at `now`: every row it writes, with the
time of the message. The loop changes no static variable. -/
def subscriberRun (z : Zone) (now : ℕ) (msgs : List Received) : List (ℕ × Stamped) :=
  msgs.flatMap fun msg => (receive (createClustersSession z now) msg).map fun s => (msg.time, s)

/-- The stamp of the month in which `t` lies, in milliseconds. -/
def monthOf (z : Zone) (t : ℕ) : ℤ := z.start (z.month t) * 1000

lemma monthOf_eq_iff (z : Zone) (t u : ℕ) : monthOf z t = monthOf z u ↔ z.month t = z.month u := by
  constructor
  · intro h
    refine z.start_strictMono.injective ?_
    unfold monthOf at h
    omega
  · intro h
    rw [monthOf, monthOf, h]

lemma receive_stamp_iff (z : Zone) (now : ℕ) (msg : Received) :
    (∀ s ∈ receive (createClustersSession z now) msg, s.lastAccess = monthOf z msg.time) ↔
      (subscriber msg.content ≠ [] → z.month msg.time = z.month now) := by
  have hstamp : (createClustersSession z now).monthMillisecond = monthOf z now := rfl
  constructor
  · intro h hne
    obtain ⟨row, hrow⟩ := List.exists_mem_of_ne_nil _ hne
    have hs := h ⟨row, _⟩ (List.mem_map.mpr ⟨row, hrow, rfl⟩)
    exact (monthOf_eq_iff z _ _).mp (hs.symm.trans hstamp)
  · intro h s hs
    obtain ⟨row, hrow, rfl⟩ := List.mem_map.mp hs
    have hmonth := h (List.ne_nil_of_mem hrow)
    exact hstamp.trans ((monthOf_eq_iff z _ _).mpr hmonth.symm)

/-- **The rows of a run carry their own month exactly as long as the month of the session
lasts.** -/
theorem own_month_iff (z : Zone) (now : ℕ) (msgs : List Received) :
    (∀ r ∈ subscriberRun z now msgs, r.2.lastAccess = monthOf z r.1) ↔
      ∀ msg ∈ msgs, subscriber msg.content ≠ [] → z.month msg.time = z.month now := by
  have hrun : (∀ r ∈ subscriberRun z now msgs, r.2.lastAccess = monthOf z r.1) ↔
      ∀ msg ∈ msgs, ∀ s ∈ receive (createClustersSession z now) msg,
        s.lastAccess = monthOf z msg.time := by
    constructor
    · intro h msg hmsg s hs
      exact h (msg.time, s) (List.mem_flatMap.mpr ⟨msg, hmsg, List.mem_map.mpr ⟨s, hs, rfl⟩⟩)
    · intro h r hr
      obtain ⟨msg, hmsg, hr⟩ := List.mem_flatMap.mp hr
      obtain ⟨s, hs, rfl⟩ := List.mem_map.mp hr
      exact h msg hmsg s hs
  rw [hrun]
  exact forall_congr' fun msg => imp_congr_right fun _ => receive_stamp_iff z now msg

/-- A session of the last day of June stamps a row of July with June. -/
theorem wrong_month_july :
    [(1498800000 : ℕ), 1498900000].Pairwise (· ≤ ·) ∧
    subscriberRun (.fixed 28800 (by decide)) 1498800000 [⟨1498900000, lit "6, R, U"⟩] =
      [(1498900000, ⟨⟨lit "miaozhen", lit "R", lit "U"⟩, 1496246400000⟩)] ∧
    monthOf (.fixed 28800 (by decide)) 1498900000 = 1498838400000 := by
  decide +kernel

end NgxMapping.MonthStamp
