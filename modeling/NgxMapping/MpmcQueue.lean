import Mathlib.Data.Nat.Bitwise
import NgxMapping.Lib.Channel

/-!
`mpmc_bounded_queue` of `spdlog/details/mpmc_bounded_q.h`, the queue between the threads that log
and the one that writes.

Threads take tickets from two counters, one for putting and one for taking, and every cell of the
ring carries the number of the ticket whose turn it is. The threads run one memory access at a
time in any order; the accesses are taken to be sequentially consistent, and `size_t` counters
wrap around at `2 ^ 64`.
-/

namespace NgxMapping.MpmcQueue

open Lib

variable {θ α : Type}

/-! ### The size of the ring -/

/-- A buffer size that the constructor accepts; it throws for any other. -/
structure Size where
  val : ℕ
  two_le : 2 ≤ val
  pow : val &&& (val - 1) = 0

lemma exists_two_pow {n : ℕ} (hn : 0 < n) (h : n &&& (n - 1) = 0) : ∃ k, n = 2 ^ k := by
  induction n using Nat.strong_induction_on with
  | _ n ih =>
    rcases Nat.even_or_odd' n with ⟨m, rfl | rfl⟩
    · -- an even number and its predecessor differ in the last bit and, above it, as the halves
      have hm : 0 < m := by omega
      have hhalf : m &&& (m - 1) = 0 := by
        have h2 := congrArg (· / 2) h
        simp only [Nat.and_div_two] at h2
        rwa [show 2 * m / 2 = m by omega, show (2 * m - 1) / 2 = m - 1 by omega] at h2
      obtain ⟨k, hk⟩ := ih m (by omega) hm hhalf
      exact ⟨k + 1, by rw [pow_succ, ← hk, Nat.mul_comm]⟩
    · have h2 := congrArg (· / 2) h
      simp only [Nat.and_div_two] at h2
      rw [show (2 * m + 1) / 2 = m by omega, show (2 * m + 1 - 1) / 2 = m by omega,
        Nat.and_self] at h2
      have hm : m = 0 := by simpa using h2
      exact ⟨0, by rw [hm]; rfl⟩

lemma Size.and_mask (N : Size) (pos : ℕ) : pos &&& (N.val - 1) = pos % N.val := by
  have h2 := N.two_le
  obtain ⟨k, hk⟩ := exists_two_pow (by omega) N.pow
  rw [hk, Nat.and_two_pow_sub_one_eq_mod]

/-! ### The queue and its threads -/

/-- The value of a `size_t`. -/
def wrap (n : ℕ) : ℕ := n % 2 ^ 64

/-- A `size_t` read as `intptr_t`. -/
def intptr (n : ℕ) : ℤ := Int.bmod n (2 ^ 64)

/-- The distance from a ticket to the number in a cell. -/
def dif (sequence pos : ℕ) : ℤ := intptr sequence - intptr pos

structure Cell (α : Type) where
  sequence : ℕ
  data : α

/-- Where a thread is in `enqueue` or `dequeue`: before the access named, with its local
variables. -/
inductive Pc (α : Type)
  | idle
  | loadEnqueuePos (v : α)
  | loadSequence (v : α) (pos : ℕ)
  | casEnqueuePos (v : α) (pos : ℕ)
  | storeData (v : α) (pos : ℕ)
  | publish (v : α) (pos : ℕ)
  | loadDequeuePos
  | loadSequence' (pos : ℕ)
  | casDequeuePos (pos : ℕ)
  | moveData (pos : ℕ)
  | release (pos : ℕ) (v : α)
  | done (o : Op α)

structure Queue (θ α : Type) where
  buffer : ℕ → Cell α
  enqueuePos : ℕ
  dequeuePos : ℕ
  pc : θ → Pc α

/-- The constructor's stores. -/
def construct [Inhabited α] : Queue θ α where
  buffer i := ⟨i, default⟩
  enqueuePos := 0
  dequeuePos := 0
  pc _ := .idle

/-- A step of the schedule: a thread calls an operation, or makes its next access; a
`compare_exchange_weak` may fail for no reason. -/
inductive Input (α : Type)
  | call (c : Call α)
  | run (spurious : Bool)

namespace Queue

section Cells

variable (N : Size) (q : Queue θ α)

def cell (pos : ℕ) : Cell α := q.buffer (pos &&& (N.val - 1))

def setCell (pos : ℕ) (c : Cell α) : Queue θ α :=
  { q with buffer := Function.update q.buffer (pos &&& (N.val - 1)) c }

@[simp] lemma setCell_pc (pos : ℕ) (c : Cell α) : (q.setCell N pos c).pc = q.pc := rfl

lemma cell_congr {p p' : ℕ} (h : p % N.val = p' % N.val) : q.cell N p = q.cell N p' := by
  rw [cell, cell, N.and_mask, N.and_mask, h]

lemma cell_setCell (pos : ℕ) (c : Cell α) (p : ℕ) :
    (q.setCell N pos c).cell N p = if p % N.val = pos % N.val then c else q.cell N p := by
  simp only [cell, setCell, N.and_mask, Function.update_apply]

end Cells

def setEnqueuePos (q : Queue θ α) (pos : ℕ) : Queue θ α := { q with enqueuePos := pos }

def setDequeuePos (q : Queue θ α) (pos : ℕ) : Queue θ α := { q with dequeuePos := pos }

@[simp] lemma setEnqueuePos_pc (q : Queue θ α) (pos : ℕ) : (q.setEnqueuePos pos).pc = q.pc := rfl

@[simp] lemma setDequeuePos_pc (q : Queue θ α) (pos : ℕ) : (q.setDequeuePos pos).pc = q.pc := rfl

variable [DecidableEq θ]

def setPc (q : Queue θ α) (t : θ) (p : Pc α) : Queue θ α :=
  { q with pc := Function.update q.pc t p }

/-- One access of `enqueue` or `dequeue` by a thread at the place given. -/
def access [Inhabited α] (N : Size) (q : Queue θ α) (t : θ) (spurious : Bool) : Pc α → Queue θ α
  | .idle | .done _ => q
  | .loadEnqueuePos v => q.setPc t (.loadSequence v q.enqueuePos)
  | .loadSequence v pos =>
    if dif (q.cell N pos).sequence pos = 0 then q.setPc t (.casEnqueuePos v pos)
    else if dif (q.cell N pos).sequence pos < 0 then q.setPc t (.done (.put v false))
    else q.setPc t (.loadEnqueuePos v)
  | .casEnqueuePos v pos =>
    if q.enqueuePos = pos ∧ spurious = false then
      (q.setEnqueuePos (wrap (pos + 1))).setPc t (.storeData v pos)
    else q.setPc t (.loadSequence v q.enqueuePos)
  | .storeData v pos =>
    (q.setCell N pos { q.cell N pos with data := v }).setPc t (.publish v pos)
  | .publish v pos =>
    (q.setCell N pos { q.cell N pos with sequence := wrap (pos + 1) }).setPc t
      (.done (.put v true))
  | .loadDequeuePos => q.setPc t (.loadSequence' q.dequeuePos)
  | .loadSequence' pos =>
    if dif (q.cell N pos).sequence (wrap (pos + 1)) = 0 then q.setPc t (.casDequeuePos pos)
    else if dif (q.cell N pos).sequence (wrap (pos + 1)) < 0 then q.setPc t (.done (.take none))
    else q.setPc t .loadDequeuePos
  | .casDequeuePos pos =>
    if q.dequeuePos = pos ∧ spurious = false then
      (q.setDequeuePos (wrap (pos + 1))).setPc t (.moveData pos)
    else q.setPc t (.loadSequence' q.dequeuePos)
  | .moveData pos =>
    (q.setCell N pos { q.cell N pos with data := default }).setPc t
      (.release pos (q.cell N pos).data)
  | .release pos v =>
    (q.setCell N pos { q.cell N pos with sequence := wrap (pos + (N.val - 1) + 1) }).setPc t
      (.done (.take (some v)))

/-- The first access of an operation. -/
def entry : Call α → Pc α
  | .put v => .loadEnqueuePos v
  | .take => .loadDequeuePos

/-- A step of the schedule and the call or return it shows. A thread in the middle of an
operation calls nothing. -/
def next [Inhabited α] (N : Size) (q : Queue θ α) (x : θ × Input α) :
    Queue θ α × Option (Event θ α) :=
  match x.2, q.pc x.1 with
  | .call c, .idle => (q.setPc x.1 (entry c), some (.call x.1 c))
  | .call _, _ => (q, none)
  | .run _, .done o => (q.setPc x.1 .idle, some (.ret x.1 o))
  | .run spurious, p => (q.access N x.1 spurious p, none)

@[simp] lemma setPc_pc (q : Queue θ α) (t : θ) (p : Pc α) : (q.setPc t p).pc t = p :=
  Function.update_self ..

lemma setPc_pc_of_ne (q : Queue θ α) {t u : θ} (p : Pc α) (h : u ≠ t) :
    (q.setPc t p).pc u = q.pc u :=
  Function.update_of_ne h ..

end Queue

/-! ### Threads and their operations -/

def Pc.call : Pc α → Option (Call α)
  | .idle => none
  | .loadEnqueuePos v | .loadSequence v _ | .casEnqueuePos v _ | .storeData v _ | .publish v _ |
    .done (.put v _) => some (.put v)
  | .loadDequeuePos | .loadSequence' _ | .casDequeuePos _ | .moveData _ | .release _ _ |
    .done (.take _) => some .take

section Threads

variable [DecidableEq θ] [Inhabited α] (N : Size) (q : Queue θ α) {t u : θ}

lemma access_pc_of_ne (spurious : Bool) (p : Pc α) (h : u ≠ t) :
    (q.access N t spurious p).pc u = q.pc u := by
  cases p <;> rw [Queue.access] <;> repeat' split
  all_goals
    rw [Queue.setPc_pc_of_ne _ _ h]
    try first | rw [Queue.setCell_pc] | rw [Queue.setEnqueuePos_pc] | rw [Queue.setDequeuePos_pc]

lemma access_call (spurious : Bool) :
    ((q.access N t spurious (q.pc t)).pc t).call = (q.pc t).call := by
  rcases hp : q.pc t with _ | v | ⟨v, pos⟩ | ⟨v, pos⟩ | ⟨v, pos⟩ | ⟨v, pos⟩ | _ | pos | pos | pos |
    ⟨pos, v⟩ | o <;> rw [Queue.access] <;> repeat' split
  all_goals first | rw [Queue.setPc_pc]; rfl | rw [hp]

lemma next_pc_of_ne (x : Input α) (h : u ≠ t) : (q.next N (t, x)).1.pc u = q.pc u := by
  unfold Queue.next
  split
  · exact Queue.setPc_pc_of_ne _ _ h
  · rfl
  · exact Queue.setPc_pc_of_ne _ _ h
  · exact access_pc_of_ne N q _ _ h

/-- A thread in an operation returns from it, or shows nothing and stays in it. -/
lemma next_run (spurious : Bool) :
    (∃ o, q.pc t = .done o ∧
      q.next N (t, .run spurious) = (q.setPc t .idle, some (.ret t o))) ∨
    ((q.next N (t, .run spurious)).2 = none ∧
      ((q.next N (t, .run spurious)).1.pc t).call = (q.pc t).call) := by
  by_cases hdone : ∃ o, q.pc t = .done o
  · obtain ⟨o, ho⟩ := hdone
    exact .inl ⟨o, ho, by simp [Queue.next, ho]⟩
  · right
    have hnext : q.next N (t, .run spurious) = (q.access N t spurious (q.pc t), none) := by
      unfold Queue.next
      split <;> simp_all
    rw [hnext]
    exact ⟨rfl, access_call N q spurious⟩

end Threads

end NgxMapping.MpmcQueue
