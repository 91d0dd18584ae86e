import Mathlib.Algebra.BigOperators.Fin
import Mathlib.Data.Multiset.Basic
import Mathlib.Tactic

/-!
`ThreadPool` of `logger/utils/threadPool.h`: workers that wait on a condition variable for tasks.

What happens under `queue_mutex` is one step. The notifications are sent without the lock, so any
number of steps may lie between a change and the notification of it; a waiting worker may also
wake up without one. A task is a `packaged_task`, which lets no exception out.
-/

namespace NgxMapping.ThreadPool

variable {τ : Type} {n : ℕ}

/-- A worker: about to take the lock and look, inside `condition.wait`, in a task, or returned. -/
inductive Worker (τ : Type)
  | ready
  | waiting
  | running (x : τ)
  | exited

/-- The pool. `owed` counts the `notify_one` that are still to be sent, `owedAll` says that the
`notify_all` of the destructor is. -/
structure Pool (n : ℕ) (τ : Type) where
  workers : Fin n → Worker τ := fun _ => .ready
  tasks : List τ := []
  stop : Bool := false
  owed : ℕ := 0
  owedAll : Bool := false
  accepted : List τ := []
  started : List τ := []
  finished : List τ := []

/-- A step; where it is about a worker, the schedule names it. -/
inductive Input (n : ℕ) (τ : Type)
  | enqueue (x : τ)
  | notifyOne (i : Fin n)
  | look (i : Fin n)
  | finish (i : Fin n)
  | spurious (i : Fin n)
  | destroy
  | notifyAll

/-- The worker is inside `condition.wait`. -/
def Worker.isWaiting : Worker τ → Bool
  | .waiting => true
  | _ => false

/-- `notify_all`, to one worker. -/
def Worker.wake : Worker τ → Worker τ
  | .waiting => .ready
  | w => w

namespace Pool

variable (p : Pool n τ)

def setWorker (i : Fin n) (w : Worker τ) : Pool n τ :=
  { p with workers := Function.update p.workers i w }

@[simp] lemma setWorker_self (i : Fin n) (w : Worker τ) : (p.setWorker i w).workers i = w :=
  Function.update_self ..

lemma setWorker_of_ne {i j : Fin n} (w : Worker τ) (h : j ≠ i) :
    (p.setWorker i w).workers j = p.workers j := Function.update_of_ne h ..

/-- One step, if it can be made. `notify_one` wakes a waiting worker if there is one; the second
destructor call and notifications that nobody owes are no steps. -/
def step : Input n τ → Option (Pool n τ)
  | .enqueue x =>
    if p.stop then some p
    else some { p with tasks := p.tasks ++ [x], owed := p.owed + 1, accepted := p.accepted ++ [x] }
  | .notifyOne i =>
    if p.owed = 0 then none
    else if (p.workers i).isWaiting then some ({ p with owed := p.owed - 1 }.setWorker i .ready)
    else if ∀ j, (p.workers j).isWaiting = false then some { p with owed := p.owed - 1 } else none
  | .look i =>
    match p.workers i, p.tasks with
    | .ready, [] => some (p.setWorker i (if p.stop then .exited else .waiting))
    | .ready, x :: rest =>
      some ({ p with tasks := rest, started := p.started ++ [x] }.setWorker i (.running x))
    | _, _ => none
  | .finish i =>
    match p.workers i with
    | .running x => some ({ p with finished := p.finished ++ [x] }.setWorker i .ready)
    | _ => none
  | .spurious i => if (p.workers i).isWaiting then some (p.setWorker i .ready) else none
  | .destroy => if p.stop then none else some { p with stop := true, owedAll := true }
  | .notifyAll =>
    if p.owedAll then some { p with workers := fun i => (p.workers i).wake, owedAll := false }
    else none

/-- The pool after a run, if every step of it can be made. -/
def run : Pool n τ → List (Input n τ) → Option (Pool n τ)
  | p, [] => some p
  | p, x :: xs => (p.step x).bind fun p => run p xs

end Pool

/-! ### Sums over the workers -/

section Sums

variable {M : Type} [AddCommMonoid M]

lemma sum_setWorker (f : Worker τ → M) {p : Pool n τ} {i : Fin n} {w₀ : Worker τ}
    (hi : p.workers i = w₀) (w : Worker τ) :
    ∑ j, f ((p.setWorker i w).workers j) + f w₀ = ∑ j, f (p.workers j) + f w := by
  have hrest : ∑ j ∈ Finset.univ.erase i, f ((p.setWorker i w).workers j) =
      ∑ j ∈ Finset.univ.erase i, f (p.workers j) := by
    apply Finset.sum_congr rfl
    intro j hj
    rw [p.setWorker_of_ne w (Finset.ne_of_mem_erase hj)]
  rw [← Finset.add_sum_erase _ _ (Finset.mem_univ i), hrest, p.setWorker_self,
    ← Finset.add_sum_erase _ (fun j => f (p.workers j)) (Finset.mem_univ i), hi]
  abel

end Sums

/-- The task a worker is in. -/
def inHand : Worker τ → Multiset τ
  | .running x => {x}
  | _ => 0

def isReady : Worker τ → ℕ
  | .ready => 1
  | _ => 0

/-- How many steps a worker has before it when the pool has stopped. -/
def weight : Worker τ → ℕ
  | .exited => 0
  | .ready => 1
  | .waiting | .running _ => 2

/-! ### What a step can do -/

inductive Steps (p : Pool n τ) : Pool n τ → Prop
  | enqueue (x : τ) : p.stop = false → Steps p
      { p with tasks := p.tasks ++ [x], owed := p.owed + 1, accepted := p.accepted ++ [x] }
  | notify {i : Fin n} : 0 < p.owed → p.workers i = .waiting →
      Steps p ({ p with owed := p.owed - 1 }.setWorker i .ready)
  | unheard : 0 < p.owed → (∀ j, p.workers j ≠ .waiting) → Steps p { p with owed := p.owed - 1 }
  | sleep {i : Fin n} : p.workers i = .ready → p.tasks = [] → p.stop = false →
      Steps p (p.setWorker i .waiting)
  | exit {i : Fin n} : p.workers i = .ready → p.tasks = [] → p.stop = true →
      Steps p (p.setWorker i .exited)
  | start {i : Fin n} {x : τ} {rest : List τ} : p.workers i = .ready → p.tasks = x :: rest →
      Steps p ({ p with tasks := rest, started := p.started ++ [x] }.setWorker i (.running x))
  | finish {i : Fin n} {x : τ} : p.workers i = .running x →
      Steps p ({ p with finished := p.finished ++ [x] }.setWorker i .ready)
  | spurious {i : Fin n} : p.workers i = .waiting → Steps p (p.setWorker i .ready)
  | destroy : p.stop = false → Steps p { p with stop := true, owedAll := true }
  | notifyAll : p.owedAll = true →
      Steps p { p with workers := fun i => (p.workers i).wake, owedAll := false }

lemma isWaiting_iff {w : Worker τ} : w.isWaiting = true ↔ w = .waiting := by
  cases w <;> simp [Worker.isWaiting]

lemma steps_step {p p' : Pool n τ} {x : Input n τ} (h : p.step x = some p') :
    Steps p p' ∨ (p' = p ∧ ∃ y, x = .enqueue y) := by
  by_cases hx : (∃ y, x = .enqueue y) ∧ p.stop = true
  · obtain ⟨⟨y, rfl⟩, hstop⟩ := hx
    simp only [Pool.step, hstop, if_true] at h
    exact .inr ⟨(Option.some.inj h).symm, y, rfl⟩
  left
  cases x with
  | enqueue x =>
    simp only [Pool.step] at h
    split at h
    · rename_i hstop
      exact absurd ⟨⟨x, rfl⟩, hstop⟩ hx
    · obtain rfl := Option.some.inj h
      exact .enqueue x (eq_false_of_ne_true ‹_›)
  | notifyOne i =>
    simp only [Pool.step] at h
    split at h
    · cases h
    rename_i hne
    have hpos : 0 < p.owed := Nat.pos_of_ne_zero hne
    split at h
    · rename_i hw
      obtain rfl := Option.some.inj h
      exact .notify hpos (isWaiting_iff.mp hw)
    split at h
    · rename_i hall
      obtain rfl := Option.some.inj h
      refine .unheard hpos fun j hj => ?_
      have := hall j
      rw [hj] at this
      cases this
    · cases h
  | look i =>
    simp only [Pool.step] at h
    split at h
    · rename_i hw ht
      obtain rfl := Option.some.inj h
      split
      · exact .exit hw ht ‹_›
      · exact .sleep hw ht (eq_false_of_ne_true ‹_›)
    · rename_i hw ht
      obtain rfl := Option.some.inj h
      exact .start hw ht
    · cases h
  | finish i =>
    simp only [Pool.step] at h
    split at h
    · obtain rfl := Option.some.inj h
      exact .finish ‹_›
    · cases h
  | spurious i =>
    simp only [Pool.step] at h
    split at h
    · obtain rfl := Option.some.inj h
      exact .spurious (isWaiting_iff.mp ‹_›)
    · cases h
  | destroy =>
    simp only [Pool.step] at h
    split at h
    · cases h
    · obtain rfl := Option.some.inj h
      exact .destroy (eq_false_of_ne_true ‹_›)
  | notifyAll =>
    simp only [Pool.step] at h
    split at h
    · obtain rfl := Option.some.inj h
      exact .notifyAll ‹_›
    · cases h

/-! ### What every run keeps -/

/-- What has been accepted is started in order, and each task once; a worker leaves only when
there is nothing left; no worker sleeps on work without a notification on its way. -/
structure Inv (p : Pool n τ) : Prop where
  order : p.accepted = p.started ++ p.tasks
  once : (p.started : Multiset τ) = p.finished + ∑ i, inHand (p.workers i)
  left : ∀ i, p.workers i = .exited → p.stop = true ∧ p.tasks = []
  owed : p.owedAll = true → p.stop = true
  woken : p.stop = true → p.owedAll = false → ∀ i, p.workers i ≠ .waiting
  awake : (∃ i, p.workers i = .waiting) →
    p.tasks.length ≤ ∑ i, isReady (p.workers i) + p.owed

lemma inv_init : Inv ({} : Pool n τ) where
  order := rfl
  once := by simp [inHand]
  left _ h := by cases h
  owed h := by cases h
  woken h := by cases h
  awake h := by
    obtain ⟨i, hi⟩ := h
    cases hi

lemma once_setWorker {p : Pool n τ} (h : Inv p) {i : Fin n} {w : Worker τ}
    (hi : inHand (p.workers i) = 0) (hw : inHand w = 0) :
    (p.started : Multiset τ) = p.finished + ∑ j, inHand ((p.setWorker i w).workers j) := by
  have := sum_setWorker inHand (rfl : p.workers i = _) w
  rw [hi, hw, add_zero, add_zero] at this
  rw [this, h.once]

lemma exists_setWorker {p : Pool n τ} {i : Fin n} {w w' : Worker τ} (hw : w ≠ w')
    (h : ∃ j, (p.setWorker i w).workers j = w') : ∃ j, j ≠ i ∧ p.workers j = w' := by
  obtain ⟨j, hj⟩ := h
  rcases eq_or_ne j i with rfl | hne
  · rw [p.setWorker_self] at hj
    exact absurd hj hw
  · rw [p.setWorker_of_ne _ hne] at hj
    exact ⟨j, hne, hj⟩

lemma left_setWorker {p : Pool n τ} (h : Inv p) {i : Fin n} {w : Worker τ} (hw : w ≠ .exited)
    (j : Fin n) (hj : (p.setWorker i w).workers j = .exited) : p.stop = true ∧ p.tasks = [] := by
  obtain ⟨k, -, hk⟩ := exists_setWorker hw ⟨j, hj⟩
  exact h.left k hk

lemma woken_setWorker {p : Pool n τ} (h : Inv p) {i : Fin n} {w : Worker τ} (hw : w ≠ .waiting)
    (hst : p.stop = true) (hall : p.owedAll = false) (j : Fin n) :
    (p.setWorker i w).workers j ≠ .waiting := by
  intro hj
  obtain ⟨k, -, hk⟩ := exists_setWorker hw ⟨j, hj⟩
  exact h.woken hst hall k hk

lemma Inv.step {p p' : Pool n τ} (h : Inv p) (hs : Steps p p') : Inv p' := by
  cases hs with
  | enqueue x hstop =>
    refine ⟨?_, h.once, fun i hi => ?_, h.owed, h.woken, fun hw => ?_⟩
    · simp [h.order]
    · exact absurd (h.left i hi).1 (by simp [hstop])
    · have := h.awake hw
      simp only [List.length_append, List.length_singleton]
      omega
  | @notify i hpos hi =>
    have hready : _ + 0 = _ + 1 := sum_setWorker isReady hi .ready
    refine ⟨h.order, ?_, ?_, h.owed, ?_, ?_⟩
    · exact once_setWorker h (by rw [hi]; rfl) rfl
    · exact left_setWorker h (by simp)
    · exact woken_setWorker h (by simp)
    · intro _
      have := h.awake ⟨i, hi⟩
      change p.tasks.length ≤ ∑ j, isReady ((p.setWorker i .ready).workers j) + (p.owed - 1)
      omega
  | unheard hpos hnone =>
    refine ⟨h.order, h.once, h.left, h.owed, h.woken, ?_⟩
    rintro ⟨i, hi⟩
    exact absurd hi (hnone i)
  | @sleep i hi ht hstop =>
    refine ⟨h.order, once_setWorker h (by rw [hi]; rfl) rfl, ?_, h.owed, ?_, ?_⟩
    · exact left_setWorker h (by simp)
    · intro hst
      exact absurd hst (by simp [Pool.setWorker, hstop])
    · intro _
      simp [Pool.setWorker, ht]
  | @exit i hi ht hstop =>
    refine ⟨h.order, once_setWorker h (by rw [hi]; rfl) rfl, ?_, h.owed, ?_, ?_⟩
    · exact fun _ _ => ⟨hstop, ht⟩
    · exact woken_setWorker h (by simp)
    · intro _
      simp [Pool.setWorker, ht]
  | @start i x rest hi ht =>
    have hready : _ + 1 = _ + 0 := sum_setWorker isReady hi (.running x)
    have hhand : _ + 0 = _ + ({x} : Multiset τ) := sum_setWorker inHand hi (.running x)
    refine ⟨?_, ?_, ?_, h.owed, ?_, ?_⟩
    · change p.accepted = (p.started ++ [x]) ++ rest
      rw [h.order, ht]
      simp
    · change ((p.started ++ [x] : List τ) : Multiset τ) =
        p.finished + ∑ j, inHand ((p.setWorker i (.running x)).workers j)
      rw [add_zero] at hhand
      rw [hhand, ← Multiset.coe_add, h.once, add_assoc]
      rfl
    · intro j hj
      obtain ⟨k, -, hk⟩ := exists_setWorker (p := p) (by simp) ⟨j, hj⟩
      have := (h.left k hk).2
      rw [ht] at this
      cases this
    · exact woken_setWorker h (by simp)
    · intro hw
      obtain ⟨k, -, hk⟩ := exists_setWorker (p := p) (by simp) hw
      have := h.awake ⟨k, hk⟩
      rw [ht, List.length_cons] at this
      change rest.length ≤ ∑ j, isReady ((p.setWorker i (.running x)).workers j) + p.owed
      omega
  | @finish i x hi =>
    have hready : _ + 0 = _ + 1 := sum_setWorker isReady hi .ready
    have hhand : _ + ({x} : Multiset τ) = _ + 0 := sum_setWorker inHand hi .ready
    refine ⟨h.order, ?_, ?_, h.owed, ?_, ?_⟩
    · change (p.started : Multiset τ) = ((p.finished ++ [x] : List τ) : Multiset τ) +
        ∑ j, inHand ((p.setWorker i .ready).workers j)
      rw [add_zero] at hhand
      rw [h.once, ← hhand, ← Multiset.coe_add, add_assoc, Multiset.coe_singleton,
        add_comm ({x} : Multiset τ)]
    · exact left_setWorker h (by simp)
    · exact woken_setWorker h (by simp)
    · intro hw
      obtain ⟨k, -, hk⟩ := exists_setWorker (p := p) (by simp) hw
      have := h.awake ⟨k, hk⟩
      change p.tasks.length ≤ ∑ j, isReady ((p.setWorker i .ready).workers j) + p.owed
      omega
  | @spurious i hi =>
    have hready : _ + 0 = _ + 1 := sum_setWorker isReady hi .ready
    refine ⟨h.order, once_setWorker h (by rw [hi]; rfl) rfl, ?_, h.owed, ?_, ?_⟩
    · exact left_setWorker h (by simp)
    · exact woken_setWorker h (by simp)
    · intro _
      have := h.awake ⟨i, hi⟩
      change p.tasks.length ≤ ∑ j, isReady ((p.setWorker i .ready).workers j) + p.owed
      omega
  | destroy hstop =>
    refine ⟨h.order, h.once, fun i hi => ?_, fun _ => rfl, ?_, h.awake⟩
    · exact ⟨rfl, (h.left i hi).2⟩
    · intro _ hall
      cases hall
  | notifyAll hall =>
    have hhand : ∀ w : Worker τ, inHand w.wake = inHand w := by
      rintro (_ | _ | _ | _) <;> rfl
    have hwake : ∀ w : Worker τ, w.wake ≠ .waiting := by
      rintro (_ | _ | _ | _) <;> simp [Worker.wake]
    refine ⟨h.order, ?_, ?_, fun hc => Bool.noConfusion hc, fun _ _ i => hwake _, ?_⟩
    · simp only [hhand]
      exact h.once
    · intro i hi
      have hexit : ∀ w : Worker τ, w.wake = .exited → w = .exited := by
        rintro (_ | _ | _ | _) hw <;> first | rfl | cases hw
      exact h.left i (hexit _ hi)
    · rintro ⟨i, hi⟩
      exact absurd hi (hwake _)

lemma Inv.run {p p' : Pool n τ} (h : Inv p) {xs : List (Input n τ)} (hr : p.run xs = some p') :
    Inv p' := by
  induction xs generalizing p with
  | nil =>
    obtain rfl := Option.some.inj hr
    exact h
  | cons x xs ih =>
    obtain ⟨q, hq, hr⟩ := Option.bind_eq_some_iff.mp hr
    refine ih ?_ hr
    rcases steps_step hq with hs | ⟨rfl, -⟩
    · exact h.step hs
    · exact h

/-- **Every accepted task is run, once and in turn.** At every moment of every run the tasks
accepted have been started in the order of `enqueue`, but for those in the queue, and those
started have been finished, each once, but for those in a worker's hands; when the destructor has
joined the workers, all have been. -/
theorem threadPool_exactly_once (xs : List (Input n τ)) (p : Pool n τ)
    (h : ({} : Pool n τ).run xs = some p) :
    p.accepted = p.started ++ p.tasks ∧
      (p.started : Multiset τ) = p.finished + ∑ i, inHand (p.workers i) ∧
      (0 < n → (∀ i, p.workers i = .exited) → p.started = p.accepted ∧
        p.finished.Perm p.accepted) := by
  have hi := inv_init.run h
  refine ⟨hi.order, hi.once, fun hn hall => ?_⟩
  have htasks := (hi.left ⟨0, hn⟩ (hall _)).2
  have hstarted : p.started = p.accepted := by rw [hi.order, htasks, List.append_nil]
  refine ⟨hstarted, ?_⟩
  have honce := hi.once
  simp only [hall, inHand, Finset.sum_const_zero, add_zero] at honce
  rw [← hstarted]
  exact (Multiset.coe_eq_coe.mp honce).symm

/-- One worker runs a task before the pool is destroyed. -/
def oneTask : List (Input 1 ℕ) :=
  [.enqueue 7, .notifyOne 0, .look 0, .finish 0, .destroy, .notifyAll, .look 0]

theorem threadPool_exactly_once_one : ∃ p, ({} : Pool 1 ℕ).run oneTask = some p ∧
    p.finished = [7] ∧ p.finished.Perm p.accepted := by
  refine ⟨_, rfl, rfl, ?_⟩
  refine ((threadPool_exactly_once oneTask _ rfl).2.2 one_pos fun i => ?_).2
  rw [Subsingleton.elim i 0]
  rfl

/-! ### The destructor returns -/

/-- How many steps a pool that has stopped can make at most. -/
def measure (p : Pool n τ) : ℕ :=
  ∑ i, weight (p.workers i) + 3 * p.tasks.length + p.owed + if p.owedAll then 1 else 0

lemma measure_lt {p p' : Pool n τ} {x : Input n τ} (h : p.step x = some p') (hstop : p.stop = true)
    (hx : ∀ y, x ≠ .enqueue y) : measure p' < measure p ∧ p'.stop = true := by
  have hs : Steps p p' := by
    rcases steps_step h with hs | ⟨-, y, hy⟩
    · exact hs
    · exact absurd hy (hx y)
  cases hs with
  | enqueue x hs => exact absurd (hs.symm.trans hstop) (by simp)
  | @notify i hpos hi =>
    have hw : _ + 2 = _ + 1 := sum_setWorker weight hi .ready
    refine ⟨?_, hstop⟩
    change ∑ j, weight ((p.setWorker i .ready).workers j) + 3 * p.tasks.length + (p.owed - 1) +
      (if p.owedAll then 1 else 0) < measure p
    unfold measure
    omega
  | unheard hpos hnone =>
    refine ⟨?_, hstop⟩
    simp only [measure]
    omega
  | sleep _ _ hs => exact absurd (hs.symm.trans hstop) (by simp)
  | @exit i hi ht _ =>
    have hw : _ + 1 = _ + 0 := sum_setWorker weight hi .exited
    refine ⟨?_, hstop⟩
    change ∑ j, weight ((p.setWorker i .exited).workers j) + 3 * p.tasks.length + p.owed +
      (if p.owedAll then 1 else 0) < measure p
    unfold measure
    omega
  | @start i x rest hi ht =>
    have hw : _ + 1 = _ + 2 := sum_setWorker weight hi (.running x)
    refine ⟨?_, hstop⟩
    change ∑ j, weight ((p.setWorker i (.running x)).workers j) + 3 * rest.length + p.owed +
      (if p.owedAll then 1 else 0) < measure p
    unfold measure
    rw [ht, List.length_cons]
    omega
  | @finish i x hi =>
    have hw : _ + 2 = _ + 1 := sum_setWorker weight hi .ready
    refine ⟨?_, hstop⟩
    change ∑ j, weight ((p.setWorker i .ready).workers j) + 3 * p.tasks.length + p.owed +
      (if p.owedAll then 1 else 0) < measure p
    unfold measure
    omega
  | @spurious i hi =>
    have hw : _ + 2 = _ + 1 := sum_setWorker weight hi .ready
    refine ⟨?_, hstop⟩
    change ∑ j, weight ((p.setWorker i .ready).workers j) + 3 * p.tasks.length + p.owed +
      (if p.owedAll then 1 else 0) < measure p
    unfold measure
    omega
  | destroy hs => exact absurd (hs.symm.trans hstop) (by simp)
  | notifyAll hall =>
    have hw : ∑ i, weight ((p.workers i).wake) ≤ ∑ i, weight (p.workers i) := by
      apply Finset.sum_le_sum
      intro i _
      cases p.workers i <;> simp [Worker.wake, weight]
    refine ⟨?_, hstop⟩
    simp only [measure, hall, if_true, Bool.false_eq_true, if_false]
    omega

lemma length_le_measure {p p' : Pool n τ} {xs : List (Input n τ)} (hr : p.run xs = some p')
    (hstop : p.stop = true) (hxs : ∀ y, .enqueue y ∉ xs) : xs.length ≤ measure p := by
  induction xs generalizing p with
  | nil => exact Nat.zero_le _
  | cons x xs ih =>
    obtain ⟨q, hq, hr⟩ := Option.bind_eq_some_iff.mp hr
    obtain ⟨hlt, hstop'⟩ := measure_lt hq hstop fun y hy => hxs y (by simp [hy])
    have := ih hr hstop' fun y hy => hxs y (by simp [hy])
    rw [List.length_cons]
    omega

/-- A step that the pool makes by itself: it needs no new task and no spurious wake-up. -/
def Own : Input n τ → Prop
  | .notifyOne _ | .look _ | .finish _ | .notifyAll => True
  | _ => False

lemma exists_own {p : Pool n τ} {i : Fin n} (hw : p.workers i ≠ .waiting)
    (he : p.workers i ≠ .exited) : ∃ x, Own x ∧ (p.step x).isSome := by
  cases hi : p.workers i with
  | ready => exact ⟨.look i, trivial, by cases ht : p.tasks <;> simp [Pool.step, hi, ht]⟩
  | waiting => exact absurd hi hw
  | running x => exact ⟨.finish i, trivial, by simp [Pool.step, hi]⟩
  | exited => exact absurd hi he

/-- **The pool never sleeps on work, and its destructor returns.** Along every run: while a worker
sleeps, there is for every task a notification on its way or another worker about to look; while
there are tasks, the pool can go on by itself, without a new call or a spurious wake-up; once it has
been told to stop it can go on until all workers have left, and whatever the schedule, only a
bounded number of steps remains. -/
theorem threadPool_never_stuck (xs : List (Input n τ)) (p : Pool n τ) (hn : 0 < n)
    (h : ({} : Pool n τ).run xs = some p) :
    ((∃ i, p.workers i = .waiting) →
        p.tasks.length ≤ ∑ i, isReady (p.workers i) + p.owed) ∧
      (p.tasks ≠ [] → ∃ x, Own x ∧ (p.step x).isSome) ∧
      (p.stop = true →
        ((∃ i, p.workers i ≠ .exited) → ∃ x, Own x ∧ (p.step x).isSome) ∧
        ∀ ys p', (∀ y, .enqueue y ∉ ys) → p.run ys = some p' → ys.length ≤ measure p) := by
  have hi := inv_init.run h
  refine ⟨hi.awake, fun htasks => ?_,
    fun hstop => ⟨?_, fun ys p' hys hr => length_le_measure hr hstop hys⟩⟩
  · by_cases hall : ∀ i, p.workers i = .waiting
    · -- the tasks have been announced, but not yet heard
      have hawake := hi.awake ⟨⟨0, hn⟩, hall _⟩
      have hready : ∑ i, isReady (p.workers i) = 0 := by simp [hall, isReady]
      have hpos : p.owed ≠ 0 := by
        have := List.length_pos_iff.mpr htasks
        omega
      refine ⟨.notifyOne ⟨0, hn⟩, trivial, ?_⟩
      simp [Pool.step, hpos, hall, Worker.isWaiting]
    · push Not at hall
      obtain ⟨i, hw⟩ := hall
      exact exists_own hw fun he => htasks (hi.left i he).2
  · rintro ⟨i, he⟩
    by_cases hw : p.workers i = .waiting
    · have hall : p.owedAll = true := by
        by_contra hno
        exact hi.woken hstop (eq_false_of_ne_true hno) i hw
      exact ⟨.notifyAll, trivial, by simp [Pool.step, hall]⟩
    · exact exists_own hw he

theorem threadPool_never_stuck_one : ∃ p, ({} : Pool 1 ℕ).run [.look 0, .enqueue 7] = some p ∧
    p.tasks = [7] ∧ ∃ x, Own x ∧ (p.step x).isSome :=
  ⟨_, rfl, rfl, (threadPool_never_stuck [.look 0, .enqueue 7] _ one_pos rfl).2.1 (by decide)⟩

end NgxMapping.ThreadPool
