import NgxMapping.Lib.Trace

/-!
A bounded first-in-first-out channel between threads, in which every operation takes effect at
one moment between its call and its return.

The channel remembers, next to what it holds, every item it has accepted and every item it has
handed out, each with the thread that put or took it. An operation may also fail: `put` when the
channel is full or an item is still being taken out, `take` when it is empty or an item is still
being put in.
-/

namespace NgxMapping.Lib

variable {θ α : Type}

inductive Call (α : Type)
  | put (v : α)
  | take
  deriving DecidableEq

inductive Op (α : Type)
  | put (v : α) (ok : Bool)
  | take (v : Option α)
  deriving DecidableEq

inductive Event (θ α : Type)
  | call (t : θ) (c : Call α)
  | ret (t : θ) (o : Op α)
  deriving DecidableEq

/-- How far a thread has come with its operation. -/
inductive Phase (α : Type)
  | idle
  | asked (c : Call α)
  | answered (o : Op α)
  deriving DecidableEq

structure Channel (θ α : Type) where
  queue : List α := []
  phase : θ → Phase α := fun _ => .idle
  accepted : List (θ × α) := []
  taken : List (θ × α) := []

namespace Channel

variable [DecidableEq θ]

def setPhase (s : Channel θ α) (t : θ) (p : Phase α) : Channel θ α :=
  { s with phase := Function.update s.phase t p }

/-- The item of a thread enters the channel. -/
def commitPut (s : Channel θ α) (t : θ) (v : α) : Channel θ α where
  queue := s.queue ++ [v]
  phase := Function.update s.phase t (.answered (.put v true))
  accepted := s.accepted ++ [(t, v)]
  taken := s.taken

/-- The first item, which is `v`, leaves the channel. -/
def commitTake (s : Channel θ α) (t : θ) (v : α) : Channel θ α where
  queue := s.queue.tail
  phase := Function.update s.phase t (.answered (.take (some v)))
  accepted := s.accepted
  taken := s.taken ++ [(t, v)]

/-- An operation in progress has put an item into the channel. -/
def Putting (s : Channel θ α) : Prop := ∃ t v, s.phase t = .answered (.put v true)

/-- An operation in progress has taken an item out. -/
def Taking (s : Channel θ α) : Prop := ∃ t v, s.phase t = .answered (.take (some v))

inductive Step (cap : ℕ) : Channel θ α → Option (Event θ α) → Channel θ α → Prop
  | call {s : Channel θ α} {t : θ} (c : Call α) :
      s.phase t = .idle → Step cap s (some (.call t c)) (s.setPhase t (.asked c))
  | put {s : Channel θ α} {t : θ} {v : α} :
      s.phase t = .asked (.put v) → s.queue.length < cap → Step cap s none (s.commitPut t v)
  | full {s : Channel θ α} {t : θ} {v : α} :
      s.phase t = .asked (.put v) → cap ≤ s.queue.length ∨ s.Taking →
      Step cap s none (s.setPhase t (.answered (.put v false)))
  | take {s : Channel θ α} {t : θ} {v : α} :
      s.phase t = .asked .take → s.queue.head? = some v → Step cap s none (s.commitTake t v)
  | empty {s : Channel θ α} {t : θ} :
      s.phase t = .asked .take → s.queue = [] ∨ s.Putting →
      Step cap s none (s.setPhase t (.answered (.take none)))
  | ret {s : Channel θ α} {t : θ} {o : Op α} :
      s.phase t = .answered o → Step cap s (some (.ret t o)) (s.setPhase t .idle)

/-! ### What threads have put and taken -/

/-- The items whose `put` by the thread has returned, accepted. -/
def sent (t : θ) (es : List (Event θ α)) : List α :=
  es.filterMap fun
    | .ret u (.put v true) => if u = t then some v else none
    | _ => none

/-- The items that `take` has returned to the thread. -/
def received (t : θ) (es : List (Event θ α)) : List α :=
  es.filterMap fun
    | .ret u (.take (some v)) => if u = t then some v else none
    | _ => none

/-- The item of a `put` that is accepted and has not returned. -/
def sending : Phase α → List α
  | .answered (.put v true) => [v]
  | _ => []

/-- The item of a `take` that has not returned. -/
def receiving : Phase α → List α
  | .answered (.take (some v)) => [v]
  | _ => []

/-- The items of a thread among those of all threads. -/
def itemsOf (t : θ) (xs : List (θ × α)) : List α :=
  xs.filterMap fun x => if x.1 = t then some x.2 else none

@[simp] lemma itemsOf_append (t : θ) (xs ys : List (θ × α)) :
    itemsOf t (xs ++ ys) = itemsOf t xs ++ itemsOf t ys := List.filterMap_append

@[simp] lemma sent_append (t : θ) (es fs : List (Event θ α)) :
    sent t (es ++ fs) = sent t es ++ sent t fs := List.filterMap_append

@[simp] lemma received_append (t : θ) (es fs : List (Event θ α)) :
    received t (es ++ fs) = received t es ++ received t fs := List.filterMap_append

lemma mem_itemsOf {t : θ} {v : α} {xs : List (θ × α)} : v ∈ itemsOf t xs ↔ (t, v) ∈ xs := by
  constructor
  · intro h
    obtain ⟨x, hx, hv⟩ := List.mem_filterMap.mp h
    split at hv
    · rename_i ht
      obtain rfl := Option.some.inj hv
      rwa [← ht]
    · cases hv
  · intro h
    exact List.mem_filterMap.mpr ⟨(t, v), h, by simp⟩

lemma itemsOf_eq_map {w : θ} {xs : List (θ × α)} (h : ∀ t, t ≠ w → itemsOf t xs = []) :
    itemsOf w xs = xs.map Prod.snd := by
  induction xs with
  | nil => rfl
  | cons x xs ih =>
    have hx : x.1 = w := by
      by_contra hne
      have := h x.1 hne
      simp [itemsOf] at this
    have hxs : itemsOf w xs = xs.map Prod.snd := by
      apply ih
      intro t ht
      have := h t ht
      rw [← List.singleton_append, itemsOf_append, List.append_eq_nil_iff] at this
      exact this.2
    rw [← List.singleton_append, itemsOf_append, hxs]
    simp [itemsOf, hx]

/-- The books of a channel: what it has accepted is what it has handed out and what it holds;
what each thread has put and taken is what its operations have returned, up to the one in
progress. -/
structure Books (cap : ℕ) (es : List (Event θ α)) (s : Channel θ α) : Prop where
  conserved : s.accepted.map Prod.snd = s.taken.map Prod.snd ++ s.queue
  bounded : s.queue.length ≤ cap
  put : ∀ t, itemsOf t s.accepted = sent t es ++ sending (s.phase t)
  took : ∀ t, itemsOf t s.taken = received t es ++ receiving (s.phase t)

lemma books_init (cap : ℕ) : Books cap [] ({} : Channel θ α) where
  conserved := rfl
  bounded := Nat.zero_le _
  put _ := rfl
  took _ := rfl

section Books

variable {cap : ℕ} {es : List (Event θ α)} {s s' : Channel θ α} {o : Option (Event θ α)}

/-- A step of one thread that moves no item changes no books, if what it shows is what its phase
held. -/
lemma Books.setPhase {t : θ} {p : Phase α} (h : Books cap es s)
    (hother : ∀ u, u ≠ t → sent u o.toList = [] ∧ received u o.toList = [])
    (hput : sent t o.toList ++ sending p = sending (s.phase t))
    (htake : received t o.toList ++ receiving p = receiving (s.phase t)) :
    Books cap (es ++ o.toList) (s.setPhase t p) where
  conserved := h.conserved
  bounded := h.bounded
  put u := by
    change itemsOf u s.accepted = _ ++ sending (Function.update s.phase t p u)
    rw [h.put, sent_append, List.append_assoc]
    rcases eq_or_ne u t with rfl | hu
    · rw [Function.update_self, hput]
    · rw [Function.update_of_ne hu, (hother u hu).1, List.nil_append]
  took u := by
    change itemsOf u s.taken = _ ++ receiving (Function.update s.phase t p u)
    rw [h.took, received_append, List.append_assoc]
    rcases eq_or_ne u t with rfl | hu
    · rw [Function.update_self, htake]
    · rw [Function.update_of_ne hu, (hother u hu).2, List.nil_append]

lemma Books.commitPut {t : θ} {v : α} (h : Books cap es s) (ht : s.phase t = .asked (.put v))
    (hlen : s.queue.length < cap) : Books cap es (s.commitPut t v) where
  conserved := by simp [Channel.commitPut, h.conserved]
  bounded := by
    simp only [Channel.commitPut, List.length_append, List.length_singleton]
    omega
  put u := by
    have hu := h.put u
    by_cases htu : t = u
    · subst htu
      simp_all [Channel.commitPut, itemsOf, sending]
    · simp_all [Channel.commitPut, itemsOf, Function.update_of_ne (Ne.symm htu)]
  took u := by
    have hu := h.took u
    by_cases htu : t = u
    · subst htu
      simp_all [Channel.commitPut, receiving]
    · simp_all [Channel.commitPut, Function.update_of_ne (Ne.symm htu)]

lemma Books.commitTake {t : θ} {v : α} (h : Books cap es s) (ht : s.phase t = .asked .take)
    (hv : s.queue.head? = some v) : Books cap es (s.commitTake t v) where
  conserved := by
    have hq : s.queue = v :: s.queue.tail := (List.cons_head?_tail hv).symm
    rw [Channel.commitTake, h.conserved]
    nth_rewrite 1 [hq]
    simp
  bounded := by
    have := h.bounded
    simp only [Channel.commitTake, List.length_tail]
    omega
  put u := by
    have hu := h.put u
    by_cases htu : t = u
    · subst htu
      simp_all [Channel.commitTake, sending]
    · simp_all [Channel.commitTake, Function.update_of_ne (Ne.symm htu)]
  took u := by
    have hu := h.took u
    by_cases htu : t = u
    · subst htu
      simp_all [Channel.commitTake, itemsOf, receiving]
    · simp_all [Channel.commitTake, itemsOf, Function.update_of_ne (Ne.symm htu)]

lemma Books.step (h : Books cap es s) (hs : Step cap s o s') : Books cap (es ++ o.toList) s' := by
  cases hs with
  | call c ht => exact h.setPhase (fun _ _ => ⟨rfl, rfl⟩) (by rw [ht]; rfl) (by rw [ht]; rfl)
  | put ht hlen => simpa using h.commitPut ht hlen
  | full ht _ => exact h.setPhase (fun _ _ => ⟨rfl, rfl⟩) (by rw [ht]; rfl) (by rw [ht]; rfl)
  | take ht hv => simpa using h.commitTake ht hv
  | empty ht _ => exact h.setPhase (fun _ _ => ⟨rfl, rfl⟩) (by rw [ht]; rfl) (by rw [ht]; rfl)
  | @ret t op ht =>
    -- only here is an item shown: the one the phase held
    apply h.setPhase
    · intro u hu
      rcases op with ⟨v, _ | _⟩ | _ | v <;> simp [sent, received, hu.symm]
    · rcases op with ⟨v, _ | _⟩ | _ | v <;> simp [ht, sent, sending]
    · rcases op with ⟨v, _ | _⟩ | _ | v <;> simp [ht, received, receiving]

/-- **The books balance along every trace.** -/
theorem books_of_trace (h : Trace (Step cap) ({} : Channel θ α) es s) : Books cap es s :=
  h.invariant (books_init cap) fun _ _ _ _ => Books.step

lemma accepted_prefix_of_trace (h : Trace (Step cap) s es s') : s.accepted <+: s'.accepted := by
  induction h with
  | nil => exact List.prefix_rfl
  | snoc _ hs ih =>
    apply ih.trans
    cases hs with
    | put => exact List.prefix_append _ _
    | _ => exact List.prefix_rfl

end Books

end Channel

end NgxMapping.Lib
