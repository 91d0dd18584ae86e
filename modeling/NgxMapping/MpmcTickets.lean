import NgxMapping.MpmcQueue

/-!
`mpmc_bounded_queue` is a first-in-first-out channel.

The channel that a queue stands for has accepted as many items as there are tickets for putting,
and handed out as many as there are for taking. The cell of a ticket is free until the ticket is
drawn, then it is written, ready, read, and free for the ticket that comes a round later. What a
thread knows about the cells it has looked at is stated for every place in the code.
-/

namespace NgxMapping.MpmcQueue

open Lib

variable {θ α : Type}

section Simulation

/-- The ticket whose cell the thread writes. -/
def writes : Pc α → Option ℕ
  | .storeData _ pos | .publish _ pos => some pos
  | _ => none

/-- The ticket whose cell the thread reads. -/
def reads : Pc α → Option ℕ
  | .moveData pos | .release pos _ => some pos
  | _ => none

/-- What a thread knows at its place, and the phase of its operation. -/
def Knows (N : Size) (q : Queue θ α) (items : List α) (ph : Phase α) : Pc α → Prop
  | .idle => ph = .idle
  | .loadEnqueuePos v => ph = .asked (.put v)
  | .loadSequence v pos => ph = .asked (.put v) ∧ pos ≤ q.enqueuePos
  | .casEnqueuePos v pos => ph = .asked (.put v) ∧ pos ≤ q.enqueuePos ∧
      (pos = q.enqueuePos → (q.cell N pos).sequence = pos)
  | .storeData v pos => ph = .answered (.put v true) ∧ q.dequeuePos ≤ pos ∧ pos < q.enqueuePos ∧
      (q.cell N pos).sequence = pos ∧ items[pos]? = some v
  | .publish v pos => ph = .answered (.put v true) ∧ q.dequeuePos ≤ pos ∧ pos < q.enqueuePos ∧
      (q.cell N pos).sequence = pos ∧ items[pos]? = some v ∧ (q.cell N pos).data = v
  | .loadDequeuePos => ph = .asked .take
  | .loadSequence' pos => ph = .asked .take ∧ pos ≤ q.dequeuePos
  | .casDequeuePos pos => ph = .asked .take ∧ pos ≤ q.dequeuePos ∧
      (pos = q.dequeuePos → pos < q.enqueuePos ∧ (q.cell N pos).sequence = pos + 1)
  | .moveData pos => ∃ v, ph = .answered (.take (some v)) ∧ pos < q.dequeuePos ∧
      q.enqueuePos ≤ pos + N.val ∧ (q.cell N pos).sequence = pos + 1 ∧ (q.cell N pos).data = v
  | .release pos v => ph = .answered (.take (some v)) ∧ pos < q.dequeuePos ∧
      q.enqueuePos ≤ pos + N.val ∧ (q.cell N pos).sequence = pos + 1
  | .done o => ph = .answered o

/-- The cell that the ticket `p` will find, for the tickets of the round to come. -/
inductive Slot (N : Size) (q : Queue θ α) (items : List α) (p : ℕ) : Prop
  | free : (q.cell N p).sequence = p → p < q.dequeuePos + N.val → Slot N q items p
  | writing (k : ℕ) (t : θ) : p = k + N.val → (q.cell N p).sequence = k →
      writes (q.pc t) = some k → Slot N q items p
  | ready (k : ℕ) : p = k + N.val → (q.cell N p).sequence = k + 1 → q.dequeuePos ≤ k →
      items[k]? = some (q.cell N p).data → Slot N q items p
  | reading (k : ℕ) (t : θ) : p = k + N.val → (q.cell N p).sequence = k + 1 →
      reads (q.pc t) = some k → Slot N q items p

/-- A queue after at most `n` steps and the channel it stands for. -/
structure Sim (N : Size) (n : ℕ) (q : Queue θ α) (a : Channel θ α) : Prop where
  steps : q.enqueuePos ≤ n
  ordered : q.dequeuePos ≤ q.enqueuePos
  room : q.enqueuePos ≤ q.dequeuePos + N.val
  length : a.accepted.length = q.enqueuePos
  queue : a.queue = (a.accepted.map Prod.snd).drop q.dequeuePos
  slots : ∀ p, q.enqueuePos ≤ p → p < q.enqueuePos + N.val →
    Slot N q (a.accepted.map Prod.snd) p
  threads : ∀ t, Knows N q (a.accepted.map Prod.snd) (a.phase t) (q.pc t)
  writer : ∀ t u pos, writes (q.pc t) = some pos → writes (q.pc u) = some pos → t = u
  reader : ∀ t u pos, reads (q.pc t) = some pos → reads (q.pc u) = some pos → t = u

lemma Knows.phase {N : Size} {q : Queue θ α} {items : List α} {ph : Phase α} {p : Pc α}
    (h : Knows N q items ph p) :
    (∀ v, v ∈ Channel.sending ph → p.call = some (.put v)) ∧
      ((Channel.sending ph).length ≤ 1 ∧ (Channel.receiving ph).length ≤ 1) ∧
      (Channel.receiving ph ≠ [] → p.call = some .take) := by
  rcases p with _ | v | ⟨v, p⟩ | ⟨v, p⟩ | ⟨v, p⟩ | ⟨v, p⟩ | _ | p | p | p | ⟨p, v⟩ | o
  case done =>
    rw [show ph = .answered o from h]
    rcases o with ⟨v, _ | _⟩ | _ | v <;> simp [Channel.sending, Channel.receiving, Pc.call]
  case moveData =>
    obtain ⟨v, hph, -⟩ := h
    simp [hph, Channel.sending, Channel.receiving, Pc.call]
  case idle => simp [show ph = .idle from h, Channel.sending, Channel.receiving]
  case loadEnqueuePos =>
    simp [show ph = .asked (.put v) from h, Channel.sending, Channel.receiving]
  case loadDequeuePos =>
    simp [show ph = .asked .take from h, Channel.sending, Channel.receiving]
  all_goals simp [h.1, Channel.sending, Channel.receiving, Pc.call]

/-! ### Rounds -/

lemma Size.succ_mod_ne (N : Size) (p : ℕ) : (p + 1) % N.val ≠ p % N.val := by
  intro h
  have h2 := N.two_le
  have hdvd : N.val ∣ 1 := by
    have := (Nat.modEq_iff_dvd' (Nat.le_succ p)).mp h.symm
    simpa using this
  have := Nat.le_of_dvd one_pos hdvd
  omega

lemma Size.add_le_of_mod_eq (N : Size) {p p' : ℕ} (h : p % N.val = p' % N.val) (hlt : p < p') :
    p + N.val ≤ p' := by
  have := Nat.le_of_dvd (by omega) ((Nat.modEq_iff_dvd' hlt.le).mp h)
  omega

lemma Size.exists_ticket (N : Size) (e p : ℕ) :
    ∃ p', e ≤ p' ∧ p' < e + N.val ∧ p' % N.val = p % N.val := by
  have h2 := N.two_le
  have hlt : e % N.val < N.val := Nat.mod_lt _ (by omega)
  refine ⟨e + (p + (N.val - e % N.val)) % N.val, by omega,
    by have := Nat.mod_lt (p + (N.val - e % N.val)) (show 0 < N.val by omega); omega, ?_⟩
  rw [Nat.add_mod_mod]
  have he : e + (p + (N.val - e % N.val)) = p + N.val * (e / N.val + 1) := by
    have := Nat.div_add_mod e N.val
    rw [Nat.mul_add, Nat.mul_one]
    omega
  rw [he, Nat.add_mul_mod_self_left]

lemma wrap_of_lt {n : ℕ} (h : n < 2 ^ 64) : wrap n = n := Nat.mod_eq_of_lt h

lemma intptr_of_lt {n : ℕ} (h : n < 2 ^ 63) : intptr n = n := by
  apply Int.bmod_eq_of_le <;> omega

lemma dif_of_lt {m n : ℕ} (hm : m < 2 ^ 63) (hn : n < 2 ^ 63) : dif m n = (m : ℤ) - n := by
  rw [dif, intptr_of_lt hm, intptr_of_lt hn]

/-! ### One step -/

variable {N : Size} {n : ℕ} {q : Queue θ α} {a : Channel θ α} {t : θ}

lemma Sim.of_writes (h : Sim N n q a) {pos : ℕ} (ht : writes (q.pc t) = some pos) :
    q.dequeuePos ≤ pos ∧ pos < q.enqueuePos ∧ (q.cell N pos).sequence = pos ∧
      ∃ v, a.phase t = .answered (.put v true) := by
  have hk := h.threads t
  rcases hp : q.pc t with _ | _ | _ | _ | ⟨v, p⟩ | ⟨v, p⟩ | _ | _ | _ | _ | _ | _ <;>
    simp only [hp, writes, reduceCtorEq, Option.some.injEq] at ht <;> subst ht <;>
    rw [hp] at hk
  · exact ⟨hk.2.1, hk.2.2.1, hk.2.2.2.1, v, hk.1⟩
  · exact ⟨hk.2.1, hk.2.2.1, hk.2.2.2.1, v, hk.1⟩

lemma Sim.of_reads (h : Sim N n q a) {pos : ℕ} (ht : reads (q.pc t) = some pos) :
    pos < q.dequeuePos ∧ q.enqueuePos ≤ pos + N.val ∧ (q.cell N pos).sequence = pos + 1 ∧
      ∃ v, a.phase t = .answered (.take (some v)) := by
  have hk := h.threads t
  rcases hp : q.pc t with _ | _ | _ | _ | _ | _ | _ | _ | _ | p | ⟨p, v⟩ | _ <;>
    simp only [hp, reads, reduceCtorEq, Option.some.injEq] at ht <;> subst ht <;>
    rw [hp] at hk
  · obtain ⟨v, hph, hd, he, hs, -⟩ := hk
    exact ⟨hd, he, hs, v, hph⟩
  · exact ⟨hk.2.1, hk.2.2.1, hk.2.2.2, v, hk.1⟩

variable [DecidableEq θ]

lemma owner_of_setPc {f : Pc α → Option ℕ} {p : Pc α} (hp : f p = none ∨ f p = f (q.pc t)) {u : θ}
    {pos : ℕ} (hu : f ((q.setPc t p).pc u) = some pos) : f (q.pc u) = some pos := by
  rcases eq_or_ne u t with rfl | hne
  · rw [q.setPc_pc] at hu
    rcases hp with hp | hp
    · rw [hp] at hu
      cases hu
    · rw [← hp, hu]
  · rwa [q.setPc_pc_of_ne _ hne] at hu

lemma Sim.setPc (h : Sim N n q a) {p : Pc α} {ph : Phase α}
    (hw : writes (q.pc t) = none) (hr : reads (q.pc t) = none)
    (hw' : writes p = none) (hr' : reads p = none)
    (hk : Knows N q (a.accepted.map Prod.snd) ph p) :
    Sim N (n + 1) (q.setPc t p) (a.setPhase t ph) where
  steps := h.steps.trans n.le_succ
  ordered := h.ordered
  room := h.room
  length := h.length
  queue := h.queue
  slots k hk₁ hk₂ := by
    have hne : ∀ {u : θ} {j : ℕ}, writes (q.pc u) = some j ∨ reads (q.pc u) = some j →
        (q.setPc t p).pc u = q.pc u := by
      rintro u j hj
      apply q.setPc_pc_of_ne
      rintro rfl
      simp [hw, hr] at hj
    rcases h.slots k hk₁ hk₂ with ⟨hs, hd⟩ | ⟨j, u, hj, hs, hu⟩ | ⟨j, hj, hs, hd, hv⟩ |
      ⟨j, u, hj, hs, hu⟩
    · exact .free hs hd
    · exact .writing j u hj hs (by rw [hne (.inl hu), hu])
    · exact .ready j hj hs hd hv
    · exact .reading j u hj hs (by rw [hne (.inr hu), hu])
  threads u := by
    rcases eq_or_ne u t with rfl | hu
    · rw [q.setPc_pc]
      change Knows N q _ (Function.update a.phase u ph u) p
      rw [Function.update_self]
      exact hk
    · rw [q.setPc_pc_of_ne _ hu]
      change Knows N q _ (Function.update a.phase t ph u) (q.pc u)
      rw [Function.update_of_ne hu]
      exact h.threads u
  writer u u' pos hu hu' :=
    h.writer u u' pos (owner_of_setPc (.inl hw') hu) (owner_of_setPc (.inl hw') hu')
  reader u u' pos hu hu' :=
    h.reader u u' pos (owner_of_setPc (.inl hr') hu) (owner_of_setPc (.inl hr') hu')

omit [DecidableEq θ] in
lemma Sim.knows_setCell (h : Sim N n q a) {pos : ℕ} {c : Cell α} {u : θ} (hu : u ≠ t)
    (ht : writes (q.pc t) = some pos ∨ reads (q.pc t) = some pos) :
    Knows N (q.setCell N pos c) (a.accepted.map Prod.snd) (a.phase u) (q.pc u) := by
  have hk := h.threads u
  -- the owner's ticket is the number in the cell, or the one before it
  have hseq : (writes (q.pc t) = some pos ∧ (q.cell N pos).sequence = pos ∧ pos < q.enqueuePos) ∨
      (reads (q.pc t) = some pos ∧ (q.cell N pos).sequence = pos + 1 ∧ pos < q.dequeuePos) := by
    rcases ht with ht | ht
    · obtain ⟨-, he, hs, -⟩ := h.of_writes ht
      exact .inl ⟨ht, hs, he⟩
    · obtain ⟨hd, -, hs, -⟩ := h.of_reads ht
      exact .inr ⟨ht, hs, hd⟩
  have hord := h.ordered
  have hfar : ∀ p, (writes (q.pc u) = some p ∧ (q.cell N p).sequence = p) ∨
      (reads (q.pc u) = some p ∧ (q.cell N p).sequence = p + 1) ∨
      (p = q.enqueuePos ∧ (q.cell N p).sequence = p) ∨
      (p = q.dequeuePos ∧ (q.cell N p).sequence = p + 1) →
      (q.setCell N pos c).cell N p = q.cell N p := by
    intro p hp
    rw [q.cell_setCell, if_neg]
    intro hmod
    have hcell := q.cell_congr N hmod
    have hne := N.succ_mod_ne
    rcases hseq with ⟨ht, hs, hlt⟩ | ⟨ht, hs, hlt⟩ <;>
      rcases hp with ⟨hw, hp⟩ | ⟨hr, hp⟩ | ⟨he, hp⟩ | ⟨hd, hp⟩ <;> rw [hcell, hs] at hp
    · exact hu (h.writer u t pos (hp ▸ hw) ht)
    · exact hne p (by rw [← hp, hmod])
    · omega
    · exact hne p (by rw [← hp, hmod])
    · exact hne pos (by rw [hp, hmod])
    · exact hu (h.reader u t pos (by rw [hr, Nat.succ.inj hp]) ht)
    · exact hne pos (by rw [hp, hmod])
    · omega
  revert hk
  rcases hp : q.pc u with _ | _ | _ | ⟨v, p⟩ | ⟨v, p⟩ | ⟨v, p⟩ | _ | _ | p | p | ⟨p, v⟩ | _ <;>
    rw [hp] at hfar <;> intro hk
  · exact hk
  · exact hk
  · exact hk
  · refine ⟨hk.1, hk.2.1, fun he => ?_⟩
    rw [hfar p (.inr (.inr (.inl ⟨he, hk.2.2 he⟩)))]
    exact hk.2.2 he
  · have hc := hfar p (.inl ⟨rfl, hk.2.2.2.1⟩)
    exact ⟨hk.1, hk.2.1, hk.2.2.1, by rw [hc]; exact hk.2.2.2.1, hk.2.2.2.2⟩
  · have hc := hfar p (.inl ⟨rfl, hk.2.2.2.1⟩)
    exact ⟨hk.1, hk.2.1, hk.2.2.1, by rw [hc]; exact hk.2.2.2.1, hk.2.2.2.2.1,
      by rw [hc]; exact hk.2.2.2.2.2⟩
  · exact hk
  · exact hk
  · refine ⟨hk.1, hk.2.1, fun hd => ⟨(hk.2.2 hd).1, ?_⟩⟩
    rw [hfar p (.inr (.inr (.inr ⟨hd, (hk.2.2 hd).2⟩)))]
    exact (hk.2.2 hd).2
  · obtain ⟨v, hph, hd, he, hs, hv⟩ := hk
    have hc := hfar p (.inr (.inl ⟨rfl, hs⟩))
    exact ⟨v, hph, hd, he, by rw [hc]; exact hs, by rw [hc]; exact hv⟩
  · have hc := hfar p (.inr (.inl ⟨rfl, hk.2.2.2⟩))
    exact ⟨hk.1, hk.2.1, hk.2.2.1, by rw [hc]; exact hk.2.2.2⟩
  · exact hk

lemma Sim.setCell (h : Sim N n q a) {pos : ℕ} {c : Cell α} {p : Pc α}
    (ht : writes (q.pc t) = some pos ∨ reads (q.pc t) = some pos)
    (hw : writes p = none ∨ writes p = writes (q.pc t))
    (hr : reads p = none ∨ reads p = reads (q.pc t))
    (hk : Knows N (q.setCell N pos c) (a.accepted.map Prod.snd) (a.phase t) p)
    (hslot : Slot N ((q.setCell N pos c).setPc t p) (a.accepted.map Prod.snd) (pos + N.val)) :
    Sim N (n + 1) ((q.setCell N pos c).setPc t p) a where
  steps := h.steps.trans n.le_succ
  ordered := h.ordered
  room := h.room
  length := h.length
  queue := h.queue
  slots k hk₁ hk₂ := by
    change q.enqueuePos ≤ k at hk₁
    change k < q.enqueuePos + N.val at hk₂
    rcases eq_or_ne k (pos + N.val) with rfl | hne
    · exact hslot
    have hwin : pos < q.enqueuePos ∧ q.enqueuePos ≤ pos + N.val := by
      have hroom := h.room
      have hord := h.ordered
      rcases ht with ht | ht
      · have := h.of_writes ht
        omega
      · have := h.of_reads ht
        omega
    have hfar : ¬ k % N.val = pos % N.val := by
      intro hmod
      have := N.add_le_of_mod_eq hmod.symm (by omega)
      have hmod' : (pos + N.val) % N.val = k % N.val := by rw [Nat.add_mod_right, hmod]
      have := N.add_le_of_mod_eq hmod' (by omega)
      omega
    have hcell : ((q.setCell N pos c).setPc t p).cell N k = q.cell N k := by
      change (q.setCell N pos c).cell N k = _
      rw [q.cell_setCell, if_neg hfar]
    -- no other slot belongs to `t`
    have hpc : ∀ {u : θ} {j : ℕ}, k = j + N.val →
        writes (q.pc u) = some j ∨ reads (q.pc u) = some j →
        ((q.setCell N pos c).setPc t p).pc u = q.pc u := by
      intro u j hj hu
      apply Queue.setPc_pc_of_ne
      rintro rfl
      have hjp : j ≠ pos := by omega
      rcases hp : q.pc u with _ | _ | _ | _ | _ | _ | _ | _ | _ | _ | _ | _ <;>
        simp_all [writes, reads]
    rcases h.slots k hk₁ hk₂ with ⟨hs, hd⟩ | ⟨j, u, hj, hs, hu⟩ | ⟨j, hj, hs, hd, hv⟩ |
      ⟨j, u, hj, hs, hu⟩
    · exact .free (by rw [hcell, hs]) hd
    · exact .writing j u hj (by rw [hcell, hs]) (by rw [hpc hj (.inl hu), hu])
    · exact .ready j hj (by rw [hcell, hs]) hd (by rw [hcell, hv])
    · exact .reading j u hj (by rw [hcell, hs]) (by rw [hpc hj (.inr hu), hu])
  threads u := by
    rcases eq_or_ne u t with rfl | hu
    · rw [Queue.setPc_pc]
      exact hk
    · rw [Queue.setPc_pc_of_ne _ _ hu]
      exact h.knows_setCell hu ht
  writer u u' k hu hu' :=
    h.writer u u' k (owner_of_setPc (q := q.setCell N pos c) hw hu)
      (owner_of_setPc (q := q.setCell N pos c) hw hu')
  reader u u' k hu hu' :=
    h.reader u u' k (owner_of_setPc (q := q.setCell N pos c) hr hu)
      (owner_of_setPc (q := q.setCell N pos c) hr hu')

omit [DecidableEq θ] in
/-- What a thread knows stays true when a ticket for putting is drawn, whose cell is free. -/
lemma Knows.drawPut {items : List α} {ph : Phase α} {p : Pc α} (h : Knows N q items ph p)
    (hfree : (q.cell N q.enqueuePos).sequence = q.enqueuePos) (w : α) :
    Knows N (q.setEnqueuePos (q.enqueuePos + 1)) (items ++ [w]) ph p := by
  have hitem : ∀ {k : ℕ} {v : α}, items[k]? = some v → (items ++ [w])[k]? = some v := by
    intro k v hv
    obtain ⟨hlt, -⟩ := List.getElem?_eq_some_iff.mp hv
    rw [List.getElem?_append_left hlt, hv]
  -- the cell of a ticket being read is not the one of the ticket drawn
  have hread : ∀ {k : ℕ}, q.enqueuePos ≤ k + N.val → (q.cell N k).sequence = k + 1 →
      q.enqueuePos + 1 ≤ k + N.val := by
    intro k hle hs
    rcases Nat.lt_or_eq_of_le hle with hlt | heq
    · exact hlt
    · have hmod : q.enqueuePos % N.val = k % N.val := by rw [heq, Nat.add_mod_right]
      rw [q.cell_congr N hmod, hs] at hfree
      have h2 := N.two_le
      omega
  rcases p with _ | v | ⟨v, p⟩ | ⟨v, p⟩ | ⟨v, p⟩ | ⟨v, p⟩ | _ | p | p | p | ⟨p, v⟩ | o
  · exact h
  · exact h
  · exact ⟨h.1, Nat.le_succ_of_le h.2⟩
  · refine ⟨h.1, Nat.le_succ_of_le h.2.1, fun he => ?_⟩
    have := h.2.1
    change p = q.enqueuePos + 1 at he
    omega
  · exact ⟨h.1, h.2.1, Nat.lt_succ_of_lt h.2.2.1, h.2.2.2.1, hitem h.2.2.2.2⟩
  · exact ⟨h.1, h.2.1, Nat.lt_succ_of_lt h.2.2.1, h.2.2.2.1, hitem h.2.2.2.2.1, h.2.2.2.2.2⟩
  · exact h
  · exact h
  · exact ⟨h.1, h.2.1, fun hd => ⟨Nat.lt_succ_of_lt (h.2.2 hd).1, (h.2.2 hd).2⟩⟩
  · obtain ⟨v, hph, hd, he, hs, hv⟩ := h
    exact ⟨v, hph, hd, hread he hs, hs, hv⟩
  · exact ⟨h.1, h.2.1, hread h.2.2.1 h.2.2.2, h.2.2.2⟩
  · exact h

omit [DecidableEq θ] in
/-- What a thread knows stays true when a ticket for taking is drawn, whose cell is ready. -/
lemma Knows.drawTake {items : List α} {ph : Phase α} {p : Pc α} (h : Knows N q items ph p)
    (hready : (q.cell N q.dequeuePos).sequence = q.dequeuePos + 1) :
    Knows N (q.setDequeuePos (q.dequeuePos + 1)) items ph p := by
  have hwrite : ∀ {k : ℕ}, q.dequeuePos ≤ k → (q.cell N k).sequence = k →
      q.dequeuePos + 1 ≤ k := by
    intro k hle hs
    rcases Nat.lt_or_eq_of_le hle with hlt | heq
    · exact hlt
    · rw [heq] at hready
      omega
  rcases p with _ | v | ⟨v, p⟩ | ⟨v, p⟩ | ⟨v, p⟩ | ⟨v, p⟩ | _ | p | p | p | ⟨p, v⟩ | o
  · exact h
  · exact h
  · exact h
  · exact h
  · exact ⟨h.1, hwrite h.2.1 h.2.2.2.1, h.2.2⟩
  · exact ⟨h.1, hwrite h.2.1 h.2.2.2.1, h.2.2⟩
  · exact h
  · exact ⟨h.1, Nat.le_succ_of_le h.2⟩
  · refine ⟨h.1, Nat.le_succ_of_le h.2.1, fun hd => ?_⟩
    have := h.2.1
    change p = q.dequeuePos + 1 at hd
    omega
  · obtain ⟨v, hph, hd, he⟩ := h
    exact ⟨v, hph, Nat.lt_succ_of_lt hd, he⟩
  · exact ⟨h.1, Nat.lt_succ_of_lt h.2.1, h.2.2⟩
  · exact h

lemma pc_of_owner {p : Pc α} (hw : writes (q.pc t) = none) (hr : reads (q.pc t) = none)
    {u : θ} {j : ℕ} (hu : writes (q.pc u) = some j ∨ reads (q.pc u) = some j) :
    (q.setPc t p).pc u = q.pc u := by
  apply q.setPc_pc_of_ne
  rintro rfl
  simp [hw, hr] at hu

lemma Sim.drawPut (h : Sim N n q a) {v : α} (ht : q.pc t = .casEnqueuePos v q.enqueuePos) :
    Sim N (n + 1) ((q.setEnqueuePos (q.enqueuePos + 1)).setPc t
      (.storeData v q.enqueuePos)) (a.commitPut t v) := by
  have hk := h.threads t
  rw [ht] at hk
  have hfree := hk.2.2 rfl
  have hw : writes (q.pc t) = none := by rw [ht]; rfl
  have hr : reads (q.pc t) = none := by rw [ht]; rfl
  have hroom : q.enqueuePos < q.dequeuePos + N.val := by
    have h2 := N.two_le
    rcases h.slots q.enqueuePos le_rfl (by omega) with ⟨-, hd⟩ | ⟨j, u, hj, hs, -⟩ |
      ⟨j, hj, hs, -⟩ | ⟨j, u, hj, hs, -⟩
    all_goals omega
  have hitems : (a.commitPut t v).accepted.map Prod.snd = a.accepted.map Prod.snd ++ [v] := by
    simp [Channel.commitPut]
  have hmapLen : (a.accepted.map Prod.snd).length = q.enqueuePos := by
    rw [List.length_map, h.length]
  refine ⟨?_, ?_, ?_, ?_, ?_, ?_, ?_, ?_, ?_⟩
  · exact Nat.succ_le_succ h.steps
  · exact h.ordered.trans (Nat.le_succ _)
  · exact hroom
  · simp [Channel.commitPut, h.length, Queue.setPc, Queue.setEnqueuePos]
  · rw [hitems]
    change a.queue ++ [v] = (a.accepted.map Prod.snd ++ [v]).drop q.dequeuePos
    rw [List.drop_append_of_le_length (by rw [hmapLen]; exact h.ordered), h.queue]
  · intro k hk₁ hk₂
    change q.enqueuePos + 1 ≤ k at hk₁
    change k < q.enqueuePos + 1 + N.val at hk₂
    rw [hitems]
    rcases Nat.lt_or_eq_of_le (Nat.le_of_lt_succ (by omega : k < q.enqueuePos + N.val + 1))
      with hlt | rfl
    · rcases h.slots k (by omega) hlt with ⟨hs, hd⟩ | ⟨j, u, hj, hs, hu⟩ | ⟨j, hj, hs, hd, hv⟩ |
        ⟨j, u, hj, hs, hu⟩
      · exact .free hs hd
      · exact .writing j u hj hs (by rw [← hu, ← pc_of_owner hw hr (.inl hu)]; rfl)
      · refine .ready j hj hs hd ?_
        rw [List.getElem?_append_left (by rw [hmapLen]; omega)]
        exact hv
      · exact .reading j u hj hs (by rw [← hu, ← pc_of_owner hw hr (.inr hu)]; rfl)
    · refine .writing q.enqueuePos t rfl ?_ (by rw [Queue.setPc_pc]; rfl)
      exact (congrArg Cell.sequence (q.cell_congr N (Nat.add_mod_right _ _))).trans hfree
  · intro u
    rw [hitems]
    rcases eq_or_ne u t with rfl | hu
    · rw [Queue.setPc_pc]
      refine ⟨Function.update_self .., h.ordered, Nat.lt_succ_self _, hfree, ?_⟩
      simp [← hmapLen]
    · rw [Queue.setPc_pc_of_ne _ _ hu]
      change Knows N (q.setEnqueuePos (q.enqueuePos + 1)) _ (Function.update a.phase t _ u) _
      rw [Function.update_of_ne hu]
      exact (h.threads u).drawPut hfree v
  · -- a ticket just drawn is nobody else's
    have hnew : ∀ {u : θ} {k : ℕ}, writes (((q.setEnqueuePos (q.enqueuePos + 1)).setPc t
        (.storeData v q.enqueuePos)).pc u) = some k →
        (u = t ∧ k = q.enqueuePos) ∨ (writes (q.pc u) = some k ∧ k < q.enqueuePos) := by
      intro u k hu
      rcases eq_or_ne u t with rfl | hne
      · rw [Queue.setPc_pc] at hu
        exact .inl ⟨rfl, (Option.some.inj hu).symm⟩
      · rw [Queue.setPc_pc_of_ne _ _ hne] at hu
        exact .inr ⟨hu, (h.of_writes hu).2.1⟩
    intro u u' k hu hu'
    rcases hnew hu with ⟨rfl, hk⟩ | ⟨hu, hk⟩ <;> rcases hnew hu' with ⟨rfl, hk'⟩ | ⟨hu', hk'⟩
    · rfl
    · omega
    · omega
    · exact h.writer u u' k hu hu'
  · intro u u' k hu hu'
    exact h.reader u u' k (owner_of_setPc (q := q.setEnqueuePos _) (.inl rfl) hu)
      (owner_of_setPc (q := q.setEnqueuePos _) (.inl rfl) hu')

lemma Sim.drawTake (h : Sim N n q a) (ht : q.pc t = .casDequeuePos q.dequeuePos) :
    ∃ v, a.queue.head? = some v ∧
      Sim N (n + 1) ((q.setDequeuePos (q.dequeuePos + 1)).setPc t (.moveData q.dequeuePos))
        (a.commitTake t v) := by
  have hk := h.threads t
  rw [ht] at hk
  obtain ⟨hlt, hready⟩ := hk.2.2 rfl
  have hw : writes (q.pc t) = none := by rw [ht]; rfl
  have hr : reads (q.pc t) = none := by rw [ht]; rfl
  have hroom := h.room
  have h2 := N.two_le
  have hcell : q.cell N (q.dequeuePos + N.val) = q.cell N q.dequeuePos :=
    q.cell_congr N (Nat.add_mod_right _ _)
  -- of the states of a cell, only `ready` fits its number
  obtain ⟨v, hv, hdata⟩ : ∃ v, (a.accepted.map Prod.snd)[q.dequeuePos]? = some v ∧
      (q.cell N q.dequeuePos).data = v := by
    rcases h.slots (q.dequeuePos + N.val) (by omega) (by omega) with ⟨hs, hd⟩ |
      ⟨j, u, hj, hs, -⟩ | ⟨j, hj, hs, -, hv⟩ | ⟨j, u, hj, hs, hu⟩
    · omega
    · rw [hcell, hready] at hs
      omega
    · obtain rfl : q.dequeuePos = j := by omega
      rw [hcell] at hv
      exact ⟨_, hv, rfl⟩
    · have := (h.of_reads hu).1
      omega
  refine ⟨v, ?_, ?_, ?_, ?_, ?_, ?_, ?_, ?_, ?_, ?_⟩
  · rw [h.queue, List.head?_drop, hv]
  · exact h.steps.trans n.le_succ
  · exact hlt
  · exact hroom.trans (by simp only [Queue.setPc, Queue.setDequeuePos]; omega)
  · exact h.length
  · change a.queue.tail = (a.accepted.map Prod.snd).drop (q.dequeuePos + 1)
    rw [h.queue, List.tail_drop]
  · intro k hk₁ hk₂
    rcases h.slots k hk₁ hk₂ with ⟨hs, hd⟩ | ⟨j, u, hj, hs, hu⟩ | ⟨j, hj, hs, hd, hv⟩ |
      ⟨j, u, hj, hs, hu⟩
    · exact .free hs (by simp only [Queue.setPc, Queue.setDequeuePos]; omega)
    · exact .writing j u hj hs (by rw [← hu, ← pc_of_owner hw hr (.inl hu)]; rfl)
    · rcases Nat.lt_or_eq_of_le hd with hlt' | rfl
      · exact .ready j hj hs hlt' hv
      · exact .reading q.dequeuePos t hj hs (by rw [Queue.setPc_pc]; rfl)
    · exact .reading j u hj hs (by rw [← hu, ← pc_of_owner hw hr (.inr hu)]; rfl)
  · intro u
    rcases eq_or_ne u t with rfl | hu
    · rw [Queue.setPc_pc]
      exact ⟨v, Function.update_self .., Nat.lt_succ_self _, hroom, hready, hdata⟩
    · rw [Queue.setPc_pc_of_ne _ _ hu]
      change Knows N (q.setDequeuePos (q.dequeuePos + 1)) _ (Function.update a.phase t _ u) _
      rw [Function.update_of_ne hu]
      exact (h.threads u).drawTake hready
  · intro u u' k hu hu'
    exact h.writer u u' k (owner_of_setPc (q := q.setDequeuePos _) (.inl rfl) hu)
      (owner_of_setPc (q := q.setDequeuePos _) (.inl rfl) hu')
  · have hnew : ∀ {u : θ} {k : ℕ}, reads (((q.setDequeuePos (q.dequeuePos + 1)).setPc t
        (.moveData q.dequeuePos)).pc u) = some k →
        (u = t ∧ k = q.dequeuePos) ∨ (reads (q.pc u) = some k ∧ k < q.dequeuePos) := by
      intro u k hu
      rcases eq_or_ne u t with rfl | hne
      · rw [Queue.setPc_pc] at hu
        exact .inl ⟨rfl, (Option.some.inj hu).symm⟩
      · rw [Queue.setPc_pc_of_ne _ _ hne] at hu
        exact .inr ⟨hu, (h.of_reads hu).1⟩
    intro u u' k hu hu'
    rcases hnew hu with ⟨rfl, hk⟩ | ⟨hu, hk⟩ <;> rcases hnew hu' with ⟨rfl, hk'⟩ | ⟨hu', hk'⟩
    · rfl
    · omega
    · omega
    · exact h.reader u u' k hu hu'

/-! ### What a thread reads from a cell -/

omit [DecidableEq θ] in
lemma Sim.sequence_lt (h : Sim N n q a) (pos : ℕ) :
    (q.cell N pos).sequence < q.enqueuePos + N.val := by
  have h2 := N.two_le
  obtain ⟨p, hp₁, hp₂, hmod⟩ := N.exists_ticket q.enqueuePos pos
  rw [← q.cell_congr N hmod]
  rcases h.slots p hp₁ hp₂ with ⟨hs, -⟩ | ⟨j, u, hj, hs, -⟩ | ⟨j, hj, hs, -⟩ | ⟨j, u, hj, hs, -⟩
  all_goals omega

omit [DecidableEq θ] in
/-- A number below the ticket says that the item of the round before is still there, or still
being taken out. -/
lemma Sim.full (h : Sim N n q a) {pos : ℕ} (hpos : pos ≤ q.enqueuePos)
    (hlt : (q.cell N pos).sequence < pos) : N.val ≤ a.queue.length ∨ a.Taking := by
  have h2 := N.two_le
  obtain ⟨p, hp₁, hp₂, hmod⟩ := N.exists_ticket q.enqueuePos pos
  rw [← q.cell_congr N hmod] at hlt
  have hlen : a.queue.length = q.enqueuePos - q.dequeuePos := by
    rw [h.queue, List.length_drop, List.length_map, h.length]
  have hge : pos = q.enqueuePos ∧ p = pos ∨ pos + N.val ≤ p := by
    rcases Nat.lt_or_eq_of_le (hpos.trans hp₁) with hlt' | heq
    · exact .inr (N.add_le_of_mod_eq hmod.symm hlt')
    · exact .inl ⟨by omega, heq.symm⟩
  rcases h.slots p hp₁ hp₂ with ⟨hs, -⟩ | ⟨j, u, hj, hs, hu⟩ | ⟨j, hj, hs, hd, -⟩ |
    ⟨j, u, hj, hs, hu⟩
  · omega
  · have := (h.of_writes hu).1
    exact .inl (by omega)
  · exact .inl (by omega)
  · obtain ⟨v, hv⟩ := (h.of_reads hu).2.2.2
    exact .inr ⟨u, v, hv⟩

omit [DecidableEq θ] in
/-- A number not above the ticket says that no item has come, or that it is still being put in. -/
lemma Sim.empty (h : Sim N n q a) {pos : ℕ} (hpos : pos ≤ q.dequeuePos)
    (hlt : (q.cell N pos).sequence < pos + 1) : a.queue = [] ∨ a.Putting := by
  have h2 := N.two_le
  have hord := h.ordered
  obtain ⟨p, hp₁, hp₂, hmod⟩ := N.exists_ticket q.enqueuePos pos
  rw [← q.cell_congr N hmod] at hlt
  by_cases hempty : q.dequeuePos = q.enqueuePos
  · left
    rw [h.queue, List.drop_eq_nil_iff, List.length_map, h.length, hempty]
  right
  have hge : pos = p ∨ pos + N.val ≤ p := by
    rcases Nat.lt_or_eq_of_le (hpos.trans (hord.trans hp₁)) with hlt' | heq
    · exact .inr (N.add_le_of_mod_eq hmod.symm hlt')
    · exact .inl heq
  rcases h.slots p hp₁ hp₂ with ⟨hs, hd⟩ | ⟨j, u, hj, hs, hu⟩ | ⟨j, hj, hs, hd, -⟩ |
    ⟨j, u, hj, hs, hu⟩
  · omega
  · obtain ⟨v, hv⟩ := (h.of_writes hu).2.2.2
    exact ⟨u, v, hv⟩
  · omega
  · omega

omit [DecidableEq θ] in
lemma Sim.lt_of_ready (h : Sim N n q a) (hs : (q.cell N q.dequeuePos).sequence =
    q.dequeuePos + 1) : q.dequeuePos < q.enqueuePos := by
  have h2 := N.two_le
  by_contra hlt
  have heq : q.enqueuePos = q.dequeuePos := by
    have := h.ordered
    omega
  rcases h.slots q.dequeuePos (by omega) (by omega) with ⟨hs', hd⟩ | ⟨j, u, hj, hs', hu⟩ |
    ⟨j, hj, hs', hd, -⟩ | ⟨j, u, hj, hs', hu⟩
  all_goals omega

/-! ### The simulation -/

omit [DecidableEq θ] in
lemma Sim.mono (h : Sim N n q a) : Sim N (n + 1) q a :=
  { h with steps := h.steps.trans n.le_succ }

lemma Sim.stay (h : Sim N n q a) {p : Pc α} (hw : writes (q.pc t) = none)
    (hr : reads (q.pc t) = none) (hw' : writes p = none) (hr' : reads p = none)
    (hk : Knows N q (a.accepted.map Prod.snd) (a.phase t) p) : Sim N (n + 1) (q.setPc t p) a := by
  have := h.setPc hw hr hw' hr' hk
  rwa [Channel.setPhase, Function.update_eq_self] at this

lemma Sim.access [Inhabited α] (h : Sim N n q a) (hn : n + N.val < 2 ^ 63) (spurious : Bool)
    (hdone : ∀ o, q.pc t ≠ .done o) :
    ∃ a', Trace (Channel.Step N.val) a [] a' ∧
      Sim N (n + 1) (q.access N t spurious (q.pc t)) a' := by
  have hk := h.threads t
  have hsteps := h.steps
  have hord := h.ordered
  have h2 := N.two_le
  rcases hp : q.pc t with _ | v | ⟨v, pos⟩ | ⟨v, pos⟩ | ⟨v, pos⟩ | ⟨v, pos⟩ | _ | pos | pos | pos |
    ⟨pos, v⟩ | o <;> rw [hp] at hk
  · exact ⟨a, .nil, h.mono⟩
  · exact ⟨a, .nil, h.stay (by rw [hp]; rfl) (by rw [hp]; rfl) rfl rfl ⟨hk, le_rfl⟩⟩
  · obtain ⟨hph, hpos⟩ := hk
    have hseq := h.sequence_lt pos
    simp only [Queue.access]
    rw [dif_of_lt (by omega) (by omega)]
    split
    · refine ⟨a, .nil, h.stay (by rw [hp]; rfl) (by rw [hp]; rfl) rfl rfl ⟨hph, hpos, ?_⟩⟩
      intro
      omega
    split
    · have hfull := h.full hpos (by omega)
      exact ⟨_, .silent (.full hph hfull),
        h.setPc (by rw [hp]; rfl) (by rw [hp]; rfl) rfl rfl rfl⟩
    · exact ⟨a, .nil, h.stay (by rw [hp]; rfl) (by rw [hp]; rfl) rfl rfl hph⟩
  · simp only [Queue.access]
    split
    · rename_i hcas
      obtain ⟨rfl, -⟩ := hcas
      have hsim := h.drawPut hp
      have hroom := hsim.room
      have hlen : a.queue.length = q.enqueuePos - q.dequeuePos := by
        rw [h.queue, List.length_drop, List.length_map, h.length]
      rw [wrap_of_lt (by omega)]
      refine ⟨_, .silent (.put hk.1 ?_), hsim⟩
      simp only [Queue.setPc, Queue.setEnqueuePos] at hroom
      omega
    · exact ⟨a, .nil, h.stay (by rw [hp]; rfl) (by rw [hp]; rfl) rfl rfl ⟨hk.1, le_rfl⟩⟩
  · obtain ⟨hph, hd, he, hs, hv⟩ := hk
    refine ⟨a, .nil, h.setCell (.inl (by rw [hp]; rfl)) (.inr (by rw [hp]; rfl)) (.inl rfl) ?_ ?_⟩
    · refine ⟨hph, hd, he, ?_, hv, ?_⟩ <;> rw [q.cell_setCell, if_pos rfl]
      exact hs
    · refine .writing pos t rfl ?_ (by rw [Queue.setPc_pc]; rfl)
      change ((q.setCell N pos _).cell N (pos + N.val)).sequence = pos
      rw [q.cell_setCell, if_pos (Nat.add_mod_right _ _)]
      exact hs
  · obtain ⟨hph, hd, he, hs, hv, hdata⟩ := hk
    refine ⟨a, .nil, h.setCell (.inl (by rw [hp]; rfl)) (.inl rfl) (.inl rfl) hph ?_⟩
    refine .ready pos rfl ?_ hd ?_
    · change ((q.setCell N pos _).cell N (pos + N.val)).sequence = pos + 1
      rw [q.cell_setCell, if_pos (Nat.add_mod_right _ _), wrap_of_lt (by omega)]
    · change _ = some ((q.setCell N pos _).cell N (pos + N.val)).data
      rw [q.cell_setCell, if_pos (Nat.add_mod_right _ _), hv, ← hdata]
  · exact ⟨a, .nil, h.stay (by rw [hp]; rfl) (by rw [hp]; rfl) rfl rfl ⟨hk, le_rfl⟩⟩
  · obtain ⟨hph, hpos⟩ := hk
    have hseq := h.sequence_lt pos
    simp only [Queue.access]
    rw [wrap_of_lt (by omega), dif_of_lt (by omega) (by omega)]
    split
    · have hready : (q.cell N pos).sequence = pos + 1 := by omega
      refine ⟨a, .nil, h.stay (by rw [hp]; rfl) (by rw [hp]; rfl) rfl rfl ⟨hph, hpos, ?_⟩⟩
      rintro rfl
      exact ⟨h.lt_of_ready hready, hready⟩
    split
    · have hempty := h.empty hpos (by omega)
      exact ⟨_, .silent (.empty hph hempty),
        h.setPc (by rw [hp]; rfl) (by rw [hp]; rfl) rfl rfl rfl⟩
    · exact ⟨a, .nil, h.stay (by rw [hp]; rfl) (by rw [hp]; rfl) rfl rfl hph⟩
  · simp only [Queue.access]
    split
    · rename_i hcas
      obtain ⟨rfl, -⟩ := hcas
      obtain ⟨v, hv, hsim⟩ := h.drawTake hp
      rw [wrap_of_lt (by omega)]
      exact ⟨_, .silent (.take hk.1 hv), hsim⟩
    · exact ⟨a, .nil, h.stay (by rw [hp]; rfl) (by rw [hp]; rfl) rfl rfl ⟨hk.1, le_rfl⟩⟩
  · obtain ⟨v, hph, hd, he, hs, hv⟩ := hk
    refine ⟨a, .nil, h.setCell (.inr (by rw [hp]; rfl)) (.inl rfl) (.inr (by rw [hp]; rfl)) ?_ ?_⟩
    · refine ⟨by rw [hph, hv], hd, he, ?_⟩
      rw [q.cell_setCell, if_pos rfl]
      exact hs
    · refine .reading pos t rfl ?_ (by rw [Queue.setPc_pc]; rfl)
      change ((q.setCell N pos _).cell N (pos + N.val)).sequence = pos + 1
      rw [q.cell_setCell, if_pos (Nat.add_mod_right _ _)]
      exact hs
  · obtain ⟨hph, hd, he, hs⟩ := hk
    refine ⟨a, .nil, h.setCell (.inr (by rw [hp]; rfl)) (.inl rfl) (.inl rfl) hph ?_⟩
    refine .free ?_ ?_
    · change ((q.setCell N pos _).cell N (pos + N.val)).sequence = pos + N.val
      rw [q.cell_setCell, if_pos (Nat.add_mod_right _ _), wrap_of_lt (by omega)]
      simp only
      omega
    · change pos + N.val < q.dequeuePos + N.val
      omega
  · exact absurd hp (hdone o)

lemma Sim.next [Inhabited α] (h : Sim N n q a) (hn : n + N.val < 2 ^ 63) (x : θ × Input α) :
    ∃ a', Trace (Channel.Step N.val) a (q.next N x).2.toList a' ∧
      Sim N (n + 1) (q.next N x).1 a' := by
  obtain ⟨t, c | spurious⟩ := x
  · rcases hp : q.pc t with _ | _ | _ | _ | _ | _ | _ | _ | _ | _ | _ | _
    case idle =>
      have hk := h.threads t
      rw [hp] at hk
      simp only [Queue.next, hp]
      refine ⟨_, .shows (.call c hk), h.setPc (by rw [hp]; rfl) (by rw [hp]; rfl) ?_ ?_ ?_⟩ <;>
        cases c <;> rfl
    all_goals
      simp only [Queue.next, hp]
      exact ⟨a, .nil, h.mono⟩
  · by_cases hdone : ∃ o, q.pc t = .done o
    · obtain ⟨o, hp⟩ := hdone
      have hk := h.threads t
      rw [hp] at hk
      simp only [Queue.next, hp]
      exact ⟨_, .shows (.ret hk), h.setPc (by rw [hp]; rfl) (by rw [hp]; rfl) rfl rfl rfl⟩
    · push Not at hdone
      have := h.access hn spurious hdone
      rcases hp : q.pc t with _ | _ | _ | _ | _ | _ | _ | _ | _ | _ | _ | o
      case done => exact absurd hp (hdone o)
      all_goals
        rw [hp] at this
        simp only [Queue.next, hp]
        exact this

omit [DecidableEq θ] in
lemma sim_construct [Inhabited α] (N : Size) : Sim N 0 (construct : Queue θ α) {} where
  steps := le_rfl
  ordered := le_rfl
  room := Nat.zero_le _
  length := rfl
  queue := rfl
  slots p _ hp := by
    change p < 0 + N.val at hp
    refine .free ?_ hp
    rw [Queue.cell, N.and_mask, Nat.mod_eq_of_lt (by omega)]
    rfl
  threads _ := rfl
  writer _ _ _ h := by cases h
  reader _ _ _ h := by cases h

/-- **The queue is a first-in-first-out channel.** Whatever its threads do, in any order of their
accesses, the calls and returns are those of a channel of the size of the ring in which every
operation takes effect at one moment, until the counters may have come near `2 ^ 63`. -/
theorem mpmcQueue_linearizable [Inhabited α] (N : Size) (xs : List (θ × Input α))
    (hn : xs.length + N.val ≤ 2 ^ 63) :
    ∃ a, Trace (Channel.Step N.val) ({} : Channel θ α)
      (shown (Queue.next N) construct xs) a ∧
      Channel.Books N.val (shown (Queue.next N) construct xs) a := by
  obtain ⟨a, htrace, -⟩ := trace_of_simulation (R := Sim N)
    (fun n q a x (hn : n < 2 ^ 63 - N.val) h => h.next (by omega) x)
    (show 0 + xs.length ≤ _ by omega) (sim_construct N)
  exact ⟨a, htrace, Channel.books_of_trace htrace⟩

/-- The two threads of the example put and take at the same time. -/
def crossing : List (Bool × Input ℕ) :=
  [(false, .call (.put 7)), (true, .call .take)] ++
    List.replicate 6 (false, .run false) ++ List.replicate 6 (true, .run false)

theorem mpmcQueue_linearizable_crossing :
    shown (Queue.next ⟨2, le_rfl, rfl⟩) construct crossing =
        [.call false (.put 7), .call true .take, .ret false (.put 7 true),
          .ret true (.take (some 7))] ∧
      ∃ a, Trace (Channel.Step 2) ({} : Channel Bool ℕ)
        (shown (Queue.next ⟨2, le_rfl, rfl⟩) construct crossing) a := by
  obtain ⟨a, ha, -⟩ := mpmcQueue_linearizable ⟨2, le_rfl, rfl⟩ crossing (by decide)
  exact ⟨by decide +kernel, a, ha⟩

/-! ### A thread that is left alone -/

omit [DecidableEq θ] in
lemma Sim.sequence_le_enqueuePos (h : Sim N n q a) :
    (q.cell N q.enqueuePos).sequence ≤ q.enqueuePos := by
  have h2 := N.two_le
  rcases h.slots q.enqueuePos le_rfl (by omega) with ⟨hs, -⟩ | ⟨j, u, hj, hs, -⟩ | ⟨j, hj, hs, -⟩ |
    ⟨j, u, hj, hs, -⟩
  all_goals omega

omit [DecidableEq θ] in
lemma Sim.sequence_le_dequeuePos (h : Sim N n q a) :
    (q.cell N q.dequeuePos).sequence ≤ q.dequeuePos + 1 := by
  have h2 := N.two_le
  have hord := h.ordered
  have hroom := h.room
  obtain ⟨p, hp₁, hp₂, hmod⟩ := N.exists_ticket q.enqueuePos q.dequeuePos
  rw [← q.cell_congr N hmod]
  have hp : p = q.dequeuePos ∨ p = q.dequeuePos + N.val := by
    rcases Nat.lt_or_eq_of_le (hord.trans hp₁) with hlt | heq
    · have := N.add_le_of_mod_eq hmod.symm hlt
      rcases Nat.lt_or_eq_of_le this with hlt' | heq
      · have := N.add_le_of_mod_eq (by rw [Nat.add_mod_right, hmod]) hlt'
        omega
      · exact .inr heq.symm
    · exact .inl heq.symm
  rcases h.slots p hp₁ hp₂ with ⟨hs, hd⟩ | ⟨j, u, hj, hs, hu⟩ | ⟨j, hj, hs, -⟩ | ⟨j, u, hj, hs, hu⟩
  all_goals omega

/-- How many accesses a thread has before it if no other one runs. -/
def remaining (q : Queue θ α) : Pc α → ℕ
  | .idle => 0
  | .done _ => 1
  | .publish _ _ | .release _ _ => 2
  | .storeData _ _ | .moveData _ => 3
  | .casEnqueuePos _ pos => if pos = q.enqueuePos then 4 else 6
  | .loadSequence _ pos => if pos = q.enqueuePos then 5 else 7
  | .casDequeuePos pos => if pos = q.dequeuePos then 4 else 6
  | .loadSequence' pos => if pos = q.dequeuePos then 5 else 7
  | .loadEnqueuePos _ | .loadDequeuePos => 6

lemma Sim.remaining_access [Inhabited α] (h : Sim N n q a) (hn : n + N.val < 2 ^ 63)
    (hidle : q.pc t ≠ .idle) (hdone : ∀ o, q.pc t ≠ .done o) :
    (q.access N t false (q.pc t)).pc t ≠ .idle ∧
      remaining (q.access N t false (q.pc t)) ((q.access N t false (q.pc t)).pc t) <
        remaining q (q.pc t) := by
  have hk := h.threads t
  have hsteps := h.steps
  have hord := h.ordered
  have h2 := N.two_le
  rcases hp : q.pc t with _ | v | ⟨v, pos⟩ | ⟨v, pos⟩ | ⟨v, pos⟩ | ⟨v, pos⟩ | _ | pos | pos | pos |
    ⟨pos, v⟩ | o <;> rw [hp] at hk
  case idle => exact absurd hp hidle
  case done => exact absurd hp (hdone o)
  case loadSequence =>
    have hseq := h.sequence_lt pos
    have hle := h.sequence_le_enqueuePos
    have hpos := hk.2
    rw [Queue.access, dif_of_lt (by omega) (by omega)]
    split
    · rw [Queue.setPc_pc]
      refine ⟨by simp, ?_⟩
      by_cases heq : pos = q.enqueuePos <;> simp [remaining, Queue.setPc, heq]
    split
    · rw [Queue.setPc_pc]
      refine ⟨by simp, ?_⟩
      simp only [remaining]
      split <;> omega
    · rw [Queue.setPc_pc]
      refine ⟨by simp, ?_⟩
      have hne : pos ≠ q.enqueuePos := by
        rintro rfl
        omega
      simp only [remaining, if_neg hne]
      omega
  case loadSequence' =>
    have hseq := h.sequence_lt pos
    have hle := h.sequence_le_dequeuePos
    have hpos := hk.2
    rw [Queue.access, wrap_of_lt (by omega), dif_of_lt (by omega) (by omega)]
    split
    · rw [Queue.setPc_pc]
      refine ⟨by simp, ?_⟩
      by_cases heq : pos = q.dequeuePos <;> simp [remaining, Queue.setPc, heq]
    split
    · rw [Queue.setPc_pc]
      refine ⟨by simp, ?_⟩
      simp only [remaining]
      split <;> omega
    · rw [Queue.setPc_pc]
      refine ⟨by simp, ?_⟩
      have hne : pos ≠ q.dequeuePos := by
        rintro rfl
        omega
      simp only [remaining, if_neg hne]
      omega
  case casEnqueuePos =>
    rw [Queue.access]
    split
    · rename_i hcas
      rw [Queue.setPc_pc]
      simp [remaining, hcas.1]
    · rename_i hcas
      have hne : pos ≠ q.enqueuePos := fun heq => hcas ⟨heq.symm, rfl⟩
      rw [Queue.setPc_pc]
      simp [remaining, Queue.setPc, hne]
  case casDequeuePos =>
    rw [Queue.access]
    split
    · rename_i hcas
      rw [Queue.setPc_pc]
      simp [remaining, hcas.1]
    · rename_i hcas
      have hne : pos ≠ q.dequeuePos := fun heq => hcas ⟨heq.symm, rfl⟩
      rw [Queue.setPc_pc]
      simp [remaining, Queue.setPc, hne]
  all_goals
    rw [Queue.access, Queue.setPc_pc]
    simp [remaining, Queue.setPc]

lemma Sim.solo [Inhabited α] {m : ℕ} (h : Sim N n q a) (hn : n + m + N.val ≤ 2 ^ 63)
    (hidle : q.pc t ≠ .idle) (hm : remaining q (q.pc t) ≤ m) :
    ∃ k ≤ m, ∃ o, shown (Queue.next N) q (List.replicate k (t, .run false)) = [.ret t o] := by
  induction m generalizing n q a with
  | zero =>
    rcases hp : q.pc t with _ | v | ⟨v, pos⟩ | ⟨v, pos⟩ | ⟨v, pos⟩ | ⟨v, pos⟩ | _ | pos | pos |
      pos | ⟨pos, v⟩ | o <;> simp only [hp, remaining] at hm
    case idle => exact absurd hp hidle
    all_goals first | omega | (split at hm <;> omega)
  | succ m ih =>
    by_cases hdone : ∃ o, q.pc t = .done o
    · obtain ⟨o, ho⟩ := hdone
      exact ⟨1, by omega, o, by simp [shown, Queue.next, ho]⟩
    push Not at hdone
    have hnext : q.next N (t, .run false) = (q.access N t false (q.pc t), none) := by
      rcases next_run N q false (t := t) with ⟨o, ho, -⟩ | -
      · exact absurd ho (hdone o)
      · unfold Queue.next
        split <;> simp_all
    obtain ⟨a', -, hsim⟩ := h.access (by omega) false hdone
    obtain ⟨hidle', hlt⟩ := h.remaining_access (by omega) hidle hdone
    obtain ⟨k, hk, o, ho⟩ := ih hsim (by omega) hidle' (by omega)
    refine ⟨k + 1, by omega, o, ?_⟩
    rw [List.replicate_succ, shown, hnext]
    exact ho

/-- **No thread blocks another.** Wherever the other threads have stopped, a thread in the middle
of an operation returns from it within seven accesses of its own, if only no exchange fails
without reason. -/
theorem mpmcQueue_obstruction_free [Inhabited α] (N : Size) (xs : List (θ × Input α)) (t : θ)
    (hn : xs.length + 7 + N.val ≤ 2 ^ 63)
    (ht : (after (Queue.next N) construct xs).pc t ≠ .idle) :
    ∃ k ≤ 7, ∃ o, shown (Queue.next N) construct (xs ++ List.replicate k (t, .run false)) =
      shown (Queue.next N) construct xs ++ [.ret t o] := by
  obtain ⟨a, -, hsim⟩ := trace_of_simulation (R := Sim N)
    (fun n q a x (hn : n < 2 ^ 63 - N.val) h => h.next (by omega) x)
    (show 0 + xs.length ≤ _ by omega) (sim_construct N)
  have hm : remaining (after (Queue.next N) construct xs)
      ((after (Queue.next N) construct xs).pc t) ≤ 7 := by
    rcases (after (Queue.next N) construct xs).pc t with _ | _ | _ | _ | _ | _ | _ | _ | _ | _ | _ |
      _ <;> simp only [remaining] <;> first | omega | (split <;> omega)
  obtain ⟨k, hk, o, ho⟩ := hsim.solo (by omega) ht hm
  exact ⟨k, hk, o, by rw [shown_append, ho]⟩

theorem mpmcQueue_obstruction_free_crossing :
    (after (Queue.next ⟨2, le_rfl, rfl⟩) construct
        [(false, Input.call (.put 7)), (true, .call .take)]).pc true ≠ .idle ∧
      ∃ k ≤ 7, ∃ o, shown (Queue.next ⟨2, le_rfl, rfl⟩) construct
          ([(false, Input.call (.put 7)), (true, .call .take)] ++
            List.replicate k (true, .run false)) =
        shown (Queue.next ⟨2, le_rfl, rfl⟩) construct
          [(false, Input.call (.put 7)), (true, .call .take)] ++ [.ret true o] := by
  have hne : (after (Queue.next ⟨2, le_rfl, rfl⟩) construct
      [(false, Input.call (.put 7)), (true, .call .take)]).pc true ≠ .idle := by
    simp [after, Queue.next, Queue.setPc, Queue.entry, construct]
  exact ⟨hne, mpmcQueue_obstruction_free _ _ true (by decide) hne⟩

end Simulation

end NgxMapping.MpmcQueue
