import NgxMapping.Lib.Bytes
import NgxMapping.MpmcTickets

/-!
`async_log_helper` of `spdlog/details/async_log_helper.h`: threads push messages into the queue
and one worker thread takes them out and writes them.

Everything a thread does between two accesses to the queue happens with the return from
`enqueue` or `dequeue`. Whether the flush interval has passed and whether a write fails is up to
the schedule. A failed write ends the worker's loop.
-/

namespace NgxMapping.AsyncLog

open Lib MpmcQueue

/-- A message of the queue; of a log message the text. -/
inductive Msg
  | log (txt : Bytes)
  | flush
  | terminate
  deriving DecidableEq

instance : Inhabited Msg := ⟨.flush⟩

inductive OverflowPolicy
  | blockRetry
  | discardLogMsg
  deriving DecidableEq

inductive Status
  | running
  | exited
  | failed
  deriving DecidableEq

/-- The line that the pattern `%v` makes of a message. -/
def format (txt : Bytes) : Bytes := txt ++ [10]

variable {θ : Type}

/-- The helper with its queue, and what has been asked of it. `pushing` is the argument of the
`push_msg` a thread is in, `flushed` how many lines had been written at the last flush. -/
structure Helper (θ : Type) where
  q : Queue θ Msg := construct
  events : List (Event θ Msg) := []
  pushed : List (θ × Msg) := []
  pushing : θ → Option Msg := fun _ => none
  flushRequested : Bool := false
  terminateRequested : Bool := false
  status : Status := .running
  written : List Bytes := []
  flushed : ℕ := 0

/-- A step of the schedule: a thread enters `push_msg`, or goes on. -/
inductive Act (θ : Type)
  | push (t : θ) (m : Msg)
  | run (t : θ) (spurious expired fails : Bool)

namespace Helper

/-- `handle_flush_interval`. -/
def handleFlushInterval (h : Helper θ) (expired : Bool) : Helper θ :=
  if h.flushRequested || expired then
    { h with flushed := h.written.length, flushRequested := false } else h

/-- `process_next_msg` after `dequeue` has returned; the loop goes on while it is `running`. -/
def processNextMsg (h : Helper θ) (expired fails : Bool) : Option Msg → Helper θ
  | some .flush => { h with flushRequested := true }
  | some .terminate => { h with flushRequested := true, terminateRequested := true }
  | some (.log txt) =>
    if fails then { h with status := .failed }
    else { h with written := h.written ++ [format txt] }
  | none =>
    let h := h.handleFlushInterval expired
    if h.terminateRequested then { h with status := .exited } else h

variable [DecidableEq θ]

/-- `push_msg` after `enqueue` has returned: it is called again until it succeeds, unless the
policy is to discard. -/
def pushMsg (policy : OverflowPolicy) (h : Helper θ) (t : θ) (ok : Bool) : Helper θ :=
  if ok ∨ policy = .discardLogMsg then { h with pushing := Function.update h.pushing t none } else h

/-- What a thread does next with the queue. -/
def input (w : θ) (h : Helper θ) (t : θ) (spurious : Bool) : Option (Input Msg) :=
  match h.q.pc t with
  | .idle =>
    if t = w then if h.status = .running then some (.call .take) else none
    else (h.pushing t).map fun m => .call (.put m)
  | _ => some (.run spurious)

/-- The helper after the return from an operation of the queue. -/
def returned (policy : OverflowPolicy) (h : Helper θ) (expired fails : Bool) :
    Option (Event θ Msg) → Helper θ
  | some (.ret t (.put _ ok)) => h.pushMsg policy t ok
  | some (.ret _ (.take m)) => h.processNextMsg expired fails m
  | _ => h

/-- A step of the queue on behalf of a thread. -/
def feed (N : Size) (h : Helper θ) (x : θ × Input Msg) : Helper θ :=
  { h with q := (h.q.next N x).1, events := h.events ++ (h.q.next N x).2.toList }

/-- One step. The worker `w` pushes nothing, and a thread is in one `push_msg` at a time. -/
def step (N : Size) (w : θ) (policy : OverflowPolicy) (h : Helper θ) : Act θ → Helper θ
  | .push t m =>
    if t = w ∨ (h.pushing t).isSome then h
    else { h with
      pushing := Function.update h.pushing t (some m), pushed := h.pushed ++ [(t, m)] }
  | .run t spurious expired fails =>
    match h.input w t spurious with
    | none => h
    | some x => (h.feed N (t, x)).returned policy expired fails (h.q.next N (t, x)).2

def run (N : Size) (w : θ) (policy : OverflowPolicy) (acts : List (Act θ)) : Helper θ :=
  acts.foldl (step N w policy) {}

end Helper

/-! ### What a step can do -/

section Step

variable [DecidableEq θ] (N : Size) (w : θ) (policy : OverflowPolicy) (h : Helper θ)

/-- The steps of a helper, with the queue after each. -/
inductive Steps : Helper θ → Prop
  | stay : Steps h
  | push {t : θ} {m : Msg} : t ≠ w → h.pushing t = none →
      Steps { h with
        pushing := Function.update h.pushing t (some m), pushed := h.pushed ++ [(t, m)] }
  | take : h.q.pc w = .idle → h.status = .running →
      Steps { h with q := h.q.setPc w .loadDequeuePos, events := h.events ++ [.call w .take] }
  | put {t : θ} {m : Msg} : t ≠ w → h.q.pc t = .idle → h.pushing t = some m →
      Steps { h with
        q := h.q.setPc t (.loadEnqueuePos m), events := h.events ++ [.call t (.put m)] }
  | silent {t : θ} {q : Queue θ Msg} : (q.pc t).call = (h.q.pc t).call →
      (∀ u, u ≠ t → q.pc u = h.q.pc u) → Steps { h with q := q }
  | ret {t : θ} {o : Op Msg} (expired fails : Bool) : h.q.pc t = .done o →
      Steps (({ h with q := h.q.setPc t .idle, events := h.events ++ [.ret t o] } :
        Helper θ).returned policy expired fails (some (.ret t o)))

lemma steps_step (act : Act θ) : Steps w policy h (h.step N w policy act) := by
  cases act with
  | push t m =>
    simp only [Helper.step]
    split
    · exact .stay
    · rename_i hne
      rw [not_or] at hne
      exact .push hne.1 (by simpa using hne.2)
  | run t spurious expired fails =>
    simp only [Helper.step, Helper.input]
    split
    · exact .stay
    rename_i x hx
    split at hx
    · rename_i hidle
      split at hx
      · rename_i htw
        subst htw
        split at hx
        · rename_i hrun
          obtain rfl := Option.some.inj hx
          have : Steps t policy h _ := .take hidle hrun
          simpa [Helper.feed, Helper.returned, Queue.next, hidle, Queue.entry] using this
        · cases hx
      · rename_i htw
        obtain ⟨m, hm, rfl⟩ := Option.map_eq_some_iff.mp hx
        have : Steps w policy h _ := .put htw hidle hm
        simpa [Helper.feed, Helper.returned, Queue.next, hidle, Queue.entry] using this
    · obtain rfl := Option.some.inj hx
      rcases next_run N h.q spurious (t := t) with ⟨o, ho, hnext⟩ | ⟨hnone, hcall⟩
      · rw [Helper.feed, hnext]
        exact .ret expired fails ho
      · rw [Helper.feed, hnone]
        simp only [Helper.returned, Option.toList_none, List.append_nil]
        exact .silent hcall fun u hu => next_pc_of_ne N h.q _ hu

end Step

/-! ### The worker and the others -/

section Inv

/-- The lines of the log messages among the messages. -/
def lines (ms : List Msg) : List Bytes :=
  ms.filterMap fun
    | .log txt => some (format txt)
    | _ => none

lemma lines_append (ms ns : List Msg) : lines (ms ++ ns) = lines ms ++ lines ns :=
  List.filterMap_append

@[simp] lemma lines_log (txt : Bytes) : lines [.log txt] = [format txt] := rfl
@[simp] lemma lines_flush : lines [.flush] = [] := rfl
@[simp] lemma lines_terminate : lines [.terminate] = [] := rfl

variable [DecidableEq θ] {N : Size} {w : θ} {policy : OverflowPolicy} {h h' : Helper θ}

/-- The threads keep to their parts, and what the helper has done is what the worker has
received. -/
structure Inv (w : θ) (policy : OverflowPolicy) (h : Helper θ) : Prop where
  pusher : ∀ t, t ≠ w → ∀ c, (h.q.pc t).call = some c → ∃ m, c = .put m ∧ h.pushing t = some m
  worker : ∀ c, (h.q.pc w).call = some c → c = .take ∧ h.status = .running
  taker : ∀ t, t ≠ w → Channel.received t h.events = []
  sender : Channel.sent w h.events = []
  written : h.status ≠ .failed → h.written = lines (Channel.received w h.events)
  failed : h.status = .failed → ∃ ms txt,
    Channel.received w h.events = ms ++ [.log txt] ∧ h.written = lines ms
  terminated : h.terminateRequested = true ↔ .terminate ∈ Channel.received w h.events
  requested : h.status = .running → h.terminateRequested = true → h.flushRequested = true
  flushed : h.status = .exited → h.terminateRequested = true ∧ h.flushed = h.written.length
  pushed : policy = .blockRetry → ∀ t,
    Channel.itemsOf t h.pushed = Channel.sent t h.events ++ (h.pushing t).toList

lemma inv_init : Inv w policy ({} : Helper θ) where
  pusher _ _ _ hc := by cases hc
  worker _ hc := by cases hc
  taker _ _ := rfl
  sender := rfl
  written _ := rfl
  failed hs := by cases hs
  terminated := by simp [Channel.received]
  requested _ hs := by cases hs
  flushed hs := by cases hs
  pushed _ _ := rfl

lemma Inv.call (hi : Inv w policy h) {q : Queue θ Msg} {es : List (Event θ Msg)}
    (hsent : ∀ t, Channel.sent t es = []) (hrec : ∀ t, Channel.received t es = [])
    (hpusher : ∀ t, t ≠ w → ∀ c, (q.pc t).call = some c → ∃ m, c = .put m ∧ h.pushing t = some m)
    (hworker : ∀ c, (q.pc w).call = some c → c = .take ∧ h.status = .running) :
    Inv w policy { h with q := q, events := h.events ++ es } where
  pusher := hpusher
  worker := hworker
  taker t ht := by rw [Channel.received_append, hrec, hi.taker t ht, List.append_nil]
  sender := by rw [Channel.sent_append, hsent, hi.sender, List.append_nil]
  written hs := by
    rw [Channel.received_append, hrec, List.append_nil]
    exact hi.written hs
  failed hs := by
    rw [Channel.received_append, hrec, List.append_nil]
    exact hi.failed hs
  terminated := by
    rw [Channel.received_append, hrec, List.append_nil]
    exact hi.terminated
  requested := hi.requested
  flushed := hi.flushed
  pushed hp t := by
    rw [Channel.sent_append, hsent, List.append_nil]
    exact hi.pushed hp t

lemma call_setPc_idle {q : Queue θ Msg} {t u : θ} {c : Call Msg}
    (hc : ((q.setPc t .idle).pc u).call = some c) : u ≠ t ∧ (q.pc u).call = some c := by
  rcases eq_or_ne u t with rfl | hu
  · rw [Queue.setPc_pc] at hc
    cases hc
  · rw [Queue.setPc_pc_of_ne _ _ hu] at hc
    exact ⟨hu, hc⟩

lemma Inv.put (hi : Inv w policy h) {t : θ} {v : Msg} {ok : Bool}
    (ht : h.q.pc t = .done (.put v ok)) :
    Inv w policy (({ h with q := h.q.setPc t .idle, events := h.events ++ [.ret t (.put v ok)] } :
      Helper θ).pushMsg policy t ok) := by
  have htw : t ≠ w := by
    rintro rfl
    have := (hi.worker (.put v) (by rw [ht]; rfl)).1
    cases this
  have hv : h.pushing t = some v := by
    obtain ⟨m, hm, hp⟩ := hi.pusher t htw (.put v) (by rw [ht]; rfl)
    cases hm
    exact hp
  have hrec : ∀ u, Channel.received u [Event.ret t (.put v ok)] = [] := by
    intro u
    simp [Channel.received]
  have hsent : ∀ u, Channel.sent u [Event.ret t (.put v ok)] =
      if ok = true ∧ u = t then [v] else [] := by
    intro u
    rcases eq_or_ne u t with rfl | hu
    · cases ok <;> simp [Channel.sent]
    · cases ok <;> simp [Channel.sent, hu, hu.symm]
  have hidle : ∀ u, u ≠ w → ∀ c, ((h.q.setPc t .idle).pc u).call = some c →
      u ≠ t ∧ ∃ m, c = .put m ∧ h.pushing u = some m := by
    intro u hu c hc
    obtain ⟨hne, hc⟩ := call_setPc_idle hc
    exact ⟨hne, hi.pusher u hu c hc⟩
  unfold Helper.pushMsg
  split
  · rename_i hok
    refine ⟨?_, fun c hc => hi.worker c (call_setPc_idle hc).2, ?_, ?_, ?_, ?_, ?_, hi.requested,
      hi.flushed, ?_⟩
    · intro u hu c hc
      obtain ⟨hne, m, hm, hp⟩ := hidle u hu c hc
      exact ⟨m, hm, by rw [← hp]; exact Function.update_of_ne hne ..⟩
    · intro u hu
      simp [hrec, hi.taker u hu]
    · simp [hsent, hi.sender, htw.symm]
    · simpa [hrec] using hi.written
    · simpa [hrec] using hi.failed
    · simpa [hrec] using hi.terminated
    · intro hp u
      have hok : ok = true := hok.resolve_right (by simp [hp])
      have hu := hi.pushed hp u
      rcases eq_or_ne u t with rfl | hne
      · rw [hv] at hu
        simp only [Channel.sent_append, hsent, hu, Function.update_self]
        simp [hok]
      · simpa [hsent, hne, Function.update_of_ne hne] using hu
  · rename_i hno
    have hok : ok ≠ true := fun h => hno (.inl h)
    apply hi.call (q := h.q.setPc t .idle)
    · intro u
      rw [hsent, if_neg fun hu => hok hu.1]
    · exact hrec
    · exact fun u hu c hc => (hidle u hu c hc).2
    · exact fun c hc => hi.worker c (call_setPc_idle hc).2

/-- `dequeue` returns to the worker, which then does something about the message. -/
lemma Inv.worked (hi : Inv w policy h) {m : Option Msg} (hq : h'.q = h.q.setPc w .idle)
    (he : h'.events = h.events ++ [.ret w (.take m)]) (hp : h'.pushed = h.pushed)
    (hpg : h'.pushing = h.pushing)
    (hwritten : h'.status ≠ .failed →
      h'.written = lines (Channel.received w h.events ++ m.toList))
    (hfailed : h'.status = .failed → ∃ ms txt,
      Channel.received w h.events ++ m.toList = ms ++ [.log txt] ∧ h'.written = lines ms)
    (hterm : h'.terminateRequested = true ↔ h.terminateRequested = true ∨ m = some .terminate)
    (hreq : h'.status = .running → h'.terminateRequested = true → h'.flushRequested = true)
    (hflushed : h'.status = .exited → h'.terminateRequested = true ∧
      h'.flushed = h'.written.length) : Inv w policy h' := by
  have hself : Channel.received w h'.events = Channel.received w h.events ++ m.toList := by
    rw [he, Channel.received_append]
    cases m <;> simp [Channel.received]
  have hsent : ∀ u, Channel.sent u h'.events = Channel.sent u h.events := by
    intro u
    simp [he, Channel.sent]
  refine ⟨?_, ?_, ?_, ?_, ?_, ?_, ?_, hreq, hflushed, ?_⟩
  · intro u hu c hc
    rw [hq] at hc
    rw [hpg]
    exact hi.pusher u hu c (call_setPc_idle hc).2
  · intro c hc
    rw [hq] at hc
    exact absurd rfl (call_setPc_idle hc).1
  · intro u hu
    rw [he, Channel.received_append, hi.taker u hu]
    cases m <;> simp [Channel.received, hu.symm]
  · rw [hsent, hi.sender]
  · rwa [hself]
  · rwa [hself]
  · rw [hself, hterm, hi.terminated, List.mem_append]
    cases m <;> simp [eq_comm]
  · intro hpol u
    rw [hp, hpg, hsent, hi.pushed hpol]

lemma Inv.take (hi : Inv w policy h) {t : θ} {m : Option Msg} (expired fails : Bool)
    (ht : h.q.pc t = .done (.take m)) :
    Inv w policy (({ h with q := h.q.setPc t .idle, events := h.events ++ [.ret t (.take m)] } :
      Helper θ).processNextMsg expired fails m) := by
  obtain rfl : t = w := by
    by_contra htw
    obtain ⟨m, hm, -⟩ := hi.pusher t htw .take (by rw [ht]; rfl)
    cases hm
  have hrun : h.status = .running := (hi.worker .take (by rw [ht]; rfl)).2
  have hwritten := hi.written (by rw [hrun]; decide)
  have hnot : ∀ {s : Status}, s ≠ .running → h.status ≠ s := by
    intro s hs hst
    exact hs (hst.symm.trans hrun)
  rcases m with _ | txt | _ | _
  · -- the queue looked empty: the only place where the loop ends
    simp only [Helper.processNextMsg, Helper.handleFlushInterval]
    by_cases hterm : h.terminateRequested = true
    · have hflush := hi.requested hrun hterm
      simp only [hflush, Bool.true_or, if_true, hterm]
      refine hi.worked (m := none) rfl rfl rfl rfl (fun _ => ?_) ?_ (by simp [hterm]) ?_ ?_
      · simpa using hwritten
      · intro hs
        cases hs
      · intro hs
        cases hs
      · exact fun _ => ⟨rfl, rfl⟩
    · split <;> simp only [hterm] <;>
        refine hi.worked (m := none) rfl rfl rfl rfl (fun _ => by simpa using hwritten)
          (fun hs => absurd hs (hnot (by decide))) (by simp [hterm])
          (fun _ hs => absurd hs (by simp)) (fun hs => absurd hs (hnot (by decide)))
  · simp only [Helper.processNextMsg]
    split
    · refine hi.worked (m := some (.log txt)) rfl rfl rfl rfl (fun hs => absurd rfl hs)
        (fun _ => ⟨_, txt, rfl, hwritten⟩) (by simp) ?_ ?_ <;>
      · intro hs
        cases hs
    · refine hi.worked (m := some (.log txt)) rfl rfl rfl rfl (fun _ => ?_)
        (fun hs => absurd hs (hnot (by decide))) (by simp) hi.requested
        (fun hs => absurd hs (hnot (by decide)))
      rw [Option.toList_some, lines_append, lines_log, ← hwritten]
  · refine hi.worked (m := some .flush) rfl rfl rfl rfl (fun _ => ?_)
      (fun hs => absurd hs (hnot (by decide))) (by simp [Helper.processNextMsg]) (fun _ _ => rfl)
      (fun hs => absurd hs (hnot (by decide)))
    rw [Option.toList_some, lines_append, lines_flush, List.append_nil]
    exact hwritten
  · refine hi.worked (m := some .terminate) rfl rfl rfl rfl (fun _ => ?_)
      (fun hs => absurd hs (hnot (by decide))) (by simp [Helper.processNextMsg]) (fun _ _ => rfl)
      (fun hs => absurd hs (hnot (by decide)))
    rw [Option.toList_some, lines_append, lines_terminate, List.append_nil]
    exact hwritten

lemma Inv.step (hi : Inv w policy h) (hs : Steps w policy h h') : Inv w policy h' := by
  cases hs with
  | stay => exact hi
  | @push t m ht hnone =>
    refine { hi with pusher := ?_, pushed := ?_ }
    · intro u hu c hc
      obtain ⟨m', hm, hp⟩ := hi.pusher u hu c hc
      refine ⟨m', hm, ?_⟩
      rcases eq_or_ne u t with rfl | hut
      · rw [hnone] at hp
        cases hp
      · rw [← hp]
        exact Function.update_of_ne hut ..
    · intro hp u
      have hu := hi.pushed hp u
      rw [Channel.itemsOf_append, hu]
      rcases eq_or_ne u t with rfl | hut
      · simp [hnone, Channel.itemsOf]
      · simp [hut, hut.symm, Channel.itemsOf]
  | take hidle hrun =>
    apply hi.call (fun _ => rfl) (fun _ => rfl)
    · intro u hu c hc
      rw [Queue.setPc_pc_of_ne _ _ hu] at hc
      exact hi.pusher u hu c hc
    · intro c hc
      rw [Queue.setPc_pc] at hc
      exact ⟨(Option.some.inj hc).symm, hrun⟩
  | @put t m htw hidle hm =>
    apply hi.call (fun _ => rfl) (fun _ => rfl)
    · intro u hu c hc
      rcases eq_or_ne u t with rfl | hut
      · rw [Queue.setPc_pc] at hc
        exact ⟨m, (Option.some.inj hc).symm, hm⟩
      · rw [Queue.setPc_pc_of_ne _ _ hut] at hc
        exact hi.pusher u hu c hc
    · intro c hc
      rw [Queue.setPc_pc_of_ne _ _ htw.symm] at hc
      exact hi.worker c hc
  | @silent t q hcall hother =>
    have hsame : ∀ u, (q.pc u).call = (h.q.pc u).call := by
      intro u
      rcases eq_or_ne u t with rfl | hut
      · exact hcall
      · rw [hother u hut]
    have := @Inv.call _ _ _ _ _ hi q [] (fun _ => rfl) (fun _ => rfl)
      (fun u hu c hc => hi.pusher u hu c (by rw [← hsame, hc]))
      (fun c hc => hi.worker c (by rw [← hsame, hc]))
    simpa using this
  | @ret t o expired fails ho =>
    cases o with
    | put v ok => exact hi.put ho
    | take m => exact hi.take expired fails ho

lemma inv_run (acts : List (Act θ)) : Inv w policy (Helper.run N w policy acts) := by
  unfold Helper.run
  induction acts using List.reverseRecOn with
  | nil => exact inv_init
  | append_singleton acts act ih =>
    rw [List.foldl_append]
    exact ih.step (steps_step N w policy _ act)

/-! ### The queue of a helper -/

lemma returned_frame (o : Option (Event θ Msg)) (expired fails : Bool) :
    (h.returned policy expired fails o).q = h.q ∧
      (h.returned policy expired fails o).events = h.events ∧
      (h.returned policy expired fails o).pushed = h.pushed := by
  unfold Helper.returned
  split
  · unfold Helper.pushMsg
    split <;> exact ⟨rfl, rfl, rfl⟩
  · rename_i m
    rcases m with _ | txt | _ | _
    · simp only [Helper.processNextMsg, Helper.handleFlushInterval]
      split <;> split <;> exact ⟨rfl, rfl, rfl⟩
    · simp only [Helper.processNextMsg]
      split <;> exact ⟨rfl, rfl, rfl⟩
    · exact ⟨rfl, rfl, rfl⟩
    · exact ⟨rfl, rfl, rfl⟩
  · exact ⟨rfl, rfl, rfl⟩

lemma pushed_run (t : θ) (spurious expired fails : Bool) :
    (h.step N w policy (.run t spurious expired fails)).pushed = h.pushed := by
  simp only [Helper.step]
  split
  · rfl
  · exact (returned_frame _ _ _).2.2

lemma sim_step {n : ℕ} {a : Channel θ Msg} (hs : Sim N n h.q a) (hn : n + N.val < 2 ^ 63)
    (act : Act θ) : ∃ a' es, Trace (Channel.Step N.val) a es a' ∧
      (h.step N w policy act).events = h.events ++ es ∧
      Sim N (n + 1) (h.step N w policy act).q a' := by
  have hstay : ∃ a' es, Trace (Channel.Step N.val) a es a' ∧ h.events = h.events ++ es ∧
      Sim N (n + 1) h.q a' := ⟨a, [], .nil, by simp, hs.mono⟩
  cases act with
  | push t m =>
    simp only [Helper.step]
    split <;> exact hstay
  | run t spurious expired fails =>
    simp only [Helper.step]
    split
    · exact hstay
    · rename_i x _
      obtain ⟨a', htrace, hs'⟩ := hs.next hn (t, x)
      rw [(returned_frame _ _ _).1, (returned_frame _ _ _).2.1]
      exact ⟨a', _, htrace, rfl, hs'⟩

lemma sim_run {n : ℕ} {a : Channel θ Msg} (hs : Sim N n h.q a) (acts : List (Act θ))
    (hn : n + acts.length + N.val ≤ 2 ^ 63) : ∃ a' es, Trace (Channel.Step N.val) a es a' ∧
      (acts.foldl (Helper.step N w policy) h).events = h.events ++ es ∧
      Sim N (n + acts.length) (acts.foldl (Helper.step N w policy) h).q a' := by
  induction acts generalizing h n a with
  | nil => exact ⟨a, [], .nil, by simp, hs⟩
  | cons act acts ih =>
    rw [List.length_cons] at hn
    obtain ⟨a', es, htrace, hev, hs'⟩ := @sim_step _ _ N w policy h _ _ hs (by omega) act
    obtain ⟨a'', es', htrace', hev', hs''⟩ := ih hs' (by omega)
    refine ⟨a'', es ++ es', htrace.append htrace', ?_, ?_⟩
    · rw [List.foldl_cons, hev', hev, List.append_assoc]
    · rw [List.length_cons, Nat.add_comm acts.length, ← Nat.add_assoc]
      exact hs''

/-- A helper, the channel its queue stands for, and the books of the channel. -/
structure Linked (N : Size) (w : θ) (h : Helper θ) (n : ℕ) (a : Channel θ Msg) : Prop where
  inv : Inv w .blockRetry h
  sim : Sim N n h.q a
  books : Channel.Books N.val h.events a

variable {n : ℕ} {a : Channel θ Msg}

/-- What a thread has had accepted is what it has pushed, but for a message in progress. -/
lemma Linked.accepted (hl : Linked N w h n a) (t : θ) :
    Channel.itemsOf t a.accepted <+: Channel.itemsOf t h.pushed ∧
      (Channel.itemsOf t h.pushed).length ≤ (Channel.itemsOf t a.accepted).length + 1 ∧
      (h.pushing t = none → Channel.itemsOf t a.accepted = Channel.itemsOf t h.pushed) := by
  have hput := hl.books.put t
  have hpushed := hl.inv.pushed rfl t
  obtain ⟨hsend, ⟨hlen, -⟩, -⟩ := (hl.sim.threads t).phase
  have hin : ∀ v ∈ Channel.sending (a.phase t), h.pushing t = some v := by
    intro v hv
    have hcall := hsend v hv
    rcases eq_or_ne t w with rfl | htw
    · have := (hl.inv.worker _ hcall).1
      cases this
    · obtain ⟨m, hm, hp⟩ := hl.inv.pusher t htw _ hcall
      cases hm
      exact hp
  rw [hput, hpushed]
  rcases hs : Channel.sending (a.phase t) with _ | ⟨v, _ | _⟩
  · refine ⟨by simp, ?_, fun hnone => by simp [hnone]⟩
    cases h.pushing t <;> simp
  · have hv := hin v (by simp [hs])
    simp [hv]
  · rw [hs] at hlen
    simp at hlen

/-- The channel has handed out to the worker what it has received, and perhaps one message more. -/
lemma Linked.received (hl : Linked N w h n a) :
    Channel.received w h.events <+: a.accepted.map Prod.snd ∧
      a.accepted.length ≤ (Channel.received w h.events).length + N.val + 1 := by
  have hone : Channel.itemsOf w a.taken = a.taken.map Prod.snd := by
    apply Channel.itemsOf_eq_map
    intro t htw
    rw [hl.books.took t, hl.inv.taker t htw, List.nil_append]
    by_contra hne
    have hcall := (hl.sim.threads t).phase.2.2 hne
    obtain ⟨m, hm, -⟩ := hl.inv.pusher t htw _ hcall
    cases hm
  have htook := hl.books.took w
  rw [hone] at htook
  have hcons := hl.books.conserved
  rw [htook, List.append_assoc] at hcons
  refine ⟨⟨_, hcons.symm⟩, ?_⟩
  have hlen := congrArg List.length hcons
  have hrecv := (hl.sim.threads w).phase.2.1.2
  have hbound := hl.books.bounded
  simp only [List.length_map, List.length_append] at hlen
  omega

/-- The worker has written the first of the log messages that were accepted, and lags behind by no
more than the queue holds, unless a write has failed. -/
lemma Linked.written (hl : Linked N w h n a) :
    h.written <+: lines (a.accepted.map Prod.snd) ∧ (h.status ≠ .failed →
      (lines (a.accepted.map Prod.snd)).length ≤ h.written.length + N.val + 1) := by
  obtain ⟨⟨rest, hrest⟩, hlen⟩ := hl.received
  constructor
  · rw [← hrest, lines_append]
    by_cases hf : h.status = .failed
    · obtain ⟨ms, txt, hms, hw⟩ := hl.inv.failed hf
      rw [hms, hw, lines_append, List.append_assoc]
      exact List.prefix_append _ _
    · rw [hl.inv.written hf]
      exact List.prefix_append _ _
  · intro hf
    have hle : (lines rest).length ≤ rest.length := List.length_filterMap_le _ _
    have htotal := congrArg List.length hrest
    rw [List.length_append, List.length_map] at htotal
    rw [← hrest, lines_append, List.length_append, hl.inv.written hf]
    omega

lemma linked_run (acts : List (Act θ)) (hn : acts.length + N.val ≤ 2 ^ 63) :
    ∃ a, Linked N w (Helper.run N w .blockRetry acts) acts.length a := by
  obtain ⟨a, es, htrace, hev, hs⟩ := @sim_run _ _ N w .blockRetry {} 0 {} (sim_construct N) acts
    (by omega)
  have hev : (Helper.run N w .blockRetry acts).events = es := hev.trans (List.nil_append es)
  rw [Nat.zero_add] at hs
  exact ⟨a, inv_run acts, hs, hev ▸ Channel.books_of_trace htrace⟩

end Inv

/-! ### What is logged is written -/

section Results

variable [DecidableEq θ] (N : Size) (w : θ)

/-- **Messages are written in order.** Whatever the threads of the program do, there is an order
of what they have pushed, in which each thread's messages come as it pushed them and only the one
whose `push_msg` has not returned may be missing, such that the worker has written the first of the
log messages in this order, each once. It lags behind by no more than the queue holds, unless a
write has failed. -/
theorem async_log_in_order (acts : List (Act θ)) (hn : acts.length + N.val ≤ 2 ^ 63) :
    ∃ accepted : List (θ × Msg),
      (∀ t, Channel.itemsOf t accepted <+:
          Channel.itemsOf t (Helper.run N w .blockRetry acts).pushed ∧
        (Channel.itemsOf t (Helper.run N w .blockRetry acts).pushed).length ≤
          (Channel.itemsOf t accepted).length + 1 ∧
        ((Helper.run N w .blockRetry acts).pushing t = none →
          Channel.itemsOf t accepted =
            Channel.itemsOf t (Helper.run N w .blockRetry acts).pushed)) ∧
      (Helper.run N w .blockRetry acts).written <+: lines (accepted.map Prod.snd) ∧
      ((Helper.run N w .blockRetry acts).status ≠ .failed →
        (lines (accepted.map Prod.snd)).length ≤
          (Helper.run N w .blockRetry acts).written.length + N.val + 1) := by
  obtain ⟨a, hl⟩ := @linked_run _ _ N w acts hn
  exact ⟨a.accepted, hl.accepted, hl.written⟩

/-- A thread pushes a message without being disturbed. -/
def pushAlone (m : Msg) : List (Act Bool) :=
  .push false m :: List.replicate 7 (.run false false false false)

/-- The worker takes `n` accesses without being disturbed. -/
def workAlone (n : ℕ) : List (Act Bool) := List.replicate n (.run true false false false)

theorem async_log_in_order_hello :
    (Helper.run ⟨2, le_rfl, rfl⟩ true .blockRetry
        (pushAlone (.log [104]) ++ workAlone 7)).written = [[104, 10]] ∧
      ∃ accepted : List (Bool × Msg),
        (Helper.run ⟨2, le_rfl, rfl⟩ true .blockRetry
          (pushAlone (.log [104]) ++ workAlone 7)).written <+: lines (accepted.map Prod.snd) := by
  refine ⟨by decide +kernel, ?_⟩
  obtain ⟨accepted, -, hpre, -⟩ := async_log_in_order ⟨2, le_rfl, rfl⟩ true
    (pushAlone (.log [104]) ++ workAlone 7) (by decide)
  exact ⟨accepted, hpre⟩

/-- **Nothing is lost on termination.** When the worker has left its loop, it has written, in the
order of the queue, every log message whose `push_msg` had returned before the termination was
pushed, and all it has written has been flushed. -/
theorem async_log_drained (before rest : List (Act θ))
    (hn : before.length + rest.length + N.val ≤ 2 ^ 63)
    (hnone : ∀ t, (t, .terminate) ∉ (Helper.run N w .blockRetry before).pushed)
    (hexit : (Helper.run N w .blockRetry (before ++ rest)).status = .exited) :
    ∃ accepted : List (θ × Msg),
      (∀ t, (Helper.run N w .blockRetry before).pushing t = none →
        Channel.itemsOf t accepted =
          Channel.itemsOf t (Helper.run N w .blockRetry before).pushed) ∧
      lines (accepted.map Prod.snd) <+: (Helper.run N w .blockRetry (before ++ rest)).written ∧
      (Helper.run N w .blockRetry (before ++ rest)).flushed =
        (Helper.run N w .blockRetry (before ++ rest)).written.length := by
  obtain ⟨a₀, es₀, htrace₀, hev₀, hs₀⟩ := @sim_run _ _ N w .blockRetry {} 0 {} (sim_construct N)
    before (by omega)
  obtain ⟨a, es, htrace, hev, hs⟩ := @sim_run _ _ N w .blockRetry _ _ _ hs₀ rest (by omega)
  rw [← List.foldl_append] at hev hs
  have hev₀ : (Helper.run N w .blockRetry before).events = es₀ := hev₀.trans (List.nil_append es₀)
  have hev : (Helper.run N w .blockRetry (before ++ rest)).events = es₀ ++ es :=
    hev.trans (congrArg (· ++ es) hev₀)
  have hl₀ : Linked N w (Helper.run N w .blockRetry before) _ a₀ :=
    ⟨inv_run before, hs₀, hev₀ ▸ Channel.books_of_trace htrace₀⟩
  have hl : Linked N w (Helper.run N w .blockRetry (before ++ rest)) _ a :=
    ⟨inv_run _, hs, hev ▸ Channel.books_of_trace (htrace₀.append htrace)⟩
  obtain ⟨hterm, hflushed⟩ := hl.inv.flushed hexit
  refine ⟨a₀.accepted, fun t ht => (hl₀.accepted t).2.2 ht, ?_, hflushed⟩
  rw [hl.inv.written (by rw [hexit]; decide)]
  -- the worker has received the termination, which is behind all that was accepted before it
  have hpre : a₀.accepted.map Prod.snd <+: a.accepted.map Prod.snd :=
    (Channel.accepted_prefix_of_trace htrace).map Prod.snd
  have hbefore : a₀.accepted.map Prod.snd <+:
      Channel.received w (Helper.run N w .blockRetry (before ++ rest)).events := by
    rcases List.prefix_or_prefix_of_prefix hpre hl.received.1 with hp | hp
    · exact hp
    · obtain ⟨⟨t, m⟩, hmem, rfl⟩ :=
        List.mem_map.mp (hp.subset (hl.inv.terminated.mp hterm))
      have := (hl₀.accepted t).1.subset (Channel.mem_itemsOf.mpr hmem)
      exact absurd (Channel.mem_itemsOf.mp this) (hnone t)
  obtain ⟨more, hmore⟩ := hbefore
  rw [← hmore, lines_append]
  exact List.prefix_append _ _

theorem async_log_drained_hello :
    (Helper.run ⟨2, le_rfl, rfl⟩ true .blockRetry
        (pushAlone (.log [104]) ++ (pushAlone .terminate ++ workAlone 18))).status = .exited ∧
      ∃ accepted : List (Bool × Msg),
        lines (accepted.map Prod.snd) <+: (Helper.run ⟨2, le_rfl, rfl⟩ true .blockRetry
          (pushAlone (.log [104]) ++ (pushAlone .terminate ++ workAlone 18))).written := by
  have hexit : (Helper.run ⟨2, le_rfl, rfl⟩ true .blockRetry
      (pushAlone (.log [104]) ++ (pushAlone .terminate ++ workAlone 18))).status = .exited := by
    decide +kernel
  have hnone : ∀ t, (t, Msg.terminate) ∉ (Helper.run ⟨2, le_rfl, rfl⟩ true .blockRetry
      (pushAlone (.log [104]))).pushed := by
    decide +kernel
  obtain ⟨accepted, -, hpre, -⟩ := async_log_drained ⟨2, le_rfl, rfl⟩ true
    (pushAlone (.log [104])) (pushAlone .terminate ++ workAlone 18) (by decide) hnone hexit
  exact ⟨hexit, accepted, hpre⟩

end Results

end NgxMapping.AsyncLog
