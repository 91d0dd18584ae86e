import NgxMapping.ClusterPipeline
import NgxMapping.RedisImport

/-!
The loaders of `scripts/redis` over a cluster.

`RedisImport` has one Redis that takes a pack at once. Here a pack is a pipeline over the nodes of
a cluster, which work while the client does, and each key is on the node of its slot. Seen key by
key at their nodes, the cluster is the one Redis, as long as no connection fails.
-/

namespace NgxMapping.ClusterImport

open Lib Resp RedisStrategy RedisCluster ClusterPipeline

abbrev World := NodeId → RedisImport.Redis

/-- `$redis->set($key, $value)`. -/
def setCommand (p : Bytes × Bytes) : Command := ⟨lit "SET", [p.1, p.2]⟩

structure Loader where
  system : System World
  perNum : ℕ := 0
  results : List Bool := []

section Load

variable (serve : Serve World) (command : Bytes → Option RedisImport.Command)
  (turns : ℕ → List Turn)

/-- Whether `execute` has returned and thrown nothing. -/
def returned (s : System World) : Bool :=
  s.thrown.isNone && s.toWrite.isEmpty && s.commands.isEmpty

/-- A call of `execute`, in which the client and the nodes take the turns given for it. -/
def flush (s : Loader) : Loader :=
  let system := after (System.next serve) s.system.execute (turns s.results.length)
  { s with system := system, results := s.results ++ [returned system] }

/-- The body of the loop. After a success the queue is empty, as that of a new pipeline is. -/
def readLine (s : Loader) (line : Bytes) : Loader :=
  match command line with
  | none => s
  | some c =>
    let s := { s with
      system := { s.system with commands := s.system.commands ++ [setCommand c] }
      perNum := s.perNum + 1 }
    if 0 < s.perNum ∧ s.perNum % RedisImport.PACK_NUM = 0 then
      { flush serve turns s with perNum := 0 }
    else s

/-- What is left in the queue after the loop. -/
def finish (s : Loader) : Loader := if 0 < s.perNum then flush serve turns s else s

/-- `none` if the write of `initRedis` throws, as it also does for an error response. -/
def startReadLogToRedis (config : List NodeId) (w : World) (input : Bytes) : Option Loader :=
  match executeCommand serve 2 w (client config) firstWrite with
  | none | some (.error _, _, _) => none
  | some (_, cluster, world) =>
    some (finish serve turns ((RedisImport.inputLines input.length input).foldl
      (readLine serve command turns) { system := { world, cluster, commands := [] } }))

end Load

/-! ### The cluster as one store -/

/-- Every key, where its slot is. -/
def view (owner : ℕ → NodeId) (w : World) : RedisImport.Redis := fun k =>
  w (owner (getSlotByKey k)) k

/-- Nodes at rest that store what they are sent. -/
structure Stores (serve : Serve World) (owner : ℕ → NodeId) : Prop extends AtRest serve owner where
  set : ∀ w p, serve w (owner (getSlotByKey p.1)) (setCommand p) = (.status (lit "OK"),
    Function.update w (owner (getSlotByKey p.1)) (replay (w (owner (getSlotByKey p.1))) [p]))
  sendable : ∀ w id c, (serve w id c).1.Sendable

lemma getSlot_setCommand (p : Bytes × Bytes) :
    getSlot (setCommand p) = some (getSlotByKey p.1) := by
  have hlookup : getDefaultCommands.lookup (lit "SET") = some .firstArgument := by decide +kernel
  rw [getSlot, setCommand]
  simp only [hlookup]
  rfl

/-- Every slot has its own node, now and after every command. -/
def Right (owner : ℕ → NodeId) (st : Cluster) : Prop :=
  Settled owner st ∨ ∃ pool, pool ≠ [] ∧ Guessing pool st ∧
    ∀ t < 16384, Cluster.guessed pool t = owner t

section Right

variable {owner : ℕ → NodeId} {st : Cluster}

lemma Right.getConnection (h : Right owner st) {c : Command} {t : ℕ} (hc : getSlot c = some t) :
    ∃ st', st.getConnection c = some (owner t, st') ∧ Right owner st' := by
  have hlt := getSlot_lt hc
  rw [Cluster.getConnection, hc, Option.map_some]
  rcases h with h | ⟨pool, hne, h, hguess⟩
  · obtain ⟨st', hst', h'⟩ := h.getConnectionBySlot hlt
    exact ⟨st', by rw [hst'], .inl h'⟩
  · obtain ⟨st', hst', h'⟩ := h.getConnectionBySlot hne t
    exact ⟨st', by rw [hst', hguess t hlt], .inr ⟨pool, hne, h', hguess⟩⟩

lemma Right.route (h : Right owner st) {c : Command} {id : NodeId} (hc : route st c = some id) :
    ∃ t, getSlot c = some t ∧ id = owner t := by
  obtain ⟨t, ht, hid⟩ := Option.bind_eq_some_iff.mp hc
  refine ⟨t, ht, ?_⟩
  rcases h with h | ⟨pool, -, h, hguess⟩
  · exact h.cached t (getSlot_lt ht) id hid
  · rw [h.cached t id hid, hguess t (getSlot_lt ht)]

end Right

/-! ### A pipeline -/

section Frame

variable {σ : Type} {s : System σ}

/-- What a client that goes on leaves alone: the nodes, and of the cluster all but what a command
changes. -/
def Frame (s s' : System σ) : Prop :=
  s'.world = s.world ∧ s'.stale = s.stale ∧
    (s'.cluster = s.cluster ∨ ∃ c id, s.cluster.getConnection c = some (id, s'.cluster))

lemma write_frame (c : Command) (rest : List Command) (h : (s.write c rest).thrown = none) :
    Frame s (s.write c rest) := by
  unfold System.write at h ⊢
  rcases hg : s.cluster.getConnection c with _ | ⟨id, st⟩
  · rw [hg] at h
    cases h
  · exact ⟨rfl, rfl, .inr ⟨c, id, hg⟩⟩

lemma readResponse_frame (fread : List ℕ) (c : Command) (rest : List Command)
    (h : (s.readResponse fread c rest).thrown = none) : Frame s (s.readResponse fread c rest) := by
  unfold System.readResponse at h ⊢
  rcases hg : s.cluster.getConnection c with _ | ⟨id, st⟩
  · rw [hg] at h
    cases h
  · simp only [hg] at h ⊢
    by_cases hout : s.outbox id = []
    · rw [if_pos hout]
      exact ⟨rfl, rfl, .inl rfl⟩
    · rw [if_neg hout] at h ⊢
      rcases hr : Resp.read ⟨s.outbox id, fread⟩ with failure | ⟨r, socket⟩
      · simp only [hr] at h
        cases h
      · simp only [hr] at h ⊢
        cases r with
        | error message => cases h
        | _ => exact ⟨rfl, rfl, .inr ⟨c, id, hg⟩⟩

lemma client_frame (fread : List ℕ) (h : (s.client fread).thrown = none) :
    Frame s (s.client fread) := by
  unfold System.client at h ⊢
  rcases ht : s.thrown with _ | e
  · rcases hw : s.toWrite with _ | ⟨c, rest⟩
    · rcases hc : s.commands with _ | ⟨c, rest⟩
      · exact ⟨rfl, rfl, .inl rfl⟩
      · simp only [ht, hw, hc] at h
        exact readResponse_frame fread c rest h
    · simp only [ht, hw] at h
      exact write_frame c rest h
  · exact ⟨rfl, rfl, .inl rfl⟩

lemma lost_frame (h : s.lost.thrown = none) : s.lost = s := by
  have hlose : ∀ c rest message, (s.lose c rest message).thrown ≠ none := by
    intro c rest message
    unfold System.lose
    split <;> simp [System.throw]
  unfold System.lost at h ⊢
  split at h
  · rfl
  · exact absurd h (hlose _ _ _)
  · exact absurd h (hlose _ _ _)
  · rfl

end Frame

/-- The pair a `SET` writes. -/
def pairOf (c : Command) : Bytes × Bytes := (c.arguments.getD 0 [], c.arguments.getD 1 [])

lemma pairOf_setCommand (p : Bytes × Bytes) : pairOf (setCommand p) = p := rfl

/-- The client is at work on a pack, and every node holds what it has carried out. -/
structure Importing (owner : ℕ → NodeId) (w0 : World) (cs : List Command)
    (es : List (NodeId × Command × Response)) (s : System World) (written : List Command)
    (answered : List (Command × Response)) : Prop extends Running cs es s written answered where
  right : Right owner s.cluster
  fresh : ∀ id, s.stale id = []
  stored : ∀ id, s.world id = replay (w0 id) ((executed id es).map fun a => pairOf a.1)

section Import

variable {serve : Serve World} {owner : ℕ → NodeId} {w0 : World} {cs : List Command}
  {es : List (NodeId × Command × Response)} {s : System World} {written : List Command}
  {answered : List (Command × Response)} {ps : List (Bytes × Bytes)}

lemma Importing.of_frame (h : Importing owner w0 cs es s written answered) {s' : System World}
    (hs : Frame s s') {written' : List Command} {answered' : List (Command × Response)}
    (h' : Running cs es s' written' answered') :
    Importing owner w0 cs es s' written' answered' where
  toRunning := h'
  right := by
    obtain ⟨-, -, hst | ⟨c, id, hst⟩⟩ := hs
    · exact hst ▸ h.right
    · obtain ⟨t, ht, -⟩ := Option.map_eq_some_iff.mp hst
      obtain ⟨st', hst', hright⟩ := h.right.getConnection ht
      rw [hst, Option.some.injEq, Prod.mk.injEq] at hst'
      exact hst'.2 ▸ hright
  fresh := hs.2.1 ▸ h.fresh
  stored := hs.1 ▸ h.stored

lemma Importing.node (hserve : Stores serve owner) (hps : cs = ps.map setCommand)
    (h : Importing owner w0 cs es s written answered) (id : NodeId) :
    Importing owner w0 cs (es ++ (s.node serve id).2.toList) (s.node serve id).1 written
      answered := by
  have hrun := h.toRunning.node hserve.sendable id
  rcases hr : readRequest (s.inbox id) with _ | ⟨c, rest⟩
  · rw [node_idle hr, Option.toList_none, List.append_nil]
    exact h
  · -- the request is a command of the pack that was written to this node
    obtain ⟨hmem, hroute⟩ : c ∈ written ∧ route s.cluster c = some id := by
      obtain ⟨unread, waiting, -, hw, -, hi⟩ := h.books id
      rcases waiting with _ | ⟨c', waiting⟩
      · rw [hi] at hr
        cases hr
      · rw [hi, List.flatMap_cons, readRequest_inverts, Option.some.injEq, Prod.mk.injEq] at hr
        have hc' : c' ∈ written.filter (mine s.cluster id) := by simp [hw]
        rw [hr.1, List.mem_filter] at hc'
        exact ⟨hc'.1, of_decide_eq_true hc'.2⟩
    obtain ⟨p, -, rfl⟩ : ∃ p ∈ ps, setCommand p = c := by
      have : c ∈ cs := by rw [h.writes]; exact List.mem_append_left _ hmem
      rw [hps] at this
      exact List.mem_map.mp this
    obtain ⟨t, ht, rfl⟩ := h.right.route hroute
    rw [getSlot_setCommand, Option.some.injEq] at ht
    subst ht
    have hset := hserve.set s.world p
    rw [node_eq hr hset] at hrun ⊢
    refine ⟨hrun, h.right, h.fresh, ?_⟩
    intro i
    rw [executed_append, List.map_append, replay_append, ← h.stored i]
    rcases eq_or_ne i (owner (getSlotByKey p.1)) with rfl | hi
    · change Function.update s.world _ _ _ = _
      rw [Function.update_self]
      simp [executed, pairOf_setCommand]
    · change Function.update s.world _ _ _ = _
      rw [Function.update_of_ne hi]
      simp [executed, hi.symm]

lemma thrown_next (h : s.thrown.isSome) (x : Turn) : (s.next serve x).1.thrown.isSome := by
  obtain ⟨e, he⟩ := Option.isSome_iff_exists.mp h
  cases x with
  | client fread => simp [System.next, System.client, he]
  | lost => simp [System.next, System.lost, he]
  | node id =>
    change ((s.node serve id).1).thrown.isSome
    unfold System.node
    split <;> exact h
  | stale id =>
    change (s.late serve id).thrown.isSome
    unfold System.late
    split <;> exact h

/-- What holds of a pack after any number of steps. -/
def Sound (owner : ℕ → NodeId) (w0 : World) (cs : List Command)
    (es : List (NodeId × Command × Response)) (s : System World) : Prop :=
  s.thrown = none → ∃ written answered, Importing owner w0 cs es s written answered

lemma Sound.next (hserve : Stores serve owner) (hps : cs = ps.map setCommand)
    (h : Sound owner w0 cs es s) (x : Turn) :
    Sound owner w0 cs (es ++ (s.next serve x).2.toList) (s.next serve x).1 := by
  intro halive
  have hs : s.thrown = none := by
    rw [← Option.not_isSome_iff_eq_none]
    intro hsome
    have hnext : (s.next serve x).1.thrown.isSome := thrown_next hsome x
    rw [halive] at hnext
    cases hnext
  obtain ⟨written, answered, h⟩ := h hs
  cases x with
  | client fread =>
    rw [System.next, Option.toList_none, List.append_nil]
    rcases h.client fread with ⟨written', answered', h'⟩ | ⟨e, answered', h'⟩
    · exact ⟨written', answered', h.of_frame (client_frame fread h'.alive) h'⟩
    · have := h'.thrown.symm.trans halive
      cases this
  | lost =>
    rw [System.next, Option.toList_none, List.append_nil, lost_frame halive]
    exact ⟨written, answered, h⟩
  | node id => exact ⟨written, answered, h.node hserve hps id⟩
  | stale id =>
    rw [System.next, Option.toList_none, List.append_nil, System.late, h.fresh id]
    exact ⟨written, answered, h⟩

/-- **A pack is one.** Once the client has all replies, the keys are as if the pack had been written
to one Redis. -/
lemma view_finished (hserve : Stores serve owner) (hclean : s.Clean) (hpool : Pooled s.cluster)
    (hfresh : ∀ id, s.stale id = []) (hright : Right owner s.cluster)
    (hps : s.commands = ps.map setCommand) (turns : List Turn)
    (hend : (after (System.next serve) s.execute turns).Finished) :
    view owner (after (System.next serve) s.execute turns).world =
        replay (view owner s.world) ps ∧
      (after (System.next serve) s.execute turns).Clean ∧
      Pooled (after (System.next serve) s.execute turns).cluster ∧
      (∀ id, (after (System.next serve) s.execute turns).stale id = []) ∧
      Right owner (after (System.next serve) s.execute turns).cluster := by
  have h0 : Sound owner s.world s.commands [] s.execute := fun _ =>
    ⟨[], [], running_execute hclean hpool, hright, hfresh, fun _ => rfl⟩
  have h := shown_invariant (fun es s' x (h : Sound owner s.world s.commands es s') =>
    h.next hserve hps x) h0 turns
  rw [List.nil_append] at h
  generalize after (System.next serve) s.execute turns = s' at h hend ⊢
  generalize shown (System.next serve) s.execute turns = es at h
  obtain ⟨written, answered, h⟩ := h hend.1
  have hwr : written = s.commands := by rw [h.writes, hend.2.1, List.append_nil]
  have hans : answered.map Prod.fst = s.commands := by rw [h.reads, hend.2.2, List.append_nil]
  refine ⟨?_, fun id => ((h.books id).settled (hwr.trans hans.symm)).2, h.pooled, h.fresh,
    h.right⟩
  funext k
  obtain ⟨hdone, -⟩ := (h.books (owner (getSlotByKey k))).settled (hwr.trans hans.symm)
  -- the writes at the node of the key are those of the pack that belong there
  have hwrites : (executed (owner (getSlotByKey k)) es).map (fun a => pairOf a.1) =
      ps.filter fun p => owner (getSlotByKey p.1) = owner (getSlotByKey k) := by
    have hmap : (answered.filter fun a => mine s'.cluster (owner (getSlotByKey k)) a.1).map
          (fun a => pairOf a.1) =
        ((answered.map Prod.fst).filter (mine s'.cluster (owner (getSlotByKey k)))).map pairOf := by
      rw [List.filter_map, List.map_map]
      rfl
    have hmine : ∀ p ∈ ps, mine s'.cluster (owner (getSlotByKey k)) (setCommand p) =
        decide (owner (getSlotByKey p.1) = owner (getSlotByKey k)) := by
      intro p hp
      obtain ⟨id, hid⟩ := Option.isSome_iff_exists.mp
        (h.routes (setCommand p) (by rw [hwr, hps]; exact List.mem_map_of_mem hp))
      obtain ⟨t, ht, rfl⟩ := h.right.route hid
      rw [getSlot_setCommand, Option.some.injEq] at ht
      simp [mine, hid, ht]
    rw [hdone, hmap, hans, hps, List.filter_map, List.map_map]
    have hid : pairOf ∘ setCommand = id := rfl
    rw [hid, List.map_id]
    exact List.filter_congr hmine
  change s'.world (owner (getSlotByKey k)) k = _
  rw [h.stored, hwrites]
  exact replay_filter ps
    (p := fun key => decide (owner (getSlotByKey key) = owner (getSlotByKey k)))
    (by simp) rfl

end Import

/-! ### The loader -/

section Pooled

variable {σ : Type} {serve : Serve σ}

lemma setRows_frame {id : NodeId} {rows : List Response} {st st' : Cluster}
    (h : setRows id rows st = some st') : st'.slots = st.slots ∧ st'.pool = st.pool := by
  induction rows generalizing st with
  | nil =>
    obtain rfl := Option.some.inj h
    exact ⟨rfl, rfl⟩
  | cons r rows ih =>
    simp only [setRows, Option.bind_eq_bind, Option.bind_eq_some_iff] at h
    obtain ⟨⟨start, stop, host, port⟩, -, st1, hset, hrest⟩ := h
    have hframe : st1.slots = st.slots ∧ st1.pool = st.pool := by
      unfold Cluster.setSlots at hset
      split at hset
      · cases hset
      · obtain rfl := Option.some.inj hset
        exact ⟨rfl, rfl⟩
    exact ⟨(ih hrest).1.trans hframe.1, (ih hrest).2.trans hframe.2⟩

lemma pooled_move {st : Cluster} (h : Pooled st) (id : NodeId) (slot : ℤ) :
    Pooled (st.move id slot) := by
  intro t i hi
  change Function.update (st.setPool id).slots slot (some id) t = some i at hi
  by_cases ht : t = slot
  · rw [ht, Function.update_self, Option.some.injEq] at hi
    exact hi ▸ mem_setPool st id
  · rw [Function.update_of_ne ht] at hi
    exact setPool_subset st id (h t i hi)

lemma executeCommand_pooled {n : ℕ} {w w' : σ} {st st' : Cluster} {c : Command} {r : Response}
    (h : executeCommand serve n w st c = some (r, st', w')) (hp : Pooled st) : Pooled st' := by
  induction n generalizing w st with
  | zero => cases h
  | succ n ih =>
    rw [executeCommand] at h
    simp only [Option.bind_eq_bind, Option.bind_eq_some_iff] at h
    obtain ⟨⟨id, st1⟩, hget, h⟩ := h
    have hp1 : Pooled st1 := (getConnection_spec hget).2.2 hp
    rcases hs : serve w id c with ⟨r1, w1⟩
    simp only [hs] at h
    cases r1 with
    | error message =>
      simp only at h
      split at h
      · simp only [Option.bind_eq_some_iff] at h
        obtain ⟨⟨st2, w2⟩, hask, h⟩ := h
        refine ih h (pooled_move ?_ _ _)
        unfold askSlotsMap at hask
        split at hask
        · obtain ⟨st3, hrows, heq⟩ := Option.map_eq_some_iff.mp hask
          rw [Prod.mk.injEq] at heq
          obtain ⟨hslots, hpool⟩ := setRows_frame hrows
          intro t i hi
          rw [← heq.1, hpool]
          rw [← heq.1, hslots] at hi
          exact hp1 t i hi
        · cases hask
          exact hp1
      · split at h
        · rw [Option.pure_def, Option.some.injEq, Prod.mk.injEq, Prod.mk.injEq] at h
          exact h.2.1 ▸ hp1
        · rw [Option.pure_def, Option.some.injEq, Prod.mk.injEq, Prod.mk.injEq] at h
          exact h.2.1 ▸ hp1
    | _ =>
      simp only [Option.pure_def, Option.some.injEq, Prod.mk.injEq] at h
      exact h.2.1 ▸ hp1

end Pooled

/-- The loader on the cluster and the loader on one Redis. -/
structure Sim (owner : ℕ → NodeId) (a : RedisImport.Loader) (s : Loader) : Prop where
  redis : view owner s.system.world = a.redis
  queue : s.system.commands = a.queue.map setCommand
  perNum : s.perNum = a.perNum
  results : s.results = a.results
  clean : s.system.Clean
  pooled : Pooled s.system.cluster
  fresh : ∀ id, s.system.stale id = []
  right : Right owner s.system.cluster

section Sim

variable {serve : Serve World} {owner : ℕ → NodeId} {command : Bytes → Option RedisImport.Command}
  {turns : ℕ → List Turn} {a : RedisImport.Loader} {s : Loader}

lemma returned_iff (s : System World) : returned s = true ↔ s.Finished := by
  simp [returned, System.Finished, and_assoc]

lemma Sim.flush (hserve : Stores serve owner) (h : Sim owner a s)
    (hok : ∀ ok ∈ (flush serve turns s).results, ok = true) :
    Sim owner (RedisImport.flush (fun _ => .ok) a) (flush serve turns s) ∧
      (RedisImport.flush (fun _ => .ok) a).queue = [] ∧
      (RedisImport.flush (fun _ => .ok) a).results.getLast? = some true := by
  have hret : returned (after (System.next serve) s.system.execute (turns s.results.length)) =
      true := hok _ (by simp [ClusterImport.flush])
  have hfin := (returned_iff _).mp hret
  obtain ⟨hview, hclean, hpool, hfresh, hright⟩ :=
    view_finished hserve h.clean h.pooled h.fresh h.right h.queue _ hfin
  have hflush : RedisImport.flush (fun _ => .ok) a = { a with
      redis := replay a.redis a.queue, queue := [], results := a.results ++ [true] } := by
    unfold RedisImport.flush RedisImport.execute
    by_cases hq : a.queue = []
    · simp [hq]
    · simp [hq]
  rw [hflush]
  refine ⟨⟨?_, ?_, h.perNum, ?_, hclean, hpool, hfresh, hright⟩, rfl, by simp⟩
  · rw [← h.redis]
    exact hview
  · exact hfin.2.2
  · change s.results ++ [_] = a.results ++ [true]
    rw [hret, h.results]

lemma Sim.readLine (hserve : Stores serve owner) (h : Sim owner a s) (line : Bytes)
    (hok : ∀ ok ∈ (readLine serve command turns s line).results, ok = true) :
    Sim owner (RedisImport.readLine command (fun _ => .ok) a line)
      (readLine serve command turns s line) := by
  unfold ClusterImport.readLine at hok ⊢
  unfold RedisImport.readLine
  rcases hc : command line with _ | c
  · exact h
  · simp only [hc] at hok ⊢
    have hqueue : Sim owner { a with queue := a.queue ++ [c], perNum := a.perNum + 1 } { s with
        system := { s.system with commands := s.system.commands ++ [setCommand c] }
        perNum := s.perNum + 1 } :=
      ⟨h.redis, by rw [List.map_append, ← h.queue]; rfl, congrArg (· + 1) h.perNum, h.results,
        h.clean, h.pooled, h.fresh, h.right⟩
    rw [h.perNum] at hok ⊢
    split at hok
    · rename_i hpack
      rw [if_pos hpack, if_pos hpack]
      rw [h.perNum] at hqueue
      obtain ⟨hsim, hnil, hlast⟩ := hqueue.flush hserve hok
      rw [if_pos hlast]
      exact ⟨hsim.redis, by rw [hsim.queue, hnil], rfl, hsim.results, hsim.clean, hsim.pooled,
        hsim.fresh, hsim.right⟩
    · rename_i hpack
      rw [if_neg hpack, if_neg hpack]
      rw [h.perNum] at hqueue
      exact hqueue

lemma results_readLine (line : Bytes) :
    s.results <+: (readLine serve command turns s line).results := by
  unfold ClusterImport.readLine
  split
  · exact List.prefix_rfl
  · dsimp only
    split
    · exact List.prefix_append _ _
    · exact List.prefix_rfl

lemma results_readLines (lines : List Bytes) :
    s.results <+: (lines.foldl (readLine serve command turns) s).results := by
  induction lines generalizing s with
  | nil => exact List.prefix_rfl
  | cons line lines ih => exact (results_readLine line).trans ih

lemma Sim.readLines (hserve : Stores serve owner) (h : Sim owner a s) (lines : List Bytes)
    (hok : ∀ ok ∈ (lines.foldl (ClusterImport.readLine serve command turns) s).results,
      ok = true) :
    Sim owner (lines.foldl (RedisImport.readLine command fun _ => .ok) a)
      (lines.foldl (ClusterImport.readLine serve command turns) s) := by
  induction lines generalizing a s with
  | nil => exact h
  | cons line lines ih =>
    rw [List.foldl_cons] at hok
    refine ih (h.readLine hserve line fun ok hmem => ?_) hok
    exact hok ok ((results_readLines lines).subset hmem)

lemma Sim.finish (hserve : Stores serve owner) (h : Sim owner a s)
    (hok : ∀ ok ∈ (finish serve turns s).results, ok = true) :
    Sim owner (RedisImport.finish (fun _ => .ok) a) (finish serve turns s) := by
  unfold ClusterImport.finish at hok ⊢
  unfold RedisImport.finish
  rw [h.perNum] at hok ⊢
  split at hok
  · rename_i hper
    rw [if_pos hper, if_pos hper]
    exact (h.flush hserve hok).1
  · rename_i hper
    rw [if_neg hper, if_neg hper]
    exact h

/-- **A cluster is imported into as one Redis is.** The nodes are at rest and store what they are
sent, and the first write of the loader makes it ask for the slots, or it guesses all of them right.
Then in every run in which no pipeline fails, whatever the turns of the client and the nodes, every
key is at its node what an import into one Redis would have made it. -/
theorem cluster_import (hserve : Stores serve owner) {config : List NodeId} (hne : config ≠ [])
    (hroute : Cluster.guessed (client config).pool (slotOf firstWrite) ≠ owner (slotOf firstWrite) ∨
      ∀ t < 16384, Cluster.guessed (client config).pool t = owner t)
    (command : Bytes → Option RedisImport.Command) (turns : ℕ → List Turn) (w : World)
    (input : Bytes) :
    ∃ s, startReadLogToRedis serve command turns config w input = some s ∧
      ((∀ ok ∈ s.results, ok = true) →
        view owner s.system.world =
            (RedisImport.startReadLogToRedis command (fun _ => .ok) (view owner w) input).redis ∧
          s.system.commands =
            (RedisImport.startReadLogToRedis command (fun _ => .ok) (view owner w)
              input).queue.map setCommand) := by
  have hfirst : getSlot firstWrite = some (slotOf firstWrite) :=
    getSlot_slotOf (by rw [show firstWrite = setCommand RedisImport.probe from rfl,
      getSlot_setCommand]; rfl)
  have hslot : slotOf firstWrite = getSlotByKey (lit "fuck") := by
    rw [slotOf, show firstWrite = setCommand RedisImport.probe from rfl, getSlot_setCommand]
    rfl
  obtain ⟨st, hexec, hst⟩ := executeCommand_first hserve.toAtRest hne hfirst 0 w
  obtain ⟨hpool, -, -⟩ := client_spec config hne
  have hok : (serve w (owner (slotOf firstWrite)) firstWrite).1 = .status (lit "OK") := by
    rw [hslot]
    exact congrArg Prod.fst (hserve.set w RedisImport.probe)
  refine ⟨_, by rw [startReadLogToRedis, hexec, hok], ?_⟩
  intro hok
  -- the first write is the only one so far
  have hview : view owner (serve w (owner (slotOf firstWrite)) firstWrite).2 =
      RedisImport.initRedis (view owner w) := by
    have hset := hserve.set w RedisImport.probe
    rw [hslot]
    change view owner (serve w (owner (getSlotByKey RedisImport.probe.1))
      (setCommand RedisImport.probe)).2 = _
    rw [hset]
    funext k
    change Function.update w _ _ (owner (getSlotByKey k)) k = replay (view owner w) _ k
    rw [Function.update_apply]
    split
    · rename_i hk
      change Function.update (w _) _ _ k = Function.update (view owner w) _ _ k
      rw [Function.update_apply, Function.update_apply, ← hk]
      rfl
    · rename_i hk
      rw [replay_frame]
      · rfl
      · simp only [List.map_cons, List.map_nil, List.mem_singleton]
        rintro rfl
        exact hk rfl
  have hright : Right owner st := by
    split at hst
    · rename_i hg
      exact .inr ⟨_, hpool, hst, hroute.resolve_left (by simpa using hg)⟩
    · exact .inl hst
  have hsim : Sim owner { redis := RedisImport.initRedis (view owner w) }
      { system := {
        world := (serve w (owner (slotOf firstWrite)) firstWrite).2, cluster := st,
        commands := [] } } :=
    ⟨hview, rfl, rfl, rfl, fun _ => ⟨rfl, rfl⟩, executeCommand_pooled hexec (pooled_client hne),
      fun _ => rfl, hright⟩
  have hlines := hsim.readLines hserve (RedisImport.inputLines input.length input) fun ok hmem => by
    apply hok ok
    unfold ClusterImport.finish
    split
    · exact List.mem_append_left _ hmem
    · exact hmem
  have hend := hlines.finish hserve hok
  exact ⟨hend.redis, hend.queue⟩

end Sim

def take : Serve World := fun w id c =>
  match c.arguments with
  | [k, v] => (.status (lit "OK"), Function.update w id (replay (w id) [(k, v)]))
  | _ => (.null, w)

lemma take_ne_error (w : World) (id : NodeId) (c : Command) (message : Bytes) :
    (take w id c).1 ≠ .error message := by
  unfold take
  split <;> simp

lemma twoNodes_stores : Stores (twoNodes take) halves where
  toAtRest := twoNodes_atRest take_ne_error
  set w p := by
    simp only [twoNodes, getSlot_setCommand, if_true]
    rfl
  sendable w id c := by
    unfold twoNodes
    split
    · rename_i s _
      split
      · unfold take
        split <;> simp [Response.Sendable, lit]
      · have hnode : (10 : UInt8) ∉ halves s := by
          unfold halves
          split <;> decide
        have hmoved : (10 : UInt8) ∉ lit "MOVED " := by decide
        simp only [Response.Sendable, List.mem_append, List.mem_cons, not_or]
        exact ⟨⟨hmoved, lf_notMem_natStr s⟩, by decide, hnode⟩
    · simp [Response.Sendable, AllSendable, lit]

/-- Two records on two nodes; the node of the second is the first to work. -/
def twoLines : Bytes :=
  RedisImport.tencentLine (lit "b") (lit "R") ++ 10 ::
    (RedisImport.tencentLine (lit "a") (lit "S") ++ [10])

def twoTurns : List Turn :=
  [.client [], .client [], .node (lit "a:1"), .node (lit "b:1"), .client [], .client [2]]

theorem cluster_import_two :
    ∃ s, startReadLogToRedis (twoNodes take) (RedisImport.tencent RedisImport.lineDecode)
        (fun _ => twoTurns) [lit "a:1", lit "b:1"] (fun _ _ => none) twoLines = some s ∧
      ((∀ ok ∈ s.results, ok = true) →
        view halves s.system.world =
            (RedisImport.startReadLogToRedis (RedisImport.tencent RedisImport.lineDecode)
              (fun _ => .ok) (view halves fun _ _ => none) twoLines).redis ∧
          s.system.commands =
            (RedisImport.startReadLogToRedis (RedisImport.tencent RedisImport.lineDecode)
              (fun _ => .ok) (view halves fun _ _ => none) twoLines).queue.map setCommand) :=
  cluster_import twoNodes_stores (by simp) (.inl (by decide +kernel)) _ _ _ _

/-- The pipeline of these turns returns. -/
example : (startReadLogToRedis (twoNodes take) (RedisImport.tencent RedisImport.lineDecode)
    (fun _ => twoTurns) [lit "a:1", lit "b:1"] (fun _ _ => none) twoLines).map
      (fun s => s.results) =
      some [true] := by decide +kernel

end NgxMapping.ClusterImport
