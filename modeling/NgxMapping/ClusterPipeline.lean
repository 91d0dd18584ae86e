import NgxMapping.Lib.Trace
import NgxMapping.RedisCluster

/-!
`scripts/redis/Predis/Pipeline/Pipeline.php` over a cluster.

All commands are written, each to the node of its slot, before the first reply is read. The nodes
work while the client does. A reply has no mark of its command: the client takes the next one of
the connection the command was written to. `Books` is what holds for each connection between what
was written, what the node has done and what the client has read.
-/

namespace NgxMapping.ClusterPipeline

open Lib Resp RedisStrategy RedisCluster

/-- What ends a pipeline early: a `ServerException`, a `CommunicationException`, a
`NotSupportedException`. -/
inductive Thrown
  | server (message : Bytes)
  | communication (failure : Failure)
  | notSupported (id : Bytes)

section Pipeline

variable {σ : Type}

/-- The client in `executePipeline` and the nodes. For each connection there are the bytes on the
way to the node and those on the way back; `stale` are requests of closed connections that the node
may still find. -/
structure System (σ : Type) where
  world : σ
  cluster : Cluster
  commands : List Command
  toWrite : List Command := []
  inbox : NodeId → Bytes := fun _ => []
  outbox : NodeId → Bytes := fun _ => []
  stale : NodeId → Bytes := fun _ => []
  responses : List Response := []
  thrown : Option Thrown := none

/-- Whose turn it is. `lost` is the client again, on a connection that fails. -/
inductive Turn
  | client (fread : List ℕ)
  | lost
  | node (id : NodeId)
  | stale (id : NodeId)

namespace System

/-- `Pipeline::execute`: the queue is to be written. -/
def execute (s : System σ) : System σ :=
  { s with toWrite := s.commands, responses := [], thrown := none }

/-- Nothing is on the way. -/
def Clean (s : System σ) : Prop := ∀ id, s.inbox id = [] ∧ s.outbox id = []

def throw (s : System σ) (e : Thrown) : System σ := { s with thrown := some e }

def disconnect (s : System σ) (id : NodeId) : System σ :=
  { s with
    stale := Function.update s.stale id (s.stale id ++ s.inbox id)
    inbox := Function.update s.inbox id []
    outbox := Function.update s.outbox id [] }

/-- `RedisCluster::disconnect`. -/
def disconnectAll (s : System σ) : System σ := s.cluster.pool.foldl disconnect s

/-- A round of the first loop. -/
def write (s : System σ) (c : Command) (rest : List Command) : System σ :=
  match s.cluster.getConnection c with
  | none => s.throw (.notSupported c.id)
  | some (id, st) =>
    { s with
      cluster := st
      inbox := Function.update s.inbox id (s.inbox id ++ buffer c)
      toWrite := rest }

/-- A round of the second loop, for a command that has been taken from the queue. The client waits
for a reply that has not come; a reply comes whole. -/
def readResponse (fread : List ℕ) (s : System σ) (c : Command) (rest : List Command) : System σ :=
  match s.cluster.getConnection c with
  | none => { s with commands := rest }.throw (.notSupported c.id)
  | some (id, st) =>
    if s.outbox id = [] then s
    else
      let s := { s with cluster := st, commands := rest }
      match read ⟨s.outbox id, fread⟩ with
      | .error failure => (s.disconnect id).throw (.communication failure)
      | .ok (.error message, _) => s.disconnectAll.throw (.server message)
      | .ok (response, socket) =>
        { s with
          outbox := Function.update s.outbox id socket.incoming
          responses := s.responses ++ [response] }

/-- The connection fails on which the client works. -/
def lose (s : System σ) (c : Command) (rest : List Command) (message : Bytes) : System σ :=
  match s.cluster.getConnection c with
  | none => { s with commands := rest }.throw (.notSupported c.id)
  | some (id, st) =>
    ({ s with cluster := st, commands := rest }.disconnect id).throw
      (.communication (.connection message))

/-- The client in `executePipeline`. -/
def client (fread : List ℕ) (s : System σ) : System σ :=
  match s.thrown, s.toWrite, s.commands with
  | some _, _, _ => s
  | none, c :: rest, _ => s.write c rest
  | none, [], c :: rest => s.readResponse fread c rest
  | none, [], [] => s

def lost (s : System σ) : System σ :=
  match s.thrown, s.toWrite, s.commands with
  | some _, _, _ => s
  | none, c :: _, _ => s.lose c s.commands (lit "Error while writing bytes to the server.")
  | none, [], c :: rest => s.lose c rest (lit "Error while reading line from the server.")
  | none, [], [] => s

variable (serve : Serve σ)

/-- A node carries out a command of a connection. -/
def node (s : System σ) (id : NodeId) : System σ × Option (NodeId × Command × Response) :=
  match readRequest (s.inbox id) with
  | none => (s, none)
  | some (c, rest) =>
    let (r, w) := serve s.world id c
    ({ s with
      world := w
      inbox := Function.update s.inbox id rest
      outbox := Function.update s.outbox id (s.outbox id ++ encode r) }, some (id, c, r))

/-- A node carries out a command of a connection that has been closed. -/
def late (s : System σ) (id : NodeId) : System σ :=
  match readRequest (s.stale id) with
  | none => s
  | some (c, rest) =>
    { s with world := (serve s.world id c).2, stale := Function.update s.stale id rest }

/-- One step, which shows the command that a node carries out and its reply. -/
def next (s : System σ) : Turn → System σ × Option (NodeId × Command × Response)
  | .client fread => (s.client fread, none)
  | .lost => (s.lost, none)
  | .node id => s.node serve id
  | .stale id => (s.late serve id, none)

end System

def executed (id : NodeId) (es : List (NodeId × Command × Response)) : List (Command × Response) :=
  es.filterMap fun e => if e.1 = id then some e.2 else none

/-- The connection a command was written to. -/
def route (st : Cluster) (c : Command) : Option NodeId := (getSlot c).bind fun t => st.slots t

/-- All commands have been written and all replies read. -/
def System.Finished (s : System σ) : Prop := s.thrown = none ∧ s.toWrite = [] ∧ s.commands = []

/-! ### One connection -/

/-- The books of a connection: the node has done what the client has read and what is on the way
back; what was written to it is that, and what is on the way to it. -/
def Books (mine : Command → Bool) (written : List Command)
    (answered done : List (Command × Response))
    (inbox outbox : Bytes) : Prop :=
  ∃ unread waiting, done = answered.filter (fun a => mine a.1) ++ unread ∧
    written.filter mine = done.map Prod.fst ++ waiting ∧
    outbox = unread.flatMap (fun a => encode a.2) ∧ inbox = waiting.flatMap buffer

section Books

variable {mine mine' : Command → Bool} {written : List Command}
  {answered done : List (Command × Response)} {inbox outbox : Bytes} {c : Command} {r : Response}

lemma Books.congr (h : Books mine written answered done inbox outbox)
    (hsub : ∀ a ∈ answered, a.1 ∈ written) (heq : ∀ c ∈ written, mine' c = mine c) :
    Books mine' written answered done inbox outbox := by
  obtain ⟨unread, waiting, hd, hw, ho, hi⟩ := h
  refine ⟨unread, waiting, ?_, ?_, ho, hi⟩
  · rw [hd]
    congr 1
    exact List.filter_congr fun a ha => (heq a.1 (hsub a ha)).symm
  · rw [← hw]
    exact List.filter_congr heq

lemma Books.write (h : Books mine written answered done inbox outbox) (hc : mine c = true) :
    Books mine (written ++ [c]) answered done (inbox ++ buffer c) outbox := by
  obtain ⟨unread, waiting, hd, hw, ho, hi⟩ := h
  refine ⟨unread, waiting ++ [c], hd, ?_, ho, ?_⟩
  · rw [List.filter_append, hw, List.append_assoc]
    simp [hc]
  · rw [hi, List.flatMap_append]
    simp

lemma Books.write_other (h : Books mine written answered done inbox outbox) (hc : mine c = false) :
    Books mine (written ++ [c]) answered done inbox outbox := by
  obtain ⟨unread, waiting, hd, hw, ho, hi⟩ := h
  refine ⟨unread, waiting, hd, ?_, ho, hi⟩
  rw [List.filter_append, hw]
  simp [hc]

lemma Books.next_request {rest : Bytes} (h : Books mine written answered done inbox outbox)
    (hread : readRequest inbox = some (c, rest)) (r : Response) :
    Books mine written answered (done ++ [(c, r)]) rest (outbox ++ encode r) := by
  obtain ⟨unread, waiting, hd, hw, ho, hi⟩ := h
  rcases waiting with _ | ⟨c', waiting⟩
  · rw [hi] at hread
    cases hread
  · rw [hi, List.flatMap_cons, readRequest_inverts, Option.some.injEq, Prod.mk.injEq] at hread
    obtain ⟨rfl, rfl⟩ := hread
    refine ⟨unread ++ [(c', r)], waiting, ?_, ?_, ?_, rfl⟩
    · rw [hd, List.append_assoc]
    · rw [hw]
      simp
    · rw [ho, List.flatMap_append]
      simp

lemma Books.next_reply {rest : List Command} (h : Books mine written answered done inbox outbox)
    (hw : written = answered.map Prod.fst ++ c :: rest) (hc : mine c = true)
    (hne : outbox ≠ []) :
    ∃ r out, outbox = encode r ++ out ∧ (c, r) ∈ done ∧
      Books mine written (answered ++ [(c, r)]) done inbox out := by
  obtain ⟨unread, waiting, hd, hwr, ho, hi⟩ := h
  rcases unread with _ | ⟨⟨c', r⟩, unread⟩
  · exact absurd ho hne
  · -- the first reply on the way is to the first command without one
    have hfirst : c' = c := by
      have hmap : (answered.filter fun a => mine a.1).map Prod.fst =
          (answered.map Prod.fst).filter mine := by
        rw [List.filter_map]
        rfl
      rw [hw, hd, List.filter_append, List.filter_cons, if_pos hc, List.map_append, hmap,
        List.append_assoc] at hwr
      have := List.append_cancel_left hwr
      rw [List.map_cons, List.cons_append, List.cons.injEq] at this
      exact this.1.symm
    subst hfirst
    refine ⟨r, unread.flatMap (fun a => encode a.2), ?_, by simp [hd], unread, waiting, ?_, ?_, rfl,
      hi⟩
    · rw [ho, List.flatMap_cons]
    · rw [hd, List.filter_append]
      simp [hc]
    · exact hwr

lemma Books.reply_other (h : Books mine written answered done inbox outbox) (hc : mine c = false) :
    Books mine written (answered ++ [(c, r)]) done inbox outbox := by
  obtain ⟨unread, waiting, hd, hw, ho, hi⟩ := h
  refine ⟨unread, waiting, ?_, hw, ho, hi⟩
  rw [hd, List.filter_append]
  simp [hc]

lemma Books.settled (h : Books mine written answered done inbox outbox)
    (hw : written = answered.map Prod.fst) :
    done = answered.filter (fun a => mine a.1) ∧ inbox = [] ∧ outbox = [] := by
  obtain ⟨unread, waiting, hd, hwr, ho, hi⟩ := h
  have hmap : (answered.map Prod.fst).filter mine =
      (answered.filter fun a => mine a.1).map Prod.fst := by
    rw [List.filter_map]
    rfl
  rw [hw, hd, hmap, List.map_append, List.append_assoc] at hwr
  obtain ⟨hu, hwt⟩ := List.append_eq_nil_iff.mp (List.self_eq_append_right.mp hwr)
  rw [List.map_eq_nil_iff] at hu
  subst hu hwt
  exact ⟨by simpa using hd, hi, ho⟩

lemma Books.read_done (h : Books mine written answered done inbox outbox) :
    answered.filter (fun a => mine a.1) <+: done := by
  obtain ⟨unread, _, hd, -⟩ := h
  exact ⟨unread, hd.symm⟩

end Books

/-! ### The connections -/

/-- Every connection a slot has is in the pool. -/
def Pooled (st : Cluster) : Prop := ∀ t id, st.slots t = some id → id ∈ st.pool

lemma mem_setPool (st : Cluster) (id : NodeId) : id ∈ (st.setPool id).pool := by
  rw [Cluster.setPool]
  split
  · assumption
  · simp

lemma setPool_subset (st : Cluster) (id : NodeId) : st.pool ⊆ (st.setPool id).pool := by
  rw [Cluster.setPool]
  split
  · exact fun _ h => h
  · exact List.subset_append_left _ _

lemma guessNode_spec (st : Cluster) (t : ℕ) :
    (st.guessNode t).2.slots = st.slots ∧ (st.guessNode t).2.pool = st.pool := by
  rw [Cluster.guessNode]
  split <;> split <;> exact ⟨rfl, rfl⟩

lemma getConnection_spec {st st' : Cluster} {c : Command} {id : NodeId}
    (h : st.getConnection c = some (id, st')) :
    route st' c = some id ∧ (∀ d i, route st d = some i → route st' d = some i) ∧
      (Pooled st → Pooled st') := by
  obtain ⟨t, ht, hconn⟩ := Option.map_eq_some_iff.mp h
  unfold Cluster.getConnectionBySlot at hconn
  split at hconn
  · rename_i i hi
    rw [Prod.mk.injEq] at hconn
    obtain ⟨rfl, rfl⟩ := hconn
    refine ⟨?_, fun _ _ hd => hd, fun hp => hp⟩
    rw [route, ht, Option.bind_some, hi]
  · rename_i hnone
    obtain ⟨hslots, hpool⟩ := guessNode_spec st t
    rcases hg : st.guessNode t with ⟨i, st1⟩
    rw [hg] at hslots hpool
    simp only [hg, Prod.mk.injEq] at hconn
    obtain ⟨rfl, rfl⟩ := hconn
    have hset : (st1.setPool i).slots = st.slots := hslots
    refine ⟨?_, ?_, ?_⟩
    · rw [route, ht, Option.bind_some, slots_setSlot, if_pos rfl]
    · intro d i' hd
      obtain ⟨u, hu, hi'⟩ := Option.bind_eq_some_iff.mp hd
      have hut : u ≠ t := by
        rintro rfl
        rw [hnone] at hi'
        cases hi'
      rw [route, hu, Option.bind_some, slots_setSlot, if_neg hut, hset, hi']
    · intro hp u i' hi'
      change Function.update (st1.setPool i).slots (t : ℤ) (some i) u = some i' at hi'
      by_cases hut : u = t
      · rw [hut, Function.update_self, Option.some.injEq] at hi'
        exact hi' ▸ mem_setPool st1 i
      · rw [Function.update_of_ne hut, hset] at hi'
        apply setPool_subset st1 i
        rw [hpool]
        exact hp u i' hi'

lemma getConnection_of_route {st : Cluster} {c : Command} {id : NodeId}
    (h : route st c = some id) : st.getConnection c = some (id, st) := by
  obtain ⟨t, ht, hid⟩ := Option.bind_eq_some_iff.mp h
  rw [Cluster.getConnection, ht, Option.map_some, Cluster.getConnectionBySlot, hid]

/-! ### The invariant -/

/-- Whether a command was written to a node. -/
def mine (st : Cluster) (id : NodeId) (c : Command) : Bool := route st c = some id

/-- The client is at work: it has written the first commands and has replies to the first of
those. -/
structure Running (cs : List Command) (es : List (NodeId × Command × Response)) (s : System σ)
    (written : List Command) (answered : List (Command × Response)) : Prop where
  alive : s.thrown = none
  writes : cs = written ++ s.toWrite
  reads : cs = answered.map Prod.fst ++ s.commands
  responses : s.responses = answered.map Prod.snd
  order : s.toWrite ≠ [] → answered = []
  routes : ∀ c ∈ written, (route s.cluster c).isSome
  pooled : Pooled s.cluster
  sendable : ∀ id, ∀ a ∈ executed id es, a.2.Sendable
  books : ∀ id, Books (mine s.cluster id) written answered (executed id es) (s.inbox id)
    (s.outbox id)

/-- The client has stopped. What it has read is right. The queue has lost no more than the command
at which it stopped, and a `ServerException` leaves nothing on the way. -/
structure Stopped (cs : List Command) (es : List (NodeId × Command × Response)) (s : System σ)
    (e : Thrown) (answered : List (Command × Response)) : Prop where
  thrown : s.thrown = some e
  reads : answered.map Prod.fst <+: cs
  responses : s.responses = answered.map Prod.snd
  routes : ∀ a ∈ answered, (route s.cluster a.1).isSome
  right : ∀ id, answered.filter (fun a => mine s.cluster id a.1) <+: executed id es
  left : s.commands = cs ∨ s.commands = cs.drop (answered.length + 1)
  pooled : Pooled s.cluster
  clean : ∀ message, e = .server message → s.Clean

section Invariant

variable {cs : List Command} {es : List (NodeId × Command × Response)} {s : System σ}
  {written : List Command} {answered : List (Command × Response)}

lemma running_execute (hclean : s.Clean) (hpool : Pooled s.cluster) :
    Running s.commands [] s.execute [] [] where
  alive := rfl
  writes := rfl
  reads := rfl
  responses := rfl
  order _ := rfl
  routes := by simp
  pooled := hpool
  sendable := by simp [executed]
  books id := ⟨[], [], rfl, rfl, (hclean id).2, (hclean id).1⟩

lemma Running.sub (h : Running cs es s written answered) : ∀ a ∈ answered, a.1 ∈ written := by
  intro a ha
  by_cases hw : s.toWrite = []
  · have hall := h.writes.symm.trans h.reads
    rw [hw, List.append_nil] at hall
    rw [hall]
    exact List.mem_append_left _ (List.mem_map_of_mem ha)
  · rw [h.order hw] at ha
    cases ha

lemma Running.left (h : Running cs es s written answered) :
    s.commands = cs.drop answered.length := by
  rw [h.reads, List.drop_append_of_le_length (by simp)]
  simp

lemma Running.outside (h : Running cs es s written answered) {id : NodeId}
    (hid : id ∉ s.cluster.pool) : s.inbox id = [] ∧ s.outbox id = [] := by
  obtain ⟨unread, waiting, hd, hw, ho, hi⟩ := h.books id
  have hnone : written.filter (mine s.cluster id) = [] := by
    rw [List.filter_eq_nil_iff]
    intro c _ hc
    obtain ⟨t, -, ht⟩ := Option.bind_eq_some_iff.mp (of_decide_eq_true hc)
    exact hid (h.pooled t id ht)
  rw [hnone, hd] at hw
  obtain ⟨hmap, hwt⟩ := List.append_eq_nil_iff.mp hw.symm
  rw [List.map_eq_nil_iff, List.append_eq_nil_iff] at hmap
  exact ⟨by rw [hi, hwt]; rfl, by rw [ho, hmap.2]; rfl⟩

lemma Running.right (h : Running cs es s written answered) (id : NodeId) :
    answered.filter (fun a => mine s.cluster id a.1) <+: executed id es := (h.books id).read_done

lemma Running.stop (h : Running cs es s written answered) {s' : System σ} {e : Thrown}
    (hthrown : s'.thrown = some e) (hresp : s'.responses = s.responses)
    (hroute : ∀ c ∈ written, route s'.cluster c = route s.cluster c)
    (hcmd : s'.commands = s.commands ∧ answered = [] ∨ s'.commands = s.commands.tail)
    (hpool : Pooled s'.cluster) (hclean : ∀ message, e = .server message → s'.Clean) :
    Stopped cs es s' e answered where
  thrown := hthrown
  reads := ⟨s.commands, h.reads.symm⟩
  responses := hresp.trans h.responses
  routes a ha := by
    rw [hroute a.1 (h.sub a ha)]
    exact h.routes a.1 (h.sub a ha)
  right id := by
    have hfilter : answered.filter (fun a => mine s'.cluster id a.1) =
        answered.filter (fun a => mine s.cluster id a.1) := by
      apply List.filter_congr
      intro a ha
      rw [mine, mine, hroute a.1 (h.sub a ha)]
    rw [hfilter]
    exact h.right id
  left := by
    rcases hcmd with ⟨hcmd, rfl⟩ | hcmd
    · left
      rw [hcmd, h.left]
      rfl
    · right
      rw [hcmd, h.left, List.tail_drop]
  pooled := hpool
  clean := hclean

lemma Running.write (h : Running cs es s written answered) {c : Command} {rest : List Command}
    (hw : s.toWrite = c :: rest) :
    Running cs es (s.write c rest) (written ++ [c]) answered ∨
      ∃ e, Stopped cs es (s.write c rest) e answered := by
  have hnil : answered = [] := h.order (by simp [hw])
  unfold System.write
  rcases hg : s.cluster.getConnection c with _ | ⟨id, st⟩
  · right
    refine ⟨.notSupported c.id, h.stop rfl rfl (fun _ _ => rfl) (.inl ⟨rfl, hnil⟩) h.pooled ?_⟩
    intro message he
    cases he
  · left
    obtain ⟨hroute, hkeep, hpool⟩ := getConnection_spec hg
    have hold : ∀ d ∈ written, route st d = route s.cluster d := by
      intro d hd
      obtain ⟨i, hi⟩ := Option.isSome_iff_exists.mp (h.routes d hd)
      rw [hi, hkeep d i hi]
    constructor
    · exact h.alive
    · rw [h.writes, hw, List.append_assoc]
      rfl
    · exact h.reads
    · exact h.responses
    · exact fun _ => hnil
    · intro d hd
      rcases List.mem_append.mp hd with hd | hd
      · change (route st d).isSome
        rw [hold d hd]
        exact h.routes d hd
      · rw [List.mem_singleton.mp hd]
        exact Option.isSome_iff_exists.mpr ⟨id, hroute⟩
    · exact hpool h.pooled
    · exact h.sendable
    · intro i
      have hbooks : Books (mine st i) written answered (executed i es) (s.inbox i) (s.outbox i) :=
        (h.books i).congr h.sub fun d hd => by rw [mine, mine, hold d hd]
      rcases eq_or_ne i id with rfl | hi
      · change Books _ _ _ _ (Function.update s.inbox i _ i) _
        rw [Function.update_self]
        exact hbooks.write (by simp [mine, hroute])
      · change Books _ _ _ _ (Function.update s.inbox id _ i) _
        rw [Function.update_of_ne hi]
        exact hbooks.write_other (by simp [mine, hroute, hi.symm])

lemma disconnect_spec (s : System σ) (id : NodeId) :
    (s.disconnect id).thrown = s.thrown ∧ (s.disconnect id).responses = s.responses ∧
      (s.disconnect id).commands = s.commands ∧ (s.disconnect id).cluster = s.cluster ∧
      ∀ i, (s.disconnect id).inbox i = (if i = id then [] else s.inbox i) ∧
        (s.disconnect id).outbox i = if i = id then [] else s.outbox i := by
  refine ⟨rfl, rfl, rfl, rfl, ?_⟩
  intro i
  change Function.update s.inbox id [] i = _ ∧ Function.update s.outbox id [] i = _
  rw [Function.update_apply, Function.update_apply]
  exact ⟨rfl, rfl⟩

lemma disconnectAll_spec (ids : List NodeId) (s : System σ) :
    (ids.foldl System.disconnect s).thrown = s.thrown ∧
      (ids.foldl System.disconnect s).responses = s.responses ∧
      (ids.foldl System.disconnect s).commands = s.commands ∧
      (ids.foldl System.disconnect s).cluster = s.cluster ∧
      ∀ i, (i ∈ ids ∨ s.inbox i = [] ∧ s.outbox i = []) →
        (ids.foldl System.disconnect s).inbox i = [] ∧
          (ids.foldl System.disconnect s).outbox i = [] := by
  induction ids generalizing s with
  | nil => exact ⟨rfl, rfl, rfl, rfl, fun i hi => hi.resolve_left (by simp)⟩
  | cons id ids ih =>
    obtain ⟨h1, h2, h3, h4, h5⟩ := disconnect_spec s id
    obtain ⟨g1, g2, g3, g4, g5⟩ := ih (s.disconnect id)
    refine ⟨g1.trans h1, g2.trans h2, g3.trans h3, g4.trans h4, ?_⟩
    intro i hi
    apply g5
    rw [(h5 i).1, (h5 i).2]
    rcases eq_or_ne i id with rfl | hne
    · simp
    · rw [if_neg hne, if_neg hne]
      exact hi.imp_left fun hmem => (List.mem_cons.mp hmem).resolve_left hne

lemma Running.next_route (h : Running cs es s written answered) {c : Command}
    {rest : List Command} (hw : s.toWrite = []) (hc : s.commands = c :: rest) :
    written = answered.map Prod.fst ++ c :: rest ∧ ∃ id, route s.cluster c = some id := by
  have hall : written = answered.map Prod.fst ++ c :: rest := by
    rw [← hc, ← h.reads, h.writes, hw, List.append_nil]
  exact ⟨hall, Option.isSome_iff_exists.mp (h.routes c (by simp [hall]))⟩

lemma readResponse_waits {c : Command} {rest : List Command} {id : NodeId} (fread : List ℕ)
    (hid : route s.cluster c = some id) (hout : s.outbox id = []) :
    s.readResponse fread c rest = s := by
  unfold System.readResponse
  rw [getConnection_of_route hid]
  simp only [if_pos hout]

lemma Running.readResponse (h : Running cs es s written answered) {c : Command}
    {rest : List Command} {id : NodeId} (fread : List ℕ) (hw : s.toWrite = [])
    (hc : s.commands = c :: rest) (hid : route s.cluster c = some id) (hout : s.outbox id ≠ []) :
    (∃ answered', Running cs es (s.readResponse fread c rest) written answered' ∧
        (s.readResponse fread c rest).toWrite = [] ∧
        (s.readResponse fread c rest).commands = rest) ∨
      ∃ message, Stopped cs es (s.readResponse fread c rest) (.server message) answered := by
  obtain ⟨hall, -⟩ := h.next_route hw hc
  unfold System.readResponse
  rw [getConnection_of_route hid]
  simp only [if_neg hout]
  obtain ⟨r, out, hr, hdone, hbooks⟩ := (h.books id).next_reply hall (by simp [mine, hid]) hout
  obtain ⟨fread', hread⟩ := read_encode r (h.sendable id (c, r) hdone) out fread
  rw [hr, hread]
  -- a reply that is no error is one more
  have hmore : Running cs es { s with
      cluster := s.cluster, commands := rest, outbox := Function.update s.outbox id out,
      responses := s.responses ++ [r] } written (answered ++ [(c, r)]) := by
    constructor
    · exact h.alive
    · exact h.writes
    · rw [h.reads, hc]
      simp
    · rw [h.responses]
      simp
    · exact fun hne => absurd hw hne
    · exact h.routes
    · exact h.pooled
    · exact h.sendable
    · intro i
      rcases eq_or_ne i id with rfl | hi
      · change Books _ _ _ _ _ (Function.update s.outbox i out i)
        rw [Function.update_self]
        exact hbooks
      · change Books _ _ _ _ _ (Function.update s.outbox id out i)
        rw [Function.update_of_ne hi]
        exact (h.books i).reply_other (by simp [mine, hid, hi.symm])
  cases r with
  | error message =>
    right
    obtain ⟨-, h2, h3, h4, h5⟩ := disconnectAll_spec s.cluster.pool
      { s with cluster := s.cluster, commands := rest }
    have hstop : Stopped cs es (({ s with
        cluster := s.cluster, commands := rest }.disconnectAll).throw (.server message))
        (.server message) answered := by
      refine h.stop rfl ?_ ?_ (.inr ?_) ?_ ?_
      · exact h2
      · intro d _
        exact congrArg (fun st => route st d) h4
      · exact h3.trans (by rw [hc]; rfl)
      · have hpooled := h.pooled
        rw [← h4] at hpooled
        exact hpooled
      · intro _ _ i
        apply h5
        by_cases hi : i ∈ s.cluster.pool
        · exact .inl hi
        · exact .inr (h.outside hi)
    exact ⟨message, hstop⟩
  | _ => exact .inl ⟨_, hmore, hw, rfl⟩

lemma Running.lose (h : Running cs es s written answered) (c : Command) (rest : List Command)
    (message : Bytes) (hcmd : rest = s.commands ∧ answered = [] ∨ rest = s.commands.tail) :
    ∃ e, Stopped cs es (s.lose c rest message) e answered := by
  unfold System.lose
  rcases hg : s.cluster.getConnection c with _ | ⟨id, st⟩
  · refine ⟨.notSupported c.id, h.stop rfl rfl (fun _ _ => rfl) hcmd h.pooled ?_⟩
    intro _ he
    cases he
  · obtain ⟨-, hkeep, hpool⟩ := getConnection_spec hg
    refine ⟨.communication (.connection message), h.stop rfl rfl ?_ hcmd (hpool h.pooled) ?_⟩
    · intro d hd
      obtain ⟨i, hi⟩ := Option.isSome_iff_exists.mp (h.routes d hd)
      rw [hi]
      exact hkeep d i hi
    · intro _ he
      cases he

/-- What holds after any number of steps. -/
def Inv (cs : List Command) (es : List (NodeId × Command × Response)) (s : System σ) : Prop :=
  (∃ written answered, Running cs es s written answered) ∨
    ∃ e answered, Stopped cs es s e answered

lemma Running.client (h : Running cs es s written answered) (fread : List ℕ) :
    Inv cs es (s.client fread) := by
  rw [System.client, h.alive]
  rcases hw : s.toWrite with _ | ⟨c, rest⟩
  · rcases hc : s.commands with _ | ⟨c, rest⟩
    · exact .inl ⟨written, answered, h⟩
    · obtain ⟨-, id, hid⟩ := h.next_route hw hc
      by_cases hout : s.outbox id = []
      · change Inv cs es (s.readResponse fread c rest)
        rw [readResponse_waits fread hid hout]
        exact .inl ⟨written, answered, h⟩
      · rcases h.readResponse fread hw hc hid hout with ⟨answered', h', -⟩ | ⟨message, h'⟩
        · exact .inl ⟨written, answered', h'⟩
        · exact .inr ⟨_, answered, h'⟩
  · rcases h.write hw with h' | ⟨e, h'⟩
    · exact .inl ⟨_, _, h'⟩
    · exact .inr ⟨e, answered, h'⟩

lemma Running.lost (h : Running cs es s written answered) : Inv cs es s.lost := by
  rw [System.lost, h.alive]
  rcases hw : s.toWrite with _ | ⟨c, rest⟩
  · rcases hc : s.commands with _ | ⟨c, rest⟩
    · exact .inl ⟨written, answered, h⟩
    · obtain ⟨e, h'⟩ := h.lose c rest (lit "Error while reading line from the server.")
        (.inr (by rw [hc]; rfl))
      exact .inr ⟨e, answered, h'⟩
  · obtain ⟨e, h'⟩ := h.lose c s.commands (lit "Error while writing bytes to the server.")
      (.inl ⟨rfl, h.order (by simp [hw])⟩)
    exact .inr ⟨e, answered, h'⟩

lemma executed_append (id : NodeId) (es fs : List (NodeId × Command × Response)) :
    executed id (es ++ fs) = executed id es ++ executed id fs := List.filterMap_append

variable {serve : Serve σ}

lemma node_eq {id : NodeId} {c : Command} {rest : Bytes}
    (hr : readRequest (s.inbox id) = some (c, rest))
    {r : Response} {w : σ} (hsv : serve s.world id c = (r, w)) :
    s.node serve id = ({ s with
      world := w
      inbox := Function.update s.inbox id rest
      outbox := Function.update s.outbox id (s.outbox id ++ encode r) }, some (id, c, r)) := by
  simp only [System.node, hr, hsv]

lemma node_idle {id : NodeId} (hr : readRequest (s.inbox id) = none) :
    s.node serve id = (s, none) := by
  simp only [System.node, hr]

lemma Running.node (hserve : ∀ w id c, (serve w id c).1.Sendable)
    (h : Running cs es s written answered) (id : NodeId) :
    Running cs (es ++ (s.node serve id).2.toList) (s.node serve id).1 written answered := by
  rcases hr : readRequest (s.inbox id) with _ | ⟨c, rest⟩
  · rw [node_idle hr]
    simpa using h
  · have hsend := hserve s.world id c
    rcases hsv : serve s.world id c with ⟨r, w⟩
    rw [hsv] at hsend
    rw [node_eq hr hsv]
    have hexec : ∀ i, executed i (es ++ [(id, c, r)]) =
        executed i es ++ if i = id then [(c, r)] else [] := by
      intro i
      rw [executed_append]
      rcases eq_or_ne i id with rfl | hi
      · simp [executed]
      · simp [executed, hi, hi.symm]
    constructor
    · exact h.alive
    · exact h.writes
    · exact h.reads
    · exact h.responses
    · exact h.order
    · exact h.routes
    · exact h.pooled
    · intro i a ha
      change a ∈ executed i (es ++ [(id, c, r)]) at ha
      rw [hexec, List.mem_append] at ha
      rcases ha with ha | ha
      · exact h.sendable i a ha
      · split at ha
        · rw [List.mem_singleton.mp ha]
          exact hsend
        · cases ha
    · intro i
      change Books (mine s.cluster i) written answered (executed i (es ++ [(id, c, r)]))
        (Function.update s.inbox id rest i)
        (Function.update s.outbox id (s.outbox id ++ encode r) i)
      rw [hexec]
      rcases eq_or_ne i id with rfl | hi
      · rw [Function.update_self, Function.update_self, if_pos rfl]
        exact (h.books i).next_request hr r
      · rw [Function.update_of_ne hi, Function.update_of_ne hi, if_neg hi, List.append_nil]
        exact h.books i

lemma Stopped.node {e : Thrown} (h : Stopped cs es s e answered) (id : NodeId) :
    Stopped cs (es ++ (s.node serve id).2.toList) (s.node serve id).1 e answered := by
  rcases hr : readRequest (s.inbox id) with _ | ⟨c, rest⟩
  · rw [node_idle hr]
    simpa using h
  · rcases hsv : serve s.world id c with ⟨r, w⟩
    rw [node_eq hr hsv]
    refine ⟨h.thrown, h.reads, h.responses, h.routes, ?_, h.left, h.pooled, ?_⟩
    · intro i
      rw [executed_append]
      exact (h.right i).trans (List.prefix_append _ _)
    · -- after a `ServerException` there is no request to read
      intro message he
      rw [(h.clean message he id).1] at hr
      cases hr

lemma Inv.next (hserve : ∀ w id c, (serve w id c).1.Sendable) (h : Inv cs es s) (x : Turn) :
    Inv cs (es ++ (s.next serve x).2.toList) (s.next serve x).1 := by
  rcases h with ⟨written, answered, h⟩ | ⟨e, answered, h⟩
  · cases x with
    | client fread => simpa [System.next] using h.client fread
    | lost => simpa [System.next] using h.lost
    | node id => exact .inl ⟨written, answered, h.node hserve id⟩
    | stale id =>
      left
      refine ⟨written, answered, ?_⟩
      simp only [System.next, Option.toList_none, List.append_nil, System.late]
      split
      · exact h
      · exact ⟨h.alive, h.writes, h.reads, h.responses, h.order, h.routes, h.pooled, h.sendable,
          h.books⟩
  · right
    refine ⟨e, answered, ?_⟩
    cases x with
    | client fread => simpa [System.next, System.client, h.thrown] using h
    | lost => simpa [System.next, System.lost, h.thrown] using h
    | node id => exact h.node id
    | stale id =>
      simp only [System.next, Option.toList_none, List.append_nil, System.late]
      split
      · exact h
      · exact ⟨h.thrown, h.reads, h.responses, h.routes, h.right, h.left, h.pooled, h.clean⟩

/-! ### Nothing waits for ever -/

variable (serve) in
lemma Running.write_all (hcs : ∀ c ∈ cs, (getSlot c).isSome)
    (h : Running cs es s written answered) :
    ∃ turns written', Running cs es (after (System.next serve) s turns) written' answered ∧
      (after (System.next serve) s turns).toWrite = [] := by
  generalize hn : s.toWrite.length = n
  induction n generalizing s written with
  | zero => exact ⟨[], written, h, List.length_eq_zero_iff.mp hn⟩
  | succ n ih =>
    rcases hw : s.toWrite with _ | ⟨c, rest⟩
    · simp [hw] at hn
    · have hslot := hcs c (by rw [h.writes, hw]; simp)
      obtain ⟨t, ht⟩ := Option.isSome_iff_exists.mp hslot
      have hclient : s.client [] = s.write c rest := by rw [System.client, h.alive, hw]
      have hget : s.cluster.getConnection c = some (s.cluster.getConnectionBySlot t) := by
        rw [Cluster.getConnection, ht, Option.map_some]
      rcases h.write hw with h' | ⟨e, h'⟩
      · have hrest : (s.write c rest).toWrite = rest := by
          unfold System.write
          rw [hget]
        have hlen : (s.write c rest).toWrite.length = n := by
          rw [hrest]
          simpa [hw] using hn
        obtain ⟨turns, written', hrun, hdone⟩ := ih h' hlen
        refine ⟨.client [] :: turns, written', ?_, ?_⟩
        · simpa [System.next, hclient] using hrun
        · simpa [System.next, hclient] using hdone
      · have hthrown : (s.write c rest).thrown = s.thrown := by
          unfold System.write
          rw [hget]
        rw [h'.thrown, h.alive] at hthrown
        cases hthrown

lemma Running.reply (hserve : ∀ w id c, (serve w id c).1.Sendable)
    (h : Running cs es s written answered) {c : Command} {rest : List Command} {id : NodeId}
    (hw : s.toWrite = []) (hc : s.commands = c :: rest) (hid : route s.cluster c = some id)
    (hout : s.outbox id = []) :
    Running cs (es ++ (s.node serve id).2.toList) (s.node serve id).1 written answered ∧
      (s.node serve id).1.toWrite = [] ∧ (s.node serve id).1.commands = c :: rest ∧
      route (s.node serve id).1.cluster c = some id ∧ (s.node serve id).1.outbox id ≠ [] := by
  obtain ⟨hall, -⟩ := h.next_route hw hc
  refine ⟨h.node hserve id, ?_⟩
  -- the request is on its way to the node
  obtain ⟨rest', hread⟩ : ∃ rest', readRequest (s.inbox id) = some (c, rest') := by
    obtain ⟨unread, waiting, hd, hwr, ho, hi⟩ := h.books id
    have hunread : unread = [] := by
      rcases unread with _ | ⟨a, unread⟩
      · rfl
      · rw [hout, List.flatMap_cons, eq_comm, List.append_eq_nil_iff] at ho
        exact absurd ho.1 (encode_ne_nil a.2)
    have hmap : (answered.filter fun a => mine s.cluster id a.1).map Prod.fst =
        (answered.map Prod.fst).filter (mine s.cluster id) := by
      rw [List.filter_map]
      rfl
    have hmine : mine s.cluster id c = true := by simp [mine, hid]
    rw [hall, hd, hunread, List.append_nil, hmap, List.filter_append, List.filter_cons,
      if_pos hmine] at hwr
    have := List.append_cancel_left hwr
    rw [hi, ← this, List.flatMap_cons]
    exact ⟨_, readRequest_inverts c _⟩
  rcases hsv : serve s.world id c with ⟨r, w⟩
  rw [node_eq hread hsv]
  refine ⟨hw, hc, hid, ?_⟩
  change Function.update s.outbox id (s.outbox id ++ encode r) id ≠ []
  rw [Function.update_self, hout, List.nil_append]
  exact encode_ne_nil r

lemma Running.read_all (hserve : ∀ w id c, (serve w id c).1.Sendable)
    (h : Running cs es s written answered) (hw : s.toWrite = []) :
    ∃ turns, (after (System.next serve) s turns).Finished ∨
      ∃ message, (after (System.next serve) s turns).thrown = some (.server message) := by
  generalize hn : s.commands.length = n
  induction n generalizing s es answered with
  | zero => exact ⟨[], .inl ⟨h.alive, hw, List.length_eq_zero_iff.mp hn⟩⟩
  | succ n ih =>
    rcases hc : s.commands with _ | ⟨c, rest⟩
    · simp [hc] at hn
    · obtain ⟨-, id, hid⟩ := h.next_route hw hc
      -- with the reply there, the client goes on
      have hread : ∀ {es' : List (NodeId × Command × Response)} {s' : System σ},
          Running cs es' s' written answered → s'.toWrite = [] → s'.commands = c :: rest →
          route s'.cluster c = some id → s'.outbox id ≠ [] →
          ∃ turns, (after (System.next serve) s' turns).Finished ∨
            ∃ message, (after (System.next serve) s' turns).thrown = some (.server message) := by
        intro es' s' h' hw' hc' hid' hout'
        have hclient : s'.client [] = s'.readResponse [] c rest := by
          rw [System.client, h'.alive, hw', hc']
        rcases h'.readResponse [] hw' hc' hid' hout' with ⟨answered', hrun, hw'', hc''⟩ | ⟨m, hstop⟩
        · have hlen : (s'.readResponse [] c rest).commands.length = n := by
            rw [hc'']
            simpa [hc] using hn
          obtain ⟨turns, hturns⟩ := ih hrun hw'' hlen
          exact ⟨.client [] :: turns, by simpa [System.next, hclient] using hturns⟩
        · exact ⟨[.client []], .inr ⟨m, by simpa [System.next, hclient] using hstop.thrown⟩⟩
      by_cases hout : s.outbox id = []
      · obtain ⟨hrun, hw', hc', hid', hout'⟩ := h.reply hserve hw hc hid hout
        obtain ⟨turns, hturns⟩ := hread hrun hw' hc' hid' hout'
        exact ⟨.node id :: turns, by simpa [System.next] using hturns⟩
      · exact hread h hw hc hid hout

end Invariant

/-! ### Pipelines -/

variable {serve : Serve σ} {s0 : System σ}

lemma inv_execute (hserve : ∀ w id c, (serve w id c).1.Sendable) (hclean : s0.Clean)
    (hpool : Pooled s0.cluster) (turns : List Turn) :
    Inv s0.commands (shown (System.next serve) s0.execute turns)
      (after (System.next serve) s0.execute turns) := by
  have h0 : Inv s0.commands [] s0.execute := .inl ⟨_, _, running_execute hclean hpool⟩
  have h := shown_invariant (fun es s x (h : Inv s0.commands es s) => h.next hserve x) h0 turns
  rwa [List.nil_append] at h

end Pipeline

lemma pooled_client {config : List NodeId} (h : config ≠ []) :
    Pooled (RedisCluster.client config) := by
  intro t id ht
  rw [(client_spec config h).2.1] at ht
  cases ht

def echo : Serve Unit := fun w _ c => (.string ((c.arguments.headD []).take 10), w)

lemma echo_sendable (w : Unit) (id : NodeId) (c : Command) : (echo w id c).1.Sendable := by
  have hlen : ((c.arguments.headD []).take 10).length ≤ 10 := by simp
  change ((c.arguments.headD []).take 10).length < 2 ^ 63
  omega

/-- A client of two nodes with a queue of `GET`. -/
def getting (keys : List String) : System Unit where
  world := ()
  cluster := RedisCluster.client [lit "a:1", lit "b:1"]
  commands := keys.map fun key => ⟨lit "GET", [lit key]⟩

lemma getting_clean (keys : List String) : (getting keys).Clean := fun _ => ⟨rfl, rfl⟩

/-- The keys `b` and `a` are on two nodes, and the second node is the first to answer. -/
def crossed : List Turn :=
  [.client [], .client [], .node (lit "b:1"), .client [], .node (lit "a:1"), .client [1],
    .client []]

example : (after (System.next echo) (getting ["b", "a"]).execute crossed).responses.map encode =
    [bulk (lit "b"), bulk (lit "a")] := by decide +kernel

/-- A pipeline whose first connection fails while the replies are read, and a command behind it. -/
def broken : System Unit :=
  { after (System.next echo) (getting ["b", "a"]).execute
      [.client [], .client [], .node (lit "a:1"), .node (lit "b:1"), .lost] with
    commands := [⟨lit "GET", [lit "d"]⟩] }

/-- It gets the reply to `a`: a connection that fails leaves the others as they are. -/
example : (after (System.next echo) broken.execute [.client [], .client []]).responses.map encode =
    [bulk (lit "a")] := by decide +kernel

section Pipeline

variable {σ : Type} {serve : Serve σ} {s0 : System σ}

/-- **A pipeline can always go on**, to its last reply or to an error of a node, unless it has
stopped. -/
theorem pipeline_goes_on (hserve : ∀ w id c, (serve w id c).1.Sendable) (hclean : s0.Clean)
    (hpool : Pooled s0.cluster) (hcs : ∀ c ∈ s0.commands, (getSlot c).isSome) (turns : List Turn)
    (halive : (after (System.next serve) s0.execute turns).thrown = none) :
    ∃ more, (after (System.next serve) s0.execute (turns ++ more)).Finished ∨
      ∃ message, (after (System.next serve) s0.execute (turns ++ more)).thrown =
        some (.server message) := by
  rcases inv_execute hserve hclean hpool turns with ⟨written, answered, h⟩ | ⟨e, answered, h⟩
  · obtain ⟨turns1, written', hrun, hw⟩ := h.write_all serve hcs
    obtain ⟨turns2, hturns⟩ := hrun.read_all hserve hw
    refine ⟨turns1 ++ turns2, ?_⟩
    rw [after_append, after_append]
    exact hturns
  · rw [h.thrown] at halive
    cases halive

end Pipeline

theorem pipeline_goes_on_crossed :
    ∃ more, (after (System.next echo) (getting ["b", "a"]).execute
        ([.client []] ++ more)).Finished ∨
      ∃ message, (after (System.next echo) (getting ["b", "a"]).execute
        ([.client []] ++ more)).thrown = some (.server message) :=
  pipeline_goes_on echo_sendable (getting_clean _) (pooled_client (by simp)) (by decide +kernel)
    [.client []] (by rfl)

end NgxMapping.ClusterPipeline
