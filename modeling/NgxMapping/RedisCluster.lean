import NgxMapping.RedisStrategy

/-!
`scripts/redis/Predis/Connection/Aggregate/RedisCluster.php`: the node a command is sent to.

The client guesses the node of a slot from the order of its connections until it is told the
slots of the nodes. It asks for them when a node answers a single command with `MOVED`; the
commands of a pipeline are not sent again. So the loaders begin with a write of their own, and
whether their pipelines reach the right nodes depends on what becomes of it.
-/

namespace NgxMapping.RedisCluster

open Lib Resp RedisStrategy

/-- `host:port`, under which a connection is in the pool. -/
abbrev NodeId := Bytes

/-- The properties of a `RedisCluster`. There is one connection for an id, and the id stands for
it. -/
structure Cluster where
  pool : List NodeId := []
  slots : ℤ → Option NodeId := fun _ => none
  slotsMap : Option (ℤ → Option NodeId) := none

namespace Cluster

/-- `$this->pool[$id] = …`: an id that is there keeps its place. -/
def setPool (st : Cluster) (id : NodeId) : Cluster :=
  { st with pool := if id ∈ st.pool then st.pool else st.pool ++ [id] }

/-- `$this->slots[$slot] = …` -/
def setSlot (st : Cluster) (slot : ℤ) (id : NodeId) : Cluster :=
  { st with slots := Function.update st.slots slot (some id) }

def add (st : Cluster) (id : NodeId) : Cluster := { st.setPool id with slotsMap := none }

/-- No connection of the loaders has a `slots` parameter. -/
def buildSlotsMap (st : Cluster) : Cluster := { st with slotsMap := some fun _ => none }

def getSlotsMap (st : Cluster) : ℤ → Option NodeId := st.slotsMap.getD fun _ => none

/-- `none` is an `OutOfBoundsException`. The slots that are known stay as they are. -/
def setSlots (st : Cluster) (first last : ℤ) (id : NodeId) : Option Cluster :=
  if first < 0 ∨ first > 0x3FFF ∨ last < 0 ∨ last > 0x3FFF ∨ last < first then none
  else some { st with slotsMap := some fun s =>
    (st.getSlotsMap s).or (if first ≤ s ∧ s ≤ last then some id else none) }

/-- The connection of a slot if every node has as many slots as every other. -/
def guessed (pool : List NodeId) (slot : ℕ) : NodeId :=
  pool.getD (min (slot / (16384 / pool.length)) (pool.length - 1)) []

def guessNode (st : Cluster) (slot : ℕ) : NodeId × Cluster :=
  let st := if st.slotsMap.isSome then st else st.buildSlotsMap
  match st.getSlotsMap slot with
  | some id => (id, st)
  | none => (guessed st.pool slot, st)

def getConnectionBySlot (st : Cluster) (slot : ℕ) : NodeId × Cluster :=
  match st.slots slot with
  | some id => (id, st)
  | none =>
    let (id, st) := st.guessNode slot
    (id, (st.setPool id).setSlot slot id)

/-- `none` is a `NotSupportedException`. -/
def getConnection (st : Cluster) (c : Command) : Option (NodeId × Cluster) :=
  (getSlot c).map st.getConnectionBySlot

def move (st : Cluster) (id : NodeId) (slot : ℤ) : Cluster := (st.setPool id).setSlot slot id

end Cluster

/-! ### Commands of their own -/

section Execute

variable {σ : Type}

/-- What a node answers to a command, and what becomes of the nodes. -/
abbrev Serve (σ : Type) := σ → NodeId → Command → Response × σ

/-- `explode(' ', $s, 2)`. -/
def explode (s : Bytes) : Bytes × Bytes := (s.takeWhile (· ≠ 32), (s.dropWhile (· ≠ 32)).tail)

/-- What `askSlotsMap` takes of a row: the slots, and the host and the port of the master. -/
def row : Response → Option (ℤ × ℤ × Bytes × ℤ)
  | .array (.integer start :: .integer stop :: .array (.string host :: .integer port :: _) :: _) =>
    some (start, stop, host, port)
  | _ => none

/-- A master without a host is the node that answers. -/
def address (id : NodeId) (host : Bytes) (port : ℤ) : NodeId :=
  if host = [] then id else host ++ 58 :: toStr port

def clusterSlots : Command := ⟨lit "CLUSTER", [lit "SLOTS"]⟩

def asking : Command := ⟨lit "ASKING", []⟩

/-- The loop of `askSlotsMap` over the rows. -/
def setRows (id : NodeId) : List Response → Cluster → Option Cluster
  | [], st => some st
  | r :: rs, st => do
    let (start, stop, host, port) ← row r
    let st ← st.setSlots start stop (address id host port)
    setRows id rs st

variable (serve : Serve σ)

/-- `none` is an exception, or a row of another shape. A response that is no array, such as an
error, is not thrown but walked over, and brings nothing. -/
def askSlotsMap (w : σ) (st : Cluster) (id : NodeId) : Option (Cluster × σ) :=
  match serve w id clusterSlots with
  | (.array rows, w) => (setRows id rows st).map fun st => (st, w)
  | (_, w) => some (st, w)

/-- `RedisCluster::executeCommand`, with at most so many nodes asked after a `MOVED`. -/
def executeCommand : ℕ → σ → Cluster → Command → Option (Response × Cluster × σ)
  | 0, _, _, _ => none
  | n + 1, w, st, c => do
    let (id, st) ← st.getConnection c
    match serve w id c with
    | (.error message, w) =>
      let details := explode (explode message).2
      if (explode message).1 = lit "MOVED" then do
        let (st, w) ← askSlotsMap serve w st details.2
        executeCommand n w (st.move details.2 (strtol details.1)) c
      else if (explode message).1 = lit "ASK" then
        let (response, w) := serve (serve w details.2 asking).2 details.2 c
        return (response, st, w)
      else return (.error message, st, w)
    | (response, w) => return (response, st, w)

/-- `new Client($config, array('cluster' => 'redis'))`. -/
def client (config : List NodeId) : Cluster := config.foldl Cluster.add {}

/-- The write of `initRedis`. -/
def firstWrite : Command := ⟨lit "SET", [lit "fuck", lit "you"]⟩

end Execute

/-! ### A cluster at rest -/

section AtRest

variable {σ : Type}

/-- A row is of one node, as the slots go. -/
structure RowOf (owner : ℕ → NodeId) (id : NodeId) (start stop : ℤ) (host : Bytes) (port : ℤ) :
    Prop where
  first : 0 ≤ start
  order : start ≤ stop
  last : stop ≤ 0x3FFF
  owns : ∀ s : ℕ, start ≤ s → s ≤ stop → owner s = address id host port

/-- The rows are of one node each, and there is one for every slot. -/
structure Describes (owner : ℕ → NodeId) (id : NodeId) (rows : List Response) : Prop where
  valid : ∀ r ∈ rows, ∃ start stop host port,
    row r = some (start, stop, host, port) ∧ RowOf owner id start stop host port
  covers : ∀ s : ℕ, s < 16384 → ∃ r ∈ rows, ∃ start stop host port,
    row r = some (start, stop, host, port) ∧ start ≤ s ∧ s ≤ stop

/-- Every slot has its node, every node knows it, and nothing moves. -/
structure AtRest (serve : Serve σ) (owner : ℕ → NodeId) : Prop where
  own : ∀ w c s message, getSlot c = some s → (serve w (owner s) c).1 = .error message →
    (explode message).1 ≠ lit "MOVED" ∧ (explode message).1 ≠ lit "ASK"
  moved : ∀ w id c s, getSlot c = some s → id ≠ owner s →
    serve w id c = (.error (lit "MOVED " ++ natStr s ++ 32 :: owner s), w)
  slots : ∀ w s, s < 16384 → ∃ rows,
    serve w (owner s) clusterSlots = (.array rows, w) ∧ Describes owner (owner s) rows

end AtRest

/-! ### The table of slots -/

lemma getSlot_lt {c : Command} {s : ℕ} (h : getSlot c = some s) : s < 16384 := by
  unfold getSlot at h
  split at h
  · cases h
  · obtain ⟨k, -, rfl⟩ := Option.map_eq_some_iff.mp h
    exact getSlotByKey_lt k

/-- Valid rows are all taken over. A slot that was known keeps its node, another gets its owner. -/
lemma setRows_spec {owner : ℕ → NodeId} {id : NodeId} (rows : List Response) (st : Cluster)
    (hrows : ∀ r ∈ rows, ∃ start stop host port,
      row r = some (start, stop, host, port) ∧ RowOf owner id start stop host port) :
    ∃ m, setRows id rows st = some { st with slotsMap := m } ∧
      ∀ s : ℕ, ∃ o, m.getD (fun _ => none) s = (st.getSlotsMap s).or o ∧
        (o = none ∨ o = some (owner s)) ∧
        (∀ r ∈ rows, ∀ start stop host port, row r = some (start, stop, host, port) →
          start ≤ s → s ≤ stop → o = some (owner s)) := by
  induction rows generalizing st with
  | nil => exact ⟨st.slotsMap, rfl, fun s => ⟨none, by simp [Cluster.getSlotsMap], by simp⟩⟩
  | cons r rows ih =>
    obtain ⟨start, stop, host, port, hr, hrow⟩ := hrows r (by simp)
    have hset := hrow.first
    have horder := hrow.order
    have hlast := hrow.last
    -- the map after this row
    let m1 : ℤ → Option NodeId := fun s =>
      (st.getSlotsMap s).or (if start ≤ s ∧ s ≤ stop then some (address id host port) else none)
    obtain ⟨m, hm, hspec⟩ := ih { st with slotsMap := some m1 }
      fun r' hr' => hrows r' (by simp [hr'])
    refine ⟨m, ?_, ?_⟩
    · rw [setRows, hr]
      simp only [Option.bind_eq_bind, Option.bind_some, Cluster.setSlots]
      rw [if_neg (by omega)]
      exact hm
    · intro s
      obtain ⟨o, ho, hcases, hcov⟩ := hspec s
      have hown : ∀ h : start ≤ s ∧ s ≤ stop, address id host port = owner s :=
        fun h => (hrow.owns s h.1 h.2).symm
      refine ⟨(if start ≤ (s : ℤ) ∧ s ≤ stop then some (owner s) else none).or o, ?_, ?_, ?_⟩
      · rw [ho, ← Option.or_assoc]
        congr 2
        by_cases h : start ≤ (s : ℤ) ∧ s ≤ stop
        · simp [Cluster.getSlotsMap, m1, if_pos h, hown h]
        · simp [Cluster.getSlotsMap, m1, if_neg h]
      · by_cases h : start ≤ (s : ℤ) ∧ s ≤ stop
        · rw [if_pos h]
          exact .inr rfl
        · rw [if_neg h, Option.none_or]
          exact hcases
      · intro r' hr' start' stop' host' port' hrow' h1 h2
        rcases List.mem_cons.mp hr' with rfl | hr'
        · rw [hr, Option.some.injEq, Prod.mk.injEq, Prod.mk.injEq] at hrow'
          rw [if_pos ⟨hrow'.1 ▸ h1, hrow'.2.1 ▸ h2⟩]
          rfl
        · by_cases h : start ≤ (s : ℤ) ∧ s ≤ stop
          · rw [if_pos h]
            rfl
          · rw [if_neg h, Option.none_or]
            exact hcov r' hr' start' stop' host' port' hrow' h1 h2

/-! ### The connections of a pipeline -/

/-- The nodes to which `executePipeline` writes its commands. -/
def connections : Cluster → List Command → Option (List NodeId)
  | _, [] => some []
  | st, c :: cs => do
    let (id, st) ← st.getConnection c
    let ids ← connections st cs
    return id :: ids

/-- The slots are known. -/
structure Settled (owner : ℕ → NodeId) (st : Cluster) : Prop where
  cached : ∀ s : ℕ, s < 16384 → ∀ id, st.slots s = some id → id = owner s
  known : ∀ s : ℕ, s < 16384 → st.getSlotsMap s = some (owner s)

/-- No slot is known, and every connection is a guess. -/
structure Guessing (pool : List NodeId) (st : Cluster) : Prop where
  pool_eq : st.pool = pool
  cached : ∀ s : ℕ, ∀ id, st.slots s = some id → id = Cluster.guessed pool s
  unknown : st.slotsMap = some fun _ => none

lemma guessed_mem {pool : List NodeId} (h : pool ≠ []) (s : ℕ) : Cluster.guessed pool s ∈ pool := by
  have hpos : 0 < pool.length := List.length_pos_iff.mpr h
  have hlt : min (s / (16384 / pool.length)) (pool.length - 1) < pool.length := by omega
  rw [Cluster.guessed, List.getD_eq_getElem _ _ hlt]
  exact List.getElem_mem hlt

lemma setPool_of_mem {st : Cluster} {id : NodeId} (h : id ∈ st.pool) : st.setPool id = st := by
  rw [Cluster.setPool, if_pos h]

lemma slots_setSlot (st : Cluster) (s t : ℕ) (id : NodeId) :
    (st.setSlot s id).slots t = if t = s then some id else st.slots t := by
  change Function.update st.slots (s : ℤ) (some id) t = _
  rw [Function.update_apply]
  simp only [Nat.cast_inj]

lemma Settled.getConnectionBySlot {owner : ℕ → NodeId} {st : Cluster} (h : Settled owner st)
    {s : ℕ} (hs : s < 16384) :
    ∃ st', st.getConnectionBySlot s = (owner s, st') ∧ Settled owner st' := by
  unfold Cluster.getConnectionBySlot
  rcases hc : st.slots s with _ | id
  · have hknown := h.known s hs
    have hsome : st.slotsMap.isSome := by
      rcases hm : st.slotsMap with _ | m
      · simp [Cluster.getSlotsMap, hm] at hknown
      · rfl
    simp only [Cluster.guessNode, if_pos hsome, hknown]
    refine ⟨_, rfl, ?_, fun t ht => h.known t ht⟩
    intro t ht id hid
    rw [slots_setSlot] at hid
    split at hid
    · rename_i hts
      rw [hts, ← Option.some.inj hid]
    · exact h.cached t ht id hid
  · exact ⟨st, by rw [h.cached s hs id hc], h⟩

lemma Guessing.getConnectionBySlot {pool : List NodeId} {st : Cluster} (hne : pool ≠ [])
    (h : Guessing pool st) (s : ℕ) :
    ∃ st', st.getConnectionBySlot s = (Cluster.guessed pool s, st') ∧ Guessing pool st' := by
  unfold Cluster.getConnectionBySlot
  rcases hc : st.slots s with _ | id
  · have hsome : st.slotsMap.isSome := by rw [h.unknown]; rfl
    have hmap : st.getSlotsMap s = none := by rw [Cluster.getSlotsMap, h.unknown]; rfl
    simp only [Cluster.guessNode, if_pos hsome, hmap, h.pool_eq]
    rw [setPool_of_mem (h.pool_eq ▸ guessed_mem hne s)]
    refine ⟨_, rfl, h.pool_eq, ?_, h.unknown⟩
    intro t id hid
    rw [slots_setSlot] at hid
    split at hid
    · rename_i hts
      rw [hts, ← Option.some.inj hid]
    · exact h.cached t id hid
  · exact ⟨st, by rw [h.cached s id hc], h⟩

def slotOf (c : Command) : ℕ := (getSlot c).getD 0

lemma getSlot_slotOf {c : Command} (h : (getSlot c).isSome) : getSlot c = some (slotOf c) := by
  obtain ⟨s, hs⟩ := Option.isSome_iff_exists.mp h
  rw [slotOf, hs]
  rfl

/-- A property of the state that every connection keeps decides where the commands go. -/
lemma connections_eq {I : Cluster → Prop} {target : ℕ → NodeId}
    (hstep : ∀ st s, I st → s < 16384 →
      ∃ st', st.getConnectionBySlot s = (target s, st') ∧ I st')
    (cs : List Command) (hcs : ∀ c ∈ cs, (getSlot c).isSome) (st : Cluster) (h : I st) :
    connections st cs = some (cs.map fun c => target (slotOf c)) := by
  induction cs generalizing st with
  | nil => rfl
  | cons c cs ih =>
    have hc := getSlot_slotOf (hcs c (by simp))
    obtain ⟨st', hst', hI⟩ := hstep st (slotOf c) h (getSlot_lt hc)
    rw [connections, Cluster.getConnection, hc, Option.map_some, hst']
    simp only [Option.bind_eq_bind, Option.bind_some]
    rw [ih (fun d hd => hcs d (by simp [hd])) st' hI]
    rfl

/-! ### The first write -/

lemma explode_append {a b : Bytes} (h : 32 ∉ a) : explode (a ++ 32 :: b) = (a, b) := by
  have hpos : ∀ c ∈ a, decide (c ≠ 32) = true := by
    intro c hc
    have : c ≠ 32 := fun he => h (he ▸ hc)
    simpa using this
  rw [explode, List.takeWhile_append_of_pos hpos, List.dropWhile_append_of_pos hpos]
  simp

lemma explode_moved (s : ℕ) (id : NodeId) :
    explode (lit "MOVED " ++ natStr s ++ 32 :: id) = (lit "MOVED", natStr s ++ 32 :: id) := by
  have hsplit : lit "MOVED " ++ natStr s ++ 32 :: id =
      lit "MOVED" ++ 32 :: (natStr s ++ 32 :: id) := by
    rw [List.append_assoc]
    rfl
  rw [hsplit, explode_append (by decide)]

section FirstWrite

variable {σ : Type} {serve : Serve σ} {owner : ℕ → NodeId}

lemma client_spec (config : List NodeId) (hne : config ≠ []) :
    (client config).pool ≠ [] ∧ (client config).slots = (fun _ => none) ∧
      (client config).slotsMap = none := by
  have hadd : ∀ (ids : List NodeId) (st : Cluster), st.slots = (fun _ => none) →
      st.slotsMap = none → (ids ≠ [] ∨ st.pool ≠ []) →
      (ids.foldl Cluster.add st).pool ≠ [] ∧ (ids.foldl Cluster.add st).slots = (fun _ => none) ∧
        (ids.foldl Cluster.add st).slotsMap = none := by
    intro ids
    induction ids with
    | nil => exact fun st hs hm hp => ⟨hp.resolve_left (by simp), hs, hm⟩
    | cons id ids ih =>
      intro st hs hm _
      apply ih
      · exact hs
      · rfl
      · right
        simp only [Cluster.add, Cluster.setPool]
        split
        · rename_i hmem
          exact List.ne_nil_of_mem hmem
        · simp
  exact hadd config {} rfl rfl (.inl hne)

lemma executeCommand_own (h : AtRest serve owner) {c : Command} {s : ℕ} (hc : getSlot c = some s)
    (n : ℕ) (w : σ) {st st' : Cluster} (hst : st.getConnectionBySlot s = (owner s, st')) :
    executeCommand serve (n + 1) w st c =
      some ((serve w (owner s) c).1, st', (serve w (owner s) c).2) := by
  have hget : st.getConnection c = some (owner s, st') := by
    rw [Cluster.getConnection, hc, Option.map_some, hst]
  have hown := h.own w c s
  rw [executeCommand, hget]
  simp only [Option.bind_eq_bind, Option.bind_some]
  rcases hr : serve w (owner s) c with ⟨r, w'⟩
  rw [hr] at hown
  cases r with
  | error message =>
    obtain ⟨h1, h2⟩ := hown message hc rfl
    simp only [if_neg h1, if_neg h2]
    rfl
  | _ => rfl

lemma executeCommand_moved (h : AtRest serve owner) {c : Command} {s : ℕ} (hc : getSlot c = some s)
    (n : ℕ) (w : σ) {st st' : Cluster} {id : NodeId} (hst : st.getConnectionBySlot s = (id, st'))
    (hid : id ≠ owner s) (hmap : ∀ t : ℤ, st'.getSlotsMap t = none)
    (hslots : ∀ t : ℕ, t ≠ s → st'.slots t = none) :
    ∃ st'', executeCommand serve (n + 2) w st c =
      some ((serve w (owner s) c).1, st'', (serve w (owner s) c).2) ∧ Settled owner st'' := by
  have hlt := getSlot_lt hc
  have hget : st.getConnection c = some (id, st') := by
    rw [Cluster.getConnection, hc, Option.map_some, hst]
  obtain ⟨rows, hrows, hdesc⟩ := h.slots w s hlt
  obtain ⟨m, hm, hspec⟩ := setRows_spec rows st' hdesc.valid
  have hask : askSlotsMap serve w st' (owner s) = some ({ st' with slotsMap := m }, w) := by
    rw [askSlotsMap, hrows]
    simp only [hm, Option.map_some]
  -- the state in which the command is sent again
  have hsettled : Settled owner (Cluster.move { st' with slotsMap := m } (owner s) s) := by
    constructor
    · intro t _ id' hid'
      rw [Cluster.move, slots_setSlot] at hid'
      split at hid'
      · rename_i hts
        rw [hts, ← Option.some.inj hid']
      · rename_i hts
        exact absurd (hid'.symm.trans (hslots t hts)) (by simp)
    · intro t ht
      obtain ⟨o, ho, -, hcov⟩ := hspec t
      obtain ⟨r, hr, start, stop, host, port, hrow, h1, h2⟩ := hdesc.covers t ht
      have := hcov r hr start stop host port hrow h1 h2
      change m.getD (fun _ => none) t = some (owner t)
      rw [ho, hmap, this]
      rfl
  obtain ⟨st'', hst'', hset⟩ := hsettled.getConnectionBySlot hlt
  refine ⟨st'', ?_, hset⟩
  have hnum : 32 ∉ natStr s := fun hmem => absurd (isdigit_of_mem_natStr hmem) (by decide)
  rw [executeCommand, hget]
  simp only [Option.bind_eq_bind, Option.bind_some, h.moved w id c s hc hid, explode_moved,
    explode_append hnum, if_true, hask, strtol_natStr s (by omega)]
  exact executeCommand_own h hc n w hst''

lemma executeCommand_first (h : AtRest serve owner) {config : List NodeId} (hne : config ≠ [])
    {c : Command} {s : ℕ} (hc : getSlot c = some s) (n : ℕ) (w : σ) :
    ∃ st, executeCommand serve (n + 2) w (client config) c =
        some ((serve w (owner s) c).1, st, (serve w (owner s) c).2) ∧
      if Cluster.guessed (client config).pool s = owner s then Guessing (client config).pool st
      else Settled owner st := by
  obtain ⟨hpool, hslots, hmap⟩ := client_spec config hne
  generalize client config = st0 at hpool hslots hmap ⊢
  -- the client guesses the node of this slot and knows nothing else
  have hget : st0.getConnectionBySlot s = (Cluster.guessed st0.pool s,
      st0.buildSlotsMap.setSlot s (Cluster.guessed st0.pool s)) := by
    have hmem : Cluster.guessed st0.pool s ∈ st0.buildSlotsMap.pool := guessed_mem hpool s
    rw [Cluster.getConnectionBySlot, hslots]
    simp only [Cluster.guessNode, hmap, Option.isSome_none, Bool.false_eq_true, if_false]
    change (Cluster.guessed st0.pool s,
      (st0.buildSlotsMap.setPool (Cluster.guessed st0.pool s)).setSlot s _) = _
    rw [setPool_of_mem hmem]
    rfl
  have hnone : ∀ t : ℕ, st0.buildSlotsMap.slots t = none := by
    intro t
    change st0.slots t = none
    rw [hslots]
  split
  · rename_i hg
    have hget' := hget
    rw [hg] at hget'
    refine ⟨_, executeCommand_own h hc (n + 1) w hget', rfl, ?_, rfl⟩
    intro t id hid
    rw [slots_setSlot] at hid
    split at hid
    · rename_i hts
      rw [hts, hg, ← Option.some.inj hid]
    · rw [hnone] at hid
      cases hid
  · rename_i hg
    apply executeCommand_moved h hc n w hget hg
    · intro t
      rfl
    · intro t ht
      rw [slots_setSlot, if_neg ht, hnone]

lemma map_eq_map_iff {f g : Command → NodeId} {cs : List Command} :
    some (cs.map f) = some (cs.map g) ↔ ∀ c ∈ cs, f c = g c := by
  rw [Option.some.injEq, List.map_inj_left]

/-- **The first write decides where the pipelines go.** In a cluster at rest the first command of a
client is answered by its node. If the client had guessed another, all commands of the pipelines
behind it go to their nodes; if it had guessed right, those do whose nodes it guesses right. -/
theorem first_write_decides (h : AtRest serve owner) {config : List NodeId} (hne : config ≠ [])
    {first : Command} (hfirst : (getSlot first).isSome) (w : σ) :
    ∃ st, executeCommand serve 2 w (client config) first =
        some ((serve w (owner (slotOf first)) first).1, st,
          (serve w (owner (slotOf first)) first).2) ∧
      ∀ cs : List Command, (∀ c ∈ cs, (getSlot c).isSome) →
        (connections st cs = some (cs.map fun c => owner (slotOf c)) ↔
          Cluster.guessed (client config).pool (slotOf first) ≠ owner (slotOf first) ∨
          ∀ c ∈ cs, Cluster.guessed (client config).pool (slotOf c) = owner (slotOf c)) := by
  obtain ⟨st, hexec, hst⟩ := executeCommand_first h hne (getSlot_slotOf hfirst) 0 w
  obtain ⟨hpool, -, -⟩ := client_spec config hne
  refine ⟨st, hexec, ?_⟩
  intro cs hcs
  split at hst
  · rename_i hg
    have hI : ∀ st s, Guessing (client config).pool st → s < 16384 → ∃ st',
        st.getConnectionBySlot s = (Cluster.guessed (client config).pool s, st') ∧
          Guessing (client config).pool st' := fun st s hst _ => hst.getConnectionBySlot hpool s
    rw [connections_eq hI cs hcs st hst, map_eq_map_iff]
    exact ⟨.inr, fun hor => hor.resolve_left (by simpa using hg)⟩
  · rename_i hg
    have hI : ∀ st s, Settled owner st → s < 16384 → ∃ st',
        st.getConnectionBySlot s = (owner s, st') ∧ Settled owner st' :=
      fun st s hst hs => hst.getConnectionBySlot hs
    rw [connections_eq hI cs hcs st hst]
    exact ⟨fun _ => .inl hg, fun _ => rfl⟩

end FirstWrite

/-! ### Two nodes -/

def halves (s : ℕ) : NodeId := if s < 8192 then lit "b:1" else lit "a:1"

/-- Two nodes that are at rest, for the answers they give to commands of their own slots. -/
def twoNodes {σ : Type} (answer : Serve σ) : Serve σ := fun w id c =>
  match getSlot c with
  | some s =>
    if id = halves s then answer w id c
    else (.error (lit "MOVED " ++ natStr s ++ 32 :: halves s), w)
  | none =>
    (.array [.array [.integer 0, .integer 8191, .array [.string (lit "b"), .integer 1]],
      .array [.integer 8192, .integer 16383, .array [.string (lit "a"), .integer 1]]], w)

lemma twoNodes_atRest {σ : Type} {answer : Serve σ}
    (h : ∀ w id c message, (answer w id c).1 ≠ .error message) :
    AtRest (twoNodes answer) halves where
  own w c s message hc hr := by
    simp only [twoNodes, hc, if_true] at hr
    exact absurd hr (h _ _ _ _)
  moved w id c s hc hid := by simp only [twoNodes, hc, if_neg hid]
  slots w s _ := by
    have hnone : getSlot clusterSlots = none := by decide +kernel
    refine ⟨_, by simp only [twoNodes, hnone]; rfl, ?_, ?_⟩
    · intro r hr
      rcases List.mem_cons.mp hr with rfl | hr
      · refine ⟨0, 8191, lit "b", 1, rfl, by omega, by omega, by omega, ?_⟩
        intro t _ ht
        rw [halves, if_pos (by omega)]
        rfl
      · rw [List.mem_singleton.mp hr]
        refine ⟨8192, 16383, lit "a", 1, rfl, by omega, by omega, by omega, ?_⟩
        intro t ht _
        rw [halves, if_neg (by omega)]
        rfl
    · intro t ht
      rcases Nat.lt_or_ge t 8192 with h | h
      · exact ⟨_, List.mem_cons_self, 0, 8191, lit "b", 1, rfl, by omega, by omega⟩
      · exact ⟨_, List.mem_cons_of_mem _ List.mem_cons_self, 8192, 16383, lit "a", 1, rfl,
          by omega, by omega⟩

def accept : Serve Unit := fun w _ _ => (.status (lit "OK"), w)

/-- The client knows the nodes in another order than that of their slots. -/
theorem first_write_decides_two :
    ∃ st, executeCommand (twoNodes accept) 2 () (client [lit "a:1", lit "b:1"]) firstWrite =
        some ((twoNodes accept () (halves (slotOf firstWrite)) firstWrite).1, st,
          (twoNodes accept () (halves (slotOf firstWrite)) firstWrite).2) ∧
      ∀ cs : List Command, (∀ c ∈ cs, (getSlot c).isSome) →
        (connections st cs = some (cs.map fun c => halves (slotOf c)) ↔
          Cluster.guessed (client [lit "a:1", lit "b:1"]).pool (slotOf firstWrite) ≠
            halves (slotOf firstWrite) ∨
          ∀ c ∈ cs, Cluster.guessed (client [lit "a:1", lit "b:1"]).pool (slotOf c) =
            halves (slotOf c)) :=
  first_write_decides (twoNodes_atRest (by simp [accept])) (by simp) (by decide +kernel) ()

end NgxMapping.RedisCluster
