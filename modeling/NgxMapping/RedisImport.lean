import NgxMapping.Lib.Replay
import NgxMapping.Scylla

/-!
`scripts/redis`: the loaders that write the pairs of a log into Redis.

Commands are queued and sent in packs of 200. A pack that fails stays in the queue while the
counter starts again from zero, so queue and counter drift apart, and commands are sent a
second time after others have come behind them. `Loading` is what holds between queue,
counter and store all the same.
-/

namespace NgxMapping.RedisImport

open Lib LogRecord Scylla

def PACK_NUM : ℕ := 200

/-- A `SET`: its key and its value. -/
abbrev Command := Bytes × Bytes

abbrev Redis := Store Bytes Bytes

/-! ### `Pipeline` -/

/-- What becomes of a call of `execute`: a connection that fails while the commands are written
has carried out some of them; one that fails while the responses are read has also taken
commands from the queue, the one it fails at included. -/
inductive Outcome
  | ok
  | writeFails (done : ℕ)
  | readFails (done responses : ℕ)

/-- `Pipeline::execute`: the contents, the queue, and whether no exception is thrown. An empty
queue is not sent. -/
def execute (outcome : Outcome) (redis : Redis) (queue : List Command) :
    Redis × List Command × Bool :=
  if queue = [] then (redis, [], true)
  else
    match outcome with
    | .ok => (replay redis queue, [], true)
    | .writeFails done => (replay redis (queue.take done), queue, false)
    | .readFails done responses =>
      (replay redis (queue.take done), queue.drop (responses + 1), false)

/-! ### The loaders -/

/-- `isset($keys[$data['ext']])` for the flipped array of one code. A decimal string is the key
of the number it writes. -/
def isNeeded (code : ℕ) : Option Value → Bool
  | none => false
  | some (.uint n) => n = code
  | some (.string s) => s = natStr code

section Loaders

variable (decode : Bytes → Option (List (Bytes × Value)))

/-- The command of a line, for a test on the decoded record and the two columns that become
key and value. `none` is a line that is passed over. -/
def commandOf (test : List (Bytes × Value) → Bool) (key value : Bytes) (line : Bytes) :
    Option Command :=
  match decode line with
  | none => none
  | some data =>
    if data = [] then none
    else if test data then
      if phpEmpty (get data (lit "uid")) || phpEmpty (get data (lit "rmid")) then none
      else some (phpString (get data key), phpString (get data value))
    else none

/-- The filter of `loadMapLogFromPip_tencent.php`. -/
def tencent : Bytes → Option Command :=
  commandOf decode (fun data => isNeeded 2 (get data (lit "ext")) &&
    looseEq (get data (lit "m")) 0 && looseEq (get data (lit "f")) 1) (lit "uid") (lit "rmid")

/-- The filter of `loadMapLogFromPip_mz.php`. -/
def miaozhen : Bytes → Option Command :=
  commandOf decode (fun data => isNeeded 6 (get data (lit "ext")) &&
    looseEq (get data (lit "m")) 0) (lit "rmid") (lit "uid")

end Loaders

/-- The variables of `startReadLogToRedis`; `results` keeps the outcomes of the calls of
`execute`, which the source does not. -/
structure Loader where
  redis : Redis
  queue : List Command := []
  perNum : ℕ := 0
  results : List Bool := []

section Load

variable (command : Bytes → Option Command) (outcome : ℕ → Outcome)

/-- A call of `execute`. -/
def flush (s : Loader) : Loader :=
  let (redis, queue, ok) := execute (outcome s.results.length) s.redis s.queue
  { s with redis := redis, queue := queue, results := s.results ++ [ok] }

/-- The body of the loop. After a success the pipeline is replaced by a new one. -/
def readLine (s : Loader) (line : Bytes) : Loader :=
  match command line with
  | none => s
  | some c =>
    let s := { s with queue := s.queue ++ [c], perNum := s.perNum + 1 }
    if 0 < s.perNum ∧ s.perNum % PACK_NUM = 0 then
      let s := flush outcome s
      if s.results.getLast? = some true then { s with queue := [], perNum := 0 }
      else { s with perNum := 0 }
    else s

/-- What is left in the queue after the loop. -/
def finish (s : Loader) : Loader := if 0 < s.perNum then flush outcome s else s

/-- What the loop reads from the standard input. -/
def inputLines : ℕ → Bytes → List Bytes
  | 0, _ => []
  | n + 1, s => if s = [] then [] else (fgets 1024 s).1 :: inputLines n (fgets 1024 s).2

/-- The write of `initRedis`. -/
def probe : Command := (lit "fuck", lit "you")

def initRedis (redis : Redis) : Redis := replay redis [probe]

def startReadLogToRedis (redis : Redis) (input : Bytes) : Loader :=
  finish outcome ((inputLines input.length input).foldl (readLine command outcome)
    { redis := initRedis redis })

end Load

/-! ### The invariant -/

/-- The failures of a connection that is lost while it is written to. -/
def Outcome.KeepsQueue : Outcome → Prop
  | .ok => True
  | .writeFails _ => True
  | .readFails _ _ => False

/-- The commands `cs` have come in. Those before the queue are in the store, over them nothing
but writes to keys of the queue, and unless the last pack has failed the counter counts the
queue. -/
structure Loading (base : Redis) (cs : List Command) (s : Loader) : Prop where
  stored : ∃ sent again, cs = sent ++ s.queue ∧ (∀ u ∈ again, u.1 ∈ s.queue.map Prod.fst) ∧
    s.redis = replay (replay base sent) again
  counted : s.results.getLast? ≠ some false → s.perNum = s.queue.length

section Load

variable {command : Bytes → Option Command} {outcome : ℕ → Outcome} {base : Redis}
  {cs : List Command} {s : Loader}

lemma Loading.redis_eq (h : Loading base cs s) (hq : s.queue = []) : s.redis = replay base cs := by
  obtain ⟨sent, again, hcs, hagain, hredis⟩ := h.stored
  have hnil : again = [] := by
    refine List.eq_nil_iff_forall_not_mem.mpr fun u hu => ?_
    have := hagain u hu
    rw [hq] at this
    simp at this
  rw [hredis, hnil, hcs, hq, List.append_nil, replay_nil]

/-- A call of `execute` writes the queue out, or it fails and leaves the queue as it was. -/
lemma Loading.flush (h : Loading base cs s) (ho : ∀ n, (outcome n).KeepsQueue) :
    (flush outcome s).perNum = s.perNum ∧
      (((flush outcome s).results.getLast? = some true ∧ (flush outcome s).queue = [] ∧
          (flush outcome s).redis = replay base cs) ∨
        ((flush outcome s).results.getLast? = some false ∧ (flush outcome s).queue ≠ [] ∧
          ∃ sent again, cs = sent ++ (flush outcome s).queue ∧
            (∀ u ∈ again, u.1 ∈ (flush outcome s).queue.map Prod.fst) ∧
            (flush outcome s).redis = replay (replay base sent) again)) := by
  refine ⟨rfl, ?_⟩
  obtain ⟨sent, again, hcs, hagain, hredis⟩ := h.stored
  unfold RedisImport.flush execute
  by_cases hq : s.queue = []
  · rw [if_pos hq]
    exact .inl ⟨List.getLast?_concat, rfl, h.redis_eq hq⟩
  · rw [if_neg hq]
    have hkeeps := ho s.results.length
    cases houtcome : outcome s.results.length with
    | ok =>
      refine .inl ⟨List.getLast?_concat, rfl, ?_⟩
      change replay s.redis s.queue = replay base cs
      rw [hredis, replay_absorb _ hagain, hcs, replay_append]
    | writeFails done =>
      refine .inr ⟨List.getLast?_concat, hq, sent, again ++ s.queue.take done, hcs, ?_, ?_⟩
      · intro u hu
        rcases List.mem_append.mp hu with hu | hu
        · exact hagain u hu
        · exact List.mem_map.mpr ⟨u, List.mem_of_mem_take hu, rfl⟩
      · change replay s.redis (s.queue.take done) = _
        rw [hredis, replay_append]
    | readFails done responses =>
      rw [houtcome] at hkeeps
      exact hkeeps.elim

lemma Loading.enqueue (h : Loading base cs s) (c : Command) :
    Loading base (cs ++ [c]) { s with queue := s.queue ++ [c], perNum := s.perNum + 1 } where
  stored := by
    obtain ⟨sent, again, hcs, hagain, hredis⟩ := h.stored
    refine ⟨sent, again, by rw [hcs, List.append_assoc], fun u hu => ?_, hredis⟩
    rw [List.map_append]
    exact List.mem_append_left _ (hagain u hu)
  counted := fun hne => by
    rw [List.length_append, List.length_singleton, h.counted hne]

variable (command) in
lemma Loading.readLine (h : Loading base cs s) (ho : ∀ n, (outcome n).KeepsQueue) (line : Bytes) :
    Loading base (cs ++ (command line).toList) (readLine command outcome s line) := by
  unfold RedisImport.readLine
  cases hc : command line with
  | none =>
    rw [Option.toList_none, List.append_nil]
    exact h
  | some c =>
    have hq := h.enqueue c
    rw [Option.toList_some]
    dsimp only
    split
    · obtain ⟨-, hflush | ⟨hlast, -, hstored⟩⟩ := hq.flush ho
      · obtain ⟨hlast, hnil, hredis⟩ := hflush
        rw [if_pos hlast]
        refine ⟨⟨cs ++ [c], [], by rw [List.append_nil], by simp, hredis⟩, fun _ => rfl⟩
      · rw [if_neg (by rw [hlast]; decide)]
        exact ⟨hstored, fun hne => absurd hlast hne⟩
    · exact hq

variable (command) in
/-- **The lines of a log keep the invariant.** -/
theorem Loading.readLines (h : Loading base cs s) (ho : ∀ n, (outcome n).KeepsQueue)
    (lines : List Bytes) :
    Loading base (cs ++ lines.filterMap command)
      (lines.foldl (RedisImport.readLine command outcome) s) := by
  induction lines generalizing cs s with
  | nil => simpa using h
  | cons line lines ih =>
    have hnext := ih (h.readLine command ho line)
    rw [List.foldl_cons, List.filterMap_cons]
    cases hc : command line with
    | none => simpa [hc] using hnext
    | some c => simpa [hc] using hnext

/-- After the last success, or when nothing has come in, nothing is left to be written. -/
lemma Loading.finish (h : Loading base cs s) (ho : ∀ n, (outcome n).KeepsQueue)
    (hend : (finish outcome s).results.getLast? = some true ∨ cs = []) :
    (finish outcome s).redis = replay base cs ∧ (finish outcome s).queue = [] := by
  unfold RedisImport.finish at hend ⊢
  split at hend
  · rename_i hper
    rw [if_pos hper]
    obtain ⟨-, ⟨-, hnil, hredis⟩ | ⟨hlast, hne, sent, again, hcs, -⟩⟩ := h.flush ho
    · exact ⟨hredis, hnil⟩
    · rcases hend with hend | rfl
      · exact absurd (hlast.symm.trans hend) (by decide)
      · exact absurd (List.append_eq_nil_iff.mp hcs.symm).2 hne
  · rename_i hper
    rw [if_neg hper]
    have hq : s.queue = [] := by
      rcases hend with hend | rfl
      · have hcount := h.counted (by rw [hend]; decide)
        exact List.length_eq_zero_iff.mp (by omega)
      · obtain ⟨sent, again, hcs, -⟩ := h.stored
        exact (List.append_eq_nil_iff.mp hcs.symm).2
    exact ⟨h.redis_eq hq, hq⟩

end Load

/-! ### The input -/

section Input

variable {command : Bytes → Option Command}

lemma inputLines_append (hbreak : ∀ l, command (l ++ [10]) = command l) (hnil : command [] = none)
    {line : Bytes} (h10 : (10 : UInt8) ∉ line) (hl : line.length < 1024) {rest : Bytes} {n : ℕ}
    (hn : (line ++ 10 :: rest).length ≤ n) :
    ∃ k, rest.length ≤ k ∧ (inputLines n (line ++ 10 :: rest)).filterMap command =
      (command line).toList ++ (inputLines k rest).filterMap command := by
  rw [List.length_append, List.length_cons] at hn
  obtain ⟨n, rfl⟩ : ∃ m, n = m + 1 := ⟨n - 1, by omega⟩
  rw [inputLines, if_neg (by simp)]
  rcases Nat.lt_or_ge (line.length + 1) 1024 with hlt | hge
  · refine ⟨n, by omega, ?_⟩
    rw [fgets_append h10 hlt, List.filterMap_cons, hbreak]
    cases command line <;> rfl
  · -- the line break is read by itself and decodes to nothing
    obtain ⟨n, rfl⟩ : ∃ m, n = m + 1 := ⟨n - 1, by omega⟩
    refine ⟨n, by omega, ?_⟩
    have hblank : fgets 1024 (10 :: rest) = ([10], rest) :=
      @fgets_append [] (by simp) (by simp) rest
    have hskip : command [10] = none := (hbreak []).trans hnil
    rw [fgets_full h10 (by omega), inputLines, if_neg (by simp), hblank, List.filterMap_cons,
      List.filterMap_cons, hskip]
    cases command line <;> rfl

lemma inputLines_lines (hbreak : ∀ l, command (l ++ [10]) = command l) (hnil : command [] = none)
    {lines : List Bytes} (hl : ∀ l ∈ lines, (10 : UInt8) ∉ l ∧ l.length < 1024) {n : ℕ}
    (hn : (lines.flatMap fun l => l ++ [10]).length ≤ n) :
    (inputLines n (lines.flatMap fun l => l ++ [10])).filterMap command =
      lines.filterMap command := by
  induction lines generalizing n with
  | nil => cases n <;> simp [inputLines]
  | cons l lines ih =>
    obtain ⟨h10, hlen⟩ := hl l (by simp)
    have hcons : (l :: lines).flatMap (fun l => l ++ [10]) =
        l ++ 10 :: lines.flatMap fun l => l ++ [10] := by simp
    rw [hcons] at hn ⊢
    obtain ⟨k, hk, heq⟩ := inputLines_append hbreak hnil h10 hlen hn
    rw [heq, ih (fun l hl' => hl l (by simp [hl'])) hk, List.filterMap_cons]
    cases command l <;> rfl

end Input

section Load

variable {command : Bytes → Option Command} {outcome : ℕ → Outcome}

/-- A loader that ends with a success has written what a write at each line would have. -/
lemma startReadLogToRedis_eq (ho : ∀ n, (outcome n).KeepsQueue)
    (hbreak : ∀ l, command (l ++ [10]) = command l) (hnil : command [] = none) (redis : Redis)
    {lines : List Bytes} (hl : ∀ l ∈ lines, (10 : UInt8) ∉ l ∧ l.length < 1024)
    (hend : (startReadLogToRedis command outcome redis
        (lines.flatMap fun l => l ++ [10])).results.getLast? = some true ∨
      ∀ l ∈ lines, command l = none) :
    (startReadLogToRedis command outcome redis (lines.flatMap fun l => l ++ [10])).redis =
        replay redis (probe :: lines.filterMap command) ∧
      (startReadLogToRedis command outcome redis
        (lines.flatMap fun l => l ++ [10])).queue = [] := by
  have hstart : Loading (initRedis redis) [] { redis := initRedis redis } :=
    ⟨⟨[], [], rfl, by simp, rfl⟩, fun _ => rfl⟩
  have hload := hstart.readLines command ho
    (inputLines (lines.flatMap fun l => l ++ [10]).length (lines.flatMap fun l => l ++ [10]))
  rw [List.nil_append, inputLines_lines hbreak hnil hl le_rfl] at hload
  exact hload.finish ho (hend.imp_right fun hno => List.filterMap_eq_nil_iff.mpr hno)

end Load

lemma commandOf_break {decode : Bytes → Option (List (Bytes × Value))}
    (hbreak : ∀ l, decode (l ++ [10]) = decode l) (test : List (Bytes × Value) → Bool)
    (key value l : Bytes) :
    commandOf decode test key value (l ++ [10]) = commandOf decode test key value l := by
  rw [commandOf, hbreak]
  rfl

lemma commandOf_nil {decode : Bytes → Option (List (Bytes × Value))} (hnil : decode [] = none)
    (test : List (Bytes × Value) → Bool) (key value : Bytes) :
    commandOf decode test key value [] = none := by
  rw [commandOf, hnil]

/-- **A pipelined import leaves what a write at each line would leave**, after the write that
opens it. -/
theorem pipelined_import (decode : Bytes → Option (List (Bytes × Value)))
    (hbreak : ∀ l, decode (l ++ [10]) = decode l) (hnil : decode [] = none)
    (outcome : ℕ → Outcome) (ho : ∀ n, (outcome n).KeepsQueue) (redis : Redis)
    (lines : List Bytes) (hl : ∀ l ∈ lines, (10 : UInt8) ∉ l ∧ l.length < 1024) :
    (((startReadLogToRedis (tencent decode) outcome redis
          (lines.flatMap fun l => l ++ [10])).results.getLast? = some true ∨
        ∀ l ∈ lines, tencent decode l = none) →
      (startReadLogToRedis (tencent decode) outcome redis
          (lines.flatMap fun l => l ++ [10])).redis =
        replay redis ((lit "fuck", lit "you") :: lines.filterMap (tencent decode)) ∧
      (startReadLogToRedis (tencent decode) outcome redis
          (lines.flatMap fun l => l ++ [10])).queue = []) ∧
    (((startReadLogToRedis (miaozhen decode) outcome redis
          (lines.flatMap fun l => l ++ [10])).results.getLast? = some true ∨
        ∀ l ∈ lines, miaozhen decode l = none) →
      (startReadLogToRedis (miaozhen decode) outcome redis
          (lines.flatMap fun l => l ++ [10])).redis =
        replay redis ((lit "fuck", lit "you") :: lines.filterMap (miaozhen decode)) ∧
      (startReadLogToRedis (miaozhen decode) outcome redis
          (lines.flatMap fun l => l ++ [10])).queue = []) :=
  ⟨startReadLogToRedis_eq ho (commandOf_break hbreak _ _ _) (commandOf_nil hnil _ _ _) redis hl,
    startReadLogToRedis_eq ho (commandOf_break hbreak _ _ _) (commandOf_nil hnil _ _ _) redis hl⟩

/-- A reader of records that passes over line breaks. -/
def lineDecode (l : Bytes) : Option (List (Bytes × Value)) :=
  LogDecode.jsonDecode (l.filter (· ≠ 10))

/-- A record of an active call of Tencent. -/
def tencentLine (uid rmid : Bytes) : Bytes :=
  lit "\x7b\"ext\":2,\"f\":1,\"m\":0,\"uid\":\"" ++ uid ++ lit "\",\"rmid\":\"" ++ rmid ++
    lit "\"\x7d"

/-- Two records with one user id: the later one counts. -/
theorem pipelined_import_twice :
    (startReadLogToRedis (tencent lineDecode) (fun _ => .ok) (fun _ => none)
      ([tencentLine (lit "U") (lit "R"), tencentLine (lit "U") (lit "S")].flatMap
        fun l => l ++ [10])).redis =
      replay (fun _ => none) ((lit "fuck", lit "you") ::
        [tencentLine (lit "U") (lit "R"), tencentLine (lit "U") (lit "S")].filterMap
          (tencent lineDecode)) ∧
    [tencentLine (lit "U") (lit "R"), tencentLine (lit "U") (lit "S")].filterMap
      (tencent lineDecode) = [(lit "U", lit "R"), (lit "U", lit "S")] := by
  have hlast : (startReadLogToRedis (tencent lineDecode) (fun _ => .ok) (fun _ => none)
      ([tencentLine (lit "U") (lit "R"), tencentLine (lit "U") (lit "S")].flatMap
        fun l => l ++ [10])).results.getLast? = some true := by decide +kernel
  have h := pipelined_import lineDecode (fun l => by simp [lineDecode]) (by decide) (fun _ => .ok)
    (fun _ => trivial) (fun _ => none)
    [tencentLine (lit "U") (lit "R"), tencentLine (lit "U") (lit "S")] (by decide +kernel)
  exact ⟨(h.1 (.inl hlast)).1, by decide +kernel⟩

/-- The loader leaves a key of its own in an empty Redis. -/
theorem import_leaves_probe :
    (∀ l ∈ ([] : List Bytes), tencent lineDecode l = none) ∧
    (startReadLogToRedis (tencent lineDecode) (fun _ => .ok) (fun _ => none)
      (([] : List Bytes).flatMap fun l => l ++ [10])).redis ≠
        replay (fun _ => none) (([] : List Bytes).filterMap (tencent lineDecode)) := by
  refine ⟨by simp, fun h => ?_⟩
  have hkey := congrFun h (lit "fuck")
  exact absurd hkey (by decide +kernel)

end NgxMapping.RedisImport
