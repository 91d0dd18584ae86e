import NgxMapping.Lib.Crc
import NgxMapping.Resp

/-!
`scripts/redis/Predis/Cluster`: the slot of a command in a Redis cluster.

The slot is taken from the check sum of a key. A command with several keys has a slot only if all
its keys have that one.
-/

namespace NgxMapping.RedisStrategy

open Lib Resp Polynomial

/-! ### `CRC16` -/

def CCITT_16 : List ℕ :=
  [0x0000, 0x1021, 0x2042, 0x3063, 0x4084, 0x50A5, 0x60C6, 0x70E7,
    0x8108, 0x9129, 0xA14A, 0xB16B, 0xC18C, 0xD1AD, 0xE1CE, 0xF1EF,
    0x1231, 0x0210, 0x3273, 0x2252, 0x52B5, 0x4294, 0x72F7, 0x62D6,
    0x9339, 0x8318, 0xB37B, 0xA35A, 0xD3BD, 0xC39C, 0xF3FF, 0xE3DE,
    0x2462, 0x3443, 0x0420, 0x1401, 0x64E6, 0x74C7, 0x44A4, 0x5485,
    0xA56A, 0xB54B, 0x8528, 0x9509, 0xE5EE, 0xF5CF, 0xC5AC, 0xD58D,
    0x3653, 0x2672, 0x1611, 0x0630, 0x76D7, 0x66F6, 0x5695, 0x46B4,
    0xB75B, 0xA77A, 0x9719, 0x8738, 0xF7DF, 0xE7FE, 0xD79D, 0xC7BC,
    0x48C4, 0x58E5, 0x6886, 0x78A7, 0x0840, 0x1861, 0x2802, 0x3823,
    0xC9CC, 0xD9ED, 0xE98E, 0xF9AF, 0x8948, 0x9969, 0xA90A, 0xB92B,
    0x5AF5, 0x4AD4, 0x7AB7, 0x6A96, 0x1A71, 0x0A50, 0x3A33, 0x2A12,
    0xDBFD, 0xCBDC, 0xFBBF, 0xEB9E, 0x9B79, 0x8B58, 0xBB3B, 0xAB1A,
    0x6CA6, 0x7C87, 0x4CE4, 0x5CC5, 0x2C22, 0x3C03, 0x0C60, 0x1C41,
    0xEDAE, 0xFD8F, 0xCDEC, 0xDDCD, 0xAD2A, 0xBD0B, 0x8D68, 0x9D49,
    0x7E97, 0x6EB6, 0x5ED5, 0x4EF4, 0x3E13, 0x2E32, 0x1E51, 0x0E70,
    0xFF9F, 0xEFBE, 0xDFDD, 0xCFFC, 0xBF1B, 0xAF3A, 0x9F59, 0x8F78,
    0x9188, 0x81A9, 0xB1CA, 0xA1EB, 0xD10C, 0xC12D, 0xF14E, 0xE16F,
    0x1080, 0x00A1, 0x30C2, 0x20E3, 0x5004, 0x4025, 0x7046, 0x6067,
    0x83B9, 0x9398, 0xA3FB, 0xB3DA, 0xC33D, 0xD31C, 0xE37F, 0xF35E,
    0x02B1, 0x1290, 0x22F3, 0x32D2, 0x4235, 0x5214, 0x6277, 0x7256,
    0xB5EA, 0xA5CB, 0x95A8, 0x8589, 0xF56E, 0xE54F, 0xD52C, 0xC50D,
    0x34E2, 0x24C3, 0x14A0, 0x0481, 0x7466, 0x6447, 0x5424, 0x4405,
    0xA7DB, 0xB7FA, 0x8799, 0x97B8, 0xE75F, 0xF77E, 0xC71D, 0xD73C,
    0x26D3, 0x36F2, 0x0691, 0x16B0, 0x6657, 0x7676, 0x4615, 0x5634,
    0xD94C, 0xC96D, 0xF90E, 0xE92F, 0x99C8, 0x89E9, 0xB98A, 0xA9AB,
    0x5844, 0x4865, 0x7806, 0x6827, 0x18C0, 0x08E1, 0x3882, 0x28A3,
    0xCB7D, 0xDB5C, 0xEB3F, 0xFB1E, 0x8BF9, 0x9BD8, 0xABBB, 0xBB9A,
    0x4A75, 0x5A54, 0x6A37, 0x7A16, 0x0AF1, 0x1AD0, 0x2AB3, 0x3A92,
    0xFD2E, 0xED0F, 0xDD6C, 0xCD4D, 0xBDAA, 0xAD8B, 0x9DE8, 0x8DC9,
    0x7C26, 0x6C07, 0x5C64, 0x4C45, 0x3CA2, 0x2C83, 0x1CE0, 0x0CC1,
    0xEF1F, 0xFF3E, 0xCF5D, 0xDF7C, 0xAF9B, 0xBFBA, 0x8FD9, 0x9FF8,
    0x6E17, 0x7E36, 0x4E55, 0x5E74, 0x2E93, 0x3EB2, 0x0ED1, 0x1EF0]

/-- `CRC16::hash`. -/
def hash (value : Bytes) : ℕ :=
  value.foldl (fun crc c =>
    ((crc <<< 8) ^^^ CCITT_16.getD ((crc >>> 8) ^^^ c.toNat) 0) &&& 0xFFFF) 0

lemma CCITT_16_isTable : IsTable 16 0x1021 fun i => CCITT_16.getD i 0 := by
  unfold IsTable
  decide +kernel

lemma hash_eq_fold (value : Bytes) :
    hash value = (value.map UInt8.toNat).foldl (crcByte 16 fun i => CCITT_16.getD i 0) 0 := by
  rw [hash, List.foldl_map]
  rfl

lemma generator_ccitt : generator 16 0x1021 = X ^ 16 + (X ^ 12 + X ^ 5 + 1) := by
  have h : (0x1021 : ℕ) = (1 <<< 12) ^^^ (1 <<< 5) ^^^ 1 := by decide
  rw [generator, h, bitPoly_xor, bitPoly_xor, bitPoly_shiftLeft, bitPoly_shiftLeft, bitPoly_one,
    mul_one, mul_one]

/-- **The hash is the remainder of the key by `x¹⁶ + x¹² + x⁵ + 1`**, the key moved up by the
sixteen bits of the remainder. -/
theorem hash_remainder (value : Bytes) :
    hash value < 2 ^ 16 ∧ bitPoly (hash value) =
      (X ^ 16 * message (value.map UInt8.toNat)) %ₘ (X ^ 16 + (X ^ 12 + X ^ 5 + 1)) := by
  rw [hash_eq_fold, ← generator_ccitt]
  apply crc_remainder (by omega) (by omega) CCITT_16_isTable
  intro b hb
  obtain ⟨c, -, rfl⟩ := List.mem_map.mp hb
  exact c.toNat_lt

example : hash (lit "123456789") = 0x31C3 := by decide +kernel

/-! ### The slot of a key -/

/-- What stands between the first brace and the closing one behind it, or the whole key. -/
def extractKeyTag (key : Bytes) : Bytes :=
  match key.dropWhile (· ≠ 123) with
  | [] => key
  | _ :: rest =>
    if 125 ∈ rest ∧ rest.takeWhile (· ≠ 125) ≠ [] then rest.takeWhile (· ≠ 125) else key

def getSlotByKey (key : Bytes) : ℕ := hash (extractKeyTag key) &&& 0x3FFF

lemma getSlotByKey_lt (key : Bytes) : getSlotByKey key < 16384 :=
  Nat.and_lt_two_pow (n := 14) _ (by decide)

/-! ### The slot of a command -/

/-- The methods that find the key of a command. -/
inductive Handler
  | firstArgument
  | allArguments
  | interleavedArguments
  | blockingListCommands
  | bitOp
  | zsetAggregationCommands
  | scriptingCommands
  deriving DecidableEq

def handled (h : Handler) (ids : List String) : List (Bytes × Handler) :=
  ids.map fun id => (lit id, h)

def getDefaultCommands : List (Bytes × Handler) :=
  -- commands operating on the key space
  handled .firstArgument ["EXISTS"] ++
  handled .allArguments ["DEL"] ++
  handled .firstArgument ["TYPE", "EXPIRE", "EXPIREAT", "PERSIST", "PEXPIRE", "PEXPIREAT",
    "TTL", "PTTL", "SORT", "DUMP", "RESTORE"] ++
  -- commands operating on string values
  handled .firstArgument ["APPEND", "DECR", "DECRBY", "GET", "GETBIT"] ++
  handled .allArguments ["MGET"] ++
  handled .firstArgument ["SET", "GETRANGE", "GETSET", "INCR", "INCRBY", "INCRBYFLOAT",
    "SETBIT", "SETEX"] ++
  handled .interleavedArguments ["MSET", "MSETNX"] ++
  handled .firstArgument ["SETNX", "SETRANGE", "STRLEN", "SUBSTR"] ++
  handled .bitOp ["BITOP"] ++
  handled .firstArgument ["BITCOUNT"] ++
  -- commands operating on lists
  handled .firstArgument ["LINSERT", "LINDEX", "LLEN", "LPOP", "RPOP"] ++
  handled .allArguments ["RPOPLPUSH"] ++
  handled .blockingListCommands ["BLPOP", "BRPOP", "BRPOPLPUSH"] ++
  handled .firstArgument ["LPUSH", "LPUSHX", "RPUSH", "RPUSHX", "LRANGE", "LREM", "LSET",
    "LTRIM"] ++
  -- commands operating on sets
  handled .firstArgument ["SADD", "SCARD"] ++
  handled .allArguments ["SDIFF", "SDIFFSTORE", "SINTER", "SINTERSTORE", "SUNION",
    "SUNIONSTORE"] ++
  handled .firstArgument ["SISMEMBER", "SMEMBERS", "SSCAN", "SPOP", "SRANDMEMBER", "SREM"] ++
  -- commands operating on sorted sets
  handled .firstArgument ["ZADD", "ZCARD", "ZCOUNT", "ZINCRBY"] ++
  handled .zsetAggregationCommands ["ZINTERSTORE"] ++
  handled .firstArgument ["ZRANGE", "ZRANGEBYSCORE", "ZRANK", "ZREM", "ZREMRANGEBYRANK",
    "ZREMRANGEBYSCORE", "ZREVRANGE", "ZREVRANGEBYSCORE", "ZREVRANK", "ZSCORE"] ++
  handled .zsetAggregationCommands ["ZUNIONSTORE"] ++
  handled .firstArgument ["ZSCAN", "ZLEXCOUNT", "ZRANGEBYLEX", "ZREMRANGEBYLEX"] ++
  -- commands operating on hashes
  handled .firstArgument ["HDEL", "HEXISTS", "HGET", "HGETALL", "HMGET", "HMSET", "HINCRBY",
    "HINCRBYFLOAT", "HKEYS", "HLEN", "HSET", "HSETNX", "HVALS", "HSCAN"] ++
  -- commands operating on HyperLogLog
  handled .firstArgument ["PFADD"] ++
  handled .allArguments ["PFCOUNT", "PFMERGE"] ++
  -- scripting
  handled .scriptingCommands ["EVAL", "EVALSHA"]

def checkSameSlotForKeys : List Bytes → Bool
  | [] => false
  | key :: keys => go (getSlotByKey key) keys
where
  /-- The loop over the keys behind the first. -/
  go (currentSlot : ℕ) : List Bytes → Bool
    | [] => true
    | key :: keys =>
      if currentSlot ≠ getSlotByKey key then false else go (getSlotByKey key) keys

/-- `array_slice($s, $offset, $length)` for a length that is an argument of a command, or is not
there. An argument that is no number counts as the number it begins with. -/
def arraySlice (s : List Bytes) (offset : ℕ) (length : Option Bytes) : List Bytes :=
  match length with
  | none => s.drop offset
  | some length =>
    let n := strtol length
    if 0 ≤ n then (s.drop offset).take n.toNat
    else (s.drop offset).take ((s.drop offset).length - (-n).toNat)

/-- Every second argument, from the first on. -/
def interleaved : List Bytes → List Bytes
  | [] => []
  | [key] => [key]
  | key :: _ :: rest => key :: interleaved rest

def keys (h : Handler) (arguments : List Bytes) : List Bytes :=
  match h with
  | .firstArgument => arguments.take 1
  | .allArguments => arguments
  | .interleavedArguments => interleaved arguments
  | .blockingListCommands => arguments.take (arguments.length - 1)
  | .bitOp => arguments.drop 1
  | .zsetAggregationCommands => arguments.take 1 ++ arraySlice arguments 2 arguments[1]?
  | .scriptingCommands => arraySlice arguments 2 arguments[1]?

def keyOf (h : Handler) (arguments : List Bytes) : Option Bytes :=
  match h with
  | .firstArgument => arguments[0]?
  | .bitOp => if checkSameSlotForKeys (keys h arguments) then arguments[1]? else none
  | .scriptingCommands =>
    if checkSameSlotForKeys (keys h arguments) then (keys h arguments)[0]? else none
  | _ => if checkSameSlotForKeys (keys h arguments) then arguments[0]? else none

/-- `ClusterStrategy::getSlot`, without the slot that a command remembers. -/
def getSlot (c : Command) : Option ℕ :=
  match getDefaultCommands.lookup c.id with
  | none => none
  | some h => (keyOf h c.arguments).map getSlotByKey

lemma go_eq_true {slot : ℕ} {ks : List Bytes} :
    checkSameSlotForKeys.go slot ks = true ↔ ∀ k ∈ ks, getSlotByKey k = slot := by
  induction ks generalizing slot with
  | nil => simp [checkSameSlotForKeys.go]
  | cons key ks ih =>
    rw [checkSameSlotForKeys.go, List.forall_mem_cons]
    by_cases h : slot = getSlotByKey key
    · rw [if_neg (by simpa using h), ih, ← h]
      simp
    · rw [if_pos (by simpa using h)]
      simp [Ne.symm h]

lemma checkSameSlotForKeys_eq_true {ks : List Bytes} :
    checkSameSlotForKeys ks = true ↔
      ∃ k, ks.head? = some k ∧ ∀ k' ∈ ks, getSlotByKey k' = getSlotByKey k := by
  cases ks with
  | nil => simp [checkSameSlotForKeys]
  | cons key ks => simp [checkSameSlotForKeys, go_eq_true]

/-- Every handler gives the first of the keys it looks at, if all have its slot. -/
lemma keyOf_eq (h : Handler) (arguments : List Bytes) :
    keyOf h arguments =
      if checkSameSlotForKeys (keys h arguments) then (keys h arguments).head? else none := by
  cases h with
  | firstArgument => cases arguments <;> rfl
  | allArguments => cases arguments <;> rfl
  | interleavedArguments => rcases arguments with _ | ⟨_, _ | _⟩ <;> rfl
  | blockingListCommands =>
    rcases arguments with _ | ⟨key, _ | ⟨k, ks⟩⟩
    · rfl
    · rfl
    · simp [keyOf, keys]
  | bitOp =>
    rcases arguments with _ | ⟨key, _ | ⟨k, ks⟩⟩ <;> simp [keyOf, keys]
  | zsetAggregationCommands =>
    cases arguments with
    | nil => rfl
    | cons key ks => rfl
  | scriptingCommands => rw [keyOf, List.head?_eq_getElem?]

/-- **A command has a slot if it is known, has keys, and all of them have that slot.** -/
theorem getSlot_eq_some (c : Command) (slot : ℕ) :
    getSlot c = some slot ↔ ∃ h, getDefaultCommands.lookup c.id = some h ∧
      keys h c.arguments ≠ [] ∧ ∀ k ∈ keys h c.arguments, getSlotByKey k = slot := by
  rw [getSlot]
  rcases hl : getDefaultCommands.lookup c.id with _ | h
  · simp
  · simp only [keyOf_eq, Option.some.injEq, exists_eq_left']
    constructor
    · intro hs
      split at hs
      · rename_i hsame
        obtain ⟨k, hk, hall⟩ := checkSameSlotForKeys_eq_true.mp hsame
        rw [hk, Option.map_some, Option.some.injEq] at hs
        refine ⟨?_, fun k' hk' => (hall k' hk').trans hs⟩
        rintro hnil
        simp [hnil] at hk
      · cases hs
    · rintro ⟨hne, hall⟩
      obtain ⟨k, ks, hks⟩ := List.exists_cons_of_ne_nil hne
      have hk : getSlotByKey k = slot := hall k (by simp [hks])
      have hsame : checkSameSlotForKeys (keys h c.arguments) = true :=
        checkSameSlotForKeys_eq_true.mpr
          ⟨k, by simp [hks], fun k' hk' => (hall k' hk').trans hk.symm⟩
      rw [if_pos hsame, hks, List.head?_cons, Option.map_some, hk]

end NgxMapping.RedisStrategy
