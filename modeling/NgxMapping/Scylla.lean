import NgxMapping.LogDecode
import NgxMapping.LogGrep
import NgxMapping.ScyllaMessage

/-!
`scripts/scylla`: the two ways of a pair into the database.

`subscriber` takes the relayed messages one by one. `cinLog` reads a log file line by line,
for one table at a time; `batch` is the pipeline of `mapping.scylla.sh` for a table.
-/

namespace NgxMapping.Scylla

open Lib LogRecord LogDecode LogGrep ScyllaMessage

/-- `scylla::$tablePairs`. -/
def tablePairs : List (ℕ × Bytes) :=
  [(0, lit "test"), (2, lit "tencent"), (3, lit "iqiyi"), (5, lit "sohu"), (6, lit "miaozhen"),
    (8, lit "youku"), (10, lit "ku6"), (11, lit "fengxing"), (21, lit "letv"), (26, lit "pptv"),
    (27, lit "yinyuetai"), (29, lit "mgtv")]

/-- `sprintf("%s_dmp", $table)`. -/
def dmp (table : Bytes) : Bytes := table ++ lit "_dmp"

/-- `empty`, on an element of an array. -/
def phpEmpty : Option Value → Bool
  | none => true
  | some (.string s) => s = [] || s = lit "0"
  | some (.uint n) => n = 0

/-- `==` with a number. A string is compared by the number it starts with. -/
def looseEq : Option Value → ℕ → Bool
  | none, n => n = 0
  | some (.string s), n => strtol s = n
  | some (.uint m), n => m = n

/-- `%s`. -/
def phpString : Option Value → Bytes
  | none => []
  | some (.string s) => s
  | some (.uint n) => natStr n

structure Row where
  table : Bytes
  rmid : Bytes
  uid : Bytes
  deriving DecidableEq

/-- `scylla::insert`. -/
def insert (table : Bytes) (rmid uid : Option Value) : List Row :=
  if phpEmpty rmid || phpEmpty uid then [] else [⟨table, phpString rmid, phpString uid⟩]

/-- The body of the subscriber loop. A decimal string is the key of the number it writes; the
comparison with 3 and 8 is made on such strings only. -/
def subscriber (content : Bytes) : List Row :=
  let parts := splitContent content
  match tablePairs.find? fun pair => some (natStr pair.1) = parts.1 with
  | none => []
  | some (ext, table) =>
    (if ext = 3 ∨ ext = 8 then
      insert (dmp table) (parts.2.1.map .string) (parts.2.2.map .string) else []) ++
    insert table (parts.2.1.map .string) (parts.2.2.map .string)

def stream (queue : List Bytes) : List Row := queue.flatMap fun msg => subscriber (relay msg)

/-! ### The log file -/

/-- What `log_consumer` writes: every message on a line. -/
def logFile (queue : List Bytes) : Bytes := queue.flatMap fun msg => relay msg ++ [10]

/-- `fgets(STDIN, limit)`: up to a line break, at most one byte less than the limit. -/
def fgets (limit : ℕ) (s : Bytes) : Bytes × Bytes :=
  let n := min (limit - 1) ((s.takeWhile (· ≠ 10)).length + 1)
  (s.take n, s.drop n)

/-- The lines `cinLog` decodes, the line breaks taken out. Every round reads a byte or more. -/
def readLines : ℕ → Bytes → List Bytes
  | 0, _ => []
  | n + 1, s =>
    if s = [] then []
    else (fgets 1024 s).1.filter (· ≠ 10) :: readLines n (fgets 1024 s).2

/-- `$data[$key]`: a name that is repeated has its last value. -/
def get (data : List (Bytes × Value)) (key : Bytes) : Option Value := data.reverse.lookup key

/-- The body of the loop of `cinLog`. -/
def cinLine (ext : ℕ) (table : Bytes) (special : Bool) (line : Bytes) : List Row :=
  match jsonDecode line with
  | none => []
  | some data =>
    if phpEmpty (get data (lit "uid")) || phpEmpty (get data (lit "rmid")) then []
    else if looseEq (get data (lit "m")) 1 then []
    else if !looseEq (get data (lit "ext")) ext then []
    else insert table (get data (lit "rmid")) (get data (lit "uid")) ++
      if special then insert (dmp table) (get data (lit "rmid")) (get data (lit "uid")) else []

/-- `scylla::cinLog`. The last key of the table counts. -/
def cinLog (table : Bytes) (special : Bool) (lines : List Bytes) : List Row :=
  match (tablePairs.filter fun pair => pair.2 = table).getLast? with
  | none => []
  | some (ext, _) => lines.flatMap (cinLine ext table special)

/-- The way of a log into a table: `mapping.scylla.sh` takes active calls only for `tencent`, and
`iqiyi` and `youku` have a second table. Its filters on `ext` and `m` repeat tests of `cinLog`. -/
def batch (table log : Bytes) : List Row :=
  let lines := readLines log.length log
  cinLog table (table = lit "iqiyi" || table = lit "youku")
    (if table = lit "tencent" then lines.filter (grep (lit "\"f\":1")) else lines)

/-! ### Reading one record -/

lemma takeWhile_line {text : Bytes} (h10 : (10 : UInt8) ∉ text) (rest : Bytes) :
    (text ++ 10 :: rest).takeWhile (· ≠ 10) = text := by
  rw [List.takeWhile_append_of_pos]
  · simp
  · intro c hc
    have : c ≠ 10 := fun he => h10 (he ▸ hc)
    simpa using this

lemma fgets_append {text : Bytes} (h10 : (10 : UInt8) ∉ text) (hl : text.length + 1 < 1024)
    (rest : Bytes) : fgets 1024 (text ++ 10 :: rest) = (text ++ [10], rest) := by
  have hmin : min (1024 - 1) (text.length + 1) = (text ++ [10]).length := by
    rw [List.length_append, List.length_singleton]
    omega
  have hsplit : text ++ 10 :: rest = (text ++ [10]) ++ rest := by simp
  simp only [fgets, takeWhile_line h10, hmin]
  rw [hsplit, List.take_left, List.drop_left]

lemma fgets_full {text : Bytes} (h10 : (10 : UInt8) ∉ text) (hl : text.length = 1023)
    (rest : Bytes) : fgets 1024 (text ++ 10 :: rest) = (text, 10 :: rest) := by
  have hmin : min (1024 - 1) (text.length + 1) = text.length := by omega
  simp only [fgets, takeWhile_line h10, hmin]
  rw [List.take_left, List.drop_left]

lemma readLines_line {text : Bytes} (h10 : (10 : UInt8) ∉ text) (hl : text.length ≤ 1022) :
    readLines (text ++ [10]).length (text ++ [10]) = [text] := by
  have hf : (text ++ [10]).filter (· ≠ 10) = text := by
    rw [List.filter_append, List.filter_eq_self.mpr]
    · simp
    · intro c hc
      have : c ≠ 10 := fun he => h10 (he ▸ hc)
      simpa using this
  have hnil : ∀ n, readLines n [] = [] := fun n => by cases n <;> simp [readLines]
  rw [List.length_append, List.length_singleton, readLines, if_neg (by simp),
    fgets_append h10 (by omega), hf, hnil]

end NgxMapping.Scylla
