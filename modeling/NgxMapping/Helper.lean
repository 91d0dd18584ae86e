import NgxMapping.Lib.Bytes

/-!
`utils/helper.h`: the base-62 identifiers and the base-64 decoder.

`floor`, `log10` and `pow` are read as exact functions, so the number of digits of a positive
number is one more than its logarithm in base 62.
-/

namespace NgxMapping.Helper

open Lib

def BASE_STRING : Bytes := lit "vPh7zZwA2LyU4bGq5tcVfIMxJi6XaSoK9CNp0OWljYTHQ8REnmu31BrdgeDkFs"

/-- The loop of `base62_encode` with `t` digits to go. -/
def base62Loop : ℕ → ℕ → Bytes
  | 0, _ => []
  | t + 1, num =>
    let a := num / 62 ^ t
    (BASE_STRING.drop a).take 1 ++ base62Loop t (num - a * 62 ^ t)

/-- `base62_encode`. The logarithm of zero is negative, and the loop then never runs. -/
def base62Encode (num : ℕ) : Bytes :=
  if num = 0 then [] else base62Loop (Nat.log 62 num + 1) num

/-- `createRmidCookie` for a millisecond clock and a number drawn from 10000 to 50000. -/
def createRmidCookie (ms r : ℕ) : Bytes := base62Encode ms ++ base62Encode r

lemma base62Loop_subset (t num : ℕ) : base62Loop t num ⊆ BASE_STRING := by
  induction t generalizing num with
  | zero => simp [base62Loop]
  | succ t ih =>
    rw [base62Loop, List.append_subset]
    exact ⟨fun c hc => List.mem_of_mem_drop (List.mem_of_mem_take hc), ih _⟩

lemma base62Encode_subset (num : ℕ) : base62Encode num ⊆ BASE_STRING := by
  unfold base62Encode
  split
  · simp
  · exact base62Loop_subset _ _

lemma createRmidCookie_subset (ms r : ℕ) : createRmidCookie ms r ⊆ BASE_STRING :=
  List.append_subset.mpr ⟨base62Encode_subset ms, base62Encode_subset r⟩

lemma base62Encode_ne_nil {num : ℕ} (h : 0 < num) : base62Encode num ≠ [] := by
  have hlt : num / 62 ^ Nat.log 62 num < BASE_STRING.length := by
    have h1 : num < 62 ^ Nat.log 62 num * 62 := by
      rw [← pow_succ]; exact Nat.lt_pow_succ_log_self (by norm_num) num
    exact Nat.div_lt_of_lt_mul h1
  rw [base62Encode, if_neg (by omega), base62Loop, List.drop_eq_getElem_cons hlt]
  exact List.cons_ne_nil _ _

lemma createRmidCookie_ne_nil (ms : ℕ) {r : ℕ} (h : 0 < r) : createRmidCookie ms r ≠ [] := by
  simp [createRmidCookie, base62Encode_ne_nil h]

lemma length_base62Loop (t num : ℕ) : (base62Loop t num).length ≤ t := by
  induction t generalizing num with
  | zero => simp [base62Loop]
  | succ t ih =>
    have hrest := ih (num - num / 62 ^ t * 62 ^ t)
    rw [base62Loop, List.length_append, List.length_take]
    omega

lemma length_base62Encode {num k : ℕ} (h : num < 62 ^ k) : (base62Encode num).length ≤ k := by
  unfold base62Encode
  split
  · simp
  · rename_i h0
    have hlog : Nat.log 62 num < k := Nat.log_lt_of_lt_pow h0 h
    have hloop := length_base62Loop (Nat.log 62 num + 1) num
    omega

lemma length_createRmidCookie {ms r : ℕ} (hms : ms < 2 ^ 63) (hr : r ≤ 50000) :
    (createRmidCookie ms r).length ≤ 14 := by
  have h1 : (base62Encode ms).length ≤ 11 := length_base62Encode (by omega)
  have h2 : (base62Encode r).length ≤ 3 := length_base62Encode (by omega)
  rw [createRmidCookie, List.length_append]
  omega

/-! ### Base 64 -/

def base64Chars : Bytes := lit "ABCDEFGHIJKLMNOPQRSTUVWXYZabcdefghijklmnopqrstuvwxyz0123456789+/"

def isalnum (c : UInt8) : Bool := isdigit c || (65 ≤ c && c ≤ 90) || (97 ≤ c && c ≤ 122)

def isBase64 (c : UInt8) : Bool := isalnum c || c == 43 || c == 47

/-- `base64_chars.find` stored in a byte: `npos` becomes 255. -/
def base64Find (c : UInt8) : UInt8 :=
  match base64Chars.idxOf? c with
  | some i => UInt8.ofNat i
  | none => 255

def base64Group (a b c d : UInt8) : Bytes :=
  let a := base64Find a
  let b := base64Find b
  let c := base64Find c
  let d := base64Find d
  [(a <<< 2) + ((b &&& 0x30) >>> 4), ((b &&& 0xf) <<< 4) + ((c &&& 0x3c) >>> 2),
    ((c &&& 0x3) <<< 6) + d]

/-- The loop of `base64_decode` on the bytes before the first foreign one; an incomplete last
group is filled with zero bytes and gives one byte fewer than it has. -/
def base64Loop : Bytes → Bytes
  | a :: b :: c :: d :: s => base64Group a b c d ++ base64Loop s
  | [a, b, c] => (base64Group a b c 0).take 2
  | [a, b] => (base64Group a b 0 0).take 1
  | [_] => []
  | [] => []

def base64Decode (s : Bytes) : Bytes := base64Loop (s.takeWhile fun c => c ≠ 61 && isBase64 c)

/-- The transparent pixel both handlers answer with. -/
def gifData : Bytes := base64Decode
  (lit "R0lGODlhAQABAIAAAAAAAAAAACH5BAEAAAAALAAAAAABAAEAAAICRAEAOw==")

example : gifData.take 6 = lit "GIF89a" ∧ gifData.length = 43 := by decide

end NgxMapping.Helper
