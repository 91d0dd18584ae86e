import Mathlib.Algebra.Order.Floor.Semifield
import Mathlib.Analysis.SpecialFunctions.Log.Base
import NgxMapping.Helper
import NgxMapping.Lib.Numeral

/-!
`base62_decode` undoes `base62_encode`, and an identifier can be taken apart again.

The encoder peels the digits off from the most significant end, the decoder adds up weighted
places in `BASE_STRING` that it finds with a search of its own. Both are read with `log10` and
`pow` as exact functions; `exactEncode_eq` says that the encoder over the naturals is the formula of
the source over the reals.
-/

namespace NgxMapping.Base62

open Lib Helper

/-- `std::string::npos`. -/
def npos : ℕ := 2 ^ 64 - 1

/-- The inner loop of `strpos`: how many bytes of the needle follow here. -/
def strposMatch : Bytes → Bytes → ℕ
  | a :: haystack, b :: needle => if a = b then strposMatch haystack needle + 1 else 0
  | _, _ => 0

/-- The outer loop of `strpos` from position `i` on. -/
def strposLoop (needle : Bytes) : ℕ → Bytes → ℕ
  | _, [] => npos
  | i, a :: haystack =>
    if strposMatch (a :: haystack) needle = needle.length then i
    else strposLoop needle (i + 1) haystack

def strpos (haystack needle : Bytes) : ℕ :=
  if haystack.length = 0 ∨ needle.length = 0 then npos else strposLoop needle 0 haystack

/-- The loop of `base62_decode`. A sum that does not fit in `int64_t` has no meaning there. -/
def base62DecodeLoop : Bytes → ℕ → Option ℕ
  | [], num => some num
  | c :: str, num =>
    let sum := num + strpos BASE_STRING [c] * 62 ^ str.length
    if sum < 2 ^ 63 then base62DecodeLoop str sum else none

def base62Decode (str : Bytes) : Option ℕ := base62DecodeLoop str 0

/-! ### The formula of the source -/

/-- The loop of `base62_encode` with the divisions and powers of the source. -/
noncomputable def exactLoop : ℕ → ℕ → Bytes
  | 0, _ => []
  | t + 1, num =>
    let a := ⌊(num : ℝ) / 62 ^ t⌋₊
    (BASE_STRING.drop a).take 1 ++ exactLoop t (num - a * 62 ^ t)

/-- `base62_encode` of a positive number: `t` runs down from `floor(log10(num)/log10(62))`. -/
noncomputable def exactEncode (num : ℕ) : Bytes :=
  exactLoop (⌊Real.logb 10 num / Real.logb 10 62⌋ + 1).toNat num

lemma exactLoop_eq (t num : ℕ) : exactLoop t num = base62Loop t num := by
  induction t generalizing num with
  | zero => rfl
  | succ t ih =>
    have ha : ⌊(num : ℝ) / 62 ^ t⌋₊ = num / 62 ^ t := by
      have h := @Nat.floor_div_eq_div ℝ _ _ _ _ num (62 ^ t)
      rwa [Nat.cast_pow] at h
    unfold exactLoop base62Loop
    simp only [ha, ih]

lemma floor_log_quotient (num : ℕ) :
    ⌊Real.logb 10 num / Real.logb 10 62⌋ = Nat.log 62 num := by
  have h10 : Real.log 10 ≠ 0 := Real.log_ne_zero_of_pos_of_ne_one (by norm_num) (by norm_num)
  have hbase : Real.logb 10 num / Real.logb 10 62 = Real.logb (62 : ℕ) num := by
    unfold Real.logb
    rw [div_div_div_cancel_right₀ h10, Nat.cast_ofNat]
  rw [hbase, Real.floor_logb_natCast (Nat.cast_nonneg num), Int.log_natCast]

/-- **The encoder is the formula of the source, read exactly.** -/
theorem exactEncode_eq {num : ℕ} (h : 0 < num) : exactEncode num = base62Encode num := by
  have hlen : (⌊Real.logb 10 num / Real.logb 10 62⌋ + 1).toNat = Nat.log 62 num + 1 := by
    rw [floor_log_quotient]
    omega
  rw [exactEncode, hlen, exactLoop_eq, base62Encode, if_neg h.ne']

/-! ### The search -/

lemma strposMatch_singleton (a c : UInt8) (s : Bytes) :
    strposMatch (a :: s) [c] = [c].length ↔ a = c := by
  unfold strposMatch
  split
  · rename_i h
    cases s <;> simp [strposMatch, h]
  · rename_i h
    simp [h]

lemma strposLoop_singleton {c : UInt8} {s : Bytes} (i : ℕ) (h : c ∈ s) :
    strposLoop [c] i s = i + s.idxOf c := by
  induction s generalizing i with
  | nil => simp at h
  | cons a s ih =>
    unfold strposLoop
    by_cases hac : a = c
    · rw [if_pos ((strposMatch_singleton a c s).mpr hac), hac, List.idxOf_cons_self]
      rfl
    · have hmem : c ∈ s := List.mem_of_ne_of_mem (Ne.symm hac) h
      rw [if_neg fun h => hac ((strposMatch_singleton a c s).mp h), ih (i + 1) hmem,
        List.idxOf_cons_ne s hac]
      omega

lemma strpos_eq_idxOf {c : UInt8} (h : c ∈ BASE_STRING) :
    strpos BASE_STRING [c] = BASE_STRING.idxOf c := by
  have hne : ¬ (BASE_STRING.length = 0 ∨ [c].length = 0) := by
    rintro (h | h) <;> cases h
  rw [strpos, if_neg hne, strposLoop_singleton 0 h, Nat.zero_add]

/-- No symbol stands twice in the alphabet, so a digit is found where it was taken. -/
lemma take_BASE_STRING {a : ℕ} (h : a < 62) :
    ∃ c, (BASE_STRING.drop a).take 1 = [c] ∧ BASE_STRING.idxOf c = a := by
  have hall : ∀ i < 62, (BASE_STRING.drop i).take 1 = [BASE_STRING.getD i 0] ∧
      BASE_STRING.idxOf (BASE_STRING.getD i 0) = i := by decide
  exact ⟨_, hall a h⟩

/-! ### The two loops -/

lemma length_BASE_STRING : BASE_STRING.length = 62 := rfl

lemma one_lt_base : 1 < BASE_STRING.length := by decide

lemma value_base62Loop {t num : ℕ} (h : num < 62 ^ t) :
    value BASE_STRING (base62Loop t num) = num ∧ (base62Loop t num).length = t := by
  induction t generalizing num with
  | zero =>
    have hnum : num = 0 := by simpa using h
    rw [hnum]
    exact ⟨rfl, rfl⟩
  | succ t ih =>
    have hdigit : num / 62 ^ t < 62 := Nat.div_lt_of_lt_mul (by rwa [pow_succ] at h)
    have hrest : num - num / 62 ^ t * 62 ^ t = num % 62 ^ t := by
      have := Nat.div_add_mod' num (62 ^ t)
      omega
    obtain ⟨hvalue, hlen⟩ := ih (Nat.mod_lt num (by positivity : 0 < 62 ^ t))
    obtain ⟨c, htake, hc⟩ := take_BASE_STRING hdigit
    rw [base62Loop, hrest, htake, List.singleton_append]
    constructor
    · rw [value_cons, hc, hlen, hvalue, length_BASE_STRING]
      exact Nat.div_add_mod' num (62 ^ t)
    · rw [List.length_cons, hlen]

lemma base62DecodeLoop_eq {str : Bytes} (hs : str ⊆ BASE_STRING) (num : ℕ)
    (h : num + value BASE_STRING str < 2 ^ 63) :
    base62DecodeLoop str num = some (num + value BASE_STRING str) := by
  induction str generalizing num with
  | nil => rfl
  | cons c str ih =>
    rw [List.cons_subset] at hs
    rw [value_cons, length_BASE_STRING] at h ⊢
    unfold base62DecodeLoop
    simp only
    rw [strpos_eq_idxOf hs.1, if_pos (by omega), ih hs.2 _ (by omega), Nat.add_assoc]

lemma base62Decode_eq {str : Bytes} (hs : str ⊆ BASE_STRING) (h : value BASE_STRING str < 2 ^ 63) :
    base62Decode str = some (value BASE_STRING str) := by
  rw [base62Decode, base62DecodeLoop_eq hs 0 (by omega), Nat.zero_add]

lemma base62Encode_eq {num : ℕ} (h : num ≠ 0) :
    base62Encode num = base62Loop (Nat.log 62 num + 1) num := if_neg h

lemma value_base62Encode (num : ℕ) : value BASE_STRING (base62Encode num) = num := by
  by_cases h : num = 0
  · subst h
    rfl
  · rw [base62Encode_eq h]
    exact (value_base62Loop (Nat.lt_pow_succ_log_self (by norm_num) num)).1

lemma length_base62Encode_eq {num k : ℕ} (hlo : 62 ^ k ≤ num) (hhi : num < 62 ^ (k + 1)) :
    (base62Encode num).length = k + 1 := by
  have hpos : 0 < 62 ^ k := by positivity
  rw [base62Encode_eq (by omega), Nat.log_eq_of_pow_le_of_lt_pow hlo hhi]
  exact (value_base62Loop hhi).2

lemma base62Decode_base62Encode {num : ℕ} (h : num < 2 ^ 63) :
    base62Decode (base62Encode num) = some num := by
  have hvalue := value_base62Encode num
  rw [base62Decode_eq (base62Encode_subset num) (by omega), hvalue]

lemma base62Encode_value {str : Bytes} (hne : str ≠ []) (hs : str ⊆ BASE_STRING)
    (hzero : str.head? ≠ some 118) : base62Encode (value BASE_STRING str) = str := by
  obtain ⟨c, s, rfl⟩ := List.exists_cons_of_ne_nil hne
  have hc : BASE_STRING.idxOf c ≠ 0 := by
    intro h0
    have hv : c = 118 := (List.idxOf_inj (hs List.mem_cons_self)).mp (h0.trans (by decide))
    exact hzero (by rw [hv]; rfl)
  have hlog := log_value one_lt_base hs hc
  have hlt := value_lt one_lt_base hs
  have hpos : value BASE_STRING (c :: s) ≠ 0 := by
    intro h0
    rw [value_cons] at h0
    have : 0 < BASE_STRING.idxOf c * BASE_STRING.length ^ s.length :=
      Nat.mul_pos (Nat.pos_of_ne_zero hc) (pow_pos (by decide) _)
    omega
  rw [length_BASE_STRING] at hlog hlt
  obtain ⟨hvalue, hlen⟩ := value_base62Loop hlt
  rw [base62Encode_eq hpos, hlog]
  exact value_injective one_lt_base (base62Loop_subset _ _) hs hlen hvalue

/-- **The two codecs are mutually inverse** on the numbers of an `int64_t` and on the numerals
without a leading zero. -/
theorem base62_inverse :
    (∀ n, 1 ≤ n → n < 2 ^ 63 → base62Decode (base62Encode n) = some n) ∧
      ∀ s, s ≠ [] → s ⊆ BASE_STRING → s.head? ≠ some 118 → value BASE_STRING s < 2 ^ 63 →
        (base62Decode s).map base62Encode = some s := by
  constructor
  · intro n _ hn
    exact base62Decode_base62Encode hn
  · intro s hne hs hzero hlt
    rw [base62Decode_eq hs hlt, Option.map_some, base62Encode_value hne hs hzero]

/-- The first number of two digits and a numeral of three, there and back. -/
theorem base62_inverse_samples :
    base62Decode (base62Encode 62) = some 62 ∧
      (base62Decode (lit "7Ph")).map base62Encode = some (lit "7Ph") :=
  ⟨base62_inverse.1 62 (by norm_num) (by norm_num),
    base62_inverse.2 (lit "7Ph") (by decide) (by decide) (by decide) (by decide)⟩

/-! ### Identifiers -/

lemma length_rmid_parts {ms r : ℕ} (hlo : 62 ^ 6 ≤ ms) (hhi : ms < 62 ^ 7) (hrlo : 10000 ≤ r)
    (hrhi : r ≤ 50000) : (base62Encode ms).length = 7 ∧ (base62Encode r).length = 3 := by
  constructor
  · exact length_base62Encode_eq hlo hhi
  · apply length_base62Encode_eq
    · norm_num
      omega
    · norm_num
      omega

lemma rmid_halves {ms r : ℕ} (hlo : 62 ^ 6 ≤ ms) (hhi : ms < 62 ^ 7) (hrlo : 10000 ≤ r)
    (hrhi : r ≤ 50000) : (createRmidCookie ms r).take 7 = base62Encode ms ∧
      (createRmidCookie ms r).drop 7 = base62Encode r := by
  obtain ⟨hlen, -⟩ := length_rmid_parts hlo hhi hrlo hrhi
  unfold createRmidCookie
  exact ⟨List.take_left' hlen, List.drop_left' hlen⟩

lemma rmid_decode {ms r : ℕ} (hlo : 62 ^ 6 ≤ ms) (hhi : ms < 62 ^ 7) (hrlo : 10000 ≤ r)
    (hrhi : r ≤ 50000) : base62Decode ((createRmidCookie ms r).take 7) = some ms ∧
      base62Decode ((createRmidCookie ms r).drop 7) = some r := by
  obtain ⟨h1, h2⟩ := rmid_halves hlo hhi hrlo hrhi
  rw [h1, h2]
  refine ⟨base62Decode_base62Encode ?_, base62Decode_base62Encode ?_⟩
  · exact hhi.trans (by norm_num)
  · omega

/-- **An identifier determines its creation time and its random part.** -/
theorem rmid_determines {ms r : ℕ} (hlo : 62 ^ 6 ≤ ms) (hhi : ms < 62 ^ 7) (hrlo : 10000 ≤ r)
    (hrhi : r ≤ 50000) :
    (createRmidCookie ms r).length = 10 ∧
      createRmidCookie ms r ⊆ BASE_STRING ∧
      base62Decode ((createRmidCookie ms r).take 7) = some ms ∧
      base62Decode ((createRmidCookie ms r).drop 7) = some r ∧
      ∀ ms' r', 62 ^ 6 ≤ ms' → ms' < 62 ^ 7 → 10000 ≤ r' → r' ≤ 50000 → (ms', r') ≠ (ms, r) →
        createRmidCookie ms' r' ≠ createRmidCookie ms r := by
  obtain ⟨hms, hr⟩ := rmid_decode hlo hhi hrlo hrhi
  refine ⟨?_, createRmidCookie_subset ms r, hms, hr, ?_⟩
  · obtain ⟨h1, h2⟩ := length_rmid_parts hlo hhi hrlo hrhi
    rw [createRmidCookie, List.length_append, h1, h2]
  · intro ms' r' hlo' hhi' hrlo' hrhi' hne heq
    obtain ⟨hms', hr'⟩ := rmid_decode hlo' hhi' hrlo' hrhi'
    rw [heq, hms] at hms'
    rw [heq, hr] at hr'
    exact hne (by rw [Option.some.inj hms', Option.some.inj hr'])

/-- An identifier made on 14 July 2017. -/
theorem rmid_determines_2017 :
    base62Decode ((createRmidCookie 1500000000000 12345).take 7) = some 1500000000000 ∧
      base62Decode ((createRmidCookie 1500000000000 12345).drop 7) = some 12345 := by
  obtain ⟨-, -, h1, h2, -⟩ := @rmid_determines 1500000000000 12345 (by norm_num) (by norm_num)
    (by norm_num) (by norm_num)
  exact ⟨h1, h2⟩

end NgxMapping.Base62
