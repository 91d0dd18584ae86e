import Mathlib.Data.List.TakeWhile
import Mathlib.Tactic

/-!
Byte strings and the few functions of the C library that programs apply to them.

A string is the list of its bytes. `lit` writes a literal, `cstr` is what a function taking
a zero-terminated string sees of it, `toStr` is `std::to_string` and `atoi` reads a decimal
number back: blanks, a sign, digits, saturation at 64 bits, truncation to 32.
-/

namespace NgxMapping.Lib

abbrev Bytes := List UInt8

-- There are only 256 bytes, but running through the string is the shorter way.
instance (priority := high) decidableForallMem (s : Bytes) (p : UInt8 → Prop) [DecidablePred p] :
    Decidable (∀ c ∈ s, p c) := List.decidableBAll p s

def lit (s : String) : Bytes := s.toList.map fun c => UInt8.ofNat c.toNat

/-- `isspace` in the C locale. -/
def isspace (c : UInt8) : Bool := c == 32 || (9 ≤ c && c ≤ 13)

def isdigit (c : UInt8) : Bool := 48 ≤ c && c ≤ 57

/-- What a function that takes a zero-terminated string sees. -/
def cstr (s : Bytes) : Bytes := s.takeWhile (· ≠ 0)

lemma cstr_subset (s : Bytes) : cstr s ⊆ s := fun _ h => (List.takeWhile_prefix _).subset h

lemma cstr_eq_self {s : Bytes} (h : (0 : UInt8) ∉ s) : cstr s = s := by
  refine List.takeWhile_eq_self_iff.mpr fun c hc => ?_
  have : c ≠ 0 := by rintro rfl; exact h hc
  simpa using this

lemma mem_intercalate {α : Type} {sep : List α} {ls : List (List α)} {d : α}
    (h : d ∈ sep.intercalate ls) : d ∈ sep ∨ ∃ l ∈ ls, d ∈ l := by
  induction ls with
  | nil => simp [List.intercalate] at h
  | cons l ls ih =>
    cases ls with
    | nil => exact .inr ⟨l, by simp, by simpa [List.intercalate] using h⟩
    | cons m ls =>
      have hj : sep.intercalate (l :: m :: ls) = l ++ (sep ++ sep.intercalate (m :: ls)) := by
        simp [List.intercalate]
      rw [hj, List.mem_append, List.mem_append] at h
      rcases h with h | h | h
      · exact .inr ⟨l, by simp, h⟩
      · exact .inl h
      · rcases ih h with h | ⟨k, hk, h⟩
        · exact .inl h
        · exact .inr ⟨k, by simp [hk], h⟩

/-! ### Numbers as text -/

def natStr (n : ℕ) : Bytes := (Nat.toDigits 10 n).map fun c => UInt8.ofNat c.toNat

/-- `std::to_string` of a signed integer. -/
def toStr (n : ℤ) : Bytes :=
  match n with
  | .ofNat k => natStr k
  | .negSucc k => 45 :: natStr (k + 1)

@[simp] lemma toStr_natCast (n : ℕ) : toStr (n : ℤ) = natStr n := rfl

lemma natStr_ne_nil (n : ℕ) : natStr n ≠ [] := by simp [natStr, Nat.toDigits_ne_nil]

lemma isDigit_toNat {c : Char} (h : c.isDigit = true) : 48 ≤ c.toNat ∧ c.toNat ≤ 57 := by
  simp only [Char.isDigit, ge_iff_le, Bool.and_eq_true, decide_eq_true_eq] at h
  exact ⟨h.1, h.2⟩

lemma isdigit_ofChar {c : Char} (h : c.isDigit = true) :
    isdigit (UInt8.ofNat c.toNat) = true := by
  obtain ⟨h1, h2⟩ := isDigit_toNat h
  simp only [isdigit, Bool.and_eq_true, decide_eq_true_eq, UInt8.le_iff_toNat_le,
    UInt8.toNat_ofNat']
  constructor
  · simpa [Nat.mod_eq_of_lt (show c.toNat < 256 by omega)] using h1
  · simpa [Nat.mod_eq_of_lt (show c.toNat < 256 by omega)] using h2

lemma isdigit_of_mem_natStr {n : ℕ} {c : UInt8} (h : c ∈ natStr n) : isdigit c = true := by
  obtain ⟨d, hd, rfl⟩ := List.mem_map.mp h
  exact isdigit_ofChar (Nat.isDigit_of_mem_toDigits (by omega) (by omega) hd)

/-- The digit loop of `strtol`: the value of the leading digits. -/
def digitLoop (acc : ℕ) : Bytes → ℕ
  | [] => acc
  | c :: s => if isdigit c then digitLoop (10 * acc + (c.toNat - 48)) s else acc

lemma digitLoop_map (cs : List Char) (h : ∀ c ∈ cs, c.isDigit = true) (acc : ℕ) (s : Bytes)
    (hs : ∀ c ∈ s.head?, isdigit c = false) :
    digitLoop acc (cs.map (fun c => UInt8.ofNat c.toNat) ++ s) = Nat.ofDigitChars 10 cs acc := by
  induction cs generalizing acc with
  | nil =>
    cases s with
    | nil => simp [digitLoop]
    | cons c s => simp [digitLoop, hs c (by simp)]
  | cons c cs ih =>
    have hc := h c (by simp)
    obtain ⟨h1, h2⟩ := isDigit_toNat hc
    rw [List.map_cons, List.cons_append, digitLoop, if_pos (isdigit_ofChar hc),
      ih (fun d hd => h d (by simp [hd])), Nat.ofDigitChars_cons]
    simp [Nat.mod_eq_of_lt (show c.toNat < 256 by omega)]

lemma digitLoop_natStr (n : ℕ) (s : Bytes) (hs : ∀ c ∈ s.head?, isdigit c = false) :
    digitLoop 0 (natStr n ++ s) = n := by
  rw [natStr, digitLoop_map _ (fun c hc => Nat.isDigit_of_mem_toDigits (by omega) (by omega) hc)
    _ _ hs, Nat.ofDigitChars_ten_toDigits]

lemma natStr_injective : Function.Injective natStr := by
  intro m n h
  have hm := digitLoop_natStr m [] (by simp)
  have hn := digitLoop_natStr n [] (by simp)
  rw [h] at hm
  omega

lemma isdigit_ne {c : UInt8} (h : isdigit c = true) {d : UInt8} (hd : isdigit d = false) :
    c ≠ d := by
  rintro rfl
  simp [h] at hd

lemma natStr_cons (n : ℕ) : ∃ c s, natStr n = c :: s ∧ isdigit c = true := by
  obtain ⟨c, s, h⟩ := List.exists_cons_of_ne_nil (natStr_ne_nil n)
  exact ⟨c, s, h, isdigit_of_mem_natStr (n := n) (by simp [h])⟩

lemma toStr_injective : Function.Injective toStr := by
  intro m n h
  cases m with
  | ofNat a =>
    cases n with
    | ofNat b => exact congrArg _ (natStr_injective h)
    | negSucc b =>
      obtain ⟨c, s, hc, hd⟩ := natStr_cons a
      simp only [toStr, hc, List.cons.injEq] at h
      exact absurd h.1 (isdigit_ne hd (by decide))
  | negSucc a =>
    cases n with
    | ofNat b =>
      obtain ⟨c, s, hc, hd⟩ := natStr_cons b
      simp only [toStr, hc, List.cons.injEq] at h
      exact absurd h.1.symm (isdigit_ne hd (by decide))
    | negSucc b =>
      simp only [toStr, List.cons.injEq, true_and] at h
      have := natStr_injective h
      congr 1
      omega

lemma mem_toStr {n : ℤ} {c : UInt8} (h : c ∈ toStr n) : isdigit c = true ∨ c = 45 := by
  cases n with
  | ofNat k => exact .inl (isdigit_of_mem_natStr h)
  | negSucc k =>
    rcases List.mem_cons.mp h with h | h
    · exact .inr h
    · exact .inl (isdigit_of_mem_natStr h)

/-! ### Text as numbers -/

/-- Truncation to a 32-bit signed integer. -/
def wrap32 (n : ℤ) : ℤ := Int.bmod n (2 ^ 32)

lemma wrap32_of_bounds {n : ℤ} (h0 : -2 ^ 31 ≤ n) (h1 : n < 2 ^ 31) : wrap32 n = n := by
  unfold wrap32
  rw [Int.bmod_def]
  split <;> omega

lemma wrap32_ge (n : ℤ) : -2 ^ 31 ≤ wrap32 n := by
  unfold wrap32
  have := Int.le_bmod (x := n) (m := 2 ^ 32) (by decide)
  omega

lemma wrap32_lt (n : ℤ) : wrap32 n < 2 ^ 31 := by
  unfold wrap32
  rw [Int.bmod_def]
  split <;> omega

/-- `strtol` in base ten, saturating at 64 bits. -/
def strtol (s : Bytes) : ℤ :=
  match s.dropWhile isspace with
  | 45 :: r => max (-2 ^ 63) (-(digitLoop 0 r : ℤ))
  | 43 :: r => min (2 ^ 63 - 1) (digitLoop 0 r : ℤ)
  | r => min (2 ^ 63 - 1) (digitLoop 0 r : ℤ)

/-- `atoi`: `strtol` cut to an `int`. -/
def atoi (s : Bytes) : ℤ := wrap32 (strtol s)

lemma isdigit_printable {d : UInt8} (h : isdigit d = true) : 32 ≤ d ∧ d < 0x80 := by
  simp only [isdigit, Bool.and_eq_true, decide_eq_true_eq, UInt8.le_iff_toNat_le,
    UInt8.lt_iff_toNat_lt, UInt8.reduceToNat] at h ⊢
  omega

lemma isspace_of_isdigit {c : UInt8} (h : isdigit c = true) : isspace c = false := by
  simp only [isdigit, isspace, Bool.and_eq_true, decide_eq_true_eq, Bool.or_eq_false_iff,
    beq_eq_false_iff_ne, ne_eq, Bool.and_eq_false_iff, decide_eq_false_iff_not,
    UInt8.le_iff_toNat_le, ← UInt8.toNat_inj] at h ⊢
  simp only [UInt8.reduceToNat] at h ⊢
  omega

lemma strtol_natStr (n : ℕ) (h : n < 2 ^ 63) : strtol (natStr n) = n := by
  obtain ⟨c, s, hc, hd⟩ := natStr_cons n
  have hv := digitLoop_natStr n [] (by simp)
  have h1 := isdigit_ne hd (d := 45) (by decide)
  have h2 := isdigit_ne hd (d := 43) (by decide)
  rw [List.append_nil] at hv
  unfold strtol
  rw [hc, List.dropWhile_cons_of_neg (by simp [isspace_of_isdigit hd])]
  split
  · rename_i r he
    exact absurd (List.cons.inj he).1 h1
  · rename_i r he
    exact absurd (List.cons.inj he).1 h2
  · rw [← hc, hv]
    omega

lemma atoi_natStr (n : ℕ) (h : n < 2 ^ 63) : atoi (natStr n) = wrap32 n := by
  rw [atoi, strtol_natStr n h]

lemma atoi_natStr_of_lt (n : ℕ) (h : n < 2 ^ 31) : atoi (natStr n) = n := by
  rw [atoi_natStr n (by omega), wrap32_of_bounds (by omega) (by omega)]

def hexDigit (c : UInt8) : Option ℕ :=
  if 48 ≤ c ∧ c ≤ 57 then some (c.toNat - 48)
  else if 65 ≤ c ∧ c ≤ 70 then some (c.toNat - 55)
  else if 97 ≤ c ∧ c ≤ 102 then some (c.toNat - 87)
  else none

/-! ### Dates -/

/-- The fields of `struct tm` that are printed. -/
structure Tm where
  year : ℕ
  mon : Fin 12
  mday : ℕ
  hour : ℕ
  min : ℕ
  sec : ℕ
  wday : Fin 7

def pad2 (n : ℕ) : Bytes := if n < 10 then 48 :: natStr n else natStr n

lemma pad2_injective : Function.Injective pad2 := by
  have hval : ∀ n, digitLoop 0 (pad2 n) = n := by
    intro n
    have hn := digitLoop_natStr n [] (by simp)
    rw [List.append_nil] at hn
    unfold pad2
    split
    · exact hn
    · exact hn
  intro m n h
  rw [← hval m, h, hval]

lemma length_pad2 {n : ℕ} (h : n < 100) : (pad2 n).length = 2 :=
  (by decide : ∀ n : Fin 100, (pad2 n).length = 2) ⟨n, h⟩

def dayName (d : Fin 7) : Bytes :=
  [lit "Sun", lit "Mon", lit "Tue", lit "Wed", lit "Thu", lit "Fri", lit "Sat"].get d

def monName (m : Fin 12) : Bytes :=
  [lit "Jan", lit "Feb", lit "Mar", lit "Apr", lit "May", lit "Jun",
    lit "Jul", lit "Aug", lit "Sep", lit "Oct", lit "Nov", lit "Dec"].get m

/-- `%T`. -/
def clockText (t : Tm) : Bytes := pad2 t.hour ++ 58 :: pad2 t.min ++ 58 :: pad2 t.sec

/-- `%a, %d-%b-%Y %T GMT`. -/
def cookieDate (t : Tm) : Bytes :=
  dayName t.wday ++ lit ", " ++ pad2 t.mday ++ 45 :: monName t.mon ++ 45 :: natStr t.year ++
    32 :: clockText t ++ lit " GMT"

/-- `%F %T`. -/
def logDate (t : Tm) : Bytes :=
  natStr t.year ++ 45 :: pad2 (t.mon + 1) ++ 45 :: pad2 t.mday ++ 32 :: clockText t

def dateByte (c : UInt8) : Bool :=
  isdigit c || (65 ≤ c && c ≤ 90) || (97 ≤ c && c ≤ 122) || c == 32 || c == 44 || c == 45 || c == 58

lemma dateByte_lt {c : UInt8} (h : dateByte c = true) : c < 0x80 := by
  by_contra hc
  simp only [dateByte, isdigit, Bool.or_eq_true, Bool.and_eq_true, decide_eq_true_eq, beq_iff_eq,
    UInt8.le_iff_toNat_le, UInt8.lt_iff_toNat_lt, ← UInt8.toNat_inj, UInt8.reduceToNat] at h hc
  omega

lemma dateByte_natStr (n : ℕ) : (natStr n).all dateByte = true := by
  refine List.all_eq_true.mpr fun c hc => ?_
  simp [dateByte, isdigit_of_mem_natStr hc]

lemma dateByte_pad2 (n : ℕ) : (pad2 n).all dateByte = true := by
  unfold pad2
  split
  · rw [List.all_cons, dateByte_natStr]; rfl
  · exact dateByte_natStr n

lemma dateByte_clockText (t : Tm) : (clockText t).all dateByte = true := by
  have h : dateByte 58 = true := by decide
  simp [clockText, dateByte_pad2, h]

lemma dateByte_logDate (t : Tm) : (logDate t).all dateByte = true := by
  have h1 : dateByte 45 = true := by decide
  have h2 : dateByte 32 = true := by decide
  simp [logDate, dateByte_natStr, dateByte_pad2, dateByte_clockText, h1, h2]

lemma dateByte_cookieDate (t : Tm) : (cookieDate t).all dateByte = true := by
  have h1 : dateByte 45 = true := by decide
  have h2 : dateByte 32 = true := by decide
  have h3 : ∀ d : Fin 7, (dayName d).all dateByte = true := by decide
  have h4 : ∀ m : Fin 12, (monName m).all dateByte = true := by decide
  have h5 : (lit ", ").all dateByte = true := by decide
  have h6 : (lit " GMT").all dateByte = true := by decide
  simp only [cookieDate, List.all_append, List.all_cons, dateByte_natStr, dateByte_pad2,
    dateByte_clockText, h1, h2, h3, h4, h5, h6, Bool.and_self]

end NgxMapping.Lib
