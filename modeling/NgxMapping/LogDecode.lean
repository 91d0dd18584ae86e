import NgxMapping.LogRecord

/-!
Reading a log record back.

`jsonDecode` is PHP's `json_decode` on the texts the log holds: one flat object without blanks
whose values are strings and unsigned numbers. Text that is not UTF-8 is refused as a whole.
-/

namespace NgxMapping.LogDecode

open Lib LogRecord

/-! ### UTF-8 -/

/-- The ranges of the bytes that have to follow a first byte. -/
def following (c : UInt8) : Option (List (UInt8 × UInt8)) :=
  if c < 0x80 then some []
  else if 0xC2 ≤ c ∧ c ≤ 0xDF then some [(0x80, 0xBF)]
  else if c = 0xE0 then some [(0xA0, 0xBF), (0x80, 0xBF)]
  else if c = 0xED then some [(0x80, 0x9F), (0x80, 0xBF)]
  else if 0xE1 ≤ c ∧ c ≤ 0xEF then some [(0x80, 0xBF), (0x80, 0xBF)]
  else if c = 0xF0 then some [(0x90, 0xBF), (0x80, 0xBF), (0x80, 0xBF)]
  else if 0xF1 ≤ c ∧ c ≤ 0xF3 then some [(0x80, 0xBF), (0x80, 0xBF), (0x80, 0xBF)]
  else if c = 0xF4 then some [(0x80, 0x8F), (0x80, 0xBF), (0x80, 0xBF)]
  else none

/-- The check, with the ranges of the bytes still owed. -/
def utf8Loop : List (UInt8 × UInt8) → Bytes → Bool
  | owed, [] => owed.isEmpty
  | [], c :: s =>
    match following c with
    | some owed => utf8Loop owed s
    | none => false
  | r :: owed, c :: s => r.1 ≤ c && c ≤ r.2 && utf8Loop owed s

def validUtf8 (s : Bytes) : Bool := utf8Loop [] s

lemma validUtf8_ascii {s : Bytes} (h : ∀ c ∈ s, c < 0x80) : validUtf8 s = true := by
  unfold validUtf8
  induction s with
  | nil => rfl
  | cons c s ih =>
    have hc : following c = some [] := by simp [following, h c (by simp)]
    rw [utf8Loop, hc]
    exact ih fun d hd => h d (by simp [hd])

/-! ### Strings -/

def unescape (c : UInt8) : Option UInt8 :=
  if c = 34 ∨ c = 92 ∨ c = 47 then some c
  else if c = 98 then some 8
  else if c = 102 then some 12
  else if c = 110 then some 10
  else if c = 114 then some 13
  else if c = 116 then some 9
  else none

/-- The number of four hexadecimal digits. -/
def codeUnit (a b c d : UInt8) : Option ℕ :=
  match hexDigit a, hexDigit b, hexDigit c, hexDigit d with
  | some a, some b, some c, some d => some (4096 * a + 256 * b + 16 * c + d)
  | _, _, _, _ => none

/-- A code point as text. Surrogates, which the writer never writes, are refused. -/
def utf8Of (n : ℕ) : Option Bytes :=
  if n < 0x80 then some [UInt8.ofNat n]
  else if n < 0x800 then some [UInt8.ofNat (0xC0 + n / 64), UInt8.ofNat (0x80 + n % 64)]
  else if 0xD800 ≤ n ∧ n < 0xE000 then none
  else some [UInt8.ofNat (0xE0 + n / 4096), UInt8.ofNat (0x80 + n / 64 % 64),
    UInt8.ofNat (0x80 + n % 64)]

/-- The string behind an opening quote, and what follows it. -/
def parseString : Bytes → Option (Bytes × Bytes)
  | [] => none
  | 34 :: s => some ([], s)
  | 92 :: 117 :: a :: b :: c :: d :: s =>
    match (codeUnit a b c d).bind utf8Of with
    | some u => (parseString s).map fun p => (u ++ p.1, p.2)
    | none => none
  | 92 :: e :: s =>
    match unescape e with
    | some x => (parseString s).map fun p => (x :: p.1, p.2)
    | none => none
  | c :: s => if c < 32 then none else (parseString s).map fun p => (c :: p.1, p.2)

lemma codeUnit_control {c : UInt8} (h : c < 32) :
    (codeUnit 48 48 (hexDigits.getD (c.toNat / 16) 0) (hexDigits.getD (c.toNat % 16) 0)).bind
      utf8Of = some [c] := by
  have key : ∀ n < 32, (codeUnit 48 48 (hexDigits.getD (n / 16) 0) (hexDigits.getD (n % 16) 0)).bind
      utf8Of = some [UInt8.ofNat n] := by decide
  have hn : c.toNat < 32 := by simpa [UInt8.lt_iff_toNat_lt] using h
  simpa using key c.toNat hn

lemma parseString_short {e x : UInt8} (he : e ≠ 117) (hx : unescape e = some x) (t : Bytes) :
    parseString (92 :: e :: t) = (parseString t).map fun p => (x :: p.1, p.2) := by
  rw [parseString, hx]
  intro a b c d s h
  exact absurd h he

lemma parseString_unit {a b c d : UInt8} {u : Bytes} (h : (codeUnit a b c d).bind utf8Of = some u)
    (t : Bytes) : parseString (92 :: 117 :: a :: b :: c :: d :: t) =
      (parseString t).map fun p => (u ++ p.1, p.2) := by
  rw [parseString, h]

lemma parseString_plain {c : UInt8} (h1 : c ≠ 34) (h2 : c ≠ 92) (h3 : ¬ c < 32) (t : Bytes) :
    parseString (c :: t) = (parseString t).map fun p => (c :: p.1, p.2) := by
  rw [parseString, if_neg h3]
  · exact h1
  · exact fun _ _ _ _ _ h => absurd h h2
  · exact fun _ _ h => absurd h h2

lemma parseString_escape (c : UInt8) (t : Bytes) :
    parseString (escape c ++ t) = (parseString t).map fun p => (c :: p.1, p.2) := by
  unfold escape
  split_ifs with h1 h2 h3 h4 h5 h6 h7
  · rcases h1 with rfl | rfl
    · exact parseString_short (by decide) (by decide) t
    · exact parseString_short (by decide) (by decide) t
  · exact h2 ▸ parseString_short (by decide) (by decide) t
  · exact h3 ▸ parseString_short (by decide) (by decide) t
  · exact h4 ▸ parseString_short (by decide) (by decide) t
  · exact h5 ▸ parseString_short (by decide) (by decide) t
  · exact h6 ▸ parseString_short (by decide) (by decide) t
  · exact parseString_unit (codeUnit_control h7) t
  · rw [not_or] at h1
    exact parseString_plain h1.1 h1.2 h7 t

/-- **A written string is read back**, whatever follows it. -/
lemma parseString_write (s r : Bytes) :
    parseString (s.flatMap escape ++ 34 :: r) = some (s, r) := by
  induction s with
  | nil => rfl
  | cons c s ih => rw [List.flatMap_cons, List.append_assoc, parseString_escape, ih]; rfl

/-! ### Objects -/

def parseNumber (s : Bytes) : Option (ℕ × Bytes) :=
  match s with
  | [] => none
  | c :: t => if isdigit c then some (digitLoop 0 (c :: t), (c :: t).dropWhile isdigit) else none

def parseValue (s : Bytes) : Option (Value × Bytes) :=
  match s with
  | 34 :: t => (parseString t).map fun p => (.string p.1, p.2)
  | t => (parseNumber t).map fun p => (.uint p.1, p.2)

def parseField (s : Bytes) : Option ((Bytes × Value) × Bytes) :=
  match s with
  | 34 :: t =>
    match parseString t with
    | some (name, 58 :: u) => (parseValue u).map fun p => ((name, p.1), p.2)
    | _ => none
  | _ => none

/-- The fields up to the closing brace; a field is at least a byte long. -/
def parseFields : ℕ → Bytes → Option (List (Bytes × Value))
  | 0, _ => none
  | n + 1, s =>
    match parseField s with
    | some (f, [125]) => some [f]
    | some (f, 44 :: t) => (parseFields n t).map (f :: ·)
    | _ => none

def parseObject (s : Bytes) : Option (List (Bytes × Value)) :=
  match s with
  | [123, 125] => some []
  | 123 :: t => parseFields t.length t
  | _ => none

/-- `json_decode($string, true)`. -/
def jsonDecode (s : Bytes) : Option (List (Bytes × Value)) :=
  if validUtf8 s then parseObject s else none

lemma parseNumber_write (n : ℕ) {r : Bytes} (hr : ∀ c ∈ r.head?, isdigit c = false) :
    parseNumber (natStr n ++ r) = some (n, r) := by
  have hv := digitLoop_natStr n r hr
  have hd : (natStr n ++ r).dropWhile isdigit = r := by
    rw [List.dropWhile_append_of_pos fun c hc => isdigit_of_mem_natStr hc]
    cases r with
    | nil => rfl
    | cons c r => rw [List.dropWhile_cons_of_neg (by simp [hr c (by simp)])]
  obtain ⟨c, s, hc, hdig⟩ := natStr_cons n
  rw [hc, List.cons_append] at hv hd ⊢
  rw [parseNumber, if_pos hdig, hv, hd]

lemma parseValue_write (v : Value) {r : Bytes} (hr : ∀ c ∈ r.head?, isdigit c = false) :
    parseValue (writeValue v ++ r) = some (v, r) := by
  cases v with
  | string s =>
    have h : writeValue (.string s) ++ r = 34 :: (s.flatMap escape ++ 34 :: r) := by
      simp [writeValue, writeString]
    rw [h, parseValue, parseString_write]
    rfl
  | uint n =>
    obtain ⟨c, s, hc, hdig⟩ := natStr_cons n
    have hne : c ≠ 34 := isdigit_ne hdig (by decide)
    have h := parseNumber_write n hr
    rw [writeValue]
    unfold parseValue
    split
    · rename_i t ht
      rw [hc, List.cons_append, List.cons.injEq] at ht
      exact absurd ht.1 hne
    · rw [h]
      rfl

lemma parseField_write (f : Bytes × Value) {r : Bytes} (hr : ∀ c ∈ r.head?, isdigit c = false) :
    parseField (writeField f ++ r) = some (f, r) := by
  have h : writeField f ++ r = 34 :: (f.1.flatMap escape ++ 34 :: 58 :: (writeValue f.2 ++ r)) := by
    simp [writeField, writeString]
  rw [h, parseField, parseString_write]
  simp only [parseValue_write f.2 hr]
  rfl

lemma parseFields_write (fs : List (Bytes × Value)) (hne : fs ≠ []) (n : ℕ) (hn : fs.length ≤ n) :
    parseFields n ([44].intercalate (fs.map writeField) ++ [125]) = some fs := by
  induction fs generalizing n with
  | nil => exact absurd rfl hne
  | cons f fs ih =>
    cases n with
    | zero => simp at hn
    | succ n =>
      cases fs with
      | nil =>
        have h := parseField_write f (r := [125]) (by simp; decide)
        have htext : [44].intercalate ([f].map writeField) ++ [125] = writeField f ++ [125] := by
          simp [List.intercalate]
        rw [parseFields, htext, h]
        rfl
      | cons g fs =>
        have htext : [44].intercalate ((f :: g :: fs).map writeField) ++ [125] =
            writeField f ++ 44 :: ([44].intercalate ((g :: fs).map writeField) ++ [125]) := by
          simp [List.intercalate]
        have h := parseField_write f
          (r := 44 :: ([44].intercalate ((g :: fs).map writeField) ++ [125])) (by simp; decide)
        rw [parseFields, htext, h]
        simp only [ih (by simp) n (by simpa using hn)]
        rfl

lemma length_le_text (fs : List (Bytes × Value)) :
    fs.length ≤ ([44].intercalate (fs.map writeField) ++ [125]).length := by
  have hpos : ∀ f : Bytes × Value, 0 < (writeField f).length := by simp [writeField, writeString]
  induction fs with
  | nil => simp
  | cons f fs ih =>
    have := hpos f
    cases fs with
    | nil => simp [List.intercalate]
    | cons g fs =>
      simp only [List.intercalate, List.map_cons, List.intersperse_cons_cons, List.flatten_cons,
        List.length_append, List.length_cons, List.length_nil] at ih ⊢
      omega

/-- **A written record is read back.** -/
theorem parseObject_writeObject (fs : List (Bytes × Value)) (hne : fs ≠ []) :
    parseObject (writeObject fs) = some fs := by
  have h := parseFields_write fs hne _ (length_le_text fs)
  obtain ⟨f, fs', rfl⟩ := List.exists_cons_of_ne_nil hne
  unfold parseObject writeObject
  split
  · rename_i ht
    -- an object without fields would be the text of none
    have hq : ∃ u, [44].intercalate ((f :: fs').map writeField) ++ [125] = 34 :: u := by
      cases fs' <;> simp [List.intercalate, writeField, writeString]
    obtain ⟨u, hu⟩ := hq
    rw [hu] at ht
    simp at ht
  · rename_i t _ ht
    rw [List.cons.injEq] at ht
    rw [← ht.2]
    exact h
  · rename_i hno
    exact absurd rfl (hno _)

end NgxMapping.LogDecode
