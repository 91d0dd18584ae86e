import NgxMapping.Lib.Bytes

/-!
The text of a log record, as the JSON writer of the source puts it down: no blanks, control
bytes, quotes and backslashes escaped, every other byte as it is.
-/

namespace NgxMapping.LogRecord

open Lib

inductive Value
  | string (s : Bytes)
  | uint (n : ℕ)

def hexDigits : Bytes := lit "0123456789ABCDEF"

/-- A byte inside a string; the short escapes come first. -/
def escape (c : UInt8) : Bytes :=
  if c = 34 ∨ c = 92 then [92, c]
  else if c = 8 then [92, 98]
  else if c = 9 then [92, 116]
  else if c = 10 then [92, 110]
  else if c = 12 then [92, 102]
  else if c = 13 then [92, 114]
  else if c < 32 then
    [92, 117, 48, 48, hexDigits.getD (c.toNat / 16) 0, hexDigits.getD (c.toNat % 16) 0]
  else [c]

def writeString (s : Bytes) : Bytes := 34 :: (s.flatMap escape ++ [34])

def writeValue : Value → Bytes
  | .string s => writeString s
  | .uint n => natStr n

def writeField (f : Bytes × Value) : Bytes := writeString f.1 ++ 58 :: writeValue f.2

def writeObject (fs : List (Bytes × Value)) : Bytes :=
  123 :: ([44].intercalate (fs.map writeField) ++ [125])

def strings (f : Bytes × Value) : List Bytes :=
  match f.2 with
  | .string s => [f.1, s]
  | .uint _ => [f.1]

/-- The bytes of a record: punctuation, digits and what the strings are escaped to. -/
lemma mem_writeObject {fs : List (Bytes × Value)} {d : UInt8} (h : d ∈ writeObject fs) :
    d ∈ [34, 44, 58, 123, 125] ∨ isdigit d = true ∨
      ∃ f ∈ fs, ∃ s ∈ strings f, ∃ c ∈ s, d ∈ escape c := by
  have hstring : ∀ s, d ∈ writeString s → d = 34 ∨ ∃ c ∈ s, d ∈ escape c := by
    intro s hd
    simpa [writeString, or_comm, or_assoc] using hd
  have hfield : ∀ f, d ∈ writeField f → d ∈ [34, 44, 58, 123, 125] ∨ isdigit d = true ∨
      ∃ s ∈ strings f, ∃ c ∈ s, d ∈ escape c := by
    rintro ⟨k, v⟩ hd
    rcases List.mem_append.mp hd with hd | hd
    · rcases hstring k hd with rfl | hd
      · simp
      · exact .inr (.inr ⟨k, by cases v <;> simp [strings], hd⟩)
    · rcases List.mem_cons.mp hd with rfl | hd
      · simp
      · cases v with
        | string s =>
          rcases hstring s hd with rfl | hd
          · simp
          · exact .inr (.inr ⟨s, by simp [strings], hd⟩)
        | uint n => exact .inr (.inl (isdigit_of_mem_natStr hd))
  rcases List.mem_cons.mp h with rfl | h
  · simp
  rcases List.mem_append.mp h with h | h
  · rcases mem_intercalate h with h | ⟨t, ht, hd⟩
    · simp_all
    · obtain ⟨f, hf, rfl⟩ := List.mem_map.mp ht
      rcases hfield f hd with hd | hd | hd
      · exact .inl hd
      · exact .inr (.inl hd)
      · exact .inr (.inr ⟨f, hf, hd⟩)
  · simp_all

/-- What a byte is escaped to is printable, and ASCII unless it is the byte itself. -/
lemma mem_escape {c d : UInt8} (h : d ∈ escape c) : 32 ≤ d ∧ (d = c ∨ d < 0x80) := by
  have hctl : ∀ n < 32, ∀ e ∈ [hexDigits.getD (n / 16) 0, hexDigits.getD (n % 16) 0],
      32 ≤ e ∧ e < 0x80 := by decide
  have hshort : ∀ e : UInt8, 32 ≤ e → e < 0x80 → d ∈ [92, e] → 32 ≤ d ∧ (d = c ∨ d < 0x80) := by
    intro e he1 he2 hd
    rcases (by simpa using hd : d = 92 ∨ d = e) with rfl | rfl
    · exact ⟨by decide, .inr (by decide)⟩
    · exact ⟨he1, .inr he2⟩
  unfold escape at h
  split_ifs at h with h1 h2 h3 h4 h5 h6 h7
  · rcases h1 with rfl | rfl
    · exact hshort 34 (by decide) (by decide) h
    · exact hshort 92 (by decide) (by decide) h
  · exact hshort 98 (by decide) (by decide) h
  · exact hshort 116 (by decide) (by decide) h
  · exact hshort 110 (by decide) (by decide) h
  · exact hshort 102 (by decide) (by decide) h
  · exact hshort 114 (by decide) (by decide) h
  · have hn : c.toNat < 32 := by simpa [UInt8.lt_iff_toNat_lt] using h7
    simp only [List.mem_cons, List.not_mem_nil, or_false] at h
    rcases h with rfl | rfl | rfl | rfl | h
    · exact ⟨by decide, .inr (by decide)⟩
    · exact ⟨by decide, .inr (by decide)⟩
    · exact ⟨by decide, .inr (by decide)⟩
    · exact ⟨by decide, .inr (by decide)⟩
    · exact (hctl c.toNat hn d (by simpa using h)).imp_right .inr
  · rw [List.mem_singleton.mp h]
    exact ⟨by simpa [UInt8.lt_iff_toNat_lt, UInt8.le_iff_toNat_le] using h7, .inl rfl⟩

/-- No byte of a record is a control byte, and a record of ASCII strings is ASCII. -/
lemma mem_text {fs : List (Bytes × Value)} {d : UInt8} (h : d ∈ writeObject fs) :
    32 ≤ d ∧ ((∀ f ∈ fs, ∀ s ∈ strings f, ∀ c ∈ s, c < 0x80) → d < 0x80) := by
  rcases mem_writeObject h with h | h | ⟨f, hf, s, hs, c, hc, h⟩
  · have hp : ∀ d ∈ [(34 : UInt8), 44, 58, 123, 125], 32 ≤ d ∧ d < 0x80 := by decide
    exact (hp d h).imp_right fun hd _ => hd
  · exact (isdigit_printable h).imp_right fun hd _ => hd
  · refine (mem_escape h).imp_right fun hd hfs => ?_
    rcases hd with rfl | hd
    · exact hfs f hf s hs d hc
    · exact hd

/-- The argument of `Uint` is an `int` converted to `unsigned`. -/
def toUint (n : ℤ) : ℕ := (n % 2 ^ 32).toNat

lemma toUint_eq_iff {n : ℤ} (h0 : -2 ^ 31 ≤ n) (h1 : n < 2 ^ 31) {k : ℕ} (hk : k < 2 ^ 31) :
    toUint n = k ↔ n = k := by
  unfold toUint
  omega

end NgxMapping.LogRecord
