import NgxMapping.LogRecord
import NgxMapping.Lib.Search

/-!
Searching the log as text.

The scripts select records with `grep` before anything is decoded. `grep_iff` says what a pattern
of a name, a colon and digits finds in a record: a number under that name that begins with the
digits. A string cannot pretend to hold such a field, because its quotes are escaped.
-/

namespace NgxMapping.LogGrep

open Lib LogRecord

/-- A line is kept when the text occurs in it. -/
def grep (pattern line : Bytes) : Bool := decide (pattern <:+: line)

/-- The pattern of a field whose number begins with the digits. -/
def pattern (name digits : Bytes) : Bytes := 34 :: (name ++ 34 :: 58 :: digits)

/-- A name that is written as it is and cannot be taken for punctuation. -/
structure Plain (name : Bytes) : Prop where
  ne_nil : name ≠ []
  escape : name.flatMap escape = name
  bytes : ∀ c ∈ name, c ∉ [(34 : UInt8), 44, 58, 92, 123, 125]

instance (name : Bytes) : Decidable (Plain name) :=
  decidable_of_iff (name ≠ [] ∧ name.flatMap escape = name ∧
    ∀ c ∈ name, c ∉ [(34 : UInt8), 44, 58, 92, 123, 125])
    ⟨fun h => ⟨h.1, h.2.1, h.2.2⟩, fun h => ⟨h.ne_nil, h.escape, h.bytes⟩⟩

lemma Plain.not_quote {name : Bytes} (h : Plain name) : (34 : UInt8) ∉ name :=
  fun hc => h.bytes 34 hc (by simp)

/-! ### Quotes inside a string -/

/-- A quote is preceded by a backslash. -/
def Guarded (a b : UInt8) : Prop := b = 34 → a = 92

lemma escape_head {c d : UInt8} (h : d ∈ (escape c).head?) : d ≠ 34 := by
  unfold escape at h
  split_ifs at h with h1
  all_goals simp only [List.head?_cons, Option.mem_some_iff] at h
  all_goals rw [← h]
  all_goals try decide
  exact fun hc => h1 (.inl hc)

lemma escape_chain (c : UInt8) : (escape c).IsChain Guarded := by
  have hhex : ∀ n < 32, hexDigits.getD (n / 16) 0 ≠ 34 ∧ hexDigits.getD (n % 16) 0 ≠ 34 := by
    decide
  unfold escape
  split_ifs with h1 h2 h3 h4 h5 h6 h7
  all_goals try simp [Guarded]
  obtain ⟨k1, k2⟩ := hhex c.toNat (by simpa [UInt8.lt_iff_toNat_lt] using h7)
  exact ⟨k1, fun hq => absurd hq k2⟩

lemma flatMap_escape_head {s : Bytes} {d : UInt8} (h : d ∈ (s.flatMap escape).head?) : d ≠ 34 := by
  cases s with
  | nil => simp at h
  | cons c s =>
    rw [List.flatMap_cons, List.head?_append_of_ne_nil] at h
    · exact escape_head h
    · unfold escape
      split_ifs <;> simp

lemma flatMap_escape_chain (s : Bytes) : (s.flatMap escape).IsChain Guarded := by
  induction s with
  | nil => simp
  | cons c s ih =>
    rw [List.flatMap_cons, List.isChain_append]
    exact ⟨escape_chain c, ih, fun a _ b hb hq => absurd hq (flatMap_escape_head hb)⟩

/-! ### Patterns -/

lemma not_infix_string {name digits : Bytes} (hn : Plain name) (s : Bytes) :
    ¬ name ++ 34 :: 58 :: digits <:+: s.flatMap escape ++ [34] := by
  rintro ⟨u, v, h⟩
  obtain ⟨k, c, hk⟩ := (List.eq_nil_or_concat' name).resolve_left hn.ne_nil
  obtain ⟨w, x, hw⟩ := (List.eq_nil_or_concat' (58 :: digits ++ v)).resolve_left (by simp)
  -- the last quote is not followed by a colon, so the quote of the pattern is an escaped one
  have h : (u ++ k ++ [c, 34] ++ w) ++ [x] = s.flatMap escape ++ [34] := by
    rw [List.append_assoc, ← hw, ← h, hk]
    simp
  have hi : [c, 34] <:+: s.flatMap escape := ⟨u ++ k, w, (List.append_inj' h rfl).1⟩
  have hc : c = 92 := by
    have := List.IsChain.infix (flatMap_escape_chain s) hi
    simpa [Guarded] using this
  exact hn.bytes c (by simp [hk]) (by simp [hc])

lemma not_pattern_value {name digits : Bytes} (hn : Plain name) (v : Value) :
    ¬ pattern name digits <:+: writeValue v := by
  intro h
  cases v with
  | string s =>
    have hi : name ++ 34 :: 58 :: digits <:+: s.flatMap escape ++ [34] := by
      obtain ⟨u, w, h⟩ := h
      rcases u with _ | ⟨a, u⟩
      · exact ⟨[], w, (List.cons.inj h).2⟩
      · exact ⟨u ++ [34], w, by simpa [pattern] using (List.cons.inj h).2⟩
    exact not_infix_string hn s hi
  | uint n =>
    have hq : (34 : UInt8) ∈ natStr n := h.subset (by simp [pattern])
    exact absurd (isdigit_of_mem_natStr hq) (by decide)

lemma pattern_field_iff {name digits : Bytes} (hn : Plain name)
    (hd : ∀ c ∈ digits, isdigit c = true) (hne : digits ≠ []) {f : Bytes × Value} (hf : Plain f.1) :
    pattern name digits <:+: writeField f ↔
      ∃ n, f = (name, .uint n) ∧ digits <+: natStr n := by
  obtain ⟨k, v⟩ := f
  have htext : writeField (k, v) = 34 :: (k ++ 34 :: 58 :: writeValue v) := by
    simp [writeField, writeString, hf.escape]
  obtain ⟨c, t, hc⟩ := List.exists_cons_of_ne_nil hn.ne_nil
  have hcolon : c ≠ 58 := fun h => hn.bytes c (by simp [hc]) (by simp [h])
  rw [htext]
  constructor
  · rintro ⟨u, w, h⟩
    rcases u with _ | ⟨a, u⟩
    · -- the pattern begins with the quote of the field
      have h : name ++ 34 :: (58 :: digits ++ w) = k ++ 34 :: (58 :: writeValue v) := by
        simpa [pattern] using (List.cons.inj h).2
      obtain ⟨rfl, hv⟩ := append_cons_inj hn.not_quote hf.not_quote h
      have hv : digits ++ w = writeValue v := (List.cons.inj hv).2
      obtain ⟨e, ds, rfl⟩ := List.exists_cons_of_ne_nil hne
      cases v with
      | string s =>
        obtain ⟨rfl, -⟩ := List.cons.inj hv
        exact absurd (hd 34 (by simp)) (by decide)
      | uint n => exact ⟨n, rfl, w, hv⟩
    · have h : u ++ 34 :: (name ++ 34 :: 58 :: digits ++ w) = k ++ 34 :: 58 :: writeValue v := by
        simpa [pattern] using (List.cons.inj h).2
      -- it begins with the other quote of the name, or with one of the value
      have hname : name ++ 34 :: 58 :: digits ++ w ≠ 58 :: writeValue v := by
        rw [hc]
        exact fun h => hcolon (List.cons.inj h).1
      by_cases hu : (34 : UInt8) ∈ u
      · obtain ⟨u1, u2, rfl, hu1⟩ := List.eq_append_cons_of_mem hu
        rw [List.append_assoc, List.cons_append] at h
        obtain ⟨-, h⟩ := append_cons_inj hu1 hf.not_quote h
        rcases u2 with _ | ⟨d, u2⟩
        · exact absurd (List.cons.inj h).1 (by decide)
        · have hv : pattern name digits <:+: writeValue v :=
            ⟨u2, w, by simpa [pattern] using (List.cons.inj h).2⟩
          exact absurd hv (not_pattern_value hn v)
      · exact absurd (append_cons_inj hu hf.not_quote h).2 hname
  · rintro ⟨n, hkv, w, hw⟩
    obtain ⟨rfl, rfl⟩ := Prod.mk.inj hkv
    exact ⟨[], w, by simp [pattern, writeValue, ← hw]⟩

/-- **What a pattern finds in a record**: a number under the name that begins with the digits. -/
theorem grep_iff {name digits : Bytes} (hn : Plain name) (hd : ∀ c ∈ digits, isdigit c = true)
    (hne : digits ≠ []) {fs : List (Bytes × Value)} (hfs : ∀ f ∈ fs, Plain f.1) :
    grep (pattern name digits) (writeObject fs) = true ↔
      ∃ n, (name, .uint n) ∈ fs ∧ digits <+: natStr n := by
  -- the braces and commas between the fields are not in the pattern
  have hout : ∀ c, c ∈ [(44 : UInt8), 123, 125] → c ∉ pattern name digits := by
    intro c hc hm
    have hpunct : ∀ c ∈ [(44 : UInt8), 123, 125],
        c ≠ 34 ∧ c ≠ 58 ∧ isdigit c = false ∧ c ∈ [(34 : UInt8), 44, 58, 92, 123, 125] := by decide
    obtain ⟨h1, h2, h3, h4⟩ := hpunct c hc
    have hm : c = 34 ∨ c ∈ name ∨ c = 34 ∨ c = 58 ∨ c ∈ digits := by simpa [pattern] using hm
    rcases hm with hm | hm | hm | hm | hm
    · exact h1 hm
    · exact hn.bytes c hm h4
    · exact h1 hm
    · exact h2 hm
    · simp [hd c hm] at h3
  have hp : pattern name digits ≠ [] := by simp [pattern]
  have hnil : ∀ a : Bytes, pattern name digits <:+: [] ++ 123 :: a ++ 125 :: [] ↔
      pattern name digits <:+: a := by
    intro a
    rw [infix_append_cons (hout 125 (by simp)), infix_append_cons (hout 123 (by simp))]
    simp [hp]
  have htext : writeObject fs =
    [] ++ 123 :: [44].intercalate (fs.map writeField) ++ 125 :: [] := rfl
  rw [grep, decide_eq_true_iff, htext, hnil, infix_intercalate hp (hout 44 (by simp))]
  constructor
  · rintro ⟨t, ht, hi⟩
    obtain ⟨f, hf, rfl⟩ := List.mem_map.mp ht
    obtain ⟨n, rfl, hpre⟩ := (pattern_field_iff hn hd hne (hfs f hf)).mp hi
    exact ⟨n, hf, hpre⟩
  · rintro ⟨n, hf, hpre⟩
    exact ⟨_, List.mem_map.mpr ⟨_, hf, rfl⟩, (pattern_field_iff hn hd hne hn).mpr ⟨n, rfl, hpre⟩⟩

end NgxMapping.LogGrep
