import NgxMapping.QueryRoundTrip

/-!
Which texts `url_decode` accepts.

It checks that two bytes follow a `%`, but not that they are hexadecimal digits: `hex_to_byte`
counts letters up to `z` and takes any other byte for a digit. So every text is accepted whose
scan does not end within an escape, and it is read correctly exactly when no escape that the scan
meets has a foreign byte.
-/

namespace NgxMapping.PercentDecode

open Lib HttpRequest QueryRoundTrip

/-- `url_decode` with its reference parameter: the return value and `out` after the call. -/
def urlDecodeInto (text out : Bytes) : Bool × Bytes :=
  match urlDecode text with
  | some decoded => (true, decoded)
  | none => (false, out)

/-! ### What a percent-encoded text is -/

/-- Every `%` that a scan from the left meets is followed by two hexadecimal digits; the scan
goes on behind them. -/
inductive WellEscaped : Bytes → Prop
  | nil : WellEscaped []
  | escape {a b : UInt8} {s : Bytes} {x y : ℕ} (ha : hexDigit a = some x)
      (hb : hexDigit b = some y) (h : WellEscaped s) : WellEscaped (37 :: a :: b :: s)
  | next {c : UInt8} {s : Bytes} (hc : c ≠ 37) (h : WellEscaped s) : WellEscaped (c :: s)

/-- The bytes a percent-encoded text denotes. -/
inductive Denotes : Bytes → Bytes → Prop
  | nil : Denotes [] []
  | escape {a b c : UInt8} {s t : Bytes} {x y : ℕ} (ha : hexDigit a = some x)
      (hb : hexDigit b = some y) (hc : c.toNat = 16 * x + y) (h : Denotes s t) :
      Denotes (37 :: a :: b :: s) (c :: t)
  | plus {s t : Bytes} (h : Denotes s t) : Denotes (43 :: s) (32 :: t)
  | raw {c : UInt8} {s t : Bytes} (hp : c ≠ 37) (hs : c ≠ 43) (h : Denotes s t) :
      Denotes (c :: s) (c :: t)

/-- The call accepts exactly the percent-encoded texts, gives the bytes they denote and leaves
`out` alone when it fails. -/
structure Exact (text : Bytes) : Prop where
  accepts : ∀ out, (urlDecodeInto text out).1 = true ↔ WellEscaped text
  denotes : ∀ out, (urlDecodeInto text out).1 = true → Denotes text (urlDecodeInto text out).2
  keeps : ∀ out, (urlDecodeInto text out).1 = false → (urlDecodeInto text out).2 = out

/-- The scan that takes two bytes for every `%` meets one whose bytes are not both hexadecimal
digits. -/
inductive Foreign : Bytes → Prop
  | here {a b : UInt8} {s : Bytes} (h : hexDigit a = none ∨ hexDigit b = none) :
      Foreign (37 :: a :: b :: s)
  | skip {a b : UInt8} {s : Bytes} (h : Foreign s) : Foreign (37 :: a :: b :: s)
  | next {c : UInt8} {s : Bytes} (hc : c ≠ 37) (h : Foreign s) : Foreign (c :: s)

lemma scan_induction {P : Bytes → Prop} (nil : P [])
    (short : ∀ s : Bytes, s.length < 2 → P (37 :: s))
    (escape : ∀ a b s, P s → P (37 :: a :: b :: s))
    (next : ∀ c s, c ≠ 37 → P s → P (c :: s)) (s : Bytes) : P s := by
  induction h : s.length using Nat.strong_induction_on generalizing s with
  | _ n ih =>
    match s with
    | [] => exact nil
    | c :: t =>
      by_cases hc : c = 37
      · subst hc
        match t with
        | [] => exact short [] (by simp)
        | [a] => exact short [a] (by simp)
        | a :: b :: r => exact escape a b r (ih r.length (by simp [← h]; omega) r rfl)
      · exact next c t hc (ih t.length (by simp [← h]) t rfl)

/-! ### The scan and the decoder -/

lemma urlDecode_next {c : UInt8} (hc : c ≠ 37) (s : Bytes) :
    urlDecode (c :: s) = (urlDecode s).map ((if c = 43 then 32 else c) :: ·) := by
  by_cases h : c = 43
  · rw [if_pos h, h]
    exact urlDecode_plus s
  · rw [if_neg h]
    exact urlDecode_raw hc h s

lemma urlDecode_eq_none_iff (s : Bytes) : urlDecode s = none ↔ Truncated s := by
  refine ⟨?_, urlDecode_truncated⟩
  induction s using scan_induction with
  | nil =>
    intro h
    cases h
  | short s hs => exact fun _ => .short hs
  | escape a b s ih =>
    intro h
    rw [urlDecode_escape, Option.map_eq_none_iff] at h
    exact .skip (ih h)
  | next c s hc ih =>
    intro h
    rw [urlDecode_next hc, Option.map_eq_none_iff] at h
    exact .next hc (ih h)

lemma urlDecode_wellEscaped {s : Bytes} (h : WellEscaped s) :
    ∃ t, urlDecode s = some t ∧ Denotes s t := by
  induction h with
  | nil => exact ⟨[], rfl, .nil⟩
  | @escape a b s x y ha hb _ ih =>
    obtain ⟨t, ht, hd⟩ := ih
    have hx := (hexToByte_of_hexDigit ha).2
    have hy := (hexToByte_of_hexDigit hb).2
    have hc : (UInt8.ofNat (16 * x + y)).toNat = 16 * x + y := by
      rw [UInt8.toNat_ofNat']
      omega
    refine ⟨UInt8.ofNat (16 * x + y) :: t, ?_, .escape ha hb hc hd⟩
    rw [urlDecode_escape, hexstrToChar_eq ha hb hc, ht, Option.map_some]
  | @next c s hc _ ih =>
    obtain ⟨t, ht, hd⟩ := ih
    refine ⟨(if c = 43 then 32 else c) :: t, by rw [urlDecode_next hc, ht, Option.map_some], ?_⟩
    by_cases h43 : c = 43
    · rw [if_pos h43, h43]
      exact .plus hd
    · rw [if_neg h43]
      exact .raw hc h43 hd

/-- A text is percent-encoded, or one of the two ways to spoil an escape occurs in it. -/
lemma wellEscaped_or (s : Bytes) : WellEscaped s ∨ Foreign s ∨ Truncated s := by
  induction s using scan_induction with
  | nil => exact .inl .nil
  | short s hs => exact .inr (.inr (.short hs))
  | escape a b s ih =>
    rcases ih with h | h | h
    · rcases ha : hexDigit a with _ | x
      · exact .inr (.inl (.here (.inl ha)))
      · rcases hb : hexDigit b with _ | y
        · exact .inr (.inl (.here (.inr hb)))
        · exact .inl (.escape ha hb h)
    · exact .inr (.inl (.skip h))
    · exact .inr (.inr (.skip h))
  | next c s hc ih =>
    rcases ih with h | h | h
    · exact .inl (.next hc h)
    · exact .inr (.inl (.next hc h))
    · exact .inr (.inr (.next hc h))

lemma not_foreign_of_wellEscaped {s : Bytes} (h : WellEscaped s) : ¬ Foreign s := by
  induction h with
  | nil =>
    intro hf
    cases hf
  | escape ha hb _ ih =>
    intro hf
    cases hf with
    | here h => simp [ha, hb] at h
    | skip h => exact ih h
    | next hc _ => exact hc rfl
  | next hc _ ih =>
    intro hf
    cases hf with
    | here => exact hc rfl
    | skip => exact hc rfl
    | next _ h => exact ih h

lemma urlDecodeInto_truncated {text : Bytes} (h : Truncated text) (out : Bytes) :
    urlDecodeInto text out = (false, out) := by
  rw [urlDecodeInto, urlDecode_truncated h]

lemma urlDecodeInto_of_some {text decoded : Bytes} (h : urlDecode text = some decoded)
    (out : Bytes) : urlDecodeInto text out = (true, decoded) := by
  rw [urlDecodeInto, h]

/-- **A text is read correctly exactly when a foreign escape in it comes with a truncated one.** -/
theorem urlDecode_exact_iff (text : Bytes) : Exact text ↔ (Foreign text → Truncated text) := by
  constructor
  · intro h hf
    by_contra ht
    -- the decoder accepts, but the text is not percent-encoded
    obtain ⟨decoded, hd⟩ := Option.ne_none_iff_exists'.mp
      (fun hn => ht ((urlDecode_eq_none_iff text).mp hn))
    have hw := (h.accepts []).mp (by rw [urlDecodeInto_of_some hd])
    exact not_foreign_of_wellEscaped hw hf
  · intro h
    rcases wellEscaped_or text with hw | hbad
    · obtain ⟨decoded, hd, hden⟩ := urlDecode_wellEscaped hw
      have hcall := urlDecodeInto_of_some hd
      refine ⟨fun out => ?_, fun out _ => ?_, fun out hfalse => ?_⟩
      · rw [hcall]
        exact iff_of_true rfl hw
      · rw [hcall]
        exact hden
      · rw [hcall] at hfalse
        cases hfalse
    · have ht : Truncated text := hbad.elim h id
      have hcall := urlDecodeInto_truncated ht
      have hnot : ¬ WellEscaped text := by
        intro hw
        obtain ⟨decoded, hd, -⟩ := urlDecode_wellEscaped hw
        rw [urlDecode_truncated ht] at hd
        cases hd
      refine ⟨fun out => ?_, fun out htrue => ?_, fun out _ => ?_⟩
      · rw [hcall]
        exact iff_of_false Bool.false_ne_true hnot
      · rw [hcall] at htrue
        cases htrue
      · rw [hcall]

/-- `%zz` is taken for the letter `S`. -/
theorem urlDecode_not_exact : urlDecodeInto (lit "%zz") [] = (true, lit "S") ∧
    ¬ Exact (lit "%zz") := by
  have hf : Foreign (lit "%zz") := .here (.inl (by decide))
  refine ⟨by decide, fun h => ?_⟩
  exact not_foreign_of_wellEscaped ((h.accepts []).mp (by decide)) hf

end NgxMapping.PercentDecode
