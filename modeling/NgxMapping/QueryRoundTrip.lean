import NgxMapping.HttpRequest

/-!
Query parsing inverts query building.

A query is built from pairs of byte strings: every byte may stand for itself, for a `%XX`
escape, or, a space, for `+`, as long as the separators stay readable. Between the pairs
there may be pieces with a truncated escape, which the parser drops.
-/

namespace NgxMapping.QueryRoundTrip

open Lib HttpRequest

/-- The ways to write one byte; `key` says whether it belongs to a key. -/
inductive EncByte (key : Bool) : UInt8 → Bytes → Prop
  | raw {c : UInt8} (hp : c ≠ 37) (hs : c ≠ 43) (ha : c ≠ 38) (hk : key = true → c ≠ 61) :
      EncByte key c [c]
  | hex {c a b : UInt8} {x y : ℕ} (ha : hexDigit a = some x) (hb : hexDigit b = some y)
      (hc : c.toNat = 16 * x + y) : EncByte key c [37, a, b]
  | plus : EncByte key 32 [43]

/-- The ways to write a byte string. -/
inductive Enc (key : Bool) : Bytes → Bytes → Prop
  | nil : Enc key [] []
  | cons {c : UInt8} {s t u : Bytes} (h : EncByte key c t) (hs : Enc key s u) :
      Enc key (c :: s) (t ++ u)

/-- The scan from the left, skipping the two bytes after each `%`, meets a `%` followed by
fewer than two bytes. -/
inductive Truncated : Bytes → Prop
  | short {s : Bytes} (h : s.length < 2) : Truncated (37 :: s)
  | skip {a b : UInt8} {s : Bytes} (h : Truncated s) : Truncated (37 :: a :: b :: s)
  | next {c : UInt8} {s : Bytes} (hc : c ≠ 37) (h : Truncated s) : Truncated (c :: s)

/-- The text of one piece of a query: a pair, or a piece that cannot be decoded. -/
inductive PieceText : Option (Bytes × Bytes) → Bytes → Prop
  | pair {k v tk tv : Bytes} (hk : Enc true k tk) (hv : Enc false v tv) :
      PieceText (some (k, v)) (tk ++ 61 :: tv)
  | bad {t : Bytes} (ha : (38 : UInt8) ∉ t)
      (h : Truncated (keyPart t) ∨ Truncated (valuePart t)) : PieceText none t

/-! ### Decoding -/

lemma schar_of_lt {c : UInt8} (h : c.toNat < 128) : schar c = c.toNat := by
  unfold schar
  rw [Int.bmod_def]
  split <;> omega

lemma hexToByte_of_hexDigit {c : UInt8} {x : ℕ} (h : hexDigit c = some x) :
    hexToByte c = x ∧ x < 16 := by
  unfold hexDigit at h
  unfold hexToByte
  simp only [UInt8.le_iff_toNat_le, UInt8.reduceToNat] at h ⊢
  split_ifs at h with h1 h2 h3
  · simp only [Option.some.injEq] at h
    rw [if_neg (by omega), if_neg (by omega), schar_of_lt (by omega)]
    omega
  · simp only [Option.some.injEq] at h
    rw [if_neg (by omega), if_pos (by omega), schar_of_lt (by omega)]
    omega
  · simp only [Option.some.injEq] at h
    rw [if_pos (by omega), schar_of_lt (by omega)]
    omega

lemma hexstrToChar_eq {a b c : UInt8} {x y : ℕ} (ha : hexDigit a = some x)
    (hb : hexDigit b = some y) (hc : c.toNat = 16 * x + y) : hexstrToChar a b = c := by
  obtain ⟨h1, hx⟩ := hexToByte_of_hexDigit ha
  obtain ⟨h2, hy⟩ := hexToByte_of_hexDigit hb
  have he : ((x : ℤ) * 16 + y) % 2 ^ 8 = (c.toNat : ℤ) := by omega
  rw [hexstrToChar, h1, h2, UInt8.ofInt, he]
  simp

lemma hexDigit_ne {c d : UInt8} (hd : hexDigit d = none) {x : ℕ} (h : hexDigit c = some x) :
    c ≠ d := by
  rintro rfl
  simp [hd] at h

lemma urlDecode_encByte {key : Bool} {c : UInt8} {t : Bytes} (h : EncByte key c t) (u : Bytes) :
    urlDecode (t ++ u) = (urlDecode u).map (c :: ·) := by
  cases h with
  | raw hp hs ha hk => exact urlDecode_raw hp hs u
  | hex ha hb hc =>
    rw [← hexstrToChar_eq ha hb hc]
    exact urlDecode_escape _ _ u
  | plus => exact urlDecode_plus u

lemma urlDecode_enc {key : Bool} {s t : Bytes} (h : Enc key s t) : urlDecode t = some s := by
  induction h with
  | nil => rfl
  | cons h _ ih => rw [urlDecode_encByte h, ih]; rfl

lemma urlDecode_truncated {t : Bytes} (h : Truncated t) : urlDecode t = none := by
  induction h with
  | @short s h =>
    match s, h with
    | [], _ => rfl
    | [_], _ => rfl
  | skip _ ih => rw [urlDecode_escape, ih]; rfl
  | @next c s hc _ ih =>
    by_cases h43 : c = 43
    · subst h43
      rw [urlDecode_plus, ih]; rfl
    · rw [urlDecode_raw hc h43, ih]; rfl

/-! ### The separators stay readable -/

lemma encByte_not_mem {key : Bool} {c : UInt8} {t : Bytes} (h : EncByte key c t) :
    (38 : UInt8) ∉ t ∧ (key = true → (61 : UInt8) ∉ t) := by
  cases h with
  | raw hp hs ha hk => simpa [eq_comm] using ⟨ha, hk⟩
  | hex ha hb hc =>
    have h1 := hexDigit_ne (d := 38) (by decide) ha
    have h2 := hexDigit_ne (d := 38) (by decide) hb
    have h3 := hexDigit_ne (d := 61) (by decide) ha
    have h4 := hexDigit_ne (d := 61) (by decide) hb
    simp [h1.symm, h2.symm, h3.symm, h4.symm]
  | plus => simp

lemma enc_not_mem {key : Bool} {s t : Bytes} (h : Enc key s t) :
    (38 : UInt8) ∉ t ∧ (key = true → (61 : UInt8) ∉ t) := by
  induction h with
  | nil => simp
  | cons h _ ih =>
    obtain ⟨h1, h2⟩ := encByte_not_mem h
    refine ⟨by simpa using ⟨h1, ih.1⟩, fun hk => by simpa using ⟨h2 hk, ih.2 hk⟩⟩

lemma pieceText_spec {p : Option (Bytes × Bytes)} {t : Bytes} (h : PieceText p t) :
    (38 : UInt8) ∉ t ∧ pairOf t = p := by
  cases h with
  | @pair k v tk tv hk hv =>
    obtain ⟨hk1, hk2⟩ := enc_not_mem hk
    obtain ⟨hv1, -⟩ := enc_not_mem hv
    obtain ⟨e1, e2⟩ := keyPart_append (v := tv) (hk2 rfl)
    refine ⟨by simpa using ⟨hk1, hv1⟩, ?_⟩
    unfold pairOf
    rw [e1, e2, urlDecode_enc hk, urlDecode_enc hv]
  | bad ha h =>
    refine ⟨ha, ?_⟩
    unfold pairOf
    rcases h with h | h
    · rw [urlDecode_truncated h]
    · rw [urlDecode_truncated h]
      cases urlDecode (keyPart t) <;> rfl

lemma pieces_build (path : Bytes) (hp : (63 : UInt8) ∉ path) (ts : List Bytes) (hne : ts ≠ [])
    (ha : ∀ t ∈ ts, (38 : UInt8) ∉ t) :
    pieces (path ++ 63 :: [38].intercalate ts) = ts := by
  have hi : (path ++ 63 :: [38].intercalate ts).idxOf? 63 = some path.length := by
    rw [List.idxOf?_eq_some_iff]
    refine ⟨by simp, by simp, fun j hj => ?_⟩
    rw [List.getElem_append_left hj]
    intro hc
    exact hp (by simpa [hc] using List.getElem_mem hj)
  unfold pieces
  rw [hi]
  simp only [List.drop_append, List.drop_eq_nil_of_le (Nat.le_succ path.length),
    Nat.add_sub_cancel_left, List.nil_append, List.drop_succ_cons, List.drop_zero]
  exact List.splitOn_intercalate 38 (fun t ht => ha t ht) hne

/-- **Query parsing inverts query building**: every parameter has the value of the last pair
with its key, and undecodable pieces change nothing. -/
theorem getQueryParam_build (headers : UMap Bytes Bytes) (path : Bytes)
    (hp : (63 : UInt8) ∉ path) (ps : List (Option (Bytes × Bytes))) (ts : List Bytes)
    (hne : ts ≠ []) (h : List.Forall₂ PieceText ps ts) (k : Bytes) :
    (received headers (path ++ 63 :: [38].intercalate ts)).getQueryParam k =
      (lastValue k (ps.filterMap id)).getD [] := by
  have hall : (∀ t ∈ ts, (38 : UInt8) ∉ t) ∧ ts.filterMap pairOf = ps.filterMap id := by
    clear hne
    induction h with
    | nil => simp
    | cons ht _ ih =>
      obtain ⟨h1, h2⟩ := pieceText_spec ht
      refine ⟨by simpa using ⟨h1, ih.1⟩, ?_⟩
      rw [List.filterMap_cons, List.filterMap_cons, h2, ih.2]
      rfl
  rw [getQueryParam_received, pieces_build path hp ts hne hall.1, hall.2]

lemma enc_self {key : Bool} {s : Bytes} (h : ∀ c ∈ s, c ≠ 37 ∧ c ≠ 43 ∧ c ≠ 38 ∧ c ≠ 61) :
    Enc key s s := by
  induction s with
  | nil => exact .nil
  | cons c s ih =>
    obtain ⟨h1, h2, h3, h4⟩ := h c (by simp)
    exact .cons (.raw h1 h2 h3 fun _ => h4) (ih fun d hd => h d (by simp [hd]))

/-- A return from Tencent with a truncated piece between the two codes: the last one counts. -/
theorem getQueryParam_build_tencent :
    (received UMap.empty (lit "/r.gif?ext=a&b=%4&e%78t=+q")).getQueryParam (lit "ext") =
      lit " q" := by
  have h1 : PieceText (some (lit "ext", lit "a")) (lit "ext" ++ 61 :: lit "a") :=
    .pair (enc_self (by decide)) (enc_self (by decide))
  have h2 : PieceText none (lit "b=%4") :=
    .bad (by decide) (.inr (.short (by decide)))
  have hk : Enc true (lit "ext") (lit "e" ++ (lit "%78" ++ (lit "t" ++ []))) :=
    .cons (.raw (by decide) (by decide) (by decide) (by decide))
      (.cons (.hex (x := 7) (y := 8) (by decide) (by decide) (by decide))
        (.cons (.raw (by decide) (by decide) (by decide) (by decide)) .nil))
  have hv : Enc false (lit " q") (lit "+" ++ (lit "q" ++ [])) :=
    .cons .plus (.cons (.raw (by decide) (by decide) (by decide) (by decide)) .nil)
  exact getQueryParam_build UMap.empty (lit "/r.gif") (by decide)
    [some (lit "ext", lit "a"), none, some (lit "ext", lit " q")] _ (by simp)
    (.cons h1 (.cons h2 (.cons (.pair hk hv) .nil))) (lit "ext")

end NgxMapping.QueryRoundTrip
