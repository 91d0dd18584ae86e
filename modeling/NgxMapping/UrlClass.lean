import NgxMapping.MappingSpec

/-!
How `handleExt` reads the URL of a request.

The parameters come from the query parser, the number of `ext` parameters and the two pixels
from counting matches in the whole unparsed URI. The two views are compared piece by piece: an
`ext` parameter is hidden from the count when it is not spelled `ext=`, and a match is stray when
it does not begin an `ext` parameter.
-/

namespace NgxMapping.UrlClass

open Lib HttpRequest PartnerTable TokenMatch MappingModel MappingSpec

/-! ### What the source does -/

/-- The object that `takeSource` gets, in front of its branches. -/
def coded (E : Env) (headers : UMap Bytes Bytes) (uri : Bytes) : Mapping :=
  gifDefault { start E (received headers uri) with
    ext := extCode ((received headers uri).getQueryParam (lit "ext")) }

lemma sourceBranch_coded (E : Env) (headers : UMap Bytes Bytes) (uri : Bytes) :
    sourceBranch (coded E headers uri) = .tencentReturn ↔
      param uri (lit "s") = [] ∧ tokenMatchSize uri extEq = 2 := by
  rw [coded, gifDefault_start, sourceBranch]
  by_cases hs : param uri (lit "s") = []
  · by_cases h2 : tokenMatchSize uri extEq = 2 <;> simp [hs, h2]
  · simp [hs, List.length_pos_iff]

lemma coded_ext (E : Env) (headers : UMap Bytes Bytes) {uri : Bytes}
    (h0 : extCode (param uri (lit "ext")) = 0) :
    (coded E headers uri).ext = if tokenMatchSize uri adGif = 1 then 4
      else if tokenMatchSize uri bdGif = 1 then 1 else 0 := by
  rw [coded, gifDefault_start]
  simp [givenExt, adDefault, h0]

/-! ### The structure of an URI -/

def queryParams (uri : Bytes) : List (Bytes × Bytes) := (pieces uri).filterMap pairOf

def extKeys (uri : Bytes) : ℕ := (queryParams uri).countP fun p => p.1 = lit "ext"

/-- The text before the first `?`, and the text from it on. -/
def uriPath (uri : Bytes) : Bytes := uri.takeWhile (· ≠ 63)
def afterPath (uri : Bytes) : Bytes := uri.dropWhile (· ≠ 63)

lemma uriPath_append (uri : Bytes) : uriPath uri ++ afterPath uri = uri :=
  List.takeWhile_append_dropWhile

lemma pieces_cases (uri : Bytes) :
    afterPath uri = [] ∧ pieces uri = [] ∨
      ∃ q, afterPath uri = 63 :: q ∧ pieces uri = q.splitOn 38 := by
  cases hi : uri.idxOf? 63 with
  | none =>
    refine .inl ⟨?_, by rw [pieces, hi]⟩
    have hmem : (63 : UInt8) ∉ uri := by simpa using hi
    refine List.dropWhile_eq_nil_iff.mpr fun c hc => ?_
    have hne : c ≠ 63 := by
      rintro rfl
      exact hmem hc
    simpa using hne
  | some pos => exact .inr ⟨_, (idxOf?_split hi).2.1, by rw [pieces, hi]⟩

/-- The matches of an expression without `?` and `&` lie in the path and in the pieces. -/
lemma tokenMatchSize_pieces {ps : List Pattern} (h63 : Excludes ps 63) (h38 : Excludes ps 38)
    (uri : Bytes) : tokenMatchSize uri ps = tokenMatchSize (uriPath uri) ps +
      ((pieces uri).map fun t => tokenMatchSize t ps).sum := by
  have huri := uriPath_append uri
  rcases pieces_cases uri with ⟨hq, hp⟩ | ⟨q, hq, hp⟩
  · rw [hq, List.append_nil] at huri
    rw [hp, huri]
    rfl
  · rw [hq] at huri
    conv_lhs => rw [← huri]
    rw [tokenMatchSize_append h63, hp, ← tokenMatchSize_intercalate h38, List.intercalate_splitOn]

/-! ### Counting `ext` -/

/-- The piece is a parameter with the key `ext`. -/
def IsExt (t : Bytes) : Prop := (pairOf t).map Prod.fst = some (lit "ext")

instance (t : Bytes) : Decidable (IsExt t) := inferInstanceAs (Decidable (_ = _))

/-- The parameters `ext` that are not spelled `ext=`. -/
def hidden (uri : Bytes) : ℕ := (pieces uri).countP fun t => IsExt t ∧ ¬ lit "ext=" <+: t

/-- The matches in a piece, but for the one that begins a parameter `ext`. -/
def strayIn (t : Bytes) : ℕ :=
  if IsExt t ∧ lit "ext=" <+: t then tokenMatchSize (t.drop 4) extEq else tokenMatchSize t extEq

/-- The matches that do not begin a parameter `ext`. -/
def stray (uri : Bytes) : ℕ :=
  tokenMatchSize (uriPath uri) extEq + ((pieces uri).map strayIn).sum

lemma tokenMatchSize_spelled (r : Bytes) :
    tokenMatchSize (lit "ext=" ++ r) extEq = 1 + tokenMatchSize r extEq :=
  tokenMatchSize_hit (by decide) (by decide) r

/-- In a piece, the matches and the hidden parameter are the parameter and the stray matches. -/
lemma count_piece (t : Bytes) :
    tokenMatchSize t extEq + (if IsExt t ∧ ¬ lit "ext=" <+: t then 1 else 0) =
      (if IsExt t then 1 else 0) + strayIn t := by
  unfold strayIn
  by_cases hx : IsExt t
  · by_cases hp : lit "ext=" <+: t
    · obtain ⟨r, rfl⟩ := hp
      have hdrop : (lit "ext=" ++ r).drop 4 = r := rfl
      simp [hx, tokenMatchSize_spelled, hdrop]
    · simp [hx, hp, Nat.add_comm]
  · simp [hx]

lemma extKeys_eq (uri : Bytes) : extKeys uri = (pieces uri).countP fun t => IsExt t := by
  unfold extKeys queryParams
  rw [List.countP_filterMap]
  refine List.countP_congr fun t _ => ?_
  cases h : pairOf t <;> simp [IsExt, h]

/-- **The matches and the hidden parameters are the parameters and the stray matches.** -/
lemma count_add_hidden (uri : Bytes) :
    tokenMatchSize uri extEq + hidden uri = extKeys uri + stray uri := by
  have key : ∀ ts : List Bytes, (ts.map fun t => tokenMatchSize t extEq).sum +
      (ts.countP fun t => IsExt t ∧ ¬ lit "ext=" <+: t) =
      (ts.countP fun t => IsExt t) + (ts.map strayIn).sum := by
    intro ts
    induction ts with
    | nil => rfl
    | cons t ts ih =>
      have ht := count_piece t
      simp only [List.map_cons, List.sum_cons, List.countP_cons, decide_eq_true_eq] at ih ⊢
      omega
  have hsum := key (pieces uri)
  rw [tokenMatchSize_pieces (by decide) (by decide), extKeys_eq, hidden, stray]
  omega

/-! ### The two pixels -/

lemma tokenMatchSize_pixel {c : UInt8} (hc : c = 97 ∨ c = 98) {uri : Bytes}
    (h : uriPath uri = lit "/" ++ c :: lit "d.gif") :
    tokenMatchSize uri [some c :: pattern "d.gif"] =
      1 + tokenMatchSize (afterPath uri) [some c :: pattern "d.gif"] := by
  have huri : uri = lit "/" ++ (c :: lit "d.gif" ++ afterPath uri) := by
    conv_lhs => rw [← uriPath_append uri, h]
    rfl
  have hpass : tokenMatchSize uri [some c :: pattern "d.gif"] =
      tokenMatchSize (c :: lit "d.gif" ++ afterPath uri) [some c :: pattern "d.gif"] := by
    conv_lhs => rw [huri]
    apply tokenMatchSize_pass
    rcases hc with rfl | rfl <;> decide
  rw [hpass]
  apply tokenMatchSize_hit
  · rcases hc with rfl | rfl <;> decide
  · rfl

lemma tokenMatchSize_adPath {uri : Bytes} (h : uriPath uri = lit "/ad.gif") :
    tokenMatchSize uri adGif = 1 + tokenMatchSize (afterPath uri) adGif :=
  tokenMatchSize_pixel (.inl rfl) h

lemma tokenMatchSize_bdPath {uri : Bytes} (h : uriPath uri = lit "/bd.gif") :
    tokenMatchSize uri bdGif = 1 + tokenMatchSize (afterPath uri) bdGif ∧
      tokenMatchSize uri adGif = tokenMatchSize (afterPath uri) adGif := by
  refine ⟨tokenMatchSize_pixel (.inr rfl) h, ?_⟩
  conv_lhs => rw [← uriPath_append uri, h]
  exact tokenMatchSize_pass (by decide) _

/-! ### The two views -/

/-- The branches taken are those the structure of the URI asks for. -/
structure Agrees (E : Env) (headers : UMap Bytes Bytes) (uri : Bytes) : Prop where
  tencent : sourceBranch (coded E headers uri) = .tencentReturn ↔
    param uri (lit "s") = [] ∧ extKeys uri = 2
  ad : extCode (param uri (lit "ext")) = 0 →
    ((coded E headers uri).ext = 4 ↔ uriPath uri = lit "/ad.gif")
  bd : extCode (param uri (lit "ext")) = 0 →
    ((coded E headers uri).ext = 1 ↔ uriPath uri = lit "/bd.gif")

/-- The matches do not mislead: without a source, hidden parameters and stray matches make up
for each other or leave the count away from two, and without a code the pixels are named by the
path alone. -/
structure Faithful (uri : Bytes) : Prop where
  ext : param uri (lit "s") = [] →
    stray uri = hidden uri ∨ extKeys uri ≠ 2 ∧ extKeys uri + stray uri ≠ hidden uri + 2
  ad : extCode (param uri (lit "ext")) = 0 → uriPath uri = lit "/ad.gif" →
    tokenMatchSize (afterPath uri) adGif = 0
  bd : extCode (param uri (lit "ext")) = 0 → uriPath uri = lit "/bd.gif" →
    tokenMatchSize (afterPath uri) bdGif = 0 ∧ tokenMatchSize (afterPath uri) adGif ≠ 1
  other : extCode (param uri (lit "ext")) = 0 → uriPath uri ≠ lit "/ad.gif" →
    uriPath uri ≠ lit "/bd.gif" → tokenMatchSize uri adGif ≠ 1 ∧ tokenMatchSize uri bdGif ≠ 1

lemma tencent_iff (E : Env) (headers : UMap Bytes Bytes) (uri : Bytes) :
    (sourceBranch (coded E headers uri) = .tencentReturn ↔
      param uri (lit "s") = [] ∧ extKeys uri = 2) ↔
    (param uri (lit "s") = [] →
      stray uri = hidden uri ∨ extKeys uri ≠ 2 ∧ extKeys uri + stray uri ≠ hidden uri + 2) := by
  have hcount := count_add_hidden uri
  rw [sourceBranch_coded]
  by_cases hs : param uri (lit "s") = []
  · simp only [hs, true_and, forall_const]
    omega
  · simp [hs]

/-- Without a code, the pixels are told by the path exactly when the counts are. -/
lemma pixels_iff (E : Env) (headers : UMap Bytes Bytes) {uri : Bytes}
    (h0 : extCode (param uri (lit "ext")) = 0) :
    (((coded E headers uri).ext = 4 ↔ uriPath uri = lit "/ad.gif") ∧
      ((coded E headers uri).ext = 1 ↔ uriPath uri = lit "/bd.gif")) ↔
    ((uriPath uri = lit "/ad.gif" → tokenMatchSize (afterPath uri) adGif = 0) ∧
      (uriPath uri = lit "/bd.gif" →
        tokenMatchSize (afterPath uri) bdGif = 0 ∧ tokenMatchSize (afterPath uri) adGif ≠ 1) ∧
      (uriPath uri ≠ lit "/ad.gif" → uriPath uri ≠ lit "/bd.gif" →
        tokenMatchSize uri adGif ≠ 1 ∧ tokenMatchSize uri bdGif ≠ 1)) := by
  have hne : lit "/ad.gif" ≠ lit "/bd.gif" := by decide
  rw [coded_ext E headers h0]
  by_cases had : uriPath uri = lit "/ad.gif"
  · have hcount := tokenMatchSize_adPath had
    simp only [had, hne, forall_const]
    split <;> simp <;> omega
  · by_cases hbd : uriPath uri = lit "/bd.gif"
    · obtain ⟨hb, ha⟩ := tokenMatchSize_bdPath hbd
      simp only [hbd, Ne.symm hne, forall_const]
      split
      · simp; omega
      · split <;> simp <;> omega
    · simp only [had, hbd, iff_false, ne_eq, not_false_eq_true, false_implies, true_and,
        forall_const]
      split
      · rename_i ha
        simp [ha]
      · rename_i ha
        split
        · rename_i hb
          simp [hb]
        · rename_i hb
          simp [ha, hb]

/-- **The URL is classified by its structure exactly when the matches do not mislead.** -/
theorem agrees_iff (E : Env) (headers : UMap Bytes Bytes) (uri : Bytes) :
    Agrees E headers uri ↔ Faithful uri := by
  constructor
  · rintro ⟨htencent, had, hbd⟩
    have hpixels := fun h0 => (pixels_iff E headers h0).mp ⟨had h0, hbd h0⟩
    exact ⟨(tencent_iff E headers uri).mp htencent, fun h0 => (hpixels h0).1,
      fun h0 => (hpixels h0).2.1, fun h0 => (hpixels h0).2.2⟩
  · rintro ⟨hext, had, hbd, hother⟩
    have hpixels := fun h0 => (pixels_iff E headers h0).mpr ⟨had h0, hbd h0, hother h0⟩
    exact ⟨(tencent_iff E headers uri).mpr hext, fun h0 => (hpixels h0).1, fun h0 => (hpixels h0).2⟩

/-- A parameter `next` counts as an `ext`. -/
theorem next_taken_for_ext :
    sourceBranch (coded (.still 1500000000) UMap.empty (lit "/m.gif?next=1&ext=3")) =
        .tencentReturn ∧
      queryParams (lit "/m.gif?next=1&ext=3") =
        [(lit "next", lit "1"), (lit "ext", lit "3")] ∧
      ¬ Agrees (.still 1500000000) UMap.empty (lit "/m.gif?next=1&ext=3") := by
  have htencent : sourceBranch (coded (.still 1500000000) UMap.empty
      (lit "/m.gif?next=1&ext=3")) = .tencentReturn := by decide +kernel
  refine ⟨htencent, by decide +kernel, fun h => ?_⟩
  exact absurd (h.tencent.mp htencent).2 (by decide +kernel)

end NgxMapping.UrlClass
