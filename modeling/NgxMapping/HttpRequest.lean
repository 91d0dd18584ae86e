import NgxMapping.Lib.Search
import NgxMapping.Lib.UMap

/-!
The request as the handlers see it: `httpd::request`.

`copyUri` keeps the unparsed URI and fills the query parameters from the text after its
first `?`: the text is cut at every `&`, each piece at its first `=`, and both halves are
percent-decoded. A piece with a truncated escape is dropped; a later piece overwrites an
earlier one with the same key.
-/

namespace NgxMapping.HttpRequest

open Lib

abbrev Params := UMap Bytes Bytes

structure Request where
  url : Bytes := []
  headers : UMap Bytes Bytes := UMap.empty
  queryParameters : Params := UMap.empty

def Request.getHeader (r : Request) (name : Bytes) : Bytes := (r.headers.find name).getD []

def Request.getQueryParam (r : Request) (name : Bytes) : Bytes :=
  (r.queryParameters.find name).getD []

/-- A byte as the signed `char` of the source. -/
def schar (c : UInt8) : ℤ := Int.bmod c.toNat 256

/-- `hex_to_byte`: every letter counts on from ten, everything else from `'0'`. -/
def hexToByte (c : UInt8) : ℤ :=
  if 97 ≤ c ∧ c ≤ 122 then schar c - 97 + 10
  else if 65 ≤ c ∧ c ≤ 90 then schar c - 65 + 10
  else schar c - 48

/-- `hexstr_to_char`, cut to one byte. -/
def hexstrToChar (a b : UInt8) : UInt8 := UInt8.ofInt (hexToByte a * 16 + hexToByte b)

/-- `url_decode`; `none` is the return value `false`, with `out` left alone. -/
def urlDecode : Bytes → Option Bytes
  | [] => some []
  | c :: s =>
    if c = 37 then
      match s with
      | a :: b :: r => (urlDecode r).map (hexstrToChar a b :: ·)
      | _ => none
    else if c = 43 then (urlDecode s).map (32 :: ·)
    else (urlDecode s).map (c :: ·)

lemma urlDecode_escape (a b : UInt8) (s : Bytes) :
    urlDecode (37 :: a :: b :: s) = (urlDecode s).map (hexstrToChar a b :: ·) := by
  conv_lhs => unfold urlDecode
  simp

lemma urlDecode_plus (s : Bytes) : urlDecode (43 :: s) = (urlDecode s).map (32 :: ·) := by
  conv_lhs => unfold urlDecode
  simp

lemma urlDecode_raw {c : UInt8} (hp : c ≠ 37) (hs : c ≠ 43) (s : Bytes) :
    urlDecode (c :: s) = (urlDecode s).map (c :: ·) := by
  conv_lhs => unfold urlDecode
  simp [hp, hs]

/-- `add_param`. The position of `=` is `npos` when there is none, and
`split >= length - 1` then holds, also for the empty piece, whose `length - 1` wraps. -/
def addParam (q : Params) (param : Bytes) : Params :=
  match param.idxOf? 61 with
  | none =>
    match urlDecode param with
    | some key => q.insert key []
    | none => q
  | some split =>
    if param.length - 1 ≤ split then
      match urlDecode (param.take split) with
      | some key => q.insert key []
      | none => q
    else
      match urlDecode (param.take split), urlDecode (param.drop (split + 1)) with
      | some key, some value => q.insert key value
      | _, _ => q

/-- The pieces `set_query_param` hands to `add_param`: none without a `?`. -/
def pieces (url : Bytes) : List Bytes :=
  match url.idxOf? 63 with
  | none => []
  | some pos => (url.drop (pos + 1)).splitOn 38

def setQueryParam (q : Params) (url : Bytes) : Params := (pieces url).foldl addParam q

def Request.copyUri (r : Request) (uri : Bytes) : Request :=
  { r with url := uri, queryParameters := setQueryParam r.queryParameters uri }

/-- The request the module builds for an URI and the headers it has copied. -/
def received (headers : UMap Bytes Bytes) (uri : Bytes) : Request :=
  Request.copyUri { headers := headers } uri

/-! ### What a piece contributes -/

/-- The text before the first `=`, all of it when there is none. -/
def keyPart (t : Bytes) : Bytes := t.takeWhile (· ≠ 61)

/-- The text after the first `=`, empty when there is none. -/
def valuePart (t : Bytes) : Bytes := (t.dropWhile (· ≠ 61)).tail

/-- The pair a piece stands for, when both halves decode. -/
def pairOf (t : Bytes) : Option (Bytes × Bytes) :=
  match urlDecode (keyPart t), urlDecode (valuePart t) with
  | some k, some v => some (k, v)
  | _, _ => none

lemma keyPart_append {u v : Bytes} (h : (61 : UInt8) ∉ u) :
    keyPart (u ++ 61 :: v) = u ∧ valuePart (u ++ 61 :: v) = v := by
  have hall : ∀ c ∈ u, decide (c ≠ 61) = true := by
    intro c hc
    have : c ≠ 61 := by rintro rfl; exact h hc
    simpa using this
  constructor
  · rw [keyPart, List.takeWhile_append_of_pos hall]
    simp
  · rw [valuePart, List.dropWhile_append_of_pos hall]
    simp

lemma keyPart_of_idxOf? {t : Bytes} {i : ℕ} (h : t.idxOf? 61 = some i) :
    keyPart t = t.take i ∧ valuePart t = t.drop (i + 1) ∧ i < t.length := by
  obtain ⟨h1, h2, h3⟩ := idxOf?_split h
  exact ⟨h1, by rw [valuePart, h2, List.tail_cons], h3⟩

lemma keyPart_of_not_mem {t : Bytes} (h : (61 : UInt8) ∉ t) :
    keyPart t = t ∧ valuePart t = [] := by
  have hall : ∀ c ∈ t, decide (c ≠ 61) = true := by
    intro c hc
    have : c ≠ 61 := by rintro rfl; exact h hc
    simpa using this
  refine ⟨List.takeWhile_eq_self_iff.mpr hall, ?_⟩
  unfold valuePart
  rw [List.dropWhile_eq_nil_iff.mpr hall]
  rfl

lemma addParam_eq (q : Params) (t : Bytes) :
    addParam q t = match pairOf t with
      | some (k, v) => q.insert k v
      | none => q := by
  unfold addParam pairOf
  split
  · rename_i h
    obtain ⟨hk, hv⟩ := keyPart_of_not_mem (by simpa using h)
    rw [hk, hv]
    cases urlDecode t <;> simp [urlDecode]
  · rename_i i h
    obtain ⟨hk, hv, hi⟩ := keyPart_of_idxOf? h
    rw [hk, hv]
    split
    · rename_i hle
      rw [List.drop_eq_nil_of_le (by omega)]
      cases urlDecode (t.take i) <;> simp [urlDecode]
    · cases urlDecode (t.take i) <;> cases urlDecode (t.drop (i + 1)) <;> rfl

/-- The value of the last pair under `k`, if there is one. -/
def lastValue (k : Bytes) (ps : List (Bytes × Bytes)) : Option Bytes :=
  ((ps.filter (·.1 = k)).getLast?).map Prod.snd

lemma lastValue_snoc (k : Bytes) (ps : List (Bytes × Bytes)) (p : Bytes × Bytes) :
    lastValue k (ps ++ [p]) = if p.1 = k then some p.2 else lastValue k ps := by
  by_cases h : p.1 = k <;> simp [lastValue, h]

/-- The parameters of an URI are the pairs of its pieces, the last one winning. -/
lemma find_setQueryParam (url k : Bytes) :
    (setQueryParam UMap.empty url).find k = lastValue k ((pieces url).filterMap pairOf) := by
  unfold setQueryParam
  generalize pieces url = ts
  induction ts using List.reverseRecOn with
  | nil => simp [lastValue]
  | append_singleton ts t ih =>
    rw [List.foldl_append, List.foldl_cons, List.foldl_nil, addParam_eq, List.filterMap_append]
    cases h : pairOf t with
    | none => simpa [h] using ih
    | some p =>
      obtain ⟨j, v⟩ := p
      simp only [UMap.find_insert, ih, List.filterMap_cons, h, List.filterMap_nil,
        lastValue_snoc, eq_comm]

lemma getQueryParam_received (h : UMap Bytes Bytes) (uri k : Bytes) :
    (received h uri).getQueryParam k =
      (lastValue k ((pieces uri).filterMap pairOf)).getD [] := by
  rw [← find_setQueryParam]
  rfl

end NgxMapping.HttpRequest
