import NgxMapping.Lib.Search

/-!
`utils/cookie.h`: reading a cookie out of a `Cookie` header and writing a `Set-Cookie` value.

`getCookie` looks for the name anywhere in the header, accepts a hit at the start of the text
or after a blank or a semicolon, and wants an equals sign behind it. `scanCookie` says what
that finds: the first such place, read from the left.
-/

namespace NgxMapping.CookieHeader

open Lib

/-- The characters after which a cookie name may start. -/
def boundary (c : UInt8) : Bool := isspace c || c == 59

/-- `pos == 0 || isspace(header[pos-1]) || header[pos-1] == ';'`. -/
def startsAt (header : Bytes) (pos : ℕ) : Bool := pos == 0 || boundary (header.getD (pos - 1) 0)

/-- The text from `pos` to the next semicolon. -/
def valueAt (header : Bytes) (pos : ℕ) : Bytes :=
  match find [59] header pos with
  | some stop => (header.drop pos).take (stop - pos)
  | none => header.drop pos

/-- The loop of `getCookie` at a hit of `find`. The positions grow, so as many rounds as the
header has bytes, and one, are enough. -/
def getCookieLoop (header name : Bytes) : ℕ → Option ℕ → Bytes
  | 0, _ => []
  | _, none => []
  | n + 1, some pos =>
    if startsAt header pos then
      let pos := pos + name.length
      if header[pos]? = some 61 then valueAt header (pos + 1)
      else getCookieLoop header name n (find name header (pos + 1))
    else getCookieLoop header name n (find name header (pos + 1))

def getCookie (header name : Bytes) : Bytes :=
  getCookieLoop header name (header.length + 1) (find name header 0)

/-- `url_encode`, which is not written yet in the source. -/
def urlEncode (_ : Bytes) : Bytes := []

/-- `setCookie` at time `now`. Everything but the number is appended as a zero-terminated
string, and a date after the year 9999 makes the result empty. -/
def setCookie (localtime : ℤ → Tm) (now : ℕ) (name value : Bytes) (expire : ℤ := 0)
    (path domain : Bytes := []) (secure httponly encodeUrl : Bool := false) : Bytes :=
  let tail := (if path = [] then [] else lit "; path=" ++ cstr path) ++
    (if domain = [] then [] else lit "; domain=" ++ cstr domain) ++
    (if secure then lit "; secure" else []) ++ (if httponly then lit "; httponly" else [])
  if value = [] then
    cstr name ++ lit "=deleted; expires=" ++ cookieDate (localtime (now - 1)) ++
      lit "; Max-Age=0" ++ tail
  else
    let encoded := if encodeUrl then urlEncode (cstr value) else value
    if 0 < expire then
      if 253402300799 < expire then []
      else cstr name ++ lit "=" ++ cstr encoded ++ lit "; expires=" ++
        cookieDate (localtime (now + expire)) ++ lit "; Max-Age=" ++ toStr expire ++ tail
    else cstr name ++ lit "=" ++ cstr encoded ++ tail

lemma setCookie_value (localtime : ℤ → Tm) (now : ℕ) (name path domain : Bytes) {value : Bytes}
    {expire : ℤ} (hv : value ≠ []) (h0 : 0 < expire) (h1 : expire ≤ 253402300799) :
    ∃ rest, setCookie localtime now name value expire path domain =
      cstr name ++ lit "=" ++ cstr value ++ lit ";" ++ rest := by
  have hs : lit "; expires=" = lit ";" ++ lit " expires=" := by decide
  unfold setCookie
  simp only [hv, if_false, h0, if_true, if_neg (not_lt.mpr h1), Bool.false_eq_true, hs]
  exact ⟨_, by simp only [List.append_assoc]; rfl⟩

/-! ### The scan from the left -/

/-- The value after the first `name=` that stands at the start or after a boundary; `b` says
whether the text at hand does. -/
def scanCookie (name : Bytes) (b : Bool) : Bytes → Option Bytes
  | [] => none
  | c :: s =>
    if b ∧ name ++ [61] <+: c :: s then some (((c :: s).drop (name.length + 1)).takeWhile (· ≠ 59))
    else scanCookie name (boundary c) s

/-- A name that cannot be mistaken for a separator. -/
structure NameOk (name : Bytes) : Prop where
  ne_nil : name ≠ []
  plain : ∀ c ∈ name, boundary c = false ∧ c ≠ 61

instance (name : Bytes) : Decidable (NameOk name) :=
  decidable_of_iff (name ≠ [] ∧ ∀ c ∈ name, boundary c = false ∧ c ≠ 61)
    ⟨fun h => ⟨h.1, h.2⟩, fun h => ⟨h.ne_nil, h.plain⟩⟩

section Scan

variable (header name : Bytes)

/-- The scan taken up at a position. -/
def scanAt (pos : ℕ) : Option Bytes := scanCookie name (startsAt header pos) (header.drop pos)

/-- The scan accepts at this position. -/
def Hit (pos : ℕ) : Prop := startsAt header pos = true ∧ name ++ [61] <+: header.drop pos

lemma startsAt_succ {pos : ℕ} (h : pos < header.length) :
    startsAt header (pos + 1) = boundary header[pos] := by
  simp [startsAt, List.getElem?_eq_getElem h]

lemma scanAt_end {pos : ℕ} (h : header.length ≤ pos) : scanAt header name pos = none := by
  rw [scanAt, List.drop_eq_nil_of_le h, scanCookie]

lemma scanAt_hit {pos : ℕ} (h : Hit header name pos) :
    scanAt header name pos =
      some ((header.drop (pos + name.length + 1)).takeWhile (· ≠ 59)) := by
  obtain ⟨hb, hp⟩ := h
  cases hd : header.drop pos with
  | nil => rw [hd] at hp; simp at hp
  | cons c s =>
    rw [hd] at hp
    rw [scanAt, hd, scanCookie, if_pos ⟨hb, hp⟩, ← hd, List.drop_drop, Nat.add_assoc]

lemma scanAt_succ {pos : ℕ} (h : ¬ Hit header name pos) :
    scanAt header name pos = scanAt header name (pos + 1) := by
  rcases Nat.lt_or_ge pos header.length with hlt | hge
  · have hd := List.drop_eq_getElem_cons hlt
    rw [scanAt, hd, scanCookie, if_neg, scanAt, startsAt_succ header hlt]
    rw [← hd]
    exact h
  · rw [scanAt_end header name hge, scanAt_end header name (by omega)]

lemma scanAt_skip {p q : ℕ} (hpq : p ≤ q) (h : ∀ r, p ≤ r → r < q → ¬ Hit header name r) :
    scanAt header name p = scanAt header name q := by
  induction q, hpq using Nat.le_induction with
  | base => rfl
  | succ q hq ih =>
    rw [ih fun r h1 h2 => h r h1 (by omega), scanAt_succ header name (h q hq (by omega))]

variable {header name}

lemma valueAt_eq (pos : ℕ) : valueAt header pos = (header.drop pos).takeWhile (· ≠ 59) := by
  unfold valueAt
  have key : ∀ (s : Bytes) (k : ℕ), [59] <+: s.drop k → (∀ j < k, ¬ [59] <+: s.drop j) →
      s.take k = s.takeWhile (· ≠ 59) := by
    intro s
    induction s with
    | nil => simp
    | cons c s ih =>
      intro k hk hlt
      cases k with
      | zero =>
        have : c = 59 := by simpa [eq_comm] using hk
        simp [this]
      | succ k =>
        have hc : c ≠ 59 := by
          have := hlt 0 (by omega)
          simpa [eq_comm] using this
        have := ih k (by simpa using hk) fun j hj => by simpa using hlt (j + 1) (by omega)
        simpa [hc] using this
  split
  · rename_i stop h
    obtain ⟨h1, h2, h3⟩ := find_some h
    refine key _ _ ?_ fun j hj => ?_
    · rwa [List.drop_drop, show pos + (stop - pos) = stop by omega]
    · rw [List.drop_drop]
      exact h3 _ (by omega) (by omega)
  · rename_i h
    symm
    refine List.takeWhile_eq_self_iff.mpr fun c hc => ?_
    obtain ⟨i, hi, rfl⟩ := List.mem_iff_getElem.mp hc
    have hno := find_none (by simp) h (pos + i) (by omega)
    rw [← List.drop_drop, List.drop_eq_getElem_cons hi] at hno
    have : (header.drop pos)[i] ≠ 59 := by simpa [eq_comm] using hno
    simpa using this

/-- A name found at a place that is no boundary, or without `=` behind it, is no hit, and no
hit begins inside it. -/
lemma not_hit_inside {q r : ℕ} (hok : NameOk name) (hq : name <+: header.drop q)
    (h1 : q < r) (h2 : r ≤ q + name.length) : ¬ Hit header name r := by
  rintro ⟨hb, -⟩
  obtain ⟨t, ht⟩ := hq
  have hlen := congrArg List.length ht
  rw [List.length_append, List.length_drop] at hlen
  obtain ⟨i, rfl⟩ : ∃ i, r = q + i + 1 := ⟨r - q - 1, by omega⟩
  have hi : q + i < header.length := by omega
  rw [startsAt_succ header hi] at hb
  have hc : header[q + i] ∈ name := by
    have e : (header.drop q)[i]? = name[i]? := by rw [← ht, List.getElem?_append_left (by omega)]
    rw [List.getElem?_drop, List.getElem?_eq_getElem hi] at e
    exact List.mem_of_getElem? e.symm
  simp [(hok.plain _ hc).1] at hb

lemma hit_iff {q : ℕ} (hq : name <+: header.drop q) :
    Hit header name q ↔ startsAt header q = true ∧ header[q + name.length]? = some 61 := by
  obtain ⟨t, ht⟩ := hq
  have e : header[q + name.length]? = t[0]? := by
    rw [← List.getElem?_drop, ← ht, List.getElem?_append_right (le_refl _), Nat.sub_self]
  unfold Hit
  rw [e, ← ht, List.prefix_append_right_inj]
  cases t with
  | nil => simp
  | cons c t =>
    simp only [List.getElem?_cons_zero, Option.some.injEq, List.cons_prefix_cons,
      List.nil_prefix, and_true]
    exact and_congr_right fun _ => eq_comm

/-- Taken up at any position with enough rounds left, the loop returns what the scan finds. -/
lemma getCookieLoop_eq (hok : NameOk name) (n p : ℕ) (hn : header.length < n + p) :
    getCookieLoop header name n (find name header p) = (scanAt header name p).getD [] := by
  induction n generalizing p with
  | zero => rw [getCookieLoop, scanAt_end header name (by omega)]; rfl
  | succ n ih =>
    cases hf : find name header p with
    | none =>
      have hno := find_none hok.ne_nil hf
      have hskip := scanAt_skip header name (show p ≤ p + header.length by omega)
        fun r h1 _ hh => hno r h1 ((List.prefix_append _ _).trans hh.2)
      rw [hskip, scanAt_end header name (by omega)]
      rfl
    | some q =>
      obtain ⟨hpq, hq, hbefore⟩ := find_some hf
      have hskip := scanAt_skip header name hpq
        fun r h1 h2 hh => hbefore r h1 h2 ((List.prefix_append _ _).trans hh.2)
      have hn0 : 0 < name.length := List.length_pos_iff.mpr hok.ne_nil
      rw [hskip, getCookieLoop]
      by_cases hb : startsAt header q = true
      · by_cases he : header[q + name.length]? = some 61
        · have hh : Hit header name q := (hit_iff hq).mpr ⟨hb, he⟩
          rw [if_pos hb, scanAt_hit header name hh]
          simp [he, valueAt_eq]
        · -- the loop resumes behind the name, the scan right after its first byte
          have hh : ¬ Hit header name q := fun h => he ((hit_iff hq).mp h).2
          have hle : q ≤ q + name.length + 1 := by omega
          have hin := scanAt_skip header name hle fun r h1 h2 => by
            rcases Nat.eq_or_lt_of_le h1 with rfl | h1
            · exact hh
            · exact not_hit_inside hok hq h1 (by omega)
          rw [if_pos hb, hin]
          simp only [he, if_false]
          exact ih _ (by omega)
      · have hh : ¬ Hit header name q := fun h => hb h.1
        rw [if_neg hb, scanAt_succ header name hh]
        exact ih _ (by omega)

/-- **`getCookie` returns the value behind the first accepted place.** -/
theorem getCookie_eq_scan (hok : NameOk name) :
    getCookie header name = (scanCookie name true header).getD [] := by
  have h := @getCookieLoop_eq header name hok (header.length + 1) 0 (by omega)
  simpa [getCookie, scanAt, startsAt] using h

end Scan

end NgxMapping.CookieHeader
