import Mathlib.Data.List.DropRight
import NgxMapping.Lib.Bytes

/-!
`ngx_http_parse_header_line`: the header lines of a request, one byte after another.

The parser may run out of bytes anywhere in a line and is called again when there are more. It
keeps its state and four pointers into the buffer. The lines of an upstream server, which it
reads as well, are left out. What a line means is said by `Field`, without the parser.
-/

namespace NgxMapping.HeaderLine

open Lib

/-! ### The parser -/

inductive Sw
  | start | name | spaceBeforeValue | value | spaceAfterValue | almostDone | headerAlmostDone
  deriving DecidableEq

/-- The fields of the request that belong to the parser. A pointer is its distance from the start
of the buffer. -/
structure Parser where
  state : Sw := .start
  headerHash : ℕ := 0
  invalidHeader : Bool := false
  headerNameStart : ℤ := 0
  headerNameEnd : ℤ := 0
  headerStart : ℤ := 0
  headerEnd : ℤ := 0

/-- The table `lowcase`. -/
def lowcase (c : UInt8) : UInt8 :=
  if isdigit c ∨ c = 45 ∨ (97 ≤ c ∧ c ≤ 122) then c
  else if 65 ≤ c ∧ c ≤ 90 then c + 32 else 0

/-- `ngx_hash`. -/
def ngxHash (key : ℕ) (c : UInt8) : ℕ := (key * 31 + c.toNat) % 2 ^ 64

/-- What comes after a byte: another one, the end of the line, the end of the header, or an
error. -/
inductive Move
  | next (r : Parser)
  | done (r : Parser)
  | headerDone (r : Parser)
  | invalid

variable (allowUnderscores : Bool)

/-- A byte of a name; `hash` is what the hash of the bytes before it is, zero for the first. -/
def Parser.nameByte (r : Parser) (hash : ℕ) (ch : UInt8) : Option Parser :=
  if lowcase ch ≠ 0 then some { r with headerHash := ngxHash hash (lowcase ch) }
  else if ch = 95 then
    if allowUnderscores then some { r with headerHash := ngxHash hash ch }
    else some { r with invalidHeader := true }
  else none

/-- The body of the loop, at the pointer `p`. -/
def Parser.byte (r : Parser) (p : ℤ) (ch : UInt8) : Move :=
  match r.state with
  | .start =>
    let r := { r with headerNameStart := p, invalidHeader := false }
    if ch = 13 then .next { r with headerEnd := p, state := .headerAlmostDone }
    else if ch = 10 then .headerDone { r with headerEnd := p }
    else
      let r := { r with state := .name }
      match r.nameByte allowUnderscores 0 ch with
      | some r => .next r
      | none => if ch = 0 then .invalid else .next { r with invalidHeader := true }
  | .name =>
    match r.nameByte allowUnderscores r.headerHash ch with
    | some r => .next r
    | none =>
      if ch = 58 then .next { r with headerNameEnd := p, state := .spaceBeforeValue }
      else if ch = 13 then
        .next { r with headerNameEnd := p, headerStart := p, headerEnd := p, state := .almostDone }
      else if ch = 10 then .done { r with headerNameEnd := p, headerStart := p, headerEnd := p }
      else if ch = 0 then .invalid
      else .next { r with invalidHeader := true }
  | .spaceBeforeValue =>
    if ch = 32 then .next r
    else if ch = 13 then .next { r with headerStart := p, headerEnd := p, state := .almostDone }
    else if ch = 10 then .done { r with headerStart := p, headerEnd := p }
    else if ch = 0 then .invalid
    else .next { r with headerStart := p, state := .value }
  | .value =>
    if ch = 32 then .next { r with headerEnd := p, state := .spaceAfterValue }
    else if ch = 13 then .next { r with headerEnd := p, state := .almostDone }
    else if ch = 10 then .done { r with headerEnd := p }
    else if ch = 0 then .invalid
    else .next r
  | .spaceAfterValue =>
    if ch = 32 then .next r
    else if ch = 13 then .next { r with state := .almostDone }
    else if ch = 10 then .done r
    else if ch = 0 then .invalid
    else .next { r with state := .value }
  | .almostDone =>
    if ch = 10 then .done r else if ch = 13 then .next r else .invalid
  | .headerAlmostDone =>
    if ch = 10 then .headerDone r else .invalid

/-- What `ngx_http_parse_header_line` returns. -/
inductive Rc
  | ok | headerDone | again | invalidHeader
  deriving DecidableEq

/-- The loop over the bytes from `p` on, with the pointer behind the last byte read. -/
def parseLoop : Bytes → ℤ → Parser → Rc × ℤ × Parser
  | [], p, r => (.again, p, r)
  | ch :: rest, p, r =>
    match r.byte allowUnderscores p ch with
    | .next r => parseLoop rest (p + 1) r
    | .done r => (.ok, p + 1, { r with state := .start })
    | .headerDone r => (.headerDone, p + 1, { r with state := .start })
    | .invalid => (.invalidHeader, p, r)

/-! ### What a line means -/

/-- The name of a field: the first byte, and the bytes up to a colon behind it. -/
def fieldName : Bytes → Bytes
  | [] => []
  | c :: s => c :: s.takeWhile (· ≠ 58)

def trim (s : Bytes) : Bytes := (s.dropWhile (· = 32)).rdropWhile (· = 32)

/-- The value of a field: what follows the colon. -/
def fieldValue (text : Bytes) : Bytes := trim (text.drop ((fieldName text).length + 1))

/-- A line up to its end, as a field. -/
structure Field (text name value : Bytes) : Prop where
  ne_nil : text ≠ []
  plain : ∀ c ∈ text, c ≠ 0 ∧ c ≠ 10 ∧ c ≠ 13
  name : fieldName text = name
  value : fieldValue text = value

/-- A line without its line feed: a field and any number of carriage returns. -/
def Line (line name value : Bytes) : Prop :=
  ∃ text crs, line = text ++ crs ∧ Field text name value ∧ ∀ c ∈ crs, c = 13

def Blank (line : Bytes) : Prop := line = [] ∨ line = [13]

def nameOk (c : UInt8) : Bool := lowcase c ≠ 0 || (allowUnderscores && c = 95)

/-- One more byte of a name in its hash; what may not stand there does not count. -/
def hashByte (h : ℕ) (c : UInt8) : ℕ :=
  if lowcase c ≠ 0 then ngxHash h (lowcase c)
  else if allowUnderscores && c = 95 then ngxHash h c else h

/-- The hash of a name. The first byte starts it anew unless it may not stand in a name; then the
hash of the line before goes on. -/
def hashName (before : ℕ) : Bytes → ℕ
  | [] => before
  | c :: s => s.foldl (hashByte allowUnderscores)
      (if nameOk allowUnderscores c then hashByte allowUnderscores 0 c else before)

variable {allowUnderscores}

lemma nameByte_eq (r : Parser) (hash : ℕ) (ch : UInt8) :
    r.nameByte allowUnderscores hash ch =
      if nameOk allowUnderscores ch then
        some { r with headerHash := hashByte allowUnderscores hash ch }
      else if ch = 95 then some { r with invalidHeader := true } else none := by
  unfold Parser.nameByte nameOk hashByte
  by_cases h : lowcase ch = 0
  · by_cases h95 : ch = 95
    · subst h95
      cases allowUnderscores <;> simp [h]
    · simp [h, h95]
  · simp [h]

lemma nameOk_eq_false {c : UInt8} (h : c = 58 ∨ c = 13 ∨ c = 10 ∨ c = 0) :
    nameOk allowUnderscores c = false ∧ c ≠ 95 := by
  rcases h with rfl | rfl | rfl | rfl
  · cases allowUnderscores <;> decide
  · cases allowUnderscores <;> decide
  · cases allowUnderscores <;> decide
  · cases allowUnderscores <;> decide

lemma hashName_append {before : ℕ} {n : Bytes} (hn : n ≠ []) (c : UInt8) :
    hashName allowUnderscores before (n ++ [c]) =
      hashByte allowUnderscores (hashName allowUnderscores before n) c := by
  cases n with
  | nil => exact absurd rfl hn
  | cons d n => rw [List.cons_append, hashName, List.foldl_append]; rfl

lemma hashByte_of_not_ok {h : ℕ} {c : UInt8} (hc : nameOk allowUnderscores c = false) :
    hashByte allowUnderscores h c = h := by
  simp only [nameOk, Bool.or_eq_false_iff, decide_eq_false_iff_not, not_not] at hc
  rw [hashByte, if_neg (not_not.mpr hc.1), hc.2, if_neg Bool.false_ne_true]

/-! ### The parts of a field -/

/-- The bytes of a name, the first of which may be a colon. -/
structure Name (n : Bytes) : Prop where
  ne_nil : n ≠ []
  plain : ∀ c ∈ n, c ≠ 0 ∧ c ≠ 10 ∧ c ≠ 13
  colon : (58 : UInt8) ∉ n.tail

/-- The bytes of a value, without blanks at its ends. -/
structure Value (v : Bytes) : Prop where
  ne_nil : v ≠ []
  plain : ∀ c ∈ v, c ≠ 0 ∧ c ≠ 10 ∧ c ≠ 13
  head : v.head? ≠ some 32

def Blanks (s : Bytes) : Prop := ∀ c ∈ s, c = 32

lemma Blanks.plain {s : Bytes} (h : Blanks s) : ∀ c ∈ s, c ≠ 0 ∧ c ≠ 10 ∧ c ≠ 13 := by
  intro c hc
  rw [h c hc]
  decide

lemma Blanks.snoc {s : Bytes} (h : Blanks s) : Blanks (s ++ [32]) := by
  intro c hc
  rcases List.mem_append.mp hc with hc | hc
  · exact h c hc
  · exact List.mem_singleton.mp hc

lemma fieldName_of_name {n : Bytes} (hn : Name n) : fieldName n = n := by
  cases n with
  | nil => rfl
  | cons c s =>
    have : s.takeWhile (· ≠ 58) = s := by
      refine List.takeWhile_eq_self_iff.mpr fun d hd => ?_
      simpa using fun he : d = 58 => hn.colon (he ▸ hd)
    rw [fieldName, this]

lemma fieldName_colon {n : Bytes} (hn : Name n) (s : Bytes) : fieldName (n ++ 58 :: s) = n := by
  cases n with
  | nil => exact absurd rfl hn.ne_nil
  | cons c t =>
    have : (t ++ 58 :: s).takeWhile (· ≠ 58) = t := by
      rw [List.takeWhile_append_of_pos, List.takeWhile_cons_of_neg (by simp), List.append_nil]
      intro d hd
      simpa using fun he : d = 58 => hn.colon (he ▸ hd)
    rw [List.cons_append, fieldName, this]

lemma trim_blanks {s : Bytes} (h : Blanks s) : trim s = [] := by
  rw [trim, List.dropWhile_eq_nil_iff.mpr fun c hc => by simpa using h c hc]
  rfl

lemma trim_eq {sp v sp' : Bytes} (hsp : Blanks sp) (hv : Value v) (hlast : v.getLast? ≠ some 32)
    (hsp' : Blanks sp') : trim (sp ++ (v ++ sp')) = v := by
  obtain ⟨c, w, rfl⟩ := List.exists_cons_of_ne_nil hv.ne_nil
  have hc : c ≠ 32 := by simpa using hv.head
  have hd : (sp ++ (c :: w ++ sp')).dropWhile (· = 32) = c :: w ++ sp' := by
    rw [List.dropWhile_append_of_pos fun x hx => by simpa using hsp x hx, List.cons_append,
      List.dropWhile_cons_of_neg (by simpa using hc)]
  rw [trim, hd, List.rdropWhile, List.reverse_append, List.dropWhile_append_of_pos]
  · obtain ⟨d, u, hu⟩ := List.exists_cons_of_ne_nil
      (show (c :: w).reverse ≠ [] by simp)
    have hdl : d ≠ 32 := by
      have : (c :: w).getLast? = some d := by
        rw [List.getLast?_eq_head?_reverse, hu]
        rfl
      rw [this] at hlast
      simpa using hlast
    rw [hu, List.dropWhile_cons_of_neg (by simpa using hdl), ← hu, List.reverse_reverse]
  · intro x hx
    simpa using hsp' x (List.mem_reverse.mp hx)

/-! ### Where the parser stands -/

/-- What the parser keeps of a name that starts at `base`. -/
structure Head (allowUnderscores : Bool) (before : ℕ) (base : ℤ) (n : Bytes) (r : Parser) :
    Prop where
  nameStart : r.headerNameStart = base
  hash : r.headerHash = hashName allowUnderscores before n
  invalid : r.invalidHeader = !n.all (nameOk allowUnderscores)

/-- The pointers are set for the field of a text that starts at `base`. -/
structure Closed (allowUnderscores : Bool) (before : ℕ) (base : ℤ) (text n v : Bytes)
    (r : Parser) : Prop where
  field : Field text n v
  head : Head allowUnderscores before base n r
  nameEnd : r.headerNameEnd = base + n.length
  value : ∃ a : ℕ, r.headerStart = base + a ∧ r.headerEnd = base + a + v.length ∧
    (text.drop a).take v.length = v

/-- The parser has read the text of a line, which starts at `base`. -/
inductive Reads (allowUnderscores : Bool) (before : ℕ) (base : ℤ) : Bytes → Parser → Prop
  | name {n : Bytes} {r : Parser} : r.state = .name → Name n →
      Head allowUnderscores before base n r → Reads allowUnderscores before base n r
  | blanks {n sp : Bytes} {r : Parser} : r.state = .spaceBeforeValue → Name n →
      Head allowUnderscores before base n r → r.headerNameEnd = base + n.length → Blanks sp →
      Reads allowUnderscores before base (n ++ 58 :: sp) r
  | value {n sp v : Bytes} {r : Parser} : r.state = .value → Name n →
      Head allowUnderscores before base n r → r.headerNameEnd = base + n.length → Blanks sp →
      Value v → v.getLast? ≠ some 32 → r.headerStart = base + (n.length + 1 + sp.length : ℕ) →
      Reads allowUnderscores before base (n ++ 58 :: (sp ++ v)) r
  | after {n sp v sp' : Bytes} {r : Parser} : r.state = .spaceAfterValue → Name n →
      Head allowUnderscores before base n r → r.headerNameEnd = base + n.length → Blanks sp →
      Value v → v.getLast? ≠ some 32 → r.headerStart = base + (n.length + 1 + sp.length : ℕ) →
      r.headerEnd = base + (n.length + 1 + sp.length : ℕ) + v.length → Blanks sp' → sp' ≠ [] →
      Reads allowUnderscores before base (n ++ 58 :: (sp ++ (v ++ sp'))) r
  | almost {text n v crs : Bytes} {r : Parser} : r.state = .almostDone →
      Closed allowUnderscores before base text n v r → (∀ c ∈ crs, c = 13) → crs ≠ [] →
      Reads allowUnderscores before base (text ++ crs) r
  | blank {r : Parser} : r.state = .headerAlmostDone → r.headerNameStart = base →
      Reads allowUnderscores before base [13] r

lemma Reads.nameStart {a : Bool} {before : ℕ} {base : ℤ} {t : Bytes} {r : Parser}
    (h : Reads a before base t r) : r.headerNameStart = base := by
  cases h with
  | name _ _ hh => exact hh.nameStart
  | blanks _ _ hh => exact hh.nameStart
  | value _ _ hh => exact hh.nameStart
  | after _ _ hh => exact hh.nameStart
  | almost _ hc => exact hc.head.nameStart
  | blank _ hb => exact hb

lemma Reads.ne_start {a : Bool} {before : ℕ} {base : ℤ} {t : Bytes} {r : Parser}
    (h : Reads a before base t r) : r.state ≠ .start := by
  cases h <;> simp_all

section Steps

variable {before : ℕ} {base : ℤ} {r : Parser}

lemma closed_name {n : Bytes} (hn : Name n) (hh : Head allowUnderscores before base n r)
    (hne : r.headerNameEnd = base + n.length) (hs : r.headerStart = base + n.length)
    (he : r.headerEnd = base + n.length) :
    Closed allowUnderscores before base n n [] r where
  field := ⟨hn.ne_nil, hn.plain, fieldName_of_name hn, by
    rw [fieldValue, fieldName_of_name hn, List.drop_eq_nil_of_le (by omega)]
    rfl⟩
  head := hh
  nameEnd := hne
  value := ⟨n.length, hs, by simpa using he, rfl⟩

lemma plain_colon {n s : Bytes} (hn : Name n) (hs : ∀ c ∈ s, c ≠ 0 ∧ c ≠ 10 ∧ c ≠ 13) :
    ∀ c ∈ n ++ 58 :: s, c ≠ 0 ∧ c ≠ 10 ∧ c ≠ 13 := by
  intro c hc
  rcases List.mem_append.mp hc with hc | hc
  · exact hn.plain c hc
  · rcases List.mem_cons.mp hc with rfl | hc
    · decide
    · exact hs c hc

lemma fieldValue_colon {n : Bytes} (hn : Name n) (s : Bytes) :
    fieldValue (n ++ 58 :: s) = trim s := by
  have hdrop : (n ++ 58 :: s).drop (n.length + 1) = s := by simp
  rw [fieldValue, fieldName_colon hn, hdrop]

lemma closed_blanks {n sp : Bytes} (hn : Name n) (hh : Head allowUnderscores before base n r)
    (hne : r.headerNameEnd = base + n.length) (hsp : Blanks sp)
    (hs : r.headerStart = base + (n ++ 58 :: sp).length)
    (he : r.headerEnd = base + (n ++ 58 :: sp).length) :
    Closed allowUnderscores before base (n ++ 58 :: sp) n [] r where
  field := ⟨by simp, plain_colon hn hsp.plain, fieldName_colon hn sp, by
    rw [fieldValue_colon hn, trim_blanks hsp]⟩
  head := hh
  nameEnd := hne
  value := ⟨(n ++ 58 :: sp).length, hs, by simpa using he, rfl⟩

lemma closed_value {n sp v sp' : Bytes} (hn : Name n) (hh : Head allowUnderscores before base n r)
    (hne : r.headerNameEnd = base + n.length) (hsp : Blanks sp) (hv : Value v)
    (hlast : v.getLast? ≠ some 32) (hsp' : Blanks sp')
    (hs : r.headerStart = base + (n.length + 1 + sp.length : ℕ))
    (he : r.headerEnd = base + (n.length + 1 + sp.length : ℕ) + v.length) :
    Closed allowUnderscores before base (n ++ 58 :: (sp ++ (v ++ sp'))) n v r where
  field := by
    refine ⟨by simp, plain_colon hn ?_, fieldName_colon hn _, ?_⟩
    · intro c hc
      rcases List.mem_append.mp hc with hc | hc
      · exact hsp.plain c hc
      · rcases List.mem_append.mp hc with hc | hc
        · exact hv.plain c hc
        · exact hsp'.plain c hc
    · rw [fieldValue_colon hn, trim_eq hsp hv hlast hsp']
  head := hh
  nameEnd := hne
  value := by
    refine ⟨n.length + 1 + sp.length, hs, he, ?_⟩
    have hsplit : n ++ 58 :: (sp ++ (v ++ sp')) = (n ++ 58 :: sp) ++ (v ++ sp') := by simp
    rw [hsplit, List.drop_left' (by simp; omega), List.take_left' rfl]

/-- No line goes on like this. -/
def Bad (t : Bytes) : Prop := ∀ s, (∀ n v, ¬ Line (t ++ s) n v) ∧ ¬ Blank (t ++ s)

lemma bad_of_zero {t : Bytes} (h : (0 : UInt8) ∈ t) : Bad t := by
  intro s
  refine ⟨?_, ?_⟩
  · rintro n v ⟨text, crs, he, hf, hcrs⟩
    have h0 : (0 : UInt8) ∈ text ++ crs := he ▸ List.mem_append_left s h
    rcases List.mem_append.mp h0 with h0 | h0
    · exact (hf.plain 0 h0).1 rfl
    · exact absurd (hcrs 0 h0) (by decide)
  · rintro (he | he)
    · rw [(List.append_eq_nil_iff.mp he).1] at h
      cases h
    · have h0 : (0 : UInt8) ∈ [(13 : UInt8)] := he ▸ List.mem_append_left s h
      exact absurd h0 (by decide)

lemma bad_of_return {text crs : Bytes} {c : UInt8} (hcrs : crs ≠ []) (hall : ∀ d ∈ crs, d = 13)
    (ht : ∀ d ∈ text, d ≠ 13) (hc : c ≠ 13) : Bad (text ++ crs ++ [c]) := by
  obtain ⟨e, crs, rfl⟩ := List.exists_cons_of_ne_nil hcrs
  obtain rfl := hall e List.mem_cons_self
  have hfirst : ∀ text' crs' s : Bytes, (∀ d ∈ text', d ≠ 13) → (∀ d ∈ crs', d = 13) →
      text ++ 13 :: crs ++ [c] ++ s ≠ text' ++ crs' := by
    intro text' crs' s ht' hcrs' he
    -- the texts before the first carriage return agree
    have htake : text = text' ∨ crs' = [] := by
      rcases crs' with _ | ⟨d, crs'⟩
      · exact .inr rfl
      · left
        have h1 := congrArg (List.takeWhile (· ≠ (13 : UInt8))) he
        obtain rfl := hcrs' d List.mem_cons_self
        rw [List.append_assoc, List.append_assoc, List.cons_append,
          List.takeWhile_append_of_pos (by simpa using ht),
          List.takeWhile_append_of_pos (by simpa using ht'),
          List.takeWhile_cons_of_neg (by simp), List.takeWhile_cons_of_neg (by simp),
          List.append_nil, List.append_nil] at h1
        exact h1
    rcases htake with rfl | rfl
    · rw [List.append_assoc, List.append_assoc, List.append_cancel_left_eq] at he
      refine hc (hcrs' c ?_)
      rw [← he]
      simp
    · have : (13 : UInt8) ∈ text' ++ [] := by
        rw [← he]
        simp
      rw [List.append_nil] at this
      exact ht' 13 this rfl
  intro s
  refine ⟨?_, ?_⟩
  · rintro n v ⟨text', crs', he, hf, hcrs'⟩
    exact hfirst text' crs' s (fun d hd => (hf.plain d hd).2.2) hcrs' he
  · rintro (he | he)
    · simp at he
    · exact hfirst [] [13] s (by simp) (by simp) he

/-- What a byte makes of the text of a line. -/
inductive After (allowUnderscores : Bool) (before : ℕ) (base : ℤ) (t : Bytes) (ch : UInt8) :
    Move → Prop
  | next {r : Parser} : ch ≠ 10 → Reads allowUnderscores before base (t ++ [ch]) r →
      After allowUnderscores before base t ch (.next r)
  | done {text crs n v : Bytes} {r : Parser} : ch = 10 → t = text ++ crs → (∀ c ∈ crs, c = 13) →
      Closed allowUnderscores before base text n v r →
      After allowUnderscores before base t ch (.done r)
  | headerDone {r : Parser} : ch = 10 → Blank t →
      After allowUnderscores before base t ch (.headerDone r)
  | invalid : ch ≠ 10 → Bad (t ++ [ch]) → After allowUnderscores before base t ch .invalid

lemma Head.snoc {n : Bytes} (hh : Head allowUnderscores before base n r) (hn : n ≠ [])
    {ch : UInt8} (hc : nameOk allowUnderscores ch = true) :
    Head allowUnderscores before base (n ++ [ch])
      { r with headerHash := hashByte allowUnderscores r.headerHash ch } where
  nameStart := hh.nameStart
  hash := by rw [hashName_append hn, ← hh.hash]
  invalid := by simp [hh.invalid, hc]

lemma Head.snoc_invalid {n : Bytes} (hh : Head allowUnderscores before base n r) (hn : n ≠ [])
    {ch : UInt8} (hc : nameOk allowUnderscores ch = false) :
    Head allowUnderscores before base (n ++ [ch]) { r with invalidHeader := true } where
  nameStart := hh.nameStart
  hash := by rw [hashName_append hn, hashByte_of_not_ok hc, ← hh.hash]
  invalid := by simp [hc]

lemma Name.snoc {n : Bytes} (hn : Name n) {ch : UInt8} (h58 : ch ≠ 58) (h13 : ch ≠ 13)
    (h10 : ch ≠ 10) (h0 : ch ≠ 0) : Name (n ++ [ch]) := by
  refine ⟨by simp, fun c hc => ?_, ?_⟩
  · rcases List.mem_append.mp hc with hc | hc
    · exact hn.plain c hc
    · rw [List.mem_singleton.mp hc]
      exact ⟨h0, h10, h13⟩
  · rw [List.tail_append_of_ne_nil hn.ne_nil]
    intro hmem
    rcases List.mem_append.mp hmem with hmem | hmem
    · exact hn.colon hmem
    · exact h58 (List.mem_singleton.mp hmem).symm

lemma Value.snoc {v : Bytes} (hv : Value v) {ch : UInt8} (h13 : ch ≠ 13) (h10 : ch ≠ 10)
    (h0 : ch ≠ 0) {sp : Bytes} (hsp : Blanks sp) : Value (v ++ (sp ++ [ch])) := by
  refine ⟨by simp, fun c hc => ?_, ?_⟩
  · rcases List.mem_append.mp hc with hc | hc
    · exact hv.plain c hc
    · rcases List.mem_append.mp hc with hc | hc
      · exact hsp.plain c hc
      · rw [List.mem_singleton.mp hc]
        exact ⟨h0, h10, h13⟩
  · rw [List.head?_append_of_ne_nil _ hv.ne_nil]
    exact hv.head

lemma after_start (hs : r.state = .start) (hb : r.headerHash = before) (ch : UInt8) :
    After allowUnderscores before base [] ch (r.byte allowUnderscores base ch) := by
  simp only [Parser.byte, hs]
  by_cases h13 : ch = 13
  · rw [if_pos h13]
    exact .next (by rw [h13]; decide) (h13 ▸ .blank rfl rfl)
  by_cases h10 : ch = 10
  · rw [if_neg h13, if_pos h10]
    exact .headerDone h10 (.inl rfl)
  have hname : ch ≠ 0 → Name [ch] := fun h0 => ⟨by simp, by simp [h0, h10, h13], by simp⟩
  rw [if_neg h13, if_neg h10, nameByte_eq]
  by_cases hok : nameOk allowUnderscores ch = true
  · have h0 : ch ≠ 0 := by
      rintro rfl
      exact absurd hok (by simp [(nameOk_eq_false (.inr (.inr (.inr rfl)))).1])
    rw [if_pos hok]
    exact .next h10 (.name rfl (hname h0) ⟨rfl, by simp [hashName, hok], by simp [hok]⟩)
  rw [if_neg hok]
  have hok := eq_false_of_ne_true hok
  have hhead : ∀ r' : Parser, r'.headerNameStart = base → r'.headerHash = r.headerHash →
      r'.invalidHeader = true → Head allowUnderscores before base [ch] r' := by
    intro r' h1 h2 h3
    exact ⟨h1, by simp [hashName, hok, h2, hb], by simp [hok, h3]⟩
  by_cases h95 : ch = 95
  · rw [if_pos h95]
    exact .next h10 (.name rfl (hname (by rw [h95]; decide)) (hhead _ rfl rfl rfl))
  rw [if_neg h95]
  by_cases h0 : ch = 0
  · simp only [if_pos h0]
    exact .invalid h10 (bad_of_zero (by simp [h0]))
  · simp only [if_neg h0]
    exact .next h10 (.name rfl (hname h0) (hhead _ rfl rfl rfl))

lemma after_name {n : Bytes} (hs : r.state = .name) (hn : Name n)
    (hh : Head allowUnderscores before base n r) (ch : UInt8) :
    After allowUnderscores before base n ch (r.byte allowUnderscores (base + n.length) ch) := by
  simp only [Parser.byte, hs]
  rw [nameByte_eq]
  by_cases hok : nameOk allowUnderscores ch = true
  · have hne : ∀ c : UInt8, c = 58 ∨ c = 13 ∨ c = 10 ∨ c = 0 → ch ≠ c := by
      rintro c hc rfl
      exact absurd hok (by simp [(nameOk_eq_false hc).1])
    rw [if_pos hok]
    exact .next (hne _ (by simp)) (.name hs
      (hn.snoc (hne _ (by simp)) (hne _ (by simp)) (hne _ (by simp)) (hne _ (by simp)))
      (hh.snoc hn.ne_nil hok))
  rw [if_neg hok]
  have hok := eq_false_of_ne_true hok
  by_cases h95 : ch = 95
  · subst h95
    rw [if_pos rfl]
    exact .next (by decide) (.name hs (hn.snoc (by decide) (by decide) (by decide) (by decide))
      (hh.snoc_invalid hn.ne_nil hok))
  rw [if_neg h95]
  split_ifs with h58 h13 h10 h0
  · subst h58
    exact .next (by decide) (.blanks rfl hn ⟨hh.1, hh.2, hh.3⟩ rfl (by simp [Blanks]))
  · subst h13
    exact .next (by decide) (.almost rfl (closed_name hn ⟨hh.1, hh.2, hh.3⟩ rfl rfl rfl) (by simp)
      (by simp))
  · exact .done h10 (List.append_nil n).symm (by simp)
      (closed_name hn ⟨hh.1, hh.2, hh.3⟩ rfl rfl rfl)
  · exact .invalid h10 (bad_of_zero (by simp [h0]))
  · have hinv := hh.snoc_invalid hn.ne_nil hok
    exact .next h10 (.name rfl (hn.snoc h58 h13 h10 h0) ⟨hinv.1, hinv.2, hinv.3⟩)

lemma getLast?_snoc_ne {v : Bytes} {ch : UInt8} (h : ch ≠ 32) : (v ++ [ch]).getLast? ≠ some 32 := by
  simpa using h

/-- **One byte.** Where the parser stands after it, what it has found, or why no line goes on
like this. -/
lemma after_reads {t : Bytes} (h : Reads allowUnderscores before base t r) (ch : UInt8) :
    After allowUnderscores before base t ch (r.byte allowUnderscores (base + t.length) ch) := by
  cases h with
  | name hs hn hh => exact after_name hs hn hh ch
  | @blanks n sp _ hs hn hh hne hsp =>
    simp only [Parser.byte, hs]
    split_ifs with h32 h13 h10 h0
    · subst h32
      have := Reads.blanks hs hn hh hne hsp.snoc
      exact .next (by decide) (by simpa using this)
    · subst h13
      exact .next (by decide) (.almost rfl
        (closed_blanks hn ⟨hh.1, hh.2, hh.3⟩ hne hsp rfl rfl) (by simp) (by simp))
    · exact .done h10 (List.append_nil _).symm (by simp)
        (closed_blanks hn ⟨hh.1, hh.2, hh.3⟩ hne hsp rfl rfl)
    · exact .invalid h10 (bad_of_zero (by simp [h0]))
    · have hv : Value [ch] := ⟨by simp, by simp [h0, h10, h13], by simpa using h32⟩
      refine .next h10 ?_
      have := Reads.value (v := [ch]) rfl hn ⟨hh.1, hh.2, hh.3⟩ hne hsp hv (by simpa using h32)
        (r := { r with headerStart := base + (n ++ 58 :: sp).length, state := .value })
        (by simp; ring)
      simpa using this
  | @value n sp v _ hs hn hh hne hsp hv hlast hst =>
    have hlen : base + ((n ++ 58 :: (sp ++ v)).length : ℤ) =
        base + (n.length + 1 + sp.length : ℕ) + v.length := by
      simp
      ring
    have hclosed : ∀ r' : Parser, Head allowUnderscores before base n r' →
        r'.headerNameEnd = r.headerNameEnd → r'.headerStart = r.headerStart →
        r'.headerEnd = base + ((n ++ 58 :: (sp ++ v)).length : ℤ) →
        Closed allowUnderscores before base (n ++ 58 :: (sp ++ v)) n v r' := by
      intro r' h1 h2 h3 h4
      have : Closed allowUnderscores before base (n ++ 58 :: (sp ++ (v ++ []))) n v r' :=
        closed_value hn h1 (h2.trans hne) hsp hv hlast (by simp [Blanks]) (h3.trans hst)
          (h4.trans hlen)
      rwa [List.append_nil] at this
    simp only [Parser.byte, hs]
    split_ifs with h32 h13 h10 h0
    · subst h32
      have : Reads allowUnderscores before base (n ++ 58 :: (sp ++ (v ++ [32])))
          { r with headerEnd := base + (n ++ 58 :: (sp ++ v)).length, state := .spaceAfterValue } :=
        .after rfl hn ⟨hh.1, hh.2, hh.3⟩ hne hsp hv hlast hst hlen (by simp [Blanks]) (by simp)
      exact .next (by decide) (by simpa using this)
    · subst h13
      exact .next (by decide) (.almost rfl (hclosed _ ⟨hh.1, hh.2, hh.3⟩ rfl rfl rfl) (by simp)
        (by simp))
    · exact .done h10 (List.append_nil _).symm (by simp)
        (hclosed _ ⟨hh.1, hh.2, hh.3⟩ rfl rfl rfl)
    · exact .invalid h10 (bad_of_zero (by simp [h0]))
    · have hsnoc : Value (v ++ ([] ++ [ch])) := hv.snoc h13 h10 h0 (by simp [Blanks])
      have := Reads.value hs hn hh hne hsp hsnoc (getLast?_snoc_ne h32) hst
      exact .next h10 (by simpa using this)
  | @after n sp v sp' _ hs hn hh hne hsp hv hlast hst hen hsp' hne' =>
    simp only [Parser.byte, hs]
    split_ifs with h32 h13 h10 h0
    · subst h32
      have := Reads.after hs hn hh hne hsp hv hlast hst hen hsp'.snoc (by simp)
      exact .next (by decide) (by simpa using this)
    · subst h13
      exact .next (by decide) (.almost rfl (closed_value hn ⟨hh.1, hh.2, hh.3⟩ hne hsp hv hlast hsp'
        hst hen) (by simp) (by simp))
    · exact .done h10 (List.append_nil _).symm (by simp)
        (closed_value hn hh hne hsp hv hlast hsp' hst hen)
    · exact .invalid h10 (bad_of_zero (by simp [h0]))
    · have := Reads.value (r := { r with state := .value }) rfl hn ⟨hh.1, hh.2, hh.3⟩ hne hsp
        (hv.snoc h13 h10 h0 hsp')
        (by rw [← List.append_assoc]; exact getLast?_snoc_ne h32) hst
      exact .next h10 (by simpa using this)
  | @almost text n v crs _ hs hc hcrs hne =>
    simp only [Parser.byte, hs]
    split_ifs with h10 h13
    · exact .done h10 rfl hcrs hc
    · subst h13
      refine .next h10 ?_
      rw [List.append_assoc]
      refine .almost hs hc (fun c hc => ?_) (by simp)
      rcases List.mem_append.mp hc with hc | hc
      · exact hcrs c hc
      · exact List.mem_singleton.mp hc
    · exact .invalid h10 (bad_of_return hne hcrs (fun d hd => (hc.field.plain d hd).2.2) h13)
  | blank hs _ =>
    simp only [Parser.byte, hs]
    split_ifs with h10
    · exact .headerDone h10 (.inr rfl)
    · refine .invalid h10 fun s => ⟨?_, by simp [Blank]⟩
      rintro n v ⟨text, crs, he, hf, -⟩
      obtain ⟨c, text, rfl⟩ := List.exists_cons_of_ne_nil hf.ne_nil
      have hc : (13 : UInt8) = c := (List.cons.inj he).1
      exact (hf.plain c List.mem_cons_self).2.2 hc.symm

/-! ### Calls -/

/-- The parser has read the text of a line, which may not have begun. -/
def Stands (allowUnderscores : Bool) (before : ℕ) (base : ℤ) (t : Bytes) (r : Parser) : Prop :=
  (t = [] ∧ r.state = .start ∧ r.headerHash = before) ∨ Reads allowUnderscores before base t r

lemma after_stands {t : Bytes} (h : Stands allowUnderscores before base t r) (ch : UInt8) :
    After allowUnderscores before base t ch (r.byte allowUnderscores (base + t.length) ch) := by
  rcases h with ⟨rfl, hs, hb⟩ | h
  · rw [List.length_nil, Nat.cast_zero, add_zero]
    exact after_start hs hb ch
  · exact after_reads h ch

/-- What a call makes of the bytes `s` that follow the text `t` of a line. -/
inductive Found (allowUnderscores : Bool) (before : ℕ) (base : ℤ) (t s : Bytes) :
    Rc × ℤ × Parser → Prop
  | again {r : Parser} : (10 : UInt8) ∉ s → Stands allowUnderscores before base (t ++ s) r →
      Found allowUnderscores before base t s (.again, base + (t ++ s).length, r)
  | ok {u rest text crs n v : Bytes} {r : Parser} : s = u ++ 10 :: rest → (10 : UInt8) ∉ u →
      t ++ u = text ++ crs → (∀ c ∈ crs, c = 13) →
      Closed allowUnderscores before base text n v r → r.state = .start →
      Found allowUnderscores before base t s (.ok, base + (t ++ u).length + 1, r)
  | headerDone {u rest : Bytes} {r : Parser} : s = u ++ 10 :: rest → Blank (t ++ u) →
      Found allowUnderscores before base t s (.headerDone, base + (t ++ u).length + 1, r)
  | invalid {u rest : Bytes} {p : ℤ} {r : Parser} : s = u ++ rest → (10 : UInt8) ∉ u →
      Bad (t ++ u) → Found allowUnderscores before base t s (.invalidHeader, p, r)

/-- **A call** goes on where the parser stands, whichever call has brought it there. -/
lemma parseLoop_found {t : Bytes} (s : Bytes) (h : Stands allowUnderscores before base t r) :
    Found allowUnderscores before base t s
      (parseLoop allowUnderscores s (base + t.length) r) := by
  induction s generalizing t r with
  | nil =>
    have : Found allowUnderscores before base t [] (.again, base + (t ++ []).length, r) :=
      .again List.not_mem_nil (by rwa [List.append_nil])
    rwa [List.append_nil] at this
  | cons ch s ih =>
    have ha := after_stands h ch
    rw [parseLoop]
    generalize r.byte allowUnderscores (base + t.length) ch = move at ha
    cases ha with
    | @next r' h10 hr =>
      have hlen : base + (t.length : ℤ) + 1 = base + ((t ++ [ch]).length : ℤ) := by
        simp
        ring
      have hnext := ih (.inr hr)
      rw [← hlen] at hnext
      dsimp only
      generalize parseLoop allowUnderscores s (base + t.length + 1) r' = out at hnext
      have hcons : ∀ u : Bytes, t ++ [ch] ++ u = t ++ ch :: u := fun u => by simp
      have hmem : ∀ u : Bytes, (10 : UInt8) ∉ u → (10 : UInt8) ∉ ch :: u := fun u hu hm =>
        (List.mem_cons.mp hm).elim (fun he => h10 he.symm) hu
      cases hnext with
      | again hs hst =>
        rw [hcons] at hst ⊢
        exact .again (hmem s hs) hst
      | ok hs hu ht hcrs hc hstart =>
        rw [hcons] at ht ⊢
        exact .ok (by rw [hs]; rfl) (hmem _ hu) ht hcrs hc hstart
      | headerDone hs hb =>
        rw [hcons] at hb ⊢
        exact .headerDone (by rw [hs]; rfl) hb
      | @invalid u rest _ _ hs hu hb =>
        rw [hcons] at hb
        exact .invalid (u := ch :: u) (by rw [hs]; rfl) (hmem _ hu) hb
    | @done text crs n v r' h10 ht hcrs hc =>
      subst h10
      have : Found allowUnderscores before base t (10 :: s)
          (.ok, base + (t ++ []).length + 1, { r' with state := .start }) :=
        .ok rfl List.not_mem_nil (by rwa [List.append_nil]) hcrs
          ⟨hc.field, ⟨hc.head.1, hc.head.2, hc.head.3⟩, hc.nameEnd, hc.value⟩ rfl
      rwa [List.append_nil] at this
    | @headerDone r' h10 hb =>
      subst h10
      have : Found allowUnderscores before base t (10 :: s)
          (.headerDone, base + (t ++ []).length + 1, { r' with state := .start }) :=
        .headerDone rfl (by rwa [List.append_nil])
      rwa [List.append_nil] at this
    | invalid h10 hb =>
      refine .invalid (u := [ch]) rfl ?_ hb
      simpa using Ne.symm h10

end Steps

end NgxMapping.HeaderLine
