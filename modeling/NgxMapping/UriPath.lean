import NgxMapping.Lib.DotSegments
import NgxMapping.PercentDecode

/-!
The path of a request: `ngx_http_parse_uri`, `ngx_http_parse_complex_uri` and
`ngx_http_process_request_uri`.

A URI is looked at once to see whether there is anything to do with its path. If there is, a
second parser decodes the escapes and takes the dot segments out of it, one byte after another,
in a buffer that it goes back in. What it does is said by `decode` and by the paths of
`Lib.DotSegments`.
-/

namespace NgxMapping.UriPath

open Lib

/-! ### The parsers -/

/-- The table `usual`: a bit for every byte. -/
def usualTable : List ℕ :=
  [0xffffdbfe, 0x7fff37d6, 0xffffffff, 0xffffffff, 0xffffffff, 0xffffffff, 0xffffffff, 0xffffffff]

def usual (ch : UInt8) : Bool := (usualTable.getD (ch >>> 5).toNat 0).testBit (ch &&& 0x1f).toNat

/-- The fields of the request in which the parsers leave what they have seen of a URI. A pointer
is its distance from the start of the buffer. -/
structure Marks where
  complexUri : Bool := false
  quotedUri : Bool := false
  plusInUri : Bool := false
  spaceInUri : Bool := false
  argsStart : Option ℤ := none
  uriExt : Option ℤ := none
  deriving DecidableEq

/-- The states of `ngx_http_parse_uri`. -/
inductive Sw
  | start | afterSlashInUri | checkUri | uri
  deriving DecidableEq

/-- The body of the loop of `ngx_http_parse_uri`, at the pointer `p`. -/
def uriByte (state : Sw) (r : Marks) (p : ℤ) (ch : UInt8) : Option (Sw × Marks) :=
  match state with
  | .start => if ch ≠ 47 then none else some (.afterSlashInUri, r)
  | .afterSlashInUri => some <|
    if usual ch then (.checkUri, r)
    else if ch = 32 then (.checkUri, { r with spaceInUri := true })
    else if ch = 46 then (.uri, { r with complexUri := true })
    else if ch = 37 then (.uri, { r with quotedUri := true })
    else if ch = 47 then (.uri, { r with complexUri := true })
    else if ch = 63 then (.uri, { r with argsStart := some (p + 1) })
    else if ch = 35 then (.uri, { r with complexUri := true })
    else if ch = 43 then (.afterSlashInUri, { r with plusInUri := true })
    else (.checkUri, r)
  | .checkUri => some <|
    if usual ch then (.checkUri, r)
    else if ch = 47 then (.afterSlashInUri, { r with uriExt := none })
    else if ch = 46 then (.checkUri, { r with uriExt := some (p + 1) })
    else if ch = 32 then (.checkUri, { r with spaceInUri := true })
    else if ch = 37 then (.uri, { r with quotedUri := true })
    else if ch = 63 then (.uri, { r with argsStart := some (p + 1) })
    else if ch = 35 then (.uri, { r with complexUri := true })
    else if ch = 43 then (.checkUri, { r with plusInUri := true })
    else (.checkUri, r)
  | .uri => some <|
    if usual ch then (.uri, r)
    else if ch = 32 then (.uri, { r with spaceInUri := true })
    else if ch = 35 then (.uri, { r with complexUri := true })
    else (.uri, r)

def uriLoop : Bytes → Sw → Marks → ℤ → Option (Sw × Marks)
  | [], state, r, _ => some (state, r)
  | ch :: s, state, r, p =>
    match uriByte state r p ch with
    | none => none
    | some (state, r) => uriLoop s state r (p + 1)

/-- `ngx_http_parse_uri`; `none` is `NGX_ERROR`. -/
def parseUri (text : Bytes) (r : Marks) (uriStart : ℤ) : Option Marks :=
  (uriLoop text .start r uriStart).map Prod.snd

/-- The states of `ngx_http_parse_complex_uri`. -/
inductive Csw
  | usual | slash | dot | dotDot | quoted | quotedSecond
  deriving DecidableEq

/-- The variables of `ngx_http_parse_complex_uri`: what it has written to `r->uri.data`, up to the
pointer `u`, and the distance of `r->uri_ext` from there. -/
structure Complex where
  state : Csw := .usual
  quotedState : Csw := .usual
  decoded : UInt8 := 0
  u : Bytes := []
  uriExt : Option ℕ := none
  plusInUri : Bool
  quotedUri : Bool

inductive Move
  | next (c : Complex)
  | args (c : Complex)
  | done (c : Complex)
  | invalid

/-- The loop that goes back in the buffer, from the character at `i` on to a slash. -/
def backToSlash (u : Bytes) : ℕ → Option Bytes
  | 0 => if u[0]? = some 47 then some (u.take 1) else none
  | i + 1 => if u[i + 1]? = some 47 then some (u.take (i + 2)) else backToSlash u i

/-- The states in which a byte stands for itself. -/
def Complex.plain (mergeSlashes : Bool) (c : Complex) (ch : UInt8) : Move :=
  match c.state with
  | .usual =>
    if usual ch then .next { c with u := c.u ++ [ch] }
    else if ch = 47 then .next { c with uriExt := none, state := .slash, u := c.u ++ [ch] }
    else if ch = 37 then .next { c with quotedState := c.state, state := .quoted }
    else if ch = 63 then .args c
    else if ch = 35 then .done c
    else if ch = 46 then .next { c with uriExt := some (c.u.length + 1), u := c.u ++ [ch] }
    else if ch = 43 then .next { c with plusInUri := true, u := c.u ++ [ch] }
    else .next { c with u := c.u ++ [ch] }
  | .slash =>
    if usual ch then .next { c with state := .usual, u := c.u ++ [ch] }
    else if ch = 47 then .next (if mergeSlashes then c else { c with u := c.u ++ [ch] })
    else if ch = 46 then .next { c with state := .dot, u := c.u ++ [ch] }
    else if ch = 37 then .next { c with quotedState := c.state, state := .quoted }
    else if ch = 63 then .args c
    else if ch = 35 then .done c
    else if ch = 43 then .next { c with plusInUri := true, state := .usual, u := c.u ++ [ch] }
    else .next { c with state := .usual, u := c.u ++ [ch] }
  | .dot =>
    if usual ch then .next { c with state := .usual, u := c.u ++ [ch] }
    else if ch = 47 then .next { c with state := .slash, u := c.u.dropLast }
    else if ch = 46 then .next { c with state := .dotDot, u := c.u ++ [ch] }
    else if ch = 37 then .next { c with quotedState := c.state, state := .quoted }
    else if ch = 63 then .args c
    else if ch = 35 then .done c
    else if ch = 43 then .next { c with plusInUri := true, state := .usual, u := c.u ++ [ch] }
    else .next { c with state := .usual, u := c.u ++ [ch] }
  | .dotDot =>
    if usual ch then .next { c with state := .usual, u := c.u ++ [ch] }
    else if ch = 47 then
      -- `u -= 5` may lead before the buffer
      if c.u.length < 5 then .invalid
      else
        match backToSlash c.u (c.u.length - 5) with
        | none => .invalid
        | some u => .next { c with state := .slash, u := u }
    else if ch = 37 then .next { c with quotedState := c.state, state := .quoted }
    else if ch = 63 then .args c
    else if ch = 35 then .done c
    else if ch = 43 then .next { c with plusInUri := true, state := .usual, u := c.u ++ [ch] }
    else .next { c with state := .usual, u := c.u ++ [ch] }
  | .quoted | .quotedSecond => .invalid

/-- The body of the loop. A byte that has been decoded is looked at once more, in the state before
the escape. -/
def Complex.byte (mergeSlashes : Bool) (c : Complex) (ch : UInt8) : Move :=
  match c.state with
  | .quoted =>
    let c := { c with quotedUri := true }
    if 48 ≤ ch ∧ ch ≤ 57 then .next { c with decoded := ch - 48, state := .quotedSecond }
    else
      let d := ch ||| 0x20
      if 97 ≤ d ∧ d ≤ 102 then .next { c with decoded := d - 97 + 10, state := .quotedSecond }
      else .invalid
  | .quotedSecond =>
    if 48 ≤ ch ∧ ch ≤ 57 then
      let ch := (c.decoded <<< 4) + ch - 48
      if ch = 37 ∨ ch = 35 then .next { c with state := .usual, u := c.u ++ [ch] }
      else if ch = 0 then .invalid
      else { c with state := c.quotedState }.plain mergeSlashes ch
    else
      let d := ch ||| 0x20
      if 97 ≤ d ∧ d ≤ 102 then
        let ch := (c.decoded <<< 4) + d - 97 + 10
        if ch = 63 then .next { c with state := .usual, u := c.u ++ [ch] }
        else
          let c := if ch = 43 then { c with plusInUri := true } else c
          { c with state := c.quotedState }.plain mergeSlashes ch
      else .invalid
  | _ => c.plain mergeSlashes ch

/-- What the parser leaves. `argsStart` is the distance of `r->args_start` from the start of the
URI. -/
structure Parsed where
  uri : Bytes
  exten : Bytes
  argsStart : Option ℕ
  args : Bytes
  plusInUri : Bool
  quotedUri : Bool

/-- The arguments, when the whole URI is `text`. -/
def Parsed.argsOf (c : Parsed) (text : Bytes) : Bytes :=
  match c.argsStart with
  | some a => if a < text.length then text.drop a else c.args
  | none => c.args

/-- What is behind `done`. -/
def Complex.finish (c : Complex) : Parsed where
  uri := c.u
  exten := (c.uriExt.map c.u.drop).getD []
  argsStart := none
  args := []
  plusInUri := c.plusInUri
  quotedUri := c.quotedUri

/-- What is behind `args`: the arguments end at a `#`. -/
def Complex.finishArgs (c : Complex) (p : ℕ) (rest : Bytes) : Parsed :=
  if 35 ∈ rest then { c.finish with args := rest.takeWhile (· ≠ 35) }
  else { c.finish with argsStart := some p }

/-- The loop; `p` is the distance of the pointer from the start of the URI. -/
def complexLoop (mergeSlashes : Bool) : Bytes → ℕ → Complex → Option Parsed
  | [], _, c => some c.finish
  | ch :: s, p, c =>
    match c.byte mergeSlashes ch with
    | .next c => complexLoop mergeSlashes s (p + 1) c
    | .args c => some (c.finishArgs (p + 1) s)
    | .done c => some c.finish
    | .invalid => none

/-- `ngx_http_parse_complex_uri`; `none` is `NGX_HTTP_PARSE_INVALID_REQUEST`. -/
def parseComplexUri (mergeSlashes : Bool) (text : Bytes) (r : Marks) : Option Parsed :=
  complexLoop mergeSlashes text 0 { plusInUri := r.plusInUri, quotedUri := r.quotedUri }

/-- The fields of the request that say what has been asked for. -/
structure Uri where
  uri : Bytes
  unparsedUri : Bytes
  validUnparsedUri : Bool
  exten : Bytes
  args : Bytes
  deriving DecidableEq

/-- The bytes of the URI between two of its pointers. -/
def between (text : Bytes) (start stop : ℤ) : Bytes :=
  (text.drop start.toNat).take (stop - start).toNat

/-- `ngx_http_process_request_uri`, of the URI that starts at `uriStart`. -/
def processRequestUri (mergeSlashes : Bool) (text : Bytes) (uriStart : ℤ) (r : Marks) :
    Option Uri :=
  let len : ℤ := match r.argsStart with
    | some a => a - 1 - uriStart
    | none => text.length
  if r.complexUri ∨ r.quotedUri then
    match parseComplexUri mergeSlashes text r with
    | none => none
    | some c => some
      { uri := c.uri
        unparsedUri := text
        validUnparsedUri := !r.spaceInUri
        exten := c.exten
        args := c.argsOf text }
  else some
    { uri := between text 0 len
      unparsedUri := text
      validUnparsedUri := !r.spaceInUri
      exten := match r.uriExt with
        | some e => between text (e - uriStart) len
        | none => []
      args := match r.argsStart with
        | some a =>
          if a - uriStart < text.length then between text (a - uriStart) text.length else []
        | none => [] }

/-! ### What a URI asks for -/

/-- The path with its escapes decoded, up to the query or the fragment. An escape that is cut off
at the end of the URI is dropped; a zero is refused. -/
def decode : Bytes → Option Bytes
  | [] => some []
  | c :: s =>
    if c = 63 ∨ c = 35 then some []
    else if c = 37 then
      match s with
      | a :: b :: r =>
        match hexDigit a, hexDigit b with
        | some x, some y =>
          if 16 * x + y = 0 then none else (decode r).map (UInt8.ofNat (16 * x + y) :: ·)
        | _, _ => none
      | [a] => if (hexDigit a).isSome then some [] else none
      | [] => some []
    else (decode s).map (c :: ·)

/-- The text between the first `?` and a `#`. -/
def query (s : Bytes) : Bytes :=
  match s.dropWhile fun c => c ≠ 63 && c ≠ 35 with
  | [] => []
  | c :: q => if c = 63 then q.takeWhile (· ≠ 35) else []

/-- What a URI asks for: the path behind the first slash, resolved, and the query. -/
def asks (s : Bytes) : Option (Bytes × Bytes) := do
  let path ← decode s
  let segs ← resolve 46 (stepsOf 47 path)
  some (render 47 segs (lastOf 47 path), query s)

lemma usual_eq_true {c : UInt8} (h : usual c = true) :
    c ≠ 46 ∧ c ≠ 47 ∧ c ≠ 37 ∧ c ≠ 63 ∧ c ≠ 35 ∧ c ≠ 43 ∧ c ≠ 32 := by
  refine ⟨?_, ?_, ?_, ?_, ?_, ?_, ?_⟩ <;>
  · rintro rfl
    revert h
    decide

lemma usual_eq_false {c : UInt8} (h : c = 46 ∨ c = 47 ∨ c = 37 ∨ c = 63 ∨ c = 35 ∨ c = 43) :
    usual c = false := by
  rcases h with rfl | rfl | rfl | rfl | rfl | rfl <;> decide

/-! ### Digits -/

lemma forall_byte {P : UInt8 → Prop} (h : ∀ n < 256, P (UInt8.ofNat n)) (a : UInt8) : P a := by
  have := h a.toNat a.toNat_lt
  rwa [UInt8.ofNat_toNat] at this

lemma hexDigit_eq (a : UInt8) : hexDigit a =
    if 48 ≤ a ∧ a ≤ 57 then some (a.toNat - 48)
    else if 97 ≤ a ||| 0x20 ∧ a ||| 0x20 ≤ 102 then some ((a ||| 0x20).toNat - 87) else none := by
  revert a
  exact forall_byte (by decide +kernel)

lemma toNat_shiftLeft_four (d : UInt8) : (d <<< 4).toNat = 16 * (d.toNat % 16) := by
  rw [UInt8.toNat_shiftLeft, show (UInt8.toNat 4) % 8 = 4 from rfl, Nat.shiftLeft_eq]
  omega

lemma toNat_second {d ch : UInt8} {n : ℕ} (h1 : n ≤ ch.toNat) (h2 : ch.toNat ≤ n + 15)
    (hb : n < 256) : ((d <<< 4) + ch - UInt8.ofNat n).toNat =
      16 * (d.toNat % 16) + (ch.toNat - n) := by
  have hbase : (UInt8.ofNat n).toNat = n := by
    rw [UInt8.toNat_ofNat']
    exact Nat.mod_eq_of_lt hb
  rw [UInt8.toNat_sub, UInt8.toNat_add, toNat_shiftLeft_four, hbase]
  omega

lemma eq_ofNat {b : UInt8} {n : ℕ} (h : b.toNat = n) : b = UInt8.ofNat n := by
  rw [← h, UInt8.ofNat_toNat]

lemma hexDigit_lt {a : UInt8} {x : ℕ} (h : hexDigit a = some x) : x < 16 := by
  rw [hexDigit_eq] at h
  simp only [UInt8.le_iff_toNat_le, UInt8.reduceToNat] at h
  split_ifs at h with h1 h2
  · rw [← Option.some.inj h]
    omega
  · rw [← Option.some.inj h]
    omega

lemma byte_quoted {m : Bool} {c : Complex} (hs : c.state = .quoted) (ch : UInt8) :
    c.byte m ch = match hexDigit ch with
      | some x => .next { c with
          quotedUri := true, decoded := UInt8.ofNat x, state := .quotedSecond }
      | none => .invalid := by
  simp only [Complex.byte, hs]
  rw [hexDigit_eq]
  split_ifs with h1 h2
  · have : ch - 48 = UInt8.ofNat (ch.toNat - 48) := by
      exact eq_ofNat (UInt8.toNat_sub_of_le _ _ h1.1)
    simp only [this]
  · have : (ch ||| 0x20 : UInt8) - 97 + 10 = UInt8.ofNat ((ch ||| 0x20 : UInt8).toNat - 87) := by
      refine eq_ofNat ?_
      have h3 := UInt8.le_iff_toNat_le.mp h2.1
      have h4 := UInt8.le_iff_toNat_le.mp h2.2
      rw [UInt8.toNat_add, UInt8.toNat_sub_of_le _ _ h2.1]
      simp only [UInt8.reduceToNat] at h3 h4 ⊢
      omega
    simp only [this]
  · rfl

lemma byte_quotedSecond {m : Bool} {c : Complex} (hs : c.state = .quotedSecond) (ch : UInt8) :
    c.byte m ch = match hexDigit ch with
      | none => .invalid
      | some y =>
        if UInt8.ofNat (16 * (c.decoded.toNat % 16) + y) ∈ [37, 35, 63] then
          .next { c with
            state := .usual
            u := c.u ++ [UInt8.ofNat (16 * (c.decoded.toNat % 16) + y)] }
        else if UInt8.ofNat (16 * (c.decoded.toNat % 16) + y) = 0 then .invalid
        else
          { c with
            plusInUri := c.plusInUri || UInt8.ofNat (16 * (c.decoded.toNat % 16) + y) = 43
            state := c.quotedState }.plain m (UInt8.ofNat (16 * (c.decoded.toNat % 16) + y)) := by
  simp only [Complex.byte, hs]
  rw [hexDigit_eq]
  by_cases h1 : 48 ≤ ch ∧ ch ≤ 57
  · have h3 := UInt8.le_iff_toNat_le.mp h1.1
    have h4 := UInt8.le_iff_toNat_le.mp h1.2
    simp only [UInt8.reduceToNat] at h3 h4
    have hb : ((c.decoded <<< 4) + ch - 48).toNat =
        16 * (c.decoded.toNat % 16) + (ch.toNat - 48) :=
      toNat_second (n := 48) h3 (by omega) (by omega)
    rw [if_pos h1, if_pos h1]
    dsimp only
    rw [← eq_ofNat hb]
    generalize (c.decoded <<< 4) + ch - 48 = b at hb
    have h63 : b ≠ 63 := by
      rintro rfl
      simp only [UInt8.reduceToNat] at hb
      omega
    have h43 : b ≠ 43 := by
      rintro rfl
      simp only [UInt8.reduceToNat] at hb
      omega
    simp [h63, h43]
  · rw [if_neg h1, if_neg h1]
    generalize ch ||| 0x20 = d
    by_cases h2 : 97 ≤ d ∧ d ≤ 102
    · have h3 := UInt8.le_iff_toNat_le.mp h2.1
      have h4 := UInt8.le_iff_toNat_le.mp h2.2
      simp only [UInt8.reduceToNat] at h3 h4
      have hb : ((c.decoded <<< 4) + d - 87).toNat =
          16 * (c.decoded.toNat % 16) + (d.toNat - 87) :=
        toNat_second (n := 87) (by omega) (by omega) (by omega)
      have he : ((c.decoded <<< 4) + d - 97 + 10 : UInt8) = (c.decoded <<< 4) + d - 87 := by
        grind
      rw [if_pos h2, if_pos h2, he]
      dsimp only
      rw [← eq_ofNat hb]
      generalize (c.decoded <<< 4) + d - 87 = b at hb
      have hne : ∀ e : UInt8, e.toNat % 16 < 10 → b ≠ e := by
        rintro e hd rfl
        omega
      have h37 := hne 37 (by decide)
      have h35 := hne 35 (by decide)
      have h0 := hne 0 (by decide)
      by_cases h43 : b = 43 <;> simp [h37, h35, h0, h43]
    · rw [if_neg h2, if_neg h2]

/-! ### Bytes that stand for themselves -/

/-- The state behind a slash and the bytes of a segment. -/
def stateOf (seg : Bytes) : Csw :=
  if seg = [] then .slash else if seg = [46] then .dot else if seg = [46, 46] then .dotDot
  else .usual

lemma stateOf_cases (seg : Bytes) : stateOf seg = .slash ∧ seg = [] ∨
    stateOf seg = .dot ∧ seg = [46] ∨ stateOf seg = .dotDot ∧ seg = [46, 46] ∨
    stateOf seg = .usual ∧ seg ≠ [] ∧ seg ≠ [46] ∧ seg ≠ [46, 46] := by
  unfold stateOf
  split_ifs with h1 h2 h3 <;> simp_all

lemma stateOf_snoc (seg : Bytes) (ch : UInt8) :
    stateOf (seg ++ [ch]) = if ch = 46 then
      if seg = [] then .dot else if seg = [46] then .dotDot else .usual
    else .usual := by
  unfold stateOf
  by_cases h : ch = 46
  · subst h
    rcases seg with _ | ⟨a, _ | ⟨b, seg⟩⟩
    · simp
    · simp
    · simp
  · rcases seg with _ | ⟨a, _ | ⟨b, seg⟩⟩
    · simp [h]
    · simp [h]
    · simp [h]

lemma plain_push {m : Bool} {c : Complex} {seg : Bytes} (hs : c.state = stateOf seg) {ch : UInt8}
    (h47 : ch ≠ 47) (h37 : ch ≠ 37) (h63 : ch ≠ 63) (h35 : ch ≠ 35) :
    ∃ c', c.plain m ch = .next c' ∧ c'.u = c.u ++ [ch] ∧ c'.state = stateOf (seg ++ [ch]) := by
  have h46 : usual ch = true → ch ≠ 46 := fun h => (usual_eq_true h).1
  rw [stateOf_snoc]
  unfold Complex.plain
  rw [hs]
  rcases stateOf_cases seg with ⟨-, h1⟩ | ⟨-, h1⟩ | ⟨-, h1⟩ | ⟨h, h1, h2, -⟩
  · simp only [h1, h47, h37, h63, h35, if_false, if_true]
    by_cases hu : usual ch = true
    · simp only [if_pos hu, if_neg (h46 hu)]
      exact ⟨_, rfl, rfl, rfl⟩
    · simp only [if_neg hu]
      split_ifs
      all_goals exact ⟨_, rfl, rfl, rfl⟩
  · simp only [h1, h47, h37, h63, h35, if_false, if_true, List.cons_ne_nil]
    by_cases hu : usual ch = true
    · simp only [if_pos hu, if_neg (h46 hu)]
      exact ⟨_, rfl, rfl, rfl⟩
    · simp only [if_neg hu]
      split_ifs
      all_goals exact ⟨_, rfl, rfl, rfl⟩
  · have hone : ([46, 46] : Bytes) ≠ [46] := by decide
    simp only [h1, h47, h37, h63, h35, hone, if_false, List.cons_ne_nil, ite_self]
    split_ifs
    all_goals exact ⟨_, rfl, rfl, rfl⟩
  · simp only [h, h1, h2, h47, h37, h63, h35, if_false, ite_self]
    split_ifs
    all_goals exact ⟨_, rfl, rfl, rfl⟩

lemma backToSlash_here {u : Bytes} {i : ℕ} (h : u[i]? = some 47) :
    backToSlash u i = some (u.take (i + 1)) := by
  cases i with
  | zero => rw [backToSlash, if_pos h]
  | succ i => rw [backToSlash, if_pos h]

lemma backToSlash_eq (x z : Bytes) {y : Bytes} (hy : (47 : UInt8) ∉ y) {k : ℕ}
    (hk : k ≤ y.length) : backToSlash (x ++ 47 :: (y ++ z)) (x.length + k) = some (x ++ [47]) := by
  induction k with
  | zero =>
    rw [Nat.add_zero, backToSlash_here (by simp), List.take_append,
      List.take_of_length_le (by omega), Nat.add_sub_cancel_left]
    rfl
  | succ k ih =>
    have hne : (x ++ 47 :: (y ++ z))[x.length + k + 1]? ≠ some 47 := by
      rw [List.getElem?_append_right (by omega), show x.length + k + 1 - x.length = k + 1 by omega,
        List.getElem?_cons_succ, List.getElem?_append_left (by omega)]
      intro h
      exact hy (List.mem_of_getElem? h)
    rw [← Nat.add_assoc, backToSlash, if_neg hne, ih (by omega)]

/-- Where the parser is in the path: these steps have been taken, and this segment has begun. -/
structure Sim (c : Complex) (segs : List Bytes) (seg : Bytes) : Prop where
  u : c.u = render 47 segs seg
  state : c.state = stateOf seg
  segs : ∀ t ∈ segs, Proper 47 46 t
  seg : (47 : UInt8) ∉ seg

lemma Sim.slash {c : Complex} {segs : List Bytes} {seg : Bytes} (hs : Sim c segs seg) :
    match enter 46 segs seg with
    | none => c.plain true 47 = .invalid
    | some segs' => ∃ c', c.plain true 47 = .next c' ∧ Sim c' segs' [] := by
  have hu : usual 47 = false := usual_eq_false (.inr (.inl rfl))
  have hu' : ¬ usual 47 = true := by rw [hu]; exact Bool.false_ne_true
  unfold Complex.plain
  rw [hs.state]
  rcases stateOf_cases seg with ⟨h, h1⟩ | ⟨h, h1⟩ | ⟨h, h1⟩ | ⟨h, h1, h2, h3⟩
  · subst h1
    rw [enter, if_pos (.inl rfl), h]
    simp only [if_neg hu', if_true]
    exact ⟨c, rfl, hs.u, hs.state, hs.segs, List.not_mem_nil⟩
  · subst h1
    rw [enter, if_pos (.inr rfl), h]
    simp only [if_neg hu', if_true]
    refine ⟨_, rfl, ?_, rfl, hs.segs, List.not_mem_nil⟩
    simp only [hs.u, render]
    rw [show segs.flatMap ((47 : UInt8) :: ·) ++ [47, 46] =
      (segs.flatMap ((47 : UInt8) :: ·) ++ [47]) ++ [46] by simp, List.dropLast_concat]
  · subst h1
    rw [enter, if_neg (by decide), if_pos rfl, h]
    simp only [if_neg hu', if_true]
    rcases List.eq_nil_or_concat segs with rfl | ⟨segs, last, rfl⟩
    · have hlen : c.u.length < 5 := by rw [hs.u]; decide
      rw [if_pos rfl, if_pos hlen]
    · have hlast := hs.segs last (by simp)
      have hpos := List.length_pos_iff.mpr hlast.ne_nil
      have hcu : c.u = segs.flatMap ((47 : UInt8) :: ·) ++ 47 :: (last ++ [47, 46, 46]) := by
        rw [hs.u, render]
        simp
      have hlen : c.u.length - 5 =
          (segs.flatMap ((47 : UInt8) :: ·)).length + (last.length - 1) := by
        rw [hcu]
        simp only [List.length_append, List.length_cons, List.length_nil]
        omega
      have hge : ¬ c.u.length < 5 := by
        rw [hcu]
        simp only [List.length_append, List.length_cons, List.length_nil]
        omega
      rw [if_neg (by simp), if_neg hge, hlen, hcu,
        backToSlash_eq _ _ hlast.sep (Nat.sub_le _ _), List.concat_eq_append,
        List.dropLast_concat]
      exact ⟨_, rfl, rfl, rfl, fun t ht => hs.segs t (by simp [ht]), List.not_mem_nil⟩
  · rw [enter_down (proper_of_ne (by simp [h1, h2]) h3 hs.seg), h]
    simp only [if_neg hu', if_true]
    refine ⟨_, rfl, ?_, rfl, ?_, List.not_mem_nil⟩
    · simp only [hs.u, render]
      simp
    · intro t ht
      rcases List.mem_append.mp ht with ht | ht
      · exact hs.segs t ht
      · rw [List.mem_singleton.mp ht]
        exact proper_of_ne (by simp [h1, h2]) h3 hs.seg

lemma Sim.push {c : Complex} {segs : List Bytes} {seg : Bytes} (hs : Sim c segs seg) {ch : UInt8}
    (h47 : ch ≠ 47) (h37 : ch ≠ 37) (h63 : ch ≠ 63) (h35 : ch ≠ 35) :
    ∃ c', c.plain true ch = .next c' ∧ Sim c' segs (seg ++ [ch]) := by
  obtain ⟨c', hc, hu, hst⟩ := plain_push (m := true) hs.state h47 h37 h63 h35
  refine ⟨c', hc, ?_, hst, hs.segs, ?_⟩
  · rw [hu, hs.u]
    simp [render]
  · intro h
    rcases List.mem_append.mp h with h | h
    · exact hs.seg h
    · exact h47 (List.mem_singleton.mp h).symm

lemma Sim.walk {c : Complex} {segs : List Bytes} {seg : Bytes} (hs : Sim c segs seg) {ch : UInt8}
    (h37 : ch ≠ 37) (h63 : ch ≠ 63) (h35 : ch ≠ 35) :
    (c.plain true ch = .invalid ∧ ∀ ds, walk 47 46 segs seg (ch :: ds) = none) ∨
      ∃ c' segs' seg', c.plain true ch = .next c' ∧ Sim c' segs' seg' ∧
        ∀ ds, walk 47 46 segs seg (ch :: ds) = Lib.walk 47 46 segs' seg' ds := by
  by_cases h47 : ch = 47
  · subst h47
    have h := hs.slash
    cases he : enter 46 segs seg with
    | none =>
      rw [he] at h
      exact .inl ⟨h, fun ds => by rw [Lib.walk, if_pos rfl, he]; rfl⟩
    | some segs' =>
      rw [he] at h
      obtain ⟨c', hc, hs'⟩ := h
      exact .inr ⟨c', segs', [], hc, hs', fun ds => by rw [Lib.walk, if_pos rfl, he]; rfl⟩
  · obtain ⟨c', hc, hs'⟩ := hs.push h47 h37 h63 h35
    exact .inr ⟨c', segs, seg ++ [ch], hc, hs', fun ds => by rw [Lib.walk, if_neg h47]⟩

/-! ### The loop -/

section Loop

variable {m : Bool} {c c' : Complex} {seg : Bytes}

lemma byte_of_state (hs : c.state = stateOf seg) (ch : UInt8) : c.byte m ch = c.plain m ch := by
  unfold Complex.byte
  rw [hs]
  rcases stateOf_cases seg with ⟨h, -⟩ | ⟨h, -⟩ | ⟨h, -⟩ | ⟨h, -⟩ <;> rw [h]

lemma byte_escape (hs : c.state = stateOf seg) :
    c.byte m 37 = .next { c with quotedState := c.state, state := .quoted } := by
  rw [byte_of_state hs]
  unfold Complex.plain
  rw [hs]
  rcases stateOf_cases seg with ⟨h, -⟩ | ⟨h, -⟩ | ⟨h, -⟩ | ⟨h, -⟩ <;> rw [h] <;> rfl

lemma byte_query (hs : c.state = stateOf seg) : c.byte m 63 = .args c := by
  rw [byte_of_state hs]
  unfold Complex.plain
  rw [hs]
  rcases stateOf_cases seg with ⟨h, -⟩ | ⟨h, -⟩ | ⟨h, -⟩ | ⟨h, -⟩ <;> rw [h] <;> rfl

lemma byte_fragment (hs : c.state = stateOf seg) : c.byte m 35 = .done c := by
  rw [byte_of_state hs]
  unfold Complex.plain
  rw [hs]
  rcases stateOf_cases seg with ⟨h, -⟩ | ⟨h, -⟩ | ⟨h, -⟩ | ⟨h, -⟩ <;> rw [h] <;> rfl

lemma loop_next {ch : UInt8} (h : c.byte m ch = .next c') (s : Bytes) (p : ℕ) :
    complexLoop m (ch :: s) p c = complexLoop m s (p + 1) c' := by
  rw [complexLoop, h]

lemma loop_invalid {ch : UInt8} (h : c.byte m ch = .invalid) (s : Bytes) (p : ℕ) :
    complexLoop m (ch :: s) p c = none := by
  rw [complexLoop, h]

lemma finishArgs_uri (p : ℕ) (rest : Bytes) : (c.finishArgs p rest).uri = c.u := by
  unfold Complex.finishArgs
  split <;> rfl

lemma decode_escape (a b : UInt8) (s : Bytes) : decode (37 :: a :: b :: s) =
    match hexDigit a, hexDigit b with
    | some x, some y =>
      if 16 * x + y = 0 then none else (decode s).map (UInt8.ofNat (16 * x + y) :: ·)
    | _, _ => none := by
  conv_lhs => unfold decode
  rfl

lemma decode_next {ch : UInt8} (h37 : ch ≠ 37) (h63 : ch ≠ 63) (h35 : ch ≠ 35) (s : Bytes) :
    decode (ch :: s) = (decode s).map (ch :: ·) := by
  conv_lhs => unfold decode
  simp [h37, h63, h35]

lemma decode_stop {ch : UInt8} (h : ch = 63 ∨ ch = 35) (s : Bytes) :
    decode (ch :: s) = some [] := by
  conv_lhs => unfold decode
  rw [if_pos h]

/-- What the walk makes of the bytes that are decoded. -/
def walked (segs : List Bytes) (seg : Bytes) (ds : Option Bytes) : Option Bytes :=
  ds.bind fun ds => (walk 47 46 segs seg ds).map fun r => render 47 r.1 r.2

lemma walked_cons {segs segs' : List Bytes} {seg seg' : Bytes} {ch : UInt8} (ds : Option Bytes)
    (h : ∀ ds, walk 47 46 segs seg (ch :: ds) = walk 47 46 segs' seg' ds) :
    walked segs seg (ds.map (ch :: ·)) = walked segs' seg' ds := by
  cases ds with
  | none => rfl
  | some ds => simp [walked, h]

lemma walked_none {segs : List Bytes} {seg : Bytes} {ch : UInt8} (ds : Option Bytes)
    (h : ∀ ds, walk 47 46 segs seg (ch :: ds) = none) :
    walked segs seg (ds.map (ch :: ·)) = none := by
  cases ds with
  | none => rfl
  | some ds => simp [walked, h]

/-- **The path that is written** is the one that the decoded bytes lead to. -/
lemma loop_path {segs : List Bytes} (hs : Sim c segs seg) (s : Bytes) (p : ℕ) :
    (complexLoop true s p c).map Parsed.uri = walked segs seg (decode s) := by
  induction s using PercentDecode.scan_induction generalizing c segs seg p with
  | nil =>
    rw [complexLoop, decode, walked, Option.bind_some, walk, Option.map_some, Option.map_some]
    exact congrArg some hs.u
  | short s hlen =>
    have hend : walked segs seg (some []) = some c.u := by
      rw [walked, Option.bind_some, walk, Option.map_some, hs.u]
    rw [loop_next (byte_escape hs.state)]
    rcases s with _ | ⟨a, _ | ⟨b, s⟩⟩
    · exact hend.symm
    · cases ha : hexDigit a with
      | none =>
        rw [loop_invalid (by rw [byte_quoted rfl, ha])]
        simp [decode, ha, walked]
      | some x =>
        rw [loop_next (by rw [byte_quoted rfl, ha])]
        simp only [decode, ha]
        exact hend.symm
    · simp at hlen
  | escape a b s ih =>
    rw [loop_next (byte_escape hs.state), decode_escape]
    cases ha : hexDigit a with
    | none => rw [loop_invalid (by rw [byte_quoted rfl, ha])]; rfl
    | some x =>
      rw [loop_next (by rw [byte_quoted rfl, ha])]
      cases hb : hexDigit b with
      | none => rw [loop_invalid (by rw [byte_quotedSecond rfl, hb])]; rfl
      | some y =>
        have hx := hexDigit_lt ha
        have hy := hexDigit_lt hb
        have hmod : (UInt8.ofNat x).toNat % 16 = x := by
          rw [UInt8.toNat_ofNat']
          omega
        have hn : (UInt8.ofNat (16 * x + y)).toNat = 16 * x + y := by
          rw [UInt8.toNat_ofNat']
          omega
        have hzero : UInt8.ofNat (16 * x + y) = 0 ↔ 16 * x + y = 0 := by
          rw [← UInt8.toNat_inj, hn]
          rfl
        have hbyte := byte_quotedSecond (m := true) (c := { c with
          quotedState := c.state, quotedUri := true, decoded := UInt8.ofNat x
          state := .quotedSecond }) rfl b
        rw [hb] at hbyte
        simp only [hmod] at hbyte
        dsimp only
        generalize UInt8.ofNat (16 * x + y) = v at hbyte hzero
        by_cases hv : v ∈ ([37, 35, 63] : Bytes)
        · -- the byte is one of the path and nothing else
          rw [if_pos hv] at hbyte
          have h0 : ¬ 16 * x + y = 0 := by
            rw [← hzero]
            rintro rfl
            revert hv
            decide
          have h47 : v ≠ 47 := by
            rintro rfl
            revert hv
            decide
          have h46 : v ≠ 46 := by
            rintro rfl
            revert hv
            decide
          rw [if_neg h0, loop_next hbyte,
            walked_cons _ fun ds => by rw [walk, if_neg h47]]
          refine ih ⟨?_, ?_, hs.segs, ?_⟩ _
          · simp [hs.u, render]
          · rw [stateOf_snoc, if_neg h46]
          · simpa [h47.symm] using hs.seg
        · rw [if_neg hv] at hbyte
          by_cases h0 : 16 * x + y = 0
          · rw [if_pos (hzero.mpr h0)] at hbyte
            rw [if_pos h0, loop_invalid hbyte]
            rfl
          · rw [if_neg (mt hzero.mp h0)] at hbyte
            rw [if_neg h0]
            simp only [List.mem_cons, List.not_mem_nil, or_false, not_or] at hv
            have hs' : Sim { c with
                quotedState := c.state, quotedUri := true, decoded := UInt8.ofNat x
                plusInUri := c.plusInUri || v = 43 } segs seg :=
              ⟨hs.u, hs.state, hs.segs, hs.seg⟩
            rcases hs'.walk hv.1 hv.2.2 hv.2.1 with ⟨hinv, hw⟩ | ⟨c', segs', seg', hc, hs', hw⟩
            · rw [loop_invalid (hbyte.trans hinv), walked_none _ hw]
              rfl
            · rw [loop_next (hbyte.trans hc), walked_cons _ hw]
              exact ih hs' _
  | next ch s h37 ih =>
    by_cases h63 : ch = 63
    · subst h63
      rw [complexLoop, byte_query hs.state, decode_stop (.inl rfl), walked, Option.bind_some, walk,
        Option.map_some, Option.map_some, finishArgs_uri, hs.u]
    by_cases h35 : ch = 35
    · subst h35
      rw [complexLoop, byte_fragment hs.state, decode_stop (.inr rfl), walked, Option.bind_some,
        walk, Option.map_some, Option.map_some, ← hs.u]
      rfl
    rw [decode_next h37 h63 h35]
    rcases hs.walk h37 h63 h35 with ⟨hinv, hw⟩ | ⟨c', segs', seg', hc, hs', hw⟩
    · rw [loop_invalid ((byte_of_state hs.state ch).trans hinv), walked_none _ hw]
      rfl
    · rw [loop_next ((byte_of_state hs.state ch).trans hc), walked_cons _ hw]
      exact ih hs' _

lemma plain_cases (m : Bool) (c : Complex) (ch : UInt8) :
    (∃ c', c.plain m ch = .next c') ∧ ch ≠ 63 ∧ ch ≠ 35 ∨ ch = 63 ∧ c.plain m ch = .args c ∨
      ch = 35 ∧ c.plain m ch = .done c ∨ c.plain m ch = .invalid := by
  unfold Complex.plain
  by_cases h63 : ch = 63
  · subst h63
    cases c.state with
    | quoted => exact .inr (.inr (.inr rfl))
    | quotedSecond => exact .inr (.inr (.inr rfl))
    | _ => exact .inr (.inl ⟨rfl, rfl⟩)
  by_cases h35 : ch = 35
  · subst h35
    cases c.state with
    | quoted => exact .inr (.inr (.inr rfl))
    | quotedSecond => exact .inr (.inr (.inr rfl))
    | _ => exact .inr (.inr (.inl ⟨rfl, rfl⟩))
  cases c.state with
  | quoted => exact .inr (.inr (.inr rfl))
  | quotedSecond => exact .inr (.inr (.inr rfl))
  | dotDot =>
    dsimp only
    split_ifs
    all_goals try exact .inl ⟨⟨_, rfl⟩, h63, h35⟩
    · exact .inr (.inr (.inr rfl))
    · split
      · exact .inr (.inr (.inr rfl))
      · exact .inl ⟨⟨_, rfl⟩, h63, h35⟩
  | _ =>
    dsimp only
    split_ifs
    all_goals exact .inl ⟨⟨_, rfl⟩, h63, h35⟩

/-- The query begins at a `?` that the parser meets, and it meets the first one. -/
lemma byte_cases (m : Bool) (c : Complex) (ch : UInt8) :
    (∃ c', c.byte m ch = .next c') ∧ ch ≠ 63 ∧ ch ≠ 35 ∨ ch = 63 ∧ c.byte m ch = .args c ∨
      ch = 35 ∧ c.byte m ch = .done c ∨ c.byte m ch = .invalid := by
  by_cases hq : c.state = .quoted
  · rw [byte_quoted hq]
    cases hx : hexDigit ch with
    | none => exact .inr (.inr (.inr rfl))
    | some x =>
      exact .inl ⟨⟨_, rfl⟩, QueryRoundTrip.hexDigit_ne (by decide) hx,
        QueryRoundTrip.hexDigit_ne (by decide) hx⟩
  by_cases hq' : c.state = .quotedSecond
  · rw [byte_quotedSecond hq']
    cases hy : hexDigit ch with
    | none => exact .inr (.inr (.inr rfl))
    | some y =>
      have h63 : ch ≠ 63 := QueryRoundTrip.hexDigit_ne (by decide) hy
      have h35 : ch ≠ 35 := QueryRoundTrip.hexDigit_ne (by decide) hy
      dsimp only
      generalize UInt8.ofNat (16 * (c.decoded.toNat % 16) + y) = v
      by_cases hv : v ∈ ([37, 35, 63] : Bytes)
      · rw [if_pos hv]
        exact .inl ⟨⟨_, rfl⟩, h63, h35⟩
      rw [if_neg hv]
      by_cases h0 : v = 0
      · rw [if_pos h0]
        exact .inr (.inr (.inr rfl))
      rw [if_neg h0]
      simp only [List.mem_cons, List.not_mem_nil, or_false, not_or] at hv
      rcases plain_cases m { c with
        plusInUri := c.plusInUri || v = 43, state := c.quotedState } v with h | h | h | h
      · exact .inl ⟨h.1, h63, h35⟩
      · exact absurd h.1 hv.2.2
      · exact absurd h.1 hv.2.1
      · exact .inr (.inr (.inr h))
  · have hb : c.byte m ch = c.plain m ch := by
      unfold Complex.byte
      cases hs : c.state with
      | quoted => exact absurd hs hq
      | quotedSecond => exact absurd hs hq'
      | _ => rfl
    rw [hb]
    exact plain_cases m c ch

lemma query_next {ch : UInt8} (h63 : ch ≠ 63) (h35 : ch ≠ 35) (s : Bytes) :
    query (ch :: s) = query s := by
  rw [query, List.dropWhile_cons_of_pos (by simp [h63, h35]), query]

lemma query_here (q : Bytes) : query (63 :: q) = q.takeWhile (· ≠ 35) := by
  rw [query, List.dropWhile_cons_of_neg (by decide)]
  rfl

lemma query_fragment (s : Bytes) : query (35 :: s) = [] := by
  rw [query, List.dropWhile_cons_of_neg (by decide)]
  rfl

lemma argsOf_finishArgs (c : Complex) (t q : Bytes) :
    (c.finishArgs (t.length + 1) q).argsOf (t ++ 63 :: q) = q.takeWhile (· ≠ 35) := by
  by_cases h : (35 : UInt8) ∈ q
  · rw [Complex.finishArgs, if_pos h]
    rfl
  have hself : q.takeWhile (· ≠ 35) = q := by
    refine List.takeWhile_eq_self_iff.mpr fun c hc => ?_
    simpa using fun he : c = 35 => h (he ▸ hc)
  have hdrop : (t ++ 63 :: q).drop (t.length + 1) = q := by
    rw [← List.drop_drop, List.drop_left]
    rfl
  rw [Complex.finishArgs, if_neg h, hself]
  simp only [Parsed.argsOf, hdrop]
  split
  · rfl
  · rename_i hlt
    rw [← hdrop, List.drop_eq_nil_of_le (by omega)]
    rfl

/-- **The arguments** are the query. -/
lemma loop_args {t s : Bytes} {d : Parsed} (h : complexLoop m s t.length c = some d) :
    d.argsOf (t ++ s) = query s := by
  induction s generalizing c t with
  | nil =>
    rw [complexLoop, Option.some.injEq] at h
    rw [← h]
    rfl
  | cons ch s ih =>
    rw [complexLoop] at h
    rcases byte_cases m c ch with ⟨⟨c', hb⟩, h63, h35⟩ | ⟨rfl, hb⟩ | ⟨rfl, hb⟩ | hb
    · rw [hb] at h
      have := @ih c' (t ++ [ch]) (by simpa using h)
      rwa [List.append_assoc, List.singleton_append, ← query_next h63 h35] at this
    · rw [hb] at h
      rw [← Option.some.inj h, argsOf_finishArgs, query_here]
    · rw [hb] at h
      rw [← Option.some.inj h, query_fragment]
      rfl
    · rw [hb] at h
      cases h

end Loop

/-! ### The first look at a URI -/

lemma uriByte_flags {state state' : Sw} {r r' : Marks} {p : ℤ} {ch : UInt8}
    (h : uriByte state r p ch = some (state', r')) :
    (r.complexUri = true → r'.complexUri = true) ∧ (r.quotedUri = true → r'.quotedUri = true) := by
  cases state with
  | start =>
    simp only [uriByte] at h
    split at h
    · cases h
    · cases h
      exact ⟨id, id⟩
  | _ =>
    simp only [uriByte, Option.some.injEq] at h
    split_ifs at h
    all_goals
      cases h
      exact ⟨by simp, by simp⟩

lemma uriLoop_flags {s : Bytes} {state state' : Sw} {r r' : Marks} {p : ℤ}
    (h : uriLoop s state r p = some (state', r')) :
    (r.complexUri = true → r'.complexUri = true) ∧ (r.quotedUri = true → r'.quotedUri = true) := by
  induction s generalizing state r p with
  | nil =>
    cases h
    exact ⟨id, id⟩
  | cons ch s ih =>
    rw [uriLoop] at h
    cases hb : uriByte state r p ch with
    | none => simp [hb] at h
    | some x =>
      rw [hb] at h
      exact ⟨(ih h).1 ∘ (uriByte_flags hb).1, (ih h).2 ∘ (uriByte_flags hb).2⟩

lemma uriLoop_uri {s : Bytes} {state' : Sw} {r r' : Marks} {p : ℤ}
    (h : uriLoop s .uri r p = some (state', r')) (hc : r'.complexUri = false) :
    (35 : UInt8) ∉ s ∧ r'.argsStart = r.argsStart ∧ r'.uriExt = r.uriExt := by
  induction s generalizing r p with
  | nil =>
    cases h
    exact ⟨List.not_mem_nil, rfl, rfl⟩
  | cons ch s ih =>
    rw [uriLoop] at h
    simp only [uriByte] at h
    split_ifs at h with h1 h2 h3
    · obtain ⟨hs, ha, he⟩ := ih h
      refine ⟨?_, ha, he⟩
      simpa using ⟨fun he : 35 = ch => (usual_eq_true h1).2.2.2.2.1 he.symm, hs⟩
    · obtain ⟨hs, ha, he⟩ := ih h
      refine ⟨?_, ha, he⟩
      subst h2
      simpa using hs
    · have := (uriLoop_flags h).1 rfl
      rw [hc] at this
      cases this
    · obtain ⟨hs, ha, he⟩ := ih h
      exact ⟨by simpa using ⟨fun he : 35 = ch => h3 he.symm, hs⟩, ha, he⟩

/-- As long as there is nothing to do with the path, the second parser copies it. -/
structure Flat (base : ℤ) (t : Bytes) (state : Sw) (r : Marks) (c : Complex) : Prop where
  u : c.u = t
  ext : r.uriExt = c.uriExt.map fun e => base + e
  bound : ∀ e ∈ c.uriExt, e ≤ t.length
  args : r.argsStart = none
  state : state = .checkUri ∧ c.state = .usual ∨
    state = .afterSlashInUri ∧ (c.state = .slash ∨ c.state = .usual)

/-- What both ways leave of the URI `text` that starts at `base`. -/
def Agree (base : ℤ) (text : Bytes) (r : Marks) (d : Parsed) : Prop :=
  ∃ (u q : Bytes) (ext : Option ℕ),
    (r.argsStart = none ∧ text = u ∧ q = [] ∨
      r.argsStart = some (base + u.length + 1) ∧ text = u ++ 63 :: q) ∧
    r.uriExt = ext.map (fun e => base + e) ∧ (∀ e ∈ ext, e ≤ u.length) ∧
    d.uri = u ∧ d.exten = (ext.map u.drop).getD [] ∧ d.argsOf text = q

section Fast

variable {m : Bool} {c : Complex} {base : ℤ} {t : Bytes} {state state' : Sw} {r r' : Marks}

lemma Flat.byte (hf : Flat base t state r c) {ch : UInt8} (h63 : ch ≠ 63)
    (h : uriByte state r (base + t.length) ch = some (state', r')) (hc : r'.complexUri = false)
    (hq : r'.quotedUri = false) :
    ∃ c', c.byte m ch = .next c' ∧ Flat base (t ++ [ch]) state' r' c' := by
  have hle : ∀ e ∈ c.uriExt, e ≤ (t ++ [ch]).length := by
    intro e he
    have := hf.bound e he
    rw [List.length_append]
    omega
  have hu : c.u ++ [ch] = t ++ [ch] := by rw [hf.u]
  rcases hf.state with ⟨rfl, hs⟩ | ⟨rfl, hs⟩
  · simp only [uriByte, Option.some.injEq] at h
    simp only [Complex.byte, Complex.plain, hs]
    split_ifs at h with h1 h2 h3 h4 h5 h6 h7
    · cases h
      exact ⟨_, if_pos h1, hu, hf.ext, hle, hf.args, .inl ⟨rfl, rfl⟩⟩
    · cases h
      rw [if_neg h1, if_pos h2]
      exact ⟨_, rfl, hu, rfl, by simp, hf.args, .inr ⟨rfl, .inl rfl⟩⟩
    · cases h
      subst h3
      rw [if_neg h1, if_neg h2, if_neg (by decide), if_neg h63, if_neg (by decide), if_pos rfl]
      refine ⟨_, rfl, hu, ?_, ?_, hf.args, .inl ⟨rfl, rfl⟩⟩
      · simp [hf.u, add_assoc]
      · simp [hf.u]
    · cases h
      subst h4
      exact ⟨_, rfl, hu, hf.ext, hle, hf.args, .inl ⟨rfl, rfl⟩⟩
    · cases h
      cases hq
    · cases h
      cases hc
    · cases h
      rw [if_neg h1, if_neg h2, if_neg h5, if_neg h63, if_neg h6, if_neg h3, if_pos h7]
      exact ⟨_, rfl, hu, hf.ext, hle, hf.args, .inl ⟨rfl, rfl⟩⟩
    · cases h
      rw [if_neg h1, if_neg h2, if_neg h5, if_neg h63, if_neg h6, if_neg h3, if_neg h7]
      exact ⟨_, rfl, hu, hf.ext, hle, hf.args, .inl ⟨rfl, rfl⟩⟩
  · simp only [uriByte, Option.some.injEq] at h
    split_ifs at h with h1 h2 h3 h4 h5 h6 h7
    · cases h
      rcases hs with hs | hs
      all_goals
        simp only [Complex.byte, Complex.plain, hs, if_pos h1]
        exact ⟨_, rfl, hu, hf.ext, hle, hf.args, .inl ⟨rfl, rfl⟩⟩
    · cases h
      subst h2
      rcases hs with hs | hs
      all_goals
        simp only [Complex.byte, Complex.plain, hs]
        exact ⟨_, rfl, hu, hf.ext, hle, hf.args, .inl ⟨rfl, rfl⟩⟩
    · cases h
      cases hc
    · cases h
      cases hq
    · cases h
      cases hc
    · cases h
      cases hc
    · cases h
      rcases hs with hs | hs
      all_goals
        simp only [Complex.byte, Complex.plain, hs, if_neg h1, if_neg h3, if_neg h4, if_neg h5,
          if_neg h63, if_neg h6, if_pos h7]
        exact ⟨_, rfl, hu, hf.ext, hle, hf.args, .inr ⟨rfl, .inr rfl⟩⟩
    · cases h
      rcases hs with hs | hs
      all_goals
        simp only [Complex.byte, Complex.plain, hs, if_neg h1, if_neg h3, if_neg h4, if_neg h5,
          if_neg h63, if_neg h6, if_neg h7]
        exact ⟨_, rfl, hu, hf.ext, hle, hf.args, .inl ⟨rfl, rfl⟩⟩

lemma Flat.query (hf : Flat base t state r c) : c.byte m 63 = .args c ∧
    uriByte state r (base + t.length) 63 =
      some (.uri, { r with argsStart := some (base + t.length + 1) }) := by
  rcases hf.state with ⟨rfl, hs⟩ | ⟨rfl, hs | hs⟩
  all_goals
    refine ⟨?_, rfl⟩
    simp only [Complex.byte, Complex.plain, hs]
    rfl

lemma Flat.loop (hf : Flat base t state r c) {s : Bytes}
    (h : uriLoop s state r (base + t.length) = some (state', r')) (hc : r'.complexUri = false)
    (hq : r'.quotedUri = false) :
    ∃ d, complexLoop m s t.length c = some d ∧ Agree base (t ++ s) r' d := by
  induction s generalizing t state r c with
  | nil =>
    cases h
    refine ⟨_, rfl, t, [], c.uriExt, .inl ⟨hf.args, List.append_nil t, rfl⟩, hf.ext, hf.bound, hf.u,
      ?_, rfl⟩
    rw [Complex.finish, hf.u]
  | cons ch s ih =>
    rw [uriLoop] at h
    by_cases h63 : ch = 63
    · subst h63
      obtain ⟨hb, hu⟩ := hf.query (m := m)
      rw [hu] at h
      obtain ⟨h35, ha, he⟩ := uriLoop_uri h hc
      refine ⟨_, by rw [complexLoop, hb], t, s, c.uriExt, .inr ⟨ha, rfl⟩, he.trans hf.ext, hf.bound,
        (finishArgs_uri _ _).trans hf.u, ?_, ?_⟩
      · rw [Complex.finishArgs, if_neg h35, Complex.finish, hf.u]
      · rw [argsOf_finishArgs]
        refine List.takeWhile_eq_self_iff.mpr fun c hc => ?_
        simpa using fun he : c = 35 => h35 (he ▸ hc)
    · cases hb : uriByte state r (base + t.length) ch with
      | none => simp [hb] at h
      | some x =>
        obtain ⟨st, r₁⟩ := x
        rw [hb] at h
        have hflags := uriLoop_flags h
        have hc₁ : r₁.complexUri = false := by
          by_contra hne
          rw [hflags.1 (eq_true_of_ne_false hne)] at hc
          cases hc
        have hq₁ : r₁.quotedUri = false := by
          by_contra hne
          rw [hflags.2 (eq_true_of_ne_false hne)] at hq
          cases hq
        obtain ⟨c', hnext, hf'⟩ := hf.byte (m := m) h63 hb hc₁ hq₁
        have hlen : base + (t.length : ℤ) + 1 = base + ((t ++ [ch]).length : ℤ) := by
          rw [List.length_append, List.length_singleton]
          push_cast
          ring
        rw [hlen] at h
        obtain ⟨d, hd, hag⟩ := ih hf' h
        refine ⟨d, ?_, ?_⟩
        · rw [loop_next hnext]
          simpa using hd
        · simpa using hag

end Fast

/-! ### What is asked for -/

lemma uriByte_isSome {state : Sw} (h : state ≠ .start) (r : Marks) (p : ℤ) (ch : UInt8) :
    ∃ x, uriByte state r p ch = some x ∧ x.1 ≠ .start := by
  cases state with
  | start => exact absurd rfl h
  | _ =>
    simp only [uriByte]
    split_ifs
    all_goals exact ⟨_, rfl, Sw.noConfusion⟩

lemma parseUri_isSome (s : Bytes) (r : Marks) (p : ℤ) : ∃ r', parseUri (47 :: s) r p = some r' := by
  have hloop : ∀ (s : Bytes) (state : Sw) (r : Marks) (p : ℤ), state ≠ .start →
      ∃ x, uriLoop s state r p = some x := by
    intro s
    induction s with
    | nil => exact fun state r p _ => ⟨_, rfl⟩
    | cons ch s ih =>
      intro state r p hne
      obtain ⟨x, hx, hne'⟩ := uriByte_isSome hne r p ch
      rw [uriLoop, hx]
      exact ih x.1 x.2 (p + 1) hne'
  obtain ⟨x, hx⟩ := hloop s .afterSlashInUri r (p + 1) Sw.noConfusion
  refine ⟨x.2, ?_⟩
  rw [parseUri, uriLoop]
  simp [uriByte, hx]

lemma sim_first (r : Marks) : ∃ c, (Complex.byte true
      { plusInUri := r.plusInUri, quotedUri := r.quotedUri } 47) = .next c ∧ Sim c [] [] :=
  ⟨_, rfl, rfl, rfl, by simp, List.not_mem_nil⟩

lemma parseComplexUri_eq (s : Bytes) (r : Marks) :
    (parseComplexUri true (47 :: s) r).map (fun d => (d.uri, d.argsOf (47 :: s))) = asks s := by
  obtain ⟨c, hc, hs⟩ := sim_first r
  rw [parseComplexUri, loop_next hc]
  have hargs := fun d => loop_args (m := true) (c := c) (t := [47]) (s := s) (d := d)
  have hpath := loop_path hs s 1
  have hasks : asks s = (walked [] [] (decode s)).map fun uri => (uri, query s) := by
    rw [asks, walked]
    cases decode s with
    | none => rfl
    | some ds =>
      rw [Option.bind_some, walk_eq]
      cases hr : resolve 46 (stepsOf 47 ds) with
      | none => simp [hr]
      | some segs => simp [hr]
  rw [hasks, ← hpath]
  cases hd : complexLoop true s 1 c with
  | none => rfl
  | some d =>
    rw [Option.map_some, Option.map_some, Option.map_some, ← hargs d hd]
    rfl

lemma agree_of_plain {m : Bool} {s : Bytes} {p : ℤ} {r : Marks}
    (h : parseUri (47 :: s) {} p = some r) (hc : r.complexUri = false) (hq : r.quotedUri = false) :
    ∃ d, parseComplexUri m (47 :: s) r = some d ∧ Agree p (47 :: s) r d := by
  obtain ⟨⟨state, r'⟩, hl, rfl⟩ := Option.map_eq_some_iff.mp h
  have hf : Flat p [47] .afterSlashInUri {}
      { state := .slash, u := [47], plusInUri := r'.plusInUri, quotedUri := r'.quotedUri } :=
    ⟨rfl, rfl, by simp, rfl, .inr ⟨rfl, .inl rfl⟩⟩
  obtain ⟨d, hd, hag⟩ := hf.loop (m := m) (s := s) hl hc hq
  exact ⟨d, hd, hag⟩

lemma between_front {u q : Bytes} : between (u ++ q) 0 u.length = u := by
  simp [between]

lemma between_ext {u q : Bytes} {e : ℕ} (he : e ≤ u.length) :
    between (u ++ q) e u.length = u.drop e := by
  have hlen : ((u.length : ℤ) - e).toNat = (u.drop e).length := by
    rw [List.length_drop]
    omega
  rw [between, hlen, Int.toNat_natCast, List.drop_append_of_le_length he, List.take_left']
  rfl

lemma processRequestUri_plain {m : Bool} {s : Bytes} {p : ℤ} {r : Marks}
    (h : parseUri (47 :: s) {} p = some r) (hc : r.complexUri = false) (hq : r.quotedUri = false) :
    processRequestUri m (47 :: s) p r = (parseComplexUri m (47 :: s) r).map fun d =>
      { uri := d.uri
        unparsedUri := 47 :: s
        validUnparsedUri := !r.spaceInUri
        exten := d.exten
        args := d.argsOf (47 :: s) } := by
  obtain ⟨d, hd, u, q, ext, hargs, hext, hle, hu, he, hq'⟩ :=
    agree_of_plain (m := m) h hc hq
  rw [hd, Option.map_some, hu, he, hq', processRequestUri, if_neg (by simp [hc, hq]), hext]
  rcases hargs with ⟨ha, htext, rfl⟩ | ⟨ha, htext⟩
  · rw [ha, htext]
    have hfront : between u 0 u.length = u := by simpa using between_front (u := u) (q := [])
    cases ext with
    | none => simp [hfront]
    | some e =>
      have := between_ext (q := []) (hle e rfl)
      rw [List.append_nil] at this
      simp [hfront, this]
  · rw [ha, htext]
    have hlen : p + (u.length : ℤ) + 1 - 1 - p = u.length := by ring
    have hstart : p + (u.length : ℤ) + 1 - p = (u.length + 1 : ℕ) := by
      push_cast
      ring
    have hq'' : (if ((u.length + 1 : ℕ) : ℤ) < ((u ++ 63 :: q).length : ℤ) then
        between (u ++ 63 :: q) (u.length + 1 : ℕ) (u ++ 63 :: q).length else []) = q := by
      have hall : between (u ++ 63 :: q) (u.length + 1 : ℕ) (u ++ 63 :: q).length = q := by
        have hl : (((u ++ 63 :: q).length : ℤ) - (u.length + 1 : ℕ)).toNat = q.length := by
          rw [List.length_append, List.length_cons]
          omega
        rw [between, hl, Int.toNat_natCast, ← List.drop_drop, List.drop_left]
        exact List.take_length
      rw [hall]
      split
      · rfl
      · rename_i hlt
        rw [List.length_append, List.length_cons] at hlt
        exact (List.length_eq_zero_iff.mp (by omega)).symm
    dsimp only
    rw [hlen, hstart, hq'', between_front]
    cases ext with
    | none => rfl
    | some e => simp [between_ext (q := 63 :: q) (hle e rfl)]

/-- **The short way and the long way.** A URI in which nothing has been found that has to be done
to its path is taken as it is. The parser that decodes and resolves paths would have left the same
path, arguments and extension, whether or not it merges slashes. -/
theorem fast_path (mergeSlashes : Bool) (s : Bytes) (p : ℤ) (r : Marks)
    (h : parseUri (47 :: s) {} p = some r) (hc : r.complexUri = false) (hq : r.quotedUri = false) :
    processRequestUri mergeSlashes (47 :: s) p r =
      processRequestUri mergeSlashes (47 :: s) p { r with complexUri := true } := by
  have hd : parseComplexUri mergeSlashes (47 :: s) { r with complexUri := true } =
      parseComplexUri mergeSlashes (47 :: s) r := rfl
  rw [processRequestUri_plain h hc hq, processRequestUri, if_pos (.inl rfl), hd]
  cases parseComplexUri mergeSlashes (47 :: s) r <;> rfl

theorem fast_path_pixel :
    processRequestUri true (lit "/r.gif?s=3") 4 { uriExt := some 7, argsStart := some 11 } =
      processRequestUri true (lit "/r.gif?s=3") 4
        { uriExt := some 7, argsStart := some 11, complexUri := true } :=
  fast_path true (lit "r.gif?s=3") 4 { uriExt := some 7, argsStart := some 11 } (by decide +kernel)
    rfl rfl

lemma processRequestUri_asks {s : Bytes} {p : ℤ} {r : Marks}
    (h : parseUri (47 :: s) {} p = some r) :
    (processRequestUri true (47 :: s) p r).map (fun u => (u.uri, u.args)) = asks s := by
  rw [← parseComplexUri_eq s r]
  by_cases hflag : r.complexUri ∨ r.quotedUri
  · rw [processRequestUri, if_pos hflag]
    cases parseComplexUri true (47 :: s) r <;> rfl
  · rw [not_or, Bool.not_eq_true, Bool.not_eq_true] at hflag
    rw [processRequestUri_plain h hflag.1 hflag.2]
    cases parseComplexUri true (47 :: s) r <;> rfl

/-- **What a request asks for.** For every URI, the path that the server looks up is its path with
the escapes decoded and the dot segments resolved: it is made of some of the segments of the
decoded path, which are all steps down, and of its last one. A path that leads above the root is
refused. The arguments are the text between the first `?` and a `#`. -/
theorem request_uri (s : Bytes) (p : ℤ) :
    ∃ r, parseUri (47 :: s) {} p = some r ∧
      (processRequestUri true (47 :: s) p r).map (fun u => (u.uri, u.args)) = asks s ∧
      ((processRequestUri true (47 :: s) p r).isSome ↔
        ∃ path, decode s = some path ∧ ∀ l, l <+: stepsOf 47 path → 0 ≤ level 46 l) ∧
      ∀ u, processRequestUri true (47 :: s) p r = some u → ∃ path segs, decode s = some path ∧
        u.uri = render 47 segs (lastOf 47 path) ∧ List.Sublist segs (stepsOf 47 path) ∧
        (segs.length : ℤ) = level 46 (stepsOf 47 path) ∧ (∀ t ∈ segs, Proper 47 46 t) ∧
        (47 : UInt8) ∉ lastOf 47 path := by
  obtain ⟨r, hr⟩ := parseUri_isSome s {} p
  have hmap := processRequestUri_asks hr
  have hsome : (processRequestUri true (47 :: s) p r).isSome = (asks s).isSome := by
    rw [← hmap, Option.isSome_map]
  refine ⟨r, hr, hmap, ?_, fun u hu => ?_⟩
  · rw [hsome, asks]
    cases hd : decode s with
    | none => simp
    | some path =>
      have := @resolve_isSome _ _ (46 : UInt8) (stepsOf 47 path)
      cases hres : resolve 46 (stepsOf 47 path) with
      | none => simpa [hres] using this
      | some segs => simpa [hres] using this
  · rw [hu, Option.map_some, asks] at hmap
    obtain ⟨path, hpath, hmap⟩ := Option.bind_eq_some_iff.mp hmap.symm
    obtain ⟨segs, hsegs, hmap⟩ := Option.bind_eq_some_iff.mp hmap
    have huri := congrArg Prod.fst (Option.some.inj hmap)
    obtain ⟨hproper, hsub, hlen⟩ :=
      resolve_proper (fun t ht => mem_splitOn_sep (List.dropLast_subset _ ht)) hsegs
    refine ⟨path, segs, hpath, huri.symm, hsub, hlen, hproper, ?_⟩
    have hne := List.splitOn_ne_nil (47 : UInt8) path
    rw [lastOf, List.getLastD_eq_getLast?, List.getLast?_eq_some_getLast hne]
    exact mem_splitOn_sep (List.getLast_mem hne)

end NgxMapping.UriPath
