import NgxMapping.HeaderRead
import NgxMapping.UriPath

/-!
`ngx_http_parse_request_line`: the first line of a request.

Like the parser of the header lines it keeps its state and its pointers between two calls, and the
pointers are carried over when the line that has begun is copied into a larger buffer. What it
leaves of the URI is compared with what `ngx_http_parse_uri` leaves of the same text.
-/

namespace NgxMapping.RequestLine

open Lib HeaderRead
open UriPath (Marks usual uriByte uriLoop parseUri)

/-! ### The parser -/

inductive Sw
  | start | method | spacesBeforeUri | schema | schemaSlash | schemaSlashSlash | hostStart | host
  | hostEnd | hostIpLiteral | port | hostHttp09 | afterSlashInUri | checkUri | checkUriHttp09 | uri
  | http09 | httpH | httpHT | httpHTT | httpHTTP | firstMajorDigit | majorDigit | firstMinorDigit
  | minorDigit | spacesAfterDigit | almostDone
  deriving DecidableEq

inductive Method
  | unknown | get | head | post | put | delete | mkcol | copy | move | options | propfind
  | proppatch | lock | unlock | patch | trace
  deriving DecidableEq

/-- The fields of the request that belong to the parser. -/
structure Parser where
  state : Sw := .start
  method : Method := .unknown
  httpMajor : ℕ := 0
  httpMinor : ℕ := 0
  httpVersion : ℕ := 0
  requestStart : ℤ := 0
  requestEnd : Option ℤ := none
  methodEnd : ℤ := 0
  uriStart : ℤ := 0
  uriEnd : ℤ := 0
  schemaStart : Option ℤ := none
  schemaEnd : ℤ := 0
  hostStart : Option ℤ := none
  hostEnd : Option ℤ := none
  portEnd : ℤ := 0
  httpProtocol : Option ℤ := none
  marks : Marks := {}

def methods : List (Bytes × Method) :=
  [(lit "GET", .get), (lit "PUT", .put), (lit "POST", .post), (lit "COPY", .copy),
    (lit "MOVE", .move), (lit "LOCK", .lock), (lit "HEAD", .head), (lit "MKCOL", .mkcol),
    (lit "PATCH", .patch), (lit "TRACE", .trace), (lit "DELETE", .delete),
    (lit "UNLOCK", .unlock), (lit "OPTIONS", .options), (lit "PROPFIND", .propfind),
    (lit "PROPPATCH", .proppatch)]

/-- `c = (u_char) (ch | 0x20)` is a letter. -/
def isLetter (ch : UInt8) : Bool := 97 ≤ ch ||| 0x20 && ch ||| 0x20 ≤ 122

def isMethod (ch : UInt8) : Bool := 65 ≤ ch && ch ≤ 90 || ch = 95

inductive Move
  | next (r : Parser)
  | done (r : Parser)
  | invalidMethod
  | invalidRequest

namespace Parser

variable (r : Parser) (p : ℤ) (ch : UInt8)

/-- The byte that has to come. -/
def expect (c : UInt8) (state : Sw) : Move :=
  if ch = c then .next { r with state := state } else .invalidRequest

/-- The blanks behind the URI: the line ends, or the protocol begins. -/
def behindUri (other : Move) : Move :=
  if ch = 32 then .next r
  else if ch = 13 then .next { r with httpMinor := 9, state := .almostDone }
  else if ch = 10 then .done { r with httpMinor := 9 }
  else if ch = 72 then .next { r with httpProtocol := some p, state := .httpH }
  else other

/-- The end of the host or of the port. A URI that is only a host has the path `/`, which is the
first slash behind the schema. -/
def behindHost : Move :=
  if ch = 47 then .next { r with uriStart := p, state := .afterSlashInUri }
  else if ch = 32 then
    .next { r with
      uriStart := r.schemaEnd + 1, uriEnd := r.schemaEnd + 2, state := .hostHttp09 }
  else .invalidRequest

def inHostEnd : Move :=
  let r := { r with hostEnd := some p }
  if ch = 58 then .next { r with state := .port } else r.behindHost p ch

def inHost : Move :=
  if isLetter ch ∨ isdigit ch ∨ ch = 46 ∨ ch = 45 then .next r else r.inHostEnd p ch

def inHostIpLiteral : Move :=
  if isdigit ch ∨ isLetter ch then .next r
  else if ch = 58 then .next r
  else if ch = 93 then .next { r with state := .hostEnd }
  else if ch ∈ [45, 46, 95, 126, 33, 36, 38, 39, 40, 41, 42, 43, 44, 59, 61] then .next r
  else .invalidRequest

def inAfterSlashInUri : Move :=
  if usual ch then .next { r with state := .checkUri }
  else if ch = 32 then .next { r with uriEnd := p, state := .checkUriHttp09 }
  else if ch = 13 then .next { r with uriEnd := p, httpMinor := 9, state := .almostDone }
  else if ch = 10 then .done { r with uriEnd := p, httpMinor := 9 }
  else if ch = 46 then .next { r with marks := { r.marks with complexUri := true }, state := .uri }
  else if ch = 37 then .next { r with marks := { r.marks with quotedUri := true }, state := .uri }
  else if ch = 47 then .next { r with marks := { r.marks with complexUri := true }, state := .uri }
  else if ch = 63 then
    .next { r with marks := { r.marks with argsStart := some (p + 1) }, state := .uri }
  else if ch = 35 then .next { r with marks := { r.marks with complexUri := true }, state := .uri }
  else if ch = 43 then .next { r with marks := { r.marks with plusInUri := true } }
  else if ch = 0 then .invalidRequest
  else .next { r with state := .checkUri }

def inCheckUri : Move :=
  if usual ch then .next r
  else if ch = 47 then
    .next { r with marks := { r.marks with uriExt := none }, state := .afterSlashInUri }
  else if ch = 46 then .next { r with marks := { r.marks with uriExt := some (p + 1) } }
  else if ch = 32 then .next { r with uriEnd := p, state := .checkUriHttp09 }
  else if ch = 13 then .next { r with uriEnd := p, httpMinor := 9, state := .almostDone }
  else if ch = 10 then .done { r with uriEnd := p, httpMinor := 9 }
  else if ch = 37 then .next { r with marks := { r.marks with quotedUri := true }, state := .uri }
  else if ch = 63 then
    .next { r with marks := { r.marks with argsStart := some (p + 1) }, state := .uri }
  else if ch = 35 then .next { r with marks := { r.marks with complexUri := true }, state := .uri }
  else if ch = 43 then .next { r with marks := { r.marks with plusInUri := true } }
  else if ch = 0 then .invalidRequest
  else .next r

def inUri : Move :=
  if usual ch then .next r
  else if ch = 32 then .next { r with uriEnd := p, state := .http09 }
  else if ch = 13 then .next { r with uriEnd := p, httpMinor := 9, state := .almostDone }
  else if ch = 10 then .done { r with uriEnd := p, httpMinor := 9 }
  else if ch = 35 then .next { r with marks := { r.marks with complexUri := true } }
  else if ch = 0 then .invalidRequest
  else .next r

/-- There is a blank in the URI; the byte is looked at again. -/
def withSpace (state : Sw) : Parser :=
  { r with marks := { r.marks with spaceInUri := true }, state := state }

/-- The number of the protocol with one more digit, in 16 bits. -/
def digit (n : ℕ) (ch : UInt8) : ℕ := (n * 10 + (ch.toNat - 48)) % 2 ^ 16

/-- The body of the loop, at the pointer `p` into the buffer `b`. -/
def byte (b : Buf) : Move :=
  match r.state with
  | .start =>
    let r := { r with requestStart := p }
    if ch = 13 ∨ ch = 10 then .next r
    else if isMethod ch then .next { r with state := .method }
    else .invalidMethod
  | .method =>
    if ch = 32 then
      .next { r with
        methodEnd := p - 1
        method := (methods.lookup (b.slice r.requestStart p)).getD r.method
        state := .spacesBeforeUri }
    else if isMethod ch then .next r
    else .invalidMethod
  | .spacesBeforeUri =>
    if ch = 47 then .next { r with uriStart := p, state := .afterSlashInUri }
    else if isLetter ch then .next { r with schemaStart := some p, state := .schema }
    else if ch = 32 then .next r
    else .invalidRequest
  | .schema =>
    if isLetter ch then .next r
    else if ch = 58 then .next { r with schemaEnd := p, state := .schemaSlash }
    else .invalidRequest
  | .schemaSlash => r.expect ch 47 .schemaSlashSlash
  | .schemaSlashSlash => r.expect ch 47 .hostStart
  | .hostStart =>
    let r := { r with hostStart := some p }
    if ch = 91 then .next { r with state := .hostIpLiteral }
    else { r with state := .host }.inHost p ch
  | .host => r.inHost p ch
  | .hostEnd => r.inHostEnd p ch
  | .hostIpLiteral => r.inHostIpLiteral ch
  | .port => if isdigit ch then .next r else { r with portEnd := p }.behindHost p ch
  | .hostHttp09 => r.behindUri p ch .invalidRequest
  | .afterSlashInUri => r.inAfterSlashInUri p ch
  | .checkUri => r.inCheckUri p ch
  | .checkUriHttp09 => r.behindUri p ch ((r.withSpace .checkUri).inCheckUri p ch)
  | .uri => r.inUri p ch
  | .http09 => r.behindUri p ch ((r.withSpace .uri).inUri p ch)
  | .httpH => r.expect ch 84 .httpHT
  | .httpHT => r.expect ch 84 .httpHTT
  | .httpHTT => r.expect ch 80 .httpHTTP
  | .httpHTTP => r.expect ch 47 .firstMajorDigit
  | .firstMajorDigit =>
    if 49 ≤ ch ∧ ch ≤ 57 then .next { r with httpMajor := digit 0 ch, state := .majorDigit }
    else .invalidRequest
  | .majorDigit =>
    if ch = 46 then .next { r with state := .firstMinorDigit }
    else if isdigit ch then .next { r with httpMajor := digit r.httpMajor ch }
    else .invalidRequest
  | .firstMinorDigit =>
    if isdigit ch then .next { r with httpMinor := digit 0 ch, state := .minorDigit }
    else .invalidRequest
  | .minorDigit =>
    if ch = 13 then .next { r with state := .almostDone }
    else if ch = 10 then .done r
    else if ch = 32 then .next { r with state := .spacesAfterDigit }
    else if isdigit ch then .next { r with httpMinor := digit r.httpMinor ch }
    else .invalidRequest
  | .spacesAfterDigit =>
    if ch = 32 then .next r
    else if ch = 13 then .next { r with state := .almostDone }
    else if ch = 10 then .done r
    else .invalidRequest
  | .almostDone =>
    if ch = 10 then .done { r with requestEnd := some (p - 1) } else .invalidRequest

end Parser

/-- What `ngx_http_parse_request_line` returns. -/
inductive Rc
  | ok | again | invalidMethod | invalidRequest | invalid09Method
  deriving DecidableEq

/-- What is behind `done`. -/
def Parser.finish (r : Parser) (p : ℤ) : Rc × ℤ × Parser :=
  let r := { r with
    requestEnd := some (r.requestEnd.getD p)
    httpVersion := r.httpMajor * 1000 + r.httpMinor
    state := .start }
  if r.httpVersion = 9 ∧ r.method ≠ .get then (.invalid09Method, p + 1, r) else (.ok, p + 1, r)

/-- The loop over the bytes from `p` on, with the pointer behind the last byte read. -/
def parseLoop (b : Buf) : Bytes → ℤ → Parser → Rc × ℤ × Parser
  | [], p, r => (.again, p, r)
  | ch :: rest, p, r =>
    match r.byte p ch b with
    | .next r => parseLoop b rest (p + 1) r
    | .done r => r.finish p
    | .invalidMethod => (.invalidMethod, p, r)
    | .invalidRequest => (.invalidRequest, p, r)

/-- The marks in a buffer to which the bytes from `old` on have been copied. -/
def shift (m : Marks) (old : ℤ) : Marks :=
  { m with argsStart := m.argsStart.map (· - old), uriExt := m.uriExt.map (· - old) }

/-- The pointers in such a buffer. -/
def relocate (r : Parser) (old : ℤ) : Parser :=
  { r with
    requestStart := r.requestStart - old
    requestEnd := r.requestEnd.map (· - old)
    methodEnd := r.methodEnd - old
    uriStart := r.uriStart - old
    uriEnd := r.uriEnd - old
    schemaStart := r.schemaStart.map (· - old)
    schemaEnd := if r.schemaStart.isSome then r.schemaEnd - old else r.schemaEnd
    hostStart := r.hostStart.map (· - old)
    hostEnd := if r.hostStart.isSome then r.hostEnd.map (· - old) else r.hostEnd
    httpProtocol := r.httpProtocol.map (· - old)
    marks := shift r.marks old }

/-- The part of `ngx_http_alloc_large_header_buffer` that changes the buffer, of which `t` has been
read: one that is full of empty lines is filled again, from another the line is copied. -/
def renew (t : Bytes) (r : Parser) : Bytes × Parser :=
  if r.state = .start then ([], r)
  else (t.drop r.requestStart.toNat, relocate r r.requestStart)

/-- The parser between two calls, and the bytes of the buffer that it has read. -/
inductive Reached : Bytes → Parser → Prop
  | init (t : Bytes) : Reached t {}
  | again {b : Buf} {t s : Bytes} {p : ℤ} {r r' : Parser} : Reached t r →
      parseLoop b s t.length r = (.again, p, r') → Reached (t ++ s) r'
  | renew {t : Bytes} {r : Parser} : Reached t r → Reached (renew t r).1 (renew t r).2

/-! ### What has been read -/

def lineSw : UriPath.Sw → Sw
  | .start => .start
  | .afterSlashInUri => .afterSlashInUri
  | .checkUri => .checkUri
  | .uri => .uri

/-- The text `u` behind `lead` has been scanned as a URI. -/
structure Scans (lead u : Bytes) (r : Parser) (sw : UriPath.Sw) (m : Marks) : Prop where
  start : r.uriStart = lead.length
  bound : 0 ≤ r.requestStart ∧ r.requestStart ≤ lead.length
  slash : ∃ v, u = 47 :: v
  plain : ∀ c ∈ u, c ≠ 0 ∧ c ≠ 10 ∧ c ≠ 13
  scan : uriLoop u .start {} lead.length = some (sw, m)

/-- The URI goes on. -/
def InUri (sw : UriPath.Sw) (t : Bytes) (r : Parser) : Prop :=
  ∃ lead u, t = lead ++ u ∧ Scans lead u r sw r.marks ∧ u.getLast? ≠ some 32

/-- There are blanks, and the URI may go on behind them. -/
def Blanks (sw : UriPath.Sw) (t : Bytes) (r : Parser) : Prop :=
  ∃ lead u k sw', t = lead ++ (u ++ List.replicate (k + 1) 32) ∧ Scans lead u r sw' r.marks ∧
    u.getLast? ≠ some 32 ∧ r.uriEnd = lead.length + u.length ∧
    ∀ m q, uriByte sw' m q 32 = some (sw, { m with spaceInUri := true })

/-- The URI is whole. -/
def Target (t : Bytes) (r : Parser) : Prop :=
  ∃ lead u tail sw, t = lead ++ (u ++ tail) ∧ Scans lead u r sw r.marks ∧
    u.getLast? ≠ some 32 ∧ r.uriEnd = lead.length + u.length

/-- The schema is behind the parser. -/
def Scheme (t : Bytes) (r : Parser) : Prop :=
  r.marks = {} ∧ r.schemaStart.isSome ∧ ∃ l m, t = l ++ 58 :: 47 :: m ∧ r.schemaEnd = l.length ∧
    0 ≤ r.requestStart ∧ r.requestStart ≤ l.length

/-- What the state says about the bytes that have been read. -/
def Inv (t : Bytes) (r : Parser) : Prop :=
  match r.state with
  | .start => r.marks = {}
  | .method | .spacesBeforeUri => r.marks = {} ∧ 0 ≤ r.requestStart ∧ r.requestStart ≤ t.length
  | .schema => r.marks = {} ∧ r.schemaStart.isSome ∧ 0 ≤ r.requestStart ∧
      r.requestStart ≤ t.length
  | .schemaSlash => r.marks = {} ∧ r.schemaStart.isSome ∧ ∃ l, t = l ++ [58] ∧
      r.schemaEnd = l.length ∧ 0 ≤ r.requestStart ∧ r.requestStart ≤ l.length
  | .schemaSlashSlash | .hostStart | .host | .hostEnd | .hostIpLiteral | .port => Scheme t r
  | .afterSlashInUri => InUri .afterSlashInUri t r
  | .checkUri => InUri .checkUri t r
  | .uri => InUri .uri t r
  | .checkUriHttp09 => Blanks .checkUri t r
  | .http09 => Blanks .uri t r
  | _ => Target t r

def After (t : Bytes) (ch : UInt8) : Move → Prop
  | .next r => Inv (t ++ [ch]) r
  | .done r => ch = 10 ∧ Target t r
  | _ => True

lemma uriLoop_append (s s' : Bytes) (sw : UriPath.Sw) (m : Marks) (p : ℤ) :
    uriLoop (s ++ s') sw m p =
      (uriLoop s sw m p).bind fun x => uriLoop s' x.1 x.2 (p + s.length) := by
  induction s generalizing sw m p with
  | nil => simp [uriLoop]
  | cons ch s ih =>
    rw [List.cons_append, uriLoop, uriLoop]
    cases uriByte sw m p ch with
    | none => rfl
    | some x =>
      dsimp only
      rw [ih, List.length_cons]
      congr 1
      funext y
      congr 1
      push_cast
      ring

section Steps

variable {t lead u : Bytes} {r r' : Parser} {sw sw' : UriPath.Sw} {m m' : Marks} {ch : UInt8}

lemma Scans.frame (h : Scans lead u r sw m) (h1 : r'.uriStart = r.uriStart)
    (h2 : r'.requestStart = r.requestStart) : Scans lead u r' sw m :=
  ⟨h1.trans h.start, by rw [h2]; exact h.bound, h.slash, h.plain, h.scan⟩

lemma Scans.snoc (h : Scans lead u r sw m)
    (hb : uriByte sw m (lead.length + u.length) ch = some (sw', m'))
    (h0 : ch ≠ 0) (h10 : ch ≠ 10) (h13 : ch ≠ 13) : Scans lead (u ++ [ch]) r sw' m' := by
  obtain ⟨v, hv⟩ := h.slash
  refine ⟨h.start, h.bound, ⟨v ++ [ch], by rw [hv]; rfl⟩, fun c hc => ?_, ?_⟩
  · rcases List.mem_append.mp hc with hc | hc
    · exact h.plain c hc
    · rw [List.mem_singleton.mp hc]
      exact ⟨h0, h10, h13⟩
  · rw [uriLoop_append, h.scan, Option.bind_some, uriLoop, hb]
    rfl

lemma Scans.first (h1 : r.uriStart = t.length) (h2 : 0 ≤ r.requestStart)
    (h3 : r.requestStart ≤ t.length) : Scans t [47] r .afterSlashInUri {} :=
  ⟨h1, ⟨h2, h3⟩, ⟨[], rfl⟩, by decide, rfl⟩

lemma Target.snoc (h : Target t r) (ch : UInt8) (h1 : r'.uriStart = r.uriStart)
    (h2 : r'.requestStart = r.requestStart) (h3 : r'.uriEnd = r.uriEnd)
    (h4 : r'.marks = r.marks) : Target (t ++ [ch]) r' := by
  obtain ⟨lead, u, tail, sw, rfl, hs, hl, he⟩ := h
  refine ⟨lead, u, tail ++ [ch], sw, by simp, ?_, hl, h3.trans he⟩
  rw [h4]
  exact hs.frame h1 h2

lemma Target.frame (h : Target t r) (h1 : r'.uriStart = r.uriStart)
    (h2 : r'.requestStart = r.requestStart) (h3 : r'.uriEnd = r.uriEnd)
    (h4 : r'.marks = r.marks) : Target t r' := by
  obtain ⟨lead, u, tail, sw, rfl, hs, hl, he⟩ := h
  refine ⟨lead, u, tail, sw, rfl, ?_, hl, h3.trans he⟩
  rw [h4]
  exact hs.frame h1 h2

lemma InUri.target (h : InUri sw t r) (h1 : r'.uriStart = r.uriStart)
    (h2 : r'.requestStart = r.requestStart) (h3 : r'.uriEnd = t.length)
    (h4 : r'.marks = r.marks) : Target t r' := by
  obtain ⟨lead, u, rfl, hs, hl⟩ := h
  refine ⟨lead, u, [], sw, by simp, ?_, hl, ?_⟩
  · rw [h4]
    exact hs.frame h1 h2
  · rw [h3, List.length_append]
    push_cast
    rfl

lemma Blanks.target (h : Blanks sw t r) : Target t r := by
  obtain ⟨lead, u, k, sw', rfl, hs, hl, he, -⟩ := h
  exact ⟨lead, u, _, sw', rfl, hs, hl, he⟩

lemma Blanks.scans (h : Blanks sw t r) (hsw : sw = .checkUri ∨ sw = .uri) :
    ∃ lead u, t = lead ++ u ∧ Scans lead u r sw { r.marks with spaceInUri := true } := by
  obtain ⟨lead, u, k, sw', rfl, hs, -, -, h32⟩ := h
  have hstay : ∀ m q, uriByte sw m q 32 = some (sw, { m with spaceInUri := true }) := by
    rcases hsw with rfl | rfl <;> exact fun m q => rfl
  refine ⟨lead, _, rfl, ?_⟩
  induction k with
  | zero => exact hs.snoc (h32 _ _) (by decide) (by decide) (by decide)
  | succ k ih =>
    rw [List.replicate_succ', ← List.append_assoc]
    exact ih.snoc (hstay _ _) (by decide) (by decide) (by decide)

/-- What the parser makes of a byte while it scans a URI. -/
def Parser.scan (r : Parser) : UriPath.Sw → ℤ → UInt8 → Move
  | .start, _, _ => .invalidRequest
  | .afterSlashInUri, p, ch => r.inAfterSlashInUri p ch
  | .checkUri, p, ch => r.inCheckUri p ch
  | .uri, p, ch => r.inUri p ch

/-- A byte of a URI is scanned in the same way by `ngx_http_parse_request_line` and by
`ngx_http_parse_uri`. -/
lemma scan_next (hsw : sw ≠ .start) (hs : r.state = lineSw sw) (p : ℤ) (h32 : ch ≠ 32)
    (h13 : ch ≠ 13) (h10 : ch ≠ 10) (h0 : ch ≠ 0) :
    ∃ sw' m, uriByte sw r.marks p ch = some (sw', m) ∧ sw' ≠ .start ∧
      r.scan sw p ch = .next { r with marks := m, state := lineSw sw' } := by
  have hr : ∀ m : Marks, ({ r with marks := m } : Parser) =
      { r with marks := m, state := lineSw sw } := fun m => by rw [← hs]
  cases sw with
  | start => exact absurd rfl hsw
  | _ =>
    unfold uriByte Parser.scan
    simp only [Parser.inAfterSlashInUri, Parser.inCheckUri, Parser.inUri, h32, h13, h10, h0,
      if_false]
    split_ifs
    all_goals
      refine ⟨_, _, rfl, UriPath.Sw.noConfusion, ?_⟩
      first
        | rfl
        | exact congrArg Move.next (hr _)

lemma inv_scan (h : Scans lead u r sw r.marks) (ht : t = lead ++ u)
    (hb : uriByte sw r.marks t.length ch = some (sw', m')) (hne : sw' ≠ .start) (h32 : ch ≠ 32)
    (h13 : ch ≠ 13) (h10 : ch ≠ 10) (h0 : ch ≠ 0) :
    Inv (t ++ [ch]) { r with marks := m', state := lineSw sw' } := by
  have hlen : (t.length : ℤ) = lead.length + u.length := by
    rw [ht, List.length_append]
    push_cast
    rfl
  rw [hlen] at hb
  have hin : InUri sw' (t ++ [ch]) { r with marks := m', state := lineSw sw' } :=
    ⟨lead, u ++ [ch], by rw [ht, List.append_assoc], (h.snoc hb h0 h10 h13).frame rfl rfl,
      by simpa using h32⟩
  cases sw' with
  | start => exact absurd rfl hne
  | _ => exact hin

/-- The URI goes on, or it ends at a blank or at the end of the line. -/
lemma after_scan (h : InUri sw t r) (hsw : sw ≠ .start) (hs : r.state = lineSw sw) :
    After t ch (r.scan sw t.length ch) := by
  have ht : ∀ minor state, Target t { r with
      uriEnd := t.length, httpMinor := minor, state := state } :=
    fun _ _ => h.target rfl rfl rfl rfl
  obtain ⟨lead, u, htu, hsc, hl⟩ := h
  by_cases h1 : ch = 32
  · subst h1
    have hb : ∀ sw' state, (∀ m q, uriByte sw m q 32 = some (sw', { m with spaceInUri := true })) →
        Blanks sw' (t ++ [32]) { r with uriEnd := t.length, state := state } := by
      intro sw' state h32
      refine ⟨lead, u, 0, sw, by rw [htu, List.append_assoc]; rfl, hsc.frame rfl rfl, hl, ?_, h32⟩
      rw [htu, List.length_append]
      push_cast
      rfl
    cases sw with
    | start => exact absurd rfl hsw
    | afterSlashInUri => exact hb .checkUri .checkUriHttp09 fun _ _ => rfl
    | checkUri => exact hb .checkUri .checkUriHttp09 fun _ _ => rfl
    | uri => exact hb .uri .http09 fun _ _ => rfl
  by_cases h2 : ch = 13
  · subst h2
    have hend : Target (t ++ [13]) { r with
        uriEnd := t.length, httpMinor := 9, state := .almostDone } :=
      (ht 9 .almostDone).snoc 13 rfl rfl rfl rfl
    cases sw with
    | start => exact absurd rfl hsw
    | _ => exact hend
  by_cases h3 : ch = 10
  · subst h3
    cases sw with
    | start => exact absurd rfl hsw
    | _ => exact ⟨rfl, ht 9 _⟩
  by_cases h4 : ch = 0
  · subst h4
    cases sw <;> trivial
  obtain ⟨sw', m, hb, hne, he⟩ := scan_next hsw hs t.length h1 h2 h3 h4
  rw [he]
  exact inv_scan hsc htu hb hne h1 h2 h3 h4

lemma after_behindUri {other : Move} (h : Target t r) (h32 : Inv (t ++ [32]) r)
    (ho : ch ≠ 32 → ch ≠ 13 → ch ≠ 10 → After t ch other) :
    After t ch (r.behindUri t.length ch other) := by
  unfold Parser.behindUri
  split_ifs with h1 h2 h3 h4
  · rw [h1]
    exact h32
  · exact h.snoc ch rfl rfl rfl rfl
  · exact ⟨h3, h.frame rfl rfl rfl rfl⟩
  · exact h.snoc ch rfl rfl rfl rfl
  · exact ho h1 h2 h3

lemma Blanks.more (h : Blanks sw t r) : Blanks sw (t ++ [32]) r := by
  obtain ⟨lead, u, k, sw', rfl, hs, hl, he, h32⟩ := h
  refine ⟨lead, u, k + 1, sw', ?_, hs, hl, he, h32⟩
  rw [List.replicate_succ' (n := k + 1)]
  simp only [List.append_assoc]

lemma Scheme.snoc (h : Scheme t r) (ch : UInt8) (h1 : r'.marks = r.marks)
    (h2 : r'.schemaStart = r.schemaStart) (h3 : r'.schemaEnd = r.schemaEnd)
    (h4 : r'.requestStart = r.requestStart) : Scheme (t ++ [ch]) r' := by
  obtain ⟨hm, hs, l, m, rfl, he, hb⟩ := h
  exact ⟨h1.trans hm, by rwa [h2], l, m ++ [ch], by simp, h3.trans he, by rwa [h4]⟩

lemma after_behindHost (h : Scheme t r) : After t ch (r.behindHost t.length ch) := by
  obtain ⟨hm, -, l, m, ht, he, h1, h2⟩ := h
  have hle : (l.length : ℤ) ≤ t.length := by
    rw [ht, List.length_append]
    push_cast
    omega
  unfold Parser.behindHost
  split_ifs with h47 h32
  · subst h47
    refine ⟨t, [47], rfl, ?_, by decide⟩
    simp only [hm]
    exact Scans.first rfl h1 (h2.trans hle)
  · subst h32
    refine ⟨l ++ [58], [47], m ++ [32], .afterSlashInUri, by rw [ht]; simp, ?_, by decide, ?_⟩
    · simp only [hm]
      refine Scans.first ?_ h1 ?_
      · simp [he]
      · simp only [List.length_append, List.length_singleton]
        push_cast
        omega
    · simp only [he, List.length_append, List.length_singleton]
      push_cast
      ring
  · trivial

lemma after_hostEnd (h : Scheme t r) : After t ch (r.inHostEnd t.length ch) := by
  unfold Parser.inHostEnd
  dsimp only
  split_ifs
  · exact h.snoc ch rfl rfl rfl rfl
  · exact after_behindHost ⟨h.1, h.2.1, h.2.2⟩

lemma after_host (h : Scheme t r) (hs : r.state = .host) :
    After t ch (r.inHost t.length ch) := by
  unfold Parser.inHost
  split_ifs
  · rw [After, Inv, hs]
    exact h.snoc ch rfl rfl rfl rfl
  · exact after_hostEnd h

lemma after_expect (h : Target t r) {c : UInt8} {state : Sw}
    (hst : ∀ r : Parser, r.state = state → Target (t ++ [ch]) r → Inv (t ++ [ch]) r) :
    After t ch (r.expect ch c state) := by
  unfold Parser.expect
  split_ifs
  · exact hst _ rfl (h.snoc ch rfl rfl rfl rfl)
  · trivial

/-- A blank in the URI: it goes on, in the state in which it would have gone on without the end. -/
lemma after_blank (h : Blanks sw t r) (hsw : sw = .checkUri ∨ sw = .uri) (hst : Inv (t ++ [32]) r) :
    After t ch (r.behindUri t.length ch ((r.withSpace (lineSw sw)).scan sw t.length ch)) := by
  have hne : sw ≠ .start := by rcases hsw with rfl | rfl <;> exact UriPath.Sw.noConfusion
  refine after_behindUri h.target hst fun h32 h13 h10 => ?_
  by_cases h0 : ch = 0
  · subst h0
    cases sw <;> trivial
  obtain ⟨sw', m, hb, hne', he⟩ :=
    scan_next (r := r.withSpace (lineSw sw)) hne rfl t.length h32 h13 h10 h0
  rw [he]
  obtain ⟨lead, u, ht, hsc⟩ := h.scans hsw
  exact inv_scan (r := r.withSpace (lineSw sw)) (hsc.frame rfl rfl) ht hb hne' h32 h13 h10 h0

/-- **One byte** keeps what the state says. -/
lemma after_byte (h : Inv t r) (ch : UInt8) (b : Buf) : After t ch (r.byte t.length ch b) := by
  have hlen : ((t ++ [ch]).length : ℤ) = t.length + 1 := by simp
  unfold Inv at h
  unfold Parser.byte
  revert h
  cases hs : r.state with
  | start =>
    intro h
    dsimp only
    split_ifs
    · exact h
    · refine ⟨h, Int.natCast_nonneg _, ?_⟩
      rw [hlen]
      exact Int.le_add_one le_rfl
    · trivial
  | method =>
    rintro ⟨hm, h1, h2⟩
    dsimp only
    split_ifs
    · exact ⟨hm, h1, by rw [hlen]; exact h2.trans (by omega)⟩
    · rw [After, Inv, hs]
      exact ⟨hm, h1, by rw [hlen]; omega⟩
    · trivial
  | spacesBeforeUri =>
    rintro ⟨hm, h1, h2⟩
    dsimp only
    split_ifs with h47
    · subst h47
      refine ⟨t, [47], rfl, ?_, by decide⟩
      simp only [hm]
      exact Scans.first rfl h1 h2
    · exact ⟨hm, rfl, h1, by rw [hlen]; exact h2.trans (by omega)⟩
    · rw [After, Inv, hs]
      exact ⟨hm, h1, by rw [hlen]; omega⟩
    · trivial
  | schema =>
    rintro ⟨hm, hst, h1, h2⟩
    dsimp only
    split_ifs with hl h58
    · rw [After, Inv, hs]
      exact ⟨hm, hst, h1, by rw [hlen]; omega⟩
    · subst h58
      exact ⟨hm, hst, t, rfl, rfl, h1, h2⟩
    · trivial
  | schemaSlash =>
    rintro ⟨hm, hst, l, ht, he, hb⟩
    dsimp only
    unfold Parser.expect
    split_ifs with h47
    · subst h47
      exact ⟨hm, hst, l, [], by rw [ht]; simp, he, hb⟩
    · trivial
  | schemaSlashSlash =>
    intro h
    dsimp only
    unfold Parser.expect
    split_ifs
    · exact Scheme.snoc h ch rfl rfl rfl rfl
    · trivial
  | hostStart =>
    intro h
    dsimp only
    split_ifs
    · exact Scheme.snoc h ch rfl rfl rfl rfl
    · exact after_host ⟨h.1, h.2.1, h.2.2⟩ rfl
  | host => exact fun h => after_host h hs
  | hostEnd => exact fun h => after_hostEnd h
  | hostIpLiteral =>
    intro h
    have hkeep : Inv (t ++ [ch]) r := by
      rw [Inv, hs]
      exact Scheme.snoc h ch rfl rfl rfl rfl
    dsimp only
    unfold Parser.inHostIpLiteral
    split_ifs
    · exact hkeep
    · exact hkeep
    · exact Scheme.snoc h ch rfl rfl rfl rfl
    · exact hkeep
    · trivial
  | port =>
    intro h
    dsimp only
    split_ifs
    · rw [After, Inv, hs]
      exact Scheme.snoc h ch rfl rfl rfl rfl
    · exact after_behindHost ⟨h.1, h.2.1, h.2.2⟩
  | hostHttp09 =>
    intro h
    refine after_behindUri h ?_ fun _ _ _ => trivial
    rw [Inv, hs]
    exact Target.snoc h 32 rfl rfl rfl rfl
  | afterSlashInUri => exact fun h => after_scan h UriPath.Sw.noConfusion hs
  | checkUri => exact fun h => after_scan h UriPath.Sw.noConfusion hs
  | uri => exact fun h => after_scan h UriPath.Sw.noConfusion hs
  | checkUriHttp09 =>
    intro h
    refine after_blank h (.inl rfl) ?_
    rw [Inv, hs]
    exact Blanks.more h
  | http09 =>
    intro h
    refine after_blank h (.inr rfl) ?_
    rw [Inv, hs]
    exact Blanks.more h
  -- the URI is behind the parser
  | httpH => exact fun h => after_expect h fun r hr ht => by rw [Inv, hr]; exact ht
  | httpHT => exact fun h => after_expect h fun r hr ht => by rw [Inv, hr]; exact ht
  | httpHTT => exact fun h => after_expect h fun r hr ht => by rw [Inv, hr]; exact ht
  | httpHTTP => exact fun h => after_expect h fun r hr ht => by rw [Inv, hr]; exact ht
  | firstMajorDigit =>
    intro h
    dsimp only
    split_ifs
    · exact Target.snoc h ch rfl rfl rfl rfl
    · trivial
  | majorDigit =>
    intro h
    dsimp only
    split_ifs
    · exact Target.snoc h ch rfl rfl rfl rfl
    · exact Target.snoc h ch rfl rfl rfl rfl
    · trivial
  | firstMinorDigit =>
    intro h
    dsimp only
    split_ifs
    · exact Target.snoc h ch rfl rfl rfl rfl
    · trivial
  | minorDigit =>
    intro h
    dsimp only
    split_ifs with h1 h2
    · exact Target.snoc h ch rfl rfl rfl rfl
    · exact ⟨h2, h⟩
    · exact Target.snoc h ch rfl rfl rfl rfl
    · exact Target.snoc h ch rfl rfl rfl rfl
    · trivial
  | spacesAfterDigit =>
    intro h
    dsimp only
    split_ifs with h1 h2 h3
    · rw [After, Inv, hs]
      exact Target.snoc h ch rfl rfl rfl rfl
    · exact Target.snoc h ch rfl rfl rfl rfl
    · exact ⟨h3, h⟩
    · trivial
  | almostDone =>
    intro h
    dsimp only
    split_ifs with h1
    · exact ⟨h1, Target.frame h rfl rfl rfl rfl⟩
    · trivial

/-! ### Calls -/

/-- What a call makes of the bytes `s` that follow the bytes `t`. -/
inductive Found (t s : Bytes) : Rc × ℤ × Parser → Prop
  | again {r : Parser} : Inv (t ++ s) r → Found t s (.again, (t ++ s).length, r)
  | ok {u rest : Bytes} {r : Parser} : s = u ++ 10 :: rest → Target (t ++ u) r →
      Found t s (.ok, (t ++ u).length + 1, r)
  | refused {rc : Rc} {p : ℤ} {r : Parser} : rc ≠ .again → rc ≠ .ok → Found t s (rc, p, r)

/-- **A call** goes on where the parser stands. -/
lemma parseLoop_found (b : Buf) (s : Bytes) (h : Inv t r) :
    Found t s (parseLoop b s t.length r) := by
  induction s generalizing t r with
  | nil =>
    have : Found t [] (.again, (t ++ []).length, r) := .again (by rwa [List.append_nil])
    rwa [List.append_nil] at this
  | cons ch s ih =>
    have ha := after_byte h ch b
    rw [parseLoop]
    generalize r.byte t.length ch b = move at ha
    cases move with
    | next r' =>
      have hlen : (t.length : ℤ) + 1 = (t ++ [ch]).length := by simp
      have hnext := ih ha
      rw [← hlen] at hnext
      dsimp only
      generalize parseLoop b s (t.length + 1) r' = out at hnext
      have hcons : ∀ u : Bytes, t ++ [ch] ++ u = t ++ ch :: u := fun u => by simp
      cases hnext with
      | again hi =>
        rw [hcons] at hi ⊢
        exact .again hi
      | ok hs ht =>
        rw [hcons] at ht ⊢
        exact .ok (by rw [hs]; rfl) ht
      | refused h1 h2 => exact .refused h1 h2
    | done r' =>
      obtain ⟨rfl, ht⟩ := ha
      dsimp only
      unfold Parser.finish
      dsimp only
      split
      · exact .refused (by decide) (by decide)
      · have : Found t (10 :: s) (.ok, (t ++ []).length + 1, { r' with
            requestEnd := some (r'.requestEnd.getD t.length)
            httpVersion := r'.httpMajor * 1000 + r'.httpMinor
            state := .start }) :=
          .ok rfl (by rw [List.append_nil]; exact ht.frame rfl rfl rfl rfl)
        rwa [List.append_nil] at this
    | invalidMethod => exact .refused (by decide) (by decide)
    | invalidRequest => exact .refused (by decide) (by decide)

/-! ### Larger buffers -/

lemma uriByte_shift (sw : UriPath.Sw) (m : Marks) (p d : ℤ) (ch : UInt8) :
    uriByte sw (shift m d) (p - d) ch = (uriByte sw m p ch).map fun x => (x.1, shift x.2 d) := by
  have hp : p - d + 1 = p + 1 - d := by ring
  cases sw with
  | start =>
    simp only [uriByte]
    split_ifs <;> rfl
  | _ =>
    simp only [uriByte]
    split_ifs
    all_goals simp [shift, hp]

lemma uriLoop_shift (s : Bytes) (sw : UriPath.Sw) (m : Marks) (p d : ℤ) :
    uriLoop s sw (shift m d) (p - d) = (uriLoop s sw m p).map fun x => (x.1, shift x.2 d) := by
  induction s generalizing sw m p with
  | nil => rfl
  | cons ch s ih =>
    rw [uriLoop, uriLoop, uriByte_shift]
    cases uriByte sw m p ch with
    | none => rfl
    | some x =>
      rw [Option.map_some]
      dsimp only
      rw [show p - d + 1 = p + 1 - d by ring, ih]

lemma drop_length_cast {d : ℤ} (h1 : 0 ≤ d) (h2 : d ≤ lead.length) :
    ((lead.drop d.toNat).length : ℤ) = lead.length - d := by
  rw [List.length_drop]
  omega

lemma Scans.relocate (h : Scans lead u r sw m) :
    Scans (lead.drop r.requestStart.toNat) u (relocate r r.requestStart) sw
      (shift m r.requestStart) := by
  obtain ⟨h1, h2⟩ := h.bound
  have hlen := drop_length_cast h1 h2
  refine ⟨?_, ⟨?_, ?_⟩, h.slash, h.plain, ?_⟩
  · rw [hlen, ← h.start]
    rfl
  · exact (sub_self r.requestStart).ge
  · rw [hlen]
    exact (sub_self r.requestStart).le.trans (by omega)
  · rw [hlen]
    have := uriLoop_shift u .start {} lead.length r.requestStart
    rw [h.scan] at this
    exact this

lemma drop_lead {d : ℤ} (h1 : 0 ≤ d) (h2 : d ≤ lead.length) (s : Bytes) :
    (lead ++ s).drop d.toNat = lead.drop d.toNat ++ s :=
  List.drop_append_of_le_length (by omega)

lemma InUri.relocate (h : InUri sw t r) :
    InUri sw (t.drop r.requestStart.toNat) (relocate r r.requestStart) := by
  obtain ⟨lead, u, rfl, hs, hl⟩ := h
  exact ⟨_, u, drop_lead hs.bound.1 hs.bound.2 u, hs.relocate, hl⟩

lemma uriEnd_relocate (hs : Scans lead u r sw m) (he : r.uriEnd = lead.length + u.length) :
    (relocate r r.requestStart).uriEnd =
      (lead.drop r.requestStart.toNat).length + u.length := by
  rw [drop_length_cast hs.bound.1 hs.bound.2]
  have : (RequestLine.relocate r r.requestStart).uriEnd = r.uriEnd - r.requestStart := rfl
  rw [this, he]
  ring

lemma Blanks.relocate (h : Blanks sw t r) :
    Blanks sw (t.drop r.requestStart.toNat) (relocate r r.requestStart) := by
  obtain ⟨lead, u, k, sw', rfl, hs, hl, he, h32⟩ := h
  exact ⟨_, u, k, sw', drop_lead hs.bound.1 hs.bound.2 _, hs.relocate, hl, uriEnd_relocate hs he,
    h32⟩

lemma Target.relocate (h : Target t r) :
    Target (t.drop r.requestStart.toNat) (relocate r r.requestStart) := by
  obtain ⟨lead, u, tail, sw', rfl, hs, hl, he⟩ := h
  exact ⟨_, u, tail, sw', drop_lead hs.bound.1 hs.bound.2 _, hs.relocate, hl,
    uriEnd_relocate hs he⟩

lemma schemaEnd_relocate (hs : r.schemaStart.isSome = true) (d : ℤ) :
    (relocate r d).schemaStart.isSome = true ∧ (relocate r d).schemaEnd = r.schemaEnd - d := by
  refine ⟨?_, if_pos hs⟩
  rw [relocate, Option.isSome_map]
  exact hs

lemma Scheme.relocate (h : Scheme t r) :
    Scheme (t.drop r.requestStart.toNat) (relocate r r.requestStart) := by
  obtain ⟨hm, hs, l, m, rfl, he, h1, h2⟩ := h
  obtain ⟨h3, h4⟩ := schemaEnd_relocate hs r.requestStart
  refine ⟨?_, h3, _, m, drop_lead h1 h2 _, ?_, (sub_self r.requestStart).ge, ?_⟩
  · exact congrArg (shift · r.requestStart) hm
  · rw [h4, he, drop_length_cast h1 h2]
  · rw [drop_length_cast h1 h2]
    exact (sub_self r.requestStart).le.trans (by omega)

/-- **A larger buffer** changes nothing in what the state says. -/
lemma inv_renew (h : Inv t r) : Inv (renew t r).1 (renew t r).2 := by
  unfold renew
  split
  · rename_i hs
    rw [Inv, hs] at h ⊢
    exact h
  rename_i hs
  have hzero : (relocate r r.requestStart).requestStart = 0 := sub_self _
  have hmarks : r.marks = {} → (relocate r r.requestStart).marks = {} :=
    fun hm => congrArg (shift · r.requestStart) hm
  unfold Inv at h ⊢
  dsimp only
  have hst : (relocate r r.requestStart).state = r.state := rfl
  rw [hst]
  cases hr : r.state with
  | start => exact absurd hr hs
  | method | spacesBeforeUri =>
    rw [hr] at h
    exact ⟨hmarks h.1, hzero.ge, hzero.le.trans (Int.natCast_nonneg _)⟩
  | schema =>
    rw [hr] at h
    exact ⟨hmarks h.1, (schemaEnd_relocate h.2.1 _).1, hzero.ge,
      hzero.le.trans (Int.natCast_nonneg _)⟩
  | schemaSlash =>
    rw [hr] at h
    obtain ⟨hm, hs, l, rfl, he, h1, h2⟩ := h
    obtain ⟨h3, h4⟩ := schemaEnd_relocate hs r.requestStart
    refine ⟨hmarks hm, h3, _, drop_lead h1 h2 _, ?_, hzero.ge,
      hzero.le.trans (Int.natCast_nonneg _)⟩
    rw [h4, he, drop_length_cast h1 h2]
  | schemaSlashSlash | hostStart | host | hostEnd | hostIpLiteral | port =>
    rw [hr] at h
    exact Scheme.relocate h
  | afterSlashInUri | checkUri | uri =>
    rw [hr] at h
    exact InUri.relocate h
  | checkUriHttp09 | http09 =>
    rw [hr] at h
    exact Blanks.relocate h
  | _ =>
    rw [hr] at h
    exact Target.relocate h

end Steps

lemma Reached.inv {t : Bytes} {r : Parser} (h : Reached t r) : Inv t r := by
  induction h with
  | init t => rfl
  | @again b t s p r r' _ hp ih =>
    have := parseLoop_found b s ih
    rw [hp] at this
    cases this with
    | again hi => exact hi
    | refused h1 _ => exact absurd rfl h1
  | renew _ ih => exact inv_renew ih

/-- **The URI of a request line.** However the line has come in and however often its buffer has
been changed: when it is accepted, the URI that the handlers are given is a part of what the
client has sent, behind it the line ends, it starts with a slash, has no zero, line feed or
carriage return in it and no blank at its end, and its marks are those that `ngx_http_parse_uri`
leaves of this text. So the path and the arguments that are looked up are those of the text. -/
theorem request_line_uri (b : Buf) (t s : Bytes) (r r' : Parser) (p : ℤ) (hr : Reached t r)
    (hb : b.data = t ++ s) (h : parseLoop b s t.length r = (.ok, p, r')) :
    ∃ lead v tail rest, t ++ s = lead ++ (47 :: v ++ (tail ++ 10 :: rest)) ∧
      p = (lead ++ (47 :: v ++ tail)).length + 1 ∧
      b.slice r'.uriStart r'.uriEnd = 47 :: v ∧
      (∀ c ∈ v, c ≠ 0 ∧ c ≠ 10 ∧ c ≠ 13) ∧ (47 :: v).getLast? ≠ some 32 ∧
      parseUri (47 :: v) {} r'.uriStart = some r'.marks ∧
      (UriPath.processRequestUri true (47 :: v) r'.uriStart r'.marks).map
        (fun u => (u.uri, u.args)) = UriPath.asks v := by
  have hf := parseLoop_found b s hr.inv
  rw [h] at hf
  cases hf with
  | refused _ h2 => exact absurd rfl h2
  | @ok u rest _ hs ht =>
    obtain ⟨lead, u', tail, sw, htu, hsc, hl, he⟩ := ht
    obtain ⟨v, rfl⟩ := hsc.slash
    have hall : t ++ s = lead ++ (47 :: v ++ (tail ++ 10 :: rest)) := by
      rw [hs, ← List.append_assoc, htu]
      simp
    have hparse : parseUri (47 :: v) {} r'.uriStart = some r'.marks := by
      rw [parseUri, hsc.start, hsc.scan]
      rfl
    refine ⟨lead, v, tail, rest, hall, by rw [htu], ?_, fun c hc => hsc.plain c (by simp [hc]), hl,
      hparse, UriPath.processRequestUri_asks hparse⟩
    have hlen : ((lead.length : ℤ) + (47 :: v).length - lead.length).toNat = (47 :: v).length := by
      omega
    rw [Buf.slice, hsc.start, he, hlen, Int.toNat_natCast, hb, hall, List.drop_left]
    exact List.take_left

end NgxMapping.RequestLine
