import NgxMapping.HeaderWire
import NgxMapping.RequestLine

/-!
`ngx_http_process_request_line`: a request from its first byte to its header.

The bytes come in pieces of any size. A buffer that is full is filled again as long as there have
been empty lines only; otherwise the line that has begun is carried over into a larger one. What
follows the line is left to the reading of the header.
-/

namespace NgxMapping.RequestRead

open Lib HeaderRead
open RequestLine (Parser Reached renew)
open UriPath (Uri parseUri processRequestUri asks)

/-- The directives that have to do with the line, and whether a host in it is valid and has a
server. -/
structure Config extends HeaderRead.Config where
  mergeSlashes : Bool := true
  hostOk : Bytes → Bool

inductive Result
  | read (uri : Uri)
  | badRequest | tooLarge | refused
  deriving DecidableEq

/-- A request while its line is read; `io` is the connection, on which the header is read next. -/
structure LineReader where
  line : Parser := {}
  io : HeaderRead.Reader
  result : Option Result := none

namespace LineReader

variable (C : Config) (w : LineReader)

/-- The part of `ngx_http_alloc_large_header_buffer` that changes the buffer. -/
def renewed (size : ℕ) : LineReader :=
  let (data, line) := renew (w.io.headerIn.data.take w.io.headerIn.pos) w.line
  { w with line := line, io := { w.io with headerIn := ⟨data, data.length, size⟩ } }

/-- `ngx_http_alloc_large_header_buffer` for the request line; `none` is `NGX_DECLINED`. -/
def allocLargeHeaderBuffer : Option LineReader :=
  if w.line.state = .start then some (w.renewed w.io.headerIn.size)
  else if (C.size : ℤ) ≤ w.io.headerIn.pos - w.line.requestStart then none
  else
    let w' := w.renewed C.size
    if 0 < w.io.nfree then
      some { w' with io := { w'.io with nfree := w.io.nfree - 1, nbusy := w.io.nbusy + 1 } }
    else if w.io.nbusy < C.num then some { w' with io := { w'.io with nbusy := w.io.nbusy + 1 } }
    else none

/-- What is done with a line that has been read. -/
def accept : LineReader :=
  let b := w.io.headerIn
  match processRequestUri C.mergeSlashes (b.slice w.line.uriStart w.line.uriEnd) w.line.uriStart
    w.line.marks with
  | none => { w with result := some .badRequest }
  | some uri =>
    let ok := match w.line.hostStart, w.line.hostEnd with
      | some start, some stop => C.hostOk (b.slice start stop)
      | _, _ => true
    { w with result := some (if ok then .read uri else .refused) }

/-- A call of `ngx_http_parse_request_line` and what is done with its result. -/
def parse : LineReader :=
  let b := w.io.headerIn
  match RequestLine.parseLoop b (b.data.drop b.pos) b.pos w.line with
  | (rc, p, line) =>
    let w := { w with line := line, io := { w.io with headerIn := { b with pos := p.toNat } } }
    match rc with
    | .ok => w.accept C
    | .again =>
      if w.io.headerIn.pos = w.io.headerIn.size then
        match w.allocLargeHeaderBuffer C with
        | none => { w with result := some .tooLarge }
        | some w => w
      else w
    | _ => { w with result := some .badRequest }

/-- One round of the loop of `ngx_http_process_request_line`. -/
def step (x : Recv) : LineReader :=
  if w.result ≠ none ∨ w.io.result ≠ none then w
  else
    match w.io.readRequestHeader x with
    | (io, true) => { w with io := io }.parse C
    | (io, false) => { w with io := io }

def run (xs : List Recv) : LineReader := xs.foldl (step C) w

end LineReader

/-! ### Where the reading has got -/

/-- The header has not begun, and of the stream `S` the bytes `gone` have been read. -/
structure Inv (S gone : Bytes) (w : LineReader) : Prop where
  stream : S = gone ++ (w.io.headerIn.data.drop w.io.headerIn.pos ++ w.io.input)
  suffix : w.io.headerIn.data.take w.io.headerIn.pos <:+ gone
  reached : Reached (w.io.headerIn.data.take w.io.headerIn.pos) w.line
  bound : w.io.headerIn.pos ≤ w.io.headerIn.data.length
  fits : w.io.headerIn.data.length ≤ w.io.headerIn.size
  state : w.io.r.state = .start
  rc : w.io.rc = .again
  headers : w.io.headers = ⟨[], []⟩

/-- The line has been read: what has been asked for, and where the header begins. -/
structure Read (C : Config) (S : Bytes) (w : LineReader) (uri : Uri) : Prop where
  text : ∃ lead v tail, S = lead ++ (47 :: v ++ (tail ++ 10 :: HeaderWire.stream w.io)) ∧
    uri.unparsedUri = 47 :: v ∧ (∀ c ∈ v, c ≠ 0 ∧ c ≠ 10 ∧ c ≠ 13) ∧
    (47 :: v).getLast? ≠ some 32 ∧ parseUri (47 :: v) {} w.line.uriStart = some w.line.marks ∧
    processRequestUri C.mergeSlashes (47 :: v) w.line.uriStart w.line.marks = some uri ∧
    (C.mergeSlashes = true → asks v = some (uri.uri, uri.args))
  fresh : HeaderWire.Fresh w.io

/-- What the state says about the stream. -/
def Sound (C : Config) (S : Bytes) (w : LineReader) : Prop :=
  match w.result with
  | some (.read uri) => Read C S w uri
  | some _ => True
  | none => w.io.result = none → ∃ gone, Inv S gone w

section Steps

variable {C : Config} {S gone : Bytes} {w : LineReader}

lemma Inv.sound (hi : Inv S gone w) (h : w.result = none) : Sound C S w := by
  rw [Sound, h]
  exact fun _ => ⟨gone, hi⟩

lemma Inv.receive (hi : Inv S gone w) (x : Recv) :
    Inv S gone { w with io := (w.io.readRequestHeader x).1 } := by
  unfold Reader.readRequestHeader
  split
  · exact hi
  rename_i hpos
  split
  · exact hi
  · exact ⟨hi.stream, hi.suffix, hi.reached, hi.bound, hi.fits, hi.state, hi.rc, hi.headers⟩
  simp only
  split
  · exact hi
  have hend : w.io.headerIn.pos = w.io.headerIn.data.length := by
    have := hi.bound
    omega
  have htake : ∀ s, (w.io.headerIn.data ++ s).take w.io.headerIn.pos =
      w.io.headerIn.data.take w.io.headerIn.pos :=
    fun s => List.take_append_of_le_length hi.bound
  refine ⟨?_, ?_, ?_, ?_, ?_, hi.state, hi.rc, hi.headers⟩
  · have hstream := hi.stream
    rw [hend, List.drop_length, List.nil_append] at hstream
    simp only [hend, List.drop_left, List.take_append_drop]
    exact hstream
  · simp only [htake]
    exact hi.suffix
  · simp only [htake]
    exact hi.reached
  · simp only [List.length_append]
    omega
  · have := hi.fits
    simp only [List.length_append, List.length_take]
    omega

lemma receive_result {io io' : HeaderRead.Reader} {x : Recv}
    (h : io.readRequestHeader x = (io', true)) (hn : io.result = none) : io'.result = none := by
  unfold Reader.readRequestHeader at h
  split at h
  · cases h
    exact hn
  split at h
  · cases h
  · cases h
  simp only at h
  split at h
  · cases h
  · cases h
    exact hn

lemma Inv.renewed (hi : Inv S gone w) (hfull : w.io.headerIn.pos = w.io.headerIn.data.length)
    {size : ℕ}
    (hsize : (renew (w.io.headerIn.data.take w.io.headerIn.pos) w.line).1.length ≤ size) :
    Inv S gone (w.renewed size) := by
  have hnil : w.io.headerIn.data.drop w.io.headerIn.pos = [] := by
    rw [hfull, List.drop_length]
  have hstream := hi.stream
  rw [hnil] at hstream
  have hsuffix : (renew (w.io.headerIn.data.take w.io.headerIn.pos) w.line).1 <:+
      w.io.headerIn.data.take w.io.headerIn.pos := by
    unfold renew
    split
    · exact List.nil_suffix
    · exact List.drop_suffix _ _
  refine ⟨?_, ?_, ?_, le_rfl, hsize, hi.state, hi.rc, hi.headers⟩
  · simpa [LineReader.renewed] using hstream
  · simpa [LineReader.renewed] using hsuffix.trans hi.suffix
  · simpa [LineReader.renewed] using hi.reached.renew

lemma Inv.alloc {w' : LineReader} (hi : Inv S gone w)
    (hfull : w.io.headerIn.pos = w.io.headerIn.data.length)
    (h : w.allocLargeHeaderBuffer C = some w') :
    Inv S gone w' ∧ w'.result = w.result ∧ w'.io.result = w.io.result := by
  unfold LineReader.allocLargeHeaderBuffer at h
  split at h
  · rename_i hs
    cases h
    refine ⟨hi.renewed hfull ?_, rfl, rfl⟩
    rw [renew, if_pos hs]
    exact Nat.zero_le _
  rename_i hs
  split at h
  · cases h
  rename_i hroom
  have hn : Inv S gone (w.renewed C.size) := by
    refine hi.renewed hfull ?_
    rw [renew, if_neg hs, List.length_drop, List.length_take]
    have := hi.bound
    omega
  simp only at h
  split at h
  · cases h
    exact ⟨⟨hn.stream, hn.suffix, hn.reached, hn.bound, hn.fits, hn.state, hn.rc, hn.headers⟩,
      rfl, rfl⟩
  split at h
  · cases h
    exact ⟨⟨hn.stream, hn.suffix, hn.reached, hn.bound, hn.fits, hn.state, hn.rc, hn.headers⟩,
      rfl, rfl⟩
  · cases h

lemma unparsedUri_eq {m : Bool} {text : Bytes} {start : ℤ} {r : UriPath.Marks} {u : Uri}
    (h : processRequestUri m text start r = some u) : u.unparsedUri = text := by
  unfold processRequestUri at h
  simp only at h
  split at h
  · split at h
    · cases h
    · cases h
      rfl
  · cases h
    rfl

lemma sound_accept {lead v tail rest : Bytes} {line : Parser} {p : ℕ} (hi : Inv S gone w)
    (hn : w.io.result = none)
    (hall : w.io.headerIn.data = lead ++ (47 :: v ++ (tail ++ 10 :: rest)))
    (hp : p = (lead ++ (47 :: v ++ tail)).length + 1)
    (hslice : w.io.headerIn.slice line.uriStart line.uriEnd = 47 :: v)
    (hplain : ∀ c ∈ v, c ≠ 0 ∧ c ≠ 10 ∧ c ≠ 13) (hlast : (47 :: v).getLast? ≠ some 32)
    (hmarks : parseUri (47 :: v) {} line.uriStart = some line.marks)
    (hasks : (processRequestUri true (47 :: v) line.uriStart line.marks).map
      (fun u => (u.uri, u.args)) = asks v) :
    Sound C S (LineReader.accept C { w with
      line := line, io := { w.io with headerIn := { w.io.headerIn with pos := p } } }) := by
  have hbuf : ({ w.io.headerIn with pos := p } : Buf).slice line.uriStart line.uriEnd = 47 :: v :=
    hslice
  unfold LineReader.accept
  simp only [hbuf]
  cases hu : processRequestUri C.mergeSlashes (47 :: v) line.uriStart line.marks with
  | none => trivial
  | some uri =>
    dsimp only
    generalize (match line.hostStart, line.hostEnd with
      | some start, some stop => C.hostOk (({ w.io.headerIn with pos := p } : Buf).slice start stop)
      | _, _ => true) = ok
    cases ok with
    | false => trivial
    | true =>
      obtain ⟨front, hfront⟩ := hi.suffix
      have hdrop : w.io.headerIn.data.drop p = rest := by
        rw [hall, hp, show lead ++ (47 :: v ++ (tail ++ 10 :: rest)) =
          (lead ++ (47 :: v ++ tail) ++ [10]) ++ rest by simp, List.drop_left']
        rw [List.length_append, List.length_singleton]
      refine ⟨⟨front ++ lead, v, tail, ?_, unparsedUri_eq hu, hplain, hlast, hmarks, hu,
        fun hm => ?_⟩, ?_⟩
      · rw [HeaderWire.stream]
        dsimp only
        rw [hdrop, hi.stream, ← hfront, List.append_assoc, ← List.append_assoc (List.take _ _),
          List.take_append_drop, hall]
        simp
      · rw [hm] at hu
        rw [← hasks, hu]
        rfl
      · refine ⟨hi.state, hi.rc, hn, hi.headers, ?_, hi.fits⟩
        dsimp only
        rw [hall, hp]
        simp only [List.length_append, List.length_cons]
        omega

/-- **A call of the parser** keeps what the state says. -/
lemma Inv.parse (hi : Inv S gone w) (hres : w.result = none) (hn : w.io.result = none) :
    Sound C S (w.parse C) := by
  have hpos : (w.io.headerIn.data.take w.io.headerIn.pos).length = w.io.headerIn.pos := by
    rw [List.length_take]
    exact Nat.min_eq_left hi.bound
  have hdata := (List.take_append_drop w.io.headerIn.pos w.io.headerIn.data).symm
  have hfound := RequestLine.parseLoop_found w.io.headerIn
    (w.io.headerIn.data.drop w.io.headerIn.pos) hi.reached.inv
  rw [hpos] at hfound
  unfold LineReader.parse
  dsimp only
  obtain ⟨⟨rc, p, line⟩, hout⟩ : ∃ out, RequestLine.parseLoop w.io.headerIn
    (w.io.headerIn.data.drop w.io.headerIn.pos) w.io.headerIn.pos w.line = out := ⟨_, rfl⟩
  rw [hout] at hfound ⊢
  cases hfound with
  | again _ =>
    dsimp only
    rw [← hdata, Int.toNat_natCast]
    have hnext : Inv S (gone ++ w.io.headerIn.data.drop w.io.headerIn.pos) { w with
        line := line
        io := { w.io with headerIn := { w.io.headerIn with
          pos := w.io.headerIn.data.length } } } := by
      refine ⟨?_, ?_, ?_, le_rfl, hi.fits, hi.state, hi.rc, hi.headers⟩
      · simp only [List.drop_length, List.nil_append, List.append_assoc]
        exact hi.stream
      · simp only [List.take_length]
        obtain ⟨front, hfront⟩ := hi.suffix
        refine ⟨front, ?_⟩
        conv_lhs => rw [hdata]
        rw [← List.append_assoc, hfront]
      · simp only [List.take_length]
        have hcall := hout
        rw [show (w.io.headerIn.pos : ℤ) =
          (w.io.headerIn.data.take w.io.headerIn.pos).length by rw [hpos]] at hcall
        have := Reached.again hi.reached hcall
        rwa [← hdata] at this
    split
    · split
      · trivial
      · rename_i w' ha
        obtain ⟨hi', h1, -⟩ := hnext.alloc rfl ha
        exact hi'.sound (h1.trans hres)
    · exact hnext.sound hres
  | ok hs ht =>
    have hline := RequestLine.request_line_uri w.io.headerIn _ _ w.line line _ hi.reached hdata
      (by rw [hpos]; exact hout)
    obtain ⟨lead, v, tail, rest, hall, hp, hslice, hplain, hlast, hmarks, hasks⟩ := hline
    refine sound_accept hi hn (hdata.trans hall) ?_ hslice hplain hlast hmarks hasks
    dsimp only
    rw [hp]
    exact Int.toNat_natCast _
  | refused h1 h2 =>
    cases rc with
    | again => exact absurd rfl h1
    | ok => exact absurd rfl h2
    | _ => trivial

lemma sound_step (hs : Sound C S w) (x : Recv) : Sound C S (w.step C x) := by
  unfold LineReader.step
  split
  · exact hs
  rename_i hne
  rw [not_or, not_not, not_not] at hne
  rw [Sound, hne.1] at hs
  obtain ⟨gone, hi⟩ := hs hne.2
  have hr := hi.receive x
  split
  · rename_i io heq
    rw [heq] at hr
    exact hr.parse hne.1 (receive_result heq hne.2)
  · rename_i io heq
    rw [heq] at hr
    exact hr.sound hne.1

end Steps

/-- **A request from the wire.** Into whatever pieces the bytes of a connection are cut and however
often the buffer changes under the parser: a request whose line has been read has for its unparsed
URI a part of the bytes that were sent, which starts with a slash and has no zero, line feed or
carriage return in it and no blank at its end; its marks are those that `ngx_http_parse_uri` leaves
of this text, and what has been made of it is `ngx_http_process_request_uri` of text and marks, with
`merge_slashes` the path and the arguments that the text asks for; and the reading of the header
starts at the byte behind the line feed. Behind a line below `HTTP/1.0` there is no header. -/
theorem request_read (C : Config) (w₀ : LineReader) (hw : HeaderWire.Fresh w₀.io)
    (hline : w₀.line = {}) (hres : w₀.result = none) (xs : List Recv) (uri : Uri)
    (h : (w₀.run C xs).result = some (.read uri)) :
    (∃ sent v tail, w₀.io.headerIn.data ++ w₀.io.input =
        sent ++ (47 :: v ++ (tail ++ 10 :: HeaderWire.stream (w₀.run C xs).io)) ∧
      uri.unparsedUri = 47 :: v ∧ (∀ c ∈ v, c ≠ 0 ∧ c ≠ 10 ∧ c ≠ 13) ∧
      (47 :: v).getLast? ≠ some 32 ∧
      parseUri (47 :: v) {} (w₀.run C xs).line.uriStart = some (w₀.run C xs).line.marks ∧
      processRequestUri C.mergeSlashes (47 :: v) (w₀.run C xs).line.uriStart
        (w₀.run C xs).line.marks = some uri ∧
      (C.mergeSlashes = true → asks v = some (uri.uri, uri.args))) ∧
    HeaderWire.Fresh (w₀.run C xs).io := by
  have hstart : Sound C (w₀.io.headerIn.data ++ w₀.io.input) w₀ := by
    rw [Sound, hres]
    refine fun _ => ⟨w₀.io.headerIn.data.take w₀.io.headerIn.pos, ?_, List.suffix_rfl, ?_, hw.bound,
      hw.fits, hw.state, hw.rc, hw.headers⟩
    · rw [← List.append_assoc, List.take_append_drop]
    · rw [hline]
      exact .init _
  have hrun : Sound C (w₀.io.headerIn.data ++ w₀.io.input) (w₀.run C xs) := by
    clear h
    induction xs using List.reverseRecOn with
    | nil => exact hstart
    | append_singleton xs x ih =>
      rw [LineReader.run, List.foldl_append]
      exact sound_step ih x
  rw [Sound, h] at hrun
  exact ⟨hrun.text, hrun.fresh⟩

/-- A request whose line comes in four bytes at a time, with a buffer for eight bytes at first. -/
def sampleReader : LineReader where
  io := {
    headerIn := ⟨[], 0, 8⟩
    input := lit "\r\nGET /a/..%2fr.gif?s=3 HTTP/1.1\r\nHost: a\r\n\r\n" }

def sampleConfig : Config where
  num := 4
  size := 64
  handler _ _ := true
  hostOk _ := true

theorem request_read_sample :
    ∃ sent v tail, sampleReader.io.input = sent ++ (47 :: v ++ (tail ++ 10 :: HeaderWire.stream
        (sampleReader.run sampleConfig (List.replicate 9 (.bytes 4))).io)) ∧
      asks v = some (lit "/r.gif", lit "s=3") := by
  have hread : (sampleReader.run sampleConfig (List.replicate 9 (.bytes 4))).result =
      some (.read ⟨lit "/r.gif", lit "/a/..%2fr.gif?s=3", true, lit "gif", lit "s=3"⟩) := by
    decide +kernel
  obtain ⟨⟨sent, v, tail, hs, -, -, -, -, -, hasks⟩, -⟩ := request_read sampleConfig sampleReader
    ⟨rfl, rfl, rfl, rfl, by decide, by decide⟩ rfl rfl (List.replicate 9 (.bytes 4)) _ hread
  exact ⟨sent, v, tail, hs, hasks rfl⟩

end NgxMapping.RequestRead
