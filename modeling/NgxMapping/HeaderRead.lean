import NgxMapping.CopyHeaders
import NgxMapping.HeaderLine

/-!
`ngx_http_process_request_headers`: the header of a request, as it arrives.

The bytes come in pieces of any size into a buffer. When the buffer is full, the line that has
begun is carried over into a larger one, and the pointers of the parser with it. The lines that
are read become entries of `headers_in.headers`.
-/

namespace NgxMapping.HeaderRead

open Lib HeaderLine CopyHeaders

/-- The directives that have to do with headers. -/
structure Config where
  underscoresInHeaders : Bool := false
  ignoreInvalidHeaders : Bool := true
  /-- `large_client_header_buffers` -/
  num : ℕ
  size : ℕ
  /-- the handlers that `headers_in_hash` has for some names, given the entries before -/
  handler : List TableElt → TableElt → Bool

/-- `ngx_buf_t`: the bytes from `start` to `last`, the distance of `pos` from `start`, and that of
`end`. -/
structure Buf where
  data : Bytes
  pos : ℕ
  size : ℕ

inductive Result
  | done | invalid | tooLarge | refused | closed
  deriving DecidableEq

/-- A request while its header is read. `input` is what the client has sent or is going to. -/
structure Reader where
  r : Parser := {}
  headerIn : Buf
  nfree : ℕ := 0
  nbusy : ℕ := 0
  rc : Rc := .again
  headers : NgxList := ⟨[], []⟩
  input : Bytes
  result : Option Result := none

/-- What a call of `recv` finds: nothing yet, the end of the connection, or bytes. -/
inductive Recv
  | again
  | closed
  | bytes (n : ℕ)

/-- `ngx_list_push`; the lists of a request have parts of 20 entries. -/
def NgxList.push (l : NgxList) (e : TableElt) : NgxList :=
  match l.next.getLast? with
  | none =>
    if l.part.length = 20 then { l with next := [[e]] } else { l with part := l.part ++ [e] }
  | some last =>
    if last.length = 20 then { l with next := l.next ++ [[e]] }
    else { l with next := l.next.dropLast ++ [last ++ [e]] }

def Buf.slice (b : Buf) (start stop : ℤ) : Bytes :=
  (b.data.drop start.toNat).take (stop - start).toNat

/-- The pointers of the parser in a buffer to which the bytes from `old` on have been copied. -/
def relocate (r : Parser) (old : ℤ) : Parser :=
  { r with
    headerNameStart := r.headerNameStart - old
    headerNameEnd := r.headerNameEnd - old
    headerStart := r.headerStart - old
    headerEnd := r.headerEnd - old }

namespace Reader

variable (C : Config) (w : Reader)

/-- The part of `ngx_http_alloc_large_header_buffer` that changes the buffer. -/
def renew : Reader :=
  if w.r.state = .start then { w with headerIn := ⟨[], 0, C.size⟩ }
  else
    let old := w.r.headerNameStart
    let copy := w.headerIn.slice old w.headerIn.pos
    { w with headerIn := ⟨copy, copy.length, C.size⟩, r := relocate w.r old }

/-- `ngx_http_alloc_large_header_buffer`; `none` is `NGX_DECLINED`. -/
def allocLargeHeaderBuffer : Option Reader :=
  if w.r.state ≠ .start ∧ (C.size : ℤ) ≤ w.headerIn.pos - w.r.headerNameStart then none
  else if 0 < w.nfree then
    some { w.renew C with nfree := w.nfree - 1, nbusy := w.nbusy + 1 }
  else if w.nbusy < C.num then some { w.renew C with nbusy := w.nbusy + 1 }
  else none

/-- `ngx_http_read_request_header`: whether there are bytes to parse. -/
def readRequestHeader (x : Recv) : Reader × Bool :=
  if w.headerIn.pos < w.headerIn.data.length then (w, true)
  else
    match x with
    | .again => (w, false)
    | .closed => ({ w with result := some .closed }, false)
    | .bytes n =>
      let k := min (max n 1) (w.headerIn.size - w.headerIn.data.length)
      if w.input.take k = [] then (w, false)
      else ({ w with
        headerIn := { w.headerIn with data := w.headerIn.data ++ w.input.take k }
        input := w.input.drop k }, true)

/-- The entry of the line that has been read. -/
def entry (r : Parser) (b : Buf) : TableElt where
  hash := r.headerHash
  key := b.slice r.headerNameStart r.headerNameEnd
  value := b.slice r.headerStart r.headerEnd

/-- A call of `ngx_http_parse_header_line` and what is done with its result. -/
def parse : Reader :=
  let (rc, p, r) := parseLoop C.underscoresInHeaders (w.headerIn.data.drop w.headerIn.pos)
    w.headerIn.pos w.r
  let w := { w with rc := rc, r := r, headerIn := { w.headerIn with pos := p.toNat } }
  match rc with
  | .ok =>
    if r.invalidHeader && C.ignoreInvalidHeaders then w
    else
      let e := entry r w.headerIn
      let entries := w.headers.entries
      let w := { w with headers := NgxList.push w.headers e }
      if C.handler entries e then w else { w with result := some .refused }
  | .headerDone => { w with result := some .done }
  | .again => w
  | .invalidHeader => { w with result := some .invalid }

/-- One round of the loop of `ngx_http_process_request_headers`. -/
def step (x : Recv) : Reader :=
  if w.result ≠ none then w
  else if w.rc = .again then
    match (if w.headerIn.pos = w.headerIn.size then w.allocLargeHeaderBuffer C else some w) with
    | none => { w with result := some .tooLarge }
    | some w =>
      match w.readRequestHeader x with
      | (w, true) => w.parse C
      | (w, false) => w
  else w.parse C

def run (xs : List Recv) : Reader := xs.foldl (step C) w

end Reader

/-! ### What a header says -/

/-- The text of lines, each with its line feed. -/
def streamOf (lines : List Bytes) : Bytes := lines.flatMap (· ++ [10])

/-- A line up to its first carriage return. -/
def textOf (line : Bytes) : Bytes := line.takeWhile (· ≠ 13)

def hashAfter (C : Config) (h : ℕ) (lines : List Bytes) : ℕ :=
  lines.foldl (fun h line => hashName C.underscoresInHeaders h (fieldName (textOf line))) h

/-- The entry of a line, unless its name is invalid and such lines are ignored. -/
def entryOf (C : Config) (h : ℕ) (line : Bytes) : List TableElt :=
  if C.ignoreInvalidHeaders && !(fieldName (textOf line)).all (nameOk C.underscoresInHeaders) then
    []
  else [⟨hashName C.underscoresInHeaders h (fieldName (textOf line)), fieldName (textOf line),
    fieldValue (textOf line)⟩]

/-- The entries of the lines of a header. -/
def entriesOf (C : Config) : ℕ → List Bytes → List TableElt
  | _, [] => []
  | h, line :: lines => entryOf C h line ++
      entriesOf C (hashName C.underscoresInHeaders h (fieldName (textOf line))) lines

lemma entriesOf_snoc (C : Config) (h : ℕ) (lines : List Bytes) (line : Bytes) :
    entriesOf C h (lines ++ [line]) =
      entriesOf C h lines ++ entryOf C (hashAfter C h lines) line := by
  induction lines generalizing h with
  | nil => simp [entriesOf, hashAfter]
  | cons l lines ih => rw [List.cons_append, entriesOf, entriesOf, ih, List.append_assoc]; rfl

lemma hashAfter_snoc (C : Config) (h : ℕ) (lines : List Bytes) (line : Bytes) :
    hashAfter C h (lines ++ [line]) =
      hashName C.underscoresInHeaders (hashAfter C h lines) (fieldName (textOf line)) := by
  rw [hashAfter, List.foldl_append]
  rfl

lemma streamOf_snoc (lines : List Bytes) (line s : Bytes) :
    streamOf lines ++ (line ++ 10 :: s) = streamOf (lines ++ [line]) ++ s := by
  simp [streamOf]

lemma textOf_eq {text crs n v : Bytes} (hf : Field text n v) (hcrs : ∀ c ∈ crs, c = 13) :
    textOf (text ++ crs) = text := by
  rw [textOf, List.takeWhile_append_of_pos]
  · cases crs with
    | nil => simp
    | cons c crs =>
      rw [List.takeWhile_cons_of_neg (by simpa using hcrs c List.mem_cons_self), List.append_nil]
  · intro c hc
    simpa using (hf.plain c hc).2.2

/-! ### The list -/

lemma entries_push (l : NgxList) (e : TableElt) :
    (NgxList.push l e).entries = l.entries ++ [e] := by
  unfold NgxList.push
  split
  · rename_i hnone
    have hnil : l.next = [] := List.getLast?_eq_none_iff.mp hnone
    split
    · simp [NgxList.entries, hnil]
    · simp [NgxList.entries, hnil]
  · rename_i last hlast
    have hnext : l.next.dropLast ++ [last] = l.next := List.dropLast_append_getLast? last hlast
    split
    · simp [NgxList.entries]
    · simp only [NgxList.entries]
      conv_rhs => rw [← hnext]
      simp

lemma ne_nil_push {l : NgxList} (h : ∀ p ∈ l.next, p ≠ []) (e : TableElt) :
    ∀ p ∈ (NgxList.push l e).next, p ≠ [] := by
  unfold NgxList.push
  split
  · split
    · simp
    · exact h
  · split
    · intro p hp
      rcases List.mem_append.mp hp with hp | hp
      · exact h p hp
      · rw [List.mem_singleton.mp hp]
        simp
    · intro p hp
      rcases List.mem_append.mp hp with hp | hp
      · exact h p (List.dropLast_subset _ hp)
      · rw [List.mem_singleton.mp hp]
        simp

/-! ### The buffer -/

lemma reads_relocate {a : Bool} {before : ℕ} {base : ℤ} {t : Bytes} {r : Parser}
    (h : Reads a before base t r) : Reads a before 0 t (relocate r base) := by
  have hhead : ∀ {n : Bytes}, Head a before base n r → Head a before 0 n
      (relocate r base) := fun hh =>
    ⟨by simp [relocate, hh.nameStart], hh.hash, hh.invalid⟩
  cases h with
  | name hs hn hh => exact .name hs hn (hhead hh)
  | blanks hs hn hh hne hsp => exact .blanks hs hn (hhead hh) (by simp [relocate, hne]) hsp
  | value hs hn hh hne hsp hv hl hst =>
    exact .value hs hn (hhead hh) (by simp [relocate, hne]) hsp hv hl
      (by simp [relocate, hst])
  | after hs hn hh hne hsp hv hl hst hen hsp' hne' =>
    exact .after hs hn (hhead hh) (by simp [relocate, hne]) hsp hv hl
      (by simp [relocate, hst])
      (by simp only [relocate, hen]; ring) hsp' hne'
  | almost hs hc hcrs hne =>
    obtain ⟨k, hst, hen, hv⟩ := hc.value
    refine .almost hs ⟨hc.field, hhead hc.head, by simp [relocate, hc.nameEnd], k, ?_, ?_,
      hv⟩ hcrs hne
    · simp [relocate, hst]
    · simp only [relocate, hen]
      ring
  | blank hs hb => exact .blank hs (by simp [relocate, hb])

def IsLine (line : Bytes) : Prop := ∃ n v, Line line n v

lemma IsLine.feed {line : Bytes} (h : IsLine line) : (10 : UInt8) ∉ line := by
  obtain ⟨n, v, text, crs, rfl, hf, hcrs⟩ := h
  intro hmem
  rcases List.mem_append.mp hmem with hmem | hmem
  · exact (hf.plain 10 hmem).2.1 rfl
  · exact absurd (hcrs 10 hmem) (by decide)

/-- Where the reading has got in the stream `S`: these lines are read, and of the next one the text
`t`, which stands behind `pre` in the buffer. -/
structure Inv (C : Config) (h : ℕ) (S : Bytes) (lines : List Bytes) (pre t : Bytes) (w : Reader) :
    Prop where
  stream : S = streamOf lines ++ (t ++ (w.headerIn.data.drop w.headerIn.pos ++ w.input))
  read : w.headerIn.data.take w.headerIn.pos = pre ++ t
  bound : w.headerIn.pos ≤ w.headerIn.data.length
  fits : w.headerIn.data.length ≤ w.headerIn.size
  feed : (10 : UInt8) ∉ t
  stands : Stands C.underscoresInHeaders (hashAfter C h lines) pre.length t w.r
  isLine : ∀ l ∈ lines, IsLine l
  entries : w.headers.entries = entriesOf C h lines
  parts : ∀ p ∈ w.headers.next, p ≠ []

section Steps

variable {C : Config} {h : ℕ} {S : Bytes} {lines : List Bytes} {pre t : Bytes} {w : Reader}

lemma Inv.pos_eq (hi : Inv C h S lines pre t w) : w.headerIn.pos = pre.length + t.length := by
  have := congrArg List.length hi.read
  rw [List.length_take, List.length_append, Nat.min_eq_left hi.bound] at this
  exact this

lemma Inv.slice_eq (hi : Inv C h S lines pre t w) :
    w.headerIn.slice pre.length w.headerIn.pos = t := by
  have hlen : ((w.headerIn.pos : ℤ) - (pre.length : ℤ)).toNat = t.length := by
    rw [hi.pos_eq]
    push_cast
    omega
  have htake := congrArg (List.drop pre.length) hi.read
  rw [List.drop_take, List.drop_left, hi.pos_eq, Nat.add_sub_cancel_left] at htake
  rw [Buf.slice, hlen, Int.toNat_natCast, htake]

lemma Inv.renew (hi : Inv C h S lines pre t w) (hfull : w.headerIn.pos = w.headerIn.size)
    (hroom : w.r.state ≠ .start → (w.headerIn.pos : ℤ) - w.r.headerNameStart < C.size) :
    Inv C h S lines [] t (w.renew C) := by
  have hnil : w.headerIn.data.drop w.headerIn.pos = [] := by
    apply List.drop_eq_nil_of_le
    have := hi.fits
    omega
  have hstream := hi.stream
  rw [hnil] at hstream
  rcases hi.stands with ⟨rfl, hs, hb⟩ | hr
  · rw [Reader.renew, if_pos hs]
    exact ⟨by simpa using hstream, rfl, le_rfl, Nat.zero_le _, hi.feed, .inl ⟨rfl, hs, hb⟩,
      hi.isLine, hi.entries, hi.parts⟩
  · have hstart := hr.nameStart
    have hlt := hroom hr.ne_start
    rw [hstart, hi.pos_eq] at hlt
    rw [Reader.renew, if_neg hr.ne_start, hstart]
    simp only [hi.slice_eq]
    refine ⟨by simpa using hstream, by simp, le_rfl, ?_, hi.feed, .inr (reads_relocate hr),
      hi.isLine, hi.entries, hi.parts⟩
    push_cast at hlt
    simp only
    omega

lemma Inv.receive (hi : Inv C h S lines pre t w) (x : Recv) :
    Inv C h S lines pre t (w.readRequestHeader x).1 := by
  unfold Reader.readRequestHeader
  split
  · exact hi
  rename_i hpos
  split
  · exact hi
  · exact ⟨hi.stream, hi.read, hi.bound, hi.fits, hi.feed, hi.stands, hi.isLine, hi.entries,
      hi.parts⟩
  rename_i n
  simp only
  split
  · exact hi
  have hend : w.headerIn.pos = w.headerIn.data.length := by
    have := hi.bound
    omega
  have hstream := hi.stream
  rw [hend, List.drop_length, List.nil_append] at hstream
  refine ⟨?_, ?_, ?_, ?_, hi.feed, hi.stands, hi.isLine, hi.entries, hi.parts⟩
  · simp only [hend, List.drop_left, List.take_append_drop]
    exact hstream
  · rw [← hi.read]
    simp only [hend, List.take_left, List.take_length]
  · simp only [List.length_append]
    omega
  · have := hi.fits
    simp only [List.length_append, List.length_take]
    omega

/-- The header is whole: lines, and a blank one behind them. -/
structure Whole (S : Bytes) (lines : List Bytes) (last rest : Bytes) : Prop where
  stream : S = streamOf lines ++ (last ++ 10 :: rest)
  isLine : ∀ l ∈ lines, IsLine l
  blank : Blank last

/-- The header is broken behind some lines. -/
structure Broken (S : Bytes) (lines : List Bytes) (t rest : Bytes) : Prop where
  stream : S = streamOf lines ++ (t ++ rest)
  isLine : ∀ l ∈ lines, IsLine l
  feed : (10 : UInt8) ∉ t
  bad : Bad t

/-- What the state says about the stream. -/
def Sound (C : Config) (h : ℕ) (S : Bytes) (w : Reader) : Prop :=
  match w.result with
  | some .done => ∃ lines last rest, Whole S lines last rest ∧
      w.headers.entries = entriesOf C h lines ∧ ∀ p ∈ w.headers.next, p ≠ []
  | some .invalid => ∃ lines t rest, Broken S lines t rest
  | _ => ∃ lines pre t, Inv C h S lines pre t w

/-- The bytes that have arrived and are not read, and those still to come. -/
def Reader.ahead (w : Reader) : ℕ :=
  (w.headerIn.data.drop w.headerIn.pos).length + w.input.length

def Reader.left (w : Reader) : ℕ := 2 * w.ahead + if w.rc = .again then 0 else 1

lemma fieldName_prefix (text : Bytes) : fieldName text <+: text := by
  cases text with
  | nil => exact List.prefix_rfl
  | cons c s => exact (List.prefix_cons_inj c).mpr (List.takeWhile_prefix _)

lemma entry_eq {a : Bool} {before : ℕ} {text crs n v rest : Bytes} {r : Parser} {b : Buf}
    (hdata : b.data = pre ++ (text ++ crs ++ rest)) (hc : Closed a before pre.length text n v r) :
    Reader.entry r b = ⟨hashName a before n, n, v⟩ := by
  have hkey : b.slice r.headerNameStart r.headerNameEnd = n := by
    have hlen : (((pre.length : ℤ) + n.length) - pre.length).toNat = n.length := by omega
    rw [Buf.slice, hc.head.nameStart, hc.nameEnd, hlen, Int.toNat_natCast, hdata, List.drop_left]
    refine (List.prefix_iff_eq_take.mp ?_).symm
    have hn := fieldName_prefix text
    rw [hc.field.name] at hn
    exact (hn.trans (List.prefix_append _ _)).trans (List.prefix_append _ _)
  have hvalue : b.slice r.headerStart r.headerEnd = v := by
    obtain ⟨k, hs, he, hv⟩ := hc.value
    have hlen : (((pre.length : ℤ) + k + v.length) - (pre.length + k)).toNat = v.length := by omega
    have hstart : ((pre.length : ℤ) + k).toNat = pre.length + k := by omega
    rw [Buf.slice, hs, he, hlen, hstart, hdata, List.drop_append, List.drop_eq_nil_of_le (by omega),
      List.nil_append, Nat.add_sub_cancel_left]
    have hle : v.length ≤ text.length - k := by
      have := congrArg List.length hv
      rw [List.length_take, List.length_drop] at this
      omega
    rw [List.append_assoc]
    by_cases hk : k ≤ text.length
    · rw [List.drop_append_of_le_length hk, List.take_append_of_le_length (by simpa using hle), hv]
    · have : v = [] := List.length_eq_zero_iff.mp (by omega)
      rw [this]
      rfl
  rw [Reader.entry, hkey, hvalue, hc.head.hash]

lemma Inv.next {u rest text crs n v : Bytes} {r : Parser}
    (hi : Inv C h S lines pre t w) (hs : w.headerIn.data.drop w.headerIn.pos = u ++ 10 :: rest)
    (ht : t ++ u = text ++ crs) (hcrs : ∀ c ∈ crs, c = 13)
    (hc : Closed C.underscoresInHeaders (hashAfter C h lines) pre.length text n v r)
    (hstart : r.state = .start) {headers : NgxList} (rc : Rc) (result : Option Result)
    (hentries : headers.entries = entriesOf C h (lines ++ [t ++ u]))
    (hparts : ∀ p ∈ headers.next, p ≠ []) :
    Inv C h S (lines ++ [t ++ u]) (pre ++ (t ++ u) ++ [10]) []
      { w with
        rc := rc, r := r, headers := headers, result := result
        headerIn := { w.headerIn with pos := pre.length + (t ++ u).length + 1 } } := by
  have hdata : w.headerIn.data = (pre ++ (t ++ u) ++ [10]) ++ rest := by
    rw [← List.take_append_drop w.headerIn.pos w.headerIn.data, hi.read, hs]
    simp
  have hlen : (pre ++ (t ++ u) ++ [10]).length = pre.length + (t ++ u).length + 1 := by
    simp only [List.length_append, List.length_singleton]
  have hline : IsLine (t ++ u) := ⟨n, v, text, crs, ht, hc.field, hcrs⟩
  have htext : textOf (t ++ u) = text := by rw [ht, textOf_eq hc.field hcrs]
  have hstream := hi.stream
  rw [hs] at hstream
  refine ⟨?_, ?_, ?_, hi.fits, List.not_mem_nil, .inl ⟨rfl, hstart, ?_⟩, ?_, hentries, hparts⟩
  · simp only
    rw [hdata, ← hlen, List.drop_left, hstream, ← streamOf_snoc]
    simp
  · simp only
    rw [hdata, ← hlen, List.take_left, List.append_nil]
  · simp only [hdata, List.length_append, List.length_singleton]
    omega
  · rw [hashAfter_snoc, htext, hc.field.name]
    exact hc.head.hash
  · intro l hl
    rcases List.mem_append.mp hl with hl | hl
    · exact hi.isLine l hl
    · rw [List.mem_singleton.mp hl]
      exact hline

/-- **A call of the parser** keeps what the state says, and what is left gets less. -/
lemma Inv.parse (hi : Inv C h S lines pre t w) (hres : w.result = none) :
    Sound C h S (w.parse C) ∧ ((w.parse C).result = none →
      (w.parse C).left <
        2 * w.ahead + if w.headerIn.data.drop w.headerIn.pos = [] then 1 else 0) := by
  have hpos : ((w.headerIn.pos : ℕ) : ℤ) = pre.length + t.length := by exact_mod_cast hi.pos_eq
  have hfound := parseLoop_found (w.headerIn.data.drop w.headerIn.pos) hi.stands
  rw [← hpos] at hfound
  obtain ⟨s, hs⟩ : ∃ s, w.headerIn.data.drop w.headerIn.pos = s := ⟨_, rfl⟩
  have hstream := hi.stream
  have hahead : w.ahead = s.length + w.input.length := by rw [Reader.ahead, hs]
  have hdata : w.headerIn.data = pre ++ (t ++ s) := by
    rw [← List.take_append_drop w.headerIn.pos w.headerIn.data, hi.read, hs]
    simp
  rw [hs] at hfound hstream ⊢
  unfold Reader.parse
  rw [hs]
  generalize parseLoop C.underscoresInHeaders s w.headerIn.pos w.r = out at hfound
  cases hfound with
  | @again r h10 hst =>
    have hlen : ((pre.length : ℤ) + ((t ++ s).length : ℤ)).toNat = w.headerIn.data.length := by
      simp only [hdata, List.length_append]
      omega
    simp only [hlen]
    refine ⟨?_, fun _ => ?_⟩
    · rw [Sound]
      simp only [hres]
      refine ⟨lines, pre, t ++ s, ⟨?_, ?_, le_rfl, hi.fits, ?_, hst, hi.isLine, hi.entries,
        hi.parts⟩⟩
      · simpa using hstream
      · simp only [List.take_length]
        exact hdata
      · intro hmem
        rcases List.mem_append.mp hmem with hmem | hmem
        · exact hi.feed hmem
        · exact h10 hmem
    · rw [Reader.left, if_pos rfl, Reader.ahead, hahead]
      simp only [List.drop_length, List.length_nil]
      split
      · omega
      · have := List.length_pos_iff.mpr ‹s ≠ []›
        omega
  | @ok u rest text crs n v r hu h10 ht hcrs hc hstart =>
    have hto : ((pre.length : ℤ) + ((t ++ u).length : ℤ) + 1).toNat =
        pre.length + (t ++ u).length + 1 := by omega
    have hleft : ∀ w' : Reader, w'.rc = .ok →
        w'.headerIn.data.drop w'.headerIn.pos = rest → w'.input = w.input →
        w'.left < 2 * w.ahead + if s = [] then 1 else 0 := by
      intro w' hrc hd hin
      have hne : s ≠ [] := by rw [hu]; simp
      have hlen := congrArg List.length hu
      rw [List.length_append, List.length_cons] at hlen
      rw [Reader.left, Reader.ahead, hd, hin, hrc, hahead, if_neg hne, if_neg (by decide)]
      omega
    have hrest : w.headerIn.data.drop (pre.length + (t ++ u).length + 1) = rest := by
      have hsplit : w.headerIn.data = (pre ++ (t ++ u) ++ [10]) ++ rest := by
        rw [hdata, hu]
        simp
      rw [hsplit, List.drop_left' (by simp; omega)]
    have htext : textOf (t ++ u) = text := by rw [ht, textOf_eq hc.field hcrs]
    have hentries := entriesOf_snoc C h lines (t ++ u)
    rw [entryOf, htext, hc.field.name, hc.field.value, ← hi.entries] at hentries
    simp only [hto]
    split
    · -- an invalid line is passed over
      rename_i hinv
      rw [Bool.and_eq_true, hc.head.invalid] at hinv
      rw [if_pos (by simp [hinv.1, hinv.2])] at hentries
      refine ⟨?_, fun _ => hleft _ rfl hrest rfl⟩
      rw [Sound]
      simp only [hres]
      exact ⟨_, _, _, hi.next (hs.trans hu) ht hcrs hc hstart .ok none
        (by rw [hentries, List.append_nil]) hi.parts⟩
    · rename_i hinv
      have hentry : Reader.entry r { w.headerIn with pos := pre.length + (t ++ u).length + 1 } =
          ⟨hashName C.underscoresInHeaders (hashAfter C h lines) n, n, v⟩ := by
        have hline : w.headerIn.data = pre ++ (text ++ crs ++ 10 :: rest) := by
          rw [hdata, hu, ← ht]
          simp
        exact entry_eq hline hc
      rw [if_neg] at hentries
      · have hnext : ∀ result, Inv C h S (lines ++ [t ++ u]) (pre ++ (t ++ u) ++ [10]) [] _ :=
          fun result => hi.next (hs.trans hu) ht hcrs hc hstart .ok result
            ((entries_push w.headers _).trans hentries.symm) (ne_nil_push hi.parts _)
        simp only [hentry]
        split
        · refine ⟨?_, fun _ => hleft _ rfl hrest rfl⟩
          rw [Sound]
          simp only [hres]
          exact ⟨_, _, _, hnext none⟩
        · refine ⟨?_, fun hne => by simp at hne⟩
          rw [Sound]
          exact ⟨_, _, _, hnext _⟩
      · rw [Bool.and_eq_true, hc.head.invalid] at hinv
        rw [Bool.and_eq_true]
        tauto
  | @headerDone u rest r hu hb =>
    refine ⟨?_, fun hne => by simp at hne⟩
    rw [Sound]
    refine ⟨lines, t ++ u, rest ++ w.input, ⟨?_, hi.isLine, hb⟩, hi.entries, hi.parts⟩
    rw [hstream, hu]
    simp
  | @invalid u rest p r hu h10 hb =>
    refine ⟨?_, fun hne => by simp at hne⟩
    rw [Sound]
    refine ⟨lines, t ++ u, rest ++ w.input, ⟨?_, hi.isLine, ?_, hb⟩⟩
    · rw [hstream, hu]
      simp
    · intro hmem
      rcases List.mem_append.mp hmem with hmem | hmem
      · exact hi.feed hmem
      · exact h10 hmem

lemma Inv.congr (hi : Inv C h S lines pre t w) (nfree nbusy : ℕ) (result : Option Result) :
    Inv C h S lines pre t { w with nfree := nfree, nbusy := nbusy, result := result } :=
  ⟨hi.stream, hi.read, hi.bound, hi.fits, hi.feed, hi.stands, hi.isLine, hi.entries, hi.parts⟩

lemma renew_frame (C : Config) (w : Reader) : (w.renew C).result = w.result ∧
    (w.renew C).rc = w.rc ∧ (w.renew C).input = w.input := by
  unfold Reader.renew
  split
  · exact ⟨rfl, rfl, rfl⟩
  · exact ⟨rfl, rfl, rfl⟩

lemma alloc_cases {w' : Reader} (hi : Inv C h S lines pre t w)
    (ha : (if w.headerIn.pos = w.headerIn.size then w.allocLargeHeaderBuffer C else some w) =
      some w') :
    (∃ pre', Inv C h S lines pre' t w') ∧ w'.result = w.result ∧ w'.rc = w.rc ∧
      w'.ahead = w.ahead ∧ (0 < C.size → w'.headerIn.pos < w'.headerIn.size) := by
  split at ha
  swap
  · rename_i hne
    obtain rfl := Option.some.inj ha
    have h1 := hi.bound
    have h2 := hi.fits
    exact ⟨⟨pre, hi⟩, rfl, rfl, rfl, fun _ => by omega⟩
  rename_i hfull
  unfold Reader.allocLargeHeaderBuffer at ha
  split at ha
  · cases ha
  rename_i hroom
  have hroom : w.r.state ≠ .start → (w.headerIn.pos : ℤ) - w.r.headerNameStart < C.size := by
    intro hs
    by_contra hle
    exact hroom ⟨hs, by omega⟩
  have hnew := hi.renew hfull hroom
  obtain ⟨h1, h2, h3⟩ := renew_frame C w
  have hnil : w.headerIn.data.drop w.headerIn.pos = [] := by
    apply List.drop_eq_nil_of_le
    have := hi.fits
    omega
  have hahead : (w.renew C).ahead = w.ahead ∧
      (0 < C.size → (w.renew C).headerIn.pos < (w.renew C).headerIn.size) := by
    rw [Reader.ahead, Reader.ahead, h3, hnil]
    unfold Reader.renew
    split
    · exact ⟨rfl, id⟩
    · rename_i hs
      have := hroom hs
      refine ⟨by simp, fun _ => ?_⟩
      simp only [Buf.slice, List.length_take]
      omega
  split at ha
  · obtain rfl := Option.some.inj ha
    exact ⟨⟨[], hnew.congr _ _ _⟩, h1, h2, hahead.1, hahead.2⟩
  split at ha
  · obtain rfl := Option.some.inj ha
    exact ⟨⟨[], hnew.congr _ _ _⟩, h1, h2, hahead.1, hahead.2⟩
  · cases ha

lemma receive_frame (hi : Inv C h S lines pre t w) (x : Recv) :
    ((w.readRequestHeader x).1.result = w.result ∨
        (w.readRequestHeader x).1.result = some .closed) ∧
      (w.readRequestHeader x).1.rc = w.rc ∧ (w.readRequestHeader x).1.ahead = w.ahead ∧
      ((w.readRequestHeader x).2 = true → (w.readRequestHeader x).1.result = w.result ∧
        (w.readRequestHeader x).1.headerIn.data.drop (w.readRequestHeader x).1.headerIn.pos ≠ []) ∧
      (w.headerIn.pos < w.headerIn.size → w.ahead ≠ 0 → ∀ n, x = .bytes n →
        (w.readRequestHeader x).2 = true) := by
  unfold Reader.readRequestHeader
  split
  · rename_i hlt
    refine ⟨.inl rfl, rfl, rfl, fun _ => ⟨rfl, ?_⟩, fun _ _ _ _ => rfl⟩
    simpa using hlt
  rename_i hnlt
  have hend : w.headerIn.pos = w.headerIn.data.length := by
    have := hi.bound
    omega
  split
  · exact ⟨.inl rfl, rfl, rfl, fun hf => Bool.noConfusion hf, fun _ _ n hx => by cases hx⟩
  · exact ⟨.inr rfl, rfl, rfl, fun hf => Bool.noConfusion hf, fun _ _ n hx => by cases hx⟩
  rename_i n
  simp only
  split
  · rename_i hnil
    refine ⟨.inl rfl, rfl, rfl, fun hf => Bool.noConfusion hf, fun hlt hne => ?_⟩
    exfalso
    rw [Reader.ahead, hend, List.drop_length, List.length_nil, zero_add] at hne
    rcases List.take_eq_nil_iff.mp hnil with hk | hin
    · omega
    · exact hne (by rw [hin]; rfl)
  · rename_i hne
    refine ⟨.inl rfl, rfl, ?_, fun _ => ⟨rfl, ?_⟩, fun _ _ _ _ => rfl⟩
    · simp only [Reader.ahead, hend, List.drop_left, List.drop_length, List.length_nil]
      rw [← List.length_append, List.take_append_drop, zero_add]
    · simpa only [hend, List.drop_left] using hne

/-- **One round**: what the state says stays true, and where there are bytes it comes nearer to its
end. -/
lemma Inv.step (hi : Inv C h S lines pre t w) (hres : w.result = none) (x : Recv) :
    Sound C h S (w.step C x) ∧ ((w.step C x).result = none → (w.step C x).left ≤ w.left ∧
      (0 < C.size → w.ahead ≠ 0 → ∀ n, x = .bytes n → (w.step C x).left < w.left)) := by
  unfold Reader.step
  rw [if_neg (not_not.mpr hres)]
  split
  swap
  · -- the line before has been read, and there may be more
    rename_i hrc
    obtain ⟨hs, hl⟩ := hi.parse hres
    refine ⟨hs, fun hn => ?_⟩
    have hlt : (w.parse C).left < w.left := by
      have hleft : w.left = 2 * w.ahead + 1 := by rw [Reader.left, if_neg hrc]
      have := hl hn
      rw [hleft]
      split at this <;> omega
    exact ⟨hlt.le, fun _ _ _ _ => hlt⟩
  rename_i hrc
  have hleft : w.left = 2 * w.ahead := by rw [Reader.left, if_pos hrc, add_zero]
  split
  · refine ⟨?_, fun hn => by simp at hn⟩
    rw [Sound]
    exact ⟨lines, pre, t, hi.congr _ _ _⟩
  rename_i w' ha
  obtain ⟨⟨pre', hi'⟩, hres', hrc', hahead, hroom⟩ := alloc_cases hi ha
  have hrecv := hi'.receive x
  obtain ⟨hclosed, hrc'', hahead', hgo, hbytes⟩ := receive_frame hi' x
  split
  · rename_i w'' heq
    rw [heq] at hrecv hrc'' hahead' hgo
    obtain ⟨hres'', hne⟩ := hgo rfl
    obtain ⟨hs, hl⟩ := hrecv.parse (hres''.trans (hres'.trans hres))
    refine ⟨hs, fun hn => ?_⟩
    have hlt : (w''.parse C).left < w.left := by
      have := hl hn
      rw [if_neg hne, add_zero] at this
      rwa [hleft, ← hahead, ← hahead']
    exact ⟨hlt.le, fun _ _ _ _ => hlt⟩
  · rename_i w'' heq
    rw [heq] at hrecv hclosed hrc'' hahead' hbytes
    refine ⟨?_, fun hn => ⟨?_, fun hC hne n hx => ?_⟩⟩
    · rw [Sound]
      rcases hclosed with hnone | hclosed
      · rw [hnone, hres', hres]
        exact ⟨lines, pre', t, hrecv⟩
      · rw [hclosed]
        exact ⟨lines, pre', t, hrecv⟩
    · rw [hleft, Reader.left, hrc'', hrc', if_pos hrc, add_zero, hahead', hahead]
    · exact Bool.noConfusion (hbytes (hroom hC) (hahead ▸ hne) n hx)

end Steps

end NgxMapping.HeaderRead
