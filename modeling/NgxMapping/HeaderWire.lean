import NgxMapping.HeaderRead

/-!
Requests on the wire: what is accepted as a header, and what the handlers find of it.

The reading of a header is followed from the first round to the last. A header is whole when it
is lines with a blank line behind them; it has one reading, and that is the one the parser gives
to it. `copy_headers` then makes the entries a map.
-/

namespace NgxMapping.HeaderWire

open Lib HeaderLine CopyHeaders HeaderRead

/-! ### Runs -/

/-- The header is about to be read: the request line has left the buffer as it is. -/
structure Fresh (w : Reader) : Prop where
  state : w.r.state = .start
  rc : w.rc = .again
  result : w.result = none
  headers : w.headers = ⟨[], []⟩
  bound : w.headerIn.pos ≤ w.headerIn.data.length
  fits : w.headerIn.data.length ≤ w.headerIn.size

/-- What is in the buffer and what is still to come. -/
def stream (w : Reader) : Bytes := w.headerIn.data.drop w.headerIn.pos ++ w.input

section Runs

variable {C : Config} {w₀ : Reader}

lemma Fresh.inv (C : Config) (hw : Fresh w₀) :
    HeaderRead.Inv C w₀.r.headerHash (stream w₀) [] (w₀.headerIn.data.take w₀.headerIn.pos) []
      w₀ where
  stream := rfl
  read := (List.append_nil _).symm
  bound := hw.bound
  fits := hw.fits
  feed := List.not_mem_nil
  stands := .inl ⟨rfl, hw.state, rfl⟩
  isLine _ hl := absurd hl List.not_mem_nil
  entries := by rw [hw.headers]; rfl
  parts _ hp := by rw [hw.headers] at hp; cases hp

lemma run_snoc (w : Reader) (xs : List Recv) (x : Recv) :
    w.run C (xs ++ [x]) = (w.run C xs).step C x := by
  rw [Reader.run, List.foldl_append]
  rfl

lemma step_of_result {w : Reader} (h : w.result ≠ none) (x : Recv) : w.step C x = w := by
  rw [Reader.step, if_pos h]

lemma sound_run (hw : Fresh w₀) (xs : List Recv) :
    Sound C w₀.r.headerHash (stream w₀) (w₀.run C xs) := by
  induction xs using List.reverseRecOn with
  | nil =>
    rw [Sound, Reader.run, List.foldl_nil, hw.result]
    exact ⟨_, _, _, hw.inv C⟩
  | append_singleton xs x ih =>
    rw [run_snoc]
    by_cases hres : (w₀.run C xs).result = none
    · rw [Sound, hres] at ih
      obtain ⟨lines, pre, t, hi⟩ := ih
      exact (hi.step hres x).1
    · rwa [step_of_result hres]

lemma split_feed {l l' x x' : Bytes} (hl : (10 : UInt8) ∉ l) (hl' : (10 : UInt8) ∉ l')
    (h : l ++ 10 :: x = l' ++ 10 :: x') : l = l' ∧ x = x' := by
  have htake : ∀ {l : Bytes} (x : Bytes), (10 : UInt8) ∉ l →
      (l ++ 10 :: x).takeWhile (· ≠ 10) = l := by
    intro l x hl
    rw [List.takeWhile_append_of_pos, List.takeWhile_cons_of_neg (by simp), List.append_nil]
    intro c hc
    simpa using fun he : c = 10 => hl (he ▸ hc)
  have hll : l = l' := by rw [← htake x hl, h, htake x' hl']
  subst hll
  exact ⟨rfl, (List.cons.inj (List.append_cancel_left h)).2⟩

lemma blank_feed {b : Bytes} (h : Blank b) : (10 : UInt8) ∉ b := by
  rcases h with rfl | rfl
  · exact List.not_mem_nil
  · decide

lemma not_blank {l : Bytes} (h : IsLine l) : ¬ Blank l := by
  obtain ⟨n, v, text, crs, rfl, hf, -⟩ := h
  obtain ⟨c, text, rfl⟩ := List.exists_cons_of_ne_nil hf.ne_nil
  rintro (he | he)
  · simp at he
  · exact (hf.plain c List.mem_cons_self).2.2 (List.cons.inj he).1

lemma whole_split {S : Bytes} {lines ls : List Bytes} {last rest x : Bytes}
    (hw : Whole S lines last rest) (hs : S = streamOf ls ++ x) (hl : ∀ l ∈ ls, IsLine l) :
    ∃ more, lines = ls ++ more ∧ x = streamOf more ++ (last ++ 10 :: rest) := by
  induction ls generalizing S lines with
  | nil => exact ⟨lines, rfl, by rw [← hw.stream, hs]; rfl⟩
  | cons l ls ih =>
    have hs : S = l ++ 10 :: (streamOf ls ++ x) := by rw [hs]; simp [streamOf]
    have hline := hl l List.mem_cons_self
    have hstream := hw.stream
    rw [hs] at hstream
    cases lines with
    | nil =>
      obtain ⟨rfl, -⟩ := split_feed hline.feed (blank_feed hw.blank) hstream
      exact absurd hw.blank (not_blank hline)
    | cons m lines =>
      have hm : streamOf (m :: lines) ++ (last ++ 10 :: rest) =
          m ++ 10 :: (streamOf lines ++ (last ++ 10 :: rest)) := by simp [streamOf]
      rw [hm] at hstream
      obtain ⟨rfl, hrest⟩ :=
        split_feed hline.feed (hw.isLine m List.mem_cons_self).feed hstream
      obtain ⟨more, rfl, hx⟩ := ih
        ⟨hrest, fun k hk => hw.isLine k (List.mem_cons_of_mem _ hk), hw.blank⟩ rfl
        fun k hk => hl k (List.mem_cons_of_mem _ hk)
      exact ⟨more, rfl, hx⟩

lemma whole_unique {S : Bytes} {lines lines' : List Bytes} {last last' rest rest' : Bytes}
    (hw : Whole S lines last rest) (hw' : Whole S lines' last' rest') : lines = lines' := by
  obtain ⟨more, rfl, hx⟩ := whole_split hw hw'.stream hw'.isLine
  cases more with
  | nil => rw [List.append_nil]
  | cons m more =>
    have hm : streamOf (m :: more) ++ (last ++ 10 :: rest) =
        m ++ 10 :: (streamOf more ++ (last ++ 10 :: rest)) := by simp [streamOf]
    have hline := hw.isLine m (by simp)
    rw [hm] at hx
    obtain ⟨rfl, -⟩ := split_feed (blank_feed hw'.blank) hline.feed hx
    exact absurd hw'.blank (not_blank hline)

lemma whole_not_broken {S : Bytes} {lines ls : List Bytes} {last rest t x : Bytes}
    (hw : Whole S lines last rest) : ¬ Broken S ls t x := by
  intro hb
  obtain ⟨more, rfl, hx⟩ := whole_split hw hb.stream hb.isLine
  -- what is bad begins a line that is none
  have hprefix : ∀ {l y : Bytes}, t ++ x = l ++ 10 :: y → ∃ s, t ++ s = l := by
    intro l y he
    rcases List.append_eq_append_iff.mp he with ⟨s, hl, -⟩ | ⟨s, ht, hs⟩
    · exact ⟨s, hl.symm⟩
    · cases s with
      | nil => exact ⟨[], by rw [ht, List.append_nil, List.append_nil]⟩
      | cons c s =>
        obtain rfl := (List.cons.inj hs).1
        exact absurd (by rw [ht]; simp) hb.feed
  cases more with
  | nil =>
    obtain ⟨s, hs⟩ := hprefix hx
    exact (hb.bad s).2 (hs ▸ hw.blank)
  | cons m more =>
    have hm : streamOf (m :: more) ++ (last ++ 10 :: rest) =
        m ++ 10 :: (streamOf more ++ (last ++ 10 :: rest)) := by simp [streamOf]
    rw [hm] at hx
    obtain ⟨s, hs⟩ := hprefix hx
    obtain ⟨n, v, hl⟩ := hw.isLine m (by simp)
    exact (hb.bad s).1 n v (hs ▸ hl)

lemma whole_ahead {S : Bytes} {lines ls : List Bytes} {last rest pre t : Bytes} {h : ℕ}
    {w : Reader} (hw : Whole S lines last rest) (hi : HeaderRead.Inv C h S ls pre t w) :
    w.ahead ≠ 0 := by
  intro h0
  obtain ⟨more, -, hx⟩ := whole_split hw hi.stream hi.isLine
  rw [Reader.ahead, Nat.add_eq_zero_iff] at h0
  rw [List.length_eq_zero_iff.mp h0.1, List.length_eq_zero_iff.mp h0.2, List.append_nil,
    List.append_nil] at hx
  exact hi.feed (by rw [hx]; simp)

def isBytes : Recv → Bool
  | .bytes _ => true
  | _ => false

lemma left_run (hC : 0 < C.size) (hw : Fresh w₀) {lines : List Bytes} {last rest : Bytes}
    (hS : Whole (stream w₀) lines last rest) (xs : List Recv) (hres : (w₀.run C xs).result = none) :
    (w₀.run C xs).left + xs.countP isBytes ≤ w₀.left := by
  induction xs using List.reverseRecOn with
  | nil => exact le_rfl
  | append_singleton xs x ih =>
    rw [run_snoc] at hres ⊢
    have hnone : (w₀.run C xs).result = none := by
      by_contra hne
      rw [step_of_result hne] at hres
      exact hne hres
    have ih := ih hnone
    have hs := sound_run (C := C) hw xs
    rw [Sound, hnone] at hs
    obtain ⟨ls, pre, t, hi⟩ := hs
    obtain ⟨hle, hlt⟩ := (hi.step hnone x).2 hres
    rw [List.countP_append, List.countP_singleton]
    cases x with
    | bytes n =>
      have := hlt hC (whole_ahead hS hi) n rfl
      simp only [isBytes, if_true]
      omega
    | again =>
      simp only [isBytes, Bool.false_eq_true, if_false]
      omega
    | closed =>
      simp only [isBytes, Bool.false_eq_true, if_false]
      omega

end Runs

/-- **The header that is read is the header that was sent.** Into whatever pieces the bytes are
cut and however often the buffer changes under the parser: what is accepted is lines and a blank
line behind them, whose names and values are the entries of the list; such a header is never taken
for an invalid one; and the reading of it comes to an end after a bounded number of rounds that
bring bytes. -/
theorem header_read (C : Config) (w₀ : Reader) (hw : Fresh w₀) (xs : List Recv) :
    ((w₀.run C xs).result = some .done → ∃ lines last rest, Whole (stream w₀) lines last rest ∧
      ∀ p ∈ (w₀.run C xs).headers.next, p ≠ []) ∧
    ∀ lines last rest, Whole (stream w₀) lines last rest →
      (w₀.run C xs).result ≠ some .invalid ∧
      ((w₀.run C xs).result = some .done →
        (w₀.run C xs).headers.entries = entriesOf C w₀.r.headerHash lines) ∧
      (0 < C.size → 2 * (stream w₀).length < xs.countP isBytes →
        (w₀.run C xs).result ≠ none) := by
  have hs := sound_run (C := C) hw xs
  refine ⟨fun hdone => ?_, fun lines last rest hS => ⟨fun hbad => ?_, fun hdone => ?_, ?_⟩⟩
  · rw [Sound, hdone] at hs
    obtain ⟨lines, last, rest, hS, -, hparts⟩ := hs
    exact ⟨lines, last, rest, hS, hparts⟩
  · rw [Sound, hbad] at hs
    obtain ⟨ls, t, x, hb⟩ := hs
    exact whole_not_broken hS hb
  · rw [Sound, hdone] at hs
    obtain ⟨ls, last', rest', hS', he, -⟩ := hs
    rw [he, whole_unique hS hS']
  · intro hC hmany hnone
    have hleft := left_run hC hw hS xs hnone
    have hstart : w₀.left = 2 * (stream w₀).length := by
      rw [Reader.left, if_pos hw.rc, Reader.ahead, stream, List.length_append, add_zero]
    omega

/-- A header of two lines that is cut in the middle of both, with a buffer for six bytes at
first. -/
def sampleReader : Reader where
  headerIn := ⟨[], 0, 6⟩
  input := lit "Host: a\r\nCookie:  a=1 \r\n\r\n"

def sampleConfig : Config where
  num := 4
  size := 24
  handler _ _ := true

theorem header_read_sample :
    (sampleReader.run sampleConfig (List.replicate 61 (.bytes 3))).result = some .done ∧
      ((sampleReader.run sampleConfig (List.replicate 61 (.bytes 3))).headers.entries.map
        fun e => (e.key, e.value)) = [(lit "Host", lit "a"), (lit "Cookie", lit "a=1")] := by
  have hfresh : Fresh sampleReader := ⟨rfl, rfl, rfl, rfl, by decide, by decide⟩
  have hline : ∀ l ∈ [lit "Host: a\r", lit "Cookie:  a=1 \r"], IsLine l := by
    intro l hl
    refine ⟨fieldName (textOf l), fieldValue (textOf l), textOf l, [13], ?_, ⟨?_, ?_, rfl, rfl⟩,
      by simp⟩
    · revert l
      decide +kernel
    · revert l
      decide +kernel
    · revert l
      decide +kernel
  have hS : Whole (stream sampleReader) [lit "Host: a\r", lit "Cookie:  a=1 \r"] [13] [] :=
    ⟨by decide +kernel, hline, .inr rfl⟩
  have hdone : (sampleReader.run sampleConfig (List.replicate 61 (.bytes 3))).result =
      some .done := by decide +kernel
  refine ⟨hdone, ?_⟩
  rw [((header_read sampleConfig sampleReader hfresh _).2 _ _ _ hS).2.1 hdone]
  decide +kernel

/-! ### What the handlers see -/

def fieldOf (line : Bytes) : Bytes × Bytes := (fieldName (textOf line), fieldValue (textOf line))

lemma plain_of_isLine {line : Bytes} (h : IsLine line) :
    ∀ c ∈ (fieldOf line).2, c ≠ 0 ∧ c ≠ 10 ∧ c ≠ 13 := by
  obtain ⟨n, v, text, crs, rfl, hf, hcrs⟩ := h
  have hsub : fieldValue text ⊆ text := fun c hc =>
    List.mem_of_mem_drop ((List.dropWhile_suffix _).subset ((List.rdropWhile_prefix _ _).subset hc))
  rw [fieldOf, textOf_eq hf hcrs]
  exact fun c hc => hf.plain c (hsub hc)

lemma hashName_valid {a : Bool} {n : Bytes} (hne : n ≠ []) (hv : n.all (nameOk a) = true)
    (h h' : ℕ) : hashName a h n = hashName a h' n := by
  obtain ⟨c, s, rfl⟩ := List.exists_cons_of_ne_nil hne
  rw [List.all_cons, Bool.and_eq_true] at hv
  rw [hashName, hashName, if_pos hv.1, if_pos hv.1]

/-- The live entries, as names and values. -/
def liveOf (es : List TableElt) : List (Bytes × Bytes) :=
  (es.filter fun e => e.hash ≠ 0).map fun e => (e.key, e.value)

section Name

variable {C : Config} {name : Bytes} (hne : name ≠ [])
  (hv : name.all (nameOk C.underscoresInHeaders) = true)
  (hh : hashName C.underscoresInHeaders 0 name ≠ 0)

include hne hv hh

lemma filter_entryOf (h : ℕ) (l : Bytes) :
    (liveOf (entryOf C h l)).filter (fun e => e.1 = name) =
      [fieldOf l].filter fun e => e.1 = name := by
  by_cases hname : fieldName (textOf l) = name
  · have hhash : hashName C.underscoresInHeaders h name ≠ 0 := by rwa [hashName_valid hne hv h 0]
    rw [entryOf, hname, hv, if_neg (by simp)]
    simp [liveOf, hhash, fieldOf, hname]
  · have hnone : ∀ e ∈ liveOf (entryOf C h l), e.1 ≠ name := by
      intro e he
      obtain ⟨x, hx, rfl⟩ := List.mem_map.mp he
      have hx := List.mem_of_mem_filter hx
      unfold entryOf at hx
      split at hx
      · cases hx
      · rw [List.mem_singleton.mp hx]
        exact hname
    rw [List.filter_eq_nil_iff.mpr fun e he => by simpa using hnone e he]
    simp [fieldOf, hname]

lemma filter_entriesOf (h : ℕ) (lines : List Bytes) :
    (liveOf (entriesOf C h lines)).filter (fun e => e.1 = name) =
      (lines.map fieldOf).filter fun e => e.1 = name := by
  induction lines generalizing h with
  | nil => rfl
  | cons l lines ih =>
    have hsplit : liveOf (entriesOf C h (l :: lines)) = liveOf (entryOf C h l) ++
        liveOf (entriesOf C (hashName C.underscoresInHeaders h (fieldName (textOf l))) lines) := by
      rw [entriesOf, liveOf, List.filter_append, List.map_append]
      rfl
    rw [hsplit, List.filter_append, filter_entryOf hne hv hh, ih, ← List.filter_append]
    rfl

end Name

/-- **A header is what its last line on the wire says.** For every valid name whose hash is not
zero, after `copy_headers` the handlers find the value of the last line of the name, and no zero,
line feed or carriage return in it, into whatever pieces the bytes were cut. -/
theorem getHeader_wire (C : Config) (w₀ : Reader) (hw : Fresh w₀) (xs : List Recv)
    (hdone : (w₀.run C xs).result = some .done) :
    ∃ lines last rest, Whole (stream w₀) lines last rest ∧
      ∃ req, Request.copyHeaders {} (w₀.run C xs).headers = some req ∧
        ∀ name ≠ [], name.all (nameOk C.underscoresInHeaders) = true →
          hashName C.underscoresInHeaders 0 name ≠ 0 →
          req.getHeader name = (HttpRequest.lastValue name (lines.map fieldOf)).getD [] ∧
            ∀ c ∈ req.getHeader name, c ≠ 0 ∧ c ≠ 10 ∧ c ≠ 13 := by
  have hs := sound_run (C := C) hw xs
  rw [Sound, hdone] at hs
  obtain ⟨lines, last, rest, hS, hentries, hparts⟩ := hs
  have hcopy : Request.copyHeaders {} (w₀.run C xs).headers =
      some { headers := (w₀.run C xs).headers.entries.foldl store UMap.empty } := by
    rw [Request.copyHeaders, copyLoop_eq _ hparts (by simp [NgxList.entries])]
    rfl
  refine ⟨lines, last, rest, hS, _, hcopy, fun name hne hv hh => ?_⟩
  have hget : HttpRequest.lastValue name (liveOf (w₀.run C xs).headers.entries) =
      HttpRequest.lastValue name (lines.map fieldOf) := by
    rw [HttpRequest.lastValue, hentries, filter_entriesOf hne hv hh]
    rfl
  have hheader : HttpRequest.Request.getHeader
      { headers := (w₀.run C xs).headers.entries.foldl store UMap.empty } name =
      (HttpRequest.lastValue name (lines.map fieldOf)).getD [] := by
    rw [HttpRequest.Request.getHeader, find_foldl_store, UMap.find_empty, Option.or_none, ← hget]
    rfl
  refine ⟨hheader, ?_⟩
  rw [hheader]
  intro c hc
  cases hl : HttpRequest.lastValue name (lines.map fieldOf) with
  | none =>
    rw [hl] at hc
    cases hc
  | some v =>
    rw [hl] at hc
    obtain ⟨p, hp, rfl⟩ := Option.map_eq_some_iff.mp hl
    have hmem := List.mem_of_mem_filter (List.mem_of_getLast? hp)
    obtain ⟨l, hline, rfl⟩ := List.mem_map.mp hmem
    exact plain_of_isLine (hS.isLine l hline) c hc

theorem getHeader_wire_sample :
    ∃ req, Request.copyHeaders {} (sampleReader.run sampleConfig
        (List.replicate 40 (.bytes 2))).headers = some req ∧
      ∀ c ∈ req.getHeader (lit "Cookie"), c ≠ 0 ∧ c ≠ 10 ∧ c ≠ 13 := by
  have hfresh : Fresh sampleReader := ⟨rfl, rfl, rfl, rfl, by decide, by decide⟩
  obtain ⟨lines, last, rest, -, req, hreq, hget⟩ := getHeader_wire sampleConfig sampleReader hfresh
    (List.replicate 40 (.bytes 2)) (by decide +kernel)
  exact ⟨req, hreq, (hget (lit "Cookie") (by decide) (by decide +kernel) (by decide +kernel)).2⟩

end NgxMapping.HeaderWire
