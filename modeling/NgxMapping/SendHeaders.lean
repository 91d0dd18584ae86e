import NgxMapping.Browser

/-!
`httpd::response::send_headers`: what the calls of `add_header` become in nginx's list.

The map of the headers is walked in an order of its own, then come the cookies. Every text is
copied into the pool of the request by `strcpy`, which stops at a zero byte, while its length is
that of the whole text.
-/

namespace NgxMapping.SendHeaders

open Lib HttpRequest HttpResponse Browser

/-- `ngx_copy_string` into memory with the contents `mem`, as far as the length of the text:
nothing is copied behind a zero byte. -/
def ngxCopyString (mem : ℕ → UInt8) (src : Bytes) : Bytes :=
  src.mapIdx fun i c => if (0 : UInt8) ∈ src.take i then mem i else c

/-- The entry `ngx_header` pushes; every copy finds other contents in the pool. -/
def ngxHeader (pool : ℕ → ℕ → UInt8) (n : ℕ) (header : Bytes × Bytes) : Bytes × Bytes :=
  (ngxCopyString (pool (2 * n)) header.1, ngxCopyString (pool (2 * n + 1)) header.2)

/-- The entries `send_headers` pushes when the map is walked in the order given. The pointers
that eleven of the names get in addition do not change the list. -/
def sendHeaders (pool : ℕ → ℕ → UInt8) (order : List (Bytes × Bytes)) (r : Response) :
    List (Bytes × Bytes) :=
  (order ++ r.cookies.map fun c => (lit "Set-Cookie", c)).mapIdx (ngxHeader pool)

/-- A new response after the calls of `add_header`. -/
def filled (calls : List (Bytes × Bytes)) : Response :=
  calls.foldl (fun r c => r.addHeader c.1 c.2) {}

def valuesOf (name : Bytes) (l : List (Bytes × Bytes)) : List Bytes :=
  (l.filter fun e => e.1 = name).map Prod.snd

/-- The list says what was called for: every cookie once and in order, every other header but
the content type once and with its last value. -/
structure Faithful (calls pushed : List (Bytes × Bytes)) : Prop where
  cookies : valuesOf (lit "Set-Cookie") pushed = valuesOf (lit "Set-Cookie") calls
  others : ∀ name, name ≠ lit "Set-Cookie" → name ≠ lit "Content-Type" →
    valuesOf name pushed = (lastValue name calls).toList
  mime : valuesOf (lit "Content-Type") pushed = []

lemma valuesOf_append (name : Bytes) (l l' : List (Bytes × Bytes)) :
    valuesOf name (l ++ l') = valuesOf name l ++ valuesOf name l' := by
  rw [valuesOf, List.filter_append, List.map_append]
  rfl

lemma valuesOf_cookies (cs : List Bytes) :
    valuesOf (lit "Set-Cookie") (cs.map fun c => (lit "Set-Cookie", c)) = cs := by
  rw [valuesOf, List.filter_eq_self.mpr (by simp), List.map_map]
  exact List.map_id _

lemma valuesOf_eq_nil {name : Bytes} {l : List (Bytes × Bytes)} (h : ∀ v, (name, v) ∉ l) :
    valuesOf name l = [] := by
  rw [valuesOf, List.filter_eq_nil_iff.mpr]
  · rfl
  · intro e he hn
    have hn : e.1 = name := by simpa using hn
    exact h e.2 (hn ▸ he)

lemma lastValue_eq (name : Bytes) (l : List (Bytes × Bytes)) :
    lastValue name l = (valuesOf name l).getLast? := by
  rw [lastValue, valuesOf, List.getLast?_map]

/-! ### The containers -/

lemma filled_snoc (calls : List (Bytes × Bytes)) (c : Bytes × Bytes) :
    filled (calls ++ [c]) = (filled calls).addHeader c.1 c.2 := by
  rw [filled, List.foldl_append]
  rfl

lemma headers_addHeader (r : Response) (h v name : Bytes) :
    (r.addHeader h v).headers.find name =
      if h = lit "Content-Type" then r.headers.find name
      else if name = h then some v else r.headers.find name := by
  unfold Response.addHeader
  dsimp only
  by_cases hc : h = lit "Content-Type"
  · rw [if_pos hc, if_pos hc]
    split <;> rfl
  · rw [if_neg hc, if_neg hc, UMap.find_insert]
    by_cases hn : name = h
    · rw [if_pos hn, if_pos hn]
    · rw [if_neg hn, if_neg hn]
      split <;> rfl

lemma find_filled (calls : List (Bytes × Bytes)) (name : Bytes) :
    (filled calls).headers.find name =
      if name = lit "Content-Type" then none else lastValue name calls := by
  induction calls using List.reverseRecOn with
  | nil => simp [filled, lastValue]
  | append_singleton calls c ih =>
    rw [filled_snoc, headers_addHeader, ih, lastValue_snoc]
    by_cases hn : name = lit "Content-Type"
    · subst hn
      by_cases hc : c.1 = lit "Content-Type" <;> simp [hc, eq_comm]
    · by_cases hc : c.1 = lit "Content-Type"
      · simp [hn, hc, Ne.symm hn]
      · simp [hn, hc, eq_comm]

lemma cookies_filled (calls : List (Bytes × Bytes)) :
    (filled calls).cookies = valuesOf (lit "Set-Cookie") calls := by
  induction calls using List.reverseRecOn with
  | nil => rfl
  | append_singleton calls c ih =>
    rw [filled_snoc, cookies_addHeader, ih, valuesOf_append]
    by_cases hc : c.1 = lit "Set-Cookie" <;> simp [hc, valuesOf]

/-! ### The copies -/

/-- No byte stands behind a zero byte. -/
def Intact (s : Bytes) : Prop := (0 : UInt8) ∉ s.dropLast

instance (s : Bytes) : Decidable (Intact s) := inferInstanceAs (Decidable (_ ∉ _))

lemma ngxCopyString_intact (mem : ℕ → UInt8) {s : Bytes} (h : Intact s) :
    ngxCopyString mem s = s := by
  refine List.ext_getElem (by simp [ngxCopyString]) fun i h1 h2 => ?_
  have hno : (0 : UInt8) ∉ s.take i := by
    intro hmem
    apply h
    rw [List.dropLast_eq_take]
    exact (List.take_prefix_take_left (by omega)).subset hmem
  simp [ngxCopyString, hno]

/-- A text with a byte behind a zero byte is never a copy where the memory holds another byte. -/
lemma ngxCopyString_ne {s : Bytes} (h : ¬ Intact s) :
    ∃ b : UInt8, ∀ src, ngxCopyString (fun _ => b) src ≠ s := by
  have hmem : (0 : UInt8) ∈ s.take (s.length - 1) := by
    rw [← List.dropLast_eq_take]
    exact not_not.mp h
  have hlt : s.length - 1 < s.length := by
    have := List.length_pos_of_mem (List.mem_of_mem_take hmem)
    omega
  obtain ⟨b, hb⟩ : ∃ b : UInt8, b ≠ s[s.length - 1] := by
    by_cases h0 : s[s.length - 1] = 0
    · exact ⟨1, by rw [h0]; decide⟩
    · exact ⟨0, Ne.symm h0⟩
  refine ⟨b, fun src heq => ?_⟩
  have hget : ∀ i, s[i]? = (src[i]?).map fun c => if (0 : UInt8) ∈ src.take i then b else c := by
    intro i
    rw [← heq, ngxCopyString, List.getElem?_mapIdx]
  by_cases hz : (0 : UInt8) ∈ src.take (s.length - 1)
  · -- the last byte is what the memory held
    have hlast := hget (s.length - 1)
    rw [List.getElem?_eq_getElem hlt] at hlast
    obtain ⟨c, -, hc⟩ := Option.map_eq_some_iff.mp hlast.symm
    rw [if_pos hz] at hc
    exact hb hc
  · -- no zero byte was copied
    have htake : s.take (s.length - 1) = src.take (s.length - 1) := by
      refine List.ext_getElem? fun i => ?_
      rw [List.getElem?_take, List.getElem?_take]
      split
      · rename_i hi
        have hno : (0 : UInt8) ∉ src.take i := fun hm =>
          hz ((List.take_prefix_take_left (by omega)).subset hm)
        simp [hget i, hno]
      · rfl
    exact hz (htake ▸ hmem)

/-! ### What is pushed -/

lemma sendHeaders_intact (pool : ℕ → ℕ → UInt8) {order : List (Bytes × Bytes)} {r : Response}
    (ho : ∀ e ∈ order, Intact e.1 ∧ Intact e.2) (hc : ∀ c ∈ r.cookies, Intact c) :
    sendHeaders pool order r = order ++ r.cookies.map fun c => (lit "Set-Cookie", c) := by
  have hname : Intact (lit "Set-Cookie") := by decide
  unfold sendHeaders
  refine List.ext_getElem (by simp) fun i h1 h2 => ?_
  rw [List.getElem_mapIdx]
  have hmem := List.getElem_mem h2
  generalize (order ++ r.cookies.map fun c => (lit "Set-Cookie", c))[i] = e at hmem
  have he : Intact e.1 ∧ Intact e.2 := by
    rcases List.mem_append.mp hmem with h | h
    · exact ho e h
    · obtain ⟨c, hcm, rfl⟩ := List.mem_map.mp h
      exact ⟨hname, hc c hcm⟩
  rw [ngxHeader, ngxCopyString_intact _ he.1, ngxCopyString_intact _ he.2]

/-- Whatever the pool holds, a name without a zero byte is pushed as often as it stands there. -/
lemma length_valuesOf_le (pool : ℕ → ℕ → UInt8) {name : Bytes} (hname : Intact name)
    (l : List (Bytes × Bytes)) :
    (valuesOf name l).length ≤ (valuesOf name (l.mapIdx (ngxHeader pool))).length := by
  simp only [valuesOf, List.length_map, ← List.countP_eq_length_filter]
  rw [List.mapIdx_eq_zipIdx_map, List.countP_map]
  calc l.countP (fun e => e.1 = name)
      = (l.zipIdx.map Prod.fst).countP fun e => e.1 = name := by rw [List.zipIdx_map_fst]
    _ = l.zipIdx.countP ((fun e => decide (e.1 = name)) ∘ Prod.fst) := List.countP_map
    _ ≤ _ := by
      refine List.countP_mono_left fun e _ he => ?_
      have he : e.1.1 = name := by simpa using he
      simp only [Function.comp_apply, ngxHeader, he, ngxCopyString_intact _ hname, decide_true]

lemma mem_entries_filled {calls : List (Bytes × Bytes)} {name v : Bytes} :
    (name, v) ∈ (filled calls).headers.entries ↔
      name ≠ lit "Content-Type" ∧ lastValue name calls = some v := by
  rw [← UMap.find_eq_some_iff, find_filled]
  by_cases hn : name = lit "Content-Type" <;> simp [hn]

lemma not_faithful_of_cookie (pool : ℕ → ℕ → UInt8) {calls : List (Bytes × Bytes)} {v : Bytes}
    (h : (lit "Set-Cookie", v) ∈ calls) :
    ¬ Faithful calls (sendHeaders pool (filled calls).headers.entries (filled calls)) := by
  intro hf
  obtain ⟨w, hw⟩ : ∃ w, lastValue (lit "Set-Cookie") calls = some w := by
    have hne : valuesOf (lit "Set-Cookie") calls ≠ [] :=
      List.ne_nil_of_mem (List.mem_map.mpr ⟨_, List.mem_filter.mpr ⟨h, by simp⟩, rfl⟩)
    rw [lastValue_eq, List.getLast?_eq_some_getLast hne]
    exact ⟨_, rfl⟩
  have hmap : valuesOf (lit "Set-Cookie") (filled calls).headers.entries = [w] := by
    have hfind : (filled calls).headers.find (lit "Set-Cookie") = some w := by
      rw [find_filled, if_neg (by decide), hw]
    rw [valuesOf, UMap.values_of_perm (List.Perm.refl _), hfind]
    rfl
  have hle := @length_valuesOf_le pool (lit "Set-Cookie") (by decide)
    ((filled calls).headers.entries ++ (filled calls).cookies.map fun c => (lit "Set-Cookie", c))
  have hcookies := congrArg List.length hf.cookies
  have hsplit : valuesOf (lit "Set-Cookie") ((filled calls).headers.entries ++
      (filled calls).cookies.map fun c => (lit "Set-Cookie", c)) = w :: (filled calls).cookies := by
    rw [valuesOf_append, hmap, valuesOf_cookies, List.singleton_append]
  rw [hsplit, List.length_cons] at hle
  rw [← cookies_filled calls] at hcookies
  unfold sendHeaders at hcookies
  omega

lemma not_faithful_of_zero {calls : List (Bytes × Bytes)} {name v : Bytes}
    (hs : name ≠ lit "Set-Cookie") (hc : name ≠ lit "Content-Type")
    (hl : lastValue name calls = some v) (h : ¬ (Intact name ∧ Intact v)) :
    ∃ pool, ¬ Faithful calls (sendHeaders pool (filled calls).headers.entries (filled calls)) := by
  have hpushed : ∀ b : UInt8,
      Faithful calls (sendHeaders (fun _ _ => b) (filled calls).headers.entries (filled calls)) →
      (∃ src, ngxCopyString (fun _ => b) src = name) ∧
        ∃ src, ngxCopyString (fun _ => b) src = v := by
    intro b hf
    have hv : v ∈ valuesOf name
        (sendHeaders (fun _ _ => b) (filled calls).headers.entries (filled calls)) := by
      rw [hf.others name hs hc, hl]
      simp
    obtain ⟨e, he, rfl⟩ := List.mem_map.mp hv
    obtain ⟨he, hn⟩ := List.mem_filter.mp he
    have hn : e.1 = name := by simpa using hn
    obtain ⟨i, hi, rfl⟩ := List.mem_mapIdx.mp he
    exact ⟨⟨_, hn⟩, ⟨_, rfl⟩⟩
  rw [Classical.not_and_iff_not_or_not] at h
  rcases h with h | h
  · obtain ⟨b, hb⟩ := ngxCopyString_ne h
    refine ⟨fun _ _ => b, fun hf => ?_⟩
    obtain ⟨src, hsrc⟩ := (hpushed b hf).1
    exact hb src hsrc
  · obtain ⟨b, hb⟩ := ngxCopyString_ne h
    refine ⟨fun _ _ => b, fun hf => ?_⟩
    obtain ⟨src, hsrc⟩ := (hpushed b hf).2
    exact hb src hsrc

/-- **The headers are sent as called for exactly when no cookie is among them and no text has a
byte behind a zero byte.** -/
theorem sendHeaders_faithful_iff (calls : List (Bytes × Bytes)) :
    (∀ pool order, order.Perm (filled calls).headers.entries →
      Faithful calls (sendHeaders pool order (filled calls))) ↔
      (∀ v, (lit "Set-Cookie", v) ∉ calls) ∧
      ∀ name v, name ≠ lit "Content-Type" → lastValue name calls = some v →
        Intact name ∧ Intact v := by
  constructor
  · intro h
    have hcookie : ∀ v, (lit "Set-Cookie", v) ∉ calls := fun v hv =>
      not_faithful_of_cookie (fun _ _ => 0) hv (h _ _ (List.Perm.refl _))
    refine ⟨hcookie, fun name v hn hl => ?_⟩
    have hs : name ≠ lit "Set-Cookie" := by
      rintro rfl
      rw [lastValue_eq, valuesOf_eq_nil hcookie] at hl
      exact absurd hl (by simp)
    by_contra hno
    obtain ⟨pool, hpool⟩ := not_faithful_of_zero hs hn hl hno
    exact hpool (h _ _ (List.Perm.refl _))
  · rintro ⟨hcookie, hintact⟩ pool order hp
    have hcalls := valuesOf_eq_nil hcookie
    have hcookies : (filled calls).cookies = [] := (cookies_filled calls).trans hcalls
    have hpushed : sendHeaders pool order (filled calls) = order := by
      rw [sendHeaders_intact pool _ (by simp [hcookies]), hcookies, List.map_nil, List.append_nil]
      intro e he
      obtain ⟨hn, hl⟩ := mem_entries_filled.mp (hp.mem_iff.mp he)
      exact hintact _ _ hn hl
    rw [hpushed]
    have hvalues : ∀ name, valuesOf name order = ((filled calls).headers.find name).toList :=
      UMap.values_of_perm hp
    refine ⟨?_, fun name hs hn => ?_, ?_⟩
    · rw [hvalues, find_filled, if_neg (by decide), lastValue_eq, hcalls]
      rfl
    · rw [hvalues, find_filled, if_neg hn]
    · rw [hvalues, find_filled, if_pos rfl]
      rfl

/-- One cookie is sent twice. -/
theorem cookie_sent_twice :
    sendHeaders (fun _ _ => 0) (filled [(lit "Set-Cookie", lit "a=1")]).headers.entries
        (filled [(lit "Set-Cookie", lit "a=1")]) =
      [(lit "Set-Cookie", lit "a=1"), (lit "Set-Cookie", lit "a=1")] ∧
    ¬ Faithful [(lit "Set-Cookie", lit "a=1")]
      (sendHeaders (fun _ _ => 0) (filled [(lit "Set-Cookie", lit "a=1")]).headers.entries
        (filled [(lit "Set-Cookie", lit "a=1")])) :=
  ⟨by decide, fun h => absurd h.cookies (by decide)⟩

end NgxMapping.SendHeaders
