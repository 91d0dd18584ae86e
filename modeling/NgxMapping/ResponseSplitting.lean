import NgxMapping.Answer

/-!
Line breaks in response headers.

What a client chooses reaches a header on three ways: the identifier, out of the `Cookie`
header into the redirect; the source, which by then is known to be the number of a partner,
into the redirect; and the decoded user id into the cookie `amz`, where nothing filters it.
-/

namespace NgxMapping.ResponseSplitting

open Lib HttpResponse PartnerTable TokenMatch MappingModel MappingSpec Answer

/-- No CR and no LF. -/
def Clean (s : Bytes) : Prop := ∀ c ∈ s, c ≠ 13 ∧ c ≠ 10

instance (s : Bytes) : Decidable (Clean s) := inferInstanceAs (Decidable (∀ _ ∈ s, _))

@[simp] lemma clean_append (s t : Bytes) : Clean (s ++ t) ↔ Clean s ∧ Clean t :=
  List.forall_mem_append

lemma Clean.mono {s t : Bytes} (h : Clean t) (hs : s ⊆ t) : Clean s := fun c hc => h c (hs hc)

lemma clean_natStr (n : ℕ) : Clean (natStr n) := fun _ hc =>
  ⟨isdigit_ne (isdigit_of_mem_natStr hc) (by decide),
    isdigit_ne (isdigit_of_mem_natStr hc) (by decide)⟩

lemma clean_toStr (n : ℤ) : Clean (toStr n) := by
  intro c hc
  rcases mem_toStr hc with h | rfl
  · exact ⟨isdigit_ne h (by decide), isdigit_ne h (by decide)⟩
  · decide

lemma clean_cookieDate (t : Tm) : Clean (cookieDate t) := by
  intro c hc
  have h := List.all_eq_true.mp (dateByte_cookieDate t) c hc
  constructor
  · rintro rfl
    exact absurd h (by decide)
  · rintro rfl
    exact absurd h (by decide)

lemma clean_setCookie_iff (localtime : ℤ → Tm) (now : ℕ) {name path domain : Bytes} (value : Bytes)
    (hn : Clean (cstr name)) (hp : Clean (cstr path)) (hd : Clean (cstr domain)) :
    Clean (CookieHeader.setCookie localtime now name value lifetime path domain) ↔
      Clean (cstr value) := by
  have hl : (0 : ℤ) < lifetime ∧ ¬ (253402300799 : ℤ) < lifetime := by decide
  have hpath : Clean (if path = [] then [] else lit "; path=" ++ cstr path) := by
    split
    · simp [Clean]
    · exact (clean_append _ _).mpr ⟨by decide, hp⟩
  have hdomain : Clean (if domain = [] then [] else lit "; domain=" ++ cstr domain) := by
    split
    · simp [Clean]
    · exact (clean_append _ _).mpr ⟨by decide, hd⟩
  have h1 : Clean (lit "=deleted; expires=") := by decide
  have h2 : Clean (lit "; Max-Age=0") := by decide
  have h3 : Clean (lit "=") := by decide
  have h4 : Clean (lit "; expires=") := by decide
  have h5 : Clean (lit "; Max-Age=") := by decide
  have h6 : Clean (cstr []) := by decide
  unfold CookieHeader.setCookie
  by_cases hv : value = []
  · simp [hv, hn, hpath, hdomain, h1, h2, h6, clean_cookieDate]
  · simp [hv, hn, hpath, hdomain, h3, h4, h5, hl, clean_cookieDate, clean_toStr]

lemma clean_rmidCookie (E : Env) : Clean (rmidCookie E) := by
  refine (clean_setCookie_iff _ _ _ (by decide) (by decide) (by decide)).mpr ?_
  refine Clean.mono (t := Helper.BASE_STRING) (by decide) fun c hc => ?_
  exact Helper.createRmidCookie_subset _ _ (cstr_subset _ hc)

lemma clean_mzCookie_iff (E : Env) (uid : Bytes) : Clean (mzCookie E uid) ↔ Clean (cstr uid) :=
  clean_setCookie_iff _ _ _ (by decide) (by decide) (by decide)

lemma clean_throttleCookie (E : Env) (o : Mapping) : Clean (throttleCookie E o) := by
  have hn : Clean (cstr (timeCookie (selected E o))) :=
    Clean.mono ((clean_append _ _).mpr ⟨by decide, clean_toStr _⟩) (cstr_subset _)
  refine (clean_setCookie_iff _ _ _ hn (by decide) (by decide)).mpr ?_
  exact (clean_natStr _).mono (cstr_subset _)

/-! ### The redirect -/

lemma mem_of_mem_scan {m : Bytes → ℕ} {k : ℕ} {s : Bytes} {c : UInt8}
    (h : some c ∈ scan m k s) : c ∈ s := by
  induction s generalizing k with
  | nil => cases k <;> simp [scan] at h
  | cons d s ih =>
    cases k with
    | succ k => exact List.mem_cons_of_mem d (ih (by rwa [scan] at h))
    | zero =>
      rw [scan] at h
      split at h
      · rcases List.mem_cons.mp h with h | h
        · simp_all
        · exact List.mem_cons_of_mem d (ih h)
      · rcases List.mem_cons.mp h with h | h
        · simp at h
        · exact List.mem_cons_of_mem d (ih h)

lemma clean_replaceAll {key value url : Bytes} (hv : Clean value) (hu : Clean url) :
    Clean (replaceAll key value url) := by
  intro c hc
  obtain ⟨x, hx, hc⟩ := List.mem_flatMap.mp hc
  cases x with
  | none => exact hv c hc
  | some d =>
    rw [List.mem_singleton.mp hc]
    exact hu d (mem_of_mem_scan hx)

lemma clean_urlReplace {E : Env} {o : Mapping} {url : Bytes} (hr : Clean o.rmid)
    (hs : Clean o.request.source) (hu : Clean url) : Clean (urlReplace E o url) := by
  refine urlReplace_inv (I := Clean) (fun key _ value hv url hurl => ?_) hu
  refine clean_replaceAll ?_ hurl
  simp only [values, List.mem_cons, List.not_mem_nil, or_false] at hv
  rcases hv with rfl | rfl | rfl | rfl
  · exact hr
  · exact clean_natStr _
  · exact clean_natStr _
  · exact hs

lemma scanCookie_subset {name s v : Bytes} {b : Bool}
    (h : CookieHeader.scanCookie name b s = some v) :
    v ⊆ s := by
  induction s generalizing b with
  | nil => simp [CookieHeader.scanCookie] at h
  | cons c s ih =>
    rw [CookieHeader.scanCookie] at h
    split at h
    · rw [Option.some.injEq] at h
      rw [← h]
      exact fun d hd => List.mem_of_mem_drop ((List.takeWhile_prefix _).subset hd)
    · exact List.subset_cons_of_subset c (ih h)

lemma getCookie_subset {header name : Bytes} (hok : CookieHeader.NameOk name) :
    CookieHeader.getCookie header name ⊆ header := by
  rw [CookieHeader.getCookie_eq_scan hok]
  cases h : CookieHeader.scanCookie name true header with
  | none => simp
  | some v => exact scanCookie_subset h

/-! ### The response -/

/-- All header values handed to the response are clean. -/
def CleanRep (r : Response) : Prop := ∀ a ∈ r.added, Clean a.2

@[simp] lemma cleanRep_addHeader (r : Response) (h v : Bytes) :
    CleanRep (r.addHeader h v) ↔ CleanRep r ∧ Clean v := by
  simp [CleanRep, or_imp, forall_and]

@[simp] lemma cleanRep_setStatus (r : Response) (s : StatusType) :
    CleanRep (r.setStatus s) ↔ CleanRep r := Iff.rfl

def Templates (p : Partner) : Prop := Clean p.self ∧ ∀ e ∈ p.url.entries, Clean e.2

instance (p : Partner) : Decidable (Templates p) := inferInstanceAs (Decidable (_ ∧ _))

lemma cleanRep_endNormal (E : Env) (x : Exit) (o : Mapping) (rep : Response) :
    CleanRep (endNormal E x o rep).rep ↔ CleanRep rep := by
  simp [endNormal, clean_natStr]

lemma cleanRep_headerLocation (E : Env) (x : Exit) (o : Mapping) (rep : Response) {url : Bytes}
    (hu : Clean url) : CleanRep (headerLocation E x o rep url).rep ↔ CleanRep rep := by
  have hp : Clean p3p := by decide
  simp [headerLocation, hp, hu]

lemma cleanRep_marked (E : Env) (o : Mapping) (rep : Response) :
    CleanRep (marked E o rep) ↔ CleanRep rep := by
  rw [marked, cleanRep_addHeader]
  exact and_iff_left (clean_throttleCookie E o)

lemma clean_chosen_url {E : Env} {o : Mapping} (h : Templates o.request.partner) :
    Clean (chosen E o).request.url := by
  unfold chosen
  dsimp only
  split
  · simp [Clean]
  · cases hf : o.request.partner.url.find (selected E o) with
    | none => simp [Clean]
    | some url => exact h.2 _ (UMap.find_eq_some_iff.mp hf)

lemma cleanRep_answer {E : Env} {P : Partners} {ua : Bytes} {o : Mapping} {rep : Response}
    (hm : o.request.m = 0) (hu : o.request.url = [])
    (hP : ∀ id p, P.lookup id = some p → Templates p) (hr : Clean o.rmid)
    (hs : o.request.error = .error → Clean o.request.source ∧ Templates o.request.partner) :
    CleanRep (answer E P ua o rep).rep ↔ CleanRep rep := by
  have h := @answer_ends E P ua o rep hm hu
  generalize answer E P ua o rep = out at h
  cases h with
  | error h => exact cleanRep_endNormal ..
  | closed h ho => exact cleanRep_endNormal ..
  | mobile h ho he hm => exact cleanRep_endNormal ..
  | selfFault h he hs hself hl => rfl
  | tencentSelf h he _ hself hl =>
    exact cleanRep_headerLocation E _ _ _ (clean_urlReplace hr (hs h.clean).1 (hP _ _ hl).1)
  | ownSelf h _ hself =>
    exact cleanRep_headerLocation E _ _ _ (clean_urlReplace hr (hs h.clean).1 (hs h.clean).2.1)
  | nothing h hs hself => exact cleanRep_endNormal ..
  | noUrl h _ hu hn => rw [cleanRep_endNormal, cleanRep_marked]
  | partnerUrl h _ hu hn =>
    have hurl : Clean (urlReplace E (chosen E o) (chosen E o).request.url) :=
      clean_urlReplace hr (hs h.clean).1 (clean_chosen_url (hs h.clean).2)
    rw [cleanRep_headerLocation E _ _ _ hurl, cleanRep_marked]

lemma cleanRep_gifResponse : CleanRep (gifResponse {}) := by
  unfold gifResponse
  simp only [cleanRep_addHeader]
  refine ⟨⟨⟨by simp [CleanRep, Response.setMimeType], by decide⟩, by decide⟩, clean_natStr _⟩

lemma cleanRep_foldl (cs : List Bytes) (r : Response) :
    CleanRep (cs.foldl (fun r c => r.addHeader (lit "Set-Cookie") c) r) ↔
      CleanRep r ∧ ∀ c ∈ cs, Clean c := by
  induction cs generalizing r with
  | nil => simp
  | cons c cs ih => simp [ih, and_assoc]

/-- The cookies handed out before the answer are clean unless the user id goes into one. -/
lemma cleanRep_response (E : Env) (P : Partners) (headers : UMap Bytes Bytes) (uri : Bytes) :
    CleanRep (response E P headers uri) ↔
      (extOf uri = 6 → cookieMz headers = [] → Clean (cstr (uidOf P uri))) := by
  have hm : ExtType.m.code = 6 := rfl
  rw [response, cleanRep_foldl, identityCookies, List.forall_mem_append, hm]
  have h1 : ∀ c ∈ if cookieA headers = [] ∧ flagOf uri ≠ 0 then [rmidCookie E] else [],
      Clean c := by
    split
    · simpa using clean_rmidCookie E
    · simp
  rw [and_iff_right cleanRep_gifResponse, and_iff_right h1]
  split
  · rename_i h
    simp [clean_mzCookie_iff, h]
  · rename_i h
    simpa using fun h6 h0 => absurd ⟨h6, h0⟩ h

lemma clean_rmidOf (E : Env) {headers : UMap Bytes Bytes} (uri : Bytes)
    (hh : ∀ e ∈ headers.entries, Clean e.2) : Clean (rmidOf E headers uri) := by
  unfold rmidOf
  split
  · refine Clean.mono (t := (headers.find (lit "Cookie")).getD []) ?_
      (getCookie_subset (by decide))
    cases hc : headers.find (lit "Cookie") with
    | none => simp [Clean]
    | some v => exact hh _ (UMap.find_eq_some_iff.mp hc)
  · split
    · simp [Clean]
    · exact Clean.mono (t := Helper.BASE_STRING) (by decide) (Helper.createRmidCookie_subset _ _)

/-- **Only the user id in the `amz` cookie can split a response.** -/
theorem no_splitting_iff (E : Env) (P : Partners) (headers : UMap Bytes Bytes) (uri : Bytes)
    (hh : ∀ e ∈ headers.entries, Clean e.2) (hP : ∀ e ∈ P.map.entries, Templates e.2) :
    (∀ a ∈ (serve E P headers uri).rep.added, Clean a.2) ↔
      ¬ (¬ UidFault P uri ∧ extOf uri = 6 ∧ cookieMz headers = [] ∧
        ¬ Clean (cstr (uidOf P uri))) := by
  have hP : ∀ id p, P.lookup id = some p → Templates p := fun id p hp =>
    hP _ (UMap.find_eq_some_iff.mp hp)
  by_cases hf : UidFault P uri
  · rw [serve_fault hf]
    exact iff_of_true cleanRep_gifResponse fun h => h.1 hf
  · rw [serve_ok hf]
    have hs : (object E P headers uri).request.error = .error →
        Clean (object E P headers uri).request.source ∧
          Templates (object E P headers uri).request.partner := by
      intro he
      obtain ⟨⟨p, hp⟩, -⟩ := errorOf_eq_error he
      obtain ⟨i, -, hi⟩ := Partners.lookup_some hp
      refine ⟨?_, ?_⟩
      · show Clean (sourceOf uri)
        rw [hi]
        exact clean_natStr i
      · rw [object_partner E headers hp]
        exact hP _ _ hp
    have ha := @cleanRep_answer E P (userAgent headers) (object E P headers uri)
      (response E P headers uri) rfl rfl hP (clean_rmidOf E uri hh) hs
    refine ha.trans ((cleanRep_response E P headers uri).trans ?_)
    simp [hf]

def miaozhenTable : Partners :=
  .ofList [(6, { open_ := 1, type := 1, uid := lit "mid",
                 self := lit "http://g.cn/?a=$\x7brmid\x7d" })] (by decide) (by decide)

/-- A plain user id is handed out in a cookie and splits nothing. -/
theorem no_splitting_miaozhen :
    (serve (.still 1500000000) miaozhenTable ⟨[(lit "User-Agent", lit "curl")], by decide⟩
      (lit "/m.gif?mid=O05Oc0&ext=m")).rep.cookies.length = 2 ∧
    ∀ a ∈ (serve (.still 1500000000) miaozhenTable ⟨[(lit "User-Agent", lit "curl")], by decide⟩
      (lit "/m.gif?mid=O05Oc0&ext=m")).rep.added, Clean a.2 :=
  ⟨by decide +kernel, (no_splitting_iff (.still 1500000000) miaozhenTable
    ⟨[(lit "User-Agent", lit "curl")], by decide⟩ (lit "/m.gif?mid=O05Oc0&ext=m") (by decide)
    (by decide)).mpr fun h => h.2.2.2 (by decide +kernel)⟩

/-- An encoded line break in the user id ends the cookie and starts a header of its own. -/
theorem splitting_miaozhen :
    (∀ e ∈ miaozhenTable.map.entries, Templates e.2) ∧
      ¬ ∀ a ∈ (serve (.still 1500000000) miaozhenTable UMap.empty
        (lit "/m.gif?mid=1%0d%0aX:%202&ext=m")).rep.added, Clean a.2 := by
  decide +kernel

end NgxMapping.ResponseSplitting
