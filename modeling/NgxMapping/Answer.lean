import NgxMapping.MappingSpec

/-!
The ways a run of the mapping handler can end.

`Ends` lists them once, with what has to hold on the way and what is sent; `answer_ends` says
that nothing else happens. The results about runs are case analyses over it.
-/

namespace NgxMapping.Answer

open Lib HttpRequest HttpResponse PartnerTable TokenMatch MappingModel MappingSpec

/-- The partner `dofilter` selects, zero for none. -/
def selected (E : Env) (o : Mapping) : ℤ :=
  checkVaildExpire E o.cookieHeader o.ext o.request.partner.weight o.request.partner.expires

/-- The object after `dofilter`. -/
def chosen (E : Env) (o : Mapping) : Mapping :=
  { o with request := { o.request with
      pid := selected E o
      url := if selected E o = 0 then []
        else (o.request.partner.url.find (selected E o)).getD [] } }

lemma chosen_url {E : Env} {o : Mapping} (h : selected E o ≠ 0) :
    (chosen E o).request.url = (o.request.partner.url.find (selected E o)).getD [] := if_neg h

lemma dofilter_eq (E : Env) (o : Mapping) (hu : o.request.url = []) :
    dofilter E o = chosen E o := by
  have hs : checkVaildExpire E o.cookieHeader o.ext o.request.partner.weight
      o.request.partner.expires = selected E o := rfl
  unfold dofilter chosen
  simp only [hs]
  by_cases h : selected E o = 0
  · simp [h, hu]
  · cases hf : o.request.partner.url.find (selected E o) <;> simp [h, hu]

/-- The request gets as far as `dofilter`. -/
structure Passes (ua : Bytes) (o : Mapping) : Prop where
  clean : o.request.error = .error
  isOpen : o.request.partner.open_ ≠ 0
  desktop : o.ext = 4 ∨ tokenMatchSize ua mobile ≤ 1

/-- The object as logged when no url is found. -/
def urlless (o : Mapping) : Mapping := { o with request := { o.request with error := .noUrl } }

/-- The response with the throttle cookie of the selected partner. -/
def marked (E : Env) (o : Mapping) (rep : Response) : Response :=
  rep.addHeader (lit "Set-Cookie") (CookieHeader.setCookie E.localtime E.cookieTime
    (timeCookie (selected E o)) (natStr E.markTime) lifetime)

inductive Ends (E : Env) (P : Partners) (ua : Bytes) (o : Mapping) (rep : Response) :
    Outcome → Prop
  | error (h : o.request.error ≠ .error) : Ends E P ua o rep (endNormal E .error o rep)
  | closed (h : o.request.error = .error) (ho : o.request.partner.open_ = 0) :
      Ends E P ua o rep (endNormal E .closed o rep)
  | mobile (h : o.request.error = .error) (ho : o.request.partner.open_ ≠ 0)
      (he : o.ext ≠ 4) (hm : 1 < tokenMatchSize ua TokenMatch.mobile) :
      Ends E P ua o rep
        (endNormal E .mobile { o with request := { o.request with m := 1 } } rep)
  | selfFault (h : Passes ua o) (he : o.ext = 2) (hs : selected E o = 12)
      (hself : o.request.partner.self ≠ []) (hl : P.lookup (toStr o.ext) = none) :
      Ends E P ua o rep { exit := .selfFault, rep := rep }
  | tencentSelf (h : Passes ua o) (he : o.ext = 2) (hs : selected E o = 12)
      (hself : o.request.partner.self ≠ []) {p : Partner} (hl : P.lookup (toStr o.ext) = some p) :
      Ends E P ua o rep
        (headerLocation E .tencentSelf (chosen E o) rep (urlReplace E (chosen E o) p.self))
  | ownSelf (h : Passes ua o) (hs : selected E o = 0) (hself : o.request.partner.self ≠ []) :
      Ends E P ua o rep (headerLocation E .ownSelf (chosen E o) rep
        (urlReplace E (chosen E o) o.request.partner.self))
  | nothing (h : Passes ua o) (hs : selected E o = 0) (hself : o.request.partner.self = []) :
      Ends E P ua o rep (endNormal E .nothing (chosen E o) rep)
  | noUrl (h : Passes ua o) (hs : selected E o ≠ 0) (hu : (chosen E o).request.url = [])
      (hn : ¬ (o.ext = 2 ∧ selected E o = 12 ∧ o.request.partner.self ≠ [])) :
      Ends E P ua o rep (endNormal E .noUrl (urlless (chosen E o)) (marked E o rep))
  | partnerUrl (h : Passes ua o) (hs : selected E o ≠ 0) (hu : (chosen E o).request.url ≠ [])
      (hn : ¬ (o.ext = 2 ∧ selected E o = 12 ∧ o.request.partner.self ≠ [])) :
      Ends E P ua o rep (headerLocation E (.partnerUrl (selected E o)) (chosen E o)
        (marked E o rep) (urlReplace E (chosen E o) (chosen E o).request.url))

lemma Error.code_pos_iff (e : Error) : 0 < e.code ↔ e ≠ .error := by cases e <;> simp [Error.code]

lemma route_ends {E : Env} {P : Partners} {ua : Bytes} {o : Mapping} {rep : Response}
    (h : Passes ua o) : Ends E P ua o rep (route E P (chosen E o) rep) := by
  have hpid : (chosen E o).request.pid = selected E o := rfl
  have hself : (chosen E o).request.partner = o.request.partner := rfl
  have hext : (chosen E o).ext = o.ext := rfl
  unfold route
  simp only [hpid, hself, hext, List.length_pos_iff, ExtType.code]
  split
  · rename_i hc
    obtain ⟨he, hs, hne⟩ := hc
    cases hl : P.lookup (toStr o.ext) with
    | none => exact .selfFault h he hs hne hl
    | some p => exact .tencentSelf h he hs hne hl
  · rename_i hn
    split
    · rename_i hs
      split
      · rename_i hne
        exact .ownSelf h hs hne
      · rename_i hne
        exact .nothing h hs (by simpa using hne)
    · rename_i hs
      have hm : rep.addHeader (lit "Set-Cookie") (CookieHeader.setCookie E.localtime E.cookieTime
        (timeCookie (chosen E o).request.pid) (natStr E.markTime) lifetime) = marked E o rep := rfl
      unfold visit
      simp only [hm, List.length_eq_zero_iff]
      split
      · rename_i hu
        exact .noUrl h hs hu hn
      · rename_i hu
        exact .partnerUrl h hs hu hn

lemma answer_of_passes {E : Env} {P : Partners} {ua : Bytes} {o : Mapping} {rep : Response}
    (hm : o.request.m = 0) (hu : o.request.url = []) (h : Passes ua o) :
    answer E P ua o rep = route E P (chosen E o) rep := by
  have hset : (if o.ext ≠ 4 then { o with request := { o.request with m := 0 } } else o) = o := by
    split
    · rw [← hm]
    · rfl
  have hd : ¬ (o.ext ≠ 4 ∧ 1 < tokenMatchSize ua TokenMatch.mobile) := by
    have := h.desktop
    omega
  unfold answer
  rw [if_neg (by simp [Error.code_pos_iff, h.clean]), if_neg h.isOpen, if_neg hd]
  dsimp only
  rw [hset, dofilter_eq E o hu]

/-- **Every run that reaches the answer ends in one of the ways listed.** -/
theorem answer_ends {E : Env} {P : Partners} {ua : Bytes} {o : Mapping} {rep : Response}
    (hm : o.request.m = 0) (hu : o.request.url = []) :
    Ends E P ua o rep (answer E P ua o rep) := by
  by_cases hp : Passes ua o
  · rw [answer_of_passes hm hu hp]
    exact route_ends hp
  · unfold answer
    simp only [Error.code_pos_iff]
    split
    · rename_i h
      exact .error h
    · rename_i h
      have h : o.request.error = .error := by simpa using h
      split
      · rename_i ho
        exact .closed h ho
      · rename_i ho
        split
        · rename_i hc
          exact .mobile h ho hc.1 hc.2
        · exact absurd ⟨h, ho, by omega⟩ hp

/-- **The ways exclude each other.** -/
theorem Ends.eq_answer {E : Env} {P : Partners} {ua : Bytes} {o : Mapping} {rep : Response}
    {out : Outcome} (h : Ends E P ua o rep out) (hm : o.request.m = 0) (hu : o.request.url = []) :
    answer E P ua o rep = out := by
  have hpid : (chosen E o).request.pid = selected E o := rfl
  have hpartner : (chosen E o).request.partner = o.request.partner := rfl
  have hext : (chosen E o).ext = o.ext := rfl
  cases h with
  | error h => rw [answer, if_pos ((Error.code_pos_iff _).mpr h)]
  | closed h ho => rw [answer, if_neg (by simp [Error.code_pos_iff, h]), if_pos ho]
  | mobile h ho he hmob =>
    rw [answer, if_neg (by simp [Error.code_pos_iff, h]), if_neg ho, if_pos ⟨he, hmob⟩]
  | selfFault h he hs hself hl =>
    rw [answer_of_passes hm hu h, route, if_pos ⟨he, hs, List.length_pos_iff.mpr hself⟩]
    simp only [hext, hl]
  | tencentSelf h he hs hself hl =>
    rw [answer_of_passes hm hu h, route, if_pos ⟨he, hs, List.length_pos_iff.mpr hself⟩]
    simp only [hext, hl]
  | ownSelf h hs hself =>
    rw [answer_of_passes hm hu h, route, if_neg (by simp [hpid, hs]), if_pos (hpid.trans hs),
      hpartner, if_pos (List.length_pos_iff.mpr hself)]
  | nothing h hs hself =>
    rw [answer_of_passes hm hu h, route, if_neg (by simp [hpid, hs]), if_pos (hpid.trans hs),
      if_neg (by simp [hpartner, hself])]
  | noUrl h hs hurl hn =>
    rw [answer_of_passes hm hu h, route, if_neg, if_neg (hpid ▸ hs), visit, if_pos (by simp [hurl])]
    · rfl
    · rwa [hpid, hpartner, hext, List.length_pos_iff]
  | partnerUrl h hs hurl hn =>
    rw [answer_of_passes hm hu h, route, if_neg, if_neg (hpid ▸ hs), visit,
      if_neg (by simpa using hurl)]
    · rfl
    · rwa [hpid, hpartner, hext, List.length_pos_iff]

section Serve

variable {E : Env} {P : Partners} {headers : UMap Bytes Bytes} {uri : Bytes}

lemma not_uidFault (h : (serve E P headers uri).exit ≠ .uidFault) : ¬ UidFault P uri := by
  intro hf
  rw [serve_fault hf] at h
  exact h rfl

/-- A request for which the parameter name is known ends in one of the ways listed. -/
lemma serve_ends (hf : ¬ UidFault P uri) :
    Ends E P (userAgent headers) (object E P headers uri) (response E P headers uri)
      (serve E P headers uri) := by
  rw [serve_ok hf]
  exact answer_ends rfl rfl

lemma serve_of_ends (hf : ¬ UidFault P uri) {out : Outcome}
    (h : Ends E P (userAgent headers) (object E P headers uri) (response E P headers uri) out) :
    serve E P headers uri = out := by
  rw [serve_ok hf]
  exact h.eq_answer rfl rfl

end Serve

/-! ### What is sent -/

@[simp] lemma endNormal_exit (E : Env) (x : Exit) (o : Mapping) (rep : Response) :
    (endNormal E x o rep).exit = x := rfl

@[simp] lemma headerLocation_exit (E : Env) (x : Exit) (o : Mapping) (rep : Response)
    (url : Bytes) : (headerLocation E x o rep url).exit = x := rfl

@[simp] lemma endNormal_status (E : Env) (x : Exit) (o : Mapping) (rep : Response) :
    (endNormal E x o rep).rep.status = some .ok := by simp [endNormal]

@[simp] lemma headerLocation_status (E : Env) (x : Exit) (o : Mapping) (rep : Response)
    (url : Bytes) : (headerLocation E x o rep url).rep.status = some .movedTemporarily := by
  simp [headerLocation]

@[simp] lemma endNormal_cookies (E : Env) (x : Exit) (o : Mapping) (rep : Response) :
    (endNormal E x o rep).rep.cookies = rep.cookies := by
  rw [endNormal, cookies_addHeader, if_neg (by decide)]
  rfl

@[simp] lemma headerLocation_cookies (E : Env) (x : Exit) (o : Mapping) (rep : Response)
    (url : Bytes) : (headerLocation E x o rep url).rep.cookies = rep.cookies := by
  rw [headerLocation, cookies_addHeader, if_neg (by decide), cookies_addHeader,
    if_neg (by decide)]
  rfl

/-- The `t_` cookie handed out for the selected partner. -/
def throttleCookie (E : Env) (o : Mapping) : Bytes :=
  CookieHeader.setCookie E.localtime E.cookieTime (timeCookie (selected E o)) (natStr E.markTime)
    lifetime

@[simp] lemma marked_cookies (E : Env) (o : Mapping) (rep : Response) :
    (marked E o rep).cookies = rep.cookies ++ [throttleCookie E o] := cookies_addCookie _ _

/-- What `log_save` puts on the queue of pairs. -/
def pairs (o : Mapping) : List Bytes :=
  if sendsScylla o then send scyllaLimit [] (scyllaMsg o.ext o.rmid o.uid) else []

@[simp] lemma endNormal_scylla (E : Env) (x : Exit) (o : Mapping) (rep : Response) :
    (endNormal E x o rep).queues.scylla = pairs o := rfl

@[simp] lemma headerLocation_scylla (E : Env) (x : Exit) (o : Mapping) (rep : Response)
    (url : Bytes) : (headerLocation E x o rep url).queues.scylla = pairs o := rfl

@[simp] lemma pairs_chosen (E : Env) (o : Mapping) : pairs (chosen E o) = pairs o := rfl

@[simp] lemma pairs_urlless (o : Mapping) : pairs (urlless o) = pairs o := rfl

/-- A run that reaches the answer sends the pair of its object, unless it faults or the
browser is found to be mobile. -/
lemma answer_scylla {E : Env} {P : Partners} {ua : Bytes} {o : Mapping} {rep : Response}
    (hm : o.request.m = 0) (hu : o.request.url = []) :
    (answer E P ua o rep).queues.scylla =
      if (answer E P ua o rep).exit = .mobile ∨ (answer E P ua o rep).exit = .selfFault then []
      else pairs o := by
  have h := @answer_ends E P ua o rep hm hu
  generalize answer E P ua o rep = out at h
  cases h with
  | mobile => simp [pairs, sendsScylla]
  | _ => simp

/-- The object as it is logged at an exit: `m` tells the mobile exit from the others. -/
structure Logged (o : Mapping) (exit : Exit) (o' : Mapping) : Prop where
  ext : o'.ext = o.ext
  rmid : o'.rmid = o.rmid
  uid : o'.uid = o.uid
  source : o'.request.source = o.request.source
  flag : o'.request.flag = o.request.flag
  m : o'.request.m = if exit = .mobile then 1 else 0

lemma ends_logged {E : Env} {P : Partners} {ua : Bytes} {o : Mapping} {rep : Response}
    {out : Outcome} (h : Ends E P ua o rep out) (hm : o.request.m = 0)
    (hx : out.exit ≠ .selfFault) :
    ∃ o' rUrl, Logged o out.exit o' ∧ out.queues = logSave E o' rUrl := by
  cases h with
  | error => exact ⟨o, [], ⟨rfl, rfl, rfl, rfl, rfl, hm⟩, rfl⟩
  | closed => exact ⟨o, [], ⟨rfl, rfl, rfl, rfl, rfl, hm⟩, rfl⟩
  | mobile =>
    exact ⟨{ o with request := { o.request with m := 1 } }, [], ⟨rfl, rfl, rfl, rfl, rfl, rfl⟩, rfl⟩
  | selfFault => exact absurd rfl hx
  | tencentSelf => exact ⟨chosen E o, _, ⟨rfl, rfl, rfl, rfl, rfl, hm⟩, rfl⟩
  | ownSelf => exact ⟨chosen E o, _, ⟨rfl, rfl, rfl, rfl, rfl, hm⟩, rfl⟩
  | nothing => exact ⟨chosen E o, [], ⟨rfl, rfl, rfl, rfl, rfl, hm⟩, rfl⟩
  | noUrl => exact ⟨urlless (chosen E o), [], ⟨rfl, rfl, rfl, rfl, rfl, hm⟩, rfl⟩
  | partnerUrl => exact ⟨chosen E o, _, ⟨rfl, rfl, rfl, rfl, rfl, hm⟩, rfl⟩

/-- The answer keeps the cookies handed out before it and adds at most a throttle cookie. -/
lemma answer_cookies {E : Env} {P : Partners} {ua : Bytes} {o : Mapping} {rep : Response}
    (hm : o.request.m = 0) (hu : o.request.url = []) :
    (answer E P ua o rep).rep.cookies = rep.cookies ∨
      (answer E P ua o rep).rep.cookies = rep.cookies ++ [throttleCookie E o] := by
  have h := @answer_ends E P ua o rep hm hu
  generalize answer E P ua o rep = out at h
  cases h <;> simp

lemma response_status (E : Env) (P : Partners) (headers : UMap Bytes Bytes) (uri : Bytes) :
    (response E P headers uri).status = none := by
  refine response_inv (I := fun r => r.status = none) ?_ fun r c hr => ?_
  · simp [gifResponse, Response.setMimeType]
  · rw [status_addHeader, hr]

lemma response_cookies (E : Env) (P : Partners) (headers : UMap Bytes Bytes) (uri : Bytes) :
    (response E P headers uri).cookies = identityCookies E P headers uri := by
  have key : ∀ (cs : List Bytes) (r : Response),
      (cs.foldl (fun r c => r.addHeader (lit "Set-Cookie") c) r).cookies = r.cookies ++ cs := by
    intro cs
    induction cs with
    | nil => simp
    | cons c cs ih => intro r; rw [List.foldl_cons, ih, cookies_addCookie]; simp
  rw [response, key]
  have : (gifResponse {}).cookies = [] := by decide
  rw [this, List.nil_append]

end NgxMapping.Answer
