import NgxMapping.Browser
import NgxMapping.ResponseSplitting

/-!
What an exchange with the mapping handler does to a jar.

`HandlerCookie` lists the cookies an exchange can bring, with the conditions under which it
does. An invariant of the jar is shown by what each of them stores.
-/

namespace NgxMapping.BrowserSession

open Lib HttpRequest HttpResponse PartnerTable CookieHeader CookieText MappingModel MappingSpec
open Answer Browser ResponseSplitting

/-- The cookies an exchange can bring. -/
inductive HandlerCookie (x : Exchange) : Bytes → Prop
  | rmid (ha : cookieA x.headers = []) (hf : flagOf x.uri ≠ 0) : HandlerCookie x (rmidCookie x.env)
  | mz (he : extOf x.uri = 6) (hz : cookieMz x.headers = []) :
      HandlerCookie x (mzCookie x.env (uidOf x.table x.uri))
  | throttle : HandlerCookie x (throttleCookie x.env x.object)

/-! ### What reaches the browser -/

/-- The header map holds no cookie that the list does not. -/
def Wired (r : Response) : Prop := ∀ c, r.headers.find (lit "Set-Cookie") = some c → c ∈ r.cookies

lemma wired_addHeader {r : Response} (hr : Wired r) (h v : Bytes) : Wired (r.addHeader h v) := by
  intro c hc
  unfold Response.addHeader at hc ⊢
  by_cases h1 : h = lit "Set-Cookie"
  · subst h1
    simp only [if_true, if_neg (show lit "Set-Cookie" ≠ lit "Content-Type" by decide),
      UMap.find_insert, Option.some.injEq] at hc ⊢
    simp [hc]
  · by_cases h2 : h = lit "Content-Type"
    · simp only [h2, if_true] at hc ⊢
      exact hr c hc
    · simp only [h1, h2, if_false, UMap.find_insert, if_neg (Ne.symm h1)] at hc ⊢
      exact hr c hc

lemma wired_endNormal {rep : Response} (h : Wired rep) (E : Env) (e : Exit) (o : Mapping) :
    Wired (endNormal E e o rep).rep := wired_addHeader (r := rep.setStatus .ok) h _ _

lemma wired_headerLocation {rep : Response} (h : Wired rep) (E : Env) (e : Exit) (o : Mapping)
    (url : Bytes) : Wired (headerLocation E e o rep url).rep :=
  wired_addHeader (wired_addHeader (r := rep.setStatus .movedTemporarily) h _ _) _ _

lemma wired_response (E : Env) (P : Partners) (headers : UMap Bytes Bytes) (uri : Bytes) :
    Wired (response E P headers uri) := by
  refine response_inv ?_ fun r c hr => wired_addHeader hr _ _
  have h0 : Wired ({ ({} : Response) with content := Helper.gifData }.setMimeType
      (lit "image/gif")) := by
    intro c hc
    simp [Response.setMimeType] at hc
  exact wired_addHeader (wired_addHeader (wired_addHeader h0 _ _) _ _) _ _

lemma wired_answer {E : Env} {P : Partners} {ua : Bytes} {o : Mapping} {rep : Response}
    (hm : o.request.m = 0) (hu : o.request.url = []) (hr : Wired rep) :
    Wired (answer E P ua o rep).rep := by
  have h := @answer_ends E P ua o rep hm hu
  generalize answer E P ua o rep = out at h
  cases h with
  | error h => exact wired_endNormal hr _ _ _
  | closed h ho => exact wired_endNormal hr _ _ _
  | mobile h ho he hm => exact wired_endNormal hr _ _ _
  | selfFault h he hs hself hl => exact hr
  | tencentSelf h he hs hself hl => exact wired_headerLocation hr _ _ _ _
  | ownSelf h hs hself => exact wired_headerLocation hr _ _ _ _
  | nothing h hs hself => exact wired_endNormal hr _ _ _
  | noUrl h hs hu hn => exact wired_endNormal (wired_addHeader hr _ _) _ _ _
  | partnerUrl h hs hu hn => exact wired_headerLocation (wired_addHeader hr _ _) _ _ _ _

lemma out_ends {x : Exchange} (hf : ¬ UidFault x.table x.uri) :
    Ends x.env x.table (userAgent x.headers) x.object
      (response x.env x.table x.headers x.uri) x.out := serve_ends hf

/-- An exchange brings the identity cookies and at most a throttle cookie behind them. -/
lemma out_cookies {x : Exchange} (hf : ¬ UidFault x.table x.uri) :
    x.out.rep.cookies = identityCookies x.env x.table x.headers x.uri ∨
      x.out.rep.cookies = identityCookies x.env x.table x.headers x.uri ++
        [throttleCookie x.env x.object] := by
  rw [Exchange.out, serve_ok hf, ← response_cookies]
  exact answer_cookies rfl rfl

/-- **Every cookie that is written is one of those listed.** -/
theorem handlerCookie_of_mem {x : Exchange} {c : Bytes} (hf : ¬ UidFault x.table x.uri)
    (h : c ∈ setCookies x.out.rep) : HandlerCookie x c := by
  have hc : c ∈ x.out.rep.cookies := by
    rcases List.mem_append.mp h with h | h
    · have hw : Wired x.out.rep := by
        rw [Exchange.out, serve_ok hf]
        exact wired_answer rfl rfl (wired_response _ _ _ _)
      exact hw c (by simpa using h)
    · exact h
  have hid : c ∈ identityCookies x.env x.table x.headers x.uri → HandlerCookie x c := by
    intro hc
    rcases List.mem_append.mp hc with hc | hc
    · split at hc
      · rename_i h
        rw [List.mem_singleton.mp hc]
        exact .rmid h.1 h.2
      · simp at hc
    · split at hc
      · rename_i h
        rw [List.mem_singleton.mp hc]
        exact .mz h.1 h.2
      · simp at hc
  rcases out_cookies hf with ho | ho
  · exact hid (ho ▸ hc)
  · rw [ho] at hc
    rcases List.mem_append.mp hc with hc | hc
    · exact hid hc
    · rw [List.mem_singleton.mp hc]
      exact .throttle

/-- The user id that goes into a cookie has no line break. -/
def CleanUid (x : Exchange) : Prop :=
  extOf x.uri = 6 → cookieMz x.headers = [] → Clean (cstr (uidOf x.table x.uri))

lemma HandlerCookie.clean {x : Exchange} {c : Bytes} (h : HandlerCookie x c) (hx : CleanUid x) :
    Clean c := by
  cases h with
  | rmid => exact clean_rmidCookie _
  | mz he hz => exact (clean_mzCookie_iff _ _).mpr (hx he hz)
  | throttle => exact clean_throttleCookie _ _

lemma headerValues_of_clean {c : Bytes} (h : Clean c) : headerValues c = [c] := by
  have h10 : c.splitOn 10 = [c] := List.splitOn_eq_singleton fun hc => (h 10 hc).2 rfl
  have h13 : c.rdropWhile (· == 13) = c := by
    rw [List.rdropWhile_eq_self_iff]
    intro hl
    simpa using (h _ (List.getLast_mem hl)).1
  simp [headerValues, h10, h13]

lemma delivered_eq {x : Exchange} (hx : CleanUid x) :
    delivered x.out =
      if x.out.exit = .uidFault ∨ x.out.exit = .selfFault then [] else setCookies x.out.rep := by
  unfold delivered
  split
  · rfl
  · rename_i hexit
    have hf : ¬ UidFault x.table x.uri := not_uidFault fun h => hexit (.inl h)
    have hall : ∀ c ∈ setCookies x.out.rep, headerValues c = [c] := fun c hc =>
      headerValues_of_clean ((handlerCookie_of_mem hf hc).clean hx)
    generalize setCookies x.out.rep = cs at hall
    induction cs with
    | nil => rfl
    | cons c cs ih =>
      rw [List.flatMap_cons, hall c (by simp), ih fun d hd => hall d (by simp [hd])]
      rfl

lemma handlerCookie_of_delivered {x : Exchange} (hx : CleanUid x) {c : Bytes}
    (h : c ∈ delivered x.out) : HandlerCookie x c := by
  rw [delivered_eq hx] at h
  split at h
  · simp at h
  · rename_i hexit
    exact handlerCookie_of_mem (not_uidFault fun h => hexit (.inl h)) h

/-- A redirect to a partner: the request got past the early exits and selected it. -/
lemma partnerUrl_spec {x : Exchange} {pid : ℤ} (h : x.out.exit = .partnerUrl pid) :
    Passes (userAgent x.headers) x.object ∧ selected x.env x.object = pid ∧ pid ≠ 0 ∧
      ∃ cs, setCookies x.out.rep = cs ++ [throttleCookie x.env x.object] := by
  have hf : ¬ UidFault x.table x.uri := not_uidFault (ne_of_eq_of_ne h (by simp))
  have hend := out_ends hf
  unfold setCookies
  generalize x.out = out at h hend
  cases hend with
  | partnerUrl hp hs hu hn =>
    simp only [headerLocation_exit, Exit.partnerUrl.injEq] at h
    subst h
    refine ⟨hp, rfl, hs, ?_⟩
    rw [headerLocation_cookies, marked_cookies, ← List.append_assoc]
    exact ⟨_, rfl⟩
  | _ => simp at h

lemma delivered_partnerUrl {x : Exchange} {pid : ℤ} (hx : CleanUid x)
    (h : x.out.exit = .partnerUrl pid) :
    ∃ cs, delivered x.out = cs ++ [throttleCookie x.env x.object] := by
  rw [delivered_eq hx, if_neg (by simp [h])]
  exact (partnerUrl_spec h).2.2.2

/-- A property of the jar that every cookie listed preserves is preserved by all of them. -/
lemma foldl_store_inv {I : Jar → Prop} {x : Exchange} {cs : List Bytes}
    (hcs : ∀ c ∈ cs, HandlerCookie x c)
    (h : ∀ jar c, HandlerCookie x c → I jar → I (store jar c)) {jar : Jar} (h0 : I jar) :
    I (cs.foldl store jar) := by
  induction cs generalizing jar with
  | nil => exact h0
  | cons c cs ih =>
    exact ih (fun d hd => hcs d (by simp [hd])) (h jar c (hcs c (by simp)) h0)

lemma next_inv {I : Jar → Prop} {x : Exchange} {jar : Jar} (hx : CleanUid x)
    (h : ∀ jar c, HandlerCookie x c → I jar → I (store jar c)) (h0 : I jar) : I (x.next jar) :=
  foldl_store_inv (fun _ hc => handlerCookie_of_delivered hx hc) h h0

/-! ### What the cookies store -/

lemma timeCookie_ne (pid : ℤ) : timeCookie pid ≠ COOKIE_KEY ∧ timeCookie pid ≠ COOKIE_MZ := by
  have h : timeCookie pid = 116 :: 95 :: toStr pid := rfl
  have ha : COOKIE_KEY = [97] := rfl
  have hz : COOKIE_MZ = [97, 109, 122] := rfl
  simp [h, ha, hz]

lemma nameOk_timeCookie (pid : ℤ) : NameOk (timeCookie pid) where
  ne_nil := by simp [timeCookie, COOKIE_TIME, lit]
  plain := by
    intro c hc
    rcases List.mem_append.mp hc with hc | hc
    · exact (by decide : ∀ c ∈ COOKIE_TIME, boundary c = false ∧ c ≠ 61) c hc
    · rcases mem_toStr hc with h | rfl
      · have h59 := isdigit_ne h (d := 59) (by decide)
        exact ⟨by simp [boundary, isspace_of_isdigit h, h59], isdigit_ne h (by decide)⟩
      · decide

lemma stored_eq_self {v : Bytes} (hv : ∀ c ∈ v, boundary c = false ∧ c ≠ 0) : stored v = v := by
  have h0 : cstr v = v := cstr_eq_self fun h => (hv 0 h).2 rfl
  have h59 : v.takeWhile (· ≠ 59) = v := by
    refine List.takeWhile_eq_self_iff.mpr fun c hc => ?_
    have : c ≠ 59 := by
      rintro rfl
      exact absurd (hv 59 hc).1 (by decide)
    simpa using this
  rw [stored, h0, h59, trim_eq_self fun c hc => wsp_boundary (hv c hc).1]

lemma plain_natStr (n : ℕ) : ∀ c ∈ natStr n, boundary c = false ∧ c ≠ 0 := by
  intro c hc
  have h := isdigit_of_mem_natStr hc
  have h59 := isdigit_ne h (d := 59) (by decide)
  exact ⟨by simp [boundary, isspace_of_isdigit h, h59], isdigit_ne h (by decide)⟩

lemma plain_rmid (ms r : ℕ) : ∀ c ∈ Helper.createRmidCookie ms r, boundary c = false ∧ c ≠ 0 :=
  fun c hc => (by decide : ∀ c ∈ Helper.BASE_STRING, boundary c = false ∧ c ≠ 0) c
    (Helper.createRmidCookie_subset ms r hc)

lemma store_rmidCookie (jar : Jar) (E : Env) :
    store jar (rmidCookie E) =
      jar.insert COOKIE_KEY (Helper.createRmidCookie E.rmidMs E.rmidRandom) := by
  rw [rmidCookie, store_setCookie jar E.localtime E.cookieTime _ (by decide) (by decide)
    (by decide +kernel) (by decide +kernel), if_neg (newRmid_ne_nil E),
    stored_eq_self (plain_rmid _ _)]

lemma store_mzCookie (jar : Jar) (E : Env) (uid : Bytes) :
    store jar (mzCookie E uid) =
      if uid = [] then jar.erase COOKIE_MZ else jar.insert COOKIE_MZ (stored uid) := by
  rw [mzCookie, store_setCookie jar E.localtime E.cookieTime _ (by decide) (by decide)
    (by decide +kernel) (by decide +kernel)]

lemma zero_not_mem_timeCookie (pid : ℤ) : (0 : UInt8) ∉ timeCookie pid := by
  intro h
  rcases List.mem_append.mp h with h | h
  · exact absurd h (by decide)
  · rcases mem_toStr h with h | h
    · exact absurd h (by decide)
    · exact absurd h (by decide)

lemma store_throttleCookie (jar : Jar) (E : Env) (o : Mapping) :
    store jar (throttleCookie E o) =
      jar.insert (timeCookie (selected E o)) (natStr E.markTime) := by
  rw [throttleCookie, store_setCookie jar E.localtime E.cookieTime _ (nameOk_timeCookie _)
    (zero_not_mem_timeCookie _) (by decide +kernel) (by decide +kernel),
    if_neg (natStr_ne_nil _), stored_eq_self (plain_natStr _)]

/-! ### What the handler reads -/

/-- A search for one of the names finds nothing in the values of the jar. -/
def Readable (N : Set Bytes) (jar : Jar) : Prop :=
  ∀ e ∈ jar.entries, NameOk e.1 ∧ ∀ n ∈ N, Silent n e.2

/-- The same for the cookies from elsewhere, which also have other names. -/
def ForeignOk (N : Set Bytes) (x : Exchange) : Prop :=
  ∀ f ∈ x.foreign, NameOk f.1 ∧ ∀ n ∈ N, Silent n f.2 ∧ f.1 ≠ n

lemma readable_insert {N : Set Bytes} {jar : Jar} {name v : Bytes} (h : Readable N jar)
    (hok : NameOk name) (hv : ∀ n ∈ N, Silent n v) : Readable N (jar.insert name v) := by
  intro e he
  rcases UMap.mem_insert he with rfl | he
  · exact ⟨hok, hv⟩
  · exact h e he

lemma readable_next {N : Set Bytes} {jar : Jar} {x : Exchange} (hx : CleanUid x)
    (h : Readable N jar)
    (huid : extOf x.uri = 6 → cookieMz x.headers = [] →
      ∀ n ∈ N, Silent n (stored (uidOf x.table x.uri))) : Readable N (x.next jar) := by
  refine next_inv hx (fun jar c hc hj => ?_) h
  cases hc with
  | rmid ha hf =>
    rw [store_rmidCookie]
    exact readable_insert hj (by decide) fun n _ =>
      silent_of_plain n fun c hc => (plain_rmid _ _ c hc).1
  | mz he hz =>
    rw [store_mzCookie]
    split
    · exact fun e he => hj e (UMap.mem_erase.mp he).1
    · exact readable_insert hj (by decide) (huid he hz)
  | throttle =>
    rw [store_throttleCookie]
    exact readable_insert hj (nameOk_timeCookie _) fun n _ =>
      silent_of_plain n fun c hc => (plain_natStr _ c hc).1

lemma readable_empty (N : Set Bytes) : Readable N UMap.empty := by simp [Readable, UMap.empty]

/-- **The handler reads the value in the jar**, unless the cookie is withheld. -/
theorem getCookie_presented {N : Set Bytes} {keep : Bytes → Bool} {jar : Jar} {x : Exchange}
    {name : Bytes} (hp : Presents keep jar x) (hj : Readable N jar) (hx : ForeignOk N x)
    (hN : name ∈ N) (hok : NameOk name) :
    getCookie x.cookieHeader name = if keep name then (jar.find name).getD [] else [] := by
  obtain ⟨cs, hperm, htext⟩ := hp
  have hmem : ∀ e, e ∈ cs ↔ (e ∈ jar.entries ∧ keep e.1 = true) ∨ e ∈ x.foreign := by
    intro e
    rw [hperm.mem_iff]
    simp
  have hcs : ∀ c ∈ cs, NameOk c.1 ∧ Silent name c.2 := by
    intro c hc
    rcases (hmem c).mp hc with ⟨hc, -⟩ | hc
    · exact ⟨(hj c hc).1, (hj c hc).2 name hN⟩
    · exact ⟨(hx c hc).1, ((hx c hc).2 name hN).1⟩
  have hlook : cs.lookup name = if keep name then jar.find name else none := by
    have hname : ∀ v, (name, v) ∈ cs ↔ keep name = true ∧ jar.find name = some v := by
      intro v
      rw [hmem, UMap.find_eq_some_iff, and_comm]
      exact or_iff_left fun hf => ((hx _ hf).2 name hN).2 rfl
    cases hl : cs.lookup name with
    | none =>
      have hno : ∀ v, (name, v) ∉ cs := fun v hv => by
        have := List.lookup_eq_none_iff.mp hl (name, v) hv
        simp at this
      split
      · rename_i hk
        cases hf : jar.find name with
        | none => rfl
        | some v => exact absurd ((hname v).mpr ⟨hk, hf⟩) (hno v)
      · rfl
    | some v =>
      obtain ⟨l₁, l₂, he, -⟩ := List.lookup_eq_some_iff.mp hl
      obtain ⟨hk, hf⟩ := (hname v).mp (by simp [he])
      rw [if_pos hk, hf]
  rw [htext, getCookie_cookieText hok hcs, hlook]
  split <;> rfl

end NgxMapping.BrowserSession
