import NgxMapping.BrowserSession
import NgxMapping.RedirectTarget

/-!
What a redirect and the throttle cookie have to do with each other.

The cookie of the selected partner is handed out before its url is looked at, and on the way
back to Tencent one partner's own url is tested and another one's used. Either way a request can
end with half of what belongs together.
-/

namespace NgxMapping.RedirectAnswer

open Lib HttpResponse PartnerTable TokenMatch MappingModel MappingSpec Answer RedirectTarget
open BrowserSession CookieHeader

/-! ### The cookie of a partner -/

/-- A cookie for the name: what a `Set-Cookie` value begins with. -/
def Names (name c : Bytes) : Prop := name ++ [61] <+: c

instance (name c : Bytes) : Decidable (Names name c) := inferInstanceAs (Decidable (_ <+: _))

lemma names_setCookie (localtime : ℤ → Tm) (now : ℕ) {name : Bytes} (value path domain : Bytes)
    (h0 : (0 : UInt8) ∉ name) :
    Names name (setCookie localtime now name value lifetime path domain) := by
  have hl : 0 < lifetime ∧ ¬ 253402300799 < lifetime := by decide
  unfold Names setCookie
  dsimp only
  rw [cstr_eq_self h0]
  by_cases hv : value = []
  · have hd : lit "=deleted; expires=" = [61] ++ lit "deleted; expires=" := by decide
    rw [if_pos hv, hd]
    simp only [← List.append_assoc]
    simp only [List.append_assoc (name ++ [61])]
    exact List.prefix_append _ _
  · rw [if_neg hv, if_pos hl.1, if_neg hl.2]
    simp only [List.append_assoc (name ++ lit "=")]
    exact List.prefix_append _ _

lemma names_unique {name name' c : Bytes} (hn : (61 : UInt8) ∉ name) (hn' : (61 : UInt8) ∉ name')
    (h : Names name c) (h' : Names name' c) : name = name' := by
  obtain ⟨t, ht⟩ := h
  obtain ⟨t', ht'⟩ := h'
  rw [← ht', List.append_assoc, List.append_assoc] at ht
  exact (append_cons_inj hn hn' ht).1

lemma equals_not_mem_timeCookie (pid : ℤ) : (61 : UInt8) ∉ timeCookie pid := fun h =>
  ((nameOk_timeCookie pid).plain 61 h).2 rfl

lemma names_throttleCookie {E : Env} {o : Mapping} {pid : ℤ} :
    Names (timeCookie pid) (throttleCookie E o) ↔ selected E o = pid := by
  have hown : Names (timeCookie (selected E o)) (throttleCookie E o) :=
    names_setCookie _ _ _ _ _ (zero_not_mem_timeCookie _)
  constructor
  · intro h
    have heq := names_unique (equals_not_mem_timeCookie _) (equals_not_mem_timeCookie _) hown h
    exact toStr_injective (List.append_cancel_left heq)
  · rintro rfl
    exact hown

lemma not_names_identityCookies {E : Env} {P : Partners} {headers : UMap Bytes Bytes}
    {uri c : Bytes} (pid : ℤ) (h : c ∈ identityCookies E P headers uri) :
    ¬ Names (timeCookie pid) c := by
  intro hp
  have hne := timeCookie_ne pid
  rcases List.mem_append.mp h with h | h
  · split at h
    · rw [List.mem_singleton.mp h] at hp
      exact hne.1 (names_unique (equals_not_mem_timeCookie pid) (by decide) hp
        (names_setCookie _ _ _ _ _ (by decide)))
    · simp at h
  · split at h
    · rw [List.mem_singleton.mp h] at hp
      exact hne.2 (names_unique (equals_not_mem_timeCookie pid) (by decide) hp
        (names_setCookie _ _ _ _ _ (by decide)))
    · simp at h

/-! ### Cookie and redirect -/

/-- The response hands out the throttle cookie of a partner. -/
def Marks (rep : Response) (pid : ℤ) : Prop := ∃ c ∈ rep.cookies, Names (timeCookie pid) c

/-- The response is the redirect made of the source partner's url for `pid`. -/
def Visits (E : Env) (P : Partners) (headers : UMap Bytes Bytes) (uri : Bytes) (pid : ℤ) : Prop :=
  (serve E P headers uri).exit = .partnerUrl pid ∧
    (serve E P headers uri).rep.status = some .movedTemporarily ∧
    ∃ p template, P.lookup (sourceOf uri) = some p ∧ p.url.find pid = some template ∧
      locations (serve E P headers uri).rep = [urlReplace E (object E P headers uri) template]

/-- A partner is selected, and there is no url to send the visitor to. -/
structure Stranded (E : Env) (P : Partners) (headers : UMap Bytes Bytes) (uri : Bytes) : Prop where
  known : ¬ UidFault P uri
  passes : Passes (userAgent headers) (object E P headers uri)
  selects : 0 < selected E (object E P headers uri)
  elsewhere : ¬ (extOf uri = 2 ∧ selected E (object E P headers uri) = 12 ∧
    (object E P headers uri).request.partner.self ≠ [])
  missing : ((object E P headers uri).request.partner.url.find
    (selected E (object E P headers uri))).getD [] = []

section

variable {E : Env} {P : Partners} {headers : UMap Bytes Bytes} {uri : Bytes}

lemma marks_iff (hf : ¬ UidFault P uri) (pid : ℤ) :
    Marks (serve E P headers uri).rep pid ↔
      ((serve E P headers uri).exit = .noUrl ∨
        ∃ q, (serve E P headers uri).exit = .partnerUrl q) ∧
      selected E (object E P headers uri) = pid := by
  have hid : ¬ ∃ c ∈ identityCookies E P headers uri, Names (timeCookie pid) c := by
    rintro ⟨c, hc, hp⟩
    exact not_names_identityCookies pid hc hp
  have hend := @serve_ends E P headers uri hf
  unfold Marks
  generalize serve E P headers uri = out at hend
  cases hend with
  | noUrl => simp [response_cookies, or_and_right, exists_or, names_throttleCookie, hid]
  | partnerUrl => simp [response_cookies, or_and_right, exists_or, names_throttleCookie, hid]
  | selfFault => simpa [response_cookies] using hid
  | _ => simpa [response_cookies] using hid

lemma visits_iff (hf : ¬ UidFault P uri) (pid : ℤ) :
    Visits E P headers uri pid ↔ (serve E P headers uri).exit = .partnerUrl pid := by
  refine ⟨fun h => h.1, fun hexit => ⟨hexit, ?_⟩⟩
  have hend := @serve_ends E P headers uri hf
  generalize serve E P headers uri = out at hend hexit
  cases hend with
  | partnerUrl h hs hu =>
    have hpid : selected E (object E P headers uri) = pid := by simpa using hexit
    obtain ⟨⟨p, hp⟩, -⟩ := errorOf_eq_error h.clean
    rw [chosen_url hs, object_partner E headers hp, hpid] at hu
    have hloc := chosen_url hs
    rw [object_partner E headers hp, hpid] at hloc
    cases hfind : p.url.find pid with
    | none => simp [hfind] at hu
    | some template =>
      rw [hfind, Option.getD_some] at hloc
      refine ⟨headerLocation_status .., p, template, hp, hfind, ?_⟩
      rw [locations_headerLocation, locations_marked, locations_response, hloc]
      rfl
  | _ => simp at hexit

lemma exit_partnerUrl {q : ℤ} (h : (serve E P headers uri).exit = .partnerUrl q) :
    selected E (object E P headers uri) = q :=
  (partnerUrl_spec (x := ⟨E, P, headers, uri, []⟩) h).2.1

lemma stranded_iff (hf : ¬ UidFault P uri) :
    Stranded E P headers uri ↔
      (serve E P headers uri).exit = .noUrl ∧ 0 < selected E (object E P headers uri) := by
  constructor
  · rintro ⟨-, hpass, hs, hn, hu⟩
    have h0 : selected E (object E P headers uri) ≠ 0 := by omega
    rw [serve_of_ends hf (.noUrl hpass h0 ((chosen_url h0).trans hu) hn)]
    exact ⟨rfl, hs⟩
  · rintro ⟨hexit, hs⟩
    have hend := @serve_ends E P headers uri hf
    generalize serve E P headers uri = out at hend hexit
    cases hend with
    | noUrl h h0 hurl hn => exact ⟨hf, h, hs, hn, (chosen_url h0).symm.trans hurl⟩
    | _ => simp at hexit

end

/-- **The throttle cookie goes with the redirect, unless a partner without a url is selected.** -/
theorem throttle_iff_redirect (E : Env) (P : Partners) (headers : UMap Bytes Bytes) (uri : Bytes) :
    (∀ pid, 0 < pid → (Marks (serve E P headers uri).rep pid ↔ Visits E P headers uri pid)) ↔
      ¬ Stranded E P headers uri := by
  by_cases hf : UidFault P uri
  · refine iff_of_true (fun pid _ => ?_) fun h => h.known hf
    have hcookies : (gifResponse {}).cookies = [] := by decide
    simp [Marks, Visits, serve_fault hf, hcookies]
  · rw [stranded_iff hf]
    constructor
    · rintro h ⟨hexit, hs⟩
      -- the cookie is there, and the exit is another one
      have hmark := (marks_iff hf _).mpr ⟨.inl hexit, rfl⟩
      have hvisit := ((h _ hs).mp hmark).1
      rw [hexit] at hvisit
      exact absurd hvisit (by simp)
    · intro hno pid hpid
      rw [marks_iff hf, visits_iff hf]
      constructor
      · rintro ⟨hexit | ⟨q, hexit⟩, rfl⟩
        · exact absurd ⟨hexit, hpid⟩ hno
        · rw [hexit, exit_partnerUrl hexit]
      · intro hexit
        exact ⟨.inr ⟨pid, hexit⟩, exit_partnerUrl hexit⟩

/-- A partner with a weight and a cycle for partner 4, and no url. -/
def urllessTable : Partners :=
  .ofList [(3, { open_ := 1, type := 1, uid := lit "aid"
                 weight := ⟨[(4, 90)], by decide⟩
                 expires := ⟨[(4, 600)], by decide⟩ })] (by decide) (by decide)

/-- The request ends with the error that there is no url, and partner 4 is marked as visited. -/
theorem throttle_without_redirect :
    Marks (serve (.still 1500000000) urllessTable UMap.empty (lit "/m.gif?ext=3")).rep 4 ∧
    (lit "error", lit "5") ∈
      (serve (.still 1500000000) urllessTable UMap.empty (lit "/m.gif?ext=3")).rep.added ∧
    ¬ Visits (.still 1500000000) urllessTable UMap.empty (lit "/m.gif?ext=3") 4 := by
  refine ⟨by unfold Marks; decide +kernel, by decide +kernel, fun h => ?_⟩
  exact absurd h.1 (by decide +kernel)

/-! ### The target of a redirect -/

lemma values_ne_nil {E : Env} {P : Partners} {headers : UMap Bytes Bytes} {uri : Bytes}
    (h : errorOf P headers uri = .error) :
    ∀ value ∈ values E (object E P headers uri), value ≠ [] := by
  obtain ⟨⟨p, hp⟩, ha⟩ := errorOf_eq_error h
  obtain ⟨i, -, hi⟩ := Partners.lookup_some hp
  intro value hv
  simp only [values, List.mem_cons, List.not_mem_nil, or_false] at hv
  rcases hv with rfl | rfl | rfl | rfl
  · exact fun hr => ha ((rmidOf_eq_nil_iff E headers uri).mp hr)
  · exact natStr_ne_nil _
  · exact natStr_ne_nil _
  · show sourceOf uri ≠ []
    rw [hi]
    exact natStr_ne_nil i

lemma urlReplace_eq_nil_iff {E : Env} {P : Partners} {headers : UMap Bytes Bytes} {uri : Bytes}
    (h : errorOf P headers uri = .error) (template : Bytes) :
    urlReplace E (object E P headers uri) template = [] ↔ template = [] := by
  constructor
  · contrapose!
    refine urlReplace_inv (I := fun url => url ≠ []) fun key _ value hv url hu => ?_
    rw [replaceAll_eq]
    exact replaceWord_ne_nil (values_ne_nil h value hv) hu
  · rintro rfl
    rfl

/-- A return from Tencent whose source has an own url while Tencent has none. -/
structure Targetless (E : Env) (P : Partners) (headers : UMap Bytes Bytes) (uri : Bytes) :
    Prop where
  known : ¬ UidFault P uri
  passes : Passes (userAgent headers) (object E P headers uri)
  ext : extOf uri = 2
  selects : selected E (object E P headers uri) = 12
  tested : (object E P headers uri).request.partner.self ≠ []
  used : ∃ p, P.lookup (lit "2") = some p ∧ p.self = []

/-- **A redirect has a target, unless Tencent's own url is used and empty.** -/
theorem redirect_has_target_iff (E : Env) (P : Partners) (headers : UMap Bytes Bytes)
    (uri : Bytes) :
    ((serve E P headers uri).rep.status = some .movedTemporarily →
      ∃ value, locations (serve E P headers uri).rep = [value] ∧ value ≠ []) ↔
      ¬ Targetless E P headers uri := by
  by_cases hf : UidFault P uri
  · refine iff_of_true (fun hs => ?_) fun h => h.known hf
    rw [serve_fault hf] at hs
    exact absurd hs (by decide)
  constructor
  · rintro h ⟨-, hpass, he, hs, hself, p, hp, hempty⟩
    have hl : P.lookup (toStr (object E P headers uri).ext) = some p := by
      rw [show (object E P headers uri).ext = 2 from he]
      exact hp
    rw [serve_of_ends hf (.tencentSelf hpass he hs hself hl)] at h
    obtain ⟨value, hv, hne⟩ := h (headerLocation_status ..)
    rw [locations_headerLocation, locations_response, hempty, List.nil_append,
      List.singleton_inj] at hv
    exact hne hv.symm
  · intro hno hs
    have hend := @serve_ends E P headers uri hf
    generalize serve E P headers uri = out at hend hs
    -- the three redirects; every other exit has another status
    cases hend with
    | @tencentSelf hpass he h12 hself p hl =>
      refine ⟨urlReplace E (object E P headers uri) p.self, ?_, fun hnil => hno ?_⟩
      · rw [locations_headerLocation, locations_response]
        rfl
      · rw [he] at hl
        exact ⟨hf, hpass, he, h12, hself, p, hl, (urlReplace_eq_nil_iff hpass.clean _).mp hnil⟩
    | ownSelf hpass _ hself =>
      refine ⟨urlReplace E (object E P headers uri) (object E P headers uri).request.partner.self,
        ?_, fun hnil => hself ((urlReplace_eq_nil_iff hpass.clean _).mp hnil)⟩
      rw [locations_headerLocation, locations_response]
      rfl
    | partnerUrl hpass _ hurl =>
      refine ⟨urlReplace E (object E P headers uri) (chosen E (object E P headers uri)).request.url,
        ?_, fun hnil => hurl ((urlReplace_eq_nil_iff hpass.clean _).mp hnil)⟩
      rw [locations_headerLocation, locations_marked, locations_response]
      rfl
    | selfFault => simp [response_status] at hs
    | _ => simp at hs

/-- Tencent without an own url, and a partner that has one and may go on to partner 12. -/
def tencentTable : Partners :=
  .ofList [(2, { open_ := 1, type := 1, uid := lit "uid" }),
    (3, { open_ := 1, type := 1, uid := lit "aid", self := lit "http://q.cn/"
          weight := ⟨[(12, 100)], by decide⟩
          expires := ⟨[(12, 600)], by decide⟩ })] (by decide) (by decide)

/-- A return from Tencent is redirected to nowhere. -/
theorem redirect_without_target :
    (serve (.still 1500000000) tencentTable ⟨[(lit "Cookie", lit "a=P7z")], by decide⟩
      (lit "/m.gif?ext=2&ext=3")).rep.status = some .movedTemporarily ∧
    locations (serve (.still 1500000000) tencentTable ⟨[(lit "Cookie", lit "a=P7z")], by decide⟩
      (lit "/m.gif?ext=2&ext=3")).rep = [[]] := by
  decide +kernel

end NgxMapping.RedirectAnswer
