import NgxMapping.RedirectTarget

/-!
`url_replace` as a substitution.

The four passes put one value after the other into the template. No value that the handler
makes has a dollar sign, so none of them opens a new placeholder, and the passes together put
all values in at once. What is sent to partner 7 is that text as it stands, although the source
means to escape it.
-/

namespace NgxMapping.UrlExpand

open Lib HttpResponse PartnerTable MappingModel MappingSpec Answer RedirectTarget

/-- The placeholders with what is put in for them. -/
def bindings (E : Env) (o : Mapping) : List (Bytes × Bytes) :=
  [(lit "$\x7brmid\x7d", o.rmid), (lit "$\x7btime\x7d", natStr E.urlTime),
    (lit "$\x7brandom\x7d", natStr E.urlNs), (lit "$\x7bsource\x7d", o.request.source)]

lemma bindings_keys (E : Env) (o : Mapping) : (bindings E o).map Prod.fst = placeholders := rfl

lemma urlReplace_eq_foldl (E : Env) (o : Mapping) {url : Bytes} (hu : url ≠ []) :
    urlReplace E o url =
      (bindings E o).foldl (fun url kv => replaceAll kv.1 kv.2 url) url := by
  unfold urlReplace
  rw [if_neg (by simpa using hu)]
  rfl

lemma dollar_not_mem_natStr (n : ℕ) : (36 : UInt8) ∉ natStr n := fun h =>
  absurd (isdigit_of_mem_natStr h) (by decide)

lemma marked_bindings {E : Env} {o : Mapping} (hr : 36 ∉ o.rmid) (hs : 36 ∉ o.request.source) :
    Marked 36 (bindings E o) where
  key := by
    intro kv hkv
    simp only [bindings, List.mem_cons, List.not_mem_nil, or_false] at hkv
    rcases hkv with rfl | rfl | rfl | rfl <;> exact ⟨_, rfl, by decide⟩
  value := by
    intro kv hkv
    simp only [bindings, List.mem_cons, List.not_mem_nil, or_false] at hkv
    rcases hkv with rfl | rfl | rfl | rfl
    · exact hr
    · exact dollar_not_mem_natStr _
    · exact dollar_not_mem_natStr _
    · exact hs
  apart := by
    have h : placeholders.Pairwise fun a b => ¬ a <+: b ∧ ¬ b <+: a := by decide
    rw [← bindings_keys E o, List.pairwise_map] at h
    exact h

/-- **`url_replace` puts all values in at once and leaves no placeholder.** -/
theorem urlReplace_eq_substitute (E : Env) (o : Mapping) (template : Bytes)
    (ht : Covered 36 placeholders template) (hr : 36 ∉ o.rmid) (hs : 36 ∉ o.request.source) :
    urlReplace E o template = substitute (bindings E o) template ∧
      ¬ HasPlaceholder (urlReplace E o template) := by
  have hm : Marked 36 (bindings E o) := marked_bindings hr hs
  have heq : urlReplace E o template = substitute (bindings E o) template := by
    rcases eq_or_ne template [] with rfl | hne
    · rfl
    · rw [urlReplace_eq_foldl E o hne]
      simp only [replaceAll_eq]
      exact hm.foldl_replaceWord ht
  refine ⟨heq, ?_⟩
  rintro ⟨key, hkey, hin⟩
  obtain ⟨rest, rfl⟩ := eq_dollar_of_mem_placeholders hkey
  have hdollar : (36 : UInt8) ∈ urlReplace E o template := hin.subset (by simp)
  rw [heq] at hdollar
  exact hm.not_mem_substitute ht hdollar

/-- An object with an identifier as the handler makes them. -/
def sampleObject : Mapping where
  request := { partner := { open_ := 1, type := 1 }, source := lit "4" }
  rmid := lit "P7z"

/-- A template with two of its placeholders side by side. -/
def sampleUrl : Bytes := lit "u?$\x7brmid\x7d$\x7bsource\x7d&$\x7brmid\x7d"

theorem urlReplace_eq_substitute_sides :
    urlReplace (.still 15) sampleObject sampleUrl = lit "u?P7z4&P7z" ∧
      ¬ HasPlaceholder (urlReplace (.still 15) sampleObject sampleUrl) := by
  have h := urlReplace_eq_substitute (.still 15) sampleObject sampleUrl (by decide) (by decide)
    (by decide)
  exact ⟨by rw [h.1]; decide, h.2⟩

/-! ### The redirect to AdMaster

The return address in the template of partner 7 is a parameter of the partner's own URL, so an
`&s=` in it has to be written as `%26s=`. The block that does so assigns to a variable of its
own.
-/

/-- Every `&s=` escaped, as the block for partner 7 wants it. -/
def escaped (url : Bytes) : Bytes := replaceAll (lit "&s=") (lit "%26s=") url

lemma escaped_eq_self_iff (url : Bytes) : escaped url = url ↔ ¬ lit "&s=" <:+: url := by
  rw [escaped, replaceAll_eq]
  exact replaceWord_eq_self_iff (by decide) (by decide) url

lemma infix_replaceAll {key url : Bytes} (hk : key ∈ placeholders) (value : Bytes)
    (h : lit "&s=" <:+: url) : lit "&s=" <:+: replaceAll key value url := by
  have hand : (38 : UInt8) ∉ key := (by decide : ∀ key ∈ placeholders, (38 : UInt8) ∉ key) key hk
  obtain ⟨rest, rfl⟩ := eq_dollar_of_mem_placeholders hk
  rw [replaceAll_eq]
  exact infix_replaceWord value (by decide) hand h

lemma infix_replaceAll_natStr {key url : Bytes} (hk : key ∈ placeholders) (n : ℕ) :
    lit "&s=" <:+: replaceAll key (natStr n) url ↔ lit "&s=" <:+: url := by
  refine ⟨fun h => ?_, infix_replaceAll hk _⟩
  have hne : key ≠ [] := by
    obtain ⟨rest, rfl⟩ := eq_dollar_of_mem_placeholders hk
    simp
  have hd : ∀ c ∈ lit "&s=", c ∉ natStr n := by
    intro c hc hn
    have hno := (by decide : ∀ c ∈ lit "&s=", isdigit c = false) c hc
    rw [isdigit_of_mem_natStr hn] at hno
    exact absurd hno (by simp)
  rw [replaceAll_eq] at h
  exact infix_of_infix_replaceWord hne (natStr_ne_nil n) hd h

lemma infix_urlReplace_iff {E : Env} {o : Mapping} {template : Bytes} {i : ℕ}
    (hsource : o.request.source = natStr i) (hne : template ≠ []) :
    lit "&s=" <:+: urlReplace E o template ↔
      lit "&s=" <:+: replaceAll (lit "$\x7brmid\x7d") o.rmid template := by
  rw [urlReplace_eq_foldl E o hne, bindings, hsource]
  simp only [List.foldl_cons, List.foldl_nil]
  rw [infix_replaceAll_natStr (by decide), infix_replaceAll_natStr (by decide),
    infix_replaceAll_natStr (by decide)]

/-- `dofilter` selects a partner for the request, with a template for it. -/
structure Selects (E : Env) (P : Partners) (headers : UMap Bytes Bytes) (uri : Bytes) (pid : ℤ)
    (template : Bytes) : Prop where
  known : ¬ UidFault P uri
  passes : Passes (userAgent headers) (object E P headers uri)
  selects : selected E (object E P headers uri) = pid
  listed : (object E P headers uri).request.partner.url.find pid = some template
  ne_nil : template ≠ []

lemma Selects.locations_eq {E : Env} {P : Partners} {headers : UMap Bytes Bytes} {uri : Bytes}
    {pid : ℤ} {template : Bytes} (h : Selects E P headers uri pid template) (h0 : pid ≠ 0)
    (h12 : pid ≠ 12) :
    locations (serve E P headers uri).rep =
      [urlReplace E (object E P headers uri) template] := by
  have hpid := h.selects
  have hs : selected E (object E P headers uri) ≠ 0 := hpid ▸ h0
  have hurl : (chosen E (object E P headers uri)).request.url = template := by
    rw [chosen_url hs, hpid, h.listed]
    rfl
  rw [serve_of_ends h.known (.partnerUrl h.passes hs (hurl ▸ h.ne_nil)
    fun hn => h12 (hpid.symm.trans hn.2.1))]
  rw [locations_headerLocation, locations_marked, locations_response, hurl]
  rfl

/-- **The redirect to AdMaster is escaped exactly when there is nothing to escape**, never for a
template with an `&s=`. -/
theorem admaster_escaped_iff (E : Env) (P : Partners) (headers : UMap Bytes Bytes)
    (uri template : Bytes) (h : Selects E P headers uri 7 template) :
    (locations (serve E P headers uri).rep =
        [escaped (urlReplace E (object E P headers uri) template)] ↔
      ¬ lit "&s=" <:+: replaceAll (lit "$\x7brmid\x7d") (rmidOf E headers uri) template) ∧
    (lit "&s=" <:+: template →
      locations (serve E P headers uri).rep ≠
        [escaped (urlReplace E (object E P headers uri) template)]) := by
  obtain ⟨⟨p, hp⟩, -⟩ := errorOf_eq_error h.passes.clean
  obtain ⟨i, -, hi⟩ := Partners.lookup_some hp
  have hin := @infix_urlReplace_iff E (object E P headers uri) template i hi h.ne_nil
  have hiff : locations (serve E P headers uri).rep =
      [escaped (urlReplace E (object E P headers uri) template)] ↔
      ¬ lit "&s=" <:+: replaceAll (lit "$\x7brmid\x7d") (rmidOf E headers uri) template := by
    rw [h.locations_eq (by decide) (by decide), List.singleton_inj, eq_comm, escaped_eq_self_iff,
      hin]
    rfl
  refine ⟨hiff, fun hs heq => ?_⟩
  exact hiff.mp heq (infix_replaceAll (by decide) _ hs)

/-- The template of the partner: its return address ends in the source. -/
def admasterUrl : Bytes := lit "http://v.cn/?redir=m.cn/r.gif?ext=7&s=$\x7bsource\x7d"

/-- A partner that may send its visitors on to AdMaster. -/
def admasterTable : Partners :=
  .ofList [(3, { open_ := 1, type := 1, uid := lit "aid"
                 weight := ⟨[(7, 100)], by decide⟩
                 expires := ⟨[(7, 600)], by decide⟩
                 url := ⟨[(7, admasterUrl)], by decide⟩ })] (by decide) (by decide)

lemma selects_admaster :
    Selects (.still 1500000000) admasterTable UMap.empty (lit "/m.gif?ext=3") 7 admasterUrl where
  known := fun h => absurd h.2.2 (by decide +kernel)
  passes := ⟨by decide +kernel, by decide +kernel, by decide +kernel⟩
  selects := by decide +kernel
  listed := by decide +kernel
  ne_nil := by decide

/-- A visitor of partner 3 is sent on to AdMaster. -/
theorem admaster_escaped_iff_visit :
    ¬ locations (serve (.still 1500000000) admasterTable UMap.empty (lit "/m.gif?ext=3")).rep =
      [lit "http://v.cn/?redir=m.cn/r.gif?ext=7%26s=3"] := by
  have h := admaster_escaped_iff _ _ _ _ _ selects_admaster
  have hval : escaped (urlReplace (.still 1500000000) (object (.still 1500000000) admasterTable
      UMap.empty (lit "/m.gif?ext=3")) admasterUrl) =
      lit "http://v.cn/?redir=m.cn/r.gif?ext=7%26s=3" := by decide +kernel
  rw [← hval]
  exact h.2 (by decide)

/-- The source of the return address is sent as a parameter of AdMaster. -/
theorem admaster_not_escaped :
    Selects (.still 1500000000) admasterTable UMap.empty (lit "/m.gif?ext=3") 7 admasterUrl ∧
    locations (serve (.still 1500000000) admasterTable UMap.empty (lit "/m.gif?ext=3")).rep =
      [lit "http://v.cn/?redir=m.cn/r.gif?ext=7&s=3"] ∧
    locations (serve (.still 1500000000) admasterTable UMap.empty (lit "/m.gif?ext=3")).rep ≠
      [escaped (urlReplace (.still 1500000000) (object (.still 1500000000) admasterTable
        UMap.empty (lit "/m.gif?ext=3")) admasterUrl)] :=
  ⟨selects_admaster, by decide +kernel, by decide +kernel⟩

end NgxMapping.UrlExpand
