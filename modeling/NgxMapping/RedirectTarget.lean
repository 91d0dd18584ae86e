import NgxMapping.Answer
import NgxMapping.Lib.Substitute

/-!
Where a redirect leads.

The four passes of `url_replace` run over a text into which the first of them has put a cookie
of the client. None of them touches what stands in front of the first placeholder, since a
match starts with a dollar sign.
-/

namespace NgxMapping.RedirectTarget

open Lib HttpResponse PartnerTable TokenMatch MappingModel MappingSpec Answer

def HasPlaceholder (template : Bytes) : Prop := ∃ key ∈ placeholders, key <:+: template

instance (template : Bytes) : Decidable (HasPlaceholder template) :=
  inferInstanceAs (Decidable (∃ key ∈ placeholders, key <:+: template))

/-- The text in front of the first placeholder. -/
def lead : Bytes → Bytes
  | [] => []
  | c :: s => if ∃ key ∈ placeholders, key <+: c :: s then [] else c :: lead s

/-- No dollar sign stands in front of the first placeholder. -/
def Sound (template : Bytes) : Prop := HasPlaceholder template → 36 ∉ lead template

instance (template : Bytes) : Decidable (Sound template) :=
  inferInstanceAs (Decidable (_ → _))

lemma lead_prefix_self (template : Bytes) : lead template <+: template := by
  induction template with
  | nil => exact List.prefix_refl []
  | cons c s ih =>
    unfold lead
    split
    · exact List.nil_prefix
    · exact List.cons_prefix_cons.mpr ⟨rfl, ih⟩

/-! ### `url_replace` -/

lemma eq_dollar_of_mem_placeholders {key : Bytes} (h : key ∈ placeholders) :
    ∃ rest, key = 36 :: rest := by
  simp only [placeholders, List.mem_cons, List.not_mem_nil, or_false] at h
  rcases h with rfl | rfl | rfl | rfl <;> exact ⟨_, rfl⟩

lemma replaceAll_eq (key value url : Bytes) :
    replaceAll key value url = replaceWord key value url := by
  unfold replaceAll replaceWord
  congr 1
  funext c
  cases c <;> rfl

lemma prefix_replaceAll {x : UInt8} {rest value u url : Bytes} (hx : x ∉ u) (hu : u <+: url) :
    u <+: replaceAll (x :: rest) value url := by
  obtain ⟨s, rfl⟩ := hu
  rw [replaceAll_eq, replaceWord_append value hx]
  exact List.prefix_append u _

lemma replaceAll_eq_self {key value url : Bytes} (hk : ¬ key <:+: url) :
    replaceAll key value url = url := by
  rw [replaceAll_eq, replaceWord_self value hk]

/-- What a redirect keeps of its template, whatever is put in. -/
def FromTemplate (template value : Bytes) : Prop :=
  lead template <+: value ∧ (¬ HasPlaceholder template → value = template)

lemma urlReplace_fromTemplate (E : Env) (o : Mapping) {template : Bytes} (hs : Sound template) :
    FromTemplate template (urlReplace E o template) := by
  have hself : ¬ HasPlaceholder template → urlReplace E o template = template := by
    intro hn
    refine urlReplace_inv (I := fun url => url = template) (fun key hk value _ url hu => ?_) rfl
    rw [hu]
    exact replaceAll_eq_self fun hin => hn ⟨key, hk, hin⟩
  refine ⟨?_, hself⟩
  by_cases hp : HasPlaceholder template
  · refine urlReplace_inv (I := fun url => lead template <+: url) (fun key hk value _ url hu => ?_)
      (lead_prefix_self template)
    obtain ⟨rest, rfl⟩ := eq_dollar_of_mem_placeholders hk
    exact prefix_replaceAll (hs hp) hu
  · rw [hself hp]
    exact lead_prefix_self template

/-! ### The `Location` header -/

/-- The values added under `Location`. -/
def locations (r : Response) : List Bytes :=
  (r.added.filter fun a => a.1 = lit "Location").map Prod.snd

lemma mem_locations_iff {r : Response} {value : Bytes} :
    value ∈ locations r ↔ (lit "Location", value) ∈ r.added := by
  simp [locations]

lemma locations_addHeader (r : Response) (h v : Bytes) :
    locations (r.addHeader h v) = locations r ++ if h = lit "Location" then [v] else [] := by
  unfold locations
  rw [added_addHeader, List.filter_append, List.map_append]
  by_cases hh : h = lit "Location"
  · simp [hh]
  · simp [hh]

@[simp] lemma locations_setStatus (r : Response) (s : StatusType) :
    locations (r.setStatus s) = locations r := rfl

@[simp] lemma locations_endNormal (E : Env) (x : Exit) (o : Mapping) (rep : Response) :
    locations (endNormal E x o rep).rep = locations rep := by
  rw [endNormal, locations_addHeader, if_neg (by decide), List.append_nil, locations_setStatus]

@[simp] lemma locations_headerLocation (E : Env) (x : Exit) (o : Mapping) (rep : Response)
    (url : Bytes) :
    locations (headerLocation E x o rep url).rep = locations rep ++ [url] := by
  rw [headerLocation, locations_addHeader, if_pos rfl, locations_addHeader, if_neg (by decide),
    List.append_nil, locations_setStatus]

@[simp] lemma locations_marked (E : Env) (o : Mapping) (rep : Response) :
    locations (marked E o rep) = locations rep := by
  rw [marked, locations_addHeader, if_neg (by decide), List.append_nil]

lemma locations_gifResponse : locations (gifResponse {}) = [] := by decide

lemma locations_response (E : Env) (P : Partners) (headers : UMap Bytes Bytes) (uri : Bytes) :
    locations (response E P headers uri) = [] := by
  refine response_inv (I := fun r => locations r = []) locations_gifResponse fun r c hr => ?_
  rw [locations_addHeader, if_neg (by decide), List.append_nil, hr]

/-- The templates a redirect for an object can come from. -/
def Template (E : Env) (P : Partners) (o : Mapping) (template : Bytes) : Prop :=
  template = o.request.partner.self ∨ (∃ p, P.lookup (lit "2") = some p ∧ template = p.self) ∨
    o.request.partner.url.find (selected E o) = some template

lemma answer_locations {E : Env} {P : Partners} {ua : Bytes} {o : Mapping} {rep : Response}
    (hm : o.request.m = 0) (hu : o.request.url = []) (hr : locations rep = []) {value : Bytes}
    (hv : value ∈ locations (answer E P ua o rep).rep) :
    o.request.error = .error ∧
      ∃ template, Template E P o template ∧ value = urlReplace E (chosen E o) template := by
  have h := @answer_ends E P ua o rep hm hu
  generalize answer E P ua o rep = out at h hv
  cases h with
  | error h => simp [hr] at hv
  | closed h ho => simp [hr] at hv
  | mobile h ho he hm => simp [hr] at hv
  | selfFault h he hs hself hl => simp [hr] at hv
  | @tencentSelf h he hs hself p hl =>
    have hv : value = urlReplace E (chosen E o) p.self := by simpa [hr] using hv
    rw [he] at hl
    exact ⟨h.clean, p.self, .inr (.inl ⟨p, hl, rfl⟩), hv⟩
  | ownSelf h hs hself =>
    have hv : value = urlReplace E (chosen E o) o.request.partner.self := by simpa [hr] using hv
    exact ⟨h.clean, o.request.partner.self, .inl rfl, hv⟩
  | nothing h hs hself => simp [hr] at hv
  | noUrl h hs hu hn => simp [hr] at hv
  | partnerUrl h hs hurl hn =>
    have hv : value = urlReplace E (chosen E o) (chosen E o).request.url := by simpa [hr] using hv
    refine ⟨h.clean, (chosen E o).request.url, .inr (.inr ?_), hv⟩
    rw [chosen_url hs] at hurl ⊢
    cases hf : o.request.partner.url.find (selected E o) with
    | none => simp [hf] at hurl
    | some url => rfl

lemma serve_locations {E : Env} {P : Partners} {headers : UMap Bytes Bytes} {uri value : Bytes}
    (h : (lit "Location", value) ∈ (serve E P headers uri).rep.added) :
    (object E P headers uri).request.error = .error ∧
      ∃ template, Template E P (object E P headers uri) template ∧
        value = urlReplace E (object E P headers uri) template := by
  rw [← mem_locations_iff] at h
  by_cases hf : UidFault P uri
  · rw [serve_fault hf, locations_gifResponse] at h
    exact absurd h List.not_mem_nil
  · rw [serve_ok hf] at h
    exact answer_locations rfl rfl (locations_response E P headers uri) h

/-- All templates of a partner are sound. -/
def SoundPartner (p : Partner) : Prop := Sound p.self ∧ ∀ e ∈ p.url.entries, Sound e.2

instance (p : Partner) : Decidable (SoundPartner p) := inferInstanceAs (Decidable (_ ∧ _))

/-- **No open redirect.** -/
theorem location_of_template (E : Env) (P : Partners) (headers : UMap Bytes Bytes) (uri : Bytes)
    (hP : ∀ e ∈ P.map.entries, SoundPartner e.2) :
    ∀ value, (lit "Location", value) ∈ (serve E P headers uri).rep.added →
      ∃ p, P.lookup (sourceOf uri) = some p ∧ ∃ template,
        (template = p.self ∨ (∃ p2, P.lookup (lit "2") = some p2 ∧ template = p2.self) ∨
          p.url.find (selected E (object E P headers uri)) = some template) ∧
        lead template <+: value ∧ (¬ HasPlaceholder template → value = template) := by
  intro value hmem
  have hP : ∀ id p, P.lookup id = some p → SoundPartner p := fun id p hp =>
    hP _ (UMap.find_eq_some_iff.mp hp)
  obtain ⟨he, template, ht, rfl⟩ := serve_locations hmem
  obtain ⟨⟨p, hp⟩, -⟩ := errorOf_eq_error he
  rw [Template, object_partner E headers hp] at ht
  refine ⟨p, hp, template, ht, urlReplace_fromTemplate E _ ?_⟩
  rcases ht with rfl | ⟨p2, hp2, rfl⟩ | hurl
  · exact (hP _ _ hp).1
  · exact (hP _ _ hp2).1
  · exact (hP _ _ hp).2 _ (UMap.find_eq_some_iff.mp hurl)

/-- A partner with a template for its own return and one for partner 4. -/
def returnTable : Partners :=
  .ofList [(3, { open_ := 1, type := 1, uid := lit "aid",
                 self := lit "http://g.cn/?a=$\x7brmid\x7d",
                 url := ⟨[(4, lit "http://m.cn/")], by decide⟩ })] (by decide) (by decide)

/-- A cookie that names a placeholder itself. -/
theorem location_of_template_return :
    (lit "Location", lit "http://g.cn/?a=3") ∈ (serve (.still 1500000000) returnTable
      ⟨[(lit "Cookie", lit "a=$\x7bsource\x7d")], by decide⟩ (lit "/m.gif?ext=3")).rep.added ∧
    ∃ p, returnTable.lookup (sourceOf (lit "/m.gif?ext=3")) = some p ∧ ∃ template,
      (template = p.self ∨ (∃ p2, returnTable.lookup (lit "2") = some p2 ∧ template = p2.self) ∨
        p.url.find (selected (.still 1500000000) (object (.still 1500000000) returnTable
          ⟨[(lit "Cookie", lit "a=$\x7bsource\x7d")], by decide⟩ (lit "/m.gif?ext=3"))) =
            some template) ∧
      lead template <+: lit "http://g.cn/?a=3" ∧
        (¬ HasPlaceholder template → lit "http://g.cn/?a=3" = template) :=
  have hmem : (lit "Location", lit "http://g.cn/?a=3") ∈ (serve (.still 1500000000) returnTable
      ⟨[(lit "Cookie", lit "a=$\x7bsource\x7d")], by decide⟩
      (lit "/m.gif?ext=3")).rep.added := by decide +kernel
  ⟨hmem, location_of_template (.still 1500000000) returnTable
    ⟨[(lit "Cookie", lit "a=$\x7bsource\x7d")], by decide⟩ (lit "/m.gif?ext=3") (by decide) _ hmem⟩

end NgxMapping.RedirectTarget
