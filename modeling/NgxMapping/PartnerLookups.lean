import NgxMapping.Answer

/-!
The lookups of partners that the handler does not test.

The source partner is looked up and tested. The partner of the code is looked up twice more,
for the name of its user id parameter and, on the way back to Tencent, for its own URL, and
the result is used untested.
-/

namespace NgxMapping.PartnerLookups

open Lib HttpRequest HttpResponse PartnerTable TokenMatch MappingModel MappingSpec Answer

lemma exit_selfFault_iff {E : Env} {P : Partners} {ua : Bytes} {o : Mapping} {rep : Response}
    (hm : o.request.m = 0) (hu : o.request.url = []) :
    (answer E P ua o rep).exit = .selfFault ↔
      Passes ua o ∧ o.ext = 2 ∧ selected E o = 12 ∧ o.request.partner.self ≠ [] ∧
        P.lookup (toStr o.ext) = none := by
  have h := @answer_ends E P ua o rep hm hu
  generalize answer E P ua o rep = out at h
  cases h with
  | error h => simpa using fun hp : Passes ua o => absurd hp.clean h
  | closed h ho => simpa using fun hp : Passes ua o => absurd ho hp.isOpen
  | mobile h ho he hm => simpa using fun hp : Passes ua o => by have := hp.desktop; omega
  | selfFault h he hs hself hl => simp [h, he, hs, hself, ← hl]
  | tencentSelf h he hs hself hl => simp [hl]
  | ownSelf h hs hself => simp [hs]
  | nothing h hs hself => simp [hs]
  | noUrl h hs hu hn => simpa using fun _ h1 h2 h3 => absurd ⟨h1, h2, h3⟩ hn
  | partnerUrl h hs hu hn => simpa using fun _ h1 h2 h3 => absurd ⟨h1, h2, h3⟩ hn

/-- No partner is read that is not there: when the source partner is known, so is the partner
of the code, or else the URL is that of the `ad.gif` pixel and the request is no return from
Tencent that is sent on to Tencent's own URL. -/
def LookupsHit (E : Env) (P : Partners) (headers : UMap Bytes Bytes) (uri : Bytes) : Prop :=
  ∀ p, P.lookup (sourceOf uri) = some p → P.lookup (toStr (extOf uri)) = none →
    adDefault uri ∧ ¬ (extOf uri = 2 ∧ cookieA headers ≠ [] ∧ p.open_ ≠ 0 ∧ p.self ≠ [] ∧
      tokenMatchSize (userAgent headers) mobile ≤ 1 ∧
      checkVaildExpire E ((headers.find (lit "Cookie")).getD []) 2 p.weight p.expires = 12)

lemma flagOf_of_adDefault {uri : Bytes} (had : adDefault uri) (he : extOf uri = 2) :
    flagOf uri = 0 := by
  have hr : returning uri := by
    by_contra hr
    simp [extOf, hr, givenExt, had] at he
  simp [flagOf, hr.2]

/-- **The handler reads no partner that is not there, exactly under `LookupsHit`.** -/
theorem no_fault_iff (E : Env) (P : Partners) (headers : UMap Bytes Bytes) (uri : Bytes) :
    ((serve E P headers uri).exit ≠ .uidFault ∧ (serve E P headers uri).exit ≠ .selfFault) ↔
      LookupsHit E P headers uri := by
  by_cases hf : UidFault P uri
  · obtain ⟨hs, had, hn⟩ := hf
    obtain ⟨p, hp⟩ := Option.ne_none_iff_exists'.mp hs
    rw [serve_fault ⟨hs, had, hn⟩]
    simp only [ne_eq, not_true_eq_false, false_and, false_iff]
    exact fun h => had (h p hp hn).1
  · have huid : (serve E P headers uri).exit ≠ .uidFault := by
      have h := @serve_ends E P headers uri hf
      generalize serve E P headers uri = out at h
      cases h <;> simp
    rw [serve_ok hf] at huid ⊢
    rw [ne_eq (Outcome.exit _) .selfFault, exit_selfFault_iff rfl rfl]
    refine ⟨fun h p hp hn => ?_, fun h => ⟨huid, fun hc => ?_⟩⟩
    · -- the source partner is known, the partner of the code is not
      have had : adDefault uri := by
        by_contra had
        exact hf ⟨by simp [hp], had, hn⟩
      have hpart := object_partner E headers hp
      refine ⟨had, ?_⟩
      rintro ⟨he, ha, ho, hself, hm, hsel⟩
      refine h.2 ⟨⟨?_, ?_, .inr hm⟩, he, ?_, ?_, hn⟩
      · simp [object, errorOf, ha, hp]
      · rwa [hpart]
      · unfold selected
        rw [hpart]
        simpa [object, partnered, he] using hsel
      · rwa [hpart]
    · obtain ⟨⟨hclean, ho, hm⟩, he, hsel, hself, hn⟩ := hc
      have he : extOf uri = 2 := he
      have hn : P.lookup (toStr (extOf uri)) = none := hn
      obtain ⟨⟨p, hp⟩, hid⟩ := errorOf_eq_error hclean
      obtain ⟨had, hno⟩ := h p hp hn
      have hpart := object_partner E headers hp
      rw [hpart] at ho hself
      refine hno ⟨he, fun ha => ?_, ho, hself, ?_, ?_⟩
      · exact hid ⟨ha, flagOf_of_adDefault had he⟩
      · have : (object E P headers uri).ext = 2 := he
        omega
      · unfold selected at hsel
        rw [hpart] at hsel
        simpa [object, partnered, he] using hsel

/-- Two requests that end a worker: a code that the table lacks under a source that it has,
and a doubled `ext=` on the `ad.gif` pixel while the table lacks Tencent. -/
theorem fault_examples :
    (serve (.still 1500000000)
      (.ofList [(1, { open_ := 1, type := 2 })] (by decide) (by decide))
      UMap.empty (lit "/r.gif?ext=99&s=1")).exit = .uidFault ∧
    (serve (.still 1500000000)
      (.ofList [(4, { open_ := 1, type := 1, weight := ⟨[(12, 100)], by decide⟩,
                      expires := ⟨[(12, 1296000)], by decide⟩, self := lit "http://v.a.com/" })]
        (by decide) (by decide))
      ⟨[(lit "Cookie", lit "a=6fh7lUjA2X")], by decide⟩
      (lit "/ad.gif?aid=1&ext=&ext=")).exit = .selfFault := by
  decide +kernel

end NgxMapping.PartnerLookups
