import NgxMapping.Answer

/-!
Whose user id is stored under whose code.

A pair goes to the queue only with the user id that stands under the parameter name of the
partner of the code, and with the identifier the browser has or is given by the same
response. The shortcut of the `ad.gif` pixel, which fixes another parameter name, never gets
there: its codes are 4 and, on a return from Tencent, 2 with a flag of zero.
-/

namespace NgxMapping.Attribution

open Lib HttpRequest HttpResponse PartnerTable TokenMatch MappingModel MappingSpec Answer

lemma sendsScylla_iff (o : Mapping) :
    sendsScylla o = true ↔ o.rmid ≠ [] ∧ o.uid ≠ [] ∧ o.request.m = 0 ∧
      if o.ext = 2 then o.request.flag = 1 else o.ext ∈ mappingVec := by
  unfold sendsScylla
  by_cases h : o.ext = 2 <;> simp [h, ExtType.code, and_assoc]

lemma mem_scylla {E : Env} {P : Partners} {headers : UMap Bytes Bytes} {uri msg : Bytes}
    (h : msg ∈ (serve E P headers uri).queues.scylla) :
    sendsScylla (object E P headers uri) = true ∧
      msg = scyllaMsg (extOf uri) (rmidOf E headers uri) (uidOf P uri) := by
  by_cases hf : UidFault P uri
  · simp [serve_fault hf] at h
  · rw [serve_ok hf, answer_scylla rfl rfl] at h
    split at h
    · simp at h
    · unfold pairs at h
      split at h
      · rename_i hs
        unfold send at h
        split at h
        · exact ⟨hs, List.mem_singleton.mp h⟩
        · simp at h
      · simp at h

lemma scylla_length (E : Env) (P : Partners) (headers : UMap Bytes Bytes) (uri : Bytes) :
    (serve E P headers uri).queues.scylla.length ≤ 1 := by
  by_cases hf : UidFault P uri
  · simp [serve_fault hf]
  · rw [serve_ok hf, answer_scylla rfl rfl]
    unfold pairs send
    split_ifs <;> simp

lemma extOf_of_adDefault {uri : Bytes} (h : adDefault uri) :
    extOf uri = 4 ∨ extOf uri = 2 ∧ flagOf uri = 0 := by
  unfold extOf
  by_cases hr : returning uri
  · simp [hr, flagOf, hr.2, ExtType.code]
  · simp [hr, givenExt, h]

/-- What is sent does not come from the `ad.gif` shortcut, and its source is known. -/
lemma not_adDefault {E : Env} {P : Partners} {headers : UMap Bytes Bytes} {uri : Bytes}
    (h : sendsScylla (object E P headers uri) = true) :
    ¬ adDefault uri ∧ (P.lookup (sourceOf uri)).isNone = false := by
  obtain ⟨-, hu, -, hx⟩ := (sendsScylla_iff _).mp h
  have hx : if extOf uri = 2 then flagOf uri = 1 else extOf uri ∈ mappingVec := hx
  have hu : uidOf P uri ≠ [] := hu
  have had : ¬ adDefault uri := by
    intro had
    rcases extOf_of_adDefault had with he | ⟨he, hf⟩
    · simp [he, mappingVec] at hx
    · simp [he, hf] at hx
  refine ⟨had, ?_⟩
  by_contra hn
  exact hu (by simp [uidOf, uidNameOf, had, hn])

lemma rmidCookie_prefix (E : Env) :
    COOKIE_KEY ++ lit "=" ++ Helper.createRmidCookie E.rmidMs E.rmidRandom ++ lit ";" <+:
      rmidCookie E := by
  have hr := E.random_mem
  obtain ⟨rest, h⟩ := CookieHeader.setCookie_value E.localtime E.cookieTime COOKIE_KEY path domain
    (Helper.createRmidCookie_ne_nil E.rmidMs (show 0 < E.rmidRandom by omega))
    (show 0 < lifetime by decide) (by decide)
  have hz : (0 : UInt8) ∉ Helper.createRmidCookie E.rmidMs E.rmidRandom := fun hc =>
    absurd (Helper.createRmidCookie_subset _ _ hc) (by decide)
  rw [rmidCookie, h, cstr_eq_self hz, cstr_eq_self (by decide)]
  exact List.prefix_append _ _

lemma mem_cookies {E : Env} {P : Partners} {headers : UMap Bytes Bytes} {uri c : Bytes}
    (hf : ¬ UidFault P uri) (h : c ∈ identityCookies E P headers uri) :
    c ∈ (serve E P headers uri).rep.cookies := by
  rw [serve_ok hf]
  rcases @answer_cookies E P (userAgent headers) (object E P headers uri)
    (response E P headers uri) rfl rfl with hc | hc
  · rwa [hc, response_cookies]
  · rw [hc, response_cookies]
    exact List.mem_append_left _ h

/-- **Attribution of stored pairs.** -/
theorem scylla_attribution (E : Env) (P : Partners) (headers : UMap Bytes Bytes) (uri : Bytes)
    (p : Partner) (hp : P.lookup (toStr (extOf uri)) = some p) :
    (serve E P headers uri).queues.scylla.length ≤ 1 ∧
    ∀ msg ∈ (serve E P headers uri).queues.scylla, ∃ rmid uid,
      msg = scyllaMsg (extOf uri) rmid uid ∧
      uid = (if param uri p.uid = [] then param uri (lit "uid") else param uri p.uid) ∧
      (if cookieA headers ≠ [] then rmid = cookieA headers
        else ∃ c ∈ (serve E P headers uri).rep.cookies,
          COOKIE_KEY ++ lit "=" ++ rmid ++ lit ";" <+: c) ∧
      (extOf uri = 2 → param uri (lit "s") = [] ∧ tokenMatchSize uri extEq ≠ 2) := by
  refine ⟨scylla_length E P headers uri, fun msg hmsg => ?_⟩
  have hf : ¬ UidFault P uri := fun hf => by simp [hf.2.2] at hp
  obtain ⟨hs, rfl⟩ := mem_scylla hmsg
  obtain ⟨had, hsrc⟩ := not_adDefault hs
  obtain ⟨hr, hu, -, hx⟩ := (sendsScylla_iff _).mp hs
  have hr : rmidOf E headers uri ≠ [] := hr
  have hu : uidOf P uri ≠ [] := hu
  have hx : if extOf uri = 2 then flagOf uri = 1 else extOf uri ∈ mappingVec := hx
  have hname : uidNameOf P uri = p.uid := by simp [uidNameOf, had, hsrc, hp]
  refine ⟨rmidOf E headers uri, uidOf P uri, rfl, ?_, ?_, fun he => ?_⟩
  · -- the user id is not empty, so neither is the parameter name
    unfold uidOf at hu ⊢
    rw [hname] at hu ⊢
    split at hu
    · exact absurd rfl hu
    · rename_i h0
      rw [if_neg h0]
  · split
    · rename_i ha
      simp [rmidOf, ha]
    · rename_i ha
      have ha : cookieA headers = [] := by simpa using ha
      have hflag : flagOf uri ≠ 0 := by
        intro h0
        simp [rmidOf, ha, h0] at hr
      refine ⟨rmidCookie E, mem_cookies hf ?_, ?_⟩
      · simp [identityCookies, ha, hflag]
      · simpa [rmidOf, ha, hflag] using rmidCookie_prefix E
  · rw [if_pos he] at hx
    unfold flagOf at hx
    split at hx
    · assumption
    · simp at hx

/-- A table with miaozhen as its only partner. -/
def miaozhen : Partner := { open_ := 1, type := 1, uid := lit "mid" }

def miaozhenOnly : Partners := .ofList [(6, miaozhen)] (by decide) (by decide)

/-- A call of a new browser: one pair, with the user id under the parameter of partner 6. -/
theorem scylla_attribution_miaozhen :
    (serve (.still 1500000000) miaozhenOnly UMap.empty
      (lit "/m.gif?mid=O05Oc0&ext=m")).queues.scylla.length = 1 ∧
    ∀ msg ∈ (serve (.still 1500000000) miaozhenOnly UMap.empty
      (lit "/m.gif?mid=O05Oc0&ext=m")).queues.scylla,
        ∃ rmid, msg = scyllaMsg 6 rmid (lit "O05Oc0") := by
  have he : extOf (lit "/m.gif?mid=O05Oc0&ext=m") = 6 := by decide +kernel
  have hp : miaozhenOnly.lookup (toStr (extOf (lit "/m.gif?mid=O05Oc0&ext=m"))) =
      some miaozhen := by
    rw [he]; rfl
  refine ⟨by decide +kernel, fun msg hmsg => ?_⟩
  obtain ⟨rmid, uid, hm, hu, -⟩ := (scylla_attribution (.still 1500000000) miaozhenOnly UMap.empty
    (lit "/m.gif?mid=O05Oc0&ext=m") miaozhen hp).2 msg hmsg
  have hv : uid = lit "O05Oc0" := by rw [hu]; decide +kernel
  exact ⟨rmid, by rw [hm, he, hv]⟩

end NgxMapping.Attribution
