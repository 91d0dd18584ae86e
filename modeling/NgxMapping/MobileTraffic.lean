import NgxMapping.Attribution
import NgxMapping.PartnerLookups

/-!
Which mobile requests are excluded.

The handler counts the names of mobile systems in the `User-Agent` and turns a request away
when it finds more than one. A single name is let through, and the test stands behind the exit
for closed partners, which sends the pair.
-/

namespace NgxMapping.MobileTraffic

open Lib HttpRequest HttpResponse PartnerTable TokenMatch MappingModel MappingSpec Answer

/-- `log_save` sends the pair of the request, unless the browser is found to be mobile. -/
def Sendable (E : Env) (P : Partners) (headers : UMap Bytes Bytes) (uri : Bytes) : Prop :=
  rmidOf E headers uri ≠ [] ∧ uidOf P uri ≠ [] ∧
    (if extOf uri = 2 then flagOf uri = 1 else extOf uri ∈ mappingVec) ∧
    (scyllaMsg (extOf uri) (rmidOf E headers uri) (uidOf P uri)).length ≤ scyllaLimit

/-- The source partner has somewhere to send the request. -/
def Forwards (E : Env) (P : Partners) (headers : UMap Bytes Bytes) (uri : Bytes) (p : Partner) :
    Prop :=
  let pid := checkVaildExpire E ((headers.find (lit "Cookie")).getD []) (extOf uri) p.weight
    p.expires
  if pid = 0 then p.self ≠ []
  else if extOf uri = 2 ∧ pid = 12 ∧ p.self ≠ [] then P.lookup (toStr (extOf uri)) ≠ none
  else (p.url.find pid).getD [] ≠ []

/-- The request is not answered from its partner, or there is nothing to send and nowhere to
go, or, with an open partner, the system is not named exactly once. -/
def Excluded (E : Env) (P : Partners) (headers : UMap Bytes Bytes) (uri : Bytes) : Prop :=
  ∀ p, P.lookup (sourceOf uri) = some p → ¬ UidFault P uri →
    ¬ (cookieA headers = [] ∧ flagOf uri = 0) →
    if p.open_ = 0 then ¬ Sendable E P headers uri
    else tokenMatchSize (userAgent headers) mobile ≠ 1 ∨
      ¬ Sendable E P headers uri ∧ ¬ Forwards E P headers uri p

lemma pairs_eq_nil_iff (E : Env) (P : Partners) (headers : UMap Bytes Bytes) (uri : Bytes) :
    pairs (object E P headers uri) = [] ↔ ¬ Sendable E P headers uri := by
  unfold pairs send
  have hs := Attribution.sendsScylla_iff (object E P headers uri)
  have hm : (object E P headers uri).request.m = 0 := rfl
  rw [hm] at hs
  by_cases h : sendsScylla (object E P headers uri) = true
  · obtain ⟨h1, h2, -, h3⟩ := hs.mp h
    rw [if_pos h]
    split
    · rename_i hl
      exact iff_of_false (by simp) (not_not.mpr ⟨h1, h2, h3, hl⟩)
    · rename_i hl
      exact iff_of_true rfl fun hc => hl hc.2.2.2
  · rw [if_neg h]
    exact iff_of_true rfl fun hc => h (hs.mpr ⟨hc.1, hc.2.1, rfl, hc.2.2.1⟩)

lemma not_sendable_of_error {E : Env} {P : Partners} {headers : UMap Bytes Bytes} {uri : Bytes}
    (he : errorOf P headers uri ≠ .error) : ¬ Sendable E P headers uri := by
  rintro ⟨hr, hu, hx, -⟩
  unfold errorOf at he
  split at he
  · rename_i h
    exact hr (by simp [rmidOf, h.1, h.2])
  · split at he
    · rename_i hnone
      by_cases had : adDefault uri
      · rcases Attribution.extOf_of_adDefault had with h4 | ⟨h2, h0⟩
        · simp [h4, mappingVec] at hx
        · simp [h2, h0] at hx
      · exact hu (by simp [uidOf, uidNameOf, had, hnone])
    · exact he rfl

lemma not_sendable_of_selfFault {E : Env} {P : Partners} {headers : UMap Bytes Bytes} {uri : Bytes}
    {p : Partner} (hf : ¬ UidFault P uri) (hp : P.lookup (sourceOf uri) = some p)
    (he : extOf uri = 2) (hl : P.lookup (toStr (extOf uri)) = none) :
    ¬ Sendable E P headers uri := by
  have had : adDefault uri := by
    by_contra had
    exact hf ⟨by simp [hp], had, hl⟩
  rintro ⟨-, -, hx, -⟩
  simp [he, PartnerLookups.flagOf_of_adDefault had he] at hx

lemma excluded_iff {E : Env} {P : Partners} {headers : UMap Bytes Bytes} {uri : Bytes} {p : Partner}
    (hf : ¬ UidFault P uri) (hp : P.lookup (sourceOf uri) = some p)
    (ha : ¬ (cookieA headers = [] ∧ flagOf uri = 0)) :
    Excluded E P headers uri ↔ if p.open_ = 0 then ¬ Sendable E P headers uri
      else tokenMatchSize (userAgent headers) mobile ≠ 1 ∨
        ¬ Sendable E P headers uri ∧ ¬ Forwards E P headers uri p := by
  refine ⟨fun h => h p hp hf ha, fun h q hq _ _ => ?_⟩
  rw [hp, Option.some.injEq] at hq
  rwa [← hq]

/-- A request that gets as far as `dofilter` is sent on exactly when there is somewhere to go. -/
lemma ends_moved_iff {E : Env} {P : Partners} {headers : UMap Bytes Bytes} {uri : Bytes}
    {p : Partner} {out : Outcome} (hp : P.lookup (sourceOf uri) = some p)
    (hpass : Passes (userAgent headers) (object E P headers uri))
    (hend : Ends E P (userAgent headers) (object E P headers uri) (response E P headers uri) out) :
    out.rep.status = some .movedTemporarily ↔ Forwards E P headers uri p := by
  have hpart := object_partner E headers hp
  have hsel : checkVaildExpire E ((headers.find (lit "Cookie")).getD []) (extOf uri) p.weight
      p.expires = selected E (object E P headers uri) := by
    rw [selected, hpart]
    rfl
  have hext : (object E P headers uri).ext = extOf uri := rfl
  unfold Forwards
  simp only [hsel]
  cases hend with
  | error h => exact absurd hpass.clean h
  | closed _ ho => exact absurd ho hpass.isOpen
  | mobile _ _ he hc =>
    have := hpass.desktop.resolve_left he
    omega
  | selfFault _ he hs hself hl =>
    rw [hpart] at hself
    rw [hext] at he hl
    rw [if_neg (by omega), if_pos ⟨he, hs, hself⟩]
    simp [response_status, hl]
  | tencentSelf _ he hs hself hl =>
    rw [hpart] at hself
    rw [hext] at he hl
    rw [if_neg (by omega), if_pos ⟨he, hs, hself⟩]
    simp [hl]
  | ownSelf _ hs hself =>
    rw [hpart] at hself
    simp [hs, hself]
  | nothing _ hs hself =>
    rw [hpart] at hself
    simp [hs, hself]
  | noUrl _ hs hu hn =>
    rw [hpart, hext] at hn
    rw [chosen_url hs, hpart] at hu
    rw [if_neg hs, if_neg hn]
    simp [hu]
  | partnerUrl _ hs hu hn =>
    rw [hpart, hext] at hn
    rw [chosen_url hs, hpart] at hu
    rw [if_neg hs, if_neg hn]
    simp [hu]

lemma ends_scylla_iff {E : Env} {P : Partners} {headers : UMap Bytes Bytes} {uri : Bytes}
    {p : Partner} {out : Outcome} (hf : ¬ UidFault P uri) (hp : P.lookup (sourceOf uri) = some p)
    (hpass : Passes (userAgent headers) (object E P headers uri))
    (hend : Ends E P (userAgent headers) (object E P headers uri) (response E P headers uri) out) :
    out.queues.scylla = [] ↔ ¬ Sendable E P headers uri := by
  rw [← pairs_eq_nil_iff]
  cases hend with
  | mobile _ _ he hc =>
    have := hpass.desktop.resolve_left he
    omega
  | selfFault _ he _ _ hl =>
    have h := (pairs_eq_nil_iff E P headers uri).mpr (not_sendable_of_selfFault hf hp he hl)
    simp [h]
  | _ => simp

lemma ends_excluded_iff {E : Env} {P : Partners} {headers : UMap Bytes Bytes} {uri : Bytes}
    {out : Outcome} (he : extOf uri ≠ 4) (hm : Mobile (userAgent headers)) (hf : ¬ UidFault P uri)
    (herr : errorOf P headers uri = .error)
    (hend : Ends E P (userAgent headers) (object E P headers uri) (response E P headers uri) out) :
    (out.queues.scylla = [] ∧ out.rep.status ≠ some .movedTemporarily) ↔
      Excluded E P headers uri := by
  obtain ⟨⟨p, hp⟩, ha⟩ := errorOf_eq_error herr
  have hcount := (mobile_iff _).mp hm
  have hpart := object_partner E headers hp
  rw [excluded_iff hf hp ha]
  by_cases hpass : Passes (userAgent headers) (object E P headers uri)
  · have hopen := hpass.isOpen
    have hone := hpass.desktop.resolve_left he
    rw [hpart] at hopen
    have hnot : ¬ tokenMatchSize (userAgent headers) mobile ≠ 1 := by omega
    rw [if_neg hopen, or_iff_right hnot, ends_scylla_iff hf hp hpass hend, ne_eq,
      ends_moved_iff hp hpass hend]
  · cases hend with
    | error h => exact absurd herr h
    | closed _ ho =>
      rw [hpart] at ho
      rw [if_pos ho, ← pairs_eq_nil_iff]
      simp
    | mobile _ ho _ hc =>
      rw [hpart] at ho
      rw [if_neg ho]
      refine iff_of_true ⟨?_, by simp⟩ (.inl (by omega))
      simp [pairs, sendsScylla]
    | selfFault h => exact absurd h hpass
    | tencentSelf h => exact absurd h hpass
    | ownSelf h => exact absurd h hpass
    | nothing h => exact absurd h hpass
    | noUrl h => exact absurd h hpass
    | partnerUrl h => exact absurd h hpass

/-- **The mobile requests that are excluded.** -/
theorem mobile_excluded_iff (E : Env) (P : Partners) (headers : UMap Bytes Bytes) (uri : Bytes)
    (he : extOf uri ≠ 4) (hm : Mobile (userAgent headers)) :
    ((serve E P headers uri).queues.scylla = [] ∧
      (serve E P headers uri).rep.status ≠ some .movedTemporarily) ↔ Excluded E P headers uri := by
  by_cases hf : UidFault P uri
  · rw [serve_fault hf]
    refine iff_of_true ⟨rfl, ?_⟩ fun p _ hn => absurd hf hn
    simp [gifResponse, Response.setMimeType]
  · have hend := @serve_ends E P headers uri hf
    by_cases herr : errorOf P headers uri = .error
    · exact ends_excluded_iff he hm hf herr hend
    · rw [serve_of_ends hf (.error herr)]
      refine iff_of_true ⟨?_, by simp⟩ fun p hp _ ha => ?_
      · rw [endNormal_scylla, pairs_eq_nil_iff]
        exact not_sendable_of_error herr
      · simp [errorOf, hp, ha] at herr

/-- A table whose partners 3 and 5 send visitors home, the latter closed. -/
def homeTable : Partners :=
  .ofList [(3, { open_ := 1, type := 2, uid := lit "qiyi_uid", self := lit "http://q.cn/" }),
    (5, { open_ := 0, type := 2, uid := lit "suid" })] (by decide) (by decide)

def iphone : UMap Bytes Bytes :=
  ⟨[(lit "User-Agent", lit "Mozilla/5.0 (iPhone; CPU iPhone OS 9_1 like Mac OS X)")], by decide⟩

def android : UMap Bytes Bytes :=
  ⟨[(lit "User-Agent", lit "Mozilla/5.0 (Linux; Android 6.0)")], by decide⟩

/-- An iPhone names its system twice. -/
theorem mobile_excluded_iphone :
    (serve (.still 1500000000) homeTable iphone
        (lit "/r.gif?ext=a&qiyi_uid=1")).queues.scylla = [] ∧
      (serve (.still 1500000000) homeTable iphone
        (lit "/r.gif?ext=a&qiyi_uid=1")).rep.status ≠ some .movedTemporarily := by
  refine (mobile_excluded_iff (.still 1500000000) homeTable iphone (lit "/r.gif?ext=a&qiyi_uid=1")
    (by decide +kernel) ((mobile_iff _).mpr (by decide +kernel))).mpr fun p hp _ _ => ?_
  have hs : sourceOf (lit "/r.gif?ext=a&qiyi_uid=1") = natStr 3 := by decide +kernel
  rw [hs, homeTable, Partners.lookup_ofList (List.mem_cons_self ..), Option.some.injEq] at hp
  subst hp
  exact .inl (by decide +kernel)

/-- An Android phone that names its system once is sent on and stored, and so is an iPhone that
comes from a closed partner, without being sent on. -/
theorem mobile_let_through :
    Mobile (userAgent android) ∧ Mobile (userAgent iphone) ∧
      extOf (lit "/r.gif?ext=a&qiyi_uid=1") ≠ 4 ∧ extOf (lit "/r.gif?ext=s&suid=1") ≠ 4 ∧
      (serve (.still 1500000000) homeTable android
        (lit "/r.gif?ext=a&qiyi_uid=1")).queues.scylla.length = 1 ∧
      (serve (.still 1500000000) homeTable android
        (lit "/r.gif?ext=a&qiyi_uid=1")).rep.status = some .movedTemporarily ∧
      (serve (.still 1500000000) homeTable iphone
        (lit "/r.gif?ext=s&suid=1")).queues.scylla.length = 1 :=
  ⟨(mobile_iff _).mpr (by decide +kernel), (mobile_iff _).mpr (by decide +kernel),
    by decide +kernel, by decide +kernel, by decide +kernel, by decide +kernel, by decide +kernel⟩

end NgxMapping.MobileTraffic
