import NgxMapping.MappingModel

/-!
What a run of the mapping handler computes before it answers.

`handleExt`, the choice of the user id and `recordCookieLog` are put into closed form: the
code, the source partner and the flag are functions of the URI alone, the user id also of the
table, the identifier of the `Cookie` header. `serve_eq` says that a run is the answer to the
object made of these, unless the table lacks the partner whose parameter name is needed.
-/

namespace NgxMapping.MappingSpec

open Lib HttpRequest HttpResponse PartnerTable TokenMatch MappingModel

/-- The last value of a query parameter, empty when there is none. -/
def param (uri k : Bytes) : Bytes := (lastValue k ((pieces uri).filterMap pairOf)).getD []

/-- The code of the `ext` parameter is zero and the URL is that of the `ad.gif` pixel. -/
def adDefault (uri : Bytes) : Prop :=
  extCode (param uri (lit "ext")) = 0 ∧ tokenMatchSize uri adGif = 1

instance (uri : Bytes) : Decidable (adDefault uri) := inferInstanceAs (Decidable (_ ∧ _))

/-- The code before the return from Tencent is recognised. -/
def givenExt (uri : Bytes) : ℤ :=
  if adDefault uri then 4
  else if extCode (param uri (lit "ext")) = 0 ∧ tokenMatchSize uri bdGif = 1 then 1
  else extCode (param uri (lit "ext"))

/-- A return from Tencent: no source parameter and two `ext=` in the URL. -/
def returning (uri : Bytes) : Prop :=
  param uri (lit "s") = [] ∧ tokenMatchSize uri extEq = 2

instance (uri : Bytes) : Decidable (returning uri) := inferInstanceAs (Decidable (_ ∧ _))

def extOf (uri : Bytes) : ℤ := if returning uri then ExtType.q.code else givenExt uri

def sourceOf (uri : Bytes) : Bytes :=
  if param uri (lit "s") = [] then toStr (givenExt uri) else param uri (lit "s")

/-- An active call: neither a source parameter nor a return from Tencent. -/
def flagOf (uri : Bytes) : ℕ :=
  if param uri (lit "s") = [] ∧ tokenMatchSize uri extEq ≠ 2 then 1 else 0

/-- The object after the code, the source and the flag are fixed. -/
def classified (E : Env) (headers : UMap Bytes Bytes) (uri : Bytes) : Mapping where
  request := { partner := { open_ := E.openJunk, type := E.typeJunk }
               source := sourceOf uri
               flag := flagOf uri
               uidName := if adDefault uri then lit "aid" else [] }
  queryUrl := uri
  cookieHeader := (headers.find (lit "Cookie")).getD []
  ext := extOf uri

lemma getQueryParam_eq (headers : UMap Bytes Bytes) (uri k : Bytes) :
    (received headers uri).getQueryParam k = param uri k := getQueryParam_received headers uri k

lemma gifDefault_eq (o : Mapping) :
    gifDefault o =
      if o.ext = 0 ∧ tokenMatchSize o.queryUrl adGif = 1 then
        { o with ext := 4, request := { o.request with uidName := lit "aid" } }
      else if o.ext = 0 ∧ tokenMatchSize o.queryUrl bdGif = 1 then { o with ext := 1 }
      else o := by
  unfold gifDefault
  by_cases h : o.ext = 0 ∧ tokenMatchSize o.queryUrl adGif = 1
  · simp [h]
  · simp [h]

lemma start_eq (E : Env) (headers : UMap Bytes Bytes) (uri : Bytes) :
    start E (received headers uri) =
      { request := { partner := { open_ := E.openJunk, type := E.typeJunk }
                     source := param uri (lit "s") }
        queryUrl := uri
        cookieHeader := (headers.find (lit "Cookie")).getD [] } := by
  unfold start
  rw [getQueryParam_eq]
  rfl

lemma gifDefault_start (E : Env) (headers : UMap Bytes Bytes) (uri : Bytes) :
    gifDefault { start E (received headers uri) with
      ext := extCode ((received headers uri).getQueryParam (lit "ext")) } =
      { request := { partner := { open_ := E.openJunk, type := E.typeJunk }
                     source := param uri (lit "s")
                     uidName := if adDefault uri then lit "aid" else [] }
        queryUrl := uri
        cookieHeader := (headers.find (lit "Cookie")).getD []
        ext := givenExt uri } := by
  rw [getQueryParam_eq, start_eq, gifDefault_eq]
  unfold givenExt
  dsimp only
  have hiff : extCode (param uri (lit "ext")) = 0 ∧ tokenMatchSize uri adGif = 1 ↔ adDefault uri :=
    Iff.rfl
  by_cases h1 : adDefault uri
  · simp only [if_pos h1, hiff]
  · by_cases h2 : extCode (param uri (lit "ext")) = 0 ∧ tokenMatchSize uri bdGif = 1
    · simp only [if_neg h1, hiff, if_pos h2]
    · simp only [if_neg h1, hiff, if_neg h2]

lemma classified_eq (E : Env) (headers : UMap Bytes Bytes) (uri : Bytes) :
    takeSource (gifDefault { start E (received headers uri) with
      ext := extCode ((received headers uri).getQueryParam (lit "ext")) }) =
      classified E headers uri := by
  rw [gifDefault_start]
  have hiff : param uri (lit "s") = [] ∧ tokenMatchSize uri extEq = 2 ↔ returning uri := Iff.rfl
  unfold takeSource sourceBranch classified extOf sourceOf flagOf
  by_cases hs : param uri (lit "s") = []
  · by_cases h2 : tokenMatchSize uri extEq = 2
    · simp [hs, h2, ← hiff]
    · simp [hs, h2, ← hiff]
  · simp [hs, List.length_pos_iff, ← hiff]

/-! ### The partner and the user id -/

/-- The parameter name of the user id is read through a partner that is not there. -/
def UidFault (P : Partners) (uri : Bytes) : Prop :=
  P.lookup (sourceOf uri) ≠ none ∧ ¬ adDefault uri ∧ P.lookup (toStr (extOf uri)) = none

def uidNameOf (P : Partners) (uri : Bytes) : Bytes :=
  if adDefault uri then lit "aid"
  else if (P.lookup (sourceOf uri)).isNone then []
  else ((P.lookup (toStr (extOf uri))).map Partner.uid).getD []

def uidOf (P : Partners) (uri : Bytes) : Bytes :=
  if uidNameOf P uri = [] then []
  else if param uri (uidNameOf P uri) = [] then param uri (lit "uid")
  else param uri (uidNameOf P uri)

/-- The object when `recordCookieLog` is called. -/
def partnered (E : Env) (P : Partners) (headers : UMap Bytes Bytes) (uri : Bytes) : Mapping where
  request :=
    { error := if (P.lookup (sourceOf uri)).isNone then .badExt else .error
      source := sourceOf uri
      type := ((P.lookup (sourceOf uri)).map Partner.type).getD 0
      flag := flagOf uri
      partner := (P.lookup (sourceOf uri)).getD { open_ := E.openJunk, type := E.typeJunk }
      uidName := uidNameOf P uri }
  queryUrl := uri
  cookieHeader := (headers.find (lit "Cookie")).getD []
  uid := uidOf P uri
  ext := extOf uri

lemma lookup_ext {P : Partners} {uri : Bytes} {p : Partner} (h : P.lookup (sourceOf uri) = some p)
    (he : atoi (sourceOf uri) = extOf uri) : P.lookup (toStr (extOf uri)) = some p := by
  rw [← he, Partners.toStr_atoi h, h]

lemma handleExt_fault {E : Env} {P : Partners} {headers : UMap Bytes Bytes} {uri : Bytes}
    (hf : UidFault P uri) :
    handleExt P (start E (received headers uri))
      ((received headers uri).getQueryParam (lit "ext")) = none := by
  obtain ⟨hs, had, hn⟩ := hf
  obtain ⟨p, hp⟩ := Option.ne_none_iff_exists'.mp hs
  have hne : atoi (sourceOf uri) ≠ extOf uri := by
    intro he
    simp [lookup_ext hp he] at hn
  rw [handleExt, classified_eq]
  simp [takePartner, classified, hp, hne, hn, had]

lemma handleExt_ok {E : Env} {P : Partners} {headers : UMap Bytes Bytes} {uri : Bytes}
    (hf : ¬ UidFault P uri) :
    ∃ o b, handleExt P (start E (received headers uri))
      ((received headers uri).getQueryParam (lit "ext")) = some (o, b) ∧
      takeUid (received headers uri) o = partnered E P headers uri := by
  rw [handleExt, classified_eq]
  have huid : ∀ o : Mapping, o.request.uidName = uidNameOf P uri → o.uid = [] →
      takeUid (received headers uri) o = { o with uid := uidOf P uri } := by
    intro o hn hu
    unfold takeUid uidOf
    rw [hn]
    by_cases h0 : uidNameOf P uri = []
    · simp [h0, ← hu]
    · by_cases h1 : param uri (uidNameOf P uri) = []
      · by_cases h2 : param uri (lit "uid") = [] <;>
          simp [h0, getQueryParam_eq, h1, h2, List.length_pos_iff]
      · simp [h0, getQueryParam_eq, h1]
  cases hp : P.lookup (sourceOf uri) with
  | none =>
    have hname : takePartner P (classified E headers uri) =
        some ({ classified E headers uri with
          request := { (classified E headers uri).request with error := .badExt } }, false) := by
      simp only [takePartner, classified, hp]
    refine ⟨_, _, hname, ?_⟩
    rw [huid _ (by simp [uidNameOf, hp, classified]) rfl]
    simp [partnered, classified, hp, uidNameOf]
  | some p =>
    have hname : takePartner P (classified E headers uri) =
        some ({ classified E headers uri with
          request := { (classified E headers uri).request with
            partner := p, uidName := uidNameOf P uri, type := p.type } }, true) := by
      by_cases had : adDefault uri
      · have hlen : (lit "aid").length ≠ 0 := by decide
        simp [takePartner, classified, hp, uidNameOf, had, hlen]
      · by_cases he : atoi (sourceOf uri) = extOf uri
        · simp [takePartner, classified, hp, uidNameOf, had, he, lookup_ext hp he]
        · obtain ⟨p2, hp2⟩ : ∃ p2, P.lookup (toStr (extOf uri)) = some p2 := by
            refine Option.ne_none_iff_exists'.mp fun hn => hf ⟨by simp [hp], had, hn⟩
          by_cases hu : p2.uid = [] <;>
            simp [takePartner, classified, hp, uidNameOf, had, he, hp2, hu]
    refine ⟨_, _, hname, ?_⟩
    rw [huid _ rfl rfl]
    simp [partnered, classified, hp]

/-! ### The identifier and its cookies -/

/-- The `a` cookie of a request, empty when there is none. -/
def cookieA (headers : UMap Bytes Bytes) : Bytes :=
  CookieHeader.getCookie ((headers.find (lit "Cookie")).getD []) COOKIE_KEY

def cookieMz (headers : UMap Bytes Bytes) : Bytes :=
  CookieHeader.getCookie ((headers.find (lit "Cookie")).getD []) COOKIE_MZ

/-- The identifier: the one the browser sends, or a new one for an active call. -/
def rmidOf (E : Env) (headers : UMap Bytes Bytes) (uri : Bytes) : Bytes :=
  if cookieA headers ≠ [] then cookieA headers
  else if flagOf uri = 0 then []
  else Helper.createRmidCookie E.rmidMs E.rmidRandom

lemma newRmid_ne_nil (E : Env) : Helper.createRmidCookie E.rmidMs E.rmidRandom ≠ [] := by
  have hr := E.random_mem
  exact Helper.createRmidCookie_ne_nil E.rmidMs (by omega)

lemma rmidOf_eq_nil_iff (E : Env) (headers : UMap Bytes Bytes) (uri : Bytes) :
    rmidOf E headers uri = [] ↔ cookieA headers = [] ∧ flagOf uri = 0 := by
  unfold rmidOf
  split
  · rename_i ha
    exact iff_of_false ha fun h => ha h.1
  · rename_i ha
    split
    · rename_i hf
      exact iff_of_true rfl ⟨not_not.mp ha, hf⟩
    · rename_i hf
      exact iff_of_false (newRmid_ne_nil E) fun h => hf h.2

/-- The error with which the answer begins. -/
def errorOf (P : Partners) (headers : UMap Bytes Bytes) (uri : Bytes) : Error :=
  if cookieA headers = [] ∧ flagOf uri = 0 then .cookieGet
  else if (P.lookup (sourceOf uri)).isNone then .badExt
  else .error

lemma errorOf_eq_error {P : Partners} {headers : UMap Bytes Bytes} {uri : Bytes}
    (h : errorOf P headers uri = .error) :
    (∃ p, P.lookup (sourceOf uri) = some p) ∧ ¬ (cookieA headers = [] ∧ flagOf uri = 0) := by
  unfold errorOf at h
  split at h
  · simp at h
  · rename_i ha
    split at h
    · simp at h
    · rename_i hs
      refine ⟨?_, ha⟩
      cases hp : P.lookup (sourceOf uri) with
      | none => simp [hp] at hs
      | some p => exact ⟨p, rfl⟩

def object (E : Env) (P : Partners) (headers : UMap Bytes Bytes) (uri : Bytes) : Mapping :=
  { partnered E P headers uri with
    rmid := rmidOf E headers uri
    request := { (partnered E P headers uri).request with
      error := errorOf P headers uri
      isNew := if cookieA headers = [] then 1 else 0 } }

lemma object_partner (E : Env) {P : Partners} (headers : UMap Bytes Bytes) {uri : Bytes}
    {p : Partner} (hp : P.lookup (sourceOf uri) = some p) :
    (object E P headers uri).request.partner = p := by
  simp [object, partnered, hp]

def rmidCookie (E : Env) : Bytes :=
  CookieHeader.setCookie E.localtime E.cookieTime COOKIE_KEY
    (Helper.createRmidCookie E.rmidMs E.rmidRandom) lifetime path domain

def mzCookie (E : Env) (uid : Bytes) : Bytes :=
  CookieHeader.setCookie E.localtime E.cookieTime COOKIE_MZ uid lifetime path domain

/-- The cookies `recordCookieLog` hands out. -/
def identityCookies (E : Env) (P : Partners) (headers : UMap Bytes Bytes) (uri : Bytes) :
    List Bytes :=
  (if cookieA headers = [] ∧ flagOf uri ≠ 0 then [rmidCookie E] else []) ++
    (if extOf uri = ExtType.m.code ∧ cookieMz headers = [] then [mzCookie E (uidOf P uri)] else [])

def response (E : Env) (P : Partners) (headers : UMap Bytes Bytes) (uri : Bytes) : Response :=
  (identityCookies E P headers uri).foldl (fun r c => r.addHeader (lit "Set-Cookie") c)
    (gifResponse {})

lemma response_inv {I : Response → Prop} {E : Env} {P : Partners} {headers : UMap Bytes Bytes}
    {uri : Bytes} (h0 : I (gifResponse {}))
    (h : ∀ r c, I r → I (r.addHeader (lit "Set-Cookie") c)) : I (response E P headers uri) := by
  have key : ∀ (cs : List Bytes) (r : Response), I r →
      I (cs.foldl (fun r c => r.addHeader (lit "Set-Cookie") c) r) := by
    intro cs
    induction cs with
    | nil => exact fun r hr => hr
    | cons c cs ih => exact fun r hr => ih _ (h r c hr)
  exact key _ _ h0

lemma recordCookieLog_eq (E : Env) (P : Partners) (headers : UMap Bytes Bytes) (uri : Bytes) :
    recordCookieLog E (partnered E P headers uri) (gifResponse {}) =
      (object E P headers uri, response E P headers uri) := by
  have ha : CookieHeader.getCookie ((headers.find (lit "Cookie")).getD []) COOKIE_KEY =
    cookieA headers := rfl
  have hz : CookieHeader.getCookie ((headers.find (lit "Cookie")).getD []) COOKIE_MZ =
    cookieMz headers := rfl
  unfold recordCookieLog object response identityCookies rmidOf errorOf partnered
  simp only [ha]
  by_cases h1 : cookieA headers = []
  · by_cases h2 : flagOf uri = 0 <;>
    by_cases h3 : extOf uri = ExtType.m.code ∧ cookieMz headers = [] <;>
      simp [h1, h2, h3, hz, rmidCookie, mzCookie]
  · by_cases h3 : extOf uri = ExtType.m.code ∧ cookieMz headers = [] <;>
      simp [h1, h3, hz, mzCookie]

def userAgent (headers : UMap Bytes Bytes) : Bytes := (headers.find (lit "User-Agent")).getD []

/-- **A run is the answer to its object**, unless a parameter name is missing. -/
theorem serve_ok {E : Env} {P : Partners} {headers : UMap Bytes Bytes} {uri : Bytes}
    (hf : ¬ UidFault P uri) :
    serve E P headers uri =
      answer E P (userAgent headers) (object E P headers uri) (response E P headers uri) := by
  obtain ⟨o, b, ho, hu⟩ := @handleExt_ok E P headers uri hf
  unfold serve handle
  simp only [ho, hu, recordCookieLog_eq]
  rfl

theorem serve_fault {E : Env} {P : Partners} {headers : UMap Bytes Bytes} {uri : Bytes}
    (hf : UidFault P uri) :
    serve E P headers uri = { exit := .uidFault, rep := gifResponse {} } := by
  unfold serve handle
  simp only [handleExt_fault hf]

/-! ### The passes of `url_replace` -/

/-- What `url_replace` puts in for the placeholders. -/
def values (E : Env) (o : Mapping) : List Bytes :=
  [o.rmid, natStr E.urlTime, natStr E.urlNs, o.request.source]

lemma urlReplace_inv {I : Bytes → Prop} {E : Env} {o : Mapping} {url : Bytes}
    (h : ∀ key ∈ placeholders, ∀ value ∈ values E o, ∀ url, I url → I (replaceAll key value url))
    (hu : I url) : I (urlReplace E o url) := by
  unfold urlReplace
  split
  · rename_i h0
    rwa [← List.length_eq_zero_iff.mp h0]
  · have key : ∀ (kvs : List (Bytes × Bytes)) (url : Bytes),
        (∀ kv ∈ kvs, kv.1 ∈ placeholders ∧ kv.2 ∈ values E o) → I url →
        I (kvs.foldl (fun url kv => replaceAll kv.1 kv.2 url) url) := by
      intro kvs
      induction kvs with
      | nil => exact fun url _ hu => hu
      | cons kv kvs ih =>
        intro url hk hu
        have hkv := hk kv (by simp)
        apply ih _ fun kv' h' => hk kv' (by simp [h'])
        exact h kv.1 hkv.1 kv.2 hkv.2 url hu
    exact key _ url (fun kv hkv => List.of_mem_zip hkv) hu

end NgxMapping.MappingSpec
