import NgxMapping.MappingModel

/-!
`handler/mapping_ku6.h`: the entry that sends every visitor on to ku6.

The redirect is formatted into a buffer of 100 bytes; a run that writes beyond it has no
outcome.
-/

namespace NgxMapping.Ku6

open Lib HttpRequest HttpResponse MappingModel

def DSP_ID : ℕ := 100026

/-- The text that is formatted into `l_buffer`. -/
def location (rmid : Bytes) : Bytes :=
  lit "http://cm.fastapi.net/?dspid=" ++ natStr DSP_ID ++ lit "&dspuid=" ++ cstr rmid ++
    lit "&gethuid=1"

/-- The size of `l_buffer`. -/
def bufferSize : ℕ := 100

/-- The identifier: the cookie `a`, or a new one. -/
def rmidOf (E : Env) (req : Request) : Bytes :=
  let cookie := CookieHeader.getCookie (req.getHeader (lit "Cookie")) COOKIE_KEY
  if cookie ≠ [] then cookie else Helper.createRmidCookie E.rmidMs E.rmidRandom

/-- The headers every answer of the handler starts with. -/
def gifResponse (rep : Response) : Response :=
  { (((rep.setMimeType (lit "image/gif")).addHeader (lit "cache-control")
      (lit "no-cache,must-revalidate")).addHeader (lit "Expires") (lit "0")).addHeader
      (lit "Content-Length") (natStr Helper.gifData.length) with content := Helper.gifData }

def handle (E : Env) (req : Request) (rep : Response) : Option Response :=
  let text := location (rmidOf E req)
  if text.length + 1 ≤ bufferSize then
    some (((gifResponse rep).setStatus .movedTemporarily).addHeader (lit "Location") text)
  else none

/-- What the module does with a request: a new response and a new handler. -/
def serve (E : Env) (headers : UMap Bytes Bytes) (uri : Bytes) : Option Response :=
  handle E (received headers uri) {}

lemma serve_some {E : Env} {headers : UMap Bytes Bytes} {uri : Bytes} {rep : Response}
    (h : serve E headers uri = some rep) :
    (∀ value, (lit "Location", value) ∈ rep.added →
      value = location (rmidOf E (received headers uri))) ∧
    rep.cookies = [] ∧ rep.headers.find (lit "Set-Cookie") = none := by
  unfold serve handle at h
  dsimp only at h
  split at h
  · rw [Option.some.injEq] at h
    generalize location (rmidOf E (received headers uri)) = text at h
    subst h
    refine ⟨fun value hv => ?_, ?_, ?_⟩
    · have hno : lit "Location" ∉ (gifResponse {}).added.map Prod.fst := by decide
      rw [added_addHeader] at hv
      rcases List.mem_append.mp hv with hv | hv
      · exact absurd (List.mem_map.mpr ⟨_, hv, rfl⟩) hno
      · simpa using hv
    · rw [cookies_addHeader, if_neg (by decide)]
      decide
    · have hno : (gifResponse {}).headers.find (lit "Set-Cookie") = none := by decide
      unfold Response.addHeader
      dsimp only
      rw [if_neg (by decide), if_neg (by decide), UMap.find_insert, if_neg (by decide)]
      exact hno
  · simp at h

/-! ### The buffer -/

lemma length_location (rmid : Bytes) : (location rmid).length = 53 + (cstr rmid).length := by
  have h1 : (lit "http://cm.fastapi.net/?dspid=").length = 29 := by decide
  have h2 : (natStr DSP_ID).length = 6 := by decide
  have h3 : (lit "&dspuid=").length = 8 := by decide
  have h4 : (lit "&gethuid=1").length = 10 := by decide
  unfold location
  simp only [List.length_append, h1, h2, h3, h4]
  omega

/-- **The text fits its buffer exactly when the cookie has at most 46 bytes.** -/
theorem location_fits_iff (E : Env) (headers : UMap Bytes Bytes) (uri : Bytes)
    (hms : E.rmidMs < 2 ^ 63) :
    (location (rmidOf E (received headers uri))).length + 1 ≤ bufferSize ↔
      (cstr (CookieHeader.getCookie ((received headers uri).getHeader (lit "Cookie"))
        COOKIE_KEY)).length ≤ 46 := by
  rw [length_location, bufferSize, rmidOf]
  generalize CookieHeader.getCookie ((received headers uri).getHeader (lit "Cookie"))
    COOKIE_KEY = cookie
  by_cases hc : cookie = []
  · -- a new identifier is short
    have hnew := Helper.length_createRmidCookie hms E.random_mem.2
    have hcut : (cstr (Helper.createRmidCookie E.rmidMs E.rmidRandom)).length ≤ 14 :=
      (List.takeWhile_prefix _).length_le.trans hnew
    simp only [hc, ne_eq, not_true_eq_false, if_false]
    refine iff_of_true ?_ ?_
    · omega
    · exact Nat.zero_le 46
  · simp only [ne_eq, hc, not_false_eq_true, if_true]
    omega

/-- A cookie as the handlers hand it out. -/
theorem location_fits_iff_visit :
    (location (rmidOf (.still 1500000000) (received ⟨[(lit "Cookie", lit "a=4bGq5tcVfI")],
      by decide⟩ (lit "/k.php")))).length + 1 ≤ bufferSize :=
  (location_fits_iff (.still 1500000000) ⟨[(lit "Cookie", lit "a=4bGq5tcVfI")], by decide⟩
    (lit "/k.php") (by decide)).mpr (by decide +kernel)

/-- A `Cookie` header whose `a` has 47 bytes. -/
def longCookie : UMap Bytes Bytes :=
  ⟨[(lit "Cookie", lit "a=" ++ List.replicate 47 120)], by simp⟩

theorem location_overflow :
    (location (rmidOf (.still 1500000000) (received longCookie (lit "/k.php")))).length + 1 =
        101 ∧
      ¬ (location (rmidOf (.still 1500000000) (received longCookie (lit "/k.php")))).length + 1 ≤
        bufferSize := by
  decide +kernel

end NgxMapping.Ku6
