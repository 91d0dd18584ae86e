import NgxMapping.Attribution
import NgxMapping.Identity
import NgxMapping.Ku6
import NgxMapping.Records
import NgxMapping.RedirectTarget

/-!
One browser at both entries.

The handler of ku6 reads the cookie `a` like the mapping handler, and makes up an identifier
when there is none, but it does not hand it out. What it tells ku6 is then known nowhere else.
-/

namespace NgxMapping.TwoEntries

open Lib HttpRequest HttpResponse PartnerTable CookieHeader CookieText MappingModel MappingSpec
open Answer Browser ResponseSplitting BrowserSession Identity RedirectTarget

inductive Entry
  | mapping | ku6
  deriving DecidableEq

/-- A request and the entry it goes to. The handler of ku6 looks at no partner. -/
structure Visit where
  entry : Entry
  request : Exchange

def Visit.next (jar : Jar) (v : Visit) : Jar :=
  match v.entry with
  | .mapping => v.request.next jar
  | .ku6 =>
    match Ku6.serve v.request.env v.request.headers v.request.uri with
    | none => jar
    | some rep => ((setCookies rep).flatMap headerValues).foldl store jar

/-- The browser sends all its cookies, and no others. -/
def Visit.Presents (jar : Jar) (v : Visit) : Prop :=
  Browser.Presents (fun _ => true) jar v.request ∧ v.request.foreign = []

def Visit.ToldKu6 (v : Visit) (rmid : Bytes) : Prop :=
  ∀ rep, Ku6.serve v.request.env v.request.headers v.request.uri = some rep →
    ∀ value, (lit "Location", value) ∈ rep.added → value = Ku6.location rmid

/-- The identifier the mapping handler writes into its record, its message and its redirect. -/
structure Visit.Told (v : Visit) (rmid : Bytes) : Prop where
  log : ∀ msg ∈ v.request.out.queues.log,
    ∃ o, o.rmid = rmid ∧ msg = LogRecord.writeObject (record v.request.env o)
  scylla : ∀ msg ∈ v.request.out.queues.scylla,
    msg = scyllaMsg (extOf v.request.uri) rmid (uidOf v.request.table v.request.uri)
  location : ∀ value, (lit "Location", value) ∈ v.request.out.rep.added →
    ∃ template, Template v.request.env v.request.table v.request.object template ∧
      value = urlReplace v.request.env { v.request.object with rmid := rmid } template

/-- Nobody is told an identifier. -/
structure Visit.Anonymous (v : Visit) : Prop where
  told : v.Told []
  noPair : v.request.out.queues.scylla = []
  noRedirect : ∀ value, (lit "Location", value) ∉ v.request.out.rep.added

/-- Whatever the visit discloses is `rmid`. -/
def Visit.Shows (rmid : Bytes) (v : Visit) : Prop :=
  match v.entry with
  | .mapping => v.Told rmid ∨ v.Anonymous
  | .ku6 => v.ToldKu6 rmid

/-- A visit to ku6 is made with the cookie `a` in the jar, and no user id shows an `a=`. -/
def Visit.Sound (jar : Jar) (v : Visit) : Prop :=
  match v.entry with
  | .mapping => Harmless v.request
  | .ku6 => ∃ rmid, Known rmid jar

/-! ### What a visit tells -/

lemma mem_send {limit : ℕ} {m msg : Bytes} (h : msg ∈ send limit [] m) : msg = m := by
  unfold send at h
  split at h
  · exact List.mem_singleton.mp h
  · exact absurd h List.not_mem_nil

lemma out_of_fault {x : Exchange} (hx : x.out.exit = .uidFault ∨ x.out.exit = .selfFault) :
    x.out.queues.log = [] ∧ x.out.queues.scylla = [] ∧ locations x.out.rep = [] := by
  by_cases hf : UidFault x.table x.uri
  · rw [Exchange.out, serve_fault hf]
    exact ⟨rfl, rfl, locations_gifResponse⟩
  · have hends := out_ends hf
    generalize x.out = out at hends hx
    cases hends with
    | selfFault => exact ⟨rfl, rfl, locations_response _ _ _ _⟩
    | _ => simp at hx

lemma log_spec {x : Exchange} {msg : Bytes} (h : msg ∈ x.out.queues.log) :
    ∃ o, o.rmid = x.object.rmid ∧ msg = LogRecord.writeObject (record x.env o) := by
  by_cases hx : x.out.exit = .uidFault ∨ x.out.exit = .selfFault
  · rw [(out_of_fault hx).1] at h
    exact absurd h List.not_mem_nil
  · rw [not_or] at hx
    obtain ⟨o, rUrl, ho, hq⟩ := ends_logged (out_ends (not_uidFault hx.1)) rfl hx.2
    rw [hq] at h
    exact ⟨o, ho.rmid, mem_send h⟩

lemma told_object (v : Visit) : v.Told v.request.object.rmid where
  log := fun _ h => log_spec h
  scylla := fun _ h => (Attribution.mem_scylla h).2
  location := fun _ h => (serve_locations h).2

lemma anonymous_of_nil {v : Visit} (h : v.request.object.rmid = []) : v.Anonymous where
  told := h ▸ told_object v
  noPair := by
    refine List.eq_nil_iff_forall_not_mem.mpr fun msg hmsg => ?_
    exact ((Attribution.sendsScylla_iff _).mp (Attribution.mem_scylla hmsg).1).1 h
  noRedirect := fun value hv => by
    have herr := (serve_locations hv).1
    exact (errorOf_eq_error herr).2 ((rmidOf_eq_nil_iff _ _ _).mp h)

/-! ### The jar -/

lemma next_ku6 {v : Visit} (he : v.entry = .ku6) (jar : Jar) : v.next jar = jar := by
  unfold Visit.next
  rw [he]
  dsimp only
  split
  · rfl
  · rename_i rep hrep
    obtain ⟨-, hcookies, hheader⟩ := Ku6.serve_some hrep
    rw [setCookies, hcookies, hheader]
    rfl

lemma next_mapping {v : Visit} (he : v.entry = .mapping) (jar : Jar) :
    v.next jar = v.request.next jar := by
  unfold Visit.next
  rw [he]

lemma readable_visit {jar : Jar} {v : Visit} (hs : v.Sound jar) (hr : Readable {COOKIE_KEY} jar) :
    Readable {COOKIE_KEY} (v.next jar) := by
  cases he : v.entry with
  | mapping =>
    rw [Visit.Sound, he] at hs
    rw [next_mapping he]
    exact readable_harmless hr hs
  | ku6 => rwa [next_ku6 he]

lemma shows_of_known {rmid : Bytes} {jar : Jar} {v : Visit} (hne : rmid ≠ [])
    (hr : Readable {COOKIE_KEY} jar) (hk : Known rmid jar) (hp : v.Presents jar)
    (hs : v.Sound jar) : v.Shows rmid ∧ Known rmid (v.next jar) := by
  have ha : cookieA v.request.headers = rmid := cookieA_of_known hp.1 hr hp.2 hk
  cases he : v.entry with
  | mapping =>
    rw [Visit.Sound, he] at hs
    have hobj : v.request.object.rmid = rmid := by
      change rmidOf v.request.env v.request.headers v.request.uri = rmid
      rw [rmidOf, if_pos (by rwa [ha]), ha]
    refine ⟨?_, ?_⟩
    · rw [Visit.Shows, he]
      exact .inl (hobj ▸ told_object v)
    · rw [next_mapping he]
      exact known_next hne hs.cleanUid ha hk
  | ku6 =>
    have hrm : Ku6.rmidOf v.request.env (received v.request.headers v.request.uri) = rmid := by
      change (if cookieA v.request.headers ≠ [] then cookieA v.request.headers else _) = rmid
      rw [if_pos (by rwa [ha]), ha]
    refine ⟨?_, ?_⟩
    · rw [Visit.Shows, he]
      intro rep hrep value hv
      rw [← hrm]
      exact (Ku6.serve_some hrep).1 value hv
    · rwa [next_ku6 he]

lemma told_of_fault {v : Visit}
    (hx : v.request.out.exit = .uidFault ∨ v.request.out.exit = .selfFault) (rmid : Bytes) :
    v.Told rmid := by
  obtain ⟨hlog, hscylla, hloc⟩ := out_of_fault hx
  refine ⟨?_, ?_, fun value hv => ?_⟩
  · simp [hlog]
  · simp [hscylla]
  · rw [← mem_locations_iff, hloc] at hv
    exact absurd hv List.not_mem_nil

lemma unknown_next {jar : Jar} {x : Exchange} (hx : CleanUid x) (hflag : flagOf x.uri = 0)
    (hk : jar.find COOKIE_KEY = none) : (x.next jar).find COOKIE_KEY = none := by
  refine next_inv (I := fun jar => jar.find COOKIE_KEY = none) hx (fun jar c hc hj => ?_) hk
  rcases @find_store jar x c hc with ⟨-, hf, -⟩ | hkept
  · exact absurd hflag hf
  · rw [hkept, hj]

/-- An active request without the cookie brings it, unless its run ends in a fault. -/
lemma rmidCookie_delivered {x : Exchange} (hx : CleanUid x) (ha : cookieA x.headers = [])
    (hflag : flagOf x.uri ≠ 0) (hexit : ¬ (x.out.exit = .uidFault ∨ x.out.exit = .selfFault)) :
    rmidCookie x.env ∈ delivered x.out := by
  have hf : ¬ UidFault x.table x.uri := not_uidFault fun h => hexit (.inl h)
  have hid : rmidCookie x.env ∈ identityCookies x.env x.table x.headers x.uri := by
    rw [identityCookies, if_pos ⟨ha, hflag⟩]
    simp
  rw [delivered_eq hx, if_neg hexit, setCookies, List.mem_append]
  rcases out_cookies hf with ho | ho
  · exact .inr (ho ▸ hid)
  · exact .inr (ho ▸ List.mem_append_left _ hid)

/-- Without the cookie a visit to the mapping handler tells no identifier and brings no cookie,
or it tells a new one and leaves it in the jar. -/
lemma step_of_unknown {jar : Jar} {v : Visit} (hr : Readable {COOKIE_KEY} jar)
    (hk : jar.find COOKIE_KEY = none) (hp : v.Presents jar) (hs : v.Sound jar) :
    ((∀ rmid, v.Shows rmid) ∧ (v.next jar).find COOKIE_KEY = none) ∨
      ∃ rmid, rmid ≠ [] ∧ v.Shows rmid ∧ Known rmid (v.next jar) := by
  cases he : v.entry with
  | ku6 =>
    rw [Visit.Sound, he] at hs
    obtain ⟨rmid, hrmid⟩ := hs
    exact absurd (hk.symm.trans hrmid) (by simp)
  | mapping =>
    rw [Visit.Sound, he] at hs
    have ha : cookieA v.request.headers = [] := by
      have h := getCookie_presented hp.1 hr (by simp [ForeignOk, hp.2]) rfl
        (by decide : NameOk COOKIE_KEY)
      rwa [if_pos rfl, hk] at h
    have hobj : v.request.object.rmid = rmidOf v.request.env v.request.headers v.request.uri := rfl
    rw [rmidOf, if_neg (not_not.mpr ha)] at hobj
    by_cases hflag : flagOf v.request.uri = 0
    · rw [if_pos hflag] at hobj
      refine .inl ⟨fun rmid => ?_, ?_⟩
      · rw [Visit.Shows, he]
        exact .inr (anonymous_of_nil hobj)
      · rw [next_mapping he]
        exact unknown_next hs.cleanUid hflag hk
    · rw [if_neg hflag] at hobj
      by_cases hexit : v.request.out.exit = .uidFault ∨ v.request.out.exit = .selfFault
      · refine .inl ⟨fun rmid => ?_, ?_⟩
        · rw [Visit.Shows, he]
          exact .inl (told_of_fault hexit rmid)
        · rw [next_mapping he, Exchange.next, delivered, if_pos hexit]
          exact hk
      · have hc := rmidCookie_delivered hs.cleanUid ha hflag hexit
        have hname : (cookieOf (rmidCookie v.request.env)).1 = COOKIE_KEY :=
          (cookieOf_setCookie _ _ _ _ _ (by decide) (by decide)).1
        obtain ⟨hknown, hne⟩ := known_of_set jar hs.cleanUid hc hname
        have hset := handlerCookie_of_delivered hs.cleanUid hc
        have hvalue := (cookieOf_handlerCookie hset hname).2.2
        refine .inr ⟨_, hne, ?_, by rwa [next_mapping he]⟩
        rw [Visit.Shows, he, hvalue, ← hobj]
        exact .inl (told_object v)

/-! ### Runs -/

lemma shows_run_of_known {rmid : Bytes} {jar : Jar} {vs : List Visit} (hne : rmid ≠ [])
    (hr : Readable {COOKIE_KEY} jar) (hk : Known rmid jar)
    (hp : Run Visit.Presents Visit.next jar vs)
    (hs : Run Visit.Sound Visit.next jar vs) : ∀ v ∈ vs, v.Shows rmid := by
  induction vs generalizing jar with
  | nil => simp
  | cons v vs ih =>
    obtain ⟨hshow, hknown⟩ := shows_of_known hne hr hk hp.1 hs.1
    intro w hw
    rcases List.mem_cons.mp hw with rfl | hw
    · exact hshow
    · exact ih (readable_visit hs.1 hr) hknown hp.2 hs.2 w hw

/-- **One identity at both entries**, when ku6 is only visited with the cookie in the jar. -/
theorem one_identity (vs : List Visit)
    (hp : Run Visit.Presents Visit.next UMap.empty vs)
    (hs : Run Visit.Sound Visit.next UMap.empty vs) :
    ∃ rmid, ∀ v ∈ vs, v.Shows rmid := by
  have key : ∀ (vs : List Visit) (jar : Jar), Readable {COOKIE_KEY} jar →
      jar.find COOKIE_KEY = none → Run Visit.Presents Visit.next jar vs →
      Run Visit.Sound Visit.next jar vs → ∃ rmid, ∀ v ∈ vs, v.Shows rmid := by
    intro vs
    induction vs with
    | nil => exact fun _ _ _ _ _ => ⟨[], by simp⟩
    | cons v vs ih =>
      intro jar hr hk hp hs
      have hr' := readable_visit hs.1 hr
      rcases step_of_unknown hr hk hp.1 hs.1 with ⟨hall, hk'⟩ | ⟨rmid, hne, hshow, hk'⟩
      · obtain ⟨rmid, hrest⟩ := ih _ hr' hk' hp.2 hs.2
        refine ⟨rmid, fun w hw => ?_⟩
        rcases List.mem_cons.mp hw with rfl | hw
        · exact hall rmid
        · exact hrest w hw
      · refine ⟨rmid, fun w hw => ?_⟩
        rcases List.mem_cons.mp hw with rfl | hw
        · exact hshow
        · exact shows_run_of_known hne hr' hk' hp.2 hs.2 w hw
  exact key vs UMap.empty (readable_empty _) rfl hp hs

/-- A visit to the mapping handler as an iqiyi user, with the cookies given. -/
def mappingVisit (now : ℕ) (cs : List (Bytes × Bytes)) : Visit where
  entry := .mapping
  request := .plain now Records.iqiyiTable (lit "/m.gif?aid=O05Oc0&ext=3") cs

def ku6Visit (now : ℕ) (cs : List (Bytes × Bytes)) : Visit where
  entry := .ku6
  request := .plain now Records.iqiyiTable (lit "/k.gif") cs

def iqiyiCookies : List (Bytes × Bytes) :=
  [(COOKIE_KEY, Helper.createRmidCookie 1500000000000 10000)]

/-- A visit to ku6 after one to the mapping handler. -/
theorem one_identity_iqiyi :
    ∃ rmid, ∀ v ∈ [mappingVisit 1500000000 [], ku6Visit 1500000600 iqiyiCookies],
      v.Shows rmid := by
  have hharmless : Harmless (mappingVisit 1500000000 []).request := by
    intro he
    exact absurd he (by decide +kernel)
  have hknown : Known (Helper.createRmidCookie 1500000000000 10000)
      ((mappingVisit 1500000000 []).next UMap.empty) := by
    unfold Known
    decide +kernel
  refine one_identity _ ⟨⟨⟨[], by decide +kernel, by decide +kernel⟩, rfl⟩,
    ⟨⟨iqiyiCookies, by decide +kernel, by decide +kernel⟩, rfl⟩, trivial⟩
    ⟨hharmless, ⟨_, hknown⟩, trivial⟩

/-- A visit to ku6 first: ku6 and the others know the browser under different identifiers. -/
theorem two_identities_iqiyi :
    Run Visit.Presents Visit.next UMap.empty [ku6Visit 1500000000 [], mappingVisit 1500000600 []] ∧
    (lit "Location", Ku6.location (Helper.createRmidCookie 1500000000000 10000)) ∈
      ((Ku6.serve (.still 1500000000) (ku6Visit 1500000000 []).request.headers
        (lit "/k.gif")).map Response.added).getD [] ∧
    (mappingVisit 1500000600 []).request.out.queues.scylla =
      [scyllaMsg 3 (Helper.createRmidCookie 1500000600000 10000) (lit "O05Oc0")] ∧
    Helper.createRmidCookie 1500000000000 10000 ≠ Helper.createRmidCookie 1500000600000 10000 := by
  exact ⟨⟨⟨⟨[], by decide +kernel, by decide +kernel⟩, rfl⟩,
    ⟨⟨[], by decide +kernel, by decide +kernel⟩, rfl⟩, trivial⟩, by decide +kernel,
    by decide +kernel, by decide +kernel⟩

end NgxMapping.TwoEntries
