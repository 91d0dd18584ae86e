import NgxMapping.BrowserSession

/-!
The identifier of a browser over whole sessions.

Once the cookie `a` is in the jar the handler finds it and does not set it again. The one
cookie that can stand in the way is `amz`: it holds whatever the client sent as user id, and a
blank followed by `a=` in it is taken for the cookie `a`.
-/

namespace NgxMapping.Identity

open Lib HttpRequest HttpResponse PartnerTable CookieHeader CookieText MappingModel MappingSpec
open Answer Browser ResponseSplitting BrowserSession

/-- The user id that goes into the `amz` cookie neither breaks the line nor shows an `a=`
behind a blank in what a browser stores of it. -/
def Harmless (x : Exchange) : Prop :=
  extOf x.uri = 6 → cookieMz x.headers = [] →
    Clean (cstr (uidOf x.table x.uri)) ∧
      ∀ w, isspace w = true → ¬ w :: (COOKIE_KEY ++ [61]) <:+: stored (uidOf x.table x.uri)

lemma Harmless.cleanUid {x : Exchange} (h : Harmless x) : CleanUid x := fun he hz => (h he hz).1

lemma semicolon_not_mem_stored (v : Bytes) : (59 : UInt8) ∉ stored v := by
  intro h
  simpa using List.mem_takeWhile_imp ((trim_part _).subset h)

lemma readable_harmless {jar : Jar} {x : Exchange} (h : Readable {COOKIE_KEY} jar)
    (hx : Harmless x) : Readable {COOKIE_KEY} (x.next jar) := by
  refine readable_next hx.cleanUid h fun he hz n hn => ?_
  rw [Set.mem_singleton_iff.mp hn]
  exact ⟨semicolon_not_mem_stored _, (hx he hz).2⟩

/-- The cookie `a` is in the jar. -/
def Known (rmid : Bytes) (jar : Jar) : Prop := jar.find COOKIE_KEY = some rmid

lemma find_store {jar : Jar} {x : Exchange} {c : Bytes} (hc : HandlerCookie x c) :
    (cookieA x.headers = [] ∧ flagOf x.uri ≠ 0 ∧ (store jar c).find COOKIE_KEY =
        some (Helper.createRmidCookie x.env.rmidMs x.env.rmidRandom)) ∨
      (store jar c).find COOKIE_KEY = jar.find COOKIE_KEY := by
  cases hc with
  | rmid ha hf =>
    rw [store_rmidCookie, UMap.find_insert, if_pos rfl]
    exact .inl ⟨ha, hf, rfl⟩
  | mz =>
    have hne : COOKIE_KEY ≠ COOKIE_MZ := by decide
    right
    rw [store_mzCookie]
    split
    · rw [UMap.find_erase _ hne]
    · rw [UMap.find_insert, if_neg hne]
  | throttle =>
    right
    rw [store_throttleCookie, UMap.find_insert, if_neg (timeCookie_ne _).1.symm]

lemma known_store {rmid : Bytes} {jar : Jar} {x : Exchange} {c : Bytes} (hc : HandlerCookie x c)
    (hr : cookieA x.headers = [] → rmid = Helper.createRmidCookie x.env.rmidMs x.env.rmidRandom)
    (h : Known rmid jar) : Known rmid (store jar c) := by
  unfold Known at h ⊢
  rcases @find_store jar x c hc with ⟨ha, -, hset⟩ | hkept
  · rw [hset, hr ha]
  · rw [hkept, h]

lemma cookieOf_handlerCookie {x : Exchange} {c : Bytes} (hc : HandlerCookie x c)
    (hname : (cookieOf c).1 = COOKIE_KEY) :
    cookieA x.headers = [] ∧ c = rmidCookie x.env ∧
      (cookieOf c).2 = Helper.createRmidCookie x.env.rmidMs x.env.rmidRandom := by
  cases hc with
  | rmid ha hf =>
    refine ⟨ha, rfl, ?_⟩
    rw [rmidCookie, (cookieOf_setCookie _ _ _ _ _ (by decide) (by decide)).2
      (newRmid_ne_nil x.env), stored_eq_self (plain_rmid _ _)]
  | mz =>
    rw [mzCookie, (cookieOf_setCookie _ _ _ _ _ (by decide) (by decide)).1] at hname
    exact absurd hname (by decide)
  | throttle =>
    rw [throttleCookie, (cookieOf_setCookie _ _ _ _ _ (nameOk_timeCookie _)
      (zero_not_mem_timeCookie _)).1] at hname
    exact absurd hname (timeCookie_ne _).1

lemma known_of_set {x : Exchange} {c : Bytes} (jar : Jar) (hx : CleanUid x)
    (hc : c ∈ delivered x.out) (hname : (cookieOf c).1 = COOKIE_KEY) :
    Known (cookieOf c).2 (x.next jar) ∧ (cookieOf c).2 ≠ [] := by
  have hall : ∀ d ∈ delivered x.out, HandlerCookie x d :=
    fun d hd => handlerCookie_of_delivered hx hd
  obtain ⟨-, hcr, hv⟩ := cookieOf_handlerCookie (hall c hc) hname
  refine ⟨?_, hv ▸ newRmid_ne_nil x.env⟩
  obtain ⟨l₁, l₂, hl⟩ := List.append_of_mem hc
  rw [Exchange.next, hl, List.foldl_append, List.foldl_cons, hv]
  -- the cookies behind it set no other `a`
  refine foldl_store_inv (fun d hd => hall d (by simp [hl, hd]))
    (fun _ _ hd hk => known_store hd (fun _ => rfl) hk) ?_
  rw [hcr, Known, store_rmidCookie, UMap.find_insert, if_pos rfl]

lemma cookieA_of_known {rmid : Bytes} {jar : Jar} {x : Exchange}
    (hp : Presents (fun _ => true) jar x) (hr : Readable {COOKIE_KEY} jar) (hf : x.foreign = [])
    (hk : Known rmid jar) : cookieA x.headers = rmid := by
  have h := getCookie_presented hp hr (by simp [ForeignOk, hf]) rfl
    (by decide : NameOk COOKIE_KEY)
  rw [if_pos rfl, hk] at h
  exact h

lemma known_next {rmid : Bytes} {jar : Jar} {x : Exchange} (hne : rmid ≠ []) (hx : CleanUid x)
    (ha : cookieA x.headers = rmid) (hk : Known rmid jar) : Known rmid (x.next jar) :=
  next_inv hx (fun _ _ hc hj => known_store hc (fun h0 => absurd (ha.symm.trans h0) hne) hj) hk

/-- **Stable identity**: after a response has set the cookie `a`, every later request is
identified by its value and no later response sets it, if no user id shows an `a=`. -/
theorem stable_identity (xs ys zs : List Exchange) (x y : Exchange) (c : Bytes)
    (hs : Session (fun _ => true) UMap.empty (xs ++ x :: (ys ++ y :: zs)))
    (hforeign : ∀ z ∈ xs ++ x :: (ys ++ y :: zs), z.foreign = [])
    (hok : ∀ z ∈ xs ++ x :: (ys ++ y :: zs), Harmless z)
    (hc : c ∈ delivered x.out) (hname : (cookieOf c).1 = COOKIE_KEY) :
    y.object.rmid = (cookieOf c).2 ∧ ∀ d ∈ delivered y.out, (cookieOf d).1 ≠ COOKIE_KEY := by
  obtain ⟨hs1, hpx, hs2⟩ := run_append.mp hs
  obtain ⟨hs3, hpy, -⟩ := run_append.mp hs2
  have hr0 : Readable {COOKIE_KEY} (xs.foldl Exchange.next UMap.empty) :=
    run_invariant (fun _ z h _ hz => readable_harmless h hz) hs1
      (fun z hz => hok z (by simp [hz])) (readable_empty _)
  have hr1 := readable_harmless hr0 (hok x (by simp))
  obtain ⟨hk1, hne⟩ := known_of_set (xs.foldl Exchange.next UMap.empty)
    (hok x (by simp)).cleanUid hc hname
  have hinv := run_invariant
    (I := fun jar => Readable {COOKIE_KEY} jar ∧ Known (cookieOf c).2 jar)
    (Q := fun z => Harmless z ∧ z.foreign = [])
    (fun jar z h hp hz => ⟨readable_harmless h.1 hz.1,
      known_next hne hz.1.cleanUid (cookieA_of_known hp h.1 hz.2 h.2) h.2⟩) hs3
    (fun z hz => ⟨hok z (by simp [hz]), hforeign z (by simp [hz])⟩) ⟨hr1, hk1⟩
  have ha := cookieA_of_known hpy hinv.1 (hforeign y (by simp)) hinv.2
  refine ⟨?_, fun d hd hd' => ?_⟩
  · have hrm : y.object.rmid = rmidOf y.env y.headers y.uri := rfl
    rw [hrm, rmidOf, if_pos (by rwa [ha]), ha]
  · have h0 := (cookieOf_handlerCookie (handlerCookie_of_delivered
      (hok y (by simp)).cleanUid hd) hd').1
    exact hne (ha.symm.trans h0)

/-- A miaozhen visit with a user id, with the cookies given. -/
def miaozhenVisit (now : ℕ) (uri : Bytes) (cs : List (Bytes × Bytes)) : Exchange :=
  .plain now miaozhenTable uri cs

def miaozhenCookies (uid : Bytes) : List (Bytes × Bytes) :=
  [(COOKIE_MZ, uid), (COOKIE_KEY, Helper.createRmidCookie 1500000000000 10000)]

lemma harmless_miaozhenVisit (now : ℕ) (cs : List (Bytes × Bytes)) :
    Harmless (miaozhenVisit now (lit "/m.gif?ext=m&mid=1+b=2") cs) := by
  have hu : uidOf miaozhenTable (lit "/m.gif?ext=m&mid=1+b=2") = lit "1 b=2" := by decide +kernel
  refine fun _ _ => ⟨?_, fun w _ hi => ?_⟩
  · show Clean (cstr (uidOf miaozhenTable (lit "/m.gif?ext=m&mid=1+b=2")))
    rw [hu]
    decide
  · have hi : w :: (COOKIE_KEY ++ [61]) <:+:
      stored (uidOf miaozhenTable (lit "/m.gif?ext=m&mid=1+b=2")) := hi
    rw [hu] at hi
    exact absurd ((List.suffix_cons w _).isInfix.trans hi) (by decide)

/-- Another cookie in the user id is no harm. -/
theorem stable_identity_miaozhen :
    (miaozhenVisit 1500000600 (lit "/m.gif?ext=m&mid=1+b=2")
      (miaozhenCookies (lit "1 b=2"))).object.rmid =
        Helper.createRmidCookie 1500000000000 10000 := by
  have hset : rmidCookie (.still 1500000000) ∈
      delivered (miaozhenVisit 1500000000 (lit "/m.gif?ext=m&mid=1+b=2") []).out := by
    decide +kernel
  have h := stable_identity [] [] [] (miaozhenVisit 1500000000 (lit "/m.gif?ext=m&mid=1+b=2") [])
    (miaozhenVisit 1500000600 (lit "/m.gif?ext=m&mid=1+b=2") (miaozhenCookies (lit "1 b=2")))
    (rmidCookie (.still 1500000000)) ?_ ?_ ?_ hset (by decide +kernel)
  · exact h.1.trans (by decide +kernel)
  · exact ⟨⟨[], by decide +kernel, by decide +kernel⟩,
      ⟨miaozhenCookies (lit "1 b=2"), by decide +kernel, by decide +kernel⟩, trivial⟩
  · simp [miaozhenVisit, Exchange.plain]
  · simp [harmless_miaozhenVisit]

/-- A user id with a blank and `a=` in it becomes the identifier. -/
theorem identity_taken_over :
    ∃ (xs ys zs : List Exchange) (x y : Exchange) (c : Bytes),
      Session (fun _ => true) UMap.empty (xs ++ x :: (ys ++ y :: zs)) ∧
      (∀ z ∈ xs ++ x :: (ys ++ y :: zs), z.foreign = []) ∧
      c ∈ delivered x.out ∧ (cookieOf c).1 = COOKIE_KEY ∧
      y.object.rmid ≠ (cookieOf c).2 := by
  refine ⟨[], [], [], miaozhenVisit 1500000000 (lit "/m.gif?ext=m&mid=1+a=2") [],
    miaozhenVisit 1500000600 (lit "/m.gif?ext=m&mid=1+a=2") (miaozhenCookies (lit "1 a=2")),
    rmidCookie (.still 1500000000), ?_, ?_, by decide +kernel, by decide +kernel, by decide +kernel⟩
  · exact ⟨⟨[], by decide +kernel, by decide +kernel⟩,
      ⟨miaozhenCookies (lit "1 a=2"), by decide +kernel, by decide +kernel⟩, trivial⟩
  · simp [miaozhenVisit, Exchange.plain]

end NgxMapping.Identity
