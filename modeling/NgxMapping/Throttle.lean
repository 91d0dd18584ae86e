import NgxMapping.BrowserSession
import NgxMapping.Selection

/-!
The cycle of a partner over whole sessions.

After a redirect to a partner its `t_` cookie holds the time of the redirect, and every later
exchange leaves it alone or writes a later time. `checkVaildExpire` then turns the partner
down until the cycle is over, as long as the sum of the time and the cycle fits an `int`.
-/

namespace NgxMapping.Throttle

open Lib HttpRequest HttpResponse PartnerTable CookieHeader CookieText MappingModel MappingSpec
open Answer Browser ResponseSplitting BrowserSession Selection

def handlerNames : Set Bytes := {n | n = COOKIE_KEY ∨ n = COOKIE_MZ ∨ ∃ pid, n = timeCookie pid}

/-- The user id holds no blank, and the cookies from elsewhere cannot be mistaken. -/
structure Quiet (x : Exchange) : Prop where
  uid : ∀ c ∈ uidOf x.table x.uri, isspace c = false
  foreign : ForeignOk handlerNames x

/-- Neither the user id nor a cookie from elsewhere holds a blank or a semicolon, and the
latter have names of their own. -/
structure Tidy (x : Exchange) : Prop where
  uid : ∀ c ∈ uidOf x.table x.uri, boundary c = false
  foreign : ∀ f ∈ x.foreign, NameOk f.1 ∧ (∀ c ∈ f.2, boundary c = false) ∧ f.1 ∉ handlerNames

/-- The clocks do not go back, neither within an exchange nor between two. -/
structure Timed (zs : List Exchange) : Prop where
  within : ∀ z ∈ zs, z.env.checkTime ≤ z.env.markTime
  between : zs.Pairwise fun a b => a.env.markTime ≤ b.env.checkTime

lemma Tidy.quiet {x : Exchange} (h : Tidy x) : Quiet x where
  uid := by
    intro c hc
    have := h.uid c hc
    simp only [boundary, Bool.or_eq_false_iff] at this
    exact this.1
  foreign := by
    intro f hf
    obtain ⟨h1, h2, h3⟩ := h.foreign f hf
    exact ⟨h1, fun n hn => ⟨silent_of_plain n h2, fun he => h3 (he ▸ hn)⟩⟩

lemma stored_subset (v : Bytes) : stored v ⊆ v := by
  intro c hc
  exact cstr_subset v ((List.takeWhile_prefix _).subset ((trim_part _).subset hc))

lemma silent_stored (name : Bytes) {v : Bytes} (h : ∀ c ∈ v, isspace c = false) :
    Silent name (stored v) := by
  refine silent_of_plain name fun c hc => ?_
  have h59 : c ≠ 59 := by
    simpa using List.mem_takeWhile_imp ((trim_part _).subset hc)
  simp [boundary, h c (stored_subset v hc), h59]

lemma clean_of_no_blank {v : Bytes} (h : ∀ c ∈ v, isspace c = false) : Clean v := by
  intro c hc
  refine ⟨?_, ?_⟩
  · rintro rfl
    exact absurd (h 13 hc) (by decide)
  · rintro rfl
    exact absurd (h 10 hc) (by decide)

lemma Quiet.cleanUid {x : Exchange} (h : Quiet x) : CleanUid x := fun _ _ =>
  (clean_of_no_blank h.uid).mono (cstr_subset _)

lemma readable_quiet {jar : Jar} {x : Exchange} (h : Readable handlerNames jar) (hx : Quiet x) :
    Readable handlerNames (x.next jar) :=
  readable_next hx.cleanUid h fun _ _ n _ => silent_stored n hx.uid

/-! ### The mark of a redirect -/

/-- The jar remembers a visit to the partner, between two times. -/
def Marked (pid : ℤ) (a b : ℕ) (jar : Jar) : Prop :=
  ∃ m, jar.find (timeCookie pid) = some (natStr m) ∧ a ≤ m ∧ m ≤ b

lemma marked_next {pid : ℤ} {a b : ℕ} {jar : Jar} {x : Exchange} (hx : CleanUid x)
    (h : Marked pid a b jar)
    (ha : a ≤ x.env.markTime) (hb : x.env.markTime ≤ b) : Marked pid a b (x.next jar) := by
  refine next_inv hx (fun jar c hc hj => ?_) h
  obtain ⟨m, hm, h1, h2⟩ := hj
  obtain ⟨hne, hnz⟩ := timeCookie_ne pid
  cases hc with
  | rmid =>
    rw [store_rmidCookie]
    exact ⟨m, by rwa [UMap.find_insert, if_neg hne], h1, h2⟩
  | mz =>
    rw [store_mzCookie]
    split
    · exact ⟨m, by rwa [UMap.find_erase _ hnz], h1, h2⟩
    · exact ⟨m, by rwa [UMap.find_insert, if_neg hnz], h1, h2⟩
  | throttle =>
    rw [store_throttleCookie]
    by_cases hp : timeCookie pid = timeCookie (selected x.env x.object)
    · exact ⟨x.env.markTime, by rw [UMap.find_insert, if_pos hp], ha, hb⟩
    · exact ⟨m, by rwa [UMap.find_insert, if_neg hp], h1, h2⟩

lemma marked_redirect {pid : ℤ} {a b : ℕ} (jar : Jar) {x : Exchange} (hclean : CleanUid x)
    (hx : x.out.exit = .partnerUrl pid) (ha : a ≤ x.env.markTime) (hb : x.env.markTime ≤ b) :
    Marked pid a b (x.next jar) := by
  obtain ⟨-, rfl, -⟩ := partnerUrl_spec hx
  obtain ⟨cs, hcs⟩ := delivered_partnerUrl hclean hx
  refine ⟨x.env.markTime, ?_, ha, hb⟩
  rw [Exchange.next, hcs, List.foldl_append, List.foldl_cons, List.foldl_nil, store_throttleCookie,
    UMap.find_insert, if_pos rfl]

lemma session_marked {keep : Bytes → Bool} {jar : Jar} {xs ys zs : List Exchange} {x y : Exchange}
    {pid : ℤ} (hr : Readable handlerNames jar) (hs : Session keep jar (xs ++ x :: (ys ++ y :: zs)))
    (ht : Timed (xs ++ x :: (ys ++ y :: zs)))
    (hq : ∀ z ∈ xs ++ x :: (ys ++ y :: zs), Quiet z) (hx : x.out.exit = .partnerUrl pid) :
    ∃ jar', Presents keep jar' y ∧ Readable handlerNames jar' ∧
      Marked pid x.env.markTime y.env.checkTime jar' := by
  -- the clocks between the two exchanges
  have hpw := (List.pairwise_append.mp ht.between).2.1
  rw [List.pairwise_cons] at hpw
  have hbetween := (List.pairwise_append.mp hpw.2).2.2
  have hwin : ∀ z ∈ ys, x.env.markTime ≤ z.env.markTime ∧ z.env.markTime ≤ y.env.checkTime := by
    intro z hz
    have h1 := hpw.1 z (by simp [hz])
    have h2 := ht.within z (by simp [hz])
    exact ⟨by omega, hbetween z hz y (by simp)⟩
  -- the jar before the redirect, after it, and before the later request
  obtain ⟨hs1, -, hs2⟩ := run_append.mp hs
  obtain ⟨hs3, hpy, -⟩ := run_append.mp hs2
  have hr0 : Readable handlerNames (xs.foldl Exchange.next jar) :=
    run_invariant (fun _ z h _ hz => readable_quiet h hz) hs1 (fun z hz => hq z (by simp [hz])) hr
  have hm : Marked pid x.env.markTime y.env.checkTime (x.next (xs.foldl Exchange.next jar)) :=
    marked_redirect _ (hq x (by simp)).cleanUid hx (le_refl _) (hpw.1 y (by simp))
  have hinv := run_invariant
    (I := fun jar => Readable handlerNames jar ∧ Marked pid x.env.markTime y.env.checkTime jar)
    (Q := fun z => Quiet z ∧ x.env.markTime ≤ z.env.markTime ∧ z.env.markTime ≤ y.env.checkTime)
    (fun _ z h _ hz => ⟨readable_quiet h.1 hz.1, marked_next hz.1.cleanUid h.2 hz.2.1 hz.2.2⟩) hs3
    (fun z hz => ⟨hq z (by simp [hz]), hwin z hz⟩) ⟨readable_quiet hr0 (hq x (by simp)), hm⟩
  exact ⟨_, hpy, hinv.1, hinv.2⟩

/-- The time in the cookie of a partner and the cycle fit an `int`. -/
def Fits (header : Bytes) (pid c : ℤ) : Prop :=
  ∀ m : ℕ, getCookie header (timeCookie pid) = natStr m → (m : ℤ) + c < 2 ^ 31

/-- The handler sees the mark and turns the partner down while its cycle lasts. -/
lemma not_selected_of_marked {keep : Bytes → Bool} {jar : Jar} {y : Exchange} {pid c : ℤ} {a : ℕ}
    (hp : Presents keep jar y) (hr : Readable handlerNames jar) (hf : ForeignOk handlerNames y)
    (hk : keep (timeCookie pid) = true) (hm : Marked pid a y.env.checkTime jar) (hpid : pid ≠ 0)
    (hc : y.object.request.partner.expires.find pid = some c)
    (hle : (y.env.checkTime : ℤ) ≤ a + c) (hfits : Fits y.cookieHeader pid c) :
    selected y.env y.object ≠ pid := by
  intro hsel
  obtain ⟨expire, he, hel⟩ := checkVaildExpire_eligible hpid hsel
  rw [hc, Option.some.injEq] at he
  subst he
  obtain ⟨m, hfind, h1, h2⟩ := hm
  have hread : getCookie y.cookieHeader (timeCookie pid) = natStr m := by
    rw [getCookie_presented hp hr hf (.inr (.inr ⟨pid, rfl⟩)) (nameOk_timeCookie pid), if_pos hk,
      hfind]
    rfl
  have hsum := hfits m hread
  have hlen : ¬ (natStr m).length = 0 := by simpa using natStr_ne_nil m
  have hread : getCookie y.object.cookieHeader (timeCookie pid) = natStr m := hread
  unfold eligible at hel
  simp only [hread, hlen, if_false, atoi_natStr_of_lt m (by omega), decide_eq_true_eq] at hel
  rw [wrap32_of_bounds (by omega) hsum] at hel
  omega

/-- **The throttle law**: between a redirect to a partner and the end of the partner's cycle no
request selects it again, if the time in its cookie and the cycle do not overflow. -/
theorem not_selected_within_cycle (xs ys zs : List Exchange) (x y : Exchange) (pid c : ℤ)
    (hs : Session (fun _ => true) UMap.empty (xs ++ x :: (ys ++ y :: zs)))
    (ht : Timed (xs ++ x :: (ys ++ y :: zs)))
    (htidy : ∀ z ∈ xs ++ x :: (ys ++ y :: zs), Tidy z)
    (hx : x.out.exit = .partnerUrl pid)
    (hc : y.object.request.partner.expires.find pid = some c)
    (hle : (y.env.checkTime : ℤ) ≤ x.env.markTime + c)
    (hfits : Fits y.cookieHeader pid c) :
    selected y.env y.object ≠ pid := by
  obtain ⟨-, -, hpid, -⟩ := partnerUrl_spec hx
  obtain ⟨jar, hp, hr, hm⟩ := session_marked (readable_empty _) hs ht
    (fun z hz => (htidy z hz).quiet) hx
  exact not_selected_of_marked hp hr (htidy y (by simp)).quiet.foreign rfl hm hpid hc hle hfits

/-- A partner that sends visitors to partner 4 once in a cycle. -/
def cyclePartner (cycle : ℤ) : Partner where
  open_ := 1
  type := 2
  uid := lit "qiyi_uid"
  weight := ⟨[(4, 100)], by decide⟩
  expires := ⟨[(4, cycle)], by simp⟩
  url := ⟨[(4, lit "http://d.cn/?r=$\x7brmid\x7d")], by decide⟩

def cycleTable (cycle : ℤ) : Partners :=
  .ofList [(3, cyclePartner cycle)] (by simp) (by simp [maxPartnerId])

/-- A visit at a time, with the cookies given. -/
def visitAt (now : ℕ) (cycle : ℤ) (cs : List (Bytes × Bytes)) : Exchange :=
  .plain now (cycleTable cycle) (lit "/r.gif?ext=a") cs

/-- The cookies of a visitor who came first at one time and was sent on last at another. -/
def visitorCookies (first last : ℕ) : List (Bytes × Bytes) :=
  [(lit "t_4", natStr last), (lit "a", Helper.createRmidCookie (1000 * first) 10000)]

lemma tidy_visitAt (now : ℕ) (cycle : ℤ) (cs : List (Bytes × Bytes)) :
    Tidy (visitAt now cycle cs) where
  uid := by
    have hp : param (lit "/r.gif?ext=a") (lit "qiyi_uid") = [] := by decide +kernel
    have hu : param (lit "/r.gif?ext=a") (lit "uid") = [] := by decide +kernel
    have hn : uidNameOf (cycleTable cycle) (lit "/r.gif?ext=a") = lit "qiyi_uid" := by
      have he : extOf (lit "/r.gif?ext=a") = 3 := by decide +kernel
      have hs : sourceOf (lit "/r.gif?ext=a") = natStr 3 := by decide +kernel
      have ha : ¬ adDefault (lit "/r.gif?ext=a") := by decide +kernel
      have hl : (cycleTable cycle).lookup (natStr 3) = some (cyclePartner cycle) :=
        Partners.lookup_ofList (by simp)
      rw [uidNameOf, if_neg ha, hs, he, show toStr 3 = natStr 3 by rfl, hl]
      rfl
    have h : uidOf (cycleTable cycle) (lit "/r.gif?ext=a") = [] := by simp [uidOf, hn, hp, hu]
    show ∀ c ∈ uidOf (cycleTable cycle) (lit "/r.gif?ext=a"), boundary c = false
    simp [h]
  foreign := by simp [visitAt, Exchange.plain]

/-- Ten minutes after the first redirect the partner is not selected. -/
theorem not_selected_within_cycle_iqiyi :
    selected (.still 1500000600)
      (visitAt 1500000600 1296000 (visitorCookies 1500000000 1500000000)).object ≠ 4 := by
  refine not_selected_within_cycle [] [] [] (visitAt 1500000000 1296000 [])
    (visitAt 1500000600 1296000 (visitorCookies 1500000000 1500000000)) 4 1296000 ?_ ?_ ?_
    (by decide +kernel) (by decide +kernel) (by decide) ?_
  · exact ⟨⟨[], by decide +kernel, by decide +kernel⟩,
      ⟨visitorCookies 1500000000 1500000000, by decide +kernel, by decide +kernel⟩, trivial⟩
  · exact ⟨by simp [visitAt, Exchange.plain, Env.still],
      by simp [visitAt, Exchange.plain, Env.still]⟩
  · simp [tidy_visitAt]
  · intro m hm
    have h : getCookie
      (visitAt 1500000600 1296000 (visitorCookies 1500000000 1500000000)).cookieHeader
      (timeCookie 4) = natStr 1500000000 := by decide +kernel
    have : m = 1500000000 := natStr_injective (hm.symm.trans h)
    omega

/-- A second redirect close to the end of the 32-bit clock: its time and a long cycle overflow,
and the partner is selected although the cycle after the first redirect is not over. -/
theorem selected_within_cycle_overflow :
    ∃ (xs ys zs : List Exchange) (x y : Exchange) (pid c : ℤ),
      Session (fun _ => true) UMap.empty (xs ++ x :: (ys ++ y :: zs)) ∧
      Timed (xs ++ x :: (ys ++ y :: zs)) ∧ (∀ z ∈ xs ++ x :: (ys ++ y :: zs), Tidy z) ∧
      x.out.exit = .partnerUrl pid ∧ y.object.request.partner.expires.find pid = some c ∧
      (x.env.markTime : ℤ) + c < 2 ^ 31 ∧ (y.env.checkTime : ℤ) ≤ x.env.markTime + c ∧
      selected y.env y.object = pid := by
  refine ⟨[], [visitAt 2147482657 5 (visitorCookies 2147482647 2147482647)], [],
    visitAt 2147482647 5 [], visitAt 2147482658 1000 (visitorCookies 2147482647 2147482657), 4,
    1000,
    ?_, ?_, ?_, by decide +kernel, by decide +kernel, by decide, by decide, by decide +kernel⟩
  · exact ⟨⟨[], by decide +kernel, by decide +kernel⟩,
      ⟨visitorCookies 2147482647 2147482647, by decide +kernel, by decide +kernel⟩,
      ⟨visitorCookies 2147482647 2147482657, by decide +kernel, by decide +kernel⟩, trivial⟩
  · exact ⟨by simp [visitAt, Exchange.plain, Env.still],
      by simp [visitAt, Exchange.plain, Env.still]⟩
  · simp [tidy_visitAt]

end NgxMapping.Throttle
