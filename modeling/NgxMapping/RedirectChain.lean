import NgxMapping.Throttle

/-!
Chains of redirects.

A redirect to one of the partners 4, 7 and 12 makes the partner call the handler back, with the
same source and a code of its own. Three things keep a chain from coming back to a partner: the
`t_` cookie of the partner, the error for a return without the cookie `a`, and the two pairs of
code and partner that `checkVaildExpire` leaves out.
-/

namespace NgxMapping.RedirectChain

open Lib HttpRequest HttpResponse PartnerTable CookieHeader CookieText MappingModel MappingSpec
open Answer Browser ResponseSplitting BrowserSession Selection Throttle

/-- The code with which a partner calls back. -/
def callback (pid : ℤ) : Option ℤ :=
  if pid = 4 then some 6 else if pid = 7 then some 4 else if pid = 12 then some 2 else none

def redirect (x : Exchange) : Option ℤ :=
  match x.out.exit with
  | .partnerUrl pid => some pid
  | _ => none

/-- The second request is the call back that the first one causes: a return, with the code of
the partner the first one was sent to. -/
def Follows (x y : Exchange) : Prop :=
  ∃ pid, redirect x = some pid ∧ callback pid = some (extOf y.uri) ∧ flagOf y.uri = 0

/-- A chain of redirects with one source and its entry, shorter than every cycle. -/
structure Chain (source : Bytes) (entry : Partner) (chain : List Exchange) : Prop where
  follows : chain.IsChain Follows
  same : ∀ x ∈ chain, sourceOf x.uri = source
  listed : ∀ x ∈ chain, x.table.lookup source = some entry
  timed : Timed chain
  short : ∀ x ∈ chain, ∀ y ∈ chain, ∀ e ∈ entry.expires.entries,
    (y.env.checkTime : ℤ) < x.env.checkTime + e.2

/-- A request that does not come back to the partner: the cookie `a` is withheld, or the `t_`
cookie is withheld and the code and the partner are left out, or the `t_` cookie is sent and its
time and the cycle fit an `int`. -/
def Stopped (keep : Bytes → Bool) (entry : Partner) (y : Exchange) (pid : ℤ) : Prop :=
  keep COOKIE_KEY = false ∨
    (keep (timeCookie pid) = false ∧ barred (extOf y.uri) pid = true) ∨
    (keep (timeCookie pid) = true ∧
      ∀ c, entry.expires.find pid = some c → Fits y.cookieHeader pid c)

lemma redirect_eq_some {x : Exchange} {pid : ℤ} :
    redirect x = some pid ↔ x.out.exit = .partnerUrl pid := by
  unfold redirect
  split
  · rename_i q h
    rw [h, Option.some.injEq, Exit.partnerUrl.injEq]
  · rename_i h
    exact ⟨fun h' => by simp at h', fun h' => absurd h' (h pid)⟩

lemma flag_of_mem_tail {chain : List Exchange} (h : chain.IsChain Follows) :
    ∀ y ∈ chain.tail, flagOf y.uri = 0 := by
  induction chain with
  | nil => simp
  | cons x chain ih =>
    intro y hy
    cases chain with
    | nil => simp at hy
    | cons z chain =>
      rw [List.isChain_cons_cons] at h
      rcases List.mem_cons.mp hy with rfl | hy
      · obtain ⟨_, _, _, hf⟩ := h.1
        exact hf
      · exact ih h.2 y hy

lemma Chain.partner {source : Bytes} {entry : Partner} {chain : List Exchange}
    (h : Chain source entry chain) {x : Exchange} (hx : x ∈ chain) :
    x.object.request.partner = entry :=
  object_partner x.env x.headers (h.same x hx ▸ h.listed x hx)

lemma no_redirect_without_cookie {x : Exchange} {pid : ℤ} (hf : flagOf x.uri = 0)
    (ha : cookieA x.headers = []) : redirect x ≠ some pid := by
  intro h
  have hclean := (partnerUrl_spec (redirect_eq_some.mp h)).1.clean
  exact (errorOf_eq_error hclean).2 ⟨ha, hf⟩

lemma not_selected_of_barred {x : Exchange} {pid : ℤ} (hpid : pid ≠ 0)
    (hread : getCookie x.cookieHeader (timeCookie pid) = [])
    (hb : barred (extOf x.uri) pid = true) : selected x.env x.object ≠ pid := by
  intro hsel
  obtain ⟨c, -, hel⟩ := checkVaildExpire_eligible hpid hsel
  have hread : getCookie x.object.cookieHeader (timeCookie pid) = [] := hread
  have hb : barred x.object.ext pid = true := hb
  simp [eligible, hread, hb] at hel

/-- After a redirect to a partner, a request of the chain that is stopped there is not sent to it
again. -/
lemma not_redirected_again {keep : Bytes → Bool} {jar : Jar} {source : Bytes}
    {entry : Partner} {xs ys zs : List Exchange} {x y : Exchange} {pid : ℤ}
    (hr : Readable handlerNames jar)
    (hs : Session keep jar (xs ++ x :: (ys ++ y :: zs)))
    (hc : Chain source entry (xs ++ x :: (ys ++ y :: zs)))
    (hq : ∀ z ∈ xs ++ x :: (ys ++ y :: zs), Quiet z) (hx : redirect x = some pid)
    (hstop : Stopped keep entry y pid) : redirect y ≠ some pid := by
  have hx := redirect_eq_some.mp hx
  obtain ⟨-, -, hpid, -⟩ := partnerUrl_spec hx
  obtain ⟨jar', hp, hr', hm⟩ := session_marked hr hs hc.timed hq hx
  have hfor := (hq y (by simp)).foreign
  have hpart := hc.partner (x := y) (by simp)
  rcases hstop with hk | ⟨hk, hb⟩ | ⟨hk, hfits⟩
  · -- the cookie `a` is withheld
    have ha := getCookie_presented hp hr' hfor (.inl rfl) (by decide : NameOk COOKIE_KEY)
    rw [if_neg (by simp [hk])] at ha
    refine no_redirect_without_cookie (flag_of_mem_tail hc.follows y ?_) ha
    cases xs <;> simp
  · intro hy
    have hread := getCookie_presented hp hr' hfor (.inr (.inr ⟨pid, rfl⟩)) (nameOk_timeCookie pid)
    rw [if_neg (by simp [hk])] at hread
    exact not_selected_of_barred hpid hread hb (partnerUrl_spec (redirect_eq_some.mp hy)).2.1
  · intro hy
    have hsel := (partnerUrl_spec (redirect_eq_some.mp hy)).2.1
    obtain ⟨c, hfind, -⟩ := checkVaildExpire_eligible hpid hsel
    rw [hpart] at hfind
    have h1 := hc.short x (by simp) y (by simp) _ (UMap.find_eq_some_iff.mp hfind)
    have h2 := hc.timed.within x (by simp)
    refine not_selected_of_marked hp hr' hfor hk hm hpid (by rwa [hpart]) ?_ (hfits c hfind) hsel
    dsimp only at h1
    omega

lemma length_le_redirects {chain : List Exchange} (h : chain.IsChain Follows) :
    chain.length ≤ (chain.filterMap redirect).length + 1 := by
  induction chain with
  | nil => simp
  | cons x chain ih =>
    cases chain with
    | nil => simp
    | cons y chain =>
      rw [List.isChain_cons_cons] at h
      obtain ⟨pid, hp, -⟩ := h.1
      have := ih h.2
      rw [List.filterMap_cons, hp]
      simp only [List.length_cons] at this ⊢
      omega

/-- **No redirect loop**: when every request is stopped at the partners visited before, a chain
visits no partner twice and ends after at most one request more than there are partners. -/
theorem no_redirect_loop (keep : Bytes → Bool) (jar : Jar) (source : Bytes) (entry : Partner)
    (chain : List Exchange) (hr : Readable handlerNames jar) (hs : Session keep jar chain)
    (hc : Chain source entry chain) (hq : ∀ z ∈ chain, Quiet z)
    (hstop : chain.Pairwise fun x y => ∀ pid, redirect x = some pid → Stopped keep entry y pid) :
    (chain.filterMap redirect).Nodup ∧ chain.length ≤ entry.expires.size + 1 := by
  have hnodup : (chain.filterMap redirect).Nodup := by
    rw [List.Nodup, List.pairwise_filterMap, List.pairwise_iff_forall_sublist]
    intro x y hsub pid hx pid' hy he
    subst he
    have hst := List.pairwise_iff_forall_sublist.mp hstop hsub pid hx
    obtain ⟨r₁, r₂, rfl, hx1, hy2⟩ := List.cons_sublist_iff.mp hsub
    obtain ⟨xs, us, rfl⟩ := List.append_of_mem hx1
    obtain ⟨vs, zs, rfl⟩ := List.append_of_mem (List.singleton_sublist.mp hy2)
    have hsplit : xs ++ x :: us ++ (vs ++ y :: zs) = xs ++ x :: ((us ++ vs) ++ y :: zs) := by simp
    rw [hsplit] at hs hc hq
    exact not_redirected_again hr hs hc hq hx hst hy
  refine ⟨hnodup, ?_⟩
  have hsub : chain.filterMap redirect ⊆ entry.expires.keys := by
    intro pid hpid
    obtain ⟨x, hx, hred⟩ := List.mem_filterMap.mp hpid
    obtain ⟨-, hsel, hne, -⟩ := partnerUrl_spec (redirect_eq_some.mp hred)
    obtain ⟨c, hfind, -⟩ := checkVaildExpire_eligible hne hsel
    rw [hc.partner hx] at hfind
    exact UMap.mem_keys_iff.mpr ⟨c, hfind⟩
  have hlen := (List.subperm_of_subset hnodup hsub).length_le
  have hkeys : entry.expires.keys.length = entry.expires.size := by simp [UMap.keys, UMap.size]
  have := length_le_redirects hc.follows
  omega

/-! ### The entry of iqiyi -/

/-- `Mapping_3` of the production table. -/
def iqiyi : Partner where
  open_ := 1
  type := 2
  uid := lit "qiyi_uid"
  expires := ⟨[(4, 1296000), (12, 1296000), (7, 2592000)], by decide⟩
  weight := ⟨[(4, 100), (12, 100), (7, 90)], by decide⟩
  url := ⟨[(4, lit "http://cm.cn.miaozhen.com/addnewer.gif?r=$\x7brmid\x7d&s=$\x7bsource\x7d"),
    (12, lit "http://cm.l.qq.com/?dspid=110065&gettuid=1&dspuid=$\x7brmid\x7d&ext=$\x7bsource\x7d"),
    (7, lit ("http://reachmax.cm.admaster.com.cn/?tid=2024&type=1&uid=$\x7brmid\x7d&redir=" ++
      "http://m.reachmax.cn/r.gif?ext=4&s=$\x7bsource\x7d"))], by decide⟩

/-- The table of the chain; of Tencent and miaozhen only the parameter names matter. -/
def chainTable : Partners :=
  .ofList [(2, { open_ := 1, type := 2, uid := lit "tuid" }), (3, iqiyi),
    (6, { open_ := 1, type := 1, uid := lit "mid" })] (by decide) (by decide)

/-- A request of the chain from a browser that returns the cookies given. -/
def hop (now : ℕ) (uri : Bytes) (cs : List (Bytes × Bytes)) : Exchange :=
  .plain now chainTable uri cs

/-- The cookie `a` of a browser that came first at 1500000000. -/
def onlyA : List (Bytes × Bytes) := [(COOKIE_KEY, Helper.createRmidCookie 1500000000000 10000)]

/-- iqiyi's call, miaozhen's call back and Tencent's call back. -/
def hops : List Exchange :=
  [hop 1500000000 (lit "/r.gif?ext=a&qiyi_uid=9174f21b") [],
    hop 1500000001 (lit "/m.gif?mid=O05Oc0&ext=m&s=3") onlyA,
    hop 1500000002 (lit "/r.gif?ext=q&tuid=AQEBM9I3&ver=1&ext=3") onlyA]

lemma session_hops : Session (fun n => n == COOKIE_KEY) UMap.empty hops :=
  ⟨⟨[], by decide +kernel, by decide +kernel⟩, ⟨onlyA, by decide +kernel, by decide +kernel⟩,
    ⟨onlyA, by decide +kernel, by decide +kernel⟩, trivial⟩

lemma chain_hops : Chain (natStr 3) iqiyi hops where
  follows := .cons_cons ⟨4, by decide +kernel⟩ (.cons_cons ⟨12, by decide +kernel⟩ (.singleton _))
  same := by decide +kernel
  listed := by
    intro x hx
    have h : x.table = chainTable := by
      simp only [hops, List.mem_cons, List.not_mem_nil, or_false] at hx
      rcases hx with rfl | rfl | rfl <;> rfl
    rw [h]
    exact Partners.lookup_ofList (by simp)
  timed := ⟨by decide +kernel, by decide +kernel⟩
  short := by decide +kernel

lemma quiet_hops : ∀ x ∈ hops, Quiet x := by
  have huid : ∀ x ∈ hops, ∀ c ∈ uidOf x.table x.uri, isspace c = false := by decide +kernel
  intro x hx
  refine ⟨huid x hx, ?_⟩
  simp only [hops, List.mem_cons, List.not_mem_nil, or_false] at hx
  rcases hx with rfl | rfl | rfl <;> simp [ForeignOk, hop, Exchange.plain]

lemma Chain.take {source : Bytes} {entry : Partner} {chain : List Exchange}
    (h : Chain source entry chain) (n : ℕ) : Chain source entry (chain.take n) where
  follows := h.follows.take n
  same := fun x hx => h.same x (List.mem_of_mem_take hx)
  listed := fun x hx => h.listed x (List.mem_of_mem_take hx)
  timed := ⟨fun x hx => h.timed.within x (List.mem_of_mem_take hx), h.timed.between.take⟩
  short := fun x hx y hy => h.short x (List.mem_of_mem_take hx) y (List.mem_of_mem_take hy)

/-- Up to miaozhen's call back the chain is stopped at partner 4, by the pair left out. -/
theorem no_redirect_loop_iqiyi :
    ((hops.take 2).filterMap redirect).Nodup ∧ (hops.take 2).length ≤ iqiyi.expires.size + 1 := by
  have hs : Session (fun n => n == COOKIE_KEY) UMap.empty (hops.take 2) := by
    have h := session_hops
    rw [← List.take_append_drop 2 hops] at h
    exact (run_append.mp h).1
  have h4 : redirect (hop 1500000000 (lit "/r.gif?ext=a&qiyi_uid=9174f21b") []) = some 4 := by
    decide +kernel
  refine no_redirect_loop _ UMap.empty (natStr 3) iqiyi (hops.take 2) (readable_empty _) hs
    (chain_hops.take 2) (fun x hx => quiet_hops x (List.mem_of_mem_take hx)) ?_
  refine .cons (fun y hy pid hp => ?_) (.cons (by simp) .nil)
  obtain rfl := List.mem_singleton.mp hy
  obtain rfl := Option.some.inj (hp.symm.trans h4)
  exact .inr (.inl ⟨by decide, by decide +kernel⟩)

/-- A browser that keeps nothing but the cookie `a` is sent to partner 4 twice. -/
theorem redirect_loop_iqiyi :
    ∃ (keep : Bytes → Bool) (source : Bytes) (entry : Partner) (chain : List Exchange),
      Session keep UMap.empty chain ∧ Chain source entry chain ∧ (∀ x ∈ chain, Quiet x) ∧
      chain.filterMap redirect = [4, 12, 4] :=
  ⟨_, _, _, hops, session_hops, chain_hops, quiet_hops, by decide +kernel⟩

end NgxMapping.RedirectChain
