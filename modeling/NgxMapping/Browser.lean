import Mathlib.Data.List.DropRight
import NgxMapping.CookieText
import NgxMapping.MappingSpec
import NgxMapping.Lib.Run

/-!
A browser that talks to the mapping handler.

The browser keeps one value under each name, in its jar. It reads a `Set-Cookie` value the
usual way: the text before the first semicolon is split at the first equals sign and
trimmed, and the last `Max-Age` decides whether the cookie is stored or deleted. It sends
its cookies, or those it has not been told to withhold, joined in any order, together with
cookies from elsewhere.
-/

namespace NgxMapping.Browser

open Lib HttpRequest HttpResponse PartnerTable CookieHeader CookieText MappingModel MappingSpec

/-! ### Reading a `Set-Cookie` value -/

def wsp (c : UInt8) : Bool := c == 32 || c == 9

def trim (s : Bytes) : Bytes := (s.dropWhile wsp).rdropWhile wsp

/-- A name and a value out of one piece of the text. -/
def nameValue (piece : Bytes) : Bytes × Bytes := (trim (keyPart piece), trim (valuePart piece))

/-- The number of a `Max-Age` attribute, if it is one. -/
def ageOf (v : Bytes) : Option ℤ :=
  match v with
  | 45 :: d => if d.all isdigit then some (-(digitLoop 0 d : ℤ)) else none
  | d => if d ≠ [] ∧ d.all isdigit then some (digitLoop 0 d : ℤ) else none

def age (piece : Bytes) : Option ℤ :=
  if (nameValue piece).1.map TokenMatch.tolower = lit "max-age" then ageOf (nameValue piece).2
  else none

/-- The ages of the attributes, in order. -/
def ages (c : Bytes) : List ℤ := (c.splitOn 59).tail.filterMap age

/-- Whether the cookie is deleted on arrival. The handler never sends a date without an age. -/
def expired (c : Bytes) : Bool :=
  match (ages c).getLast? with
  | some n => n ≤ 0
  | none => false

abbrev Jar := UMap Bytes Bytes

/-- The name and the value of a cookie as the browser reads them. -/
def cookieOf (c : Bytes) : Bytes × Bytes := nameValue (c.takeWhile (· ≠ 59))

def store (jar : Jar) (c : Bytes) : Jar :=
  if expired c then jar.erase (cookieOf c).1 else jar.insert (cookieOf c).1 (cookieOf c).2

/-- What a browser keeps of a value written by `setCookie`. -/
def stored (value : Bytes) : Bytes := trim ((cstr value).takeWhile (· ≠ 59))

/-! ### Exchanges -/

/-- The `Set-Cookie` headers `send_headers` writes: the one among the headers, then the
cookies. -/
def setCookies (rep : Response) : List Bytes :=
  (rep.headers.find (lit "Set-Cookie")).toList ++ rep.cookies

/-- The value of a header line, if it is a cookie. -/
def cookieLine (line : Bytes) : Option Bytes :=
  if (line.takeWhile (· ≠ 58)).map TokenMatch.tolower = lit "set-cookie" then
    some (trim (line.dropWhile (· ≠ 58)).tail)
  else none

/-- The cookies a browser sees where the server has written one: a line break in the value
ends it, and what follows is read as header lines up to an empty one. -/
def headerValues (c : Bytes) : List Bytes :=
  match (c.splitOn 10).map fun line => line.rdropWhile (· == 13) with
  | [] => []
  | value :: lines => value :: (lines.takeWhile (· ≠ [])).filterMap cookieLine

/-- What reaches the browser: nothing when the worker has died. -/
def delivered (out : Outcome) : List Bytes :=
  if out.exit = .uidFault ∨ out.exit = .selfFault then []
  else (setCookies out.rep).flatMap headerValues

/-- A request, everything its run reads from outside, and the cookies from elsewhere. -/
structure Exchange where
  env : Env
  table : Partners
  headers : UMap Bytes Bytes
  uri : Bytes
  foreign : List (Bytes × Bytes) := []

/-- A call at a time, with the cookies given and no other header. -/
def Exchange.plain (now : ℕ) (table : Partners) (uri : Bytes) (cs : List (Bytes × Bytes)) :
    Exchange where
  env := .still now
  table := table
  headers := ⟨[(lit "Cookie", cookieText cs)], List.nodup_singleton _⟩
  uri := uri

def Exchange.out (x : Exchange) : Outcome := serve x.env x.table x.headers x.uri

/-- The object of the request when the answer begins. -/
def Exchange.object (x : Exchange) : Mapping := MappingSpec.object x.env x.table x.headers x.uri

def Exchange.cookieHeader (x : Exchange) : Bytes := (x.headers.find (lit "Cookie")).getD []

def Exchange.next (jar : Jar) (x : Exchange) : Jar := (delivered x.out).foldl store jar

/-- The request carries the cookies that are not withheld, in some order. -/
def Presents (keep : Bytes → Bool) (jar : Jar) (x : Exchange) : Prop :=
  ∃ cs, cs.Perm (jar.entries.filter (fun e => keep e.1) ++ x.foreign) ∧
    x.cookieHeader = cookieText cs

/-- Exchanges one after the other, from a jar on. -/
def Session (keep : Bytes → Bool) : Jar → List Exchange → Prop := Run (Presents keep) Exchange.next

/-! ### Storing what `setCookie` writes -/

lemma trim_eq_self {s : Bytes} (h : ∀ c ∈ s, wsp c = false) : trim s = s := by
  have h1 : s.dropWhile wsp = s := by
    cases s with
    | nil => rfl
    | cons c s => simp [h c (by simp)]
  unfold trim
  rw [h1, List.rdropWhile_eq_self_iff]
  intro hl
  simp [h _ (List.getLast_mem hl)]

lemma trim_part (s : Bytes) : trim s <:+: s :=
  (List.rdropWhile_prefix _ _).isInfix.trans (List.dropWhile_suffix _).isInfix

lemma wsp_boundary {c : UInt8} (h : boundary c = false) : wsp c = false := by
  simp only [boundary, isspace, Bool.or_eq_false_iff, Bool.and_eq_false_iff, beq_eq_false_iff_ne,
    decide_eq_false_iff_not, UInt8.le_iff_toNat_le, UInt8.reduceToNat] at h
  simp only [wsp, Bool.or_eq_false_iff, beq_eq_false_iff_ne]
  refine ⟨h.1.1, ?_⟩
  rintro rfl
  simp at h

lemma nameValue_setCookie {name value rest : Bytes} (hok : NameOk name) :
    nameValue ((name ++ 61 :: value ++ 59 :: rest).takeWhile (· ≠ 59)) =
      (name, trim (value.takeWhile (· ≠ 59))) := by
  have h59 : ∀ c ∈ name ++ [61], decide (c ≠ 59) = true := by
    intro c hc
    rcases List.mem_append.mp hc with hc | hc
    · have := (hok.plain c hc).1
      have : c ≠ 59 := by rintro rfl; simp [boundary] at this
      simpa using this
    · have : c = 61 := by simpa using hc
      subst this
      decide
  have hcut : (value ++ 59 :: rest).takeWhile (· ≠ 59) = value.takeWhile (· ≠ 59) := by
    induction value with
    | nil => simp
    | cons c v ih => by_cases h : c = 59 <;> simp_all
  have htake : (name ++ 61 :: value ++ 59 :: rest).takeWhile (· ≠ 59) =
      name ++ 61 :: value.takeWhile (· ≠ 59) := by
    rw [show name ++ 61 :: value ++ 59 :: rest = (name ++ [61]) ++ (value ++ 59 :: rest) by simp,
      List.takeWhile_append_of_pos h59, hcut]
    simp
  obtain ⟨h1, h2⟩ := keyPart_append (v := value.takeWhile (· ≠ 59))
    (fun hc => (hok.plain 61 hc).2 rfl : (61 : UInt8) ∉ name)
  rw [htake, nameValue, h1, h2, trim_eq_self fun c hc => wsp_boundary (hok.plain c hc).1]

lemma ages_append (u r : Bytes) : ages (u ++ 59 :: r) = ages u ++ (r.splitOn 59).filterMap age := by
  unfold ages
  rw [List.splitOn_append_cons_self]
  obtain ⟨p, ps, h⟩ := List.exists_cons_of_ne_nil (List.splitOn_ne_nil 59 u)
  simp [h]

lemma expired_append {u r : Bytes} {n : ℤ} (h : (r.splitOn 59).filterMap age = [n]) :
    expired (u ++ 59 :: r) = decide (n ≤ 0) := by
  unfold expired
  rw [ages_append, h, List.getLast?_append]
  simp

/-- What `setCookie` appends to the age. -/
def pathAndDomain (path domain : Bytes) : Bytes :=
  (if path = [] then [] else lit "; path=" ++ cstr path) ++
    if domain = [] then [] else lit "; domain=" ++ cstr domain

section SetCookie

variable (localtime : ℤ → Tm) (now : ℕ) {name : Bytes} (value path domain : Bytes)
  (h0 : (0 : UInt8) ∉ name)

include h0

lemma setCookie_live (hv : value ≠ []) :
    setCookie localtime now name value lifetime path domain =
      name ++ 61 :: cstr value ++ 59 ::
        (lit " expires=" ++ cookieDate (localtime (now + lifetime)) ++ 59 ::
          (lit " Max-Age=" ++ toStr lifetime ++ pathAndDomain path domain)) := by
  have hl : (0 : ℤ) < lifetime ∧ ¬ (253402300799 : ℤ) < lifetime := by decide
  have hs : lit "; expires=" = 59 :: lit " expires=" := by decide
  have hm : lit "; Max-Age=" = 59 :: lit " Max-Age=" := by decide
  have heq : lit "=" = [61] := by decide
  unfold setCookie pathAndDomain
  simp [hv, cstr_eq_self h0, hs, hm, hl, heq]

lemma setCookie_dead :
    setCookie localtime now name [] lifetime path domain =
      name ++ 61 :: lit "deleted" ++ 59 ::
        (lit " expires=" ++ cookieDate (localtime (now - 1)) ++ 59 ::
          (lit " Max-Age=0" ++ pathAndDomain path domain)) := by
  have hd : lit "=deleted; expires=" = 61 :: (lit "deleted" ++ 59 :: lit " expires=") := by decide
  have hm : lit "; Max-Age=0" = 59 :: lit " Max-Age=0" := by decide
  unfold setCookie pathAndDomain
  simp [cstr_eq_self h0, hd, hm]

end SetCookie

lemma cookieOf_setCookie (localtime : ℤ → Tm) (now : ℕ) {name : Bytes} (value path domain : Bytes)
    (hok : NameOk name) (h0 : (0 : UInt8) ∉ name) :
    (cookieOf (setCookie localtime now name value lifetime path domain)).1 = name ∧
      (value ≠ [] →
        (cookieOf (setCookie localtime now name value lifetime path domain)).2 = stored value) := by
  unfold cookieOf
  by_cases hv : value = []
  · subst hv
    rw [setCookie_dead localtime now path domain h0, nameValue_setCookie hok]
    exact ⟨rfl, fun h => absurd rfl h⟩
  · rw [setCookie_live localtime now value path domain h0 hv, nameValue_setCookie hok]
    exact ⟨rfl, fun _ => rfl⟩

/-- **A cookie of the handler is stored under its name**, or deleted when its value is empty. -/
theorem store_setCookie (jar : Jar) (localtime : ℤ → Tm) (now : ℕ) {name path domain : Bytes}
    (value : Bytes) (hok : NameOk name) (h0 : (0 : UInt8) ∉ name)
    (hlive : ((lit " Max-Age=" ++ toStr lifetime ++ pathAndDomain path domain).splitOn 59).filterMap
      age = [lifetime])
    (hdead : ((lit " Max-Age=0" ++ pathAndDomain path domain).splitOn 59).filterMap age = [0]) :
    store jar (setCookie localtime now name value lifetime path domain) =
      if value = [] then jar.erase name else jar.insert name (stored value) := by
  have hlast : ∀ a b c d : Bytes,
      a ++ 59 :: (b ++ c ++ 59 :: d) = (a ++ 59 :: (b ++ c)) ++ 59 :: d := by
    simp
  obtain ⟨hname, hvalue⟩ := cookieOf_setCookie localtime now value path domain hok h0
  rw [store, hname]
  by_cases hv : value = []
  · subst hv
    have hexp : expired (setCookie localtime now name [] lifetime path domain) = true := by
      rw [setCookie_dead localtime now path domain h0, hlast, expired_append hdead]
      rfl
    simp [hexp]
  · have hexp : expired (setCookie localtime now name value lifetime path domain) = false := by
      rw [setCookie_live localtime now value path domain h0 hv, hlast, expired_append hlive]
      decide
    simp [hexp, hv, hvalue hv]

end NgxMapping.Browser
