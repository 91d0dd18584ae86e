import NgxMapping.CookieHeader
import NgxMapping.Helper
import NgxMapping.HttpRequest
import NgxMapping.HttpResponse
import NgxMapping.LogRecord
import NgxMapping.PartnerTable
import NgxMapping.TokenMatch

/-!
`handler/mapping.h`: the cookie mapping handler.

One run of `handle` serves one request on a fresh handler object. Everything it reads from
outside the request and the partner table is in `Env`: the clocks, the random number of a new
identifier, the order a shuffle produces and the contents of uninitialised members. A field
read through a lookup that found nothing ends the run; the `return` statement or the read
that ends it is recorded as the `Exit`.
-/

namespace NgxMapping.MappingModel

open Lib HttpRequest HttpResponse PartnerTable TokenMatch

def COOKIE_KEY : Bytes := lit "a"
def COOKIE_MZ : Bytes := lit "amz"
def COOKIE_TIME : Bytes := lit "t_"

def mappingVec : List ℤ := [2, 3, 5, 6, 8, 10, 11, 21, 26, 27, 29, 31]

/-- `ext_type`. -/
inductive ExtType
  | q | a | s | m | y | x | k | f | b | t

def ExtType.code : ExtType → ℤ
  | q => 2 | a => 3 | s => 5 | m => 6 | y => 8 | x => 9 | k => 10 | f => 11 | b => 12 | t => 13

/-- `error`. -/
inductive Error
  | error | noExt | noUid | noPartner | badExt | noUrl | redisTimeout | cookieGet
  deriving DecidableEq

def Error.code : Error → ℕ
  | error => 0 | noExt => 1 | noUid => 2 | noPartner => 3 | badExt => 4 | noUrl => 5
  | redisTimeout => 6 | cookieGet => 7

/-- What a run reads from outside. -/
structure Env where
  /-- `time(nullptr)` in `checkVaildExpire` -/
  checkTime : ℕ
  /-- `time(nullptr)` written into a `t_` cookie -/
  markTime : ℕ
  /-- the clocks of `url_replace` -/
  urlTime : ℕ
  urlNs : ℕ
  /-- `time(nullptr)` in `log_save` -/
  logTime : ℕ
  /-- the clock of `setCookie` -/
  cookieTime : ℕ
  /-- the clock and the number drawn in `createRmidCookie` -/
  rmidMs : ℕ
  rmidRandom : ℕ
  random_mem : 10000 ≤ rmidRandom ∧ rmidRandom ≤ 50000
  localtime : ℤ → Tm
  /-- `std::random_shuffle` -/
  shuffle : List ℤ → List ℤ
  shuffle_perm : ∀ l, (shuffle l).Perm l
  /-- the members of a default-constructed partner without an initialiser -/
  openJunk : ℤ
  typeJunk : ℤ

/-- All clocks stand at `now`, and the shuffle keeps the order. -/
def Env.still (now : ℕ) : Env where
  checkTime := now
  markTime := now
  urlTime := now
  urlNs := 1000000000 * now
  logTime := now
  cookieTime := now
  rmidMs := 1000 * now
  rmidRandom := 10000
  random_mem := by omega
  localtime := fun _ => ⟨2017, 0, 1, 0, 0, 0, 0⟩
  shuffle := id
  shuffle_perm := fun _ => List.Perm.refl _
  openJunk := 0
  typeJunk := 0

/-- `requestData`. -/
structure RequestData where
  error : Error := .error
  source : Bytes := []
  type : ℤ := 0
  flag : ℕ := 0
  partner : Partner
  url : Bytes := []
  pid : ℤ := 0
  m : ℕ := 0
  isNew : ℕ := 0
  uidName : Bytes := []

structure Mapping where
  request : RequestData
  queryUrl : Bytes := []
  cookieHeader : Bytes := []
  rmid : Bytes := []
  uid : Bytes := []
  ext : ℤ := 0

/-- The messages on the three queues. -/
structure Queues where
  test : List Bytes := []
  log : List Bytes := []
  scylla : List Bytes := []

/-- Where a run ends: at a read through a missing partner, or at one of the returns. -/
inductive Exit
  | uidFault | selfFault
  | error | closed | mobile | tencentSelf | ownSelf | nothing | noUrl
  | partnerUrl (pid : ℤ)
  deriving DecidableEq

structure Outcome where
  exit : Exit
  rep : Response
  queues : Queues := {}

/-! ### `handleExt` -/

/-- The code of the `ext` parameter. The letter `x` has the code of `m`. -/
def extCode (ext : Bytes) : ℤ :=
  if ext = lit "q" then ExtType.q.code
  else if ext = lit "a" then ExtType.a.code
  else if ext = lit "s" then ExtType.s.code
  else if ext = lit "m" then ExtType.m.code
  else if ext = lit "y" then ExtType.y.code
  else if ext = lit "x" then ExtType.m.code
  else if ext = lit "k" then ExtType.k.code
  else if ext = lit "f" then ExtType.f.code
  else if ext = lit "b" then ExtType.b.code
  else if ext = lit "t" then ExtType.t.code
  else if 0 < ext.length then atoi ext
  else 0

/-- Without a code the path decides: `ad.gif`, which also fixes the parameter of the user id,
then `bd.gif`. -/
def gifDefault (o : Mapping) : Mapping :=
  let o :=
    if o.ext = 0 ∧ tokenMatchSize o.queryUrl adGif = 1 then
      { o with ext := 4, request := { o.request with uidName := lit "aid" } }
    else o
  if o.ext = 0 ∧ tokenMatchSize o.queryUrl bdGif = 1 then { o with ext := 1 } else o

/-- The branches of `handleExt` that fix the source partner. -/
inductive SourceBranch
  | given | tencentReturn | active
  deriving DecidableEq

/-- The branch taken: there is an `s` parameter, or two `ext=` in the URL mark a return from
Tencent. -/
def sourceBranch (o : Mapping) : SourceBranch :=
  if 0 < o.request.source.length then .given
  else if tokenMatchSize o.queryUrl extEq = 2 then .tencentReturn
  else .active

/-- The source partner: the `s` parameter, or else the code itself. -/
def takeSource (o : Mapping) : Mapping :=
  match sourceBranch o with
  | .given => { o with request := { o.request with flag := 0 } }
  | .tencentReturn =>
    { o with ext := ExtType.q.code, request := { o.request with source := toStr o.ext, flag := 0 } }
  | .active => { o with request := { o.request with source := toStr o.ext, flag := 1 } }

/-- The partner, the parameter of the user id and the type; `none` is the read of
`p2->second.uid` through a missing entry. -/
def takePartner (P : Partners) (o : Mapping) : Option (Mapping × Bool) :=
  match P.lookup o.request.source with
  | none => some ({ o with request := { o.request with error := .badExt } }, false)
  | some partner =>
    let o := { o with request := { o.request with partner := partner } }
    let named :=
      if atoi o.request.source ≠ o.ext then
        if o.request.uidName.length = 0 then
          match P.lookup (toStr o.ext) with
          | none => none
          | some p2 => if p2.uid = [] then some o.request.uidName else some p2.uid
        else some o.request.uidName
      else if o.request.uidName.length = 0 then some partner.uid
      else some o.request.uidName
    named.map fun uidName =>
      ({ o with request := { o.request with uidName := uidName, type := partner.type } }, true)

def handleExt (P : Partners) (o : Mapping) (ext : Bytes) : Option (Mapping × Bool) :=
  takePartner P (takeSource (gifDefault { o with ext := extCode ext }))

/-! ### `recordCookieLog` -/

/-- The lifetime of every cookie: a hundred years. -/
def lifetime : ℤ := 3153600000

def path : Bytes := lit "/"
def domain : Bytes := lit ".reachmax.cn"

def recordCookieLog (E : Env) (o : Mapping) (rep : Response) : Mapping × Response :=
  let cookie := CookieHeader.getCookie o.cookieHeader COOKIE_KEY
  let (o, rep) :=
    if cookie = [] then
      let o := { o with request := { o.request with isNew := 1 } }
      if o.request.flag = 0 then
        ({ o with request := { o.request with error := .cookieGet } }, rep)
      else
        let rmid := Helper.createRmidCookie E.rmidMs E.rmidRandom
        ({ o with rmid := rmid }, rep.addHeader (lit "Set-Cookie")
          (CookieHeader.setCookie E.localtime E.cookieTime COOKIE_KEY rmid lifetime path domain))
    else ({ o with rmid := cookie, request := { o.request with isNew := 0 } }, rep)
  if o.ext = ExtType.m.code ∧ CookieHeader.getCookie o.cookieHeader COOKIE_MZ = [] then
    (o, rep.addHeader (lit "Set-Cookie")
      (CookieHeader.setCookie E.localtime E.cookieTime COOKIE_MZ o.uid lifetime path domain))
  else (o, rep)

/-! ### `checkVaildExpire` and `dofilter` -/

/-- The name of the cookie that remembers the last visit to `pid`. -/
def timeCookie (pid : ℤ) : Bytes := COOKIE_TIME ++ toStr pid

/-- The pairs that are never followed without a cookie, against repeated jumps. -/
def barred (ext pid : ℤ) : Bool := (ext == 6 && pid == 4) || (ext == 4 && pid == 7)

/-- Whether the loop of `checkVaildExpire` lets a partner through. The sum is an `int`, the
clock is not. -/
def eligible (now : ℕ) (cookieHeader : Bytes) (ext pid expire : ℤ) : Bool :=
  let value := CookieHeader.getCookie cookieHeader (timeCookie pid)
  if value.length = 0 then !barred ext pid
  else wrap32 (atoi value + expire) < now

/-- The loop that fills `winners`. -/
def winnersOf (now : ℕ) (cookieHeader : Bytes) (ext : ℤ) (weight expires : UMap ℤ ℤ) :
    UMap ℤ ℤ :=
  expires.entries.foldl (fun winners e =>
    if eligible now cookieHeader ext e.1 e.2 then
      winners.insert e.1 ((weight.find e.1).getD 0)
    else winners) UMap.empty

/-- The running maximum, from zero, and the sum of the weights. -/
def maxAndSum (ws : List (ℤ × ℤ)) : ℤ × ℤ :=
  ws.foldl (fun a w => (if w.2 > a.1 then w.2 else a.1, wrap32 (a.2 + w.2))) (0, 0)

/-- `checkVaildExpire`, with the order in which the map `winners` is iterated left open. -/
def checkVaildExpireIn (E : Env) (order : List (ℤ × ℤ) → List (ℤ × ℤ)) (cookieHeader : Bytes)
    (ext : ℤ) (weight expires : UMap ℤ ℤ) : ℤ :=
  if weight.size = 0 then 0
  else
    let winners := winnersOf E.checkTime cookieHeader ext weight expires
    if winners.size = 0 then 0
    else
      let (maxWeight, sum) := maxAndSum (order winners.entries)
      let maxWeightPids := ((order winners.entries).filter fun w => w.2 = maxWeight).map Prod.fst
      let lastPid := (E.shuffle maxWeightPids).head?.getD 0
      if lastPid = 0 ∨ sum = 0 then 0 else lastPid

/-- `checkVaildExpire`. The map is walked in the order it was filled; any other order only
permutes the list that is shuffled. -/
def checkVaildExpire (E : Env) (cookieHeader : Bytes) (ext : ℤ) (weight expires : UMap ℤ ℤ) : ℤ :=
  checkVaildExpireIn E id cookieHeader ext weight expires

def dofilter (E : Env) (o : Mapping) : Mapping :=
  let partner := o.request.partner
  let pid := checkVaildExpire E o.cookieHeader o.ext partner.weight partner.expires
  let o := { o with request := { o.request with pid := pid } }
  if pid = 0 then o
  else
    match partner.url.find pid with
    | some url => { o with request := { o.request with url := url } }
    | none => o

/-! ### `url_replace` and `log_save` -/

/-- `boost::replace_all`. -/
def replaceAll (key value url : Bytes) : Bytes :=
  (scan (word key) 0 url).flatMap fun
    | none => value
    | some c => [c]

def placeholders : List Bytes :=
  [lit "$\x7brmid\x7d", lit "$\x7btime\x7d", lit "$\x7brandom\x7d", lit "$\x7bsource\x7d"]

def urlReplace (E : Env) (o : Mapping) (url : Bytes) : Bytes :=
  if url.length = 0 then []
  else (placeholders.zip [o.rmid, natStr E.urlTime, natStr E.urlNs, o.request.source]).foldl
    (fun url kv => replaceAll kv.1 kv.2 url) url

/-- `message_queue::send` inside the handler's `try`: a message above the limit of the queue
is refused and the exception swallowed. -/
def send (limit : ℕ) (queue : List Bytes) (msg : Bytes) : List Bytes :=
  if msg.length ≤ limit then queue ++ [msg] else queue

def testLimit : ℕ := 1000
def logLimit : ℕ := 400
def scyllaLimit : ℕ := 100

open LogRecord in
def record (E : Env) (o : Mapping) : List (Bytes × Value) :=
  [(lit "source", .string (cstr o.request.source)),
    (lit "ext", .uint (toUint o.ext)),
    (lit "f", .uint o.request.flag),
    (lit "m", .uint o.request.m),
    (lit "type", .uint (toUint o.request.type)),
    (lit "time", .string (logDate (E.localtime E.logTime))),
    (lit "uid", .string (cstr o.uid)),
    (lit "rmid", .string (cstr o.rmid)),
    (lit "is_new", .uint o.request.isNew),
    (lit "winner", .uint (toUint o.request.pid)),
    (lit "is_open", .uint (toUint o.request.partner.open_)),
    (lit "error", .uint o.request.error.code),
    (lit "usetime", .uint 0)]

def testMsg (o : Mapping) (rUrl : Bytes) : Bytes :=
  o.queryUrl ++ lit "  " ++ rUrl ++ lit ",m::" ++ natStr o.request.m ++ lit ",e::" ++
    natStr o.request.error.code

/-- The text of `send_scylla`. -/
def scyllaMsg (ext : ℤ) (rmid uid : Bytes) : Bytes :=
  toStr ext ++ lit ", " ++ rmid ++ lit ", " ++ uid

/-- The condition under which `send_scylla` runs. -/
def sendsScylla (o : Mapping) : Bool :=
  o.rmid ≠ [] && o.uid ≠ [] && o.request.m == 0 &&
    if o.ext = ExtType.q.code then o.request.flag == 1 else mappingVec.contains o.ext

/-- `log_save`. The object is cleared afterwards and not read again. -/
def logSave (E : Env) (o : Mapping) (rUrl : Bytes) : Queues where
  test := if tokenMatchSize o.queryUrl adGif = 1 then send testLimit [] (testMsg o rUrl) else []
  log := send logLimit [] (LogRecord.writeObject (record E o))
  scylla := if sendsScylla o then send scyllaLimit [] (scyllaMsg o.ext o.rmid o.uid) else []

/-! ### `handle` -/

def endNormal (E : Env) (exit : Exit) (o : Mapping) (rep : Response) : Outcome where
  exit := exit
  rep := (rep.setStatus .ok).addHeader (lit "error") (natStr o.request.error.code)
  queues := logSave E o []

def p3p : Bytes :=
  lit "CP=CURa ADMa DEVa PSAo PSDo OUR BUS UNI PUR INT DEM STA PRE COM NAV OTC NOI DSP COR"

def headerLocation (E : Env) (exit : Exit) (o : Mapping) (rep : Response) (url : Bytes) :
    Outcome where
  exit := exit
  rep := ((rep.setStatus .movedTemporarily).addHeader (lit "P3P") p3p).addHeader
    (lit "Location") url
  queues := logSave E o url

/-- The user id: the partner's parameter, or `uid` when that one is absent or empty. -/
def takeUid (req : Request) (o : Mapping) : Mapping :=
  if o.request.uidName = [] then o
  else
    let uid := req.getQueryParam o.request.uidName
    let tmp := req.getQueryParam (lit "uid")
    { o with uid := if uid.length = 0 ∧ 0 < tmp.length then tmp else uid }

/-- The last part of `handle`: a partner was selected. The block for partner 7 declares a second
`url`, which shadows the first and is read in its own initialiser. That read is undefined; what it
yields goes into the inner variable only, so the redirect is taken to be left alone. -/
def visit (E : Env) (o : Mapping) (rep : Response) : Outcome :=
  let rep := rep.addHeader (lit "Set-Cookie")
    (CookieHeader.setCookie E.localtime E.cookieTime (timeCookie o.request.pid)
      (natStr E.markTime) lifetime)
  if o.request.url.length = 0 then
    endNormal E .noUrl { o with request := { o.request with error := .noUrl } } rep
  else headerLocation E (.partnerUrl o.request.pid) o rep (urlReplace E o o.request.url)

/-- `handle` after `dofilter`. -/
def route (E : Env) (P : Partners) (o : Mapping) (rep : Response) : Outcome :=
  if o.ext = ExtType.q.code ∧ o.request.pid = 12 ∧ 0 < o.request.partner.self.length then
    match P.lookup (toStr o.ext) with
    | none => { exit := .selfFault, rep := rep }
    | some partner => headerLocation E .tencentSelf o rep (urlReplace E o partner.self)
  else if o.request.pid = 0 then
    if 0 < o.request.partner.self.length then
      headerLocation E .ownSelf o rep (urlReplace E o o.request.partner.self)
    else endNormal E .nothing o rep
  else visit E o rep

/-- `handle` after `recordCookieLog`. -/
def answer (E : Env) (P : Partners) (userAgent : Bytes) (o : Mapping) (rep : Response) : Outcome :=
  if 0 < o.request.error.code then endNormal E .error o rep
  else if o.request.partner.open_ = 0 then endNormal E .closed o rep
  else if o.ext ≠ 4 ∧ 1 < tokenMatchSize userAgent mobile then
    endNormal E .mobile { o with request := { o.request with m := 1 } } rep
  else
    let o := if o.ext ≠ 4 then { o with request := { o.request with m := 0 } } else o
    route E P (dofilter E o) rep

/-- The headers every answer of the handler starts with. -/
def gifResponse (rep : Response) : Response :=
  ((({ rep with content := Helper.gifData }.setMimeType (lit "image/gif")).addHeader
    (lit "Cache-control") (lit "no-cache,must-revalidate")).addHeader (lit "Expires")
    (lit "0")).addHeader (lit "Content-Length") (natStr Helper.gifData.length)

/-- The handler object when `handleExt` is called. -/
def start (E : Env) (req : Request) : Mapping where
  request := { partner := { open_ := E.openJunk, type := E.typeJunk },
               source := req.getQueryParam (lit "s") }
  queryUrl := req.url
  cookieHeader := req.getHeader (lit "Cookie")

def handle (E : Env) (P : Partners) (req : Request) (rep : Response) : Outcome :=
  let rep := gifResponse rep
  match handleExt P (start E req) (req.getQueryParam (lit "ext")) with
  | none => { exit := .uidFault, rep := rep }
  | some (o, _) =>
    let (o, rep) := recordCookieLog E (takeUid req o) rep
    answer E P (req.getHeader (lit "User-Agent")) o rep

/-- What the module does with a request: a new response and a new handler. -/
def serve (E : Env) (P : Partners) (headers : UMap Bytes Bytes) (uri : Bytes) : Outcome :=
  handle E P (received headers uri) {}

end NgxMapping.MappingModel
