import NgxMapping.CopyHeaders
import NgxMapping.Ku6
import NgxMapping.RedirectTarget
import NgxMapping.Workers

/-!
`ngx_ad.cc`: the workers of the server over their whole lives.

A worker starts with an empty partner table and fills it at once, again every five minutes, and
answers the requests of the two locations in between. A read through a missing partner and a text
beyond its buffer end the worker; the master then starts another one. All workers write to the
same queues.
-/

namespace NgxMapping.Server

open Lib HttpRequest HttpResponse PartnerTable PartnerSync MappingModel MappingSpec CopyHeaders
open Workers RedirectTarget

inductive Location
  | mapping
  | mappingKu6
  deriving DecidableEq

/-- A request: `headers_in.headers` and `unparsed_uri`, and what the handler asks the system
for. -/
structure Hit where
  location : Location
  E : Env
  headers : NgxList
  uri : Bytes

/-- `ngx_http_handler_mapping`; `none` is the end of the worker. -/
def handlerMapping (P : Partners) (v : Hit) : Option (Response × Queues) :=
  (Request.copyHeaders {} v.headers).bind fun req =>
    let out := handle v.E P (req.copyUri v.uri) {}
    if out.exit = .uidFault ∨ out.exit = .selfFault then none else some (out.rep, out.queues)

/-- `ngx_http_handler_mapping_ku6`. -/
def handlerMappingKu6 (v : Hit) : Option (Response × Queues) :=
  (Request.copyHeaders {} v.headers).bind fun req =>
    (Ku6.handle v.E (req.copyUri v.uri) {}).map fun rep => (rep, {})

def Hit.answer (P : Partners) (v : Hit) : Option (Response × Queues) :=
  match v.location with
  | .mapping => handlerMapping P v
  | .mappingKu6 => handlerMappingKu6 v

def Queues.append (q q' : Queues) : Queues where
  test := q.test ++ q'.test
  log := q.log ++ q'.log
  scylla := q.scylla ++ q'.scylla

variable {ι : Type}

/-- The tables of the workers that are alive, and what has been sent to the queues. -/
structure State (ι : Type) where
  tables : ι → Option Partners := fun _ => none
  queues : Queues := {}

/-- A worker starts, its timer expires, or it gets a request. -/
inductive Event (ι : Type)
  | initWorker (k : ι) (c : Call)
  | timer (k : ι) (c : Call)
  | request (k : ι) (v : Hit)

section Run

variable [DecidableEq ι] {Node : Type} (J : PropertyTree Node)

def step (s : State ι) : Event ι → State ι
  | .initWorker k c => { s with tables := Function.update s.tables k (some (sync J noPartners c)) }
  | .timer k c =>
    { s with tables := Function.update s.tables k ((s.tables k).map fun P => sync J P c) }
  | .request k v =>
    match s.tables k with
    | none => s
    | some P =>
      match v.answer P with
      | none => { s with tables := Function.update s.tables k none }
      | some (_, q) => { s with queues := Queues.append s.queues q }

def run (es : List (Event ι)) : State ι := es.foldl (step J) {}

end Run

/-! ### What a worker knows -/

section Known

variable {Node : Type} {J : PropertyTree Node}

/-- The call describes partner `i` completely, and gets so far. -/
def Describes (J : PropertyTree Node) (c : Call) (i : ℕ) (p : Partner) : Prop :=
  c.connected = true ∧ Stores J c.reply i p

/-- The last call that describes partner `i` says `p`. -/
def Known (J : PropertyTree Node) (calls : List Call) (i : ℕ) (p : Partner) : Prop :=
  ∃ earlier c later, calls = earlier ++ c :: later ∧ Describes J c i p ∧
    ∀ c' ∈ later, ∀ p', ¬ Describes J c' i p'

lemma lookup_sync_of_describes {c : Call} {i : ℕ} {p : Partner} (hi : i ≤ maxPartnerId)
    (h : Describes J c i p) (P : Partners) : (sync J P c).lookup (natStr i) = some p := by
  obtain ⟨hc, hbefore, fields, hr, hne, hp⟩ := h
  have hfind := syncPartners_reached (J := J) P.map hc hi hbefore
  rw [hr] at hfind
  dsimp only at hfind
  rw [if_neg (by simpa using hne), hp, Option.some_or] at hfind
  exact hfind

lemma lookup_sync_of_not {c : Call} {i : ℕ} (hi : i ≤ maxPartnerId)
    (h : ∀ p, ¬ Describes J c i p) (P : Partners) :
    (sync J P c).lookup (natStr i) = P.lookup (natStr i) := by
  change (syncPartners J c P.map).find (partnerKey i) = P.map.find (partnerKey i)
  by_cases hc : c.connected = true
  swap
  · rw [syncPartners, if_neg hc]
  by_cases hstop : ∃ j < i, (c.reply j).Stops
  · exact syncPartners_stopped P.map hi hstop
  have hbefore : ∀ j < i, ¬ (c.reply j).Stops := fun j hj hs => hstop ⟨j, hj, hs⟩
  rw [syncPartners_reached P.map hc hi hbefore]
  split
  · rename_i fields hr
    split
    · rfl
    rename_i hlen
    cases hp : completeParse J fields with
    | none => rfl
    | some p => exact absurd ⟨hc, hbefore, fields, hr, by simpa using hlen, hp⟩ (h p)
  · rfl

lemma lookup_worker {i : ℕ} (hi : i ≤ maxPartnerId) {calls : List Call} {p : Partner}
    (h : (worker J calls).lookup (natStr i) = some p) : Known J calls i p := by
  induction calls using List.reverseRecOn with
  | nil => simp [worker, noPartners, Partners.lookup] at h
  | append_singleton calls c ih =>
    rw [worker_snoc] at h
    by_cases hd : ∃ p', Describes J c i p'
    · obtain ⟨p', hp'⟩ := hd
      rw [lookup_sync_of_describes hi hp'] at h
      obtain rfl := Option.some.inj h
      exact ⟨calls, c, [], rfl, hp', by simp⟩
    · have hno : ∀ p', ¬ Describes J c i p' := fun p' hp' => hd ⟨p', hp'⟩
      rw [lookup_sync_of_not hi hno] at h
      obtain ⟨earlier, c', later, rfl, hc', hlater⟩ := ih h
      refine ⟨earlier, c', later ++ [c], by simp, hc', fun c'' hc'' => ?_⟩
      rcases List.mem_append.mp hc'' with hc'' | hc''
      · exact hlater c'' hc''
      · rw [List.mem_singleton.mp hc'']
        exact hno

end Known

section Reach

variable [DecidableEq ι] {Node : Type} {J : PropertyTree Node}

/-- The calls that a worker has made since it started, after one more event. -/
def nextCalls (k : ι) (calls : List Call) : Event ι → List Call
  | .initWorker j c => if j = k then [c] else calls
  | .timer j c => if j = k then calls ++ [c] else calls
  | .request _ _ => calls

/-- The calls that a worker has made since it started. -/
def callsOf (k : ι) (es : List (Event ι)) : List Call := es.foldl (nextCalls k) []

lemma step_table {k : ι} {calls : List Call} {s : State ι}
    (h : ∀ P, s.tables k = some P → P = worker J calls) (e : Event ι) :
    ∀ P, (step J s e).tables k = some P → P = worker J (nextCalls k calls e) := by
  intro P hP
  cases e with
  | initWorker j c =>
    rcases eq_or_ne k j with rfl | hne
    · simp only [step, Function.update_self, Option.some.injEq] at hP
      rw [nextCalls, if_pos rfl, ← hP]
      rfl
    · simp only [step, Function.update_of_ne hne] at hP
      rw [nextCalls, if_neg hne.symm]
      exact h P hP
  | timer j c =>
    rcases eq_or_ne k j with rfl | hne
    · simp only [step, Function.update_self, Option.map_eq_some_iff] at hP
      obtain ⟨P', hP', rfl⟩ := hP
      rw [nextCalls, if_pos rfl, worker_snoc, ← h P' hP']
    · simp only [step, Function.update_of_ne hne] at hP
      rw [nextCalls, if_neg hne.symm]
      exact h P hP
  | request j v =>
    refine h P ?_
    simp only [step] at hP
    split at hP
    · exact hP
    split at hP
    · rcases eq_or_ne k j with rfl | hne
      · simp at hP
      · simpa only [Function.update_of_ne hne] using hP
    · exact hP

/-- The table of a worker that is alive is what its calls have made of an empty one. -/
lemma table_run (es : List (Event ι)) (k : ι) :
    ∀ P, (run J es).tables k = some P → P = worker J (callsOf k es) := by
  induction es using List.reverseRecOn with
  | nil => simp [run]
  | append_singleton es e ih =>
    rw [run, callsOf, List.foldl_append, List.foldl_append]
    exact step_table ih e

lemma handlerMapping_eq {P : Partners} {v : Hit} {rep : Response} {q : Queues}
    (h : handlerMapping P v = some (rep, q)) :
    ∃ headers, rep = (serve v.E P headers v.uri).rep := by
  obtain ⟨req, hreq, h⟩ := Option.bind_eq_some_iff.mp h
  simp only at h
  split at h
  · cases h
  · obtain ⟨rfl, -⟩ := Prod.mk.inj (Option.some.inj h)
    exact ⟨req.headers, by rw [copyUri_copyHeaders hreq]; rfl⟩

lemma handlerMappingKu6_eq {v : Hit} {rep : Response} {q : Queues}
    (h : handlerMappingKu6 v = some (rep, q)) :
    ∃ headers, Ku6.serve v.E headers v.uri = some rep := by
  obtain ⟨req, hreq, h⟩ := Option.bind_eq_some_iff.mp h
  obtain ⟨rep', hrep, he⟩ := Option.map_eq_some_iff.mp h
  obtain ⟨rfl, -⟩ := Prod.mk.inj he
  exact ⟨req.headers, by rw [← hrep, copyUri_copyHeaders hreq]; rfl⟩

lemma location_lookup {E : Env} {P : Partners} {headers : UMap Bytes Bytes} {uri value : Bytes}
    (h : (lit "Location", value) ∈ (serve E P headers uri).rep.added) :
    ∃ id p, P.lookup id = some p ∧ ∃ template,
      (template = p.self ∨ ∃ pid, p.url.find pid = some template) ∧
        value = urlReplace E (object E P headers uri) template := by
  obtain ⟨he, template, ht, hvalue⟩ := serve_locations h
  obtain ⟨⟨p, hp⟩, -⟩ := errorOf_eq_error he
  rw [Template, object_partner E headers hp] at ht
  rcases ht with rfl | ⟨p2, hp2, rfl⟩ | hurl
  · exact ⟨_, p, hp, _, .inl rfl, hvalue⟩
  · exact ⟨_, p2, hp2, _, .inl rfl, hvalue⟩
  · exact ⟨_, p, hp, template, .inr ⟨_, hurl⟩, hvalue⟩

/-- **Every redirect was last said by Redis.** Whatever requests, failures, timers and restarts
have come before: where a worker that is alive answers with a redirect, the target is that of ku6,
or it is made from a template in the last complete description of a partner that this worker has
read since it started, and leads where the template does. -/
theorem redirects_from_redis (J : PropertyTree Node) (es : List (Event ι)) (k : ι) (P : Partners)
    (h : (run J es).tables k = some P) (v : Hit) (rep : Response) (q : Queues)
    (ha : v.answer P = some (rep, q)) (value : Bytes)
    (hv : (lit "Location", value) ∈ rep.added) :
    (v.location = .mappingKu6 ∧ ∃ rmid, value = Ku6.location rmid) ∨
      (v.location = .mapping ∧ ∃ i ≤ maxPartnerId, ∃ p, Known J (callsOf k es) i p ∧
        ∃ template, (template = p.self ∨ ∃ pid, p.url.find pid = some template) ∧
          (∃ o, value = urlReplace v.E o template) ∧
          (Sound template → FromTemplate template value)) := by
  have hP := table_run es k P h
  unfold Hit.answer at ha
  split at ha
  · rename_i hl
    right
    refine ⟨hl, ?_⟩
    obtain ⟨headers, rfl⟩ := handlerMapping_eq ha
    obtain ⟨id, p, hp, template, ht, rfl⟩ := location_lookup hv
    obtain ⟨i, hi, rfl⟩ := Partners.lookup_some hp
    rw [hP] at hp
    exact ⟨i, hi, p, lookup_worker hi hp, template, ht, ⟨_, rfl⟩, urlReplace_fromTemplate v.E _⟩
  · rename_i hl
    left
    obtain ⟨headers, hrep⟩ := handlerMappingKu6_eq ha
    exact ⟨hl, _, (Ku6.serve_some hrep).1 value hv⟩

end Reach

/-- A worker that reads one partner when it starts and finds no connection five minutes later. -/
def twoCalls : List (Event ℕ) :=
  [.initWorker 0 (cleanCall oneHash), .timer 0 ⟨false, fun _ => .null⟩]

/-- A visit of this partner, without a cookie. -/
def partnerHit : Hit where
  location := .mapping
  E := .still 1500000000
  headers := ⟨[⟨1, lit "User-Agent", lit "curl"⟩], []⟩
  uri := lit "/m.gif?ext=3"

theorem redirects_from_redis_own :
    ∃ i ≤ maxPartnerId, ∃ p, Known sampleTree (callsOf 0 twoCalls) i p ∧ ∃ template,
      (template = p.self ∨ ∃ pid, p.url.find pid = some template) ∧
        ∃ o, lit "http://g.cn/" = urlReplace partnerHit.E o template := by
  have hmem : ((partnerHit.answer (worker sampleTree (callsOf 0 twoCalls))).map fun a =>
      decide ((lit "Location", lit "http://g.cn/") ∈ a.1.added)) = some true := by decide +kernel
  obtain ⟨⟨rep, q⟩, ha, hv⟩ := Option.map_eq_some_iff.mp hmem
  rcases redirects_from_redis sampleTree twoCalls 0 (worker sampleTree (callsOf 0 twoCalls)) rfl
    partnerHit rep q ha (lit "http://g.cn/") (of_decide_eq_true hv) with ⟨hl, -⟩ | ⟨-, hfrom⟩
  · cases hl
  · obtain ⟨i, hi, p, hp, template, ht, ho, -⟩ := hfrom
    exact ⟨i, hi, p, hp, template, ht, ho⟩

end NgxMapping.Server
