import NgxMapping.Records

/-!
What the handler does with the members of a partner that have no initialiser.

`requestData` holds a default-constructed partner, whose `open` and `type` are whatever the memory
held. `handleExt` assigns the partner only when the table has the source; without it the request
ends in an error, and its record shows the old contents of `open`. Two runs that differ in these
members alone agree exactly when the source is found, or the record is too long for its queue
whatever the memory held.
-/

namespace NgxMapping.Uninitialised

open Lib HttpRequest HttpResponse PartnerTable LogRecord MappingModel MappingSpec Answer Records

/-- What the memory of the two members held, as values of their type `int`. -/
structure Junk where
  open_ : ℤ
  type : ℤ
  open_mem : -2 ^ 31 ≤ open_ ∧ open_ < 2 ^ 31
  type_mem : -2 ^ 31 ≤ type ∧ type < 2 ^ 31

/-- The same clocks and random values over other memory. -/
def withJunk (E : Env) (j : Junk) : Env := { E with openJunk := j.open_, typeJunk := j.type }

/-- The response and the messages do not depend on the memory. -/
def Determined (E : Env) (P : Partners) (headers : UMap Bytes Bytes) (uri : Bytes) : Prop :=
  ∀ j j' : Junk,
    (serve (withJunk E j) P headers uri).rep = (serve (withJunk E j') P headers uri).rep ∧
      (serve (withJunk E j) P headers uri).queues = (serve (withJunk E j') P headers uri).queues

section Runs

variable (E : Env) {P : Partners} (headers : UMap Bytes Bytes) {uri : Bytes}

/-! ### The source is found -/

lemma object_withJunk {p : Partner} (hp : P.lookup (sourceOf uri) = some p) (j : Junk) :
    object (withJunk E j) P headers uri = object E P headers uri := by
  simp only [object, partnered, hp, Option.getD_some]
  rfl

lemma serve_withJunk (hp : P.lookup (sourceOf uri) ≠ none) (j : Junk) :
    serve (withJunk E j) P headers uri = serve E P headers uri := by
  obtain ⟨p, hp⟩ := Option.ne_none_iff_exists'.mp hp
  by_cases hf : UidFault P uri
  · rw [serve_fault hf, serve_fault hf]
  · rw [serve_ok hf, serve_ok hf, object_withJunk E headers hp]
    rfl

/-! ### The source is not found -/

lemma serve_unknown (hp : P.lookup (sourceOf uri) = none) :
    serve E P headers uri =
      endNormal E .error (object E P headers uri) (response E P headers uri) := by
  have hf : ¬ UidFault P uri := fun h => h.1 hp
  have herr : (object E P headers uri).request.error ≠ .error := by
    intro h
    obtain ⟨⟨p, hp'⟩, -⟩ := @errorOf_eq_error P headers uri h
    simp [hp] at hp'
  rw [serve_ok hf, answer, if_pos ((Error.code_pos_iff _).mpr herr)]

/-- The object with the partner that the memory makes. -/
def remember (o : Mapping) (j : Junk) : Mapping :=
  { o with request := { o.request with partner := { open_ := j.open_, type := j.type } } }

lemma object_unknown (hp : P.lookup (sourceOf uri) = none) (j : Junk) :
    object (withJunk E j) P headers uri = remember (object E P headers uri) j := by
  simp only [remember, object, partnered, hp, Option.getD_none]
  rfl

lemma record_remember (o : Mapping) {j j' : Junk}
    (h : writeObject (record E (remember o j)) = writeObject (record E (remember o j'))) :
    toUint j.open_ = toUint j'.open_ := by
  apply natStr_injective
  simpa [writeObject, record, remember, List.intercalate, writeField, writeValue] using h

variable (P uri) in
/-- The length of the record of a request without partner, when the member has one digit. -/
def shortestRecord : ℕ :=
  126 + escapedLength (cstr (sourceOf uri)) + escapedLength (cstr (uidOf P uri)) +
    escapedLength (cstr (rmidOf E headers uri)) + escapedLength (logDate (E.localtime E.logTime)) +
    digits (toUint (extOf uri))

lemma length_record_remember (hp : P.lookup (sourceOf uri) = none) (j : Junk) :
    (writeObject (record E (remember (object E P headers uri) j))).length + 1 =
      shortestRecord E P headers uri + digits (toUint j.open_) := by
  have hnew := object_isNew_lt E P headers uri
  have htype : (object E P headers uri).request.type = 0 := by simp [object, partnered, hp]
  have hm : (remember (object E P headers uri) j).request.m < 10 := Nat.zero_lt_succ 9
  have hone : digits (toUint 0) = 1 := rfl
  rw [length_record E (o := remember (object E P headers uri) j) (flagOf_lt uri) hm hnew]
  simp only [remember, htype, shortestRecord]
  have hpid : (object E P headers uri).request.pid = 0 := rfl
  rw [hpid, hone]
  simp only [object, partnered]
  omega

lemma log_unknown (hp : P.lookup (sourceOf uri) = none) (j : Junk) :
    (serve (withJunk E j) P headers uri).queues.log =
      send logLimit [] (writeObject (record E (remember (object E P headers uri) j))) := by
  rw [serve_unknown (withJunk E j) headers hp, object_unknown E headers hp]
  rfl

lemma queues_eq {q q' : Queues} (htest : q.test = q'.test) (hlog : q.log = q'.log)
    (hscylla : q.scylla = q'.scylla) : q = q' := by
  cases q
  cases q'
  simp_all

lemma determined_unknown_iff (hp : P.lookup (sourceOf uri) = none) :
    Determined E P headers uri ↔ ∀ j j' : Junk,
      (serve (withJunk E j) P headers uri).queues.log =
        (serve (withJunk E j') P headers uri).queues.log := by
  have hrest : ∀ j, (serve (withJunk E j) P headers uri).rep = (serve E P headers uri).rep ∧
      (serve (withJunk E j) P headers uri).queues.test = (serve E P headers uri).queues.test ∧
      (serve (withJunk E j) P headers uri).queues.scylla =
        (serve E P headers uri).queues.scylla := by
    intro j
    rw [serve_unknown (withJunk E j) headers hp, serve_unknown E headers hp,
      object_unknown E headers hp]
    exact ⟨rfl, rfl, rfl⟩
  constructor
  · intro h j j'
    rw [(h j j').2]
  · intro h j j'
    obtain ⟨hrep, htest, hscylla⟩ := hrest j
    obtain ⟨hrep', htest', hscylla'⟩ := hrest j'
    refine ⟨hrep.trans hrep'.symm, queues_eq ?_ (h j j') ?_⟩
    · exact htest.trans htest'.symm
    · exact hscylla.trans hscylla'.symm

/-- **The memory does not show exactly when the source is found, or the record never fits.** -/
theorem determined_iff : Determined E P headers uri ↔
    P.lookup (sourceOf uri) ≠ none ∨ logLimit < shortestRecord E P headers uri := by
  by_cases hp : P.lookup (sourceOf uri) = none
  · rw [determined_unknown_iff E headers hp]
    constructor
    · intro h
      by_contra hno
      rw [not_or, not_lt] at hno
      -- two contents of one digit, so that both records fit
      have hfits : ∀ j : Junk, digits (toUint j.open_) = 1 →
          (serve (withJunk E j) P headers uri).queues.log =
            [writeObject (record E (remember (object E P headers uri) j))] := by
        intro j hj
        have hlen := length_record_remember E headers hp j
        rw [log_unknown E headers hp, send, if_pos (by omega), List.nil_append]
      have heq := h ⟨0, 0, by decide, by decide⟩ ⟨1, 0, by decide, by decide⟩
      rw [hfits _ rfl, hfits _ rfl, List.cons.injEq] at heq
      exact absurd (record_remember E _ heq.1) (by decide)
    · intro h j j'
      have hlong := h.resolve_left (not_not.mpr hp)
      have hnone : ∀ j : Junk, (serve (withJunk E j) P headers uri).queues.log = [] := by
        intro j
        have hlen := length_record_remember E headers hp j
        have hdigits : 0 < digits (toUint j.open_) :=
          List.length_pos_iff.mpr (natStr_ne_nil _)
        rw [log_unknown E headers hp, send, if_neg (by omega)]
      rw [hnone, hnone]
  · refine iff_of_true ?_ (.inl hp)
    intro j j'
    rw [serve_withJunk E headers hp, serve_withJunk E headers hp]
    exact ⟨rfl, rfl⟩

end Runs

def otherTable : Partners := .ofList [(51, { open_ := 1, type := 2 })] (by decide) (by decide)

def zeroed : Junk := ⟨0, 0, by decide, by decide⟩

def soiled : Junk := ⟨1, 0, by decide, by decide⟩

/-- A request with a code that the table does not have: the record says that the partner is open
exactly when the memory says so. -/
theorem not_determined_ext50 :
    (serve (withJunk (.still 1500000000) zeroed) otherTable UMap.empty
        (lit "/m.gif?ext=50")).queues.log ≠
      (serve (withJunk (.still 1500000000) soiled) otherTable UMap.empty
        (lit "/m.gif?ext=50")).queues.log ∧
    ¬ Determined (.still 1500000000) otherTable UMap.empty (lit "/m.gif?ext=50") := by
  have hlog : (serve (withJunk (.still 1500000000) zeroed) otherTable UMap.empty
        (lit "/m.gif?ext=50")).queues.log ≠
      (serve (withJunk (.still 1500000000) soiled) otherTable UMap.empty
        (lit "/m.gif?ext=50")).queues.log := by decide +kernel
  exact ⟨hlog, fun h => hlog (by rw [(h zeroed soiled).2])⟩

end NgxMapping.Uninitialised
