import NgxMapping.HttpRequest
import NgxMapping.TokenMatch

/-!
`httpd::request::copy_headers`: reading nginx's list of request headers.

The list is a chain of arrays. One loop walks them all with one index, which is set back when the
walk enters the next array, and puts the entries into a map under the spelling of the client.
-/

namespace NgxMapping.CopyHeaders

open Lib HttpRequest

/-- `ngx_table_elt_t`. -/
structure TableElt where
  hash : ℕ
  key : Bytes
  value : Bytes

/-- `ngx_list_t`: the part inside the list and the parts it is chained to. -/
structure NgxList where
  part : List TableElt
  next : List (List TableElt) := []

/-- The entry the walk stands at: in the part at hand, else at the start of the next one; `none`
is the end of the last part. -/
def place (part : List TableElt) (rest : List (List TableElt)) (i : ℕ) :
    Option (List TableElt × List (List TableElt) × ℕ) :=
  if i < part.length then some (part, rest, i)
  else match rest with
    | [] => none
    | part :: rest => some (part, rest, 0)

/-- `_headers[key] = value`, unless the entry is deleted. -/
def store (m : UMap Bytes Bytes) (header : TableElt) : UMap Bytes Bytes :=
  if header.hash = 0 then m else m.insert header.key header.value

/-- The loop, for a number of rounds; `none` is a read behind the end of a part, or rounds that
do not suffice. -/
def copyLoop : ℕ → List TableElt → List (List TableElt) → ℕ → UMap Bytes Bytes →
    Option (UMap Bytes Bytes)
  | 0, _, _, _, _ => none
  | n + 1, part, rest, i, m =>
    match place part rest i with
    | none => some m
    | some (part, rest, i) =>
      match part[i]? with
      | none => none
      | some header => copyLoop n part rest (i + 1) (store m header)

def NgxList.entries (list : NgxList) : List TableElt := list.part ++ list.next.flatten

/-- `copy_headers`: one round for each entry, and one to find the end. -/
def Request.copyHeaders (r : Request) (list : NgxList) : Option Request :=
  (copyLoop (list.entries.length + 1) list.part list.next 0 r.headers).map fun m =>
    { r with headers := m }

def NgxList.live (list : NgxList) : List (Bytes × Bytes) :=
  (list.entries.filter fun e => e.hash ≠ 0).map fun e => (e.key, e.value)

/-! ### The walk -/

lemma copyLoop_eq {n : ℕ} {part : List TableElt} {rest : List (List TableElt)} {i : ℕ}
    (m : UMap Bytes Bytes) (hrest : ∀ p ∈ rest, p ≠ [])
    (hn : (part.drop i ++ rest.flatten).length < n) :
    copyLoop n part rest i m = some ((part.drop i ++ rest.flatten).foldl store m) := by
  induction n generalizing part rest i m with
  | zero => omega
  | succ n ih =>
    rw [copyLoop]
    unfold place
    by_cases hi : i < part.length
    · -- inside a part
      rw [if_pos hi]
      dsimp only
      rw [List.drop_eq_getElem_cons hi, List.cons_append, List.length_cons] at hn
      rw [List.getElem?_eq_getElem hi, List.drop_eq_getElem_cons hi]
      exact ih _ hrest (by omega)
    · rw [if_neg hi, List.drop_eq_nil_of_le (by omega), List.nil_append]
      cases rest with
      | nil => rfl
      | cons p ps =>
        -- at the start of the next part, which is not empty
        have hp : 0 < p.length := List.length_pos_iff.mpr (hrest p (by simp))
        have hsplit : p = p[0] :: p.drop (0 + 1) := by
          rw [← List.drop_eq_getElem_cons hp, List.drop_zero]
        dsimp only
        rw [List.getElem?_eq_getElem hp]
        dsimp only
        rw [List.drop_eq_nil_of_le (by omega), List.nil_append, List.flatten_cons, hsplit,
          List.cons_append, List.length_cons] at hn
        rw [ih _ (fun q hq => hrest q (by simp [hq])) (by omega), List.flatten_cons]
        conv_rhs => rw [hsplit, List.cons_append, List.foldl_cons]

lemma find_foldl_store (es : List TableElt) (m : UMap Bytes Bytes) (name : Bytes) :
    (es.foldl store m).find name =
      (lastValue name ((es.filter fun e => e.hash ≠ 0).map fun e => (e.key, e.value))).or
        (m.find name) := by
  induction es using List.reverseRecOn with
  | nil => simp [lastValue]
  | append_singleton es e ih =>
    rw [List.foldl_append, List.foldl_cons, List.foldl_nil, List.filter_append, List.map_append]
    by_cases hh : e.hash = 0
    · simp [store, hh, ih]
    · rw [store, if_neg hh, UMap.find_insert, ih, List.filter_cons_of_pos (by simpa using hh),
        List.filter_nil, List.map_cons, List.map_nil, lastValue_snoc]
      by_cases hk : e.key = name
      · simp [hk]
      · rw [if_neg (Ne.symm hk), if_neg hk]

/-- **After `copy_headers`, a header is the value of the last live entry of its very name.** -/
theorem getHeader_copyHeaders (list : NgxList) (hnext : ∀ p ∈ list.next, p ≠ []) (name : Bytes) :
    ∃ r, Request.copyHeaders {} list = some r ∧
      r.getHeader name = (lastValue name list.live).getD [] := by
  have hcopy : Request.copyHeaders {} list =
      some { headers := list.entries.foldl store UMap.empty } := by
    rw [Request.copyHeaders, copyLoop_eq _ hnext (by simp [NgxList.entries])]
    rfl
  refine ⟨_, hcopy, ?_⟩
  rw [Request.getHeader, find_foldl_store, UMap.find_empty, Option.or_none]
  rfl

lemma copyUri_copyHeaders {list : NgxList} {r : Request}
    (h : Request.copyHeaders {} list = some r) (uri : Bytes) :
    r.copyUri uri = received r.headers uri := by
  obtain ⟨m, -, rfl⟩ := Option.map_eq_some_iff.mp h
  rfl

/-- Two parts, a deleted entry and a name that comes twice. -/
def sampleList : NgxList where
  part := [⟨1, lit "Cookie", lit "a=1"⟩, ⟨0, lit "Cookie", lit "a=2"⟩]
  next := [[⟨1, lit "Cookie", lit "a=3"⟩, ⟨1, lit "cookie", lit "a=4"⟩]]

theorem getHeader_copyHeaders_sample :
    ∃ r, Request.copyHeaders {} sampleList = some r ∧
      r.getHeader (lit "Cookie") = lit "a=3" :=
  getHeader_copyHeaders sampleList (by decide) (lit "Cookie")

/-- The value of the last live entry of a name in any letter case. -/
def lastIgnoringCase (list : NgxList) (name : Bytes) : Bytes :=
  (lastValue (name.map TokenMatch.tolower)
    (list.live.map fun e => (e.1.map TokenMatch.tolower, e.2))).getD []

/-- A client that writes `cookie` has no cookie. -/
theorem lower_case_not_found :
    (Request.copyHeaders {} ⟨[⟨1, lit "cookie", lit "a=1"⟩], []⟩).map
        (fun r => r.getHeader (lit "Cookie")) = some [] ∧
      lastIgnoringCase ⟨[⟨1, lit "cookie", lit "a=1"⟩], []⟩ (lit "Cookie") = lit "a=1" := by
  decide

end NgxMapping.CopyHeaders
