import NgxMapping.PartnerTable

/-!
`model::syncPartners`: a worker reads its partner table from Redis.

A run asks for one hash after the other and overwrites the entries it can read. The body of
the `try` block runs on the table and on the partner under construction; an exception leaves
both as they are when it is thrown. `syncPartners_spec` says what is then in the table, from
any table and whatever Redis answers.
-/

namespace NgxMapping.PartnerSync

open Lib PartnerTable

/-- The reply to an `HGETALL`. -/
inductive Reply
  | null
  | error
  /-- a reply of another type -/
  | other
  | array (fields : List (Bytes × Bytes))

/-- What is used of `boost::property_tree`: `read_json` gives the children of the root, and a
child is read with `get_value`. `none` is an exception. -/
structure PropertyTree (Node : Type) where
  readJson : Bytes → Option (List (Bytes × Node))
  getInt : Node → Option ℤ
  getString : Node → Option Bytes

/-- The table and the partner under construction. -/
structure Locals where
  partners : UMap Bytes Partner
  p : Partner

/-- Statements of the `try` block. -/
abbrev Try := OptionT (StateM Locals)

def orThrow {α : Type} (x : Option α) : Try α := OptionT.mk (pure x)

def modifyPartner (f : Partner → Partner) : Try Unit := modify fun s => { s with p := f s.p }

/-- The fields of the reply, as strings that end at the first zero byte. -/
def partnerMap (fields : List (Bytes × Bytes)) : UMap Bytes Bytes :=
  fields.foldl (fun m f => m.insert (cstr f.1) (cstr f.2)) UMap.empty

/-- `partnerMap[name]`. -/
def column (m : UMap Bytes Bytes) (name : Bytes) : Bytes := (m.find name).getD []

/-- The key of partner `i`. -/
def partnerKey (i : ℕ) : Bytes := MAPPING_KEY ++ natStr i

section Sync

variable {Node : Type} (J : PropertyTree Node)

/-- The loop over one document, which puts its values into a map of the partner. -/
def fillMap {α : Type} (get : Node → Option α) (put : ℤ → α → Partner → Partner) (doc : Bytes) :
    Try Unit := do
  let tree ← orThrow (J.readJson doc)
  tree.forM fun e => do
    let v ← orThrow (get e.2)
    modifyPartner (put (atoi (cstr e.1)) v)

def putWeight (k v : ℤ) (p : Partner) : Partner := { p with weight := p.weight.insert k v }
def putExpires (k v : ℤ) (p : Partner) : Partner := { p with expires := p.expires.insert k v }
def putUrl (k : ℤ) (v : Bytes) (p : Partner) : Partner := { p with url := p.url.insert k v }

/-- The `try` block up to its last statement. The two numbers of a new partner have no value
before the first assignment; `muid` is assigned an `int`, which makes it one character. -/
def buildPartner (m : UMap Bytes Bytes) : Try Unit := do
  modifyPartner fun _ => { open_ := 0, type := 0 }
  modifyPartner fun p => { p with open_ := atoi (column m (lit "open")) }
  modifyPartner fun p => { p with type := atoi (column m (lit "type")) }
  modifyPartner fun p => { p with self := column m (lit "self") }
  fillMap J J.getInt putWeight (column m (lit "weight"))
  fillMap J J.getInt putExpires (column m (lit "cycle"))
  fillMap J J.getString putUrl (column m (lit "url"))
  modifyPartner fun p => { p with open_ := atoi (column m (lit "open")) }
  modifyPartner fun p => { p with type := atoi (column m (lit "type")) }
  modifyPartner fun p => { p with self := column m (lit "self") }
  modifyPartner fun p => { p with muid := [UInt8.ofInt (atoi (column m (lit "muid")))] }
  modifyPartner fun p => { p with uid := column m (lit "uid") }

def tryBlock (key : Bytes) (m : UMap Bytes Bytes) : Try Unit := do
  buildPartner J m
  modify fun s => { s with partners := s.partners.insert key s.p }

/-- The `try` block and its handler, which only logs. -/
def store (T : UMap Bytes Partner) (key : Bytes) (m : UMap Bytes Bytes) : UMap Bytes Partner :=
  ((tryBlock J key m).run ⟨T, { open_ := 0, type := 0 }⟩).2.partners

/-- The loop, with the numbers still to be asked for. -/
def syncLoop (reply : ℕ → Reply) : List ℕ → UMap Bytes Partner → UMap Bytes Partner
  | [], T => T
  | i :: is, T =>
    match reply i with
    | .null => T
    | .error => T
    | .other => syncLoop reply is T
    | .array fields =>
      if fields.length = 0 then syncLoop reply is T
      else syncLoop reply is (store J T (partnerKey i) (partnerMap fields))

/-- One call of `syncPartners`: whether the connection is there, and the replies. -/
structure Call where
  connected : Bool
  reply : ℕ → Reply

def syncPartners (c : Call) (T : UMap Bytes Partner) : UMap Bytes Partner :=
  if c.connected then syncLoop J c.reply (List.range (maxPartnerId + 1)) T else T

/-! ### The complete parse -/

/-- The entries of a document in their order, if it can be read to the end. -/
def document {α : Type} (get : Node → Option α) (doc : Bytes) : Option (List (ℤ × α)) :=
  (J.readJson doc).bind fun tree =>
    tree.mapM fun e => (get e.2).map fun v => (atoi (cstr e.1), v)

/-- A map from entries of which the later ones count. -/
def ofPairs {α : Type} (ps : List (ℤ × α)) : UMap ℤ α :=
  ps.foldl (fun m e => m.insert e.1 e.2) UMap.empty

/-- The partner a reply describes, if all three documents can be read. -/
def completeParse (fields : List (Bytes × Bytes)) : Option Partner :=
  let m := partnerMap fields
  (document J J.getInt (column m (lit "weight"))).bind fun weight =>
    (document J J.getInt (column m (lit "cycle"))).bind fun cycle =>
      (document J J.getString (column m (lit "url"))).map fun url =>
        { open_ := atoi (column m (lit "open"))
          type := atoi (column m (lit "type"))
          muid := [UInt8.ofInt (atoi (column m (lit "muid")))]
          weight := ofPairs weight
          expires := ofPairs cycle
          url := ofPairs url
          self := column m (lit "self")
          uid := column m (lit "uid") }

variable {J}

/-- A statement that leaves the table alone, and either throws or turns the partner by `f`. -/
def Builds (x : Try Unit) (f : Option (Partner → Partner)) : Prop :=
  ∀ s : Locals, match f with
    | none => ∃ p, x.run s = (none, { s with p := p })
    | some f => x.run s = (some (), { s with p := f s.p })

lemma builds_modifyPartner (f : Partner → Partner) : Builds (modifyPartner f) (some f) :=
  fun _ => rfl

lemma run_bind {α β : Type} (x : Try α) (k : α → Try β) (s : Locals) :
    (x >>= k).run s =
      match x.run s with
      | (none, s') => (none, s')
      | (some a, s') => (k a).run s' := by
  have h : (x >>= k).run s = match x.run s with
      | (a, s') => (match a with
        | some a => k a
        | none => OptionT.mk (pure none) : Try β).run s' := rfl
  rw [h]
  rcases x.run s with ⟨_ | a, s'⟩ <;> rfl

lemma Builds.throw {α : Type} {x : Option α} {k : α → Try Unit} {f : α → Option (Partner → Partner)}
    (hk : ∀ a, Builds (k a) (f a)) : Builds (orThrow x >>= k) (x.bind f) := by
  intro s
  rw [run_bind]
  cases x with
  | none => exact ⟨s.p, rfl⟩
  | some a => exact hk a s

lemma Builds.seq {x y : Try Unit} {f g : Option (Partner → Partner)} (hx : Builds x f)
    (hy : Builds y g) : Builds (x >>= fun _ => y) (f.bind fun f => g.map fun g => g ∘ f) := by
  intro s
  have hxs := hx s
  rw [run_bind]
  cases f with
  | none =>
    obtain ⟨p, hp⟩ := hxs
    rw [hp]
    exact ⟨p, rfl⟩
  | some f =>
    rw [hxs]
    have hys := hy { s with p := f s.p }
    cases g with
    | none => exact hys
    | some g => exact hys

lemma builds_fillMap {α : Type} (get : Node → Option α) (put : ℤ → α → Partner → Partner)
    (doc : Bytes) :
    Builds (fillMap J get put doc)
      ((document J get doc).map fun ps p => ps.foldl (fun p e => put e.1 e.2 p) p) := by
  have key : ∀ tree : List (Bytes × Node),
      Builds (tree.forM fun e => do
          let v ← orThrow (get e.2)
          modifyPartner (put (atoi (cstr e.1)) v))
        ((tree.mapM fun e => (get e.2).map fun v => (atoi (cstr e.1), v)).map
          fun ps p => ps.foldl (fun p e => put e.1 e.2 p) p) := by
    intro tree
    induction tree with
    | nil => exact fun s => rfl
    | cons e tree ih =>
      have hhead := Builds.throw (x := get e.2) fun v =>
        builds_modifyPartner (put (atoi (cstr e.1)) v)
      have h := hhead.seq ih
      convert h using 1
      · rfl
      rw [List.mapM_cons]
      cases get e.2 with
      | none => rfl
      | some v =>
        cases tree.mapM fun e => (get e.2).map fun v => (atoi (cstr e.1), v) with
        | none => rfl
        | some ps => rfl
  have h := Builds.throw (x := J.readJson doc) key
  unfold fillMap document
  rw [Option.map_bind]
  exact h

lemma foldl_put {α : Type} (get : Partner → UMap ℤ α) (set : UMap ℤ α → Partner → Partner)
    (hget : ∀ m p, get (set m p) = m) (hset : ∀ m m' p, set m (set m' p) = set m p)
    (hself : ∀ p, set (get p) p = p) (ps : List (ℤ × α)) (p : Partner) :
    ps.foldl (fun p e => set ((get p).insert e.1 e.2) p) p =
      set (ps.foldl (fun m e => m.insert e.1 e.2) (get p)) p := by
  induction ps generalizing p with
  | nil => exact (hself p).symm
  | cons e ps ih => rw [List.foldl_cons, ih, hget, hset, List.foldl_cons]

lemma foldl_putWeight (ps : List (ℤ × ℤ)) (p : Partner) :
    ps.foldl (fun p e => putWeight e.1 e.2 p) p =
      { p with weight := ps.foldl (fun m e => m.insert e.1 e.2) p.weight } :=
  foldl_put Partner.weight (fun m p => { p with weight := m }) (fun _ _ => rfl)
    (fun _ _ _ => rfl) (fun _ => rfl) ps p

lemma foldl_putExpires (ps : List (ℤ × ℤ)) (p : Partner) :
    ps.foldl (fun p e => putExpires e.1 e.2 p) p =
      { p with expires := ps.foldl (fun m e => m.insert e.1 e.2) p.expires } :=
  foldl_put Partner.expires (fun m p => { p with expires := m }) (fun _ _ => rfl)
    (fun _ _ _ => rfl) (fun _ => rfl) ps p

lemma foldl_putUrl (ps : List (ℤ × Bytes)) (p : Partner) :
    ps.foldl (fun p e => putUrl e.1 e.2 p) p =
      { p with url := ps.foldl (fun m e => m.insert e.1 e.2) p.url } :=
  foldl_put Partner.url (fun m p => { p with url := m }) (fun _ _ => rfl)
    (fun _ _ _ => rfl) (fun _ => rfl) ps p

lemma builds_buildPartner (fields : List (Bytes × Bytes)) :
    Builds (buildPartner J (partnerMap fields))
      ((completeParse J fields).map fun p => fun _ => p) := by
  let m := partnerMap fields
  have h := (builds_modifyPartner fun _ => { open_ := 0, type := 0 }).seq <|
    (builds_modifyPartner fun p => { p with open_ := atoi (column m (lit "open")) }).seq <|
    (builds_modifyPartner fun p => { p with type := atoi (column m (lit "type")) }).seq <|
    (builds_modifyPartner fun p => { p with self := column m (lit "self") }).seq <|
    (builds_fillMap (J := J) J.getInt putWeight (column m (lit "weight"))).seq <|
    (builds_fillMap (J := J) J.getInt putExpires (column m (lit "cycle"))).seq <|
    (builds_fillMap (J := J) J.getString putUrl (column m (lit "url"))).seq <|
    (builds_modifyPartner fun p => { p with open_ := atoi (column m (lit "open")) }).seq <|
    (builds_modifyPartner fun p => { p with type := atoi (column m (lit "type")) }).seq <|
    (builds_modifyPartner fun p => { p with self := column m (lit "self") }).seq <|
    (builds_modifyPartner fun p =>
      { p with muid := [UInt8.ofInt (atoi (column m (lit "muid")))] }).seq <|
    builds_modifyPartner fun p => { p with uid := column m (lit "uid") }
  refine Eq.mp (congrArg (Builds (buildPartner J m)) ?_) h
  symm
  unfold completeParse
  change Option.map _ ((document J J.getInt (column m (lit "weight"))).bind _) = _
  cases document J J.getInt (column m (lit "weight")) with
  | none => rfl
  | some weight =>
    change Option.map _ ((document J J.getInt (column m (lit "cycle"))).bind _) = _
    cases document J J.getInt (column m (lit "cycle")) with
    | none => rfl
    | some cycle =>
      change Option.map _ ((document J J.getString (column m (lit "url"))).map _) = _
      cases document J J.getString (column m (lit "url")) with
      | none => rfl
      | some url =>
        refine congrArg some (funext fun p => ?_)
        simp only [Function.comp_apply, foldl_putWeight, foldl_putExpires, foldl_putUrl]
        rfl

lemma store_eq (T : UMap Bytes Partner) (key : Bytes) (fields : List (Bytes × Bytes)) :
    store J T key (partnerMap fields) =
      match completeParse J fields with
      | none => T
      | some p => T.insert key p := by
  have h := builds_buildPartner (J := J) fields ⟨T, { open_ := 0, type := 0 }⟩
  unfold store tryBlock
  rw [run_bind]
  cases hp : completeParse J fields with
  | none =>
    rw [hp] at h
    obtain ⟨p, hrun⟩ := h
    rw [hrun]
  | some p =>
    rw [hp] at h
    change _ = _ at h
    rw [h]
    rfl

/-! ### The loop -/

lemma partnerKey_injective {i j : ℕ} (h : partnerKey i = partnerKey j) : i = j :=
  natStr_injective (List.append_cancel_left h)

def Reply.Stops (r : Reply) : Prop := r = .null ∨ r = .error

lemma store_frame (T : UMap Bytes Partner) {key k : Bytes} (fields : List (Bytes × Bytes))
    (hk : k ≠ key) : (store J T key (partnerMap fields)).find k = T.find k := by
  rw [store_eq]
  cases completeParse J fields with
  | none => rfl
  | some p => rw [UMap.find_insert, if_neg hk]

lemma syncLoop_frame (reply : ℕ → Reply) (is : List ℕ) (T : UMap Bytes Partner) {k : Bytes}
    (hk : ∀ i ∈ is, k ≠ partnerKey i) : (syncLoop J reply is T).find k = T.find k := by
  induction is generalizing T with
  | nil => rfl
  | cons i is ih =>
    have ih := fun T => ih T fun j hj => hk j (by simp [hj])
    unfold syncLoop
    split
    · rfl
    · rfl
    · exact ih T
    · split
      · exact ih T
      · rw [ih, store_frame T _ (hk i (by simp))]

lemma syncLoop_append {reply : ℕ → Reply} {is : List ℕ} (js : List ℕ) (T : UMap Bytes Partner)
    (h : ∀ i ∈ is, ¬ (reply i).Stops) :
    syncLoop J reply (is ++ js) T = syncLoop J reply js (syncLoop J reply is T) := by
  induction is generalizing T with
  | nil => rfl
  | cons i is ih =>
    have ih := fun T => ih T fun j hj => h j (by simp [hj])
    have hi := h i (by simp)
    rw [List.cons_append, syncLoop, syncLoop]
    cases hr : reply i with
    | null => exact absurd (.inl hr) hi
    | error => exact absurd (.inr hr) hi
    | other => exact ih T
    | array fields =>
      dsimp only
      split
      · exact ih T
      · exact ih _

lemma syncLoop_stop {reply : ℕ → Reply} {is : List ℕ} (js : List ℕ) (T : UMap Bytes Partner)
    (h : ∃ i ∈ is, (reply i).Stops) :
    syncLoop J reply (is ++ js) T = syncLoop J reply is T := by
  induction is generalizing T with
  | nil => simp at h
  | cons i is ih =>
    rw [List.exists_mem_cons_iff] at h
    rw [List.cons_append, syncLoop, syncLoop]
    cases hr : reply i with
    | null => rfl
    | error => rfl
    | other =>
      have h := h.resolve_left (by simp [Reply.Stops, hr])
      exact ih T h
    | array fields =>
      have h := h.resolve_left (by simp [Reply.Stops, hr])
      dsimp only
      split
      · exact ih T h
      · exact ih _ h

/-- The run gets to partner `i`, and the reply describes `p` completely. -/
def Stores (J : PropertyTree Node) (reply : ℕ → Reply) (i : ℕ) (p : Partner) : Prop :=
  (∀ j < i, ¬ (reply j).Stops) ∧
    ∃ fields, reply i = .array fields ∧ fields ≠ [] ∧ completeParse J fields = some p

lemma range_split {i n : ℕ} (hi : i ≤ n) :
    List.range (n + 1) = List.range i ++ i :: List.range' (i + 1) (n - i) := by
  have h : List.range' 0 i ++ List.range' (0 + i) (n - i + 1) = List.range' 0 (i + (n - i + 1)) :=
    List.range'_append_1
  rw [zero_add, List.range'_succ, show i + (n - i + 1) = n + 1 by omega] at h
  rw [List.range_eq_range', List.range_eq_range', h]

section Call

variable {c : Call} {i : ℕ}

lemma syncPartners_stopped (T : UMap Bytes Partner) (hi : i ≤ maxPartnerId)
    (h : ∃ j < i, (c.reply j).Stops) :
    (syncPartners J c T).find (partnerKey i) = T.find (partnerKey i) := by
  unfold syncPartners
  split
  · rw [range_split hi, syncLoop_stop _ T (by simpa using h)]
    refine syncLoop_frame _ _ T fun j hj hk => ?_
    have := partnerKey_injective hk
    simp_all
  · rfl

lemma syncPartners_reached (T : UMap Bytes Partner) (hc : c.connected = true)
    (hi : i ≤ maxPartnerId) (h : ∀ j < i, ¬ (c.reply j).Stops) :
    (syncPartners J c T).find (partnerKey i) =
      match c.reply i with
      | .array fields =>
        if fields.length = 0 then T.find (partnerKey i)
        else (completeParse J fields).or (T.find (partnerKey i))
      | _ => T.find (partnerKey i) := by
  have hbefore : ∀ T : UMap Bytes Partner,
      (syncLoop J c.reply (List.range i) T).find (partnerKey i) = T.find (partnerKey i) := by
    intro T
    refine syncLoop_frame _ _ T fun j hj hk => ?_
    have := partnerKey_injective hk
    simp_all
  have hbehind : ∀ T : UMap Bytes Partner,
      (syncLoop J c.reply (List.range' (i + 1) (maxPartnerId - i)) T).find (partnerKey i) =
        T.find (partnerKey i) := by
    intro T
    refine syncLoop_frame _ _ T fun j hj hk => ?_
    have := partnerKey_injective hk
    have := (List.mem_range'_1.mp hj).1
    omega
  rw [syncPartners, if_pos hc, range_split hi,
    syncLoop_append _ T fun j hj => h j (List.mem_range.mp hj), syncLoop]
  split
  · rename_i hr
    rw [hr]
    exact hbefore T
  · rename_i hr
    rw [hr]
    exact hbefore T
  · rename_i hr
    rw [hr, hbehind]
    exact hbefore T
  · rename_i fields hr
    rw [hr]
    dsimp only
    split
    · rw [hbehind, hbefore]
    · rw [hbehind, store_eq]
      cases completeParse J fields with
      | none => exact hbefore T
      | some p => rw [UMap.find_insert, if_pos rfl, Option.some_or]

lemma syncPartners_frame (T : UMap Bytes Partner) {k : Bytes}
    (hk : ∀ i ≤ maxPartnerId, k ≠ partnerKey i) : (syncPartners J c T).find k = T.find k := by
  unfold syncPartners
  split
  · exact syncLoop_frame _ _ T fun i hi => hk i (Nat.lt_succ_iff.mp (List.mem_range.mp hi))
  · rfl

end Call

/-- **A partner is overwritten as a whole or not at all.** -/
theorem syncPartners_spec (J : PropertyTree Node) (c : Call) (hc : c.connected = true)
    (T : UMap Bytes Partner) :
    (∀ i ≤ maxPartnerId, ∀ p, Stores J c.reply i p →
      (syncPartners J c T).find (partnerKey i) = some p) ∧
    (∀ i ≤ maxPartnerId, (¬ ∃ p, Stores J c.reply i p) →
      (syncPartners J c T).find (partnerKey i) = T.find (partnerKey i)) ∧
    (∀ i ≤ maxPartnerId, (∃ j < i, (c.reply j).Stops) →
      (syncPartners J c T).find (partnerKey i) = T.find (partnerKey i)) ∧
    ∀ k, (∀ i ≤ maxPartnerId, k ≠ partnerKey i) → (syncPartners J c T).find k = T.find k := by
  refine ⟨?_, ?_, fun i hi h => syncPartners_stopped T hi h, fun k hk => syncPartners_frame T hk⟩
  · rintro i hi p ⟨hbefore, fields, hr, hne, hp⟩
    rw [syncPartners_reached T hc hi hbefore, hr]
    dsimp only
    rw [if_neg (by simpa using hne), hp, Option.some_or]
  · intro i hi hno
    by_cases hstop : ∃ j < i, (c.reply j).Stops
    · exact syncPartners_stopped T hi hstop
    · have hbefore : ∀ j < i, ¬ (c.reply j).Stops := fun j hj hs => hstop ⟨j, hj, hs⟩
      rw [syncPartners_reached T hc hi hbefore]
      split
      · rename_i fields hr
        split
        · rfl
        · rename_i hlen
          cases hp : completeParse J fields with
          | none => rfl
          | some p =>
            exact absurd ⟨p, hbefore, fields, hr, by simpa using hlen, hp⟩ hno
      · rfl

end Sync

/-- A reader of the two documents used below. -/
def sampleTree : PropertyTree Bytes where
  readJson := fun doc =>
    if doc = lit "\x7b\"4\":\"100\"\x7d" then some [(lit "4", lit "100")]
    else if doc = lit "\x7b\x7d" then some []
    else none
  getInt := fun v => if v.all isdigit && v ≠ [] then some (atoi v) else none
  getString := some

/-- A hash with one weight and no cycles or urls. -/
def sampleHash : List (Bytes × Bytes) :=
  [(lit "open", lit "1"), (lit "type", lit "2"), (lit "self", lit "http://g.cn/"),
    (lit "weight", lit "\x7b\"4\":\"100\"\x7d"), (lit "cycle", lit "\x7b\x7d"),
    (lit "url", lit "\x7b\x7d"), (lit "uid", lit "aid")]

/-- Redis holds `Mapping_1`, a `Mapping_2` without documents and `Mapping_3`, and fails at
`Mapping_4`. -/
def sampleCall : Call where
  connected := true
  reply := fun i =>
    if i = 1 ∨ i = 3 ∨ i = 5 then .array sampleHash
    else if i = 2 then .array [(lit "open", lit "1")]
    else if i = 4 then .error
    else .array []

/-- The partners up to the failure are stored, those that can be read. -/
theorem syncPartners_spec_sample :
    ((syncPartners sampleTree sampleCall UMap.empty).find (lit "Mapping_1")).isSome ∧
    ((syncPartners sampleTree sampleCall UMap.empty).find (lit "Mapping_2")).isNone ∧
    ((syncPartners sampleTree sampleCall UMap.empty).find (lit "Mapping_3")).isSome ∧
    ((syncPartners sampleTree sampleCall UMap.empty).find (lit "Mapping_5")).isNone := by
  obtain ⟨hstored, hkept, hstopped, -⟩ :=
    syncPartners_spec sampleTree sampleCall rfl UMap.empty
  obtain ⟨p, hp⟩ : ∃ p, completeParse sampleTree sampleHash = some p :=
    Option.isSome_iff_exists.mp (by decide +kernel)
  have hgo : ∀ j < 4, ¬ (sampleCall.reply j).Stops := by
    intro j hj
    interval_cases j <;> simp [Reply.Stops, sampleCall]
  have h1 := hstored 1 (by decide) p
    ⟨fun j hj => hgo j (by omega), sampleHash, rfl, by simp [sampleHash], hp⟩
  have h3 := hstored 3 (by decide) p
    ⟨fun j hj => hgo j (by omega), sampleHash, rfl, by simp [sampleHash], hp⟩
  have hnone : (completeParse sampleTree [(lit "open", lit "1")]).isNone := by decide +kernel
  have hno : ¬ ∃ p, Stores sampleTree sampleCall.reply 2 p := by
    rintro ⟨q, -, fields, hr, -, hq⟩
    cases hr
    rw [hq] at hnone
    exact absurd hnone (by simp)
  have h2 := hkept 2 (by decide) hno
  have h5 := hstopped 5 (by decide) ⟨4, by decide, .inr rfl⟩
  exact ⟨Option.isSome_of_eq_some h1, Option.isNone_iff_eq_none.mpr h2,
    Option.isSome_of_eq_some h3, Option.isNone_iff_eq_none.mpr h5⟩

end NgxMapping.PartnerSync
