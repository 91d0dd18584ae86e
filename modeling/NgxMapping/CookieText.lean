import NgxMapping.CookieHeader
import NgxMapping.Lib.UMap

/-!
Reading a cookie out of a header that a browser has joined.

A browser joins its cookies by `"; "`, other clients by a semicolon and any number of spaces.
`getCookie` then finds the first cookie of a name, whatever the order, as long as no value shows
that name behind a blank.
-/

namespace NgxMapping.CookieText

open Lib CookieHeader

/-- The `Cookie` header for cookies in a given order. -/
def cookieText (cs : List (Bytes × Bytes)) : Bytes :=
  (lit "; ").intercalate (cs.map fun c => c.1 ++ 61 :: c.2)

/-- A header with any number of spaces behind each semicolon: every cookie comes with the
number behind it, of which the last one does not count. -/
def spacedText : List (ℕ × Bytes × Bytes) → Bytes
  | [] => []
  | [(_, n, v)] => n ++ 61 :: v
  | (gap, n, v) :: c :: cs =>
    n ++ 61 :: v ++ 59 :: (List.replicate gap 32 ++ spacedText (c :: cs))

/-- A value in which a search for `name` finds nothing: no semicolon, and the name with its
equals sign nowhere behind a blank. -/
structure Silent (name v : Bytes) : Prop where
  semicolon : (59 : UInt8) ∉ v
  blank : ∀ w, isspace w = true → ¬ w :: (name ++ [61]) <:+: v

lemma silent_of_plain (name : Bytes) {v : Bytes} (hv : ∀ c ∈ v, boundary c = false) :
    Silent name v where
  semicolon := fun h => absurd (hv 59 h) (by decide)
  blank := by
    intro w hw hi
    have := hv w (hi.subset (by simp))
    simp [boundary, hw] at this

section

variable {name : Bytes}

lemma not_prefix_boundary (hok : NameOk name) {c : UInt8} {s : Bytes} (hc : boundary c = true) :
    ¬ name ++ [61] <+: c :: s := by
  obtain ⟨d, n, hn⟩ := List.exists_cons_of_ne_nil hok.ne_nil
  intro h
  rw [hn, List.cons_append, List.cons_prefix_cons] at h
  have hd := (hok.plain d (by simp [hn])).1
  rw [h.1, hc] at hd
  simp at hd

lemma scanCookie_boundary (hok : NameOk name) {b : Bool} {c : UInt8} {s : Bytes}
    (hc : boundary c = true) : scanCookie name b (c :: s) = scanCookie name true s := by
  rw [scanCookie, if_neg fun h => not_prefix_boundary hok hc h.2, hc]

lemma scanCookie_plain {u s : Bytes} (hu : ∀ c ∈ u, boundary c = false) :
    scanCookie name false (u ++ s) = scanCookie name false s := by
  induction u with
  | nil => rfl
  | cons c u ih =>
    rw [List.cons_append, scanCookie, if_neg (by simp), hu c (by simp)]
    exact ih fun d hd => hu d (by simp [hd])

lemma prefix_of_append (hok : NameOk name) {v t : Bytes} (h : name ++ [61] <+: v ++ 59 :: t) :
    name ++ [61] <+: v := by
  rcases Nat.lt_or_ge v.length (name ++ [61]).length with hlt | hge
  · -- the semicolon would stand inside the name
    have hmem : (59 : UInt8) ∈ name ++ [61] := by
      have hpre : v ++ [59] <+: name ++ [61] := by
        have hv : v ++ [59] <+: v ++ 59 :: t := by
          rw [show v ++ 59 :: t = (v ++ [59]) ++ t by simp]
          exact List.prefix_append _ _
        exact List.prefix_of_prefix_length_le hv h (by simpa using hlt)
      exact hpre.subset (by simp)
    rcases List.mem_append.mp hmem with hc | hc
    · exact absurd (hok.plain 59 hc).1 (by decide)
    · simp at hc
  · exact List.prefix_of_prefix_length_le h (List.prefix_append _ _) hge

lemma Silent.tail {c : UInt8} {v : Bytes} (h : Silent name (c :: v)) : Silent name v :=
  ⟨fun hc => h.semicolon (by simp [hc]),
    fun w hw hi => h.blank w hw (hi.trans (List.suffix_cons c v).isInfix)⟩

lemma Silent.next {c : UInt8} {v : Bytes} (h : Silent name (c :: v)) (hc : boundary c = true) :
    ¬ name ++ [61] <+: v := by
  intro hp
  have hs : isspace c = true := by
    have hne : c ≠ 59 := fun he => h.semicolon (by simp [he])
    simpa [boundary, hne] using hc
  exact h.blank c hs (List.cons_prefix_cons.mpr ⟨rfl, hp⟩).isInfix

lemma scanCookie_value (hok : NameOk name) {v : Bytes} (hv : Silent name v) {b : Bool}
    (hb : b = true → ¬ name ++ [61] <+: v) :
    scanCookie name b v = none ∧
      ∀ t, scanCookie name b (v ++ 59 :: t) = scanCookie name true t := by
  induction v generalizing b with
  | nil => exact ⟨rfl, fun t => scanCookie_boundary hok (by decide)⟩
  | cons c v ih =>
    have hnext := ih hv.tail (b := boundary c) fun hc => hv.next hc
    constructor
    · rw [scanCookie, if_neg fun h => hb h.1 h.2]
      exact hnext.1
    · intro t
      rw [List.cons_append, scanCookie, if_neg, hnext.2]
      rintro ⟨h1, h2⟩
      exact hb h1 (prefix_of_append hok (v := c :: v) h2)

lemma prefix_name_iff (hok : NameOk name) {n s : Bytes}
    (hn : ∀ c ∈ n, boundary c = false ∧ c ≠ 61) :
    name ++ [61] <+: n ++ 61 :: s ↔ n = name := by
  have key : ∀ (a b : Bytes), (∀ c ∈ a, c ≠ 61) → (∀ c ∈ b, c ≠ 61) →
      (a ++ [61] <+: b ++ 61 :: s ↔ b = a) := by
    intro a
    induction a with
    | nil =>
      intro b _ hb
      cases b with
      | nil => simp
      | cons d b => simpa [eq_comm] using hb d (by simp)
    | cons c a ih =>
      intro b ha hb
      cases b with
      | nil =>
        have hc := ha c (by simp)
        simp [hc]
      | cons d b =>
        have := ih b (fun x hx => ha x (by simp [hx])) fun x hx => hb x (by simp [hx])
        simp only [List.cons_append, List.cons_prefix_cons, List.cons.injEq, this]
        exact and_congr_left fun _ => eq_comm
  exact key name n (fun c hc => (hok.plain c hc).2) fun c hc => (hn c hc).2

lemma scanCookie_item (hok : NameOk name) {n v : Bytes} (hn : NameOk n) (hv : Silent name v) :
    scanCookie name true (n ++ 61 :: v) = (if n = name then some v else none) ∧
      ∀ t, scanCookie name true (n ++ 61 :: v ++ 59 :: t) =
        if n = name then some v else scanCookie name true t := by
  obtain ⟨c, n', hc⟩ := List.exists_cons_of_ne_nil hn.ne_nil
  by_cases h : n = name
  · subst h
    have hit : ∀ s, scanCookie n true (n ++ 61 :: s) = some (s.takeWhile (· ≠ 59)) := by
      intro s
      have hp : n ++ [61] <+: n ++ 61 :: s := by simp
      rw [hc] at hp ⊢
      rw [List.cons_append, scanCookie, if_pos ⟨rfl, by simp⟩]
      simp
    have hall : v.takeWhile (· ≠ 59) = v := by
      refine List.takeWhile_eq_self_iff.mpr fun c hc => ?_
      have : c ≠ 59 := fun he => hv.semicolon (he ▸ hc)
      simpa using this
    refine ⟨by rw [hit, hall, if_pos rfl], fun t => ?_⟩
    rw [show n ++ 61 :: v ++ 59 :: t = n ++ 61 :: (v ++ 59 :: t) by simp, hit, if_pos rfl]
    congr 1
    rw [List.takeWhile_append_of_pos]
    · simp
    · exact List.takeWhile_eq_self_iff.mp hall
  · -- no hit at the name, none inside it or right behind the equals sign
    have skip : ∀ s, scanCookie name true (n ++ 61 :: s) = scanCookie name false s := by
      intro s
      have hno := mt (prefix_name_iff hok (s := s) hn.plain).mp h
      have h61 : scanCookie name false (61 :: s) = scanCookie name false s := by
        simpa using @scanCookie_plain name [61] s (by decide)
      rw [hc] at hno ⊢
      rw [List.cons_append, scanCookie, if_neg fun hh => hno hh.2,
        (hn.plain c (by simp [hc])).1,
        scanCookie_plain fun d hd => (hn.plain d (by simp [hc, hd])).1,
        h61]
    obtain ⟨h1, h2⟩ := scanCookie_value hok hv (b := false) (by simp)
    refine ⟨by rw [skip, h1, if_neg h], fun t => ?_⟩
    rw [show n ++ 61 :: v ++ 59 :: t = n ++ 61 :: (v ++ 59 :: t) by simp, skip, h2, if_neg h]

lemma scanCookie_spaces (hok : NameOk name) (k : ℕ) (s : Bytes) :
    scanCookie name true (List.replicate k 32 ++ s) = scanCookie name true s := by
  induction k with
  | zero => rfl
  | succ k ih => rw [List.replicate_succ, List.cons_append, scanCookie_boundary hok (by decide), ih]

lemma lookup_cons_if (n v : Bytes) (cs : List (Bytes × Bytes)) :
    ((n, v) :: cs).lookup name = if n = name then some v else cs.lookup name := by
  by_cases hn : n = name
  · simp [hn]
  · simp [hn, List.lookup_cons, beq_false_of_ne (Ne.symm hn)]

/-- **The scan of a joined header finds the first cookie of the name.** -/
theorem scanCookie_spacedText (hok : NameOk name) {cs : List (ℕ × Bytes × Bytes)}
    (hcs : ∀ c ∈ cs, NameOk c.2.1 ∧ Silent name c.2.2) :
    scanCookie name true (spacedText cs) = (cs.map Prod.snd).lookup name := by
  induction cs with
  | nil => rfl
  | cons c cs ih =>
    obtain ⟨gap, n, v⟩ := c
    obtain ⟨h1, h2⟩ := scanCookie_item hok (hcs (gap, n, v) (by simp)).1
      (hcs (gap, n, v) (by simp)).2
    rw [List.map_cons, lookup_cons_if, ← ih fun c hc => hcs c (by simp [hc])]
    cases cs with
    | nil => exact h1
    | cons d cs => rw [spacedText, h2, scanCookie_spaces hok]

lemma cookieText_eq (cs : List (Bytes × Bytes)) :
    cookieText cs = spacedText (cs.map fun c => (1, c)) := by
  induction cs with
  | nil => rfl
  | cons c cs ih =>
    cases cs with
    | nil => simp [cookieText, List.intercalate, spacedText]
    | cons d cs =>
      have hj : cookieText (c :: d :: cs) =
          c.1 ++ 61 :: c.2 ++ 59 :: 32 :: cookieText (d :: cs) := by
        simp [cookieText, List.intercalate, show lit "; " = [59, 32] by decide]
      rw [hj, ih]
      rfl

/-- What `getCookie` reads out of the header of a browser whose cookies of that name agree. -/
theorem getCookie_cookieText (hok : NameOk name) {cs : List (Bytes × Bytes)}
    (hcs : ∀ c ∈ cs, NameOk c.1 ∧ Silent name c.2) :
    getCookie (cookieText cs) name = (cs.lookup name).getD [] := by
  have hcs' : ∀ c ∈ cs.map (fun c => (1, c)), NameOk c.2.1 ∧ Silent name c.2.2 := by
    intro c hc
    obtain ⟨d, hd, rfl⟩ := List.mem_map.mp hc
    exact hcs d hd
  have hmap : (cs.map fun c => (1, c)).map Prod.snd = cs := by simp
  rw [getCookie_eq_scan hok, cookieText_eq, scanCookie_spacedText hok hcs', hmap]

/-- **`getCookie` is the lookup of the first cookie of a name** in a well-formed header. -/
theorem getCookie_first (hok : NameOk name) (cs : List (ℕ × Bytes × Bytes))
    (hcs : ∀ c ∈ cs, NameOk c.2.1 ∧ ∀ d ∈ c.2.2, boundary d = false) :
    getCookie (spacedText cs) name = ((cs.map Prod.snd).lookup name).getD [] := by
  rw [getCookie_eq_scan hok,
    scanCookie_spacedText hok fun c hc => ⟨(hcs c hc).1, silent_of_plain name (hcs c hc).2⟩]

end

/-- `t_1` among cookies whose names and values show it. -/
theorem getCookie_first_among :
    spacedText [(0, lit "t_12", lit "7"), (3, lit "v", lit "t_1=8"), (1, lit "t_1", lit "a=9"),
      (0, lit "t_1", lit "6")] = lit "t_12=7;v=t_1=8;   t_1=a=9; t_1=6" ∧
    getCookie (spacedText [(0, lit "t_12", lit "7"), (3, lit "v", lit "t_1=8"),
      (1, lit "t_1", lit "a=9"), (0, lit "t_1", lit "6")]) (lit "t_1") = lit "a=9" :=
  ⟨by decide, getCookie_first (by decide) _ (by decide)⟩

end NgxMapping.CookieText
