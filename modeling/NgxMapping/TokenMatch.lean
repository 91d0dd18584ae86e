import NgxMapping.Lib.Search

/-!
`token_match_size`: how often a case-insensitive regular expression matches in a text.

The expressions of the handler are alternatives of fixed words in which a dot stands for any
byte. The iterator counts the leftmost non-overlapping matches.
-/

namespace NgxMapping.TokenMatch

open Lib

def tolower (c : UInt8) : UInt8 := if 65 ≤ c ∧ c ≤ 90 then c + 32 else c

/-- A word of an expression; `none` is the dot. -/
abbrev Pattern := List (Option UInt8)

def pattern (s : String) : Pattern := (lit s).map fun c => if c = 46 then none else some c

/-- The word matches at the head of the text. -/
def matchHere : Pattern → Bytes → Bool
  | [], _ => true
  | _ :: _, [] => false
  | p :: ps, c :: s => (p == none || p == some (tolower c)) && matchHere ps s

/-- The length of the first alternative that matches at the head of the text. -/
def matchLen (ps : List Pattern) (s : Bytes) : ℕ :=
  match ps.find? (matchHere · s) with
  | some p => p.length
  | none => 0

def tokenMatchSize (text : Bytes) (ps : List Pattern) : ℕ := (scan (matchLen ps) 0 text).count none

def adGif : List Pattern := [pattern "ad.gif"]
def bdGif : List Pattern := [pattern "bd.gif"]
def extEq : List Pattern := [pattern "ext="]

/-- `android|iphone|ipad`. -/
def mobile : List Pattern := [pattern "android", pattern "iphone", pattern "ipad"]

lemma matchHere_iff (w : Bytes) (hw : (46 : UInt8) ∉ w) (s : Bytes) :
    matchHere (w.map fun c => if c = 46 then none else some c) s = true ↔
      w <+: s.map tolower := by
  induction w generalizing s with
  | nil => simp [matchHere]
  | cons c w ih =>
    simp only [List.mem_cons, not_or] at hw
    cases s with
    | nil => simp [matchHere]
    | cons d s =>
      simp only [List.map_cons, matchHere, if_neg (Ne.symm hw.1), Bool.and_eq_true, ih hw.2 s,
        List.cons_prefix_cons]
      simp

/-! ### Separators -/

/-- No alternative matches a text with the byte in it. -/
def Excludes (ps : List Pattern) (x : UInt8) : Prop :=
  ∀ p ∈ ps, none ∉ p ∧ some (tolower x) ∉ p

instance (ps : List Pattern) (x : UInt8) : Decidable (Excludes ps x) :=
  inferInstanceAs (Decidable (∀ p ∈ ps, _))

lemma matchHere_append {p : Pattern} {x : UInt8} (hn : none ∉ p) (hx : some (tolower x) ∉ p)
    (u v : Bytes) : matchHere p (u ++ x :: v) = matchHere p u := by
  induction p generalizing u with
  | nil => simp [matchHere]
  | cons a p ih =>
    rw [List.mem_cons, not_or] at hn hx
    cases u with
    | nil => simp [matchHere, Ne.symm hn.1, Ne.symm hx.1]
    | cons c u => simp only [List.cons_append, matchHere, ih hn.2 hx.2]

lemma length_le_of_matchHere {p : Pattern} {s : Bytes} (h : matchHere p s = true) :
    p.length ≤ s.length := by
  induction p generalizing s with
  | nil => simp
  | cons a p ih =>
    cases s with
    | nil => simp [matchHere] at h
    | cons c s =>
      rw [matchHere, Bool.and_eq_true] at h
      have := ih h.2
      simp only [List.length_cons]
      omega

lemma matchLen_le (ps : List Pattern) (s : Bytes) : matchLen ps s ≤ s.length := by
  unfold matchLen
  split
  · rename_i p hp
    have hm := List.find?_some hp
    exact length_le_of_matchHere hm
  · exact Nat.zero_le _

lemma tokenMatchSize_append {ps : List Pattern} {x : UInt8} (h : Excludes ps x) (u v : Bytes) :
    tokenMatchSize (u ++ x :: v) ps = tokenMatchSize u ps + tokenMatchSize v ps := by
  have hlen : ∀ t, matchLen ps (t ++ x :: v) = matchLen ps t := by
    intro t
    unfold matchLen
    have hfind : ps.find? (matchHere · (t ++ x :: v)) = ps.find? (matchHere · t) :=
      List.find?_congr fun p hp => matchHere_append (h p hp).1 (h p hp).2 t v
    rw [hfind]
  have h0 : matchLen ps [] = 0 := by
    have := matchLen_le ps []
    simpa using this
  unfold tokenMatchSize
  rw [scan_separator _ x u v h0 fun t => ⟨hlen t, matchLen_le ps t⟩, List.count_append,
    List.count_cons_of_ne (by simp)]

lemma tokenMatchSize_intercalate {ps : List Pattern} {x : UInt8} (h : Excludes ps x)
    (ts : List Bytes) : tokenMatchSize ([x].intercalate ts) ps =
      (ts.map fun t => tokenMatchSize t ps).sum := by
  induction ts with
  | nil => rfl
  | cons t ts ih =>
    cases ts with
    | nil => simp [List.intercalate]
    | cons u ts =>
      have hcut : [x].intercalate (t :: u :: ts) = t ++ x :: [x].intercalate (u :: ts) := by
        simp [List.intercalate]
      rw [hcut, tokenMatchSize_append h, ih, List.map_cons (l := u :: ts), List.sum_cons]

/-! ### One word -/

lemma matchHere_self {p : Pattern} {w : Bytes} (h : matchHere p w = true) (r : Bytes) :
    matchHere p (w ++ r) = true := by
  induction p generalizing w with
  | nil => simp [matchHere]
  | cons a p ih =>
    cases w with
    | nil => simp [matchHere] at h
    | cons c w =>
      rw [matchHere, Bool.and_eq_true] at h
      rw [List.cons_append, matchHere, h.1, ih h.2]
      rfl

lemma tokenMatchSize_hit {a : Option UInt8} {p : Pattern} {w : Bytes}
    (h : matchHere (a :: p) w = true) (hw : w.length = p.length + 1) (r : Bytes) :
    tokenMatchSize (w ++ r) [a :: p] = 1 + tokenMatchSize r [a :: p] := by
  have hm : matchLen [a :: p] (w ++ r) = p.length + 1 := by
    have hfind : [a :: p].find? (matchHere · (w ++ r)) = some (a :: p) :=
      List.find?_cons_of_pos (matchHere_self h r)
    rw [matchLen, hfind]
    rfl
  have hne : w ++ r ≠ [] := by
    apply List.append_ne_nil_of_left_ne_nil
    rintro rfl
    simp at hw
  unfold tokenMatchSize
  rw [scan_match _ hne hm, ← hw, List.drop_left, List.count_cons_self, Nat.add_comm]

lemma tokenMatchSize_pass {a : UInt8} {p : Pattern} {u : Bytes} (h : ∀ c ∈ u, tolower c ≠ a)
    (r : Bytes) :
    tokenMatchSize (u ++ r) [some a :: p] = tokenMatchSize r [some a :: p] := by
  have h0 : ∀ k < u.length, matchLen [some a :: p] (u.drop k ++ r) = 0 := by
    intro k hk
    have hc := h _ (List.getElem_mem hk)
    rw [List.drop_eq_getElem_cons hk, List.cons_append]
    simp [matchLen, matchHere, Ne.symm hc]
  unfold tokenMatchSize
  rw [scan_append _ _ _ h0, List.count_append, List.count_eq_zero_of_not_mem (by simp),
    Nat.zero_add]

lemma tokenMatchSize_pos_iff (ps : List Pattern) (hps : ∀ p ∈ ps, p ≠ []) (text : Bytes) :
    0 < tokenMatchSize text ps ↔ ∃ k, ∃ p ∈ ps, matchHere p (text.drop k) = true := by
  unfold tokenMatchSize
  induction text with
  | nil =>
    simp only [scan, List.count_nil, lt_irrefl, List.drop_nil, exists_const, false_iff]
    rintro ⟨p, hp, h⟩
    cases p with
    | nil => exact hps _ hp rfl
    | cons a p => simp [matchHere] at h
  | cons c s ih =>
    cases hf : ps.find? (matchHere · (c :: s)) with
    | some p =>
      have hp := List.mem_of_find?_eq_some hf
      have hm := List.find?_some hf
      obtain ⟨k, hk⟩ : ∃ k, p.length = k + 1 :=
        Nat.exists_eq_succ_of_ne_zero (by simpa using hps p hp)
      rw [scan_match (matchLen ps) (List.cons_ne_nil _ _) (by rw [matchLen, hf]; exact hk)]
      exact ⟨fun _ => ⟨0, p, hp, hm⟩, fun _ => by simp⟩
    | none =>
      have hno := List.find?_eq_none.mp hf
      rw [scan_next (matchLen ps) (by rw [matchLen, hf])]
      rw [List.count_cons_of_ne (by simp), ih]
      constructor
      · rintro ⟨k, p, hp, h⟩
        exact ⟨k + 1, p, hp, h⟩
      · rintro ⟨k, p, hp, h⟩
        cases k with
        | zero => exact absurd h (hno p hp)
        | succ k => exact ⟨k, p, hp, h⟩

/-- The text names a mobile system, in any letter case. -/
def Mobile (ua : Bytes) : Prop :=
  ∃ w ∈ [lit "android", lit "iphone", lit "ipad"], w <:+: ua.map tolower

lemma mobile_iff (ua : Bytes) : Mobile ua ↔ 0 < tokenMatchSize ua mobile := by
  rw [tokenMatchSize_pos_iff mobile (by decide)]
  have key : ∀ w : Bytes, (w <:+: ua.map tolower ↔ ∃ k, w <+: (ua.drop k).map tolower) := by
    intro w
    simp only [List.map_drop]
    constructor
    · rintro ⟨u, v, h⟩
      exact ⟨u.length, v, by rw [← h]; simp⟩
    · rintro ⟨k, h⟩
      exact h.isInfix.trans (List.drop_suffix k _).isInfix
  constructor
  · rintro ⟨w, hw, h⟩
    obtain ⟨k, hk⟩ := (key w).mp h
    have hall : ∀ w ∈ [lit "android", lit "iphone", lit "ipad"], (46 : UInt8) ∉ w ∧
        (w.map fun c => if c = 46 then none else some c) ∈ mobile := by decide
    exact ⟨k, _, (hall w hw).2, (matchHere_iff w (hall w hw).1 _).mpr hk⟩
  · rintro ⟨k, p, hp, h⟩
    simp only [mobile, List.mem_cons, List.not_mem_nil, or_false] at hp
    have hin : ∀ w : Bytes, (46 : UInt8) ∉ w →
        matchHere (w.map fun c => if c = 46 then none else some c) (ua.drop k) = true →
        w <:+: ua.map tolower := fun w hd hm => (key w).mpr ⟨k, (matchHere_iff w hd _).mp hm⟩
    rcases hp with rfl | rfl | rfl
    · exact ⟨_, by simp, hin (lit "android") (by decide) h⟩
    · exact ⟨_, by simp, hin (lit "iphone") (by decide) h⟩
    · exact ⟨_, by simp, hin (lit "ipad") (by decide) h⟩

example : tokenMatchSize (lit "Mozilla/5.0 (Linux; Android 7.0)") mobile = 1 := by decide

end NgxMapping.TokenMatch
