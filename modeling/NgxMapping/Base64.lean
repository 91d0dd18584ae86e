import NgxMapping.Helper

/-!
`base64_encode` and `base64_decode` are inverse to each other.

Both walk over their input with a group counter. The decoder counts its input down in an `int`:
a text of 2^32 bytes has the count zero, and nothing of it is decoded. For the texts whose length
an `int` can hold it is the function of `Helper`, and there the two loops undo each other on every
residue of the length.
-/

namespace NgxMapping.Base64

open Lib Helper

/-! ### The encoder -/

/-- The indices into `base64_chars` of a group of three bytes. -/
def base64Quad (a b c : UInt8) : Bytes :=
  [(a &&& 0xfc) >>> 2, ((a &&& 0x03) <<< 4) + ((b &&& 0xf0) >>> 4),
    ((b &&& 0x0f) <<< 2) + ((c &&& 0xc0) >>> 6), c &&& 0x3f]

/-- `base64_chars[i]`. -/
def base64Char (i : UInt8) : UInt8 := base64Chars.getD i.toNat 0

/-- The loop of `base64_encode`; an incomplete last group is filled with zero bytes and its text
with `=`. -/
def base64Encode : Bytes → Bytes
  | a :: b :: c :: s => (base64Quad a b c).map base64Char ++ base64Encode s
  | [a, b] => ((base64Quad a b 0).take 3).map base64Char ++ [61]
  | [a] => ((base64Quad a 0 0).take 2).map base64Char ++ [61, 61]
  | [] => []

/-! ### The decoder and its counters -/

/-- The bytes of an incomplete group: one fewer than it has symbols. -/
def base64Rest (group : Bytes) : Bytes :=
  (base64Group (group.getD 0 0) (group.getD 1 0) (group.getD 2 0) (group.getD 3 0)).take
    (group.length - 1)

/-- The loop of `base64_decode` with `in_len` bytes to go, when the symbols `group` have been read
since the last complete group. At the end of the string it reads the terminating zero, which
stops it like any foreign byte. -/
def base64Scan : Bytes → ℤ → Bytes → Bytes
  | [], _, group => base64Rest group
  | c :: s, in_len, group =>
    if in_len = 0 ∨ c = 61 ∨ isBase64 c = false then base64Rest group
    else
      match group with
      | [x, y, z] => base64Group x y z c ++ base64Scan s (in_len - 1) []
      | _ => base64Scan s (in_len - 1) (group ++ [c])

/-- `base64_decode` with its counter, the size cut to an `int`. -/
def base64DecodeInt (encoded_string : Bytes) : Bytes :=
  base64Scan encoded_string (Int.bmod encoded_string.length (2 ^ 32)) []

lemma base64Rest_eq {group : Bytes} (hg : group.length < 4) :
    base64Rest group = base64Loop group := by
  match group, hg with
  | [], _ => rfl
  | [_], _ => rfl
  | [_, _], _ => rfl
  | [_, _, _], _ => rfl

lemma base64Scan_eq {s group : Bytes} (hg : group.length < 4) :
    base64Scan s s.length group =
      base64Loop (group ++ s.takeWhile fun c => c ≠ 61 && isBase64 c) := by
  induction s generalizing group with
  | nil => simpa [base64Scan] using base64Rest_eq hg
  | cons c s ih =>
    have hlen : ((c :: s).length : ℤ) - 1 = s.length := by simp
    have hpos : ((c :: s).length : ℤ) ≠ 0 := by
      rw [List.length_cons]
      omega
    unfold base64Scan
    rw [hlen]
    by_cases hstop : c = 61 ∨ isBase64 c = false
    · have hwhile : ¬ (decide (c ≠ 61) && isBase64 c) = true := by
        rcases hstop with h | h <;> simp [h]
      rw [if_pos (.inr hstop), List.takeWhile_cons, if_neg hwhile, List.append_nil]
      exact base64Rest_eq hg
    · have hwhile : (decide (c ≠ 61) && isBase64 c) = true := by
        rw [not_or, Bool.not_eq_false] at hstop
        simp [hstop]
      rw [if_neg fun h => h.elim hpos hstop, List.takeWhile_cons, if_pos hwhile]
      split
      · rw [ih (by simp), List.nil_append]
        rfl
      · rename_i hno
        have hshort : group.length ≠ 3 := by
          intro h3
          obtain ⟨x, y, z, rfl⟩ := List.length_eq_three.mp h3
          exact hno x y z rfl
        rw [ih (by rw [List.length_append, List.length_singleton]; omega), List.append_assoc,
          List.singleton_append]

lemma base64DecodeInt_eq {s : Bytes} (h : s.length < 2 ^ 31) :
    base64DecodeInt s = base64Decode s := by
  have hlen : Int.bmod s.length (2 ^ 32) = s.length := by
    apply Int.bmod_eq_of_le <;> omega
  rw [base64DecodeInt, hlen, base64Scan_eq (by simp), List.nil_append, base64Decode]

/-! ### Symbols -/

lemma base64Find_base64Char (i : UInt8) (h : i.toNat < 64) :
    base64Find (base64Char i) = i ∧ base64Char i ∈ base64Chars := by
  have hall : ∀ n < 64, base64Find (base64Char (UInt8.ofNat n)) = UInt8.ofNat n ∧
      base64Char (UInt8.ofNat n) ∈ base64Chars := by decide +kernel
  have hi := hall i.toNat h
  rwa [UInt8.ofNat_toNat] at hi

lemma base64Char_base64Find : ∀ c ∈ base64Chars,
    base64Char (base64Find c) = c ∧ (base64Find c).toNat < 64 := by decide +kernel

lemma symbol_of_mem : ∀ c ∈ base64Chars, (c ≠ 61 && isBase64 c) = true := by decide +kernel

/-! ### Masks and shifts -/

lemma toNat_mask_shiftRight (a : UInt8) {mask k : UInt8} (w : ℕ)
    (hmask : mask.toNat = (2 ^ w - 1) <<< k.toNat) (hk : k.toNat < 8) :
    ((a &&& mask) >>> k).toNat = a.toNat / 2 ^ k.toNat % 2 ^ w := by
  rw [UInt8.toNat_shiftRight, UInt8.toNat_and, Nat.mod_eq_of_lt hk, Nat.shiftRight_and_distrib,
    hmask, Nat.shiftLeft_shiftRight, Nat.and_two_pow_sub_one_eq_mod, Nat.shiftRight_eq_div_pow]

lemma toNat_mask_shiftLeft (a : UInt8) {mask k : UInt8} (w : ℕ) (hmask : mask.toNat = 2 ^ w - 1)
    (hk : k.toNat < 8) : ((a &&& mask) <<< k).toNat = a.toNat % 2 ^ w * 2 ^ k.toNat % 256 := by
  rw [UInt8.toNat_shiftLeft, UInt8.toNat_and, Nat.mod_eq_of_lt hk, hmask,
    Nat.and_two_pow_sub_one_eq_mod, Nat.shiftLeft_eq]

lemma encode_parts (a : UInt8) :
    ((a &&& 0xfc) >>> 2).toNat = a.toNat / 4 ∧ ((a &&& 0x03) <<< 4).toNat = a.toNat % 4 * 16 ∧
      ((a &&& 0xf0) >>> 4).toNat = a.toNat / 16 ∧
      ((a &&& 0x0f) <<< 2).toNat = a.toNat % 16 * 4 ∧
      ((a &&& 0xc0) >>> 6).toNat = a.toNat / 64 ∧ (a &&& 0x3f).toNat = a.toNat % 64 := by
  have ha := a.toNat_lt
  have h1 := @toNat_mask_shiftRight a 0xfc 2 6 rfl (by decide)
  have h2 := @toNat_mask_shiftLeft a 0x03 4 2 rfl (by decide)
  have h3 := @toNat_mask_shiftRight a 0xf0 4 4 rfl (by decide)
  have h4 := @toNat_mask_shiftLeft a 0x0f 2 4 rfl (by decide)
  have h5 := @toNat_mask_shiftRight a 0xc0 6 2 rfl (by decide)
  have h6 : (a &&& 0x3f).toNat = a.toNat % 2 ^ 6 := by
    rw [UInt8.toNat_and]
    exact Nat.and_two_pow_sub_one_eq_mod _ 6
  simp only [UInt8.reduceToNat] at h1 h2 h3 h4 h5
  omega

lemma decode_parts (a : UInt8) :
    (a <<< 2).toNat = a.toNat * 4 % 256 ∧ ((a &&& 0x30) >>> 4).toNat = a.toNat / 16 % 4 ∧
      ((a &&& 0xf) <<< 4).toNat = a.toNat % 16 * 16 ∧
      ((a &&& 0x3c) >>> 2).toNat = a.toNat / 4 % 16 ∧
      ((a &&& 0x3) <<< 6).toNat = a.toNat % 4 * 64 := by
  have h1 : (a <<< 2).toNat = a.toNat * 2 ^ 2 % 256 := by
    rw [UInt8.toNat_shiftLeft, Nat.shiftLeft_eq]
    rfl
  have h2 := @toNat_mask_shiftRight a 0x30 4 2 rfl (by decide)
  have h3 := @toNat_mask_shiftLeft a 0xf 4 4 rfl (by decide)
  have h4 := @toNat_mask_shiftRight a 0x3c 2 4 rfl (by decide)
  have h5 := @toNat_mask_shiftLeft a 0x3 6 2 rfl (by decide)
  simp only [UInt8.reduceToNat] at h2 h3 h4 h5
  omega

lemma toNat_quad_snd (a b : UInt8) :
    (((a &&& 0x03) <<< 4) + ((b &&& 0xf0) >>> 4)).toNat = a.toNat % 4 * 16 + b.toNat / 16 := by
  have hb := b.toNat_lt
  obtain ⟨-, h1, -⟩ := encode_parts a
  obtain ⟨-, -, h2, -⟩ := encode_parts b
  rw [UInt8.toNat_add, h1, h2]
  omega

lemma toNat_quad_trd (b c : UInt8) :
    (((b &&& 0x0f) <<< 2) + ((c &&& 0xc0) >>> 6)).toNat = b.toNat % 16 * 4 + c.toNat / 64 := by
  have hc := c.toNat_lt
  obtain ⟨-, -, -, h1, -⟩ := encode_parts b
  obtain ⟨-, -, -, -, h2, -⟩ := encode_parts c
  rw [UInt8.toNat_add, h1, h2]
  omega

lemma toNat_group_fst {a b : UInt8} (ha : a.toNat < 64) (hb : b.toNat < 64) :
    ((a <<< 2) + ((b &&& 0x30) >>> 4)).toNat = a.toNat * 4 + b.toNat / 16 := by
  obtain ⟨h1, -⟩ := decode_parts a
  obtain ⟨-, h2, -⟩ := decode_parts b
  rw [UInt8.toNat_add, h1, h2]
  omega

lemma toNat_group_snd {b c : UInt8} (hc : c.toNat < 64) :
    (((b &&& 0xf) <<< 4) + ((c &&& 0x3c) >>> 2)).toNat = b.toNat % 16 * 16 + c.toNat / 4 := by
  obtain ⟨-, -, h1, -⟩ := decode_parts b
  obtain ⟨-, -, -, h2, -⟩ := decode_parts c
  rw [UInt8.toNat_add, h1, h2]
  omega

lemma toNat_group_trd {c d : UInt8} (hd : d.toNat < 64) :
    (((c &&& 0x3) <<< 6) + d).toNat = c.toNat % 4 * 64 + d.toNat := by
  obtain ⟨-, -, -, -, h⟩ := decode_parts c
  rw [UInt8.toNat_add, h]
  omega

/-! ### Decoding what was encoded -/

lemma quad_lt (a b c : UInt8) : ∀ i ∈ base64Quad a b c, i.toNat < 64 := by
  have ha := a.toNat_lt
  have hb := b.toNat_lt
  have hc := c.toNat_lt
  have h1 := (encode_parts a).1
  have h2 := toNat_quad_snd a b
  have h3 := toNat_quad_trd b c
  obtain ⟨-, -, -, -, -, h4⟩ := encode_parts c
  intro i hi
  simp only [base64Quad, List.mem_cons, List.not_mem_nil, or_false] at hi
  rcases hi with rfl | rfl | rfl | rfl <;> omega

lemma takeWhile_symbols {u : Bytes} (hu : ∀ i ∈ u, i.toNat < 64) (v : Bytes) :
    ((u.map base64Char ++ v).takeWhile fun c => c ≠ 61 && isBase64 c) =
      u.map base64Char ++ v.takeWhile fun c => c ≠ 61 && isBase64 c := by
  apply List.takeWhile_append_of_pos
  intro c hc
  obtain ⟨i, hi, rfl⟩ := List.mem_map.mp hc
  exact symbol_of_mem _ (base64Find_base64Char i (hu i hi)).2

/-- The bytes of a group come back from its indices: the first from the first two, and so on. -/
lemma group_quad (a b c : UInt8) {p q r s : UInt8} (h : base64Quad a b c = [p, q, r, s]) :
    (p <<< 2) + ((q &&& 0x30) >>> 4) = a ∧ ((q &&& 0xf) <<< 4) + ((r &&& 0x3c) >>> 2) = b ∧
      ((r &&& 0x3) <<< 6) + s = c := by
  have ha := a.toNat_lt
  have hb := b.toNat_lt
  have hc := c.toNat_lt
  have hlt := quad_lt a b c
  rw [h] at hlt
  have hp := hlt p (by simp)
  have hq := hlt q (by simp)
  have hr := hlt r (by simp)
  have hs := hlt s (by simp)
  have h1 := (encode_parts a).1
  have h2 := toNat_quad_snd a b
  have h3 := toNat_quad_trd b c
  obtain ⟨-, -, -, -, -, h4⟩ := encode_parts c
  simp only [base64Quad, List.cons.injEq, and_true] at h
  obtain ⟨rfl, rfl, rfl, rfl⟩ := h
  refine ⟨UInt8.toNat_inj.mp ?_, UInt8.toNat_inj.mp ?_, UInt8.toNat_inj.mp ?_⟩
  · rw [toNat_group_fst hp hq, h1, h2]
    omega
  · rw [toNat_group_snd hr, h2, h3]
    omega
  · rw [toNat_group_trd hs, h3, h4]
    omega

/-- The four indices of a group: they are found again from their symbols and give the bytes. -/
lemma quad_spec (a b c : UInt8) : ∃ p q r s, base64Quad a b c = [p, q, r, s] ∧
    (∀ i ∈ [p, q, r, s], i.toNat < 64) ∧
    (base64Find (base64Char p) = p ∧ base64Find (base64Char q) = q ∧
      base64Find (base64Char r) = r ∧ base64Find (base64Char s) = s) ∧
    (p <<< 2) + ((q &&& 0x30) >>> 4) = a ∧ ((q &&& 0xf) <<< 4) + ((r &&& 0x3c) >>> 2) = b ∧
      ((r &&& 0x3) <<< 6) + s = c := by
  obtain ⟨p, q, r, s, h⟩ : ∃ p q r s, base64Quad a b c = [p, q, r, s] := ⟨_, _, _, _, rfl⟩
  have hlt := quad_lt a b c
  rw [h] at hlt
  have hfind : ∀ i ∈ [p, q, r, s], base64Find (base64Char i) = i :=
    fun i hi => (base64Find_base64Char i (hlt i hi)).1
  refine ⟨p, q, r, s, h, hlt, ?_, group_quad a b c h⟩
  exact ⟨hfind p (by simp), hfind q (by simp), hfind r (by simp), hfind s (by simp)⟩

lemma base64Decode_base64Encode : ∀ bytes : Bytes, base64Decode (base64Encode bytes) = bytes
  | a :: b :: c :: s => by
    have ih := base64Decode_base64Encode s
    obtain ⟨p, q, r, t, hquad, hlt, hfind, h1, h2, h3⟩ := quad_spec a b c
    unfold base64Decode at ih ⊢
    rw [base64Encode, hquad, takeWhile_symbols hlt]
    simp only [List.map_cons, List.map_nil, List.cons_append, List.nil_append, base64Loop,
      base64Group, hfind, h1, h2, h3, ih]
  | [a, b] => by
    obtain ⟨p, q, r, t, hquad, hlt, hfind, h1, h2, -⟩ := quad_spec a b 0
    unfold base64Decode
    rw [base64Encode, hquad, takeWhile_symbols fun i hi => hlt i (List.mem_of_mem_take hi)]
    simp [base64Loop, base64Group, hfind, h1, h2]
  | [a] => by
    obtain ⟨p, q, r, t, hquad, hlt, hfind, h1, -, -⟩ := quad_spec a 0 0
    unfold base64Decode
    rw [base64Encode, hquad, takeWhile_symbols fun i hi => hlt i (List.mem_of_mem_take hi)]
    simp [base64Loop, base64Group, hfind, h1]
  | [] => rfl

/-! ### Encoding what was decoded -/

/-- A text is symbols and then `pad` times `=`, in groups of four; the bits of the last symbol that
no byte uses are zero. -/
structure Padded (symbols : Bytes) (pad : ℕ) : Prop where
  alphabet : symbols ⊆ base64Chars
  pad_le : pad ≤ 2
  groups : (symbols.length + pad) % 4 = 0
  unused : ∀ c ∈ symbols.getLast?, (base64Find c).toNat % 4 ^ pad = 0

/-- A canonical text. -/
def Canonical (s : Bytes) : Prop :=
  ∃ symbols pad, s = symbols ++ List.replicate pad 61 ∧ Padded symbols pad

lemma quad_group {a b c d : UInt8} (ha : a.toNat < 64) (hb : b.toNat < 64) (hc : c.toNat < 64)
    (hd : d.toNat < 64) :
    base64Quad ((a <<< 2) + ((b &&& 0x30) >>> 4)) (((b &&& 0xf) <<< 4) + ((c &&& 0x3c) >>> 2))
      (((c &&& 0x3) <<< 6) + d) = [a, b, c, d] := by
  have h1 := toNat_group_fst ha hb
  have h2 := @toNat_group_snd b c hc
  have h3 := @toNat_group_trd c d hd
  unfold base64Quad
  generalize (a <<< 2) + ((b &&& 0x30) >>> 4) = x at h1 ⊢
  generalize ((b &&& 0xf) <<< 4) + ((c &&& 0x3c) >>> 2) = y at h2 ⊢
  generalize ((c &&& 0x3) <<< 6) + d = z at h3 ⊢
  have e1 : (x &&& 0xfc) >>> 2 = a := by
    apply UInt8.toNat_inj.mp
    rw [(encode_parts x).1]
    omega
  have e2 : ((x &&& 0x03) <<< 4) + ((y &&& 0xf0) >>> 4) = b := by
    apply UInt8.toNat_inj.mp
    rw [toNat_quad_snd]
    omega
  have e3 : ((y &&& 0x0f) <<< 2) + ((z &&& 0xc0) >>> 6) = c := by
    apply UInt8.toNat_inj.mp
    rw [toNat_quad_trd]
    omega
  have e4 : z &&& 0x3f = d := by
    apply UInt8.toNat_inj.mp
    obtain ⟨-, -, -, -, -, h⟩ := encode_parts z
    rw [h]
    omega
  rw [e1, e2, e3, e4]

/-- With unused bits that are zero the third byte of a group of three symbols is zero, and the
second one of a group of two. -/
lemma unused_group {c : UInt8} :
    (c.toNat % 4 = 0 → ((c &&& 0x3) <<< 6) + (0 : UInt8) = 0) ∧
      (c.toNat % 16 = 0 → ((c &&& 0xf) <<< 4) + (((0 : UInt8) &&& 0x3c) >>> 2) = 0) := by
  constructor
  · intro h
    apply UInt8.toNat_inj.mp
    rw [toNat_group_trd (by decide), h]
    rfl
  · intro h
    apply UInt8.toNat_inj.mp
    rw [toNat_group_snd (by decide), h]
    rfl

lemma Padded.pad_eq {symbols : Bytes} {pad : ℕ} (h : Padded symbols pad) :
    pad = (4 - symbols.length % 4) % 4 := by
  have hle := h.pad_le
  have hgroups := h.groups
  omega

lemma Padded.tail {a b c d : UInt8} {s : Bytes} {pad : ℕ} (h : Padded (a :: b :: c :: d :: s) pad) :
    Padded s pad := by
  refine ⟨fun x hx => h.alphabet (by simp [hx]), h.pad_le, ?_, fun x hx => h.unused x ?_⟩
  · have := h.groups
    simp only [List.length_cons] at this
    omega
  · cases s with
    | nil => simp at hx
    | cons e s => simpa [List.getLast?_cons_cons] using hx

lemma base64Encode_base64Loop : ∀ {symbols : Bytes} {pad : ℕ}, Padded symbols pad →
    base64Encode (base64Loop symbols) = symbols ++ List.replicate pad 61
  | a :: b :: c :: d :: s, pad, h => by
    have ih := base64Encode_base64Loop h.tail
    obtain ⟨ea, ha⟩ := base64Char_base64Find a (h.alphabet (by simp))
    obtain ⟨eb, hb⟩ := base64Char_base64Find b (h.alphabet (by simp))
    obtain ⟨ec, hc⟩ := base64Char_base64Find c (h.alphabet (by simp))
    obtain ⟨ed, hd⟩ := base64Char_base64Find d (h.alphabet (by simp))
    simp only [base64Loop, base64Group, List.cons_append, List.nil_append, base64Encode,
      quad_group ha hb hc hd, List.map_cons, List.map_nil, ea, eb, ec, ed, ih]
  | [a, b, c], pad, h => by
    have hpad : pad = 1 := h.pad_eq
    obtain ⟨ea, ha⟩ := base64Char_base64Find a (h.alphabet (by simp))
    obtain ⟨eb, hb⟩ := base64Char_base64Find b (h.alphabet (by simp))
    obtain ⟨ec, hc⟩ := base64Char_base64Find c (h.alphabet (by simp))
    have hquad := quad_group ha hb hc (show (0 : UInt8).toNat < 64 by decide)
    have hunused := h.unused c (by simp)
    rw [unused_group.1 (by simpa [hpad] using hunused)] at hquad
    simp [base64Loop, base64Group, base64Encode, hquad, ea, eb, ec, hpad]
  | [a, b], pad, h => by
    have hpad : pad = 2 := h.pad_eq
    obtain ⟨ea, ha⟩ := base64Char_base64Find a (h.alphabet (by simp))
    obtain ⟨eb, hb⟩ := base64Char_base64Find b (h.alphabet (by simp))
    have hzero : (0 : UInt8).toNat < 64 := by decide
    have hquad := quad_group ha hb hzero hzero
    have hunused := h.unused b (by simp)
    rw [unused_group.2 (by simpa [hpad] using hunused)] at hquad
    rw [unused_group.1 rfl] at hquad
    simp [base64Loop, base64Group, base64Encode, hquad, ea, eb, hpad]
  | [a], pad, h => by
    -- one symbol would need three signs of padding
    have hpad : pad = 3 := h.pad_eq
    have hle := h.pad_le
    omega
  | [], pad, h => by
    have hpad : pad = 0 := h.pad_eq
    rw [hpad]
    rfl

lemma base64Encode_base64Decode {s : Bytes} (h : Canonical s) :
    base64Encode (base64Decode s) = s := by
  obtain ⟨symbols, pad, rfl, hp⟩ := h
  have hscan : ((symbols ++ List.replicate pad 61).takeWhile fun c => c ≠ 61 && isBase64 c) =
      symbols := by
    rw [List.takeWhile_append_of_pos fun c hc => symbol_of_mem c (hp.alphabet hc)]
    cases pad with
    | zero => simp
    | succ n => simp [List.replicate_succ]
  rw [base64Decode, hscan, base64Encode_base64Loop hp]

/-- **The two codecs are inverse to each other** on the texts whose length an `int` can hold. -/
theorem base64_inverse :
    (∀ bytes, (base64Encode bytes).length < 2 ^ 31 →
      base64DecodeInt (base64Encode bytes) = bytes) ∧
    ∀ s, Canonical s → s.length < 2 ^ 31 → base64Encode (base64DecodeInt s) = s := by
  constructor
  · intro bytes hlen
    rw [base64DecodeInt_eq hlen, base64Decode_base64Encode]
  · intro s hs hlen
    rw [base64DecodeInt_eq hlen, base64Encode_base64Decode hs]

/-- Four bytes, and a text with two bits unused. -/
theorem base64_inverse_samples :
    base64DecodeInt (base64Encode [0, 255, 128, 7]) = [0, 255, 128, 7] ∧
      base64Encode (base64DecodeInt (lit "R0k=")) = lit "R0k=" := by
  refine ⟨base64_inverse.1 _ (by decide), base64_inverse.2 _ ?_ (by decide)⟩
  refine ⟨lit "R0k", 1, by decide, by decide, by decide, by decide, fun c hc => ?_⟩
  rw [← Option.some.inj hc]
  decide

lemma base64DecodeInt_replicate {n : ℕ} (h : n % 2 ^ 32 = 0) (c : UInt8) :
    base64DecodeInt (List.replicate n c) = [] := by
  have hzero : Int.bmod (List.replicate n c).length (2 ^ 32) = 0 := by
    rw [List.length_replicate]
    apply Int.bmod_eq_zero_of_dvd
    omega
  rw [base64DecodeInt, hzero]
  cases n with
  | zero => rfl
  | succ n =>
    rw [List.replicate_succ]
    unfold base64Scan
    rw [if_pos (.inl rfl)]
    rfl

lemma canonical_replicate {n : ℕ} (h : n % 4 = 0) : Canonical (List.replicate n 65) := by
  refine ⟨List.replicate n 65, 0, by simp, ?_, by omega, by simpa using h, by simp [Nat.mod_one]⟩
  intro c hc
  rw [List.eq_of_mem_replicate hc]
  decide

/-- Of a text of 2^32 symbols nothing is decoded. -/
theorem base64_not_inverse :
    Canonical (List.replicate (2 ^ 32) 65) ∧
      base64Encode (base64DecodeInt (List.replicate (2 ^ 32) 65)) ≠ List.replicate (2 ^ 32) 65 := by
  refine ⟨canonical_replicate (by norm_num), ?_⟩
  rw [base64DecodeInt_replicate (by norm_num)]
  intro h
  have hlen := congrArg List.length h
  rw [List.length_replicate] at hlen
  cases hlen

end NgxMapping.Base64
