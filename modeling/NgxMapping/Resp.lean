import NgxMapping.Lib.Bytes
import NgxMapping.Lib.Framing

/-!
`scripts/redis/Predis`: the wire protocol between `StreamConnection` and a Redis node.

A command is sent as an array of strings, each behind its length. The reader of the replies works
on a socket that gives up to the bytes it is asked for, as few at a time as it likes, and gives
what is left when the other side has closed.
-/

namespace NgxMapping.Resp

open Lib

def crlf : Bytes := [13, 10]

/-! ### Commands -/

structure Command where
  id : Bytes
  arguments : List Bytes
  deriving DecidableEq

def bulk (s : Bytes) : Bytes := 36 :: natStr s.length ++ crlf ++ s ++ crlf

/-- The `$buffer` of `StreamConnection::writeRequest`. -/
def buffer (c : Command) : Bytes :=
  42 :: natStr (c.arguments.length + 1) ++ crlf ++ bulk c.id ++ c.arguments.flatMap bulk

/-- `StreamConnection::write`: what gets into the stream, whether no exception is thrown, and the
results of `fwrite` that are left. A result is the number of bytes taken, or `none` for a
failure; after the last one everything is taken. -/
def write : List (Option ℕ) → Bytes → Bytes × Bool × List (Option ℕ)
  | fwrite, [] => ([], true, fwrite)
  | [], b :: bs => (b :: bs, true, [])
  | none :: fwrite, _ :: _ => ([], false, fwrite)
  | some n :: fwrite, b :: bs =>
    if n = 0 then ([], false, fwrite)
    else if (b :: bs).length ≤ n then (b :: bs, true, fwrite)
    else
      let (sent, ok, fwrite) := write fwrite ((b :: bs).drop n)
      ((b :: bs).take n ++ sent, ok, fwrite)

/-- Commands written to one connection, up to an exception. -/
def writeRequests : List (Option ℕ) → List Command → Bytes × Bool
  | _, [] => ([], true)
  | fwrite, c :: cs =>
    match write fwrite (buffer c) with
    | (sent, false, _) => (sent, false)
    | (sent, true, fwrite) => (sent ++ (writeRequests fwrite cs).1, (writeRequests fwrite cs).2)

/-! ### What a node reads -/

/-- A mark, a number, a line break. -/
def readCount (mark : UInt8) : Reader UInt8 ℕ := fun s =>
  match s with
  | [] => none
  | c :: s =>
    if c = mark then
      match s.dropWhile isdigit with
      | 13 :: 10 :: rest => some (digitLoop 0 (s.takeWhile isdigit), rest)
      | _ => none
    else none

def readExactly (n : ℕ) : Reader UInt8 Bytes := fun s =>
  if n + 2 ≤ s.length then some (s.take n, s.drop (n + 2)) else none

def readBulk : Reader UInt8 Bytes := andThen (readCount 36) readExactly

/-- The strings of an array are a command. -/
def commandOf : List Bytes → Reader UInt8 Command
  | [] => fun _ => none
  | id :: arguments => fun s => some (⟨id, arguments⟩, s)

def readRequest : Reader UInt8 Command :=
  andThen (readCount 42) fun n => andThen (times readBulk n) commandOf

lemma takeWhile_digits {n : ℕ} {rest : Bytes} (h : ∀ c ∈ rest.head?, isdigit c = false) :
    (natStr n ++ rest).takeWhile isdigit = natStr n := by
  rw [List.takeWhile_append_of_pos fun c hc => isdigit_of_mem_natStr hc]
  cases rest with
  | nil => simp
  | cons c rest => simp [h c (by simp)]

lemma dropWhile_digits {n : ℕ} {rest : Bytes} (h : ∀ c ∈ rest.head?, isdigit c = false) :
    (natStr n ++ rest).dropWhile isdigit = rest := by
  rw [List.dropWhile_append_of_pos fun c hc => isdigit_of_mem_natStr hc]
  cases rest with
  | nil => rfl
  | cons c rest => simp [h c (by simp)]

lemma readCount_natStr (mark : UInt8) (n : ℕ) (rest : Bytes) :
    readCount mark (mark :: natStr n ++ crlf ++ rest) = some (n, rest) := by
  have hcr : ∀ c ∈ (13 :: 10 :: rest).head?, isdigit c = false := by simp; decide
  have hsplit : mark :: natStr n ++ crlf ++ rest = mark :: (natStr n ++ 13 :: 10 :: rest) := by
    simp [crlf]
  have hval := digitLoop_natStr n [] (by simp)
  rw [List.append_nil] at hval
  rw [hsplit]
  simp only [readCount, if_true, dropWhile_digits hcr, takeWhile_digits hcr, hval]

lemma readCount_stable (mark : UInt8) : Stable (readCount mark) := by
  intro s a r h t
  unfold readCount at h ⊢
  rcases s with _ | ⟨c, s⟩
  · cases h
  · simp only [List.cons_append] at h ⊢
    split at h
    · rename_i hc
      split at h
      · rename_i rest hd
        -- the digits end before the line break that has been read
        have hs : s = s.takeWhile isdigit ++ 13 :: 10 :: rest := by
          rw [← hd, List.takeWhile_append_dropWhile]
        have hcr : isdigit 13 = false := by decide
        have hpos : ∀ x ∈ s.takeWhile isdigit, isdigit x = true := fun x hx =>
          List.mem_takeWhile_imp hx
        have hst : s ++ t = s.takeWhile isdigit ++ 13 :: 10 :: (rest ++ t) := by
          nth_rewrite 1 [hs]
          simp
        have hdrop : (s ++ t).dropWhile isdigit = 13 :: 10 :: (rest ++ t) := by
          rw [hst, List.dropWhile_append_of_pos hpos]
          simp [hcr]
        have htake : (s ++ t).takeWhile isdigit = s.takeWhile isdigit := by
          rw [hst, List.takeWhile_append_of_pos hpos]
          simp [hcr]
        rw [Option.some.injEq, Prod.mk.injEq] at h
        simp only [if_pos hc, hdrop, htake, h.1, h.2]
      · cases h
    · cases h

lemma readExactly_stable (n : ℕ) : Stable (readExactly n) := by
  intro s a r h t
  unfold readExactly at h ⊢
  split at h
  · rename_i hn
    rw [Option.some.injEq, Prod.mk.injEq] at h
    rw [if_pos (by rw [List.length_append]; omega), List.take_append_of_le_length (by omega),
      List.drop_append_of_le_length hn, h.1, h.2]
  · cases h

lemma readBulk_stable : Stable readBulk := (readCount_stable 36).andThen readExactly_stable

lemma readRequest_stable : Stable readRequest := by
  apply (readCount_stable 42).andThen
  intro n
  apply (readBulk_stable.times n).andThen
  intro strings s c r h t
  rcases strings with _ | ⟨id, arguments⟩
  · cases h
  · simp only [commandOf, Option.some.injEq, Prod.mk.injEq] at h ⊢
    exact ⟨h.1, by rw [h.2]⟩

lemma readBulk_inverts : Inverts readBulk bulk := by
  intro s rest
  have hsplit : bulk s ++ rest = 36 :: natStr s.length ++ crlf ++ (s ++ crlf ++ rest) := by
    simp [bulk]
  have hlen : s.length + 2 = (s ++ crlf).length := by simp [crlf]
  rw [hsplit, readBulk, andThen_eq (readCount_natStr 36 _ _), readExactly, if_pos (by simp [crlf]),
    hlen, List.drop_left, List.append_assoc, List.take_left]

lemma readRequest_inverts : Inverts readRequest buffer := by
  intro c rest
  have hsplit : buffer c ++ rest = 42 :: natStr (c.id :: c.arguments).length ++ crlf ++
      ((c.id :: c.arguments).flatMap bulk ++ rest) := by
    simp [buffer]
  rw [hsplit, readRequest, andThen_eq (readCount_natStr 42 _ _),
    andThen_eq (times_flatMap readBulk_inverts _ _), commandOf]

lemma buffer_ne_nil (c : Command) : buffer c ≠ [] := by simp [buffer]

/-! ### What is written -/

lemma write_spec (fwrite : List (Option ℕ)) (s : Bytes) :
    (write fwrite s).1 <+: s ∧ ((write fwrite s).2.1 = true → (write fwrite s).1 = s) := by
  fun_induction write fwrite s with
  | case1 => exact ⟨List.prefix_rfl, fun _ => rfl⟩
  | case2 => exact ⟨List.prefix_rfl, fun _ => rfl⟩
  | case3 => exact ⟨List.nil_prefix, by simp⟩
  | case4 => exact ⟨List.nil_prefix, by simp⟩
  | case5 => exact ⟨List.prefix_rfl, fun _ => rfl⟩
  | case6 n fwrite b bs _ _ sent ok fwrite' hw ih =>
    rw [hw] at ih
    have hsplit := List.take_append_drop n (b :: bs)
    constructor
    · nth_rewrite 2 [← hsplit]
      exact (List.prefix_append_right_inj _).mpr ih.1
    · intro hok
      have hsent : sent = (b :: bs).drop n := ih.2 hok
      change (b :: bs).take n ++ sent = b :: bs
      rw [hsent, hsplit]

/-- What gets into the stream is a part of the requests, and all of them if nothing fails. -/
lemma writeRequests_spec (fwrite : List (Option ℕ)) (cs : List Command) :
    (writeRequests fwrite cs).1 <+: cs.flatMap buffer ∧
      ((writeRequests fwrite cs).2 = true → (writeRequests fwrite cs).1 = cs.flatMap buffer) := by
  induction cs generalizing fwrite with
  | nil => exact ⟨List.prefix_rfl, fun _ => rfl⟩
  | cons c cs ih =>
    obtain ⟨hpart, hall⟩ := write_spec fwrite (buffer c)
    rw [writeRequests, List.flatMap_cons]
    rcases hw : write fwrite (buffer c) with ⟨sent, ok, fwrite'⟩
    rw [hw] at hpart hall
    cases ok with
    | false => exact ⟨hpart.trans (List.prefix_append _ _), by simp⟩
    | true =>
      rw [← hall rfl]
      constructor
      · exact (List.prefix_append_right_inj _).mpr (ih fwrite').1
      · intro hok
        change sent ++ (writeRequests fwrite' cs).1 = sent ++ cs.flatMap buffer
        rw [(ih fwrite').2 hok]

/-- **A node reads the commands that were sent, and nothing else.** Whatever `fwrite` takes at a
time, whether or where it fails and how much has arrived: the node has read the first of the
commands, and all of them once everything has arrived and nothing has failed. -/
theorem requests_arrive (fwrite : List (Option ℕ)) (cs : List Command) (arrived fuel : ℕ)
    (hf : cs.length ≤ fuel) :
    ∃ k, (drain readRequest fuel ((writeRequests fwrite cs).1.take arrived)).1 = cs.take k ∧
      ((writeRequests fwrite cs).2 = true → (writeRequests fwrite cs).1.length ≤ arrived →
        cs.take k = cs) := by
  obtain ⟨hpart, hall⟩ := writeRequests_spec fwrite cs
  -- what has arrived is a part of the requests
  have htake : (writeRequests fwrite cs).1.take arrived =
      (cs.flatMap buffer).take (min arrived (writeRequests fwrite cs).1.length) := by
    rw [← List.take_take, ← List.prefix_iff_eq_take.mp hpart]
  obtain ⟨k, r, hd, -, hk⟩ := drain_take readRequest_stable readRequest_inverts buffer_ne_nil cs
    (min arrived (writeRequests fwrite cs).1.length) fuel hf
  refine ⟨k, by rw [htake, hd], ?_⟩
  intro hok hlen
  apply hk
  rw [min_eq_right hlen, hall hok]

/-- A value that looks like a request of its own. -/
def nested : List Command :=
  [⟨lit "SET", [lit "a", buffer ⟨lit "DEL", [lit "b"]⟩]⟩, ⟨lit "GET", [lit "a"]⟩]

/-- The first bytes go out three at a time, and the last ones have not arrived. -/
theorem requests_arrive_nested :
    ∃ k, (drain readRequest 2 ((writeRequests [some 3, some 3] nested).1.take 60)).1 =
        nested.take k ∧
      ((writeRequests [some 3, some 3] nested).2 = true →
        (writeRequests [some 3, some 3] nested).1.length ≤ 60 → nested.take k = nested) :=
  requests_arrive [some 3, some 3] nested 60 2 le_rfl

/-! ### Replies -/

/-- A reply as the client has it: `StatusResponse`, `ErrorResponse`, a number, a string, `null`, an
array. -/
inductive Response
  | status (payload : Bytes)
  | error (message : Bytes)
  | integer (n : ℤ)
  | string (data : Bytes)
  | null
  | array (items : List Response)

/-- What is thrown: a `ConnectionException` or a `ProtocolException` with its message, to which
the address of the connection is added. -/
inductive Failure
  | connection (message : Bytes)
  | protocol (message : Bytes)
  deriving DecidableEq

/-- What the other side sends until it closes, and how many bytes each `fread` gives at most. -/
structure Socket where
  incoming : Bytes
  fread : List ℕ := []

/-- `fgets($socket)`: a line with its line break, or what is left. -/
def Socket.fgets (s : Socket) : Bytes × Socket :=
  let n := (s.incoming.takeWhile (· ≠ 10)).length + 1
  (s.incoming.take n, { s with incoming := s.incoming.drop n })

/-- `fread($socket, $length)`: at least a byte if there is one. -/
def Socket.read (length : ℤ) (s : Socket) : Bytes × Socket :=
  let n := max 1 (min (s.fread.headD length.toNat) length.toNat)
  if length ≤ 0 then ([], s)
  else (s.incoming.take n, ⟨s.incoming.drop n, s.fread.tail⟩)

/-- The loop of a string of `size` bytes, its line break among them. A round reads a byte. -/
def bulkLoop (size : ℤ) : ℕ → Bytes → Socket → Except Failure (Bytes × Socket)
  | 0, bulkData, s => .ok (bulkData, s)
  | fuel + 1, bulkData, s =>
    let (chunk, s) := s.read (min (size - bulkData.length) 4096)
    if chunk = [] then
      .error (.connection (lit "Error while reading bytes from the server."))
    else if size - (bulkData ++ chunk).length > 0 then bulkLoop size fuel (bulkData ++ chunk) s
    else .ok (bulkData ++ chunk, s)

/-- `substr($s, $start, -2)`. -/
def substr (start : ℕ) (s : Bytes) : Bytes := (s.take (s.length - 2)).drop start

/-- The loop of an array of `count` items. -/
def arrayLoop (read : Socket → Except Failure (Response × Socket)) :
    ℕ → Socket → Except Failure (List Response × Socket)
  | 0, s => .ok ([], s)
  | n + 1, s => do
    let (item, s) ← read s
    let (items, s) ← arrayLoop read n s
    return (item :: items, s)

/-- `StreamConnection::read`. An array goes one level down, and each level begins with a line: the
number of bytes is more levels than there can be. -/
def readLevels : ℕ → Socket → Except Failure (Response × Socket)
  | levels, s =>
    match s.fgets with
    | ([], _) => .error (.connection (lit "Error while reading line from the server."))
    | (c :: line, s) =>
      let payload := substr 1 (c :: line)
      if c = 43 then .ok (.status payload, s)
      else if c = 36 then
        let size := strtol payload
        if size = -1 then .ok (.null, s)
        else do
          let (bulkData, s) ← bulkLoop (size + 2) ((size + 2).toNat + 1) [] s
          return (.string (substr 0 bulkData), s)
      else if c = 42 then
        let count := strtol payload
        if count = -1 then .ok (.null, s)
        else
          match levels with
          | 0 => .ok (.array [], s)
          | levels + 1 => do
            let (multibulk, s) ← arrayLoop (readLevels levels) count.toNat s
            return (.array multibulk, s)
      else if c = 58 then .ok (.integer (strtol payload), s)
      else if c = 45 then .ok (.error payload, s)
      else .error (.protocol (lit "Unknown response prefix: '" ++ c :: lit "'."))

def read (s : Socket) : Except Failure (Response × Socket) := readLevels s.incoming.length s

/-! ### What a node replies -/

mutual

def encode : Response → Bytes
  | .status payload => 43 :: payload ++ crlf
  | .error message => 45 :: message ++ crlf
  | .integer n => 58 :: toStr n ++ crlf
  | .string data => bulk data
  | .null => lit "$-1" ++ crlf
  | .array items => 42 :: natStr items.length ++ crlf ++ encodeAll items

def encodeAll : List Response → Bytes
  | [] => []
  | item :: items => encode item ++ encodeAll items

end

lemma encode_ne_nil (r : Response) : encode r ≠ [] := by
  cases r <;> simp [encode, bulk, lit]

mutual

/-- A reply that can be written: one line has no line break in it, and a number has 64 bits. -/
def Response.Sendable : Response → Prop
  | .status payload => 10 ∉ payload
  | .error message => 10 ∉ message
  | .integer n => -2 ^ 63 ≤ n ∧ n < 2 ^ 63
  | .string data => data.length < 2 ^ 63
  | .null => True
  | .array items => items.length < 2 ^ 63 ∧ AllSendable items

def AllSendable : List Response → Prop
  | [] => True
  | item :: items => item.Sendable ∧ AllSendable items

end

/-! ### Reading a reply -/

lemma fgets_line (line rest : Bytes) (h : 10 ∉ line) (fread : List ℕ) :
    (Socket.mk (line ++ crlf ++ rest) fread).fgets = (line ++ crlf, ⟨rest, fread⟩) := by
  have hpos : ∀ c ∈ line ++ [13], (c ≠ 10) = true := by
    intro c hc
    rcases List.mem_append.mp hc with hc | hc
    · have : c ≠ 10 := fun he => h (he ▸ hc)
      simpa using this
    · rw [List.mem_singleton.mp hc]
      decide
  have hsplit : line ++ crlf ++ rest = (line ++ [13]) ++ 10 :: rest := by simp [crlf]
  have htake : (line ++ crlf ++ rest).takeWhile (· ≠ 10) = line ++ [13] := by
    rw [hsplit, List.takeWhile_append_of_pos (by simpa using hpos)]
    simp
  have hlen : (line ++ [13]).length + 1 = (line ++ crlf).length := by simp [crlf]
  rw [Socket.fgets]
  simp only [htake, hlen, List.take_left, List.drop_left]

lemma substr_line (c : UInt8) (payload : Bytes) : substr 1 (c :: (payload ++ crlf)) = payload := by
  have hlen : (c :: (payload ++ crlf)).length - 2 = (c :: payload).length := by simp [crlf]
  rw [substr, hlen, ← List.cons_append, List.take_left, List.drop_one, List.tail_cons]

lemma substr_data (data : Bytes) : substr 0 (data ++ crlf) = data := by
  have hlen : (data ++ crlf).length - 2 = data.length := by simp [crlf]
  rw [substr, hlen, List.take_left, List.drop_zero]

/-- However little `fread` gives at a time, the loop ends with the whole string. -/
lemma bulkLoop_spec (size : ℤ) (fuel : ℕ) (bulkData data rest : Bytes) (fread : List ℕ)
    (hsize : size = (bulkData ++ data).length) (hdata : data ≠ []) (hf : data.length ≤ fuel) :
    ∃ fread', bulkLoop size fuel bulkData ⟨data ++ rest, fread⟩ =
      .ok (bulkData ++ data, ⟨rest, fread'⟩) := by
  induction fuel generalizing bulkData data fread with
  | zero => simp_all
  | succ fuel ih =>
    have hpos : 0 < data.length := List.length_pos_iff.mpr hdata
    have hleft : size - bulkData.length = data.length := by
      rw [hsize, List.length_append]
      omega
    -- the bytes of this round
    obtain ⟨n, hn0, hn, hread⟩ : ∃ n, 0 < n ∧ n ≤ data.length ∧
        (Socket.mk (data ++ rest) fread).read (min (size - bulkData.length) 4096) =
          (data.take n, ⟨data.drop n ++ rest, fread.tail⟩) := by
      rw [hleft]
      refine ⟨max 1 (min (fread.headD (min (data.length : ℤ) 4096).toNat)
        (min (data.length : ℤ) 4096).toNat), by omega, by omega, ?_⟩
      rw [Socket.read, if_neg (by omega), List.take_append_of_le_length (by omega),
        List.drop_append_of_le_length (by omega)]
    have hchunk : data.take n ≠ [] := by
      rw [← List.length_pos_iff, List.length_take]
      omega
    have hlen : size - (bulkData ++ data.take n).length = (data.drop n).length := by
      rw [hsize, List.length_append, List.length_append, List.length_take, List.length_drop]
      omega
    rw [bulkLoop, hread]
    simp only [if_neg hchunk, hlen]
    by_cases hmore : data.drop n = []
    · have hall : data.take n = data := by
        nth_rewrite 2 [← List.take_append_drop n data]
        rw [hmore, List.append_nil]
      rw [hmore, hall]
      exact ⟨_, rfl⟩
    · have hpos' : 0 < (data.drop n).length := List.length_pos_iff.mpr hmore
      rw [if_pos (by omega)]
      obtain ⟨fread', h⟩ := ih (bulkData ++ data.take n) (data.drop n) fread.tail
        (by rw [List.append_assoc, List.take_append_drop, hsize]) hmore
        (by rw [List.length_drop]; omega)
      exact ⟨fread', by rw [h, List.append_assoc, List.take_append_drop]⟩

lemma strtol_toStr {n : ℤ} (h0 : -2 ^ 63 ≤ n) (h1 : n < 2 ^ 63) : strtol (toStr n) = n := by
  cases n with
  | ofNat k => exact strtol_natStr k (by simpa using h1)
  | negSucc k =>
    have hval := digitLoop_natStr (k + 1) [] (by simp)
    have hneg : isspace 45 = false := by decide
    rw [List.append_nil] at hval
    rw [toStr, strtol, List.dropWhile_cons_of_neg (by simp [hneg])]
    simp only [hval]
    omega

lemma lf_notMem_natStr (n : ℕ) : (10 : UInt8) ∉ natStr n := fun h =>
  absurd (isdigit_of_mem_natStr h) (by decide)

lemma lf_notMem_toStr (n : ℤ) : (10 : UInt8) ∉ toStr n := by
  intro h
  rcases mem_toStr h with h | h
  · exact absurd h (by decide)
  · exact absurd h (by decide)

mutual

lemma readLevels_encode : ∀ r : Response, r.Sendable → ∀ (levels : ℕ) (rest : Bytes)
    (fread : List ℕ), (encode r ++ rest).length ≤ levels →
    ∃ fread', readLevels levels ⟨encode r ++ rest, fread⟩ = .ok (r, ⟨rest, fread'⟩)
  | .status payload, h, levels, rest, fread, _ => by
    have hl := fgets_line (43 :: payload) rest (by simpa [Response.Sendable] using h) fread
    refine ⟨fread, ?_⟩
    unfold readLevels
    rw [encode, hl]
    simp [substr_line]
  | .error message, h, levels, rest, fread, _ => by
    have hl := fgets_line (45 :: message) rest (by simpa [Response.Sendable] using h) fread
    refine ⟨fread, ?_⟩
    unfold readLevels
    rw [encode, hl]
    simp [substr_line]
  | .integer n, h, levels, rest, fread, _ => by
    have hl := fgets_line (58 :: toStr n) rest (by simpa using lf_notMem_toStr n) fread
    refine ⟨fread, ?_⟩
    unfold readLevels
    rw [encode, hl]
    simp [substr_line, strtol_toStr h.1 h.2]
  | .null, _, levels, rest, fread, _ => by
    have hl := fgets_line (lit "$-1") rest (by decide) fread
    refine ⟨fread, ?_⟩
    unfold readLevels
    rw [encode, hl]
    rfl
  | .string data, h, levels, rest, fread, _ => by
    have hsize : strtol (natStr data.length) = data.length := strtol_natStr _ h
    have hl := fgets_line (36 :: natStr data.length) (data ++ crlf ++ rest)
      (by simpa using lf_notMem_natStr _) fread
    obtain ⟨fread', hb⟩ := bulkLoop_spec (data.length + 2) (((data.length : ℤ) + 2).toNat + 1) []
      (data ++ crlf) rest fread (by simp [crlf]) (by simp [crlf])
      (by rw [List.length_append]; simp only [crlf, List.length_cons, List.length_nil]; omega)
    have hsplit : encode (.string data) ++ rest =
        36 :: natStr data.length ++ crlf ++ (data ++ crlf ++ rest) := by
      simp [encode, bulk]
    refine ⟨fread', ?_⟩
    unfold readLevels
    rw [hsplit, hl]
    simp only [List.cons_append, substr_line, hsize]
    rw [if_neg (by decide), if_pos trivial, if_neg (by omega), hb]
    change Except.ok (Response.string (substr 0 ([] ++ (data ++ crlf))), _) = _
    rw [List.nil_append, substr_data]
  | .array items, h, levels, rest, fread, hlen => by
    have hcount : strtol (natStr items.length) = items.length := strtol_natStr _ h.1
    have hl := fgets_line (42 :: natStr items.length) (encodeAll items ++ rest)
      (by simpa using lf_notMem_natStr _) fread
    have hsplit : encode (.array items) ++ rest =
        42 :: natStr items.length ++ crlf ++ (encodeAll items ++ rest) := by
      simp [encode]
    -- the line of the array is a level
    obtain ⟨levels, rfl⟩ : ∃ m, levels = m + 1 := by
      refine ⟨levels - 1, ?_⟩
      rw [hsplit] at hlen
      simp only [List.cons_append, List.length_cons] at hlen
      omega
    have hlen' : (encodeAll items ++ rest).length ≤ levels := by
      rw [hsplit, List.length_append] at hlen
      simp only [List.cons_append, List.length_cons] at hlen
      omega
    obtain ⟨fread', ha⟩ := arrayLoop_encode items h.2 levels rest fread hlen'
    refine ⟨fread', ?_⟩
    unfold readLevels
    rw [hsplit, hl]
    simp only [List.cons_append, substr_line, hcount]
    rw [if_neg (by decide), if_neg (by decide), if_pos trivial, if_neg (by omega),
      Int.toNat_natCast, ha]
    rfl

lemma arrayLoop_encode : ∀ items : List Response, AllSendable items → ∀ (levels : ℕ)
    (rest : Bytes) (fread : List ℕ), (encodeAll items ++ rest).length ≤ levels →
    ∃ fread', arrayLoop (readLevels levels) items.length ⟨encodeAll items ++ rest, fread⟩ =
      .ok (items, ⟨rest, fread'⟩)
  | [], _, levels, rest, fread, _ => ⟨fread, rfl⟩
  | item :: items, h, levels, rest, fread, hlen => by
    rw [encodeAll, List.append_assoc] at hlen
    obtain ⟨fread', hi⟩ := readLevels_encode item h.1 levels (encodeAll items ++ rest) fread hlen
    obtain ⟨fread'', ha⟩ := arrayLoop_encode items h.2 levels rest fread'
      (by rw [List.length_append] at hlen; omega)
    refine ⟨fread'', ?_⟩
    rw [List.length_cons, arrayLoop, encodeAll, List.append_assoc, hi]
    change (arrayLoop (readLevels levels) items.length _ >>= _) = _
    rw [ha]
    rfl

end

/-- **A reply is read as it was written**, however deep its arrays are and however little `fread`
gives at a time, and what follows it is left for the next reply. -/
theorem read_encode (r : Response) (h : r.Sendable) (rest : Bytes) (fread : List ℕ) :
    ∃ fread', read ⟨encode r ++ rest, fread⟩ = .ok (r, ⟨rest, fread'⟩) :=
  readLevels_encode r h _ rest fread le_rfl

/-- The row of `CLUSTER SLOTS` for the first slots, a byte at a time. -/
theorem read_encode_row :
    (Response.array [.integer 0, .integer 545,
      .array [.string (lit "10.163.3.30"), .integer 6379]]).Sendable ∧
    ∃ fread', read ⟨encode (.array [.integer 0, .integer 545,
        .array [.string (lit "10.163.3.30"), .integer 6379]]) ++ lit "+OK", List.replicate 9 1⟩ =
      .ok (.array [.integer 0, .integer 545,
        .array [.string (lit "10.163.3.30"), .integer 6379]], ⟨lit "+OK", fread'⟩) := by
  have h : (Response.array [.integer 0, .integer 545,
      .array [.string (lit "10.163.3.30"), .integer 6379]]).Sendable := by
    simp [Response.Sendable, AllSendable, lit]
  exact ⟨h, read_encode _ h _ _⟩

/-- A line that breaks off is taken for a whole one: here a 12 for a 1. -/
example : read ⟨lit ":12" ++ [13], []⟩ = .ok (.integer 1, ⟨[], []⟩) := rfl

end NgxMapping.Resp
