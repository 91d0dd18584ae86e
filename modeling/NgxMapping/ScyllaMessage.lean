import NgxMapping.Answer

/-!
The way of a pair from the handler to the subscriber.

The handler writes the code, the identifier and the user id with `", "` between them;
`scylla_consumer` receives the message into a zeroed buffer and relays what a zero-terminated
string shows of it; `subscriber.php` splits the relayed text and takes the first three parts.
-/

namespace NgxMapping.ScyllaMessage

open Lib MappingModel Answer

/-- The buffer of `scylla_consumer` and of `log_consumer`. -/
def bufferSize : ℕ := 1024

/-- `std::string msg(buffer)` after `receive` into a zeroed buffer. -/
def relay (msg : Bytes) : Bytes := cstr (msg ++ List.replicate (bufferSize - msg.length) 0)

/-- `list($ext, $rmid, $uid) = explode(", ", $content)`. -/
def splitContent (content : Bytes) : Option Bytes × Option Bytes × Option Bytes :=
  let parts := explode (lit ", ") content
  (parts[0]?, parts[1]?, parts[2]?)

lemma relay_eq (msg : Bytes) : relay msg = cstr msg := by
  unfold relay cstr
  generalize bufferSize - msg.length = n
  induction msg with
  | nil => cases n <;> simp
  | cons c s ih => by_cases h : c = 0 <;> simp_all

lemma zero_not_mem_relay (msg : Bytes) : (0 : UInt8) ∉ relay msg := by
  intro h
  rw [relay_eq] at h
  simpa using List.mem_takeWhile_imp h

lemma mem_of_mem_explode {sep s p : Bytes} {c : UInt8} (hp : p ∈ explode sep s) (hc : c ∈ p) :
    c ∈ s := by
  have key : ∀ (s : Bytes) (k : ℕ), ∀ p ∈ cut (scan (word sep) k s), p ⊆ s := by
    intro s
    induction s with
    | nil => intro k p hp; cases k <;> simp_all [scan, cut]
    | cons c s ih =>
      intro k p hp
      cases k with
      | succ k => exact List.subset_cons_of_subset c (ih k p (by rwa [scan] at hp))
      | zero =>
        rw [scan] at hp
        split at hp
        · obtain ⟨q, qs, hq⟩ := List.exists_cons_of_ne_nil (cut_ne_nil (scan (word sep) 0 s))
          rw [cut, hq] at hp
          rcases List.mem_cons.mp hp with rfl | hp
          · exact List.cons_subset_cons c (ih 0 q (by simp [hq]))
          · exact List.subset_cons_of_subset c (ih 0 p (by simp [hq, hp]))
        · rename_i j _
          rcases List.mem_cons.mp hp with rfl | hp
          · exact List.nil_subset _
          · exact List.subset_cons_of_subset c (ih j p hp)
  exact key s 0 p hp hc

/-- A field that comes through: neither the separator nor a zero byte in it. -/
structure Field (s : Bytes) : Prop where
  sep : ¬ lit ", " <:+: s
  zero : (0 : UInt8) ∉ s

lemma field_toStr (n : ℤ) : Field (toStr n) where
  sep := by
    intro h
    rcases mem_toStr (h.subset (show (44 : UInt8) ∈ lit ", " by decide)) with hc | hc
    · exact absurd hc (by decide)
    · exact absurd hc (by decide)
  zero := by
    intro h
    rcases mem_toStr h with hc | hc
    · exact absurd hc (by decide)
    · exact absurd hc (by decide)

lemma field_of_mem {msg p : Bytes} (h : p ∈ explode (lit ", ") (relay msg)) : Field p where
  sep := not_infix_of_mem_explode (by decide) h
  zero := fun h0 => zero_not_mem_relay msg (mem_of_mem_explode h h0)

lemma splitContent_relay {a b c : Bytes} (ha : Field a) (hb : Field b) (hc : Field c) :
    splitContent (relay (a ++ lit ", " ++ b ++ lit ", " ++ c)) = (some a, some b, some c) := by
  have hs : lit ", " = [44, 32] := by decide
  have hz : (0 : UInt8) ∉ a ++ lit ", " ++ b ++ lit ", " ++ c := by
    simp [ha.zero, hb.zero, hc.zero, hs]
  have hparts : explode (lit ", ") (a ++ lit ", " ++ b ++ lit ", " ++ c) = [a, b, c] := by
    have ha := ha.sep
    have hb := hb.sep
    have hc := hc.sep
    rw [hs] at ha hb hc ⊢
    rw [show a ++ [44, 32] ++ b ++ [44, 32] ++ c = a ++ [44, 32] ++ (b ++ [44, 32] ++ c) by simp,
      explode_append (by decide) ha, explode_append (by decide) hb, explode_self hc]
  rw [relay_eq, cstr_eq_self hz, splitContent, hparts]
  rfl

lemma mem_scylla_logSave {E : Env} {o : Mapping} {rUrl msg : Bytes}
    (h : msg ∈ (logSave E o rUrl).scylla) : msg = scyllaMsg o.ext o.rmid o.uid := by
  simp only [logSave, send] at h
  split at h
  · split at h
    · exact List.mem_singleton.mp h
    · simp at h
  · simp at h

/-- **A pair comes through exactly when neither of its fields holds the separator or a zero
byte.** -/
theorem scylla_round_trip_iff (E : Env) (o : Mapping) (rUrl : Bytes) :
    ∀ msg ∈ (logSave E o rUrl).scylla,
      (splitContent (relay msg) = (some (toStr o.ext), some o.rmid, some o.uid) ↔
        (¬ lit ", " <:+: o.rmid ∧ (0 : UInt8) ∉ o.rmid) ∧
          (¬ lit ", " <:+: o.uid ∧ (0 : UInt8) ∉ o.uid)) := by
  intro msg hmsg
  obtain rfl := mem_scylla_logSave hmsg
  constructor
  · intro h
    simp only [splitContent, Prod.mk.injEq] at h
    have hr := field_of_mem (List.mem_of_getElem? h.2.1)
    have hu := field_of_mem (List.mem_of_getElem? h.2.2)
    exact ⟨⟨hr.sep, hr.zero⟩, ⟨hu.sep, hu.zero⟩⟩
  · rintro ⟨⟨hr1, hr2⟩, hu1, hu2⟩
    exact splitContent_relay (field_toStr o.ext) ⟨hr1, hr2⟩ ⟨hu1, hu2⟩

def visitor : Mapping where
  request := { partner := { open_ := 1, type := 1 } }
  ext := 3
  rmid := lit "6fh7lUjA2X"
  uid := lit "q7,1"

theorem scylla_round_trip_iqiyi :
    (logSave (.still 1500000000) visitor []).scylla ≠ [] ∧
    ∀ msg ∈ (logSave (.still 1500000000) visitor []).scylla,
      splitContent (relay msg) = (some (lit "3"), some (lit "6fh7lUjA2X"), some (lit "q7,1")) :=
  ⟨by decide +kernel, fun msg hmsg => (scylla_round_trip_iff _ _ _ msg hmsg).mpr (by decide)⟩

/-- A user id with the separator in it loses its end on the way. -/
theorem scylla_round_trip_cut :
    ∃ msg, (serve (.still 1500000000)
        (.ofList [(3, { open_ := 1, type := 1, uid := lit "qiyi_uid" })] (by decide) (by decide))
        ⟨[(lit "Cookie", lit "a=6fh7lUjA2X")], by decide⟩
        (lit "/r.gif?ext=a&qiyi_uid=a,%20b")).queues.scylla = [msg] ∧
      msg = scyllaMsg 3 (lit "6fh7lUjA2X") (lit "a, b") ∧
      splitContent (relay msg) = (some (lit "3"), some (lit "6fh7lUjA2X"), some (lit "a")) :=
  ⟨_, by decide +kernel, rfl, by decide +kernel⟩

end NgxMapping.ScyllaMessage
