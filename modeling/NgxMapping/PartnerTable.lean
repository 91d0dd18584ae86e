import NgxMapping.Lib.Bytes
import NgxMapping.Lib.UMap

/-!
`model/partner.h`: the partners a worker knows.

`syncPartners` only ever stores under the keys `Mapping_0` to `Mapping_100`, so a table is a
map together with that fact.
-/

namespace NgxMapping.PartnerTable

open Lib

def MAPPING_KEY : Bytes := lit "Mapping_"

def maxPartnerId : ℕ := 100

/-- `model::partner`. The field `open` carries an underscore because of the keyword. -/
structure Partner where
  open_ : ℤ
  type : ℤ
  muid : Bytes := []
  weight : UMap ℤ ℤ := UMap.empty
  expires : UMap ℤ ℤ := UMap.empty
  url : UMap ℤ Bytes := UMap.empty
  self : Bytes := []
  uid : Bytes := []

/-- `model::partners`. -/
structure Partners where
  map : UMap Bytes Partner
  keyed : ∀ k ∈ map.keys, ∃ i ≤ maxPartnerId, k = MAPPING_KEY ++ natStr i

/-- `partners.find(MAPPING_KEY + id)`. -/
def Partners.lookup (P : Partners) (id : Bytes) : Option Partner := P.map.find (MAPPING_KEY ++ id)

lemma Partners.lookup_some {P : Partners} {id : Bytes} {p : Partner} (h : P.lookup id = some p) :
    ∃ i ≤ maxPartnerId, id = natStr i := by
  obtain ⟨i, hi, he⟩ := P.keyed _ (UMap.mem_keys_iff.mpr ⟨p, h⟩)
  exact ⟨i, hi, List.append_cancel_left he⟩

lemma Partners.toStr_atoi {P : Partners} {id : Bytes} {p : Partner} (h : P.lookup id = some p) :
    toStr (atoi id) = id := by
  obtain ⟨i, hi, rfl⟩ := Partners.lookup_some h
  unfold maxPartnerId at hi
  rw [atoi_natStr_of_lt i (by omega), toStr_natCast]

/-- A table from the entries of the numbers listed. -/
def Partners.ofList (l : List (ℕ × Partner)) (hn : (l.map Prod.fst).Nodup)
    (hl : ∀ e ∈ l, e.1 ≤ maxPartnerId) : Partners where
  map := ⟨l.map fun e => (MAPPING_KEY ++ natStr e.1, e.2), by
    rw [List.map_map]
    have := hn.map (f := fun i => MAPPING_KEY ++ natStr i)
      fun i j h => natStr_injective (List.append_cancel_left h)
    rwa [List.map_map] at this⟩
  keyed := by
    intro k hk
    simp only [UMap.keys, List.map_map, List.mem_map, Function.comp_apply] at hk
    obtain ⟨e, he, rfl⟩ := hk
    exact ⟨e.1, hl e he, rfl⟩

lemma Partners.lookup_ofList {l : List (ℕ × Partner)} {hn : (l.map Prod.fst).Nodup}
    {hl : ∀ e ∈ l, e.1 ≤ maxPartnerId} {i : ℕ} {p : Partner} (h : (i, p) ∈ l) :
    (Partners.ofList l hn hl).lookup (natStr i) = some p :=
  UMap.find_eq_some_iff.mpr (List.mem_map.mpr ⟨(i, p), h, rfl⟩)

end NgxMapping.PartnerTable
