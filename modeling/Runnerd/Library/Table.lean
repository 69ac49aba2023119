import Mathlib.Data.List.AList

/-!
# Finite maps

A `Table κ ν` maps finitely many keys to values: an association list without duplicate keys, with
the lookup, insertion and erasure of a hash map. Every fact about it is a fact about `find`.
-/

/-- A finite map from `κ` to `ν`. -/
abbrev Table (κ ν : Type) : Type := AList (fun _ : κ => ν)

namespace Table

variable {κ ν : Type} [DecidableEq κ]

/-- The value at a key. -/
def find (m : Table κ ν) (k : κ) : Option ν := AList.lookup k m

/-- The map with `v` at `k`, whatever was there. -/
def set (m : Table κ ν) (k : κ) (v : ν) : Table κ ν := AList.insert k v m

/-- The map without `k`. -/
def del (m : Table κ ν) (k : κ) : Table κ ν := AList.erase k m

@[simp] theorem find_empty (k : κ) : find (∅ : Table κ ν) k = none := AList.lookup_empty k

@[simp] theorem find_set_self (m : Table κ ν) (k : κ) (v : ν) : (m.set k v).find k = some v :=
  AList.lookup_insert m

theorem find_set_of_ne (m : Table κ ν) {k k' : κ} (v : ν) (h : k' ≠ k) :
    (m.set k v).find k' = m.find k' := AList.lookup_insert_ne h

theorem find_set (m : Table κ ν) (k k' : κ) (v : ν) :
    (m.set k v).find k' = if k' = k then some v else m.find k' := by
  split_ifs with h
  · rw [h, find_set_self]
  · exact find_set_of_ne m v h

@[simp] theorem find_del_self (m : Table κ ν) (k : κ) : (m.del k).find k = none :=
  AList.lookup_erase k m

theorem find_del_of_ne (m : Table κ ν) {k k' : κ} (h : k' ≠ k) :
    (m.del k).find k' = m.find k' := AList.lookup_erase_ne h

theorem find_del (m : Table κ ν) (k k' : κ) :
    (m.del k).find k' = if k' = k then none else m.find k' := by
  split_ifs with h
  · rw [h, find_del_self]
  · exact find_del_of_ne m h

theorem set_set (m : Table κ ν) (k : κ) (v v' : ν) : (m.set k v).set k v' = m.set k v' :=
  AList.insert_insert m

theorem del_set (m : Table κ ν) (k : κ) (v : ν) : (m.set k v).del k = m.del k := by
  apply AList.ext
  show List.kerase k (⟨k, v⟩ :: List.kerase k m.entries) = List.kerase k m.entries
  exact List.kerase_cons_eq rfl

/-- Erasing a key that is not there. -/
theorem del_of_find_eq_none {m : Table κ ν} {k : κ} (h : m.find k = none) : m.del k = m := by
  apply AList.ext
  refine List.kerase_of_notMem_keys fun hk => ?_
  obtain ⟨v, hv⟩ := Option.isSome_iff_exists.mp (AList.lookup_isSome.mpr (AList.mem_keys.mpr hk))
  rw [show m.find k = some v from hv] at h
  cases h

theorem mem_keys_iff (m : Table κ ν) (k : κ) : k ∈ m.keys ↔ ∃ v, m.find k = some v := by
  rw [← AList.mem_keys, ← AList.lookup_isSome, Option.isSome_iff_exists]
  rfl

theorem mem_entries_iff (m : Table κ ν) (k : κ) (v : ν) :
    (⟨k, v⟩ : Sigma fun _ : κ => ν) ∈ m.entries ↔ m.find k = some v :=
  (AList.mem_lookup_iff).symm

end Table
