import Mathlib.Data.List.AList

/-! Finite maps as association lists with distinct keys: the loops over all the
entries of a map, and what they do to a lookup. -/

namespace Mana.Lib

universe u v

abbrev Assoc (κ : Type u) (ν : Type v) := AList (fun _ : κ => ν)

namespace Assoc

variable {κ : Type u} {ν : Type v} [DecidableEq κ]

def mapVal (f : κ → ν → ν) (m : Assoc κ ν) : Assoc κ ν where
  entries := m.entries.map (fun e => ⟨e.1, f e.1 e.2⟩)
  nodupKeys := by
    have keys : (m.entries.map (fun e => (⟨e.1, f e.1 e.2⟩ : Sigma (fun _ : κ => ν)))).keys = m.entries.keys := by
      simp only [List.keys, List.map_map]
      rfl
    rw [List.NodupKeys, keys]
    exact m.nodupKeys

@[simp] theorem lookup_mapVal (f : κ → ν → ν) (m : Assoc κ ν) (k : κ) :
    (m.mapVal f).lookup k = (m.lookup k).map (f k) := by
  exact List.dlookup_map₂ k

theorem mem_mapVal (f : κ → ν → ν) (m : Assoc κ ν) (k : κ) : k ∈ m.mapVal f ↔ k ∈ m := by
  rw [← AList.lookup_isSome, ← AList.lookup_isSome, lookup_mapVal, Option.isSome_map]

variable {m : Assoc κ ν} {k : κ} {value : ν}

theorem lookup_of_mem_entries (present : (⟨k, value⟩ : Sigma (fun _ : κ => ν)) ∈ m.entries) : m.lookup k = some value :=
  AList.mem_lookup_iff.mpr present

theorem mem_entries_of_lookup (found : m.lookup k = some value) : (⟨k, value⟩ : Sigma (fun _ : κ => ν)) ∈ m.entries :=
  AList.mem_lookup_iff.mp found

theorem mem_of_lookup (found : m.lookup k = some value) : k ∈ m := by
  rw [← AList.lookup_isSome, found]
  rfl

theorem all_entries (m : Assoc κ ν) (test : κ → ν → Bool) :
    m.entries.all (fun e => test e.1 e.2) = true ↔ ∀ k value, m.lookup k = some value → test k value = true := by
  rw [List.all_eq_true]
  constructor
  · intro every k value found
    exact every _ (mem_entries_of_lookup found)
  · intro every e present
    exact every e.1 e.2 (lookup_of_mem_entries present)

theorem lookup_insert_eq (m : Assoc κ ν) (k k' : κ) (value : ν) :
    (m.insert k' value).lookup k = if k = k' then some value else m.lookup k := by
  split
  · next same =>
    subst same
    exact AList.lookup_insert m
  · next other => exact AList.lookup_insert_ne other

theorem lookup_erase_eq (m : Assoc κ ν) (k k' : κ) :
    (m.erase k').lookup k = if k = k' then none else m.lookup k := by
  split
  · next same =>
    subst same
    exact AList.lookup_erase k m
  · next other => exact AList.lookup_erase_ne other

theorem lookup_insert_cases {m : Assoc κ ν} {k k' : κ} {value value' : ν}
    (found : (m.insert k' value').lookup k = some value) :
    k = k' ∧ value = value' ∨ k ≠ k' ∧ m.lookup k = some value := by
  rw [lookup_insert_eq] at found
  split at found
  · next same => exact .inl ⟨same, (Option.some.inj found).symm⟩
  · next other => exact .inr ⟨other, found⟩

theorem lookup_of_erase {m : Assoc κ ν} {k k' : κ} {value : ν} (found : (m.erase k').lookup k = some value) :
    k ≠ k' ∧ m.lookup k = some value := by
  rw [lookup_erase_eq] at found
  split at found
  · cases found
  · next other => exact ⟨other, found⟩

end Assoc

end Mana.Lib
