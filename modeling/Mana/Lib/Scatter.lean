import Mathlib.Data.List.Nodup
import Mathlib.Logic.Function.Basic
import Mathlib.Tactic.Common

/-! Writing a list of values at a list of addresses of a memory. The values that
remain when the addresses run out are dropped. -/

namespace Mana.Lib
open Function

universe u v

variable {κ : Type u} {β : Type v} [DecidableEq κ]

def scatter : List κ → List β → (κ → β) → (κ → β)
  | p :: ps, b :: bs, mem => scatter ps bs (update mem p b)
  | _, _, mem => mem

variable {positions : List κ} {data : List β} {mem : κ → β} {a : κ} {k : Nat} {b : β}

theorem scatter_of_notMem (outside : a ∉ positions.take data.length) : scatter positions data mem a = mem a := by
  induction positions generalizing data mem with
  | nil => rfl
  | cons p ps ih =>
    cases data with
    | nil => rfl
    | cons b bs =>
      simp only [List.length_cons, List.take_succ_cons, List.mem_cons, not_or] at outside
      rw [scatter, ih outside.2, update_of_ne outside.1]

theorem scatter_replicate_of_mem (covered : a ∈ positions.take k) :
    scatter positions (List.replicate k b) mem a = b := by
  induction positions generalizing k mem with
  | nil => simp at covered
  | cons p ps ih =>
    cases k with
    | zero => simp at covered
    | succ k =>
      rw [List.replicate_succ, scatter]
      by_cases later : a ∈ ps.take k
      · exact ih later
      · have first : a = p := by simpa [later] using covered
        rw [scatter_of_notMem (by rwa [List.length_replicate]), first, update_self]

theorem scatter_getElem? (distinct : positions.Nodup) {i : Nat} (position : positions[i]? = some a)
    (value : data[i]? = some b) : scatter positions data mem a = b := by
  induction positions generalizing data mem i with
  | nil => cases position
  | cons p ps ih =>
    cases data with
    | nil => cases value
    | cons first bs =>
      rw [List.nodup_cons] at distinct
      cases i with
      | zero =>
        cases position
        cases value
        rw [scatter, scatter_of_notMem fun later => distinct.1 (List.mem_of_mem_take later), update_self]
      | succ i => exact ih distinct.2 position value

omit [DecidableEq κ] in
/-- In a list without repetitions, the entries among the first `k` that are not among the
first `l` are those at the indices from `l` to `k`. -/
theorem mem_take_and_notMem_take (distinct : positions.Nodup) {l : Nat} :
    a ∈ positions.take k ∧ a ∉ positions.take l ↔ ∃ j, l ≤ j ∧ j < k ∧ positions[j]? = some a := by
  simp only [List.mem_take_iff_getElem, Nat.lt_min, not_exists]
  constructor
  · rintro ⟨⟨j, ⟨below, inside⟩, rfl⟩, late⟩
    refine ⟨j, Nat.le_of_not_lt fun early => late j ⟨early, inside⟩ rfl, below, ?_⟩
    exact List.getElem?_eq_getElem inside
  · rintro ⟨j, late, below, entry⟩
    obtain ⟨inside, rfl⟩ := List.getElem?_eq_some_iff.mp entry
    refine ⟨⟨j, ⟨below, inside⟩, rfl⟩, ?_⟩
    rintro i ⟨early, inRange⟩ same
    have := (distinct.getElem_inj_iff).mp same
    omega

end Mana.Lib
