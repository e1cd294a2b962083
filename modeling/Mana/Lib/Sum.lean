import Mathlib.Algebra.BigOperators.Group.Finset.Basic
import Mathlib.Data.Fintype.BigOperators

/-! Sums over a finite index type of which one entry changes. -/

namespace Mana.Lib
open Function

universe u v

variable {ι : Type u} {α : Type v} [Fintype ι] [DecidableEq ι]

theorem sum_add_of_eq_elsewhere {f g : ι → Nat} (i : ι) (elsewhere : ∀ x, x ≠ i → f x = g x) :
    (∑ x, f x) + g i = (∑ x, g x) + f i := by
  have others : ∑ x ∈ Finset.univ.erase i, f x = ∑ x ∈ Finset.univ.erase i, g x :=
    Finset.sum_congr rfl fun x member => elsewhere x (Finset.ne_of_mem_erase member)
  rw [← Finset.add_sum_erase _ f (Finset.mem_univ i), ← Finset.add_sum_erase _ g (Finset.mem_univ i), others]
  omega

theorem sum_update_add (f : α → Nat) (g : ι → α) (i : ι) (a : α) :
    (∑ x, f (update g i a x)) + f (g i) = (∑ x, f (g x)) + f a := by
  have sum := sum_add_of_eq_elsewhere (f := fun x => f (update g i a x)) (g := fun x => f (g x)) i
    fun x other => by simp only [update_of_ne other]
  simpa only [update_self] using sum

variable {f : α → Nat} {g : ι → α} {i : ι} {a : α}

theorem sum_update_eq (same : f a = f (g i)) : ∑ x, f (update g i a x) = ∑ x, f (g x) := by
  have := sum_update_add f g i a
  omega

theorem sum_update_le (more : f (g i) ≤ f a) : ∑ x, f (g x) ≤ ∑ x, f (update g i a x) := by
  have := sum_update_add f g i a
  omega

end Mana.Lib
