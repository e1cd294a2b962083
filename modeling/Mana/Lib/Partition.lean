import Mathlib.Data.List.Pairwise
import Mathlib.Data.List.Basic

/-! The binary search for the first entry of a list from which on a test fails. -/

namespace Mana.Lib

universe u

variable {α : Type u} {before : α → Bool} {l : List α}

/-- The loop of `std::partition_point` over `len` entries from `first` on. Each turn leaves at most half of them. -/
def partitionLoop (before : α → Bool) (l : List α) : Nat → Nat → Nat → Nat
  | 0, first, _ => first
  | fuel + 1, first, len =>
    if len = 0 then first
    else if (l[first + len / 2]?).any before then
      partitionLoop before l fuel (first + len / 2 + 1) (len - len / 2 - 1)
    else partitionLoop before l fuel first (len / 2)

def partitionPoint (before : α → Bool) (l : List α) : Nat := partitionLoop before l l.length 0 l.length

/-- The entries in front of the interval pass the test, those behind it do not. -/
structure Splits (before : α → Bool) (l : List α) (first len : Nat) : Prop where
  inside : first + len ≤ l.length
  left : ∀ (i : Nat) (a : α), l[i]? = some a → i < first → before a = true
  right : ∀ (i : Nat) (a : α), l[i]? = some a → first + len ≤ i → before a = false

theorem partitionLoop_splits (sorted : l.Pairwise fun a b => before b = true → before a = true) {fuel first len : Nat}
    (splits : Splits before l first len) (enough : len ≤ fuel) :
    Splits before l (partitionLoop before l fuel first len) 0 := by
  have monotone : ∀ (i j : Nat) (a b : α), l[i]? = some a → l[j]? = some b → i ≤ j → before b = true → before a = true := by
    intro i j a b atI atJ le passes
    obtain less | rfl := Nat.lt_or_eq_of_le le
    · obtain ⟨inI, rfl⟩ := List.getElem?_eq_some_iff.mp atI
      obtain ⟨inJ, rfl⟩ := List.getElem?_eq_some_iff.mp atJ
      exact List.pairwise_iff_getElem.mp sorted i j inI inJ less passes
    · rw [atI] at atJ
      cases atJ
      exact passes
  induction fuel generalizing first len with
  | zero =>
    obtain rfl := Nat.le_zero.mp enough
    exact splits
  | succ fuel ih =>
    rw [partitionLoop]
    by_cases empty : len = 0
    · rw [if_pos empty]
      exact empty ▸ splits
    · have middle : first + len / 2 < l.length := by
        have := splits.inside
        omega
      rw [if_neg empty, List.getElem?_eq_getElem middle, Option.any_some]
      have atMiddle := List.getElem?_eq_getElem middle
      by_cases passes : before l[first + len / 2] = true
      · rw [if_pos passes]
        refine ih ⟨?_, fun i a atI less => ?_, fun i a atI greater => ?_⟩ (by omega)
        · have := splits.inside
          omega
        · exact monotone i _ a _ atI atMiddle (Nat.lt_succ_iff.mp less) passes
        · exact splits.right i a atI (by omega)
      · rw [if_neg passes]
        refine ih ⟨Nat.le_of_lt middle, splits.left, fun i a atI greater => ?_⟩ (by omega)
        exact Bool.eq_false_iff.mpr fun also => passes (monotone _ i _ a atMiddle atI greater also)

theorem getElem?_partitionPoint (sorted : l.Pairwise fun a b => before b = true → before a = true) :
    l[partitionPoint before l]? = l.find? fun a => !before a := by
  have start : Splits before l 0 l.length := by
    refine ⟨Nat.le_of_eq (Nat.zero_add _), nofun, fun i a atI beyond => ?_⟩
    have := (List.getElem?_eq_some_iff.mp atI).1
    omega
  obtain ⟨-, left, right⟩ := partitionLoop_splits sorted start (Nat.le_refl _)
  change l[partitionLoop before l l.length 0 l.length]? = _
  cases found : l.find? fun a => !before a with
  | none =>
    cases here : l[partitionLoop before l l.length 0 l.length]? with
    | none => rfl
    | some a =>
      have fails := right _ a here (Nat.le_refl _)
      have passes := List.find?_eq_none.mp found a (List.mem_of_getElem? here)
      simp [fails] at passes
  | some a =>
    obtain ⟨fails, i, inside, atI, earlier⟩ := List.find?_eq_some_iff_getElem.mp found
    rw [Bool.not_eq_true'] at fails
    obtain less | same | greater := Nat.lt_trichotomy i (partitionLoop before l l.length 0 l.length)
    · have passes := left i a (List.getElem?_eq_some_iff.mpr ⟨inside, atI⟩) less
      rw [fails] at passes
      cases passes
    · rw [← same]
      exact List.getElem?_eq_some_iff.mpr ⟨inside, atI⟩
    · have here := List.getElem?_eq_getElem (Nat.lt_trans greater inside)
      have fails := right _ _ here (Nat.le_refl _)
      have passes := earlier _ greater
      rw [fails] at passes
      cases passes

end Mana.Lib
