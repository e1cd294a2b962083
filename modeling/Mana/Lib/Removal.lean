import Mathlib.Data.List.Perm.Basic
import Mathlib.Data.List.Count
import Mathlib.Tactic.Common

/-! Counting in a list from which the entry at a position is taken or in which it is replaced. -/

namespace Mana.Lib

universe u v

variable {α : Type u} {β : Type v}
variable {l : List α} {i : Nat} {a : α}

theorem perm_eraseIdx (entry : l[i]? = some a) : l.Perm (a :: l.eraseIdx i) := by
  obtain ⟨inside, rfl⟩ := List.getElem?_eq_some_iff.mp entry
  exact (List.getElem_cons_eraseIdx_perm inside).symm

theorem set_perm_eraseIdx (entry : l[i]? = some a) (b : α) : (l.set i b).Perm (b :: l.eraseIdx i) := by
  obtain ⟨inside, -⟩ := List.getElem?_eq_some_iff.mp entry
  exact List.set_perm_cons_eraseIdx inside b

theorem countP_eraseIdx (entry : l[i]? = some a) (holds : α → Bool) :
    l.countP holds = (l.eraseIdx i).countP holds + if holds a then 1 else 0 := by
  rw [(perm_eraseIdx entry).countP_eq holds, List.countP_cons]

theorem countP_set (entry : l[i]? = some a) (b : α) (holds : α → Bool) :
    (l.set i b).countP holds = (l.eraseIdx i).countP holds + if holds b then 1 else 0 := by
  rw [(set_perm_eraseIdx entry b).countP_eq holds, List.countP_cons]

theorem countP_filterMap_cons (f : α → Option β) (a : α) (l : List α) (holds : β → Bool) :
    ((a :: l).filterMap f).countP holds = (l.filterMap f).countP holds + (f a).toList.countP holds := by
  rw [List.filterMap_cons]
  cases f a with
  | none => rfl
  | some b => simp [List.countP_cons]

theorem countP_filterMap_eraseIdx (entry : l[i]? = some a) (f : α → Option β) (holds : β → Bool) :
    (l.filterMap f).countP holds = ((l.eraseIdx i).filterMap f).countP holds + (f a).toList.countP holds := by
  rw [((perm_eraseIdx entry).filterMap f).countP_eq holds, countP_filterMap_cons]

theorem countP_filterMap_set (entry : l[i]? = some a) (b : α) (f : α → Option β) (holds : β → Bool) :
    ((l.set i b).filterMap f).countP holds = ((l.eraseIdx i).filterMap f).countP holds + (f b).toList.countP holds := by
  rw [((set_perm_eraseIdx entry b).filterMap f).countP_eq holds, countP_filterMap_cons]

end Mana.Lib
