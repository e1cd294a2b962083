import Mathlib.Data.Option.Basic
import Mathlib.Data.List.Basic

/-! Loops over a list whose body may fail, with an invariant that speaks of the part of the
list that is done. -/

namespace Mana.Lib

universe u v

variable {σ : Type u} {α : Type v} {step step' : σ → α → Option σ} {holds : List α → σ → Prop}

theorem foldlM_holds {first last : σ} (done todo : List α) (start : holds done first)
    (each : ∀ before a after s s', done ++ todo = before ++ a :: after → holds before s → step s a = some s' →
      holds (before ++ [a]) s')
    (ran : todo.foldlM step first = some last) : holds (done ++ todo) last := by
  induction todo generalizing done first with
  | nil =>
    cases ran
    exact (List.append_nil done).symm ▸ start
  | cons a rest ih =>
    rw [List.foldlM_cons] at ran
    obtain ⟨s, taken, ran⟩ := Option.bind_eq_some_iff.mp ran
    have split : done ++ a :: rest = done ++ [a] ++ rest := (List.append_assoc done [a] rest).symm
    rw [split] at each ⊢
    exact ih (done ++ [a]) (each done a rest first s split.symm start taken) each ran

theorem foldlM_returns {first : σ} (done todo : List α) (start : holds done first)
    (each : ∀ before a after s s', done ++ todo = before ++ a :: after → holds before s → step s a = some s' →
      holds (before ++ [a]) s')
    (goesOn : ∀ before a after s, done ++ todo = before ++ a :: after → holds before s → ∃ s', step s a = some s') :
    ∃ last, todo.foldlM step first = some last := by
  induction todo generalizing done first with
  | nil => exact ⟨first, rfl⟩
  | cons a rest ih =>
    have split : done ++ a :: rest = done ++ [a] ++ rest := (List.append_assoc done [a] rest).symm
    obtain ⟨s, taken⟩ := goesOn done a rest first rfl start
    rw [split] at each goesOn
    obtain ⟨last, ran⟩ := ih (done ++ [a]) (each done a rest first s split.symm start taken) each goesOn
    exact ⟨last, by rw [List.foldlM_cons, taken]; exact ran⟩

theorem foldlM_mono (mono : ∀ s a s', step s a = some s' → step' s a = some s') (work : List α) {first last : σ}
    (ran : work.foldlM step first = some last) : work.foldlM step' first = some last := by
  induction work generalizing first with
  | nil => exact ran
  | cons a rest ih =>
    rw [List.foldlM_cons] at ran ⊢
    obtain ⟨s, taken, ran⟩ := Option.bind_eq_some_iff.mp ran
    rw [mono first a s taken]
    exact ih ran

end Mana.Lib
