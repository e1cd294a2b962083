import Mathlib.Logic.Relation
import Mathlib.Data.Option.Basic

/-! Machines with a partial step function. An action that is not enabled in a
state has no successor there. The rules below package the inductions over runs:
an invariant, a run that stays inside a region, and a simulation. -/

namespace Mana.Lib

universe u v w x

structure Machine (σ : Type u) (α : Type v) where
  initial : σ → Prop
  step : σ → α → Option σ

variable {σ : Type u} {α : Type v} {τ : Type w} {β : Type x}

inductive Reachable (m : Machine σ α) : σ → Prop where
  | start {s : σ} (first : m.initial s) : Reachable m s
  | next {s t : σ} {a : α} (before : Reachable m s) (taken : m.step s a = some t) : Reachable m t

variable {m : Machine σ α} {s t : σ} {region : σ → Prop} {allow : σ → α → Prop}

/-- The invariant rule; the step case may use that its source is reachable. -/
theorem Reachable.invariant (holds : σ → Prop) (first : ∀ s, m.initial s → holds s)
    (kept : ∀ s a t, Reachable m s → holds s → m.step s a = some t → holds t) (reached : Reachable m s) : holds s := by
  induction reached with
  | start isFirst => exact first _ isFirst
  | next before taken ih => exact kept _ _ _ before ih taken

def Machine.run (m : Machine σ α) (s : σ) : List α → Option σ
  | [] => some s
  | a :: rest => (m.step s a).bind (fun t => m.run t rest)

theorem Reachable.run {actions : List α} (reached : Reachable m s) (ran : m.run s actions = some t) :
    Reachable m t := by
  induction actions generalizing s with
  | nil =>
    cases ran
    exact reached
  | cons a rest ih =>
    obtain ⟨u, taken, ran⟩ := Option.bind_eq_some_iff.mp ran
    exact ih (reached.next taken) ran

/-- `Within m region s t`: a run from `s` to `t` all of whose states, both ends
included, lie in the region. -/
inductive Within (m : Machine σ α) (region : σ → Prop) (s : σ) : σ → Prop where
  | here (inside : region s) : Within m region s s
  | next {t u : σ} {a : α} (before : Within m region s t) (taken : m.step t a = some u)
      (inside : region u) : Within m region s u

theorem Within.target (path : Within m region s t) : region t := by
  cases path with
  | here inside => exact inside
  | next before taken inside => exact inside

theorem Within.reachable (path : Within m region s t) (reached : Reachable m s) : Reachable m t := by
  induction path with
  | here inside => exact reached
  | next before taken inside ih => exact .next ih taken

/-- What holds at the start of a run inside the region, and is kept by each step
between two states of the region, holds at its end. -/
theorem Within.invariant (holds : σ → Prop) (path : Within m region s t) (reached : Reachable m s) (first : holds s)
    (kept : ∀ t a u, Reachable m t → region t → region u → holds t → m.step t a = some u → holds u) : holds t := by
  induction path with
  | here inside => exact first
  | next before taken inside ih =>
    exact kept _ _ _ (before.reachable reached) before.target inside ih taken

def Machine.restrict (m : Machine σ α) (allow : σ → α → Prop) [∀ s a, Decidable (allow s a)] :
    Machine σ α where
  initial := m.initial
  step s a := if allow s a then m.step s a else none

theorem restrict_step [∀ s a, Decidable (allow s a)] {a : α} :
    (m.restrict allow).step s a = some t ↔ allow s a ∧ m.step s a = some t := by
  simp only [Machine.restrict, Option.ite_none_right_eq_some]

theorem Reachable.of_restrict [∀ s a, Decidable (allow s a)] (reached : Reachable (m.restrict allow) s) :
    Reachable m s := by
  induction reached with
  | start first => exact .start first
  | next before taken ih => exact .next ih (restrict_step.mp taken).2

/-- A run leads to a goal if, from every state on the way, some step comes closer to it. -/
theorem leads_of_measure {r : σ → σ → Prop} (holds goal : σ → Prop) (left : σ → Nat)
    (closer : ∀ s, holds s → ¬goal s → ∃ t, r s t ∧ holds t ∧ left t < left s) (first : holds s) :
    ∃ t, Relation.ReflTransGen r s t ∧ holds t ∧ goal t := by
  induction bound : left s using Nat.strongRecOn generalizing s with
  | ind m ih =>
    by_cases isGoal : goal s
    · exact ⟨s, .refl, first, isGoal⟩
    · obtain ⟨t, taken, still, less⟩ := closer s first isGoal
      obtain ⟨u, path, result⟩ := ih (left t) (bound ▸ less) still rfl
      exact ⟨u, .head taken path, result⟩

end Mana.Lib
