import Mathlib.Data.List.Nodup
import Mathlib.Logic.Function.Basic

/-! Singly linked lists threaded through an array of cells: `next` is the link of a cell,
and a list is entered at its head. A list that ends has no cell twice. -/

namespace Mana.Lib
open Function

universe u

variable {κ : Type u}

/-- `Chain next head cells`: the links lead from the head through exactly these cells. -/
inductive Chain (next : κ → Option κ) : Option κ → List κ → Prop where
  | nil : Chain next none []
  | cons {cell : κ} {rest : List κ} (tail : Chain next (next cell) rest) :
      Chain next (some cell) (cell :: rest)

variable {next : κ → Option κ} {head : Option κ} {cells : List κ} {cell : κ}

theorem Chain.unique {others : List κ} (chain : Chain next head cells) (other : Chain next head others) :
    cells = others := by
  induction chain generalizing others with
  | nil =>
    cases other
    rfl
  | cons tail ih =>
    cases other with
    | cons otherTail => rw [ih otherTail]

theorem Chain.congr {next' : κ → Option κ} (chain : Chain next head cells)
    (same : ∀ cell ∈ cells, next' cell = next cell) : Chain next' head cells := by
  induction chain with
  | nil => exact .nil
  | @cons cell rest tail ih =>
    refine .cons ?_
    rw [same cell List.mem_cons_self]
    exact ih fun other member => same other (List.mem_cons_of_mem cell member)

theorem Chain.drop {next : κ → Option κ} {head : Option κ} {cells before after : List κ} {cell : κ}
    (chain : Chain next head cells) (split : cells = before ++ cell :: after) :
    Chain next (some cell) (cell :: after) := by
  induction before generalizing head cells with
  | nil =>
    subst split
    cases chain with
    | cons tail => exact .cons tail
  | cons first before ih =>
    subst split
    cases chain with
    | cons tail => exact ih tail rfl

theorem Chain.nodup (chain : Chain next head cells) : cells.Nodup := by
  induction chain with
  | nil => exact List.nodup_nil
  | @cons cell rest tail ih =>
    refine List.nodup_cons.mpr ⟨?_, ih⟩
    intro member
    -- A second visit would lead through the whole list again.
    obtain ⟨before, after, split⟩ := List.append_of_mem member
    have again : cell :: rest = cell :: after := (Chain.cons tail).unique (tail.drop split)
    have lengths := congrArg List.length ((List.cons.inj again).2.symm.trans split)
    simp only [List.length_append, List.length_cons] at lengths
    omega

theorem Chain.push [DecidableEq κ] (chain : Chain next head cells) (fresh : cell ∉ cells) :
    Chain (update next cell head) (some cell) (cell :: cells) := by
  refine .cons ?_
  rw [update_self]
  refine chain.congr fun other member => ?_
  rw [update_of_ne]
  rintro rfl
  exact fresh member

theorem Chain.head_mem (chain : Chain next (some cell) cells) :
    ∃ rest, cells = cell :: rest ∧ Chain next (next cell) rest := by
  cases chain with
  | cons tail => exact ⟨_, rfl, tail⟩

end Mana.Lib
