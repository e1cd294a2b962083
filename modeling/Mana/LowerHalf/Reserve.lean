import Mana.LowerHalf.Restore

/-! At a restart the memory of the checkpoint image is reserved, so that the lower half maps nothing there, and is
released before the areas are restored. -/

namespace Mana.LowerHalf

open Lib

/-- Over how many bytes the two loops seek. -/
def ProcMapsArea.seekLen (area : ProcMapsArea) : Nat :=
  if area.zeroPage ∨ area.zeroPageParent then 0
  else if area.flags.anonymous = false ∧ 0 < area.mmapFileSize then area.mmapFileSize
  else area.size

/-- The memory of the areas behind an offset. -/
def Image.blocks (image : Image) : Nat → Nat → List Block
  | 0, _ => []
  | fuel + 1, offset =>
    let area := image.area offset
    if area.addr = 0 then []
    else
      let rest := image.blocks fuel (offset + sizeofArea + area.seekLen)
      if area.zeroPageChild then rest else ⟨area.addr, area.size⟩ :: rest

section Passes

variable {image : Image} {fuel offset : Nat} {m m₁ m' : Memory} {log : List (Event Memory KernelCall KernelCall.Answer)}

theorem union_cons (b : Block) (rest : List Block) : union (b :: rest) = b.cells ∪ union rest := by
  ext x
  exact mem_union_cons

/-- What the loop over the areas leaves reserved; the areas do not overlap. -/
structure Reserves (blocks : List Block) (m m' : Memory) : Prop where
  upper : m'.upper = m.upper
  reserved : m'.reserved = m.reserved ∪ union blocks
  fresh : Disjoint (union blocks) (m.upper ∪ m.reserved)
  apart : blocks.Pairwise fun b c => Disjoint b.cells c.cells

theorem Reserves.cons {b : Block} {blocks : List Block} (others : lowerHalfMaps m m₁)
    (free : Disjoint b.cells m₁.mapped) (rest : Reserves blocks (m₁.reserve b) m') : Reserves (b :: blocks) m m' := by
  obtain ⟨upper, reserved, -⟩ := others
  have fresh := rest.fresh
  rw [Memory.reserve, ← Set.union_assoc, Set.disjoint_union_right] at fresh
  constructor
  · exact rest.upper.trans upper
  · rw [rest.reserved, union_cons, ← Set.union_assoc, ← reserved]
    rfl
  · rw [union_cons, ← reserved, ← upper]
    refine Set.disjoint_union_left.mpr ⟨free.mono_right ?_, fresh.1⟩
    exact Set.union_subset_union_left _ Set.subset_union_left
  · refine List.pairwise_cons.mpr ⟨fun c member => ?_, rest.apart⟩
    exact fresh.2.symm.mono_right fun x cell => mem_union.mpr ⟨c, member, cell⟩

/-- What the second loop does, at any time during which the lower half maps memory of its own. -/
structure Releases (blocks : List Block) (m : Memory) (log : List (Event Memory KernelCall KernelCall.Answer))
    (m' : Memory) : Prop where
  upper : m'.upper = m.upper
  unmaps : ∀ at' addr length answer, ⟨at', .munmap addr length, answer⟩ ∈ log →
    (Block.mk addr length).cells ⊆ at'.reserved ∧ Disjoint (Block.mk addr length).cells (at'.upper ∪ at'.foreign)
  reserved : (∀ at' addr length, ⟨at', .munmap addr length, false⟩ ∉ log) → m'.reserved = m.reserved \ union blocks

theorem Releases.cons {b : Block} {blocks : List Block} {m₂ : Memory} {answer : Bool} (others : lowerHalfMaps m m₁)
    (held : b.cells ⊆ m.reserved) (free : Disjoint b.cells m.upper)
    (answered : kernelAnswers m₁ (.munmap b.addr b.len) answer m₂) (rest : Releases blocks m₂ log m') :
    Releases (b :: blocks) m (⟨m₁, .munmap b.addr b.len, answer⟩ :: log) m' := by
  obtain ⟨upper, reserved, foreign⟩ := others
  constructor
  · rw [rest.upper, ← upper]
    cases answer with
    | false => exact congrArg Memory.upper answered
    | true =>
      obtain ⟨-, rfl⟩ := answered
      exact sdiff_eq_left.mpr (upper ▸ free.symm)
  · intro at' addr length answer' member
    rcases List.mem_cons.mp member with same | later
    · cases same
      rw [reserved, upper]
      refine ⟨held, Set.disjoint_union_right.mpr ⟨free, ?_⟩⟩
      exact (foreign.mono_right (held.trans Set.subset_union_right)).symm
    · exact rest.unmaps _ _ _ _ later
  · intro succeed
    rw [rest.reserved fun _ _ _ member => succeed _ _ _ (List.mem_cons_of_mem _ member), union_cons, ← reserved,
      ← Set.sdiff_sdiff]
    cases answer with
    | false => exact absurd (List.mem_cons_self ..) (succeed _ _ _)
    | true =>
      obtain ⟨-, rfl⟩ := answered
      rfl

end Passes

end Mana.LowerHalf
