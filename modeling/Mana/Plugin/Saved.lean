import Mana.LowerHalf.Fixed
import Mana.Plugin.Filter

/-! The checkpoint filter on the list that the wrappers of `mmap`, `munmap` and `mremap` keep. -/

namespace Mana.Plugin

open Lib LowerHalf

section Apart

variable {m m' : Memory} {b : Block}

/-- No address is mapped by both halves. -/
def Apart (m : Memory) : Prop := Disjoint m.upper m.lowerHalf

theorem Apart.unmap (apart : Apart m) (b : Block) : Apart (m.unmap b) :=
  apart.mono Set.sdiff_subset (Set.union_subset_union Set.sdiff_subset Set.sdiff_subset)

theorem Apart.map (apart : Apart m) (b : Block) : Apart (m.map b) := by
  refine Set.disjoint_union_left.mpr ⟨?_, ?_⟩
  · exact apart.mono_right (Set.union_subset_union Set.sdiff_subset Set.sdiff_subset)
  · exact Set.disjoint_union_right.mpr ⟨disjoint_sdiff_self_right, disjoint_sdiff_self_right⟩

theorem Apart.reserve (apart : Apart m) (free : Disjoint b.cells m.mapped) : Apart (m.reserve b) := by
  rw [Apart, Memory.lowerHalf, Memory.reserve, ← Set.union_assoc]
  refine Set.disjoint_union_right.mpr ⟨apart, (free.mono_right ?_).symm⟩
  exact Set.subset_union_left.trans Set.subset_union_left

theorem Apart.others (apart : Apart m) (others : lowerHalfMaps m m') : Apart m' := by
  obtain ⟨upper, reserved, foreign⟩ := others
  rw [Apart, Memory.lowerHalf, upper, reserved]
  refine Set.disjoint_union_right.mpr ⟨(foreign.mono_right Set.subset_union_left).symm, ?_⟩
  exact apart.mono_right Set.subset_union_right

theorem Apart.answered (apart : Apart m) {call : KernelCall} {answer : call.Answer}
    (answered : kernelAnswers m call answer m') : Apart m' := by
  cases call with
  | mmap addr length flags =>
    cases answer with
    | none => exact answered ▸ apart
    | some ret => exact answered.2.2.2.2 ▸ apart.map _
  | mmapFixedNoreplace purpose addr length =>
    cases answer with
    | mapped =>
      obtain ⟨-, -, free, rfl⟩ := answered
      cases purpose with
      | caller => exact apart.map _
      | reservation => exact apart.reserve free
    | exist => exact answered ▸ apart
    | failed => exact answered ▸ apart
  | readMaps => exact answered.2.2 ▸ apart
  | munmap addr length =>
    cases answer with
    | false => exact answered ▸ apart
    | true => exact answered.2 ▸ apart.unmap _
  | mremap old oldSize newSize flags new =>
    cases answer with
    | none => exact answered ▸ apart
    | some ret =>
      obtain ⟨-, -, -, -, -, -, -, -, rfl⟩ := answered
      refine Apart.map ?_ _
      split
      · exact apart
      · exact apart.unmap _

theorem Apart.runs {α : Type} {program : Kernel α} {log : List (Event Memory KernelCall KernelCall.Answer)}
    {out : Option α} (runs : Runs kernel m program log m' out) (apart : Apart m) : Apart m' := by
  induction runs with
  | done => exact apart
  | hang => exact apart
  | ask others answered later ih => exact ih ((apart.others others).answered answered)

theorem apart_of_reaches {start : Start} {w : World} (first : Disjoint (union start.allocated) start.foreign)
    (reached : start.Reaches w) : Apart w.memory := by
  induction reached with
  | init => exact Set.disjoint_union_right.mpr ⟨first, Set.disjoint_empty _⟩
  | lowerHalf before maps ih => exact ih.others maps
  | call before allowed runs ih =>
    have apart := ih.runs runs
    exact Set.disjoint_union_right.mpr ⟨apart, Set.disjoint_empty _⟩

end Apart

/-- After any calls of the wrappers and any mappings of the lower half, the filter saves of an area what the upper half
has mapped and its stack, and nothing that the lower half has mapped. -/
theorem checkpoint_saves_no_lower_half {start : Start} {w : World} (clear : ∀ b ∈ start.maps, b.addr ≠ start.base)
    (first : Disjoint (union start.allocated) start.foreign) (reached : start.Reaches w) (area : Area)
    (nonEmpty : area.addr < area.endAddr) (stackStart stackEnd : Nat) :
    ∃ calls, UpperHalf.scan ⟨w.arena.allocated, stackStart, stackEnd⟩ (area.endAddr - area.addr) area = some calls ∧
      UpperHalf.saved calls = (w.memory.upper ∪ Set.Ico stackStart stackEnd) ∩ Set.Ico area.addr area.endAddr ∧
      (Disjoint (Set.Ico stackStart stackEnd) w.memory.foreign →
        Disjoint (UpperHalf.saved calls) w.memory.foreign) := by
  have good := reached.good clear
  have sorted : UpperHalf.Sorted ⟨w.arena.allocated, stackStart, stackEnd⟩ :=
    ⟨good.allocated.positive, good.allocated.gaps.imp Nat.le_of_lt⟩
  obtain ⟨calls, ran, saved⟩ := sorted.scan (Nat.le_of_lt nonEmpty) (Nat.le_refl _)
  rw [UpperHalf.memory, good.exact] at saved
  refine ⟨calls, ran, saved, fun stack => ?_⟩
  rw [saved]
  refine (Set.disjoint_union_left.mpr ⟨?_, stack⟩).mono_left Set.inter_subset_left
  exact (apart_of_reaches first reached).mono_right Set.subset_union_left

theorem checkpoint_saves_no_lower_half_one_page :
    ∃ calls, UpperHalf.scan ⟨[⟨8192, 4096⟩], 0, 4096⟩ 16384 ⟨0, 16384⟩ = some calls ∧
      UpperHalf.saved calls = (onePage.memory.upper ∪ Set.Ico 0 4096) ∩ Set.Ico 0 16384 := by
  obtain ⟨calls, ran, saved, -⟩ := @checkpoint_saves_no_lower_half emptyArena onePage (List.forall_mem_nil _)
    (Set.disjoint_empty _) reaches_onePage ⟨0, 16384⟩ (by decide) 0 4096
  exact ⟨calls, ran, saved⟩

end Mana.Plugin
