import Mana.Lib.Ranges

/-! `merge_overlap_blocks` and `remove_overlap_blocks`, the two loops over a sorted list of memory blocks. The loops
erase from the vector that they walk; what they leave there, once it is sorted, is the list with the range added or
taken out. -/

namespace Mana.LowerHalf

open Lib
open scoped List

section Merge

/-- The loop of `merge_overlap_blocks` with `i` and `blocks_size - i`: the merged block, and the blocks that it has
not taken in. -/
def mergeLoop : Nat → Block → List Block → Nat → Block × List Block
  | 0, merged, blocks, _ => (merged, blocks)
  | left + 1, merged, blocks, i =>
    match blocks[i]? with
    | none => (merged, blocks)
    | some b =>
      if b.stop < merged.addr then mergeLoop left merged blocks (i + 1)
      else if merged.stop < b.addr then (merged, blocks)
      else
        let minStart := if b.addr < merged.addr then b.addr else merged.addr
        let maxEnd := if merged.stop < b.stop then b.stop else merged.stop
        mergeLoop left ⟨minStart, maxEnd - minStart⟩ (blocks.eraseIdx i) i

def mergeOverlapBlocks (new : Block) (blocks : List Block) : List Block :=
  let (merged, others) := mergeLoop blocks.length new blocks 0
  sortBlocks (others ++ [merged])

theorem join_eq (merged b : Block) :
    (⟨if b.addr < merged.addr then b.addr else merged.addr,
      (if merged.stop < b.stop then b.stop else merged.stop) -
        (if b.addr < merged.addr then b.addr else merged.addr)⟩ : Block) = merged.join b := by
  have start : (if b.addr < merged.addr then b.addr else merged.addr) = min merged.addr b.addr := by
    split_ifs <;> omega
  have stop : (if merged.stop < b.stop then b.stop else merged.stop) = max merged.stop b.stop := by
    split_ifs <;> omega
  rw [start, stop, Block.join]

theorem mergeLoop_perm (merged : Block) (kept rest : List Block) :
    ((mergeLoop rest.length merged (kept ++ rest) kept.length).2 ++
      [(mergeLoop rest.length merged (kept ++ rest) kept.length).1]).Perm (kept ++ insertRange merged rest) := by
  induction rest generalizing merged kept with
  | nil => simp [mergeLoop, insertRange]
  | cons b rest ih =>
    rw [List.length_cons, mergeLoop, List.getElem?_append_right (Nat.le_refl _), Nat.sub_self,
      List.getElem?_cons_zero]
    dsimp only
    rw [join_eq]
    unfold insertRange
    split_ifs with before after
    · have next := ih merged (kept ++ [b])
      rwa [List.append_assoc, List.singleton_append, List.length_append, List.length_singleton,
        List.append_assoc, List.singleton_append] at next
    · rw [List.append_assoc]
      exact (List.perm_append_singleton merged (b :: rest)).append_left kept
    · rw [List.eraseIdx_append_of_length_le (Nat.le_refl _), Nat.sub_self, List.eraseIdx_cons_zero]
      exact ih (merged.join b) kept

theorem mergeOverlapBlocks_eq {new : Block} {blocks : List Block} (separated : Separated blocks)
    (positive : 0 < new.len) : mergeOverlapBlocks new blocks = insertRange new blocks :=
  sortBlocks_eq (mergeLoop_perm new [] blocks) (separated.insertRange positive).sorted

end Merge

section Remove

/-- What `remove_overlap_blocks` pushes back for a block that overlaps the new one, in its four cases. -/
def overlapPieces (b new : Block) : List Block :=
  if b.addr < new.addr then
    if new.addr < b.stop ∧ b.stop < new.stop then
      Block.nonEmpty ⟨b.addr, b.len - (b.stop - new.addr)⟩
    else
      Block.nonEmpty ⟨b.addr, b.len - (b.stop - new.addr)⟩ ++ Block.nonEmpty ⟨new.stop, b.stop - new.stop⟩
  else if new.stop < b.stop then Block.nonEmpty ⟨new.stop, b.stop - new.stop⟩
  else []

/-- The loop of `remove_overlap_blocks` with `blocks_size - i`, `old_it_start` and `old_it_end`, and `i`; `none` when
it stays in the loop that it reports. -/
def removeLoop (new : Block) : Nat → Nat × Nat → List Block → Nat → Option (List Block)
  | 0, _, blocks, _ => some blocks
  | left + 1, old, blocks, i =>
    match blocks[i]? with
    | none => some blocks
    | some b =>
      if b.addr = 0 ∨ (b.addr, b.stop) = old then none
      else if b.stop ≤ new.addr then removeLoop new left (b.addr, b.stop) blocks (i + 1)
      else if new.stop ≤ b.addr then some blocks
      else removeLoop new left (b.addr, b.stop) (blocks.eraseIdx i ++ overlapPieces b new) i

def removeOverlapBlocks (new : Block) (blocks : List Block) : Option (List Block) :=
  (removeLoop new blocks.length (0, 0) blocks 0).map sortBlocks

theorem overlapPieces_eq {b new : Block} (late : new.addr < b.stop) (early : b.addr < new.stop) :
    overlapPieces b new = b.minus new := by
  have nothing (addr : Nat) : Block.nonEmpty ⟨addr, 0⟩ = [] := rfl
  have front : b.len - (b.stop - new.addr) = min b.stop new.addr - b.addr := by
    simp only [Block.stop] at *
    omega
  have back : max b.addr new.stop = new.stop := by omega
  rw [Block.minus, back, overlapPieces, front]
  split_ifs with first second third
  · rw [show b.stop - new.stop = 0 by omega, nothing, List.append_nil]
  · rfl
  · rw [show min b.stop new.addr - b.addr = 0 by omega, nothing, List.nil_append]
  · rw [show min b.stop new.addr - b.addr = 0 by omega, show b.stop - new.stop = 0 by omega, nothing, nothing]
    rfl

/-- The blocks before `i` are `kept`, the ones up to `blocks_size` are `rest`, and `pushed` stand behind them. The
block looked at last starts before all of `rest`, so that no block is looked at twice. -/
theorem removeLoop_perm {new : Block} {old : Nat × Nat} {kept rest pushed : List Block} (separated : Separated rest)
    (later : ∀ b ∈ rest, old.1 < b.addr) :
    ∃ left, removeLoop new rest.length old (kept ++ rest ++ pushed) kept.length = some left ∧
      left.Perm (kept ++ removeRange new rest ++ pushed) := by
  induction rest generalizing old kept pushed with
  | nil => exact ⟨_, rfl, by simp [removeRange]⟩
  | cons b rest ih =>
    obtain ⟨positive, gaps, separatedRest⟩ := separated_cons.mp separated
    have start : old.1 < b.addr := later b List.mem_cons_self
    have laterRest : ∀ c ∈ rest, b.addr < c.addr := by
      intro c member
      have gap := gaps c member
      simp only [Block.stop] at gap
      omega
    have looked : (kept ++ b :: rest ++ pushed)[kept.length]? = some b := by
      rw [List.append_assoc, List.getElem?_append_right (Nat.le_refl _), Nat.sub_self]
      rfl
    have noLoop : ¬(b.addr = 0 ∨ (b.addr, b.stop) = old) := by
      rintro (null | rfl)
      · omega
      · exact Nat.lt_irrefl _ start
    have split : removeRange new (b :: rest) = b.minus new ++ removeRange new rest := rfl
    rw [List.length_cons, removeLoop, looked]
    dsimp only
    rw [if_neg noLoop]
    split_ifs with before after
    · obtain ⟨left, ran, perm⟩ := @ih (b.addr, b.stop) (kept ++ [b]) pushed separatedRest laterRest
      rw [List.append_assoc kept, List.singleton_append, List.length_append, List.length_singleton] at ran
      refine ⟨left, ran, ?_⟩
      rw [split, Block.minus_of_stop_le positive before, ← List.append_assoc]
      exact perm
    · have allAfter : ∀ c ∈ b :: rest, new.stop ≤ c.addr := by
        intro c member
        rcases List.mem_cons.mp member with rfl | member
        · exact after
        · exact after.trans (laterRest c member).le
      exact ⟨_, rfl, by rw [removeRange_of_le_addr separated.positive allAfter]⟩
    · obtain ⟨left, ran, perm⟩ := @ih (b.addr, b.stop) kept (pushed ++ overlapPieces b new) separatedRest laterRest
      have erased : (kept ++ b :: rest ++ pushed).eraseIdx kept.length = kept ++ rest ++ pushed := by
        rw [List.append_assoc, List.eraseIdx_append_of_length_le (Nat.le_refl _), Nat.sub_self, List.cons_append,
          List.eraseIdx_cons_zero, List.append_assoc]
      rw [erased, List.append_assoc _ pushed]
      refine ⟨left, ran, perm.trans ?_⟩
      rw [split, overlapPieces_eq (Nat.lt_of_not_le before) (Nat.lt_of_not_le after)]
      calc kept ++ removeRange new rest ++ (pushed ++ b.minus new)
        _ ~ kept ++ removeRange new rest ++ (b.minus new ++ pushed) := List.perm_append_comm.append_left _
        _ ~ kept ++ (b.minus new ++ removeRange new rest) ++ pushed := by
          rw [← List.append_assoc, List.append_assoc kept]
          exact (List.perm_append_comm.append_left kept).append_right pushed

theorem removeOverlapBlocks_eq {new : Block} {blocks : List Block} (separated : Separated blocks)
    (nonNull : ∀ b ∈ blocks, 0 < b.addr) (positive : 0 < new.len) :
    removeOverlapBlocks new blocks = some (removeRange new blocks) := by
  obtain ⟨left, ran, perm⟩ := @removeLoop_perm new (0, 0) [] blocks [] separated nonNull
  rw [List.nil_append, List.append_nil, List.length_nil] at ran
  rw [List.nil_append, List.append_nil] at perm
  rw [removeOverlapBlocks, ran, Option.map_some, sortBlocks_eq perm (separated.removeRange positive).sorted]

/-- The two loops add a range to the set of addresses and take it out; addresses do not wrap. -/
theorem overlap_blocks_set_semantics {new : Block} {blocks : List Block} (separated : Separated blocks)
    (nonNull : ∀ b ∈ blocks, 0 < b.addr) (positive : 0 < new.len) :
    Separated (mergeOverlapBlocks new blocks) ∧ union (mergeOverlapBlocks new blocks) = union blocks ∪ new.cells ∧
      ∃ left, removeOverlapBlocks new blocks = some left ∧ Separated left ∧ union left = union blocks \ new.cells := by
  rw [mergeOverlapBlocks_eq separated positive]
  refine ⟨separated.insertRange positive, ?_, _, removeOverlapBlocks_eq separated nonNull positive,
    separated.removeRange positive, ?_⟩
  · ext x
    rw [mem_union_insertRange, Set.mem_union, Or.comm]
  · ext x
    exact mem_union_removeRange

theorem overlap_blocks_set_semantics_two :
    (∀ b ∈ [⟨4, 4⟩, ⟨12, 4⟩], 0 < Block.addr b) ∧
      Separated (mergeOverlapBlocks ⟨6, 8⟩ [⟨4, 4⟩, ⟨12, 4⟩]) ∧
      ∃ left, removeOverlapBlocks ⟨6, 8⟩ [⟨4, 4⟩, ⟨12, 4⟩] = some left ∧ Separated left := by
  have result := @overlap_blocks_set_semantics ⟨6, 8⟩ [⟨4, 4⟩, ⟨12, 4⟩] ⟨by decide, by decide⟩ (by decide) (by decide)
  obtain ⟨merged, -, left, removed, separated, -⟩ := result
  exact ⟨by decide, merged, left, removed, separated⟩

end Remove

end Mana.LowerHalf
