import Mathlib.Data.List.Pairwise
import Mathlib.Data.List.Sort
import Mathlib.Order.Interval.Set.Basic

/-! Sets of addresses as lists of ranges: sorted, non-empty, and with a gap between any two. Adding and removing
a range, and what they do to the set. -/

namespace Mana.Lib

structure Block where
  addr : Nat
  len : Nat
  deriving DecidableEq, Repr

namespace Block

def stop (b : Block) : Nat := b.addr + b.len

def cells (b : Block) : Set Nat := Set.Ico b.addr b.stop

variable {b c taken : Block} {x : Nat}

theorem mem_cells : x ∈ b.cells ↔ b.addr ≤ x ∧ x < b.stop := Iff.rfl

def join (b c : Block) : Block where
  addr := min b.addr c.addr
  len := max b.stop c.stop - min b.addr c.addr

theorem join_stop (b c : Block) : (b.join c).stop = max b.stop c.stop := by
  simp only [join, stop]
  omega

theorem mem_cells_join (reach : c.addr ≤ b.stop) (reached : b.addr ≤ c.stop) :
    x ∈ (b.join c).cells ↔ x ∈ b.cells ∨ x ∈ c.cells := by
  rw [mem_cells, join_stop, mem_cells, mem_cells]
  simp only [join]
  omega

def nonEmpty (b : Block) : List Block := if 0 < b.len then [b] else []

def minus (b taken : Block) : List Block :=
  nonEmpty ⟨b.addr, min b.stop taken.addr - b.addr⟩ ++
    nonEmpty ⟨max b.addr taken.stop, b.stop - max b.addr taken.stop⟩

theorem mem_nonEmpty : c ∈ b.nonEmpty ↔ c = b ∧ 0 < b.len := by
  simp only [nonEmpty]
  split_ifs with positive <;> simp [positive]

theorem mem_minus : c ∈ b.minus taken ↔
    (c.addr = b.addr ∧ c.stop = min b.stop taken.addr ∨ c.addr = max b.addr taken.stop ∧ c.stop = b.stop) ∧
      c.addr < c.stop := by
  obtain ⟨addr, len⟩ := c
  simp only [minus, List.mem_append, mem_nonEmpty, stop, mk.injEq]
  omega

theorem minus_of_stop_le (positive : 0 < b.len) (before : b.stop ≤ taken.addr) : b.minus taken = [b] := by
  have first : min b.stop taken.addr - b.addr = b.len := by simp only [stop] at *; omega
  have second : b.stop - max b.addr taken.stop = 0 := by simp only [stop] at *; omega
  simp [minus, nonEmpty, first, second, positive]

theorem minus_of_le_addr (positive : 0 < b.len) (after : taken.stop ≤ b.addr) : b.minus taken = [b] := by
  have first : min b.stop taken.addr - b.addr = 0 := by simp only [stop] at *; omega
  have start : max b.addr taken.stop = b.addr := by omega
  have second : b.stop - b.addr = b.len := by simp only [stop] at *; omega
  simp [minus, nonEmpty, first, start, second, positive]

end Block

def union (blocks : List Block) : Set Nat := { x | ∃ b ∈ blocks, x ∈ b.cells }

theorem mem_union {blocks : List Block} {x : Nat} : x ∈ union blocks ↔ ∃ b ∈ blocks, x ∈ b.cells := Iff.rfl

@[simp] theorem not_mem_union_nil {x : Nat} : x ∉ union [] := by simp [mem_union]

@[simp] theorem mem_union_cons {b : Block} {rest : List Block} {x : Nat} :
    x ∈ union (b :: rest) ↔ x ∈ b.cells ∨ x ∈ union rest := by
  simp [mem_union]

/-- Sorted ranges, none of them empty, that do not touch each other. -/
structure Separated (blocks : List Block) : Prop where
  positive : ∀ b ∈ blocks, 0 < b.len
  gaps : blocks.Pairwise fun b c => b.stop < c.addr

section Separated

variable {b taken : Block} {blocks rest : List Block}

theorem separated_nil : Separated [] := ⟨nofun, .nil⟩

theorem separated_cons : Separated (b :: rest) ↔ 0 < b.len ∧ (∀ c ∈ rest, b.stop < c.addr) ∧ Separated rest := by
  constructor
  · rintro ⟨positive, gaps⟩
    obtain ⟨first, later⟩ := List.pairwise_cons.mp gaps
    exact ⟨positive b List.mem_cons_self, first, fun c member => positive c (List.mem_cons_of_mem _ member), later⟩
  · rintro ⟨positive, first, later⟩
    refine ⟨fun c member => ?_, List.pairwise_cons.mpr ⟨first, later.gaps⟩⟩
    rcases List.mem_cons.mp member with rfl | member
    · exact positive
    · exact later.positive c member

theorem Separated.sorted (separated : Separated blocks) : blocks.Pairwise fun b c => b.addr < c.addr := by
  refine separated.gaps.imp_of_mem fun {b c} member _ gap => ?_
  simp only [Block.stop] at gap
  omega

/-- The first range is the lowest, and its end is in none. -/
theorem Separated.mem_union_rest (separated : Separated (b :: rest)) (x : Nat) :
    (x ∈ union rest ↔ x ∈ union (b :: rest) ∧ b.stop < x) ∧ (x ∈ union (b :: rest) → b.addr ≤ x ∧ x ≠ b.stop) := by
  obtain ⟨positive, gaps, -⟩ := separated_cons.mp separated
  have later (inRest : x ∈ union rest) : b.stop < x := by
    obtain ⟨c, member, cell⟩ := mem_union.mp inRest
    exact Nat.lt_of_lt_of_le (gaps c member) cell.1
  have first (cell : x ∈ b.cells) : b.addr ≤ x ∧ x < b.stop := cell
  have order : b.addr ≤ b.stop := Nat.le_add_right _ _
  rw [mem_union_cons]
  grind

/-- The ranges are those of their set of addresses. -/
theorem Separated.ext {other : List Block} (separated : Separated blocks) (separated' : Separated other)
    (same : union blocks = union other) : blocks = other := by
  have head {b : Block} {rest : List Block} (separated : Separated (b :: rest)) : b.addr ∈ union (b :: rest) :=
    mem_union_cons.mpr (.inl ⟨Nat.le_refl _, Nat.lt_add_of_pos_right (separated_cons.mp separated).1⟩)
  induction blocks generalizing other with
  | nil =>
    cases other with
    | nil => rfl
    | cons c rest => exact absurd (same ▸ head separated') not_mem_union_nil
  | cons b rest ih =>
    cases other with
    | nil => exact absurd (same ▸ head separated) not_mem_union_nil
    | cons c rest' =>
      have first := separated.mem_union_rest
      have first' := separated'.mem_union_rest
      rw [same] at first
      have addr : b.addr = c.addr :=
        Nat.le_antisymm ((first c.addr).2 (head separated')).1 ((first' b.addr).2 (same ▸ head separated)).1
      have stop : b.stop = c.stop := by
        rcases Nat.lt_trichotomy b.stop c.stop with less | equal | more
        · have inside : b.stop ∈ union (c :: rest') := mem_union_cons.mpr (.inl ⟨addr ▸ Nat.le_add_right _ _, less⟩)
          exact absurd rfl ((first b.stop).2 inside).2
        · exact equal
        · have inside : c.stop ∈ union (b :: rest) := mem_union_cons.mpr (.inl ⟨addr ▸ Nat.le_add_right _ _, more⟩)
          exact absurd rfl ((first' c.stop).2 (same ▸ inside)).2
      have equal : b = c := by
        cases b
        cases c
        simp only [Block.stop, Block.mk.injEq] at *
        omega
      rw [equal, ih (separated_cons.mp separated).2.2 (separated_cons.mp separated').2.2]
      ext x
      rw [(first x).1, (first' x).1, stop]

end Separated

section Insert

/-- Adds a range to a separated list: the ranges that it touches become one with it. -/
def insertRange (new : Block) : List Block → List Block
  | [] => [new]
  | b :: rest =>
    if b.stop < new.addr then b :: insertRange new rest
    else if new.stop < b.addr then new :: b :: rest
    else insertRange (new.join b) rest

variable {new : Block} {blocks : List Block}

theorem mem_union_insertRange {x : Nat} : x ∈ union (insertRange new blocks) ↔ x ∈ new.cells ∨ x ∈ union blocks := by
  induction blocks generalizing new with
  | nil => simp [insertRange]
  | cons b rest ih =>
    unfold insertRange
    split_ifs with before after
    · rw [mem_union_cons, ih, mem_union_cons]
      tauto
    · simp
    · rw [ih, Block.mem_cells_join (Nat.le_of_not_lt after) (Nat.le_of_not_lt before), mem_union_cons]
      tauto

theorem lt_addr_of_mem_insertRange {c : Block} {bound : Nat} (member : c ∈ insertRange new blocks)
    (first : bound < new.addr) (others : ∀ b ∈ blocks, bound < b.addr) : bound < c.addr := by
  induction blocks generalizing new with
  | nil =>
    rw [List.mem_singleton.mp member]
    exact first
  | cons b rest ih =>
    obtain ⟨here, later⟩ := List.forall_mem_cons.mp others
    unfold insertRange at member
    split_ifs at member with before after
    · rcases List.mem_cons.mp member with rfl | member
      · exact here
      · exact ih member first later
    · rcases List.mem_cons.mp member with rfl | member
      · exact first
      · exact others c member
    · refine ih member ?_ later
      simp only [Block.join]
      omega

theorem Separated.insertRange (separated : Separated blocks) (positive : 0 < new.len) :
    Separated (Lib.insertRange new blocks) := by
  induction blocks generalizing new with
  | nil => exact separated_cons.mpr ⟨positive, nofun, separated_nil⟩
  | cons b rest ih =>
    obtain ⟨bPositive, gaps, later⟩ := separated_cons.mp separated
    unfold Lib.insertRange
    split_ifs with before after
    · refine separated_cons.mpr ⟨bPositive, fun c member => ?_, ih later positive⟩
      exact lt_addr_of_mem_insertRange member before gaps
    · refine separated_cons.mpr ⟨positive, fun c member => ?_, separated⟩
      rcases List.mem_cons.mp member with rfl | member
      · exact after
      · have gap := gaps c member
        simp only [Block.stop] at *
        omega
    · refine ih later ?_
      simp only [Block.join, Block.stop] at *
      omega

end Insert

section Remove

def removeRange (taken : Block) (blocks : List Block) : List Block := blocks.flatMap (·.minus taken)

variable {taken : Block} {blocks : List Block}

theorem mem_union_removeRange {x : Nat} : x ∈ union (removeRange taken blocks) ↔ x ∈ union blocks ∧ x ∉ taken.cells := by
  simp only [mem_union, removeRange, List.mem_flatMap]
  constructor
  · rintro ⟨c, ⟨b, member, isPart⟩, inside⟩
    rw [Block.mem_minus] at isPart
    simp only [Block.mem_cells] at *
    refine ⟨⟨b, member, ?_⟩, ?_⟩ <;> omega
  · rintro ⟨⟨b, member, inside⟩, outside⟩
    rw [Block.mem_cells] at inside outside
    by_cases before : x < taken.addr
    · have fits : (⟨b.addr, min b.stop taken.addr - b.addr⟩ : Block).stop = min b.stop taken.addr := by
        simp only [Block.stop]
        omega
      refine ⟨⟨b.addr, min b.stop taken.addr - b.addr⟩, ⟨b, member, Block.mem_minus.mpr ?_⟩, ?_⟩
      · rw [fits]
        exact ⟨.inl ⟨rfl, rfl⟩, by dsimp only; omega⟩
      · rw [Block.mem_cells, fits]
        dsimp only
        omega
    · have fits : (⟨max b.addr taken.stop, b.stop - max b.addr taken.stop⟩ : Block).stop = b.stop := by
        rw [Block.stop]
        dsimp only
        omega
      refine ⟨⟨max b.addr taken.stop, b.stop - max b.addr taken.stop⟩, ⟨b, member, Block.mem_minus.mpr ?_⟩, ?_⟩
      · rw [fits]
        exact ⟨.inr ⟨rfl, rfl⟩, by dsimp only; omega⟩
      · rw [Block.mem_cells, fits]
        dsimp only
        omega

theorem lt_addr_of_mem_removeRange {c : Block} {bound : Nat} (member : c ∈ removeRange taken blocks)
    (others : ∀ b ∈ blocks, bound < b.addr) : bound < c.addr := by
  obtain ⟨b, isBlock, isPart⟩ := List.mem_flatMap.mp member
  have first := others b isBlock
  have part := Block.mem_minus.mp isPart
  omega

theorem separated_minus {b : Block} (positive : 0 < taken.len) : Separated (b.minus taken) := by
  refine ⟨fun c member => ?_, ?_⟩
  · have := (Block.mem_minus.mp member).2
    simp only [Block.stop] at this
    omega
  · rw [Block.minus, List.pairwise_append]
    refine ⟨?_, ?_, ?_⟩
    · simp only [Block.nonEmpty]
      split_ifs <;> simp
    · simp only [Block.nonEmpty]
      split_ifs <;> simp
    · intro c isFirst d isSecond
      obtain ⟨rfl, cPositive⟩ := Block.mem_nonEmpty.mp isFirst
      obtain ⟨rfl, dPositive⟩ := Block.mem_nonEmpty.mp isSecond
      simp only [Block.stop] at *
      omega

theorem Separated.removeRange (separated : Separated blocks) (positive : 0 < taken.len) :
    Separated (Lib.removeRange taken blocks) := by
  induction blocks with
  | nil => exact separated_nil
  | cons b rest ih =>
    obtain ⟨-, gaps, later⟩ := separated_cons.mp separated
    have tail := ih later
    have head := @separated_minus taken b positive
    refine ⟨fun c member => ?_, ?_⟩
    · rcases List.mem_append.mp member with isHead | isTail
      · exact head.positive c isHead
      · exact tail.positive c isTail
    · refine List.pairwise_append.mpr ⟨head.gaps, tail.gaps, fun c isHead d isTail => ?_⟩
      obtain ⟨e, member, isPart⟩ := List.mem_flatMap.mp isTail
      have gap := gaps e member
      rw [Block.mem_minus] at isHead isPart
      omega

theorem removeRange_of_le_addr (positive : ∀ b ∈ blocks, 0 < b.len) (after : ∀ b ∈ blocks, taken.stop ≤ b.addr) :
    removeRange taken blocks = blocks := by
  rw [removeRange, List.flatMap_congr fun b member => Block.minus_of_le_addr (positive b member) (after b member)]
  exact List.flatMap_singleton' blocks

end Remove

section Sorting

def sortBlocks (blocks : List Block) : List Block := blocks.insertionSort fun b c => b.addr ≤ c.addr

theorem sortBlocks_eq {blocks sorted : List Block} (same : blocks.Perm sorted)
    (inOrder : sorted.Pairwise fun b c => b.addr < c.addr) : sortBlocks blocks = sorted := by
  have perm : (sortBlocks blocks).Perm sorted := (List.perm_insertionSort _ _).trans same
  have apart : sorted.Pairwise fun b c => b.addr ≤ c.addr → c.addr ≤ b.addr → b = c :=
    inOrder.imp fun lt _ ge => absurd ge (Nat.not_le_of_lt lt)
  have : Std.Symm fun b c : Block => b.addr ≤ c.addr → c.addr ≤ b.addr → b = c :=
    ⟨fun _ _ same le ge => (same ge le).symm⟩
  have : Std.Total fun b c : Block => b.addr ≤ c.addr := ⟨fun b c => Nat.le_total b.addr c.addr⟩
  have : IsTrans Block fun b c => b.addr ≤ c.addr := ⟨fun _ _ _ => Nat.le_trans⟩
  refine perm.eq_of_pairwise ?_ (List.pairwise_insertionSort _ _) (inOrder.imp Nat.le_of_lt)
  intro b c isFirst isSecond
  exact apart.forall_of_forall (fun _ _ _ _ => rfl) (perm.mem_iff.mp isFirst) isSecond

end Sorting

end Mana.Lib
