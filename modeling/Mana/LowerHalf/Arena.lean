import Mana.Lib.Interact
import Mana.LowerHalf.Blocks
import Mathlib.Algebra.Group.Nat.Defs
import Mathlib.Data.Set.Lattice
import Mathlib.Order.CompletePartialOrder

/-! The memory arena of the upper half: the wrappers of `mmap`, `munmap` and `mremap`, their lists of allocated and
free blocks, and the kernel calls that they make. The lower half maps and unmaps memory of its own at any time
between two kernel calls. -/

namespace Mana.LowerHalf

open Lib

section Kernel

structure MapFlags where
  fixed : Bool
  noreplace : Bool
  deriving DecidableEq, Repr

/-- `MREMAP_MAYMOVE`, `MREMAP_FIXED`, `MREMAP_DONTUNMAP`, and whether another flag is set. -/
structure RemapFlags where
  mayMove : Bool
  fixed : Bool
  dontunmap : Bool
  other : Bool
  deriving DecidableEq, Repr

/-- The memory that is mapped: by the upper half, by the lower half, and as the reservation of a wrapper for the
block that it is about to move. -/
structure Memory where
  upper : Set Nat
  foreign : Set Nat
  reserved : Set Nat

namespace Memory

def mapped (m : Memory) : Set Nat := m.upper ∪ m.foreign ∪ m.reserved

def lowerHalf (m : Memory) : Set Nat := m.foreign ∪ m.reserved

def unmap (m : Memory) (b : Block) : Memory where
  upper := m.upper \ b.cells
  foreign := m.foreign \ b.cells
  reserved := m.reserved \ b.cells

def map (m : Memory) (b : Block) : Memory := { m.unmap b with upper := m.upper ∪ b.cells }

def reserve (m : Memory) (b : Block) : Memory := { m with reserved := m.reserved ∪ b.cells }

/-- After the call, a reservation that could not be unmapped is a mapping of the lower half like others. -/
def settle (m : Memory) : Memory where
  upper := m.upper
  foreign := m.lowerHalf
  reserved := ∅

end Memory

inductive Purpose where
  | caller
  | reservation
  deriving DecidableEq, Repr

/-- The answer of `mmap_fixed_noreplace`: `errno` is `EEXIST` or not. -/
inductive Try where
  | mapped
  | exist
  | failed
  deriving DecidableEq, Repr

inductive KernelCall where
  | mmap (addr length : Nat) (flags : MapFlags)
  | mmapFixedNoreplace (purpose : Purpose) (addr length : Nat)
  | readMaps
  | munmap (addr length : Nat)
  | mremap (old oldSize newSize : Nat) (flags : RemapFlags) (new : Nat)
  deriving DecidableEq, Repr

/-- An address or `MAP_FAILED`, the lines of `/proc/self/maps`, or whether the call succeeded. -/
@[reducible] def KernelCall.Answer : KernelCall → Type
  | .mmap .. => Option Nat
  | .mmapFixedNoreplace .. => Try
  | .readMaps => List Block
  | .munmap .. => Bool
  | .mremap .. => Option Nat

abbrev Kernel (α : Type) := Program KernelCall KernelCall.Answer α

/-- What the kernel documents. A call that fails changes nothing; only `MAP_FIXED` and `MREMAP_FIXED` map over a
mapping; nothing is ever mapped at address 0. -/
def kernelAnswers (m : Memory) : (call : KernelCall) → call.Answer → Memory → Prop
  | .mmap _ _ _, none, m' => m' = m
  | .mmap addr length flags, some ret, m' =>
    0 < length ∧ 0 < ret ∧ (flags.fixed = true → ret = addr) ∧
      (flags.fixed = false ∨ flags.noreplace = true → Disjoint (Block.mk ret length).cells m.mapped) ∧
      m' = m.map ⟨ret, length⟩
  | .mmapFixedNoreplace purpose addr length, .mapped, m' =>
    0 < length ∧ 0 < addr ∧ Disjoint (Block.mk addr length).cells m.mapped ∧
      m' = match purpose with
        | .caller => m.map ⟨addr, length⟩
        | .reservation => m.reserve ⟨addr, length⟩
  | .mmapFixedNoreplace _ _ _, .exist, m' => m' = m
  | .mmapFixedNoreplace _ _ _, .failed, m' => m' = m
  | .readMaps, maps, m' => (∀ b ∈ maps, 0 < b.len) ∧ union maps ⊆ m.mapped ∧ m' = m
  | .munmap _ _, false, m' => m' = m
  | .munmap addr length, true, m' => 0 < length ∧ m' = m.unmap ⟨addr, length⟩
  | .mremap _ _ _ _ _, none, m' => m' = m
  | .mremap old oldSize newSize flags new, some ret, m' =>
    0 < old ∧ 0 < newSize ∧ 0 < ret ∧ flags.other = false ∧ (flags.dontunmap = true → flags.mayMove = true) ∧
      (flags.fixed = true → flags.mayMove = true ∧ ret = new) ∧
      (flags.mayMove = false → ret = old) ∧
      (flags.fixed = false → Disjoint ((Block.mk ret newSize).cells \ (Block.mk old oldSize).cells) m.mapped) ∧
      m' = (if flags.dontunmap then m else m.unmap ⟨old, oldSize⟩).map ⟨ret, newSize⟩

/-- The lower half maps and unmaps, but not over the memory of the upper half or of the wrapper. -/
def lowerHalfMaps (m m' : Memory) : Prop :=
  m'.upper = m.upper ∧ m'.reserved = m.reserved ∧ Disjoint m'.foreign (m.upper ∪ m.reserved)

def kernel : System Memory KernelCall KernelCall.Answer where
  other := lowerHalfMaps
  answers := kernelAnswers

def KernelCall.target : (call : KernelCall) → call.Answer → Set Nat
  | .mmap _ length _, some ret => (Block.mk ret length).cells
  | .mmapFixedNoreplace _ addr length, .mapped => (Block.mk addr length).cells
  | .mremap old oldSize newSize _ _, some ret => (Block.mk ret newSize).cells \ (Block.mk old oldSize).cells
  | _, _ => ∅

/-- The call maps over a mapping, other than the reservation that the wrapper made for it. -/
def Replaces (e : Event Memory KernelCall KernelCall.Answer) : Prop :=
  ∃ x ∈ e.call.target e.answer, x ∈ e.state.upper ∪ e.state.foreign

end Kernel

section Arena

/-- `arena_base`, `max_allocated_addr`, `allocated_blocks` and `free_blocks`; 0 is `NULL`. -/
structure Arena where
  base : Nat
  maxAllocated : Nat
  allocated : List Block
  free : List Block
  deriving DecidableEq, Repr

def pageSize : Nat := 4096

def roundUp (addr size : Nat) : Nat := (addr + size - 1) / size * size

/-- The largest alignment of the hint, from above one page up to 2 MB. -/
def alignMask (addr : Nat) : Nat :=
  let hintAlign := addr &&& (2 ^ 64 - addr)
  if addr ≠ 0 ∧ pageSize < hintAlign ∧ hintAlign ≤ 2 ^ 21 then (pageSize - 1) ||| (hintAlign - 1) else pageSize - 1

def nextFreeAddr (free : List Block) (addr length : Nat) : Option Nat :=
  free.findSome? fun b =>
    let aligned := roundUp b.addr (alignMask addr + 1)
    if aligned - b.addr + length ≤ b.len then some aligned else none

def initMemArena (a : Arena) (base : Nat) (maps : List Block) : Arena :=
  let len := match maps.find? (fun b => base ≤ b.addr) with
    | some b => b.addr - base
    | none => (2 ^ 64 - 1) / 2
  { a with base, free := [⟨base, len⟩] }

def removeMapping (addr length : Nat) (b : Block) (free : List Block) : Option (List Block) :=
  if b.addr < addr + length ∧ addr < b.stop then removeOverlapBlocks b free else some free

def removeMappings (addr length : Nat) : List Block → List Block → Option (List Block)
  | [], free => some free
  | b :: maps, free =>
    (removeMapping addr length b free).bind fun free =>
      if addr + length ≤ b.addr then some free else removeMappings addr length maps free

def arenaMmap (purpose : Purpose) (hint length : Nat) : Nat → Arena → Kernel (Arena × Option Nat)
  | 0, a => .done (a, none)
  | tries + 1, a =>
    match nextFreeAddr a.free hint length with
    | none => .done (a, none)
    | some addr => .ask (.mmapFixedNoreplace purpose addr length) fun
      | .mapped => .done ({ a with maxAllocated := max a.maxAllocated (addr + length) }, some addr)
      | .failed => .done (a, none)
      | .exist => .ask .readMaps fun maps =>
        (Program.ofOption (removeMappings addr length maps a.free)).bind fun free =>
          arenaMmap purpose hint length tries { a with free }

def maxTries : Nat := 16

def noteMapped (a : Arena) (new : Block) : Option Arena :=
  (removeOverlapBlocks new a.free).map fun free => { a with allocated := mergeOverlapBlocks new a.allocated, free }

def noteUnmapped (a : Arena) (new : Block) : Option Arena :=
  (removeOverlapBlocks new a.allocated).map fun allocated =>
    { a with allocated, free := mergeOverlapBlocks new a.free }

def mmapWrapper (addr length : Nat) (flags : MapFlags) (a : Arena) : Kernel (Arena × Option Nat) :=
  let length := roundUp length pageSize
  let note (result : Arena × Option Nat) : Kernel (Arena × Option Nat) :=
    match result with
    | (a, none) => .done (a, none)
    | (a, some ret) => .ofOption ((noteMapped a ⟨ret, length⟩).map fun a => (a, some ret))
  if a.base = 0 then .ask (.mmap addr length flags) fun ret => note (a, ret)
  else if addr = 0 ∨ flags.fixed = false ∨ a.maxAllocated ≠ 0 ∧ a.maxAllocated < addr then
    (arenaMmap .caller addr length maxTries a).bind note
  else .ask (.mmap addr length ⟨true, false⟩) fun ret => note (a, ret)

def munmapWrapper (addr length : Nat) (a : Arena) : Kernel (Arena × Option Nat) :=
  if addr = 0 then .done (a, none)
  else
    let length := roundUp length pageSize
    .ask (.munmap addr length) fun
      | false => .done (a, none)
      | true => .ofOption ((noteUnmapped a ⟨addr, length⟩).map fun a => (a, some 0))

def isFreeRange (free : List Block) (addr len : Nat) : Bool :=
  free.any fun b => b.addr ≤ addr && addr + len ≤ b.stop

def noteRemapped (a : Arena) (old new : Block) (dontunmap : Bool) : Option Arena :=
  (if dontunmap then some a else noteUnmapped a old).bind fun a =>
    (noteMapped a new).map fun a => { a with maxAllocated := max a.maxAllocated new.stop }

def moveBlock (old oldSize newSize : Nat) (flags : RemapFlags) (a : Arena) : Kernel (Arena × Option Nat) :=
  if flags.mayMove = false then .done (a, none)
  else (arenaMmap .reservation 0 newSize maxTries a).bind fun
    | (a, none) => .done (a, none)
    | (a, some target) => .ask (.mremap old oldSize newSize ⟨true, true, flags.dontunmap, false⟩ target) fun
      | some ret => .done (a, some ret)
      | none => .ask (.munmap target newSize) fun _ => .done (a, none)

def remapBlock (old oldSize newSize : Nat) (flags : RemapFlags) (new : Nat) (a : Arena) :
    Kernel (Arena × Option Nat) :=
  let invalid := flags.other || (flags.dontunmap && !flags.mayMove)
  if a.base = 0 ∨ oldSize = 0 ∨ flags.fixed = true ∨ invalid = true then
    .ask (.mremap old oldSize newSize flags new) fun ret => .done (a, ret)
  else if flags.dontunmap = false ∧
      (newSize ≤ oldSize ∨ isFreeRange a.free (old + oldSize) (newSize - oldSize) = true) then
    .ask (.mremap old oldSize newSize ⟨false, false, false, false⟩ 0) fun
      | some ret => .done (a, some ret)
      | none => moveBlock old oldSize newSize flags a
  else moveBlock old oldSize newSize flags a

def mremapWrapper (old oldSize newSize : Nat) (flags : RemapFlags) (new : Nat) (a : Arena) :
    Kernel (Arena × Option Nat) :=
  let oldSize := roundUp oldSize pageSize
  let newSize := roundUp newSize pageSize
  (remapBlock old oldSize newSize flags new a).bind fun
    | (a, none) => .done (a, none)
    | (a, some ret) =>
      .ofOption ((noteRemapped a ⟨old, oldSize⟩ ⟨ret, newSize⟩ flags.dontunmap).map fun a => (a, some ret))

end Arena

section Calls

inductive SysCall where
  | mmap (addr length : Nat) (flags : MapFlags)
  | munmap (addr length : Nat)
  | mremap (old oldSize newSize : Nat) (flags : RemapFlags) (new : Nat)
  deriving DecidableEq, Repr

namespace SysCall

def run : SysCall → Arena → Kernel (Arena × Option Nat)
  | mmap addr length flags => mmapWrapper addr length flags
  | munmap addr length => munmapWrapper addr length
  | mremap old oldSize newSize flags new => mremapWrapper old oldSize newSize flags new

def admissible : SysCall → Prop
  | mmap .. => True
  | munmap .. => True
  | mremap _ oldSize _ _ _ => 0 < oldSize

def fixed : SysCall → Bool
  | mmap _ _ flags => flags.fixed
  | munmap _ _ => false
  | mremap _ _ _ flags _ => flags.fixed

end SysCall

/-- The memory when `init_mem_arena` is called: the blocks that are allocated, all of them below the base, what the
lower half has mapped, and the lines of `/proc/self/maps`. -/
structure Start where
  maxAllocated : Nat
  allocated : List Block
  foreign : Set Nat
  base : Nat
  maps : List Block
  separated : Separated allocated
  nonNull : ∀ b ∈ allocated, 0 < b.addr
  below : ∀ b ∈ allocated, b.stop ≤ base
  basePositive : 0 < base
  mapsPositive : ∀ b ∈ maps, 0 < b.len
  mapsSorted : maps.Pairwise fun b c => b.stop ≤ c.addr

structure World where
  arena : Arena
  memory : Memory

def Start.world (start : Start) : World where
  arena := initMemArena ⟨0, start.maxAllocated, start.allocated, []⟩ start.base start.maps
  memory := ⟨union start.allocated, start.foreign, ∅⟩

/-- Calls of the upper half, each under the lock of the wrappers, and mappings that the lower half makes. -/
inductive Start.Reaches (start : Start) : World → Prop where
  | init : start.Reaches start.world
  | lowerHalf {w : World} {memory : Memory} (before : start.Reaches w) (maps : lowerHalfMaps w.memory memory) :
      start.Reaches ⟨w.arena, memory⟩
  | call {w : World} {call : SysCall} {log : List (Event Memory KernelCall KernelCall.Answer)} {memory : Memory}
      {arena : Arena} {ret : Option Nat} (before : start.Reaches w) (allowed : call.admissible)
      (runs : Runs kernel w.memory (call.run w.arena) log memory (some (arena, ret))) :
      start.Reaches ⟨arena, memory.settle⟩

structure ArenaSound (arena : Arena) (upper : Set Nat) : Prop where
  allocated : Separated arena.allocated
  free : Separated arena.free
  exact : union arena.allocated = upper
  apart : Disjoint (union arena.free) (union arena.allocated)

/-- A failed call changes the free list only: what leaves it is mapped by the lower half during the call. -/
structure LostToLowerHalf (before after : Arena) (log : List (Event Memory KernelCall KernelCall.Answer)) : Prop where
  allocated : after.allocated = before.allocated
  shrinks : union after.free ⊆ union before.free
  lost : ∀ x ∈ union before.free, x ∉ union after.free → ∃ e ∈ log, x ∈ e.state.lowerHalf

/-- The call ends; without `MAP_FIXED` it replaces no mapping; if it fails, it leaves the lists as they are, but for
what the lower half has mapped. -/
def CallSound (w : World) (call : SysCall) : Prop :=
  Ensures kernel w.memory (call.run w.arena) fun log _ (arena, ret) =>
    (call.fixed = false → ∀ e ∈ log, ¬Replaces e) ∧ (ret = none → LostToLowerHalf w.arena arena log)

end Calls

end Mana.LowerHalf
