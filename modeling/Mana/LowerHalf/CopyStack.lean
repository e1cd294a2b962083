import Mana.Lib.Layout
import Mana.LowerHalf.FirstFit

/-! `deepCopyStack`: the initial stack of the upper half, with copies of the arguments, the environment and the
auxiliary vector. -/

namespace Mana.LowerHalf

open Lib Chunk

section Copy

/-- `dest_argv`, `__environ` and the auxiliary vector on the original stack; strings are without their end marks. -/
structure StackImage where
  argv : List (List UInt8)
  env : List (List UInt8)
  auxv : List (Nat × Nat)
  deriving DecidableEq, Repr

def le64 (n : Nat) : List UInt8 := (List.range 8).map fun i => UInt8.ofNat (n / 256 ^ i)

def pointerBytes (ptrs : List Nat) : List UInt8 := ptrs.flatMap le64 ++ le64 0

def stringsSize (strings : List (List UInt8)) : Nat := (strings.map (·.length + 1)).sum

def ptrSize (strings : List (List UInt8)) : Nat := (strings.length + 1) * 8

/-- The entries up to `AT_NULL`. -/
def StackImage.auxvUpToNull (image : StackImage) : List (Nat × Nat) :=
  image.auxv.take (image.auxv.findIdx (·.1 = 0) + 1)

def auxvBytes (auxv : List (Nat × Nat)) : List UInt8 := auxv.flatMap fun (type, value) => le64 type ++ le64 value

def uhPreload : List UInt8 := [85, 72, 95, 80, 82, 69, 76, 79, 65, 68]

/-- The copy of an environment string: `strstr` finds `UH_PRELOAD` anywhere in it, and its first two bytes become
`LD`. -/
def envCopy (s : List UInt8) : List UInt8 := if uhPreload <:+: s then [76, 68] ++ s.drop 2 else s

namespace StackImage

variable (image : StackImage)

def auxvSize : Nat := 16 * image.auxvUpToNull.length

def argcAlignPad : Nat := (16 - (ptrSize image.env + ptrSize image.argv + 8) % 16) % 16

def destStackSize : Nat :=
  8 + stringsSize image.env + stringsSize image.argv + 32 + image.auxvSize + image.argcAlignPad + ptrSize image.env +
    ptrSize image.argv + 8

end StackImage

structure CopiedStack where
  bottom : Nat
  auxvPtr : Nat
  sp : Nat
  argvStrings : List (Chunk UInt8)
  envStrings : List (Chunk UInt8)
  writes : List (Chunk UInt8)

end Copy

section Layout

variable {strings : List (List UInt8)} {addr : Nat}

def CopiedStack.regions (image : StackImage) (c : CopiedStack) : List (Chunk UInt8) :=
  [⟨c.sp, le64 image.argv.length⟩, ⟨c.sp + 8, pointerBytes (c.argvStrings.map (·.addr))⟩,
    ⟨c.sp + 8 + ptrSize image.argv, pointerBytes (c.envStrings.map (·.addr))⟩,
    ⟨c.auxvPtr, auxvBytes image.auxvUpToNull⟩] ++ c.argvStrings ++ (c.envStrings ++ [⟨c.bottom - 8, le64 0⟩])

structure CopiedStack.WellFormed (image : StackImage) (mem : Nat → UInt8) (start : Nat) (c : CopiedStack) : Prop where
  aligned : c.sp % 16 = 0
  auxvPtr : c.auxvPtr = c.sp + 8 + ptrSize image.argv + ptrSize image.env
  argvStrings : c.argvStrings.map (·.data) = image.argv.map (· ++ [0])
  envStrings : c.envStrings.map (·.data) = image.env.map (envCopy · ++ [0])
  writes : c.writes.Perm (c.regions image)
  apart : (c.regions image).Pairwise Apart
  held : ∀ w ∈ c.regions image, Holds mem w
  inside : ∀ w ∈ c.regions image, start ≤ w.addr ∧ w.stop ≤ c.bottom
  bottom : c.bottom = start + roundUp image.destStackSize pageSize + pageSize

variable {image : StackImage} {destStack bottom : Nat} {maps : Nat → Nat → Bool}

end Layout

section Environment

variable {image : StackImage} {destStack : Nat} {maps : Nat → Nat → Bool}

end Environment

end Mana.LowerHalf
