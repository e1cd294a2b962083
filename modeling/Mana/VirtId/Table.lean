import Mana.Lib.Chain
import Mathlib.Data.Nat.Bitwise
import Mathlib.Data.List.Basic

/-! The table of virtual IDs: slots with a generation, a free list threaded through the
unused entries, and the slots kept away from the predefined constants.

A `mana_mpi_handle` is its 64 bits as a number. With 32-bit MPI handles only the low half
is used; `wide` says that an MPI handle has 64 bits. Where the source aborts, the functions
have no result. -/

namespace Mana.VirtId
open Mana.Lib

abbrev Handle := Nat

inductive Kind where
  | comm | group | datatype | op | request | file
  deriving DecidableEq, Repr

def Kind.code : Kind → Nat
  | .comm => 1
  | .group => 2
  | .datatype => 3
  | .op => 4
  | .request => 5
  | .file => 6

def numKinds : Nat := 6
def slotMask : Nat := 2 ^ 24 - 1
def chunkSize : Nat := 2 ^ 12

/-- A virtual handle: four bits of kind, four of generation, the slot. -/
def makeHandle (kind gen slot : Nat) : Nat := kind <<< 28 ||| (gen &&& 15) <<< 24 ||| slot

def kindOf (handle : Nat) : Nat := handle >>> 28
def genOf (handle : Nat) : Nat := handle >>> 24 &&& 15
def slotOf (handle : Nat) : Nat := handle &&& slotMask

/-- The unsigned test `kind - 1 >= MANA_NUM_KINDS`, negated. -/
def kindInUse (kind : Nat) : Bool := 1 ≤ kind && kind ≤ numKinds

theorem kindInUse_iff {kind : Nat} : kindInUse kind = true ↔ 1 ≤ kind ∧ kind ≤ 6 := by
  rw [kindInUse, Bool.and_eq_true, decide_eq_true_eq, decide_eq_true_eq]
  exact Iff.rfl

theorem Kind.inUse (kind : Kind) : kindInUse kind.code = true := by
  cases kind <;> rfl

theorem makeHandle_eq (kind gen : Nat) {slot : Nat} (small : slot ≤ slotMask) :
    makeHandle kind gen slot = 2 ^ 28 * kind + (2 ^ 24 * (gen % 16) + slot) := by
  have mask : gen &&& 15 = gen % 16 := Nat.and_two_pow_sub_one_eq_mod gen 4
  have low : 2 ^ 24 * (gen % 16) + slot < 2 ^ 28 := by
    simp only [slotMask] at small
    omega
  have slotLow : slot < 2 ^ 24 := by
    simp only [slotMask] at small
    omega
  rw [makeHandle, mask, Nat.shiftLeft_eq, Nat.shiftLeft_eq, Nat.mul_comm kind, Nat.mul_comm (gen % 16),
    Nat.or_assoc, ← Nat.two_pow_add_eq_or_of_lt slotLow, ← Nat.two_pow_add_eq_or_of_lt low]

theorem kindOf_eq (handle : Nat) : kindOf handle = handle / 2 ^ 28 := Nat.shiftRight_eq_div_pow handle 28

theorem genOf_eq (handle : Nat) : genOf handle = handle / 2 ^ 24 % 16 := by
  rw [genOf, Nat.shiftRight_eq_div_pow]
  exact Nat.and_two_pow_sub_one_eq_mod _ 4

theorem slotOf_eq (handle : Nat) : slotOf handle = handle % 2 ^ 24 :=
  Nat.and_two_pow_sub_one_eq_mod handle 24

theorem slotOf_le (handle : Nat) : slotOf handle ≤ slotMask := by
  rw [slotOf_eq, slotMask]
  omega

section Fields

variable {kind gen slot : Nat}

@[simp] theorem kindOf_makeHandle (small : slot ≤ slotMask) : kindOf (makeHandle kind gen slot) = kind := by
  rw [kindOf_eq, makeHandle_eq kind gen small]
  simp only [slotMask] at small
  omega

@[simp] theorem genOf_makeHandle (small : slot ≤ slotMask) : genOf (makeHandle kind gen slot) = gen % 16 := by
  rw [genOf_eq, makeHandle_eq kind gen small]
  simp only [slotMask] at small
  omega

@[simp] theorem slotOf_makeHandle (small : slot ≤ slotMask) : slotOf (makeHandle kind gen slot) = slot := by
  rw [slotOf_eq, makeHandle_eq kind gen small]
  simp only [slotMask] at small
  omega

theorem makeHandle_ne_zero (inUse : kindInUse kind = true) (small : slot ≤ slotMask) :
    makeHandle kind gen slot ≠ 0 := by
  have range := kindInUse_iff.mp inUse
  rw [makeHandle_eq kind gen small]
  omega

end Fields

inductive CallType where
  | isend | irecv | issend
  deriving DecidableEq, Repr

structure NonblockingCall where
  type : CallType
  sendbuf : Nat
  recvbuf : Nat
  count : Int
  datatype : Handle
  comm : Handle
  remoteNode : Int
  tag : Int
  laterSends : Nat
  deriving DecidableEq, Repr

structure Status where
  source : Int
  tag : Int
  error : Int
  count : Nat
  deriving DecidableEq, Repr

variable {δ : Type}

/-- A `virt_id_entry`. No call is `UNKNOW_REQUEST`, no next slot is -1; `virt` is 0 while the
slot is not in use. -/
structure Entry (δ : Type) where
  real : Handle
  desc : Option δ
  seq : Nat
  virt : Nat
  nextFree : Option Nat
  gen : Nat
  call : Option NonblockingCall
  collective : Bool
  completed : Bool
  status : Status

def Entry.blank : Entry δ where
  real := 0
  desc := none
  seq := 0
  virt := 0
  nextFree := some 0
  gen := 0
  call := none
  collective := false
  completed := false
  status := ⟨0, 0, 0, 0⟩

/-- A slot has an entry once its chunk is allocated. -/
structure Table (δ : Type) where
  entries : Nat → Option (Entry δ)
  freeHead : Option Nat
  highWater : Nat
  nextSeq : Nat
  live : Nat
  reserved : List Bool

def slotIsReserved (reserved : List Bool) (slot : Nat) : Bool := (reserved[slot]?).getD false

/-- The bits of a handle that the MPI library looks at. -/
def handleValue (wide : Bool) (handle : Handle) : Nat := if wide then handle else handle % 2 ^ 32

def reserveConstantSlot (wide : Bool) (reserved : List Bool) (upper : Handle) : List Bool :=
  let value := handleValue wide upper
  if value >>> 32 != 0 || !kindInUse (kindOf value) then reserved
  else (reserved ++ List.replicate (slotOf value + 1 - reserved.length) false).set (slotOf value) true

/-- The table before the first handle, after the constants have taken their slots. -/
def Table.initial (wide : Bool) (constants : List Handle) : Table δ where
  entries := fun _ => none
  freeHead := none
  highWater := 0
  nextSeq := 0
  live := 0
  reserved := constants.foldl (reserveConstantSlot wide) []

/-- The loop that steps over reserved slots; there is none past the end of the vector. -/
def skipReserved (reserved : List Bool) : Nat → Nat → Nat
  | 0, slot => slot
  | fuel + 1, slot => if slotIsReserved reserved slot then skipReserved reserved fuel (slot + 1) else slot

def callocChunks (entries : Nat → Option (Entry δ)) (first last : Nat) : Nat → Option (Entry δ) :=
  fun slot =>
    if first ≤ slot / chunkSize ∧ slot / chunkSize ≤ last ∧ (entries slot).isNone then some .blank
    else entries slot

def Table.allocSlot (t : Table δ) : Option (Nat × Table δ) :=
  match t.freeHead with
  | some slot => (t.entries slot).map fun e => (slot, { t with freeHead := e.nextFree })
  | none =>
    let slot := skipReserved t.reserved t.reserved.length t.highWater
    if slotMask < slot then none
    else some (slot, { t with
      entries := callocChunks t.entries (t.highWater / chunkSize) (slot / chunkSize)
      highWater := slot + 1 })

def Table.setEntry (t : Table δ) (slot : Nat) (e : Entry δ) : Table δ :=
  { t with entries := Function.update t.entries slot (some e) }

def Entry.issue (e : Entry δ) (handle real : Handle) (desc : Option δ) (seq : Nat) : Entry δ :=
  { e with real := real, desc := desc, seq := seq, virt := handle,
           call := none, collective := false, completed := false }

def Entry.retire (e : Entry δ) (freeHead : Option Nat) : Entry δ :=
  { e with gen := (e.gen + 1) % 2 ^ 32, virt := 0, desc := none, nextFree := freeHead }

def Table.addVirtId (t : Table δ) (kind : Kind) (real : Handle) (desc : Option δ) :
    Option (Handle × Table δ) :=
  t.allocSlot.bind fun (slot, t) =>
    (t.entries slot).map fun e =>
      let handle := makeHandle kind.code e.gen slot
      (handle, { t.setEntry slot (e.issue handle real desc (t.nextSeq + 1)) with
        nextSeq := t.nextSeq + 1
        live := t.live + 1 })

def Table.find (t : Table δ) (handle : Nat) : Option (Entry δ) :=
  if kindInUse (kindOf handle) then (t.entries (slotOf handle)).filter (fun e => e.virt == handle) else none

def Table.lookupVirtIdEntry (wide : Bool) (t : Table δ) (virtId : Handle) : Option (Entry δ) :=
  if wide && virtId >>> 32 != 0 then none else t.find (virtId % 2 ^ 32)

/-- `free_virt_id`; a pending call must have been removed before. -/
def Table.freeVirtId (wide : Bool) (t : Table δ) (virtId : Handle) : Option (Table δ) :=
  (t.lookupVirtIdEntry wide virtId).bind fun e =>
    if e.call.isSome then none
    else
      let slot := slotOf (virtId % 2 ^ 32)
      some { t.setEntry slot (e.retire t.freeHead) with
        freeHead := some slot
        live := t.live - 1 }

/-- An assignment through the pointer that `lookup_virt_id_entry` returns. -/
def Table.modifyEntry (wide : Bool) (t : Table δ) (virtId : Handle) (assign : Entry δ → Entry δ) :
    Option (Table δ) :=
  (t.lookupVirtIdEntry wide virtId).map fun e => t.setEntry (slotOf (virtId % 2 ^ 32)) (assign e)

def Table.updateVirtId (wide : Bool) (t : Table δ) (virtId real : Handle) : Option (Table δ) :=
  t.modifyEntry wide virtId fun e => { e with real := real }

end Mana.VirtId
