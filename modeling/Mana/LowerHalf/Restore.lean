import Mana.LowerHalf.Arena
import Mathlib.Algebra.Group.Int.Defs
import Mathlib.Data.List.Infix

/-! Restart: an area of memory is mapped again, and its bytes are read from the checkpoint image. The kernel may read
fewer bytes than asked for, or fail when a signal arrives; the loops around `read` count the bytes, one with an `int`
and one with a `size_t`. -/

namespace Mana.LowerHalf

open Lib Option

section Restore

structure Prot where
  read : Bool
  write : Bool
  exec : Bool
  deriving DecidableEq, Repr

structure AreaFlags where
  isShared : Bool
  isPrivate : Bool
  anonymous : Bool
  growsDown : Bool
  noReserve : Bool
  deriving DecidableEq, Repr

/-- The header of an area; `DMTCP_ZERO_PAGE`, `DMTCP_ZERO_PAGE_PARENT_HEADER` and `DMTCP_ZERO_PAGE_CHILD_HEADER` are
its properties. -/
structure ProcMapsArea where
  addr : Nat
  endAddr : Nat
  size : Nat
  offset : Int
  prot : Prot
  flags : AreaFlags
  zeroPage : Bool
  zeroPageParent : Bool
  zeroPageChild : Bool
  mmapFileSize : Nat
  name : List Char
  deriving DecidableEq, Repr

def sizeofArea : Nat := 4096

/-- The checkpoint image, with what its bytes mean as a header. -/
structure Image where
  byte : Nat → UInt8
  size : Nat
  area : Nat → ProcMapsArea

def maxRead : Nat := 0x7ffff000

structure MapRequest where
  addr : Nat
  length : Nat
  prot : Prot
  flags : AreaFlags
  hasFile : Bool
  offset : Int
  deriving DecidableEq, Repr

/-- The answers of the kernel: to the `read` of the header, to `open` and `lseek` of the area's file, to `mmap` (with
what the memory then holds), to `mprotect`, and to the `read`s of the bytes, where -1 is `none`. A process has its memory
below 2^47. -/
structure RestoreKernel where
  header : Int
  file : Option (Option Nat)
  mmap : Option Nat
  user : ∀ addr ∈ mmap, addr < 2 ^ 47
  contents : Nat → UInt8
  mprotect : Bool
  reads : List (Option Nat)

structure Restoring where
  byte : Nat → UInt8
  offset : Nat
  maps : List MapRequest
  written : List Block

namespace Restoring

/-- `none` is a result that `read` does not give. -/
def read (s : Restoring) (image : Image) (addr len : Nat) : Option Nat → Option Restoring
  | none => some s
  | some n =>
    if n ≤ len ∧ n ≤ maxRead ∧ s.offset + n ≤ image.size then
      some
        { s with
          byte := fun a => if addr ≤ a ∧ a < addr + n then image.byte (s.offset + (a - addr)) else s.byte a
          offset := s.offset + n
          written := s.written ++ [⟨addr, n⟩] }
    else none

end Restoring

def returned : Option Nat → Int
  | none => -1
  | some n => n

structure Counter where
  rc : Int → Int
  count : Int → Int

/-- `ssize_t rc; int count`. -/
def Counter.int : Counter := ⟨id, fun n => (n + 2 ^ 31) % 2 ^ 32 - 2 ^ 31⟩

/-- `size_t rc, count`. -/
def Counter.sizeT : Counter := ⟨fun n => n % 2 ^ 64, fun n => n % 2 ^ 64⟩

def readLoop (image : Image) (c : Counter) (addr total : Nat) (s : Restoring) (count : Int) :
    List (Option Nat) → Option (Restoring × Int)
  | [] => none
  | result :: reads =>
    (s.read image ((addr + count) % 2 ^ 64).toNat ((total - count) % 2 ^ 64).toNat result).bind fun s =>
      let rc := c.rc (returned result)
      let count := c.count (count + rc)
      if 0 < rc ∧ count % 2 ^ 64 < total then readLoop image c addr total s count reads
      else if reads = [] then some (s, count)
      else none

namespace ProcMapsArea

def adjust (area : ProcMapsArea) (endOfStack : Nat) : ProcMapsArea :=
  let stack := (area.name ≠ [] ∧ area.name.head? ≠ some '/' ∧ "stack".toList <:+: area.name) ∨ area.endAddr = endOfStack
  let flags := if stack then { area.flags with growsDown := true } else area.flags
  let flags := if flags.isShared then { flags with isShared := false, isPrivate := true, anonymous := true } else flags
  { area with flags }

def backing (area : ProcMapsArea) (k : RestoreKernel) : Option (Bool × ProcMapsArea) :=
  if area.name.head? = some '/' then
    match k.file with
    | none => some (false, area)
    | some none => none
    | some (some currSize) =>
      if (currSize : Int) < (area.size + area.offset) % 2 ^ 64 ∧ area.prot.write then
        some (false, { area with offset := 0, flags := { area.flags with anonymous := true } })
      else some (true, area)
  else some (false, area)

def request (area : ProcMapsArea) (hasFile : Bool) : MapRequest where
  addr := area.addr
  length := roundUp area.size pageSize
  prot := { area.prot with write := true }
  flags :=
    { area.flags with
      anonymous := area.flags.anonymous || (!hasFile && area.flags.isPrivate)
      noReserve := area.flags.noReserve || !area.prot.write }
  hasFile
  offset := area.offset

def FromFile (area : ProcMapsArea) : Prop := 0 < area.mmapFileSize ∧ area.name.head? = some '/'

instance (area : ProcMapsArea) : Decidable area.FromFile := inferInstanceAs (Decidable (_ ∧ _))

def payload (area : ProcMapsArea) : Nat := if area.FromFile then area.mmapFileSize else area.size

end ProcMapsArea

namespace Restoring

/-- Another address than that of the area ends the restart. -/
def mapArea (s : Restoring) (k : RestoreKernel) (area : ProcMapsArea) : Option Restoring :=
  (area.backing k).bind fun (hasFile, area) =>
    if k.mmap = some area.addr then
      some
        { s with
          byte := fun a => if area.addr ≤ a ∧ a < area.addr + roundUp area.size pageSize then k.contents a else s.byte a
          maps := s.maps ++ [area.request hasFile] }
    else none

def fill (s : Restoring) (image : Image) (k : RestoreKernel) (area : ProcMapsArea) : Option Restoring :=
  let counter := if area.FromFile then Counter.int else Counter.sizeT
  (readLoop image counter area.addr area.payload s 0 k.reads).bind fun (s, count) =>
    if count % 2 ^ 64 = area.payload then some s else none

def protect (s : Restoring) (k : RestoreKernel) (area : ProcMapsArea) : Option (Int × Restoring) :=
  if area.prot.write || k.mprotect then some (0, s) else none

/-- No value: an assertion fails, or the process waits in a loop. -/
def restoreMemoryArea (s : Restoring) (image : Image) (endOfStack : Nat) (k : RestoreKernel) :
    Option (Int × Restoring) :=
  if k.header = sizeofArea then
    let area := image.area s.offset
    let s := { s with offset := s.offset + sizeofArea }
    if area.addr = 0 then some (-1, s)
    else
      let area := area.adjust endOfStack
      if area.zeroPage then s.protect k area
      else
        (if area.zeroPageChild then some s else s.mapArea k area).bind fun s =>
          if area.zeroPageParent then some (0, s)
          else (s.fill image k area).bind fun s => s.protect k area
  else none

end Restoring

structure Counter.Sound (c : Counter) : Prop where
  rc : ∀ n : Nat, n ≤ maxRead → c.rc n = n
  idem : ∀ count, c.count (c.count count) = c.count count
  success : ∀ count n : Nat, c.count count = count → count ≤ 2 ^ 47 → n ≤ maxRead →
    c.count (count + n) = count + n ∨ 2 ^ 47 < c.count (count + n) % 2 ^ 64
  failure : ∀ count : Nat, c.count count = count → count ≤ 2 ^ 47 →
    (0 < count ∧ c.count (count + c.rc (-1)) = count - 1) ∨ 2 ^ 47 < c.count (count + c.rc (-1)) % 2 ^ 64

theorem Counter.int_sound : Counter.int.Sound := by
  refine ⟨fun _ _ => rfl, fun count => ?_, fun count n fits _ short => ?_, fun count fits _ => ?_⟩
  · simp only [Counter.int]
    omega
  · simp only [Counter.int, maxRead] at *
    omega
  · simp only [Counter.int, id] at *
    omega

theorem Counter.sizeT_sound : Counter.sizeT.Sound := by
  refine ⟨fun n short => ?_, fun count => ?_, fun count n _ small short => ?_, fun count _ small => ?_⟩
  · simp only [Counter.sizeT, maxRead] at *
    omega
  · simp only [Counter.sizeT]
    omega
  · simp only [Counter.sizeT, maxRead] at *
    omega
  · simp only [Counter.sizeT] at *
    omega

section Loop

variable {image : Image} {c : Counter} {addr total : Nat} {s s' : Restoring} {result : Option Nat}
  {reads : List (Option Nat)}

inductive Counts (total : Nat) : Option Nat → Nat → Nat → Prop where
  | success {n count : Nat} (short : count + n ≤ total) : Counts total (some n) count (count + n)
  | failure {count : Nat} : Counts total none (count + 1) count

variable {count : Nat} {last : Int} {first : Restoring}

theorem Counts.le {result : Option Nat} {next : Nat} (counts : Counts total result count next) (within : count ≤ total) :
    next ≤ total := by
  cases counts with
  | success short => exact short
  | failure => omega

theorem readLoop_cons (sound : c.Sound) (small : total ≤ 2 ^ 47) (low : addr ≤ 2 ^ 47) (fits : c.count count = count)
    (within : count ≤ total) (ran : readLoop image c addr total s count (result :: reads) = some (s', last))
    (whole : last % 2 ^ 64 = total) :
    ∃ (t : Restoring) (next : Nat), s.read image (addr + count) (total - count) result = some t ∧
      Counts total result count next ∧ c.count next = next ∧
      ((reads = [] ∧ s' = t ∧ next = total) ∨ readLoop image c addr total t next reads = some (s', last)) := by
  have start : (((addr : Int) + count) % 2 ^ 64).toNat = addr + count := by omega
  have rest : (((total : Int) - count) % 2 ^ 64).toNat = total - count := by omega
  rw [readLoop, start, rest] at ran
  obtain ⟨t, read, ran⟩ := bind_eq_some_iff.mp ran
  dsimp only at ran
  -- The count after the read, or one that the assertion refuses.
  have counted : (∃ next : Nat, Counts total result count next ∧ c.count (count + c.rc (returned result)) = next) ∨
      2 ^ 47 < c.count (count + c.rc (returned result)) % 2 ^ 64 := by
    cases result with
    | none =>
      obtain ⟨pos, down⟩ | large := sound.failure count fits (within.trans small)
      · obtain ⟨next, rfl⟩ : ∃ next, count = next + 1 := ⟨count - 1, by omega⟩
        exact .inl ⟨next, .failure, by rw [returned, down]; omega⟩
      · exact .inr large
    | some n =>
      obtain ⟨⟨short, most, -⟩, -⟩ := ite_none_right_eq_some.mp read
      rw [returned, sound.rc n most]
      obtain up | large := sound.success count n fits (within.trans small) most
      · exact .inl ⟨count + n, .success (by omega), by rw [up]; omega⟩
      · exact .inr large
  obtain ⟨next, counts, same⟩ | large := counted
  · have fits' : c.count next = next := by rw [← same, sound.idem]
    rw [same] at ran
    refine ⟨t, next, read, counts, fits', ?_⟩
    split at ran
    · exact .inr ran
    · obtain ⟨ended, ⟨⟩⟩ := ite_none_right_eq_some.mp ran
      have within' := counts.le within
      exact .inl ⟨ended, rfl, by omega⟩
  · rw [if_neg (by omega)] at ran
    obtain ⟨ended, ⟨⟩⟩ := ite_none_right_eq_some.mp ran
    omega

/-- Each failed read takes one from the count, so that one byte more is read. -/
theorem readLoop_offset (sound : c.Sound) (small : total ≤ 2 ^ 47) (low : addr ≤ 2 ^ 47) (fits : c.count count = count)
    (within : count ≤ total) (ran : readLoop image c addr total s count reads = some (s', last))
    (whole : last % 2 ^ 64 = total) : s'.offset + count = s.offset + total + reads.count none := by
  induction reads generalizing s count with
  | nil => cases ran
  | cons result reads ih =>
    obtain ⟨t, next, read, counts, fits', ended⟩ := readLoop_cons sound small low fits within ran whole
    have here : t.offset + count = s.offset + next + [result].count none := by
      cases counts with
      | success short =>
        obtain ⟨-, ⟨⟩⟩ := ite_none_right_eq_some.mp read
        simp
        omega
      | failure =>
        cases read
        simp
        omega
    have later : s'.offset + next = t.offset + total + reads.count none := by
      obtain ⟨rfl, rfl, rfl⟩ | ran := ended
      · simp
      · exact ih fits' (counts.le within) ran
    have split : (result :: reads).count none = [result].count none + reads.count none := by
      rw [← List.count_append]
      rfl
    omega

structure Filled (image : Image) (addr total : Nat) (first s : Restoring) (count : Nat) : Prop where
  offset : s.offset = first.offset + count
  contents : ∀ i, i < count → s.byte (addr + i) = image.byte (first.offset + i)
  inside : ∀ b ∈ s.written, b ∈ first.written ∨ addr ≤ b.addr ∧ b.stop ≤ addr + total

theorem Filled.read {n : Nat} (filled : Filled image addr total first s count) (short : count + n ≤ total)
    (read : s.read image (addr + count) (total - count) (some n) = some s') :
    Filled image addr total first s' (count + n) := by
  obtain ⟨-, ⟨⟩⟩ := ite_none_right_eq_some.mp read
  refine ⟨?_, fun i before => ?_, fun b member => ?_⟩
  · dsimp only
    rw [filled.offset]
    omega
  · dsimp only
    split
    · next now =>
      congr 1
      rw [filled.offset]
      omega
    · next earlier => exact filled.contents i (by omega)
  · obtain old | new := List.mem_append.mp member
    · exact filled.inside b old
    · obtain rfl := List.mem_singleton.mp new
      refine .inr ⟨by dsimp only; omega, ?_⟩
      simp only [Block.stop]
      omega

theorem Filled.readLoop (sound : c.Sound) (small : total ≤ 2 ^ 47) (low : addr ≤ 2 ^ 47)
    (filled : Filled image addr total first s count) (fits : c.count count = count) (within : count ≤ total)
    (ran : readLoop image c addr total s count reads = some (s', last)) (whole : last % 2 ^ 64 = total)
    (succeed : none ∉ reads) : Filled image addr total first s' total := by
  induction reads generalizing s count with
  | nil => cases ran
  | cons result reads ih =>
    obtain ⟨t, next, read, counts, fits', ended⟩ := readLoop_cons sound small low fits within ran whole
    have here : Filled image addr total first t next := by
      cases counts with
      | success short => exact filled.read short read
      | failure => exact absurd (List.mem_cons_self ..) succeed
    obtain ⟨-, rfl, rfl⟩ | ran := ended
    · exact here
    · exact ih here fits' (counts.le within) ran fun member => succeed (List.mem_cons_of_mem _ member)

end Loop

section Area

variable {image : Image} {endOfStack : Nat} {k : RestoreKernel} {s s' : Restoring} {area : ProcMapsArea}

def Restoring.afterHeader (s : Restoring) : Restoring := { s with offset := s.offset + sizeofArea }

/-- The bytes of the area are those that follow its header in the image, nothing else is written, and the next header
follows. -/
def Restored (image : Image) (before after : Restoring) : Prop :=
  let area := image.area before.offset
  Filled image area.addr area.payload before.afterHeader after area.payload

theorem ProcMapsArea.backing_addr {hasFile : Bool} {mapped : ProcMapsArea}
    (backed : area.backing k = some (hasFile, mapped)) : mapped.addr = area.addr := by
  rw [backing] at backed
  split at backed
  · split at backed
    · cases backed
      rfl
    · cases backed
    · split at backed <;> cases backed <;> rfl
  · cases backed
    rfl

theorem Restoring.mapArea_reads (mapped : s.mapArea k area = some s') :
    s'.offset = s.offset ∧ s'.written = s.written ∧ area.addr < 2 ^ 47 := by
  obtain ⟨⟨hasFile, area'⟩, backed, mapped⟩ := bind_eq_some_iff.mp mapped
  obtain ⟨at', ⟨⟩⟩ := ite_none_right_eq_some.mp mapped
  rw [ProcMapsArea.backing_addr backed] at at'
  exact ⟨rfl, rfl, k.user _ at'⟩

theorem restoreMemoryArea_fill (plain : (image.area s.offset).zeroPage = false)
    (noChild : (image.area s.offset).zeroPageChild = false) (noParent : (image.area s.offset).zeroPageParent = false)
    (returns : s.restoreMemoryArea image endOfStack k = some (0, s')) :
    ∃ mapped, s.afterHeader.mapArea k ((image.area s.offset).adjust endOfStack) = some mapped ∧
      mapped.fill image k ((image.area s.offset).adjust endOfStack) = some s' := by
  obtain ⟨-, returns⟩ := ite_none_right_eq_some.mp returns
  dsimp only at returns
  split at returns
  · cases returns
  · rw [if_neg (by simp [ProcMapsArea.adjust, plain]), if_neg (by simp [ProcMapsArea.adjust, noChild])] at returns
    obtain ⟨mapped, maps, returns⟩ := bind_eq_some_iff.mp returns
    rw [if_neg (by simp [ProcMapsArea.adjust, noParent])] at returns
    obtain ⟨filled, fills, returns⟩ := bind_eq_some_iff.mp returns
    obtain ⟨-, ⟨⟩⟩ := ite_none_right_eq_some.mp returns
    exact ⟨mapped, maps, fills⟩

theorem Restoring.fill_loop (filled : s.fill image k area = some s') :
    ∃ (c : Counter) (last : Int), c.Sound ∧ c.count 0 = 0 ∧
      readLoop image c area.addr area.payload s (0 : Nat) k.reads = some (s', last) ∧ last % 2 ^ 64 = area.payload := by
  obtain ⟨⟨after, last⟩, ran, filled⟩ := bind_eq_some_iff.mp filled
  obtain ⟨whole, ⟨⟩⟩ := ite_none_right_eq_some.mp filled
  by_cases file : area.FromFile
  · rw [if_pos file] at ran
    exact ⟨_, last, Counter.int_sound, by decide, ran, whole⟩
  · rw [if_neg file] at ran
    exact ⟨_, last, Counter.sizeT_sound, by decide, ran, whole⟩

end Area

/-- An area that is restored has its bytes, and only they are written, exactly if no `read` of them has failed. -/
theorem restored_iff_no_read_failed (image : Image) (endOfStack : Nat) (k : RestoreKernel) (s s' : Restoring)
    (plain : (image.area s.offset).zeroPage = false) (noParent : (image.area s.offset).zeroPageParent = false)
    (noChild : (image.area s.offset).zeroPageChild = false) (size : (image.area s.offset).size ≤ 2 ^ 47)
    (fileSize : (image.area s.offset).mmapFileSize ≤ 2 ^ 47)
    (returns : s.restoreMemoryArea image endOfStack k = some (0, s')) :
    Restored image s s' ↔ none ∉ k.reads := by
  obtain ⟨mapped, maps, fills⟩ := restoreMemoryArea_fill plain noChild noParent returns
  obtain ⟨offset, written, low⟩ := Restoring.mapArea_reads maps
  obtain ⟨c, last, sound, zero, ran, whole⟩ := Restoring.fill_loop fills
  have small : (image.area s.offset).payload ≤ 2 ^ 47 := by
    rw [ProcMapsArea.payload]
    split
    · exact fileSize
    · exact size
  constructor
  · intro restored failed
    have more : s'.offset + 0 = mapped.offset + (image.area s.offset).payload + k.reads.count none :=
      readLoop_offset sound small (Nat.le_of_lt low) zero (Nat.zero_le _) ran whole
    have exactly := restored.offset
    have counted : 0 < k.reads.count none := List.count_pos_iff.mpr failed
    rw [offset, exactly] at more
    omega
  · intro succeed
    have first : Filled image (image.area s.offset).addr (image.area s.offset).payload s.afterHeader mapped 0 := by
      refine ⟨offset, fun i before => absurd before (Nat.not_lt_zero _), fun b member => .inl ?_⟩
      rwa [written] at member
    exact first.readLoop sound small (Nat.le_of_lt low) zero (Nat.zero_le _) ran whole succeed

def twoPages : ProcMapsArea where
  addr := 2 ^ 20
  endAddr := 2 ^ 20 + 8192
  size := 8192
  offset := 0
  prot := ⟨true, true, false⟩
  flags := ⟨false, true, true, false, false⟩
  zeroPage := false
  zeroPageParent := false
  zeroPageChild := false
  mmapFileSize := 0
  name := []

def twoPagesImage : Image where
  byte := fun at' => if at' < 8192 then 1 else if at' < 12288 then 2 else 3
  size := 16384
  area := fun _ => twoPages

def twoPagesKernel (reads : List (Option Nat)) : RestoreKernel :=
  ⟨4096, none, some (2 ^ 20), by simp, fun _ => 0, true, reads⟩

def unrestored : Restoring := ⟨fun _ => 0, 0, [], []⟩

def twoPagesRestored (reads : List (Option Nat)) : Restoring :=
  ((unrestored.restoreMemoryArea twoPagesImage 0 (twoPagesKernel reads)).map (·.2)).getD unrestored

theorem restored_iff_no_read_failed_two_pages :
    Restored twoPagesImage unrestored (twoPagesRestored [some 4096, some 4096]) ↔
      none ∉ [some 4096, some 4096] :=
  restored_iff_no_read_failed twoPagesImage 0 (twoPagesKernel [some 4096, some 4096]) unrestored _ rfl rfl rfl
    (by decide) (by decide) rfl

/-- A signal after the first page: the last byte of that page is overwritten, and a byte of the next header is gone. -/
theorem interrupted_read_shifts :
    unrestored.restoreMemoryArea twoPagesImage 0 (twoPagesKernel [some 4096, none, some 4097]) =
        some (0, twoPagesRestored [some 4096, none, some 4097]) ∧
      (twoPagesRestored [some 4096, none, some 4097]).byte (2 ^ 20 + 4095) = 2 ∧
      twoPagesImage.byte (0 + sizeofArea + 4095) = 1 ∧
      (twoPagesRestored [some 4096, none, some 4097]).offset = 0 + sizeofArea + 8192 + 1 ∧
      ¬Restored twoPagesImage unrestored (twoPagesRestored [some 4096, none, some 4097]) := by
  have offset : (twoPagesRestored [some 4096, none, some 4097]).offset = 0 + sizeofArea + 8192 + 1 := by decide
  refine ⟨rfl, by decide, by decide, offset, fun restored => ?_⟩
  have exactly := restored.offset
  rw [offset] at exactly
  exact absurd exactly (by decide)

end Restore

end Mana.LowerHalf
