import Mana.Lib.Machine
import Mana.LowerHalf.Arena
import Mathlib.Algebra.Group.Int.Defs

/-! The heap of the upper half: a break of its own in a reserved region, which `uhSbrk` moves for the upper half's
libc. The pages up to the break are readable and writable; the pages behind it are released. -/

namespace Mana.LowerHalf

open Lib Function

section Sbrk

def uhBrkReserve : Nat := 2 ^ 36

structure Heap where
  brk : Nat
  base : Nat
  stop : Nat
  libcText : Nat
  libcTextEnd : Nat
  readWrite : Nat → Bool
  byte : Nat → UInt8

/-- A call of `sbrk`: where it comes from, its argument, whether the kernel calls that it makes succeed, and the
kernel's own break. -/
structure SbrkCall where
  caller : Nat
  increment : Int
  madvise : Bool
  mprotect : Bool
  kernelBrk : Nat
  deriving DecidableEq, Repr

/-- The region that `patchSbrk` has reserved, somewhere in the address space, and the code of the upper half's libc. -/
structure Reserved where
  start : Nat
  libcText : Nat
  libcLen : Nat
  aligned : start % pageSize = 0
  fits : start + uhBrkReserve + pageSize ≤ 2 ^ 64

def Reserved.patchSbrk (r : Reserved) : Heap where
  brk := r.start + pageSize
  base := r.start + pageSize
  stop := r.start + uhBrkReserve
  libcText := r.libcText
  libcTextEnd := r.libcText + r.libcLen
  readWrite := fun page => page = r.start / pageSize
  byte := fun _ => 0

namespace Heap

def mprotect (s : Heap) (first last : Nat) (readWrite succeeds : Bool) : Heap × Bool :=
  if succeeds then
    ({ s with
       readWrite := fun page => if first ≤ page * pageSize ∧ page * pageSize < last then readWrite else s.readWrite page },
      true)
  else (s, false)

def madvise (s : Heap) (first last : Nat) (succeeds : Bool) : Heap × Bool :=
  if succeeds then ({ s with byte := fun addr => if first ≤ addr ∧ addr < last then 0 else s.byte addr }, true)
  else (s, false)

def movedBrk (s : Heap) (increment : Int) : Nat := ((s.brk + increment) % 2 ^ 64).toNat

def movePages (s : Heap) (brk : Nat) (call : SbrkCall) : Heap × Bool :=
  let first := roundUp s.brk pageSize
  let last := roundUp brk pageSize
  if first < last then s.mprotect first last true call.mprotect
  else if last < first then
    match s.madvise last first call.madvise with
    | (s, true) => s.mprotect last first false call.mprotect
    | (s, false) => (s, false)
  else (s, true)

/-- No value is -1. -/
def uhSbrk (s : Heap) (call : SbrkCall) : Heap × Option Nat :=
  if call.caller < s.libcText ∨ s.libcTextEnd ≤ call.caller then
    (s, if call.increment = 0 then some call.kernelBrk else none)
  else
    let brk := s.movedBrk call.increment
    if s.base ≤ brk ∧ brk ≤ s.stop then
      match s.movePages brk call with
      | (moved, true) => ({ moved with brk }, some s.brk)
      | (moved, false) => (moved, none)
    else (s, none)

end Heap

inductive HeapAct where
  | sbrk (call : SbrkCall)
  | store (addr : Nat) (value : UInt8)

def Heap.step (s : Heap) : HeapAct → Option Heap
  | .sbrk call => some (s.uhSbrk call).1
  | .store addr value =>
    if s.base ≤ addr ∧ addr < s.stop ∧ s.readWrite (addr / pageSize) then
      some { s with byte := update s.byte addr value }
    else none

def Reserved.machine (r : Reserved) : Machine Heap HeapAct where
  initial s := s = r.patchSbrk
  step := Heap.step

def Heap.Accessible (s : Heap) : Prop :=
  ∀ page, s.base ≤ page * pageSize → page * pageSize < s.stop →
    (s.readWrite page = true ↔ page * pageSize < roundUp s.brk pageSize)

def Heap.Zeroed (s : Heap) : Prop := ∀ addr, roundUp s.brk pageSize ≤ addr → addr < s.stop → s.byte addr = 0

structure Heap.Sound (s : Heap) : Prop where
  base : s.base % pageSize = 0
  stop : s.stop % pageSize = 0
  fits : s.stop + pageSize ≤ 2 ^ 64
  above : s.base ≤ s.brk
  below : s.brk ≤ s.stop
  accessible : s.Accessible
  zeroed : s.Zeroed

theorem roundUp_page (addr : Nat) : roundUp addr pageSize = (addr + 4095) / 4096 * 4096 := by
  have same : addr + 4096 - 1 = addr + 4095 := by omega
  rw [roundUp, pageSize, same]

namespace Heap

variable {s : Heap} {call : SbrkCall} {brk : Nat}

def protect (s : Heap) (first last : Nat) (readWrite : Bool) : Nat → Bool := fun page =>
  if first ≤ page * pageSize ∧ page * pageSize < last then readWrite else s.readWrite page

def discard (s : Heap) (first last : Nat) : Nat → UInt8 := fun addr =>
  if first ≤ addr ∧ addr < last then 0 else s.byte addr

inductive Moves (s : Heap) (brk : Nat) (call : SbrkCall) : Heap → Bool → Prop where
  | enters (grows : roundUp s.brk pageSize < roundUp brk pageSize) :
      Moves s brk call { s with readWrite := s.protect (roundUp s.brk pageSize) (roundUp brk pageSize) true } true
  | releases (shrinks : roundUp brk pageSize < roundUp s.brk pageSize) (protects : call.mprotect = true) :
      Moves s brk call
        { s with
          byte := s.discard (roundUp brk pageSize) (roundUp s.brk pageSize)
          readWrite := s.protect (roundUp brk pageSize) (roundUp s.brk pageSize) false } true
  | stays (same : roundUp brk pageSize = roundUp s.brk pageSize) : Moves s brk call s true
  | fails (whole : ¬(roundUp brk pageSize < roundUp s.brk pageSize ∧ call.madvise = true ∧ call.mprotect = false)) :
      Moves s brk call s false
  | halfReleases (shrinks : roundUp brk pageSize < roundUp s.brk pageSize) (advised : call.madvise = true)
      (kept : call.mprotect = false) :
      Moves s brk call { s with byte := s.discard (roundUp brk pageSize) (roundUp s.brk pageSize) } false

theorem movePages_moves (s : Heap) (brk : Nat) (call : SbrkCall) :
    Moves s brk call (s.movePages brk call).1 (s.movePages brk call).2 := by
  rw [movePages]
  by_cases grows : roundUp s.brk pageSize < roundUp brk pageSize
  · rw [if_pos grows]
    cases protects : call.mprotect with
    | true => exact .enters grows
    | false => exact .fails fun ⟨shrinks, _⟩ => Nat.lt_asymm grows shrinks
  · rw [if_neg grows]
    by_cases shrinks : roundUp brk pageSize < roundUp s.brk pageSize
    · rw [if_pos shrinks]
      cases advised : call.madvise with
      | false => exact .fails fun ⟨_, advises, _⟩ => nomatch advised.symm.trans advises
      | true =>
        cases protects : call.mprotect with
        | true => exact .releases shrinks protects
        | false => exact .halfReleases shrinks advised protects
    · rw [if_neg shrinks]
      exact .stays (Nat.le_antisymm (Nat.le_of_not_lt grows) (Nat.le_of_not_lt shrinks))

inductive Sbrks (s : Heap) (call : SbrkCall) : Heap → Option Nat → Prop where
  | outside (refused : ¬(s.base ≤ s.movedBrk call.increment ∧ s.movedBrk call.increment ≤ s.stop)) : Sbrks s call s none
  | moves {moved : Heap} (above : s.base ≤ s.movedBrk call.increment) (below : s.movedBrk call.increment ≤ s.stop)
      (pages : Moves s (s.movedBrk call.increment) call moved true) :
      Sbrks s call { moved with brk := s.movedBrk call.increment } (some s.brk)
  | fails {moved : Heap} (above : s.base ≤ s.movedBrk call.increment) (below : s.movedBrk call.increment ≤ s.stop)
      (pages : Moves s (s.movedBrk call.increment) call moved false) : Sbrks s call moved none

def FromLibc (s : Heap) (call : SbrkCall) : Prop := s.libcText ≤ call.caller ∧ call.caller < s.libcTextEnd

instance (s : Heap) (call : SbrkCall) : Decidable (s.FromLibc call) := inferInstanceAs (Decidable (_ ∧ _))

theorem uhSbrk_sbrks (libc : s.FromLibc call) : Sbrks s call (s.uhSbrk call).1 (s.uhSbrk call).2 := by
  have inText : ¬(call.caller < s.libcText ∨ s.libcTextEnd ≤ call.caller) := by
    have := libc.1
    have := libc.2
    omega
  rw [uhSbrk, if_neg inText]
  dsimp only
  by_cases inside : s.base ≤ s.movedBrk call.increment ∧ s.movedBrk call.increment ≤ s.stop
  · rw [if_pos inside]
    have pages := movePages_moves s (s.movedBrk call.increment) call
    cases moved : s.movePages (s.movedBrk call.increment) call with
    | mk after succeeds =>
      rw [moved] at pages
      cases succeeds with
      | true => exact .moves inside.1 inside.2 pages
      | false => exact .fails inside.1 inside.2 pages
  · rw [if_neg inside]
    exact .outside inside

theorem patchSbrk_sound (r : Reserved) : r.patchSbrk.Sound := by
  have aligned := r.aligned
  have fits := r.fits
  simp only [uhBrkReserve, pageSize] at aligned fits
  refine ⟨?_, ?_, ?_, Nat.le_refl _, ?_, ?_, fun _ _ _ => rfl⟩
  · simp only [Reserved.patchSbrk, pageSize]
    omega
  · simp only [Reserved.patchSbrk, pageSize, uhBrkReserve]
    omega
  · simp only [Reserved.patchSbrk, pageSize, uhBrkReserve]
    omega
  · simp only [Reserved.patchSbrk, pageSize, uhBrkReserve]
    omega
  · intro page above below
    change decide (page = r.start / pageSize) = true ↔ page * pageSize < roundUp (r.start + pageSize) pageSize
    rw [decide_eq_true_eq, roundUp_page]
    simp only [Reserved.patchSbrk, pageSize] at *
    omega

/-- The pages that the break enters become accessible, those that it leaves are emptied and are not. -/
theorem Moves.sound {moved : Heap} (pages : Moves s brk call moved true) (sound : s.Sound) (above : s.base ≤ brk)
    (below : brk ≤ s.stop) : ({ moved with brk } : Heap).Sound := by
  cases pages with
  | enters grows =>
    refine ⟨sound.base, sound.stop, sound.fits, above, below, fun page from' before => ?_, fun addr behind before => ?_⟩
    · have old := sound.accessible page from' before
      simp only [protect]
      split
      · next entered => exact iff_of_true rfl entered.2
      · next other =>
        rw [old]
        omega
    · exact sound.zeroed addr (Nat.le_of_lt (Nat.lt_of_lt_of_le grows behind)) before
  | releases shrinks =>
    refine ⟨sound.base, sound.stop, sound.fits, above, below, fun page from' before => ?_, fun addr behind before => ?_⟩
    · have old := sound.accessible page from' before
      simp only [protect]
      split
      · next left => exact iff_of_false nofun (Nat.not_lt_of_le left.1)
      · next other =>
        rw [old]
        omega
    · simp only [discard]
      split
      · rfl
      · next other => exact sound.zeroed addr (by dsimp only at behind; omega) before
  | stays same =>
    refine ⟨sound.base, sound.stop, sound.fits, above, below, fun page => ?_, fun addr => ?_⟩
    · dsimp only
      rw [same]
      exact sound.accessible page
    · dsimp only
      rw [same]
      exact sound.zeroed addr

theorem Moves.sound_of_fails {moved : Heap} (pages : Moves s brk call moved false) (sound : s.Sound) : moved.Sound := by
  cases pages with
  | fails => exact sound
  | halfReleases =>
    refine { sound with zeroed := fun addr behind before => ?_ }
    simp only [discard]
    split
    · rfl
    · exact sound.zeroed addr behind before

theorem Sound.uhSbrk (sound : s.Sound) (call : SbrkCall) : (s.uhSbrk call).1.Sound := by
  by_cases libc : s.FromLibc call
  · have sbrks := uhSbrk_sbrks libc
    revert sbrks
    generalize (s.uhSbrk call).1 = after, (s.uhSbrk call).2 = ret
    intro sbrks
    cases sbrks with
    | outside => exact sound
    | moves above below pages => exact pages.sound sound above below
    | fails above below pages => exact pages.sound_of_fails sound
  · have elsewhere : call.caller < s.libcText ∨ s.libcTextEnd ≤ call.caller := by
      simp only [FromLibc] at libc
      omega
    rw [Heap.uhSbrk, if_pos elsewhere]
    exact sound

theorem Sound.step {t : Heap} {act : HeapAct} (sound : s.Sound) (taken : s.step act = some t) : t.Sound := by
  cases act with
  | sbrk call =>
    cases taken
    exact sound.uhSbrk call
  | store addr value =>
    obtain ⟨⟨from', before, writable⟩, ⟨⟩⟩ := Option.ite_none_right_eq_some.mp taken
    refine { sound with zeroed := fun addr' behind before' => ?_ }
    dsimp only at behind before' ⊢
    have other : addr' ≠ addr := by
      rintro rfl
      have base := sound.base
      have reached := (sound.accessible (addr' / pageSize)
        (by simp only [pageSize] at *; omega) (by simp only [pageSize] at *; omega)).mp writable
      rw [roundUp_page] at reached behind
      simp only [pageSize] at reached
      omega
    rw [update_of_ne other]
    exact sound.zeroed addr' behind before'

end Heap

theorem Reserved.reachable_sound (r : Reserved) {s : Heap} (reached : Reachable r.machine s) : s.Sound := by
  refine Reachable.invariant Heap.Sound (fun s first => ?_) (fun s act t _ sound taken => sound.step taken) reached
  cases first
  exact Heap.patchSbrk_sound r

/-- What a call of `sbrk` promises. Break and pages stay in order; a successful call returns the old break, keeps what
is below both breaks, and enters pages of zeros; a failing call changes nothing below the break. -/
structure Heap.Keeps (s after : Heap) (ret : Option Nat) : Prop where
  inside : s.base ≤ after.brk ∧ after.brk ≤ s.stop
  accessible : after.Accessible
  success : ∀ old, ret = some old → old = s.brk ∧
    (∀ addr, s.base ≤ addr → addr < min s.brk after.brk → after.byte addr = s.byte addr) ∧
    ∀ addr, roundUp s.brk pageSize ≤ addr → addr < roundUp after.brk pageSize → after.byte addr = 0
  failure : ret = none → after.brk = s.brk ∧ after.readWrite = s.readWrite ∧
    ∀ addr, s.base ≤ addr → addr < s.brk → after.byte addr = s.byte addr

/-- The call gives back pages, and the kernel takes their contents but not the pages. -/
def Heap.HalfReleases (s : Heap) (call : SbrkCall) : Prop :=
  s.base ≤ s.movedBrk call.increment ∧ roundUp (s.movedBrk call.increment) pageSize < roundUp s.brk pageSize ∧
    call.madvise = true ∧ call.mprotect = false

/-- Then the contents of those pages are lost, unless they are zeros. -/
def Heap.LosesNothing (s : Heap) (call : SbrkCall) : Prop :=
  s.HalfReleases call → ∀ addr, roundUp (s.movedBrk call.increment) pageSize ≤ addr → addr < s.brk → s.byte addr = 0

section Calls
variable {s moved : Heap} {call : SbrkCall} {brk : Nat}

theorem le_roundUp (addr : Nat) : addr ≤ roundUp addr pageSize := by
  rw [roundUp_page]
  omega

theorem Heap.Sound.roundUp_le (sound : s.Sound) (below : brk ≤ s.stop) : roundUp brk pageSize ≤ s.stop := by
  have stop := sound.stop
  rw [roundUp_page]
  simp only [pageSize] at stop
  omega

theorem Heap.Moves.success (pages : Heap.Moves s brk call moved true) (sound : s.Sound) (below : brk ≤ s.stop) :
    (∀ addr, addr < min s.brk brk → moved.byte addr = s.byte addr) ∧
      ∀ addr, roundUp s.brk pageSize ≤ addr → addr < roundUp brk pageSize → moved.byte addr = 0 := by
  have zeros : ∀ addr, roundUp s.brk pageSize ≤ addr → addr < roundUp brk pageSize → s.byte addr = 0 := fun addr behind before =>
    sound.zeroed addr behind (Nat.lt_of_lt_of_le before (sound.roundUp_le below))
  cases pages with
  | enters grows | stays => exact ⟨fun _ _ => rfl, zeros⟩
  | releases shrinks =>
    refine ⟨fun addr before => if_neg ?_, fun addr behind before => absurd (Nat.lt_of_le_of_lt behind before) ?_⟩
    · have := le_roundUp brk
      omega
    · exact Nat.not_lt_of_gt shrinks

theorem Heap.Keeps.refl (sound : s.Sound) : s.Keeps s none :=
  ⟨⟨sound.above, sound.below⟩, sound.accessible, nofun, fun _ => ⟨rfl, rfl, fun _ _ _ => rfl⟩⟩

theorem Heap.HalfReleases.below (half : s.HalfReleases call) (sound : s.Sound) : s.movedBrk call.increment ≤ s.stop :=
  (le_roundUp _).trans ((Nat.le_of_lt half.2.1).trans (sound.roundUp_le sound.below))

theorem Heap.Sbrks.keeps_iff {after : Heap} {ret : Option Nat} (sbrks : Heap.Sbrks s call after ret) (sound : s.Sound) :
    s.Keeps after ret ↔ s.LosesNothing call := by
  cases sbrks with
  | outside refused =>
    refine iff_of_true (.refl sound) fun half => ?_
    exact absurd ⟨half.1, half.below sound⟩ refused
  | @moves moved above below pages =>
    have after := pages.sound sound above below
    have kept := pages.success sound below
    refine iff_of_true ⟨⟨above, below⟩, after.accessible, fun old same => ?_, nofun⟩ fun half => ?_
    · cases same
      exact ⟨rfl, fun addr _ => kept.1 addr, kept.2⟩
    · obtain ⟨-, shrinks, -, unprotected⟩ := half
      cases pages with
      | enters grows => exact absurd shrinks (Nat.not_lt_of_gt grows)
      | releases _ protects =>
        rw [unprotected] at protects
        cases protects
      | stays same => exact absurd shrinks (Nat.not_lt_of_le (Nat.le_of_eq same.symm))
  | fails above below pages =>
    cases pages with
    | fails whole => exact iff_of_true (.refl sound) fun half => absurd half.2 whole
    | halfReleases shrinks advised unprotected =>
      constructor
      · intro keeps _ addr behind before
        have same := (keeps.failure rfl).2.2 addr (above.trans ((le_roundUp _).trans behind)) before
        have inside : addr < roundUp s.brk pageSize := Nat.lt_of_lt_of_le before (le_roundUp _)
        rw [← same]
        exact if_pos ⟨behind, inside⟩
      · intro nothing
        refine ⟨⟨sound.above, sound.below⟩, sound.accessible, nofun, fun _ => ⟨rfl, rfl, fun addr _ before => ?_⟩⟩
        simp only [discard]
        split
        · next released => exact (nothing ⟨above, shrinks, advised, unprotected⟩ addr released.1 before).symm
        · rfl

end Calls

/-- Every call of the upper half's libc, in every state of the heap, does what `sbrk` promises, unless it gives back
pages and the kernel takes their contents but leaves the pages: then exactly if the contents were zeros. -/
theorem sbrk_keeps_iff (r : Reserved) {s : Heap} (reached : Reachable r.machine s) (call : SbrkCall)
    (libc : s.FromLibc call) : s.Keeps (s.uhSbrk call).1 (s.uhSbrk call).2 ↔ s.LosesNothing call :=
  (Heap.uhSbrk_sbrks libc).keeps_iff (r.reachable_sound reached)

/-- A region at 2 MB, with the libc's code behind it. -/
def Reserved.low : Reserved := ⟨2 ^ 21, 2 ^ 40, 2 ^ 20, rfl, by decide⟩

/-- The libc asks for two pages, the application stores a byte in the second page, and the libc gives that page back;
`madvise` succeeds and `mprotect` does not. -/
def Reserved.lowGrown : Heap :=
  (Reserved.low.patchSbrk.uhSbrk ⟨2 ^ 40, 8192, true, true, 0⟩).1

def Reserved.lowStored : Heap :=
  { Reserved.lowGrown with byte := update Reserved.lowGrown.byte (2 ^ 21 + 8192) 7 }

def shrinkHalf : SbrkCall := ⟨2 ^ 40, -4096, true, false, 0⟩

theorem reachable_lowStored : Reachable Reserved.low.machine Reserved.lowStored := by
  have grown : Reachable Reserved.low.machine Reserved.lowGrown := .next (.start rfl) (a := .sbrk _) rfl
  have writable : Reserved.lowGrown.base ≤ 2 ^ 21 + 8192 ∧ 2 ^ 21 + 8192 < Reserved.lowGrown.stop ∧
      Reserved.lowGrown.readWrite ((2 ^ 21 + 8192) / pageSize) = true := by decide
  exact grown.next (a := .store (2 ^ 21 + 8192) 7) (if_pos writable)

/-- The call returns -1, and the byte below the break is gone. -/
theorem failed_sbrk_loses_contents :
    Reachable Reserved.low.machine Reserved.lowStored ∧ Reserved.lowStored.FromLibc shrinkHalf ∧
      (Reserved.lowStored.uhSbrk shrinkHalf).2 = none ∧ 2 ^ 21 + 8192 < Reserved.lowStored.brk ∧
      Reserved.lowStored.byte (2 ^ 21 + 8192) = 7 ∧
      (Reserved.lowStored.uhSbrk shrinkHalf).1.byte (2 ^ 21 + 8192) = 0 ∧
      ¬Reserved.lowStored.Keeps (Reserved.lowStored.uhSbrk shrinkHalf).1 (Reserved.lowStored.uhSbrk shrinkHalf).2 := by
  have failed : (Reserved.lowStored.uhSbrk shrinkHalf).2 = none := by decide
  have stored : Reserved.lowStored.byte (2 ^ 21 + 8192) = 7 := by decide
  have lost : (Reserved.lowStored.uhSbrk shrinkHalf).1.byte (2 ^ 21 + 8192) = 0 := by decide
  have below : 2 ^ 21 + 8192 < Reserved.lowStored.brk := by decide
  refine ⟨reachable_lowStored, by decide, failed, below, stored, lost, fun keeps => ?_⟩
  have same := (keeps.failure failed).2.2 (2 ^ 21 + 8192) (by decide) below
  rw [lost, stored] at same
  cases same

theorem sbrk_keeps_iff_low :
    Reserved.lowStored.FromLibc shrinkHalf ∧
      (Reserved.lowStored.Keeps (Reserved.lowStored.uhSbrk shrinkHalf).1 (Reserved.lowStored.uhSbrk shrinkHalf).2 ↔
        Reserved.lowStored.LosesNothing shrinkHalf) :=
  ⟨by decide, sbrk_keeps_iff Reserved.low reachable_lowStored shrinkHalf (by decide)⟩

/-- Whatever is asked for and whichever kernel calls fail, the break stays in its region, the pages up to it are
accessible and no others, and the memory behind them is zero. -/
theorem sbrk_run_keeps_heap (r : Reserved) {s : Heap} (reached : Reachable r.machine s) :
    s.base ≤ s.brk ∧ s.brk ≤ s.stop ∧ s.Accessible ∧ s.Zeroed := by
  obtain ⟨-, -, -, above, below, accessible, zeroed⟩ := r.reachable_sound reached
  exact ⟨above, below, accessible, zeroed⟩

theorem sbrk_run_keeps_heap_low : Reserved.lowStored.Accessible ∧ Reserved.lowStored.Zeroed :=
  (sbrk_run_keeps_heap Reserved.low reachable_lowStored).2.2

end Sbrk

end Mana.LowerHalf
