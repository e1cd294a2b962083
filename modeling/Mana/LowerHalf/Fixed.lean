import Mana.LowerHalf.ArenaSound
import Mana.LowerHalf.FirstFit

/-! `MAP_FIXED` in the upper half's own memory. The wrapper passes it to the kernel up to `max_allocated_addr`, and
above it takes a range of the arena. Only some of the paths that map memory raise `max_allocated_addr`. -/

namespace Mana.LowerHalf

open Lib Option

section Mark

def Arena.Inside (a : Arena) (addr length : Nat) : Prop :=
  0 < length ∧ (Block.mk addr (roundUp length pageSize)).cells ⊆ union a.allocated

def World.Honoured (w : World) (addr length : Nat) (flags : MapFlags) : Prop :=
  ∀ log memory arena ret, Runs kernel w.memory (mmapWrapper addr length flags w.arena) log memory (some (arena, some ret)) →
    ret = addr

/-- Once set, `max_allocated_addr` is not below the start of a page of the allocated blocks. -/
def Arena.Marked (a : Arena) : Prop :=
  a.maxAllocated = 0 ∨ ∀ x ∈ union a.allocated, x < a.maxAllocated + pageSize

def Arena.Chooses (a : Arena) (addr : Nat) (flags : MapFlags) : Prop :=
  addr = 0 ∨ flags.fixed = false ∨ a.maxAllocated ≠ 0 ∧ a.maxAllocated < addr

/-- A call after which `max_allocated_addr` is still right: a mapping at the caller's address has no page that starts
above it, and it is set for the first time by a mapping above all others. -/
def Arena.KeepsMark (a : Arena) : SysCall → Prop
  | .mmap addr length flags =>
    (a.Chooses addr flags → a.maxAllocated = 0 → ∀ x ∈ union a.allocated, ∀ y ∈ union a.free, x < y) ∧
      (¬a.Chooses addr flags → a.maxAllocated ≠ 0 → addr + roundUp length pageSize ≤ a.maxAllocated + pageSize)
  | .munmap _ _ => True
  | .mremap .. => a.maxAllocated ≠ 0

/-- A run whose calls all keep `max_allocated_addr` right. -/
inductive Start.ReachesKeeping (start : Start) : World → Prop where
  | init : start.ReachesKeeping start.world
  | lowerHalf {w : World} {memory : Memory} (before : start.ReachesKeeping w) (maps : lowerHalfMaps w.memory memory) :
      start.ReachesKeeping ⟨w.arena, memory⟩
  | call {w : World} {call : SysCall} {log : List (Event Memory KernelCall KernelCall.Answer)} {memory : Memory}
      {arena : Arena} {ret : Option Nat} (before : start.ReachesKeeping w) (allowed : call.admissible)
      (keeps : w.arena.KeepsMark call)
      (runs : Runs kernel w.memory (call.run w.arena) log memory (some (arena, ret))) :
      start.ReachesKeeping ⟨arena, memory.settle⟩

theorem Start.ReachesKeeping.reaches {start : Start} {w : World} (reached : start.ReachesKeeping w) : start.Reaches w := by
  induction reached with
  | init => exact .init
  | lowerHalf _ maps ih => exact ih.lowerHalf maps
  | call _ allowed _ runs ih => exact ih.call allowed runs

end Mark

section Picks

variable {a a' : Arena} {m : Memory}

structure Raised (length : Nat) (a : Arena) (result : Arena × Option Nat) : Prop where
  allocated : result.1.allocated = a.allocated
  failed : result.2 = none → result.1.maxAllocated = a.maxAllocated
  mapped : ∀ ret, result.2 = some ret →
    result.1.maxAllocated = max a.maxAllocated (ret + length) ∧ (Block.mk ret length).cells ⊆ union a.free

theorem arenaMmap_raises (purpose : Purpose) (hint length tries : Nat) (good : Good a m.upper) :
    Ensures kernel m (arenaMmap purpose hint length tries a) fun _ _ => Raised length a := by
  induction tries generalizing a m with
  | zero => exact .done ⟨rfl, fun _ => rfl, nofun⟩
  | succ tries ih =>
    unfold arenaMmap
    split
    · exact .done ⟨rfl, fun _ => rfl, nofun⟩
    next addr fits =>
      refine .ask fun m₁ answer m₂ ⟨sameUpper, _, _⟩ answered => ?_
      cases answer with
      | mapped =>
        refine .done ⟨rfl, nofun, ?_⟩
        rintro _ ⟨⟩
        obtain ⟨b, member, -, inside⟩ := nextFreeAddr_inside fits
        exact ⟨rfl, fun x isNew => ⟨b, member, inside isNew⟩⟩
      | failed => exact .done ⟨rfl, fun _ => rfl, nofun⟩
      | exist =>
        obtain rfl : m₂ = m₁ := answered
        refine .ask fun m₃ maps m₄ ⟨sameUpper₃, _, _⟩ ⟨mapsPositive, _, same⟩ => ?_
        subst same
        obtain ⟨free, removed, shrunk⟩ :=
          @removeMappings_shrunk addr length maps a.free mapsPositive good.free good.freeNonNull
        have upper₃ : m₄.upper = m.upper := sameUpper₃.trans sameUpper
        rw [removed]
        refine .bind (.done ((ih (upper₃ ▸ shrunk.good good)).mono fun _ _ result raised => ?_))
        refine ⟨raised.allocated, raised.failed, fun ret isRet => ?_⟩
        obtain ⟨raise, inside⟩ := raised.mapped ret isRet
        exact ⟨raise, inside.trans shrunk.shrinks⟩

theorem noteMapped_allocated {new : Block} (good : Good a m.upper) (positive : 0 < new.len) (nonNull : 0 < new.addr)
    (noted : noteMapped a new = some a') :
    a'.maxAllocated = a.maxAllocated ∧ union a'.allocated = union a.allocated ∪ new.cells := by
  obtain ⟨_, same, good'⟩ := good.noteMapped new positive nonNull
  cases noted.symm.trans same
  obtain ⟨_, _, rfl⟩ := map_eq_some_iff.mp noted
  exact ⟨rfl, by rw [good'.exact, good.exact]⟩

theorem noteRemapped_max {old new : Block} {dontunmap : Bool} (noted : noteRemapped a old new dontunmap = some a') :
    a'.maxAllocated = max a.maxAllocated new.stop := by
  obtain ⟨a₁, unmapped, noted⟩ := bind_eq_some_iff.mp noted
  obtain ⟨a₂, mapped, rfl⟩ := map_eq_some_iff.mp noted
  obtain ⟨_, _, rfl⟩ := map_eq_some_iff.mp mapped
  cases dontunmap with
  | true =>
    cases unmapped
    rfl
  | false =>
    obtain ⟨_, _, rfl⟩ := map_eq_some_iff.mp unmapped
    rfl

theorem Arena.Marked.of_subset (new : Set Nat) (marked : a.Marked) (set : a.maxAllocated ≠ 0)
    (raises : a.maxAllocated ≤ a'.maxAllocated) (subset : union a'.allocated ⊆ union a.allocated ∪ new)
    (below : ∀ x ∈ new, x < a'.maxAllocated + pageSize) : a'.Marked := by
  refine .inr fun x isAllocated => ?_
  rcases subset isAllocated with wasAllocated | isNew
  · have := (marked.resolve_left set) x wasAllocated
    omega
  · exact below x isNew

end Picks

section Keeps

variable {a : Arena} {m : Memory}

theorem mmapWrapper_marks {addr length : Nat} {flags : MapFlags} (good : Good a m.upper) (marked : a.Marked)
    (keeps : a.KeepsMark (.mmap addr length flags)) :
    Ensures kernel m (mmapWrapper addr length flags a) fun _ _ result => result.1.Marked := by
  unfold mmapWrapper
  dsimp only
  rw [if_neg good.base.ne']
  split_ifs with chosen
  · refine .bind (((arenaMmap_ensures .caller addr _ maxTries good).and
      (arenaMmap_raises .caller addr _ maxTries good)).mono ?_)
    rintro log m' ⟨a', ret⟩ ⟨picked, raised⟩
    have sameAllocated : a'.allocated = a.allocated := raised.allocated
    cases ret with
    | none =>
      have sameMax : a'.maxAllocated = a.maxAllocated := raised.failed rfl
      refine .done ?_
      simp only [Arena.Marked, sameAllocated, sameMax]
      exact marked
    | some ret =>
      obtain ⟨nonNull, positive, -, upper⟩ := picked.mapped ret rfl
      obtain ⟨raise, inside⟩ := raised.mapped ret rfl
      obtain ⟨noted, isNoted, goodNoted⟩ := picked.good.noteMapped ⟨ret, roundUp length pageSize⟩ positive nonNull
      obtain ⟨max, allocated⟩ := noteMapped_allocated picked.good positive nonNull isNoted
      dsimp only at raise max allocated ⊢
      rw [isNoted]
      refine .done (.inr fun x isAllocated => ?_)
      dsimp only at isAllocated ⊢
      rw [allocated, sameAllocated] at isAllocated
      rw [max, raise]
      rcases isAllocated with wasAllocated | ⟨-, before⟩
      · rcases marked with unset | below
        · have := keeps.1 chosen unset x wasAllocated ret (inside ⟨Nat.le_refl _, by simp only [Block.stop]; omega⟩)
          omega
        · have := below x wasAllocated
          omega
      · simp only [Block.stop] at before
        omega
  · refine .ask ?_
    rintro m₁ ret m₂ ⟨sameUpper, -, -⟩ answered
    have good₁ : Good a m₁.upper := sameUpper ▸ good
    cases ret with
    | none => exact .done marked
    | some ret =>
      obtain ⟨positive, nonNull, atAddr, -⟩ := answered
      obtain rfl : ret = addr := atAddr rfl
      obtain ⟨noted, isNoted, goodNoted⟩ := good₁.noteMapped ⟨ret, roundUp length pageSize⟩ positive nonNull
      obtain ⟨max, allocated⟩ := noteMapped_allocated good₁ positive nonNull isNoted
      dsimp only
      rw [isNoted]
      refine .done ?_
      by_cases set : a.maxAllocated = 0
      · exact .inl (max.trans set)
      · refine marked.of_subset _ set max.ge allocated.subset fun x isNew => ?_
        have := keeps.2 chosen set
        simp only [Block.mem_cells, Block.stop] at isNew
        dsimp only at max ⊢
        omega

theorem munmapWrapper_marks (addr length : Nat) (good : Good a m.upper) (marked : a.Marked) :
    Ensures kernel m (munmapWrapper addr length a) fun _ _ result => result.1.Marked := by
  unfold munmapWrapper
  split_ifs with null
  · exact .done marked
  · refine .ask fun m₁ ok m₂ ⟨sameUpper, _, _⟩ answered => ?_
    have good₁ : Good a m₁.upper := sameUpper ▸ good
    cases ok with
    | false => exact .done marked
    | true =>
      obtain ⟨noted, isNoted, goodNoted⟩ :=
        good₁.noteUnmapped ⟨addr, roundUp length pageSize⟩ answered.1 (Nat.pos_of_ne_zero null)
      have max : noted.maxAllocated = a.maxAllocated := by
        obtain ⟨_, _, rfl⟩ := map_eq_some_iff.mp isNoted
        rfl
      have allocated : union noted.allocated ⊆ union a.allocated := by
        rw [goodNoted.exact, good₁.exact]
        exact Set.sdiff_subset
      dsimp only
      rw [isNoted]
      refine .done (marked.imp (max.trans ·) fun below x isAllocated => ?_)
      rw [show (noted, some 0).1.maxAllocated = a.maxAllocated from max]
      exact below x (allocated isAllocated)

def Raises (a : Arena) (result : Arena × Option Nat) : Prop :=
  result.1.allocated = a.allocated ∧ a.maxAllocated ≤ result.1.maxAllocated

theorem moveBlock_raises (old oldSize newSize : Nat) (flags : RemapFlags) (good : Good a m.upper) :
    Ensures kernel m (moveBlock old oldSize newSize flags a) fun _ _ => Raises a := by
  unfold moveBlock
  split_ifs
  · exact .done ⟨rfl, Nat.le_refl _⟩
  refine .bind ((arenaMmap_raises .reservation 0 newSize maxTries good).mono fun log m' ⟨a', target⟩ raised => ?_)
  cases target with
  | none => exact .done ⟨raised.allocated, (raised.failed rfl).ge⟩
  | some target =>
    have raises : Raises a (a', some target) :=
      ⟨raised.allocated, (Nat.le_max_left _ _).trans (raised.mapped target rfl).1.ge⟩
    refine .ask fun m₁ ret m₂ _ _ => ?_
    cases ret with
    | none => exact .ask fun _ _ _ _ _ => .done raises
    | some ret => exact .done raises

variable {old oldSize newSize new : Nat} {flags : RemapFlags}

theorem remapBlock_raises (good : Good a m.upper) :
    Ensures kernel m (remapBlock old oldSize newSize flags new a) fun _ _ => Raises a := by
  unfold remapBlock
  dsimp only
  split_ifs with passed inPlace
  · exact .ask fun m₁ ret m₂ _ _ => .done ⟨rfl, Nat.le_refl _⟩
  · refine .ask fun m₁ ret m₂ ⟨sameUpper, _, _⟩ answered => ?_
    cases ret with
    | none =>
      obtain rfl : m₂ = m₁ := answered
      exact moveBlock_raises old oldSize newSize flags (sameUpper ▸ good)
    | some ret => exact .done ⟨rfl, Nat.le_refl _⟩
  · exact moveBlock_raises old oldSize newSize flags good

theorem mremapWrapper_marks (good : Good a m.upper) (oldPositive : 0 < oldSize) (marked : a.Marked)
    (set : a.maxAllocated ≠ 0) :
    Ensures kernel m (mremapWrapper old oldSize newSize flags new a) fun _ _ result => result.1.Marked := by
  have roundedPositive : 0 < roundUp oldSize pageSize := roundUp_pos oldPositive
  refine .bind (((remapBlock_ensures good).and (remapBlock_raises good)).mono
    fun log m' ⟨a', ret⟩ ⟨remapped, sameAllocated, raises⟩ => ?_)
  dsimp only at sameAllocated raises
  cases ret with
  | none =>
    refine .done (marked.of_subset ∅ set raises ?_ nofun)
    rw [sameAllocated]
    exact Set.subset_union_left
  | some ret =>
    obtain ⟨oldNonNull, positive, nonNull, -⟩ := remapped.moved ret rfl
    obtain ⟨noted, isNoted, goodNoted⟩ := remapped.good.noteRemapped ⟨old, roundUp oldSize pageSize⟩
      ⟨ret, roundUp newSize pageSize⟩ flags.dontunmap roundedPositive oldNonNull positive nonNull
    have max := noteRemapped_max isNoted
    dsimp only
    rw [isNoted]
    refine .done (marked.of_subset (Block.mk ret (roundUp newSize pageSize)).cells set (raises.trans ?_) ?_ ?_)
    · exact (Nat.le_max_left _ _).trans max.ge
    · rw [goodNoted.exact, ← sameAllocated, remapped.good.exact]
      refine Set.union_subset_union_left _ ?_
      split_ifs
      · exact subset_rfl
      · exact Set.sdiff_subset
    · intro x isNew
      simp only [Block.mem_cells, Block.stop] at isNew max
      dsimp only
      omega

end Keeps

section Runs

variable {start : Start} {w : World}

theorem Start.Reaches.reserved (reached : start.Reaches w) : w.memory.reserved = ∅ := by
  induction reached with
  | init => rfl
  | lowerHalf _ maps ih => exact maps.2.1.trans ih
  | call => rfl

theorem Start.ReachesKeeping.marked (clear : ∀ b ∈ start.maps, b.addr ≠ start.base) (first : start.world.arena.Marked)
    (reached : start.ReachesKeeping w) : w.arena.Marked := by
  induction reached with
  | init => exact first
  | lowerHalf _ _ ih => exact ih
  | @call w call _ _ _ _ before allowed keeps runs ih =>
    have good := before.reaches.good clear
    have marks : Ensures kernel w.memory (call.run w.arena) fun _ _ result => result.1.Marked := by
      cases call with
      | mmap addr length flags => exact mmapWrapper_marks good ih keeps
      | munmap addr length => exact munmapWrapper_marks addr length good ih
      | mremap old oldSize newSize flags new => exact mremapWrapper_marks good allowed ih keeps
    obtain ⟨_, ⟨⟩, holds⟩ := marks _ _ _ runs
    exact holds

theorem Arena.Inside.mem {a : Arena} {addr length : Nat} (inside : a.Inside addr length) :
    addr ∈ union a.allocated ∧ addr + (pageSize - 1) ∈ union a.allocated := by
  have page : pageSize ≤ roundUp length pageSize := by
    have := inside.1
    simp only [roundUp, pageSize]
    omega
  have positive : 0 < pageSize := by decide
  constructor <;> refine inside.2 ?_ <;> simp only [Block.mem_cells, Block.stop] <;> omega

theorem World.honoured_of {addr length : Nat} {flags : MapFlags} (based : w.arena.base ≠ 0) (nonNull : addr ≠ 0)
    (fixed : flags.fixed = true)
    (passed : w.arena.maxAllocated = 0 ∨ addr ≤ w.arena.maxAllocated ∨
      nextFreeAddr w.arena.free addr (roundUp length pageSize) = none) : w.Honoured addr length flags := by
  intro log memory arena ret runs
  unfold mmapWrapper at runs
  dsimp only at runs
  rw [if_neg based] at runs
  split_ifs at runs with chosen
  · have above := (chosen.resolve_left nonNull).resolve_left (by simp [fixed])
    have full := (passed.resolve_left above.1).resolve_left (Nat.not_le.mpr above.2)
    rw [maxTries, arenaMmap, full] at runs
    cases runs
  · cases runs with
    | @ask _ _ _ _ _ answer _ _ _ _ answered later =>
      cases answer with
      | none => cases later
      | some at' =>
        obtain ⟨-, -, same, -⟩ := answered
        obtain rfl := same rfl
        dsimp only at later
        cases noted : noteMapped w.arena ⟨at', roundUp length pageSize⟩ with
        | none =>
          rw [noted] at later
          cases later
        | some a' =>
          rw [noted] at later
          cases later
          rfl

/-- Above `max_allocated_addr`, a call may get the first free range. -/
theorem World.exists_run {addr length ret : Nat} {flags : MapFlags} (good : Good w.arena w.memory.upper)
    (settled : w.memory.reserved = ∅) (set : w.arena.maxAllocated ≠ 0) (above : w.arena.maxAllocated < addr)
    (positive : 0 < length) (room : nextFreeAddr w.arena.free addr (roundUp length pageSize) = some ret) :
    ret ∈ union w.arena.free ∧ ∃ log memory arena,
      Runs kernel w.memory (mmapWrapper addr length flags w.arena) log memory (some (arena, some ret)) := by
  obtain ⟨b, member, from', inside⟩ := nextFreeAddr_inside room
  have rounded : 0 < roundUp length pageSize := roundUp_pos positive
  have nonNull : 0 < ret := Nat.lt_of_lt_of_le (good.freeNonNull b member) from'
  have free : (Block.mk ret (roundUp length pageSize)).cells ⊆ union w.arena.free := fun x isNew =>
    ⟨b, member, inside isNew⟩
  obtain ⟨noted, isNoted, -⟩ := (good.raise (max w.arena.maxAllocated (ret + roundUp length pageSize))).noteMapped
    ⟨ret, roundUp length pageSize⟩ rounded nonNull
  refine ⟨free ⟨Nat.le_refl _, by simp only [Block.stop]; omega⟩, ?_⟩
  -- The lower half has unmapped all its memory when the kernel is asked.
  let emptied : Memory := ⟨w.memory.upper, ∅, w.memory.reserved⟩
  have others : lowerHalfMaps w.memory emptied := ⟨rfl, rfl, Set.empty_disjoint _⟩
  have apart : Disjoint (Block.mk ret (roundUp length pageSize)).cells emptied.mapped := by
    refine Set.disjoint_left.mpr fun x isNew => ?_
    rintro ((isUpper | isForeign) | isReserved)
    · exact good.not_mem_upper (free isNew) isUpper
    · exact isForeign
    · exact absurd (settled ▸ isReserved) (Set.notMem_empty x)
  refine ⟨[⟨emptied, .mmapFixedNoreplace .caller ret (roundUp length pageSize), Try.mapped⟩],
    emptied.map ⟨ret, roundUp length pageSize⟩, noted, ?_⟩
  unfold mmapWrapper
  dsimp only
  rw [if_neg good.base.ne', if_pos (.inr (.inr ⟨set, above⟩)), maxTries, arenaMmap, room]
  refine .ask others ⟨rounded, nonNull, apart, rfl⟩ ?_
  dsimp only [Program.bind]
  rw [isNoted]
  exact .done

/-- In every state, a call in the allocated blocks is honoured exactly if `max_allocated_addr` is not set or not below
the address, or the arena has no room. In a run whose calls all keep `max_allocated_addr` right, every call in the
allocated blocks is honoured. -/
theorem fixed_honoured_iff (start : Start) (clear : ∀ b ∈ start.maps, b.addr ≠ start.base) :
    (∀ w, start.Reaches w → ∀ addr length flags, flags.fixed = true → w.arena.Inside addr length →
      (w.Honoured addr length flags ↔ w.arena.maxAllocated = 0 ∨ addr ≤ w.arena.maxAllocated ∨
        nextFreeAddr w.arena.free addr (roundUp length pageSize) = none)) ∧
    (start.world.arena.Marked → ∀ w, start.ReachesKeeping w → w.arena.Marked ∧
      ∀ addr length flags, flags.fixed = true → w.arena.Inside addr length → w.Honoured addr length flags) := by
  have nonNull {w : World} (reached : start.Reaches w) {addr length : Nat} (inside : w.arena.Inside addr length) :
      addr ≠ 0 := by
    obtain ⟨b, member, from', -⟩ := inside.mem.1
    exact (Nat.lt_of_lt_of_le ((reached.good clear).allocatedNonNull b member) from').ne'
  constructor
  · intro w reached addr length flags fixed inside
    have good := reached.good clear
    refine ⟨fun honoured => ?_, World.honoured_of good.base.ne' (nonNull reached inside) fixed⟩
    by_contra refused
    simp only [not_or] at refused
    obtain ⟨ret, room⟩ := ne_none_iff_exists'.mp refused.2.2
    obtain ⟨isFree, log, memory, arena, runs⟩ :=
      World.exists_run good reached.reserved refused.1 (Nat.not_le.mp refused.2.1) inside.1 room
    obtain rfl := honoured log memory arena ret runs
    exact Set.disjoint_left.mp good.apart isFree inside.mem.1
  · intro first w reached
    have marked := reached.marked clear first
    refine ⟨marked, fun addr length flags fixed inside => ?_⟩
    refine World.honoured_of (reached.reaches.good clear).base.ne' (nonNull reached.reaches inside) fixed ?_
    refine marked.imp id fun below => .inl ?_
    have last := below _ inside.mem.2
    have positive : 0 < pageSize := by decide
    omega

def emptyArena : Start where
  maxAllocated := 0
  allocated := []
  foreign := ∅
  base := 8192
  maps := []
  separated := separated_nil
  nonNull := nofun
  below := nofun
  basePositive := mappedAtBase.basePositive
  mapsPositive := nofun
  mapsSorted := .nil

/-- A page at 8192, in an arena whose memory was empty. -/
def onePage : World where
  arena := ⟨8192, 12288, [⟨8192, 4096⟩], [⟨12288, (2 ^ 64 - 1) / 2 - 4096⟩]⟩
  memory := ((Memory.mk ∅ ∅ ∅).map ⟨8192, 4096⟩).settle

/-- Then three pages from there on, with `MAP_FIXED`: `max_allocated_addr` stays the end of the first. -/
def threePages : World where
  arena := ⟨8192, 12288, [⟨8192, 12288⟩], [⟨20480, (2 ^ 64 - 1) / 2 - 12288⟩]⟩
  memory := (onePage.memory.map ⟨8192, 12288⟩).settle

theorem reaches_onePage : emptyArena.Reaches onePage := by
  have runs : Runs kernel emptyArena.world.memory ((SysCall.mmap 0 4096 ⟨false, false⟩).run emptyArena.world.arena)
      [⟨⟨∅, ∅, ∅⟩, .mmapFixedNoreplace .caller 8192 4096, Try.mapped⟩] ((Memory.mk ∅ ∅ ∅).map ⟨8192, 4096⟩)
      (some (onePage.arena, some 8192)) := by
    have unused : union ([] : List Block) = ∅ := Set.eq_empty_of_forall_notMem fun _ => not_mem_union_nil
    refine .ask ⟨unused.symm, rfl, Set.empty_disjoint _⟩ ⟨by decide, by decide, ?_, rfl⟩ .done
    simp [Memory.mapped]
  exact .call .init (show (SysCall.mmap 0 4096 ⟨false, false⟩).admissible from trivial) runs

theorem reaches_threePages : emptyArena.Reaches threePages := by
  have runs : Runs kernel onePage.memory ((SysCall.mmap 8192 12288 ⟨true, false⟩).run onePage.arena)
      [⟨onePage.memory, .mmap 8192 12288 ⟨true, false⟩, some 8192⟩] (onePage.memory.map ⟨8192, 12288⟩)
      (some (threePages.arena, some 8192)) := by
    refine .ask ⟨rfl, rfl, ?_⟩ ⟨by decide, by decide, fun _ => rfl, nofun, rfl⟩ .done
    simp [onePage, Memory.settle, Memory.lowerHalf, Memory.map, Memory.unmap]
  exact reaches_onePage.call (show (SysCall.mmap 8192 12288 ⟨true, false⟩).admissible from trivial) runs

/-- A call for the third page with `MAP_FIXED` maps a page behind the three. -/
theorem fixed_maps_elsewhere : emptyArena.Reaches threePages ∧ threePages.arena.Inside 16384 4096 ∧
    threePages.arena.maxAllocated = 12288 ∧ nextFreeAddr threePages.arena.free 16384 4096 = some 32768 ∧
      ¬threePages.Honoured 16384 4096 ⟨true, false⟩ := by
  have room : nextFreeAddr threePages.arena.free 16384 (roundUp 4096 pageSize) = some 32768 := by decide
  have good := reaches_threePages.good (by decide)
  obtain ⟨-, log, memory, arena, runs⟩ :=
    @World.exists_run _ _ _ _ ⟨true, false⟩ good reaches_threePages.reserved (by decide) (by decide) (by decide) room
  refine ⟨reaches_threePages, ⟨by decide, fun x inside => ?_⟩, rfl, room, fun honoured => ?_⟩
  · have rounded : roundUp 4096 pageSize = 4096 := by decide
    simp only [Block.mem_cells, Block.stop, rounded] at inside
    exact ⟨⟨8192, 12288⟩, List.mem_singleton_self _, by simp only [Block.mem_cells, Block.stop]; omega⟩
  · exact absurd (honoured log memory arena 32768 runs) (by decide)

theorem fixed_honoured_iff_empty :
    (∀ b ∈ emptyArena.maps, b.addr ≠ emptyArena.base) ∧ emptyArena.world.arena.Marked ∧
      (∀ addr length flags, flags.fixed = true → threePages.arena.Inside addr length →
        (threePages.Honoured addr length flags ↔ threePages.arena.maxAllocated = 0 ∨
          addr ≤ threePages.arena.maxAllocated ∨
            nextFreeAddr threePages.arena.free addr (roundUp length pageSize) = none)) ∧
      ∀ w, emptyArena.ReachesKeeping w → w.arena.Marked :=
  ⟨by decide, .inl rfl, (fixed_honoured_iff emptyArena (by decide)).1 _ reaches_threePages,
    fun w reached => ((fixed_honoured_iff emptyArena (by decide)).2 (.inl rfl) w reached).1⟩

end Runs

end Mana.LowerHalf
