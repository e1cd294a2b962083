import Mana.LowerHalf.Arena

/-! The lists of the arena over whole runs. What a wrapper records is what the kernel has done, so the lists stay in
order and exact, but `init_mem_arena` makes an empty free block when a mapping starts at the arena's base. -/

namespace Mana.LowerHalf

open Lib Option

structure Good (a : Arena) (upper : Set Nat) : Prop extends ArenaSound a upper where
  allocatedNonNull : ∀ b ∈ a.allocated, 0 < b.addr
  freeNonNull : ∀ b ∈ a.free, 0 < b.addr
  base : 0 < a.base

section Lists

variable {a : Arena} {upper : Set Nat}

theorem ArenaSound.not_mem_upper (sound : ArenaSound a upper) {x : Nat} (isFree : x ∈ union a.free) : x ∉ upper := by
  rw [← sound.exact]
  exact Set.disjoint_left.mp sound.apart isFree

theorem Good.noteMapped (good : Good a upper) (new : Block) (positive : 0 < new.len) (nonNull : 0 < new.addr) :
    ∃ a', LowerHalf.noteMapped a new = some a' ∧ Good a' (upper ∪ new.cells) := by
  refine ⟨{ a with allocated := insertRange new a.allocated, free := removeRange new a.free }, ?_, ?_⟩
  · rw [LowerHalf.noteMapped, removeOverlapBlocks_eq good.free good.freeNonNull positive,
      mergeOverlapBlocks_eq good.allocated positive]
    rfl
  · constructor
    · refine ⟨good.allocated.insertRange positive, good.free.removeRange positive, ?_, ?_⟩
      · ext x
        rw [← good.exact]
        exact mem_union_insertRange.trans or_comm
      · refine Set.disjoint_left.mpr fun x isFree isAllocated => ?_
        obtain ⟨wasFree, notNew⟩ := mem_union_removeRange.mp isFree
        rcases mem_union_insertRange.mp isAllocated with isNew | wasAllocated
        · exact notNew isNew
        · exact Set.disjoint_left.mp good.apart wasFree wasAllocated
    · exact fun b member => lt_addr_of_mem_insertRange member nonNull good.allocatedNonNull
    · exact fun b member => lt_addr_of_mem_removeRange member good.freeNonNull
    · exact good.base

theorem Good.noteUnmapped (good : Good a upper) (new : Block) (positive : 0 < new.len) (nonNull : 0 < new.addr) :
    ∃ a', LowerHalf.noteUnmapped a new = some a' ∧ Good a' (upper \ new.cells) := by
  refine ⟨{ a with allocated := removeRange new a.allocated, free := insertRange new a.free }, ?_, ?_⟩
  · rw [LowerHalf.noteUnmapped, removeOverlapBlocks_eq good.allocated good.allocatedNonNull positive,
      mergeOverlapBlocks_eq good.free positive]
    rfl
  · constructor
    · refine ⟨good.allocated.removeRange positive, good.free.insertRange positive, ?_, ?_⟩
      · ext x
        rw [← good.exact]
        exact mem_union_removeRange
      · refine Set.disjoint_left.mpr fun x isFree isAllocated => ?_
        obtain ⟨wasAllocated, notNew⟩ := mem_union_removeRange.mp isAllocated
        rcases mem_union_insertRange.mp isFree with isNew | wasFree
        · exact notNew isNew
        · exact Set.disjoint_left.mp good.apart wasFree wasAllocated
    · exact fun b member => lt_addr_of_mem_removeRange member good.allocatedNonNull
    · exact fun b member => lt_addr_of_mem_insertRange member nonNull good.freeNonNull
    · exact good.base

theorem Good.raise (good : Good a upper) (maxAllocated : Nat) : Good { a with maxAllocated } upper := by
  obtain ⟨⟨allocated, free, exact, apart⟩, allocatedNonNull, freeNonNull, base⟩ := good
  exact ⟨⟨allocated, free, exact, apart⟩, allocatedNonNull, freeNonNull, base⟩

theorem Good.noteRemapped (good : Good a upper) (old new : Block) (dontunmap : Bool) (oldPositive : 0 < old.len)
    (oldNonNull : 0 < old.addr) (positive : 0 < new.len) (nonNull : 0 < new.addr) :
    ∃ a', LowerHalf.noteRemapped a old new dontunmap = some a' ∧
      Good a' ((if dontunmap then upper else upper \ old.cells) ∪ new.cells) := by
  obtain ⟨a₁, unmapped, good₁⟩ : ∃ a₁, (if dontunmap then some a else LowerHalf.noteUnmapped a old) = some a₁ ∧
      Good a₁ (if dontunmap then upper else upper \ old.cells) := by
    cases dontunmap with
    | true => exact ⟨a, rfl, good⟩
    | false => exact good.noteUnmapped old oldPositive oldNonNull
  obtain ⟨a', mapped, good'⟩ := good₁.noteMapped new positive nonNull
  refine ⟨{ a' with maxAllocated := max a'.maxAllocated new.stop }, ?_, good'.raise _⟩
  rw [LowerHalf.noteRemapped, unmapped, bind_some, mapped, map_some]

end Lists

section Free

structure Shrunk (before after : List Block) (lost : Set Nat) : Prop where
  separated : Separated after
  nonNull : ∀ b ∈ after, 0 < b.addr
  shrinks : union after ⊆ union before
  lost : ∀ x ∈ union before, x ∉ union after → x ∈ lost

theorem Shrunk.trans {first second third : List Block} {lost later : Set Nat} (one : Shrunk first second lost)
    (two : Shrunk second third later) : Shrunk first third (lost ∪ later) where
  separated := two.separated
  nonNull := two.nonNull
  shrinks := two.shrinks.trans one.shrinks
  lost x wasFree notFree := by
    by_cases between : x ∈ union second
    · exact .inr (two.lost x between notFree)
    · exact .inl (one.lost x wasFree between)

theorem Shrunk.mono {before after : List Block} {lost more : Set Nat} (shrunk : Shrunk before after lost)
    (le : lost ⊆ more) : Shrunk before after more :=
  ⟨shrunk.separated, shrunk.nonNull, shrunk.shrinks, fun x wasFree notFree => le (shrunk.lost x wasFree notFree)⟩

theorem Shrunk.refl {free : List Block} (separated : Separated free) (nonNull : ∀ b ∈ free, 0 < b.addr) :
    Shrunk free free ∅ :=
  ⟨separated, nonNull, subset_rfl, fun _ isFree notFree => absurd isFree notFree⟩

theorem shrunk_removeRange {free : List Block} {b : Block} (separated : Separated free)
    (nonNull : ∀ b ∈ free, 0 < b.addr) (positive : 0 < b.len) : Shrunk free (removeRange b free) b.cells where
  separated := separated.removeRange positive
  nonNull _ member := lt_addr_of_mem_removeRange member nonNull
  shrinks _ isFree := (mem_union_removeRange.mp isFree).1
  lost x wasFree notFree := by
    by_contra outside
    exact notFree (mem_union_removeRange.mpr ⟨wasFree, outside⟩)

theorem removeMappings_shrunk {addr length : Nat} {maps free : List Block} (positive : ∀ b ∈ maps, 0 < b.len)
    (separated : Separated free) (nonNull : ∀ b ∈ free, 0 < b.addr) :
    ∃ after, removeMappings addr length maps free = some after ∧ Shrunk free after (union maps) := by
  induction maps generalizing free with
  | nil => exact ⟨free, rfl, (Shrunk.refl separated nonNull).mono (Set.empty_subset _)⟩
  | cons b maps ih =>
    obtain ⟨bPositive, mapsPositive⟩ := List.forall_mem_cons.mp positive
    have step : ∃ free₁, removeMapping addr length b free = some free₁ ∧ Shrunk free free₁ b.cells := by
      unfold removeMapping
      split_ifs
      · exact ⟨_, removeOverlapBlocks_eq separated nonNull bPositive, shrunk_removeRange separated nonNull bPositive⟩
      · exact ⟨free, rfl, (Shrunk.refl separated nonNull).mono (Set.empty_subset _)⟩
    obtain ⟨free₁, removed, shrunk₁⟩ := step
    rw [removeMappings, removed, bind_some]
    split_ifs with last
    · exact ⟨free₁, rfl, shrunk₁.mono fun x inside => mem_union_cons.mpr (.inl inside)⟩
    · obtain ⟨after, removed₂, shrunk₂⟩ := ih mapsPositive shrunk₁.separated shrunk₁.nonNull
      refine ⟨after, removed₂, (shrunk₁.trans shrunk₂).mono ?_⟩
      rintro x (inside | inside)
      · exact mem_union_cons.mpr (.inl inside)
      · exact mem_union_cons.mpr (.inr inside)

end Free

section Reserve

abbrev Log := List (Event Memory KernelCall KernelCall.Answer)

variable {a a' : Arena} {upper : Set Nat} {log : Log}

theorem LostToLowerHalf.refl (a : Arena) (log : Log) : LostToLowerHalf a a log :=
  ⟨rfl, subset_rfl, fun _ isFree notFree => absurd isFree notFree⟩

theorem LostToLowerHalf.mono {more : Log} (lost : LostToLowerHalf a a' log) (le : log ⊆ more) :
    LostToLowerHalf a a' more where
  allocated := lost.allocated
  shrinks := lost.shrinks
  lost x wasFree notFree := by
    obtain ⟨e, member, inside⟩ := lost.lost x wasFree notFree
    exact ⟨e, le member, inside⟩

theorem LostToLowerHalf.trans {first second third : Arena} (one : LostToLowerHalf first second log)
    (two : LostToLowerHalf second third log) : LostToLowerHalf first third log where
  allocated := two.allocated.trans one.allocated
  shrinks := two.shrinks.trans one.shrinks
  lost x wasFree notFree := by
    by_cases between : x ∈ union second.free
    · exact two.lost x between notFree
    · exact one.lost x wasFree between

/-- What `arena_mmap` does: the lists still say what was mapped before, and a range that it returns is mapped for its
purpose and was not mapped. -/
structure Picked (purpose : Purpose) (length : Nat) (a : Arena) (m : Memory) (log : Log) (m' : Memory)
    (result : Arena × Option Nat) : Prop where
  good : Good result.1 m.upper
  lost : LostToLowerHalf a result.1 log
  replacesNothing : ∀ e ∈ log, ¬Replaces e
  failed : result.2 = none → m'.upper = m.upper
  mapped : ∀ ret, result.2 = some ret → 0 < ret ∧ 0 < length ∧ Disjoint (Block.mk ret length).cells m.upper ∧
    match purpose with
      | .caller => m'.upper = m.upper ∪ (Block.mk ret length).cells
      | .reservation => m'.upper = m.upper ∧ (Block.mk ret length).cells ⊆ m'.reserved

variable {e : Event Memory KernelCall KernelCall.Answer} {free : List Block} {lost : Set Nat} {a : Arena} {m : Memory}

theorem not_replaces_of_disjoint (apart : Disjoint (e.call.target e.answer) e.state.mapped) : ¬Replaces e := by
  rintro ⟨x, isTarget, isMapped⟩
  exact Set.disjoint_left.mp apart isTarget (.inl isMapped)

theorem not_replaces_of_target_empty (empty : e.call.target e.answer = ∅) : ¬Replaces e :=
  not_replaces_of_disjoint (by rw [empty]; exact Set.empty_disjoint _)

theorem Shrunk.good (good : Good a upper) (shrunk : Shrunk a.free free lost) : Good { a with free } upper where
  allocated := good.allocated
  free := shrunk.separated
  exact := good.exact
  apart := good.apart.mono_left shrunk.shrinks
  allocatedNonNull := good.allocatedNonNull
  freeNonNull := shrunk.nonNull
  base := good.base

theorem Shrunk.lostToLowerHalf (good : Good a e.state.upper) (shrunk : Shrunk a.free free lost)
    (occupied : lost ⊆ e.state.mapped) : LostToLowerHalf a { a with free } [e] where
  allocated := rfl
  shrinks := shrunk.shrinks
  lost x wasFree notFree := by
    -- A mapping over a free address is not one of the upper half.
    have notUpper : x ∉ e.state.upper := good.not_mem_upper wasFree
    rcases occupied (shrunk.lost x wasFree notFree) with (isUpper | isForeign) | isReserved
    · exact absurd isUpper notUpper
    · exact ⟨e, List.mem_singleton_self e, .inl isForeign⟩
    · exact ⟨e, List.mem_singleton_self e, .inr isReserved⟩

theorem Picked.later {purpose : Purpose} {length : Nat} {a₁ : Arena} {m₁ m' : Memory} {log : Log}
    {result : Arena × Option Nat} (first : Log) (sameUpper : m₁.upper = m.upper) (lost : LostToLowerHalf a a₁ first)
    (silent : ∀ e ∈ first, ¬Replaces e) (picked : Picked purpose length a₁ m₁ log m' result) :
    Picked purpose length a m (first ++ log) m' result where
  good := sameUpper ▸ picked.good
  lost := (lost.mono (List.subset_append_left first log)).trans (picked.lost.mono (List.subset_append_right first log))
  replacesNothing := List.forall_mem_append.mpr ⟨silent, picked.replacesNothing⟩
  failed := sameUpper ▸ picked.failed
  mapped := sameUpper ▸ picked.mapped

theorem arenaMmap_ensures (purpose : Purpose) (hint length tries : Nat) (good : Good a m.upper) :
    Ensures kernel m (arenaMmap purpose hint length tries a) (Picked purpose length a m) := by
  induction tries generalizing a m with
  | zero => exact .done ⟨good, .refl a [], nofun, fun _ => rfl, nofun⟩
  | succ tries ih =>
    unfold arenaMmap
    split
    · exact .done ⟨good, .refl a [], nofun, fun _ => rfl, nofun⟩
    next addr fits =>
      refine .ask fun m₁ answer m₂ ⟨sameUpper, sameReserved, foreignApart⟩ answered => ?_
      cases answer with
      | mapped =>
        obtain ⟨positive, nonNull, apart, rfl⟩ := answered
        have silent : ¬Replaces ⟨m₁, .mmapFixedNoreplace purpose addr length, Try.mapped⟩ :=
          not_replaces_of_disjoint apart
        refine .done ⟨good.raise _, ⟨rfl, subset_rfl, fun _ isFree notFree => absurd isFree notFree⟩,
          List.forall_mem_singleton.mpr silent, nofun, ?_⟩
        rintro ret ⟨⟩
        refine ⟨nonNull, positive, ?_, ?_⟩
        · rw [← sameUpper]
          exact apart.mono_right fun x isUpper => .inl (.inl isUpper)
        · cases purpose with
          | caller =>
            change m₁.upper ∪ _ = _
            rw [sameUpper]
          | reservation => exact ⟨sameUpper, Set.subset_union_right⟩
      | failed =>
        obtain rfl : m₂ = m₁ := answered
        have silent : ¬Replaces ⟨m₂, .mmapFixedNoreplace purpose addr length, Try.failed⟩ :=
          not_replaces_of_target_empty rfl
        exact .done ⟨good, .refl a _, List.forall_mem_singleton.mpr silent, fun _ => sameUpper, nofun⟩
      | exist =>
        obtain rfl : m₂ = m₁ := answered
        refine .ask fun m₃ maps m₄ ⟨sameUpper₃, _, _⟩ ⟨mapsPositive, mapsMapped, same⟩ => ?_
        subst same
        have upper₃ : m₄.upper = m.upper := sameUpper₃.trans sameUpper
        obtain ⟨free, removed, shrunk⟩ :=
          @removeMappings_shrunk addr length maps a.free mapsPositive good.free good.freeNonNull
        have silent : ¬Replaces ⟨m₂, .mmapFixedNoreplace purpose addr length, Try.exist⟩ :=
          not_replaces_of_target_empty rfl
        have silentRead : ¬Replaces ⟨m₄, .readMaps, maps⟩ := not_replaces_of_target_empty rfl
        have lost : LostToLowerHalf a { a with free } [⟨m₄, .readMaps, maps⟩] :=
          shrunk.lostToLowerHalf (upper₃ ▸ good) mapsMapped
        rw [removed]
        refine .bind (.done ((ih (upper₃ ▸ shrunk.good good)).mono fun log m' result picked => ?_))
        refine picked.later [⟨m₂, .mmapFixedNoreplace purpose addr length, Try.exist⟩, ⟨m₄, .readMaps, maps⟩] upper₃
          (lost.mono (List.subset_cons_self _ _)) ?_
        exact List.forall_mem_cons.mpr ⟨silent, List.forall_mem_singleton.mpr silentRead⟩

end Reserve

section Wrappers

variable {a : Arena} {m : Memory}

structure Served (fixed : Bool) (a : Arena) (log : Log) (m' : Memory) (result : Arena × Option Nat) : Prop where
  good : Good result.1 m'.upper
  silent : fixed = false → ∀ e ∈ log, ¬Replaces e
  failed : result.2 = none → LostToLowerHalf a result.1 log

theorem mmapWrapper_ensures (addr length : Nat) (flags : MapFlags) (good : Good a m.upper) :
    Ensures kernel m (mmapWrapper addr length flags a) (Served flags.fixed a) := by
  unfold mmapWrapper
  dsimp only
  rw [if_neg good.base.ne']
  split_ifs with chosen
  · refine .bind ((arenaMmap_ensures .caller addr _ maxTries good).mono fun log m' ⟨a', ret⟩ picked => ?_)
    obtain ⟨good', lost, silent, failed, mapped⟩ := picked
    cases ret with
    | none =>
      refine .done ⟨?_, fun _ => by rwa [List.append_nil], fun _ => by rwa [List.append_nil]⟩
      rw [failed rfl]
      exact good'
    | some ret =>
      obtain ⟨nonNull, positive, -, upper⟩ := mapped ret rfl
      obtain ⟨noted, isNoted, goodNoted⟩ := good'.noteMapped ⟨ret, roundUp length pageSize⟩ positive nonNull
      dsimp only
      rw [isNoted]
      refine .done ⟨?_, fun _ => by rwa [List.append_nil], nofun⟩
      rw [upper]
      exact goodNoted
  · -- The kernel maps at the caller's address, which asked for just that.
    have isFixed : flags.fixed = true := by
      cases fixed : flags.fixed
      · exact absurd (.inr (.inl fixed)) chosen
      · rfl
    have vacuous {log : Log} : flags.fixed = false → ∀ e ∈ log, ¬Replaces e := fun notFixed => nomatch isFixed ▸ notFixed
    refine .ask fun m₁ ret m₂ ⟨sameUpper, _, _⟩ answered => ?_
    have good₁ : Good a m₁.upper := sameUpper ▸ good
    cases ret with
    | none =>
      obtain rfl : m₂ = m₁ := answered
      exact .done ⟨good₁, vacuous, fun _ => .refl a _⟩
    | some ret =>
      obtain ⟨positive, nonNull, -, -, rfl⟩ := answered
      obtain ⟨noted, isNoted, goodNoted⟩ := good₁.noteMapped ⟨ret, roundUp length pageSize⟩ positive nonNull
      dsimp only
      rw [isNoted]
      exact .done ⟨goodNoted, vacuous, nofun⟩

theorem munmapWrapper_ensures (addr length : Nat) (good : Good a m.upper) :
    Ensures kernel m (munmapWrapper addr length a) (Served false a) := by
  unfold munmapWrapper
  split_ifs with null
  · exact .done ⟨good, fun _ => nofun, fun _ => .refl a []⟩
  · refine .ask fun m₁ ok m₂ ⟨sameUpper, _, _⟩ answered => ?_
    have good₁ : Good a m₁.upper := sameUpper ▸ good
    have silent : ¬Replaces ⟨m₁, .munmap addr (roundUp length pageSize), ok⟩ := not_replaces_of_target_empty rfl
    cases ok with
    | false =>
      obtain rfl : m₂ = m₁ := answered
      exact .done ⟨good₁, fun _ => List.forall_mem_singleton.mpr silent, fun _ => .refl a _⟩
    | true =>
      obtain ⟨positive, rfl⟩ := answered
      obtain ⟨noted, isNoted, goodNoted⟩ :=
        good₁.noteUnmapped ⟨addr, roundUp length pageSize⟩ positive (Nat.pos_of_ne_zero null)
      dsimp only
      rw [isNoted]
      exact .done ⟨goodNoted, fun _ => List.forall_mem_singleton.mpr silent, nofun⟩

structure Remapped (fixed dontunmap : Bool) (old : Block) (newSize : Nat) (a : Arena) (m : Memory) (log : Log)
    (m' : Memory) (result : Arena × Option Nat) : Prop where
  good : Good result.1 m.upper
  silent : fixed = false → ∀ e ∈ log, ¬Replaces e
  lost : LostToLowerHalf a result.1 log
  failed : result.2 = none → m'.upper = m.upper
  moved : ∀ ret, result.2 = some ret → 0 < old.addr ∧ 0 < newSize ∧ 0 < ret ∧
    m'.upper = (if dontunmap then m.upper else m.upper \ old.cells) ∪ (Block.mk ret newSize).cells

theorem upper_remap (m : Memory) (old new : Block) (dontunmap : Bool) :
    ((if dontunmap then m else m.unmap old).map new).upper =
      (if dontunmap then m.upper else m.upper \ old.cells) ∪ new.cells := by
  cases dontunmap <;> rfl

theorem moveBlock_ensures (old oldSize newSize : Nat) (flags : RemapFlags) (good : Good a m.upper) :
    Ensures kernel m (moveBlock old oldSize newSize flags a)
      (Remapped false flags.dontunmap ⟨old, oldSize⟩ newSize a m) := by
  unfold moveBlock
  split_ifs
  · exact .done ⟨good, fun _ => nofun, .refl a [], fun _ => rfl, nofun⟩
  refine .bind ((arenaMmap_ensures .reservation 0 newSize maxTries good).mono fun log m' ⟨a', target⟩ picked => ?_)
  obtain ⟨good', lost, silent, failed, mapped⟩ := picked
  cases target with
  | none =>
    refine .done ⟨good', fun _ => by rwa [List.append_nil], by rwa [List.append_nil], fun _ => failed rfl, nofun⟩
  | some target =>
    obtain ⟨nonNull, positive, apart, sameUpper, reserved⟩ := mapped target rfl
    refine .ask fun m₁ ret m₂ ⟨sameUpper₁, _, foreignApart⟩ answered => ?_
    have upper₁ : m₁.upper = m.upper := sameUpper₁.trans sameUpper
    cases ret with
    | none =>
      obtain rfl : m₂ = m₁ := answered
      refine .ask fun m₃ ok m₄ ⟨sameUpper₃, _, _⟩ answered => .done ?_
      have upper₃ : m₃.upper = m.upper := sameUpper₃.trans upper₁
      refine ⟨good', fun _ => List.forall_mem_append.mpr ⟨silent, ?_⟩, lost.mono (List.subset_append_left _ _),
        fun _ => ?_, nofun⟩
      · exact List.forall_mem_cons.mpr ⟨not_replaces_of_target_empty rfl,
          List.forall_mem_singleton.mpr (not_replaces_of_target_empty rfl)⟩
      · cases ok with
        | false =>
          obtain rfl : m₄ = m₃ := answered
          exact upper₃
        | true =>
          obtain ⟨-, rfl⟩ := answered
          change m₃.upper \ _ = _
          rw [upper₃]
          exact sdiff_eq_left.mpr apart.symm
    | some ret =>
      obtain ⟨oldNonNull, -, retNonNull, -, -, atTarget, -, -, rfl⟩ := answered
      obtain ⟨-, rfl⟩ := atTarget rfl
      refine .done ⟨good', fun _ => List.forall_mem_append.mpr ⟨silent, ?_⟩, lost.mono (List.subset_append_left _ _),
        nofun, ?_⟩
      · refine List.forall_mem_singleton.mpr ?_
        rintro ⟨x, ⟨isTarget, -⟩, isUpper | isForeign⟩
        · exact Set.disjoint_left.mp apart isTarget (upper₁ ▸ isUpper)
        · exact Set.disjoint_left.mp foreignApart isForeign (.inr (reserved isTarget))
      · rintro _ ⟨⟩
        refine ⟨oldNonNull, positive, retNonNull, ?_⟩
        rw [upper_remap, upper₁]

theorem roundUp_pos {n : Nat} (positive : 0 < n) : 0 < roundUp n pageSize := by
  simp only [roundUp, pageSize]
  omega

variable {newSize old oldSize new : Nat} {m₁ m' : Memory} {flags : RemapFlags}

theorem Remapped.later {fixed dontunmap : Bool} {old : Block} {log : Log} {result : Arena × Option Nat} (first : Log)
    (sameUpper : m₁.upper = m.upper) (silent : fixed = false → ∀ e ∈ first, ¬Replaces e)
    (remapped : Remapped false dontunmap old newSize a m₁ log m' result) :
    Remapped fixed dontunmap old newSize a m (first ++ log) m' result where
  good := sameUpper ▸ remapped.good
  silent notFixed := List.forall_mem_append.mpr ⟨silent notFixed, remapped.silent rfl⟩
  lost := remapped.lost.mono (List.subset_append_right first log)
  failed := sameUpper ▸ remapped.failed
  moved := sameUpper ▸ remapped.moved

/-- What a kernel call that the wrapper makes with its caller's own flags, or in place, leaves behind. -/
theorem remapped_of_answer {ret : Option Nat} (fixed : Bool) (good : Good a m.upper) (sameUpper : m₁.upper = m.upper)
    (asks : fixed = false → flags.fixed = false)
    (answered : kernelAnswers m₁ (.mremap old oldSize newSize flags new) ret m') :
    Remapped fixed flags.dontunmap ⟨old, oldSize⟩ newSize a m [⟨m₁, .mremap old oldSize newSize flags new, ret⟩] m'
      (a, ret) := by
  cases ret with
  | none =>
    obtain rfl : m' = m₁ := answered
    exact ⟨good, fun _ => List.forall_mem_singleton.mpr (not_replaces_of_target_empty rfl), .refl a _,
      fun _ => sameUpper, nofun⟩
  | some ret =>
    obtain ⟨oldNonNull, positive, retNonNull, -, -, -, -, apart, rfl⟩ := answered
    refine ⟨good, fun notFixed => List.forall_mem_singleton.mpr (not_replaces_of_disjoint (apart (asks notFixed))),
      .refl a _, nofun, ?_⟩
    rintro _ ⟨⟩
    exact ⟨oldNonNull, positive, retNonNull, by rw [upper_remap, sameUpper]⟩

theorem remapBlock_ensures (good : Good a m.upper) :
    Ensures kernel m (remapBlock old oldSize newSize flags new a)
      (Remapped flags.fixed flags.dontunmap ⟨old, oldSize⟩ newSize a m) := by
  unfold remapBlock
  dsimp only
  split_ifs with passed inPlace
  · refine .ask fun m₁ ret m₂ ⟨sameUpper, _, _⟩ answered => .done ?_
    exact remapped_of_answer flags.fixed good sameUpper id answered
  · have keeps : flags.dontunmap = false := inPlace.1
    refine .ask fun m₁ ret m₂ ⟨sameUpper, _, _⟩ answered => ?_
    have remapped := remapped_of_answer flags.fixed good sameUpper (fun _ => rfl) answered
    cases ret with
    | none =>
      obtain rfl : m₂ = m₁ := answered
      refine (moveBlock_ensures old oldSize newSize flags (sameUpper ▸ good)).mono fun log m' result moved => ?_
      exact moved.later [_] sameUpper remapped.silent
    | some ret =>
      refine .done ?_
      rw [keeps]
      exact remapped
  · refine (moveBlock_ensures old oldSize newSize flags good).mono fun log m' result moved => ?_
    exact moved.later [] rfl fun _ => nofun

theorem mremapWrapper_ensures (good : Good a m.upper) (oldPositive : 0 < oldSize) :
    Ensures kernel m (mremapWrapper old oldSize newSize flags new a) (Served flags.fixed a) := by
  have roundedPositive : 0 < roundUp oldSize pageSize := roundUp_pos oldPositive
  refine .bind ((remapBlock_ensures good).mono fun log m' ⟨a', ret⟩ remapped => ?_)
  obtain ⟨good', silent, lost, failed, moved⟩ := remapped
  cases ret with
  | none =>
    refine .done ⟨?_, by rwa [List.append_nil], fun _ => by rwa [List.append_nil]⟩
    rw [failed rfl]
    exact good'
  | some ret =>
    obtain ⟨oldNonNull, positive, nonNull, upper⟩ := moved ret rfl
    obtain ⟨noted, isNoted, goodNoted⟩ := good'.noteRemapped ⟨old, roundUp oldSize pageSize⟩
      ⟨ret, roundUp newSize pageSize⟩ flags.dontunmap roundedPositive oldNonNull positive nonNull
    dsimp only
    rw [isNoted]
    refine .done ⟨?_, by rwa [List.append_nil], nofun⟩
    rw [upper]
    exact goodNoted

theorem SysCall.run_ensures {call : SysCall} (good : Good a m.upper) (allowed : call.admissible) :
    Ensures kernel m (call.run a) (Served call.fixed a) := by
  cases call with
  | mmap addr length flags => exact mmapWrapper_ensures addr length flags good
  | munmap addr length => exact munmapWrapper_ensures addr length good
  | mremap old oldSize newSize flags new => exact mremapWrapper_ensures good allowed

end Wrappers

section WholeRuns

theorem initMemArena_free (start : Start) (clear : ∀ b ∈ start.maps, b.addr ≠ start.base) :
    ∃ len, 0 < len ∧ start.world.arena.free = [⟨start.base, len⟩] := by
  simp only [Start.world, initMemArena]
  cases found : start.maps.find? fun b => decide (start.base ≤ b.addr) with
  | none => exact ⟨(2 ^ 64 - 1) / 2, by decide, rfl⟩
  | some b =>
    have above : start.base ≤ b.addr := by
      have holds := List.find?_some found
      exact of_decide_eq_true holds
    have apart : b.addr ≠ start.base := clear b (List.mem_of_find?_eq_some found)
    exact ⟨b.addr - start.base, by omega, rfl⟩

theorem initMemArena_good (start : Start) (clear : ∀ b ∈ start.maps, b.addr ≠ start.base) :
    Good start.world.arena start.world.memory.upper := by
  obtain ⟨len, positive, isFree⟩ := initMemArena_free start clear
  have freeAbove {x : Nat} (inside : x ∈ union start.world.arena.free) : start.base ≤ x := by
    rw [isFree, mem_union_cons] at inside
    rcases inside with inside | inside
    · exact inside.1
    · exact absurd inside not_mem_union_nil
  constructor
  · refine ⟨start.separated, ?_, rfl, Set.disjoint_left.mpr ?_⟩
    · rw [isFree]
      exact separated_cons.mpr ⟨positive, nofun, separated_nil⟩
    · rintro x inside ⟨b, member, -, before⟩
      exact absurd (freeAbove inside) (Nat.not_le_of_lt (before.trans_le (start.below b member)))
  · exact start.nonNull
  · rw [isFree]
    exact List.forall_mem_singleton.mpr start.basePositive
  · exact start.basePositive

theorem Start.Reaches.good {start : Start} {w : World} (clear : ∀ b ∈ start.maps, b.addr ≠ start.base)
    (reached : start.Reaches w) : Good w.arena w.memory.upper := by
  induction reached with
  | init => exact initMemArena_good start clear
  | lowerHalf before maps ih =>
    rw [maps.1]
    exact ih
  | call before allowed runs ih =>
    obtain ⟨_, ⟨⟩, served⟩ := SysCall.run_ensures ih allowed _ _ _ runs
    exact served.good

theorem initMemArena_free_of_atBase (start : Start) {b : Block} (member : b ∈ start.maps)
    (atBase : b.addr = start.base) : start.world.arena.free = [⟨start.base, 0⟩] := by
  have reaches : start.base ≤ b.addr := atBase.ge
  obtain ⟨c, isFirst⟩ : ∃ c, start.maps.find? (fun b => decide (start.base ≤ b.addr)) = some c :=
    isSome_iff_exists.mp (List.find?_isSome.mpr ⟨b, member, decide_eq_true reaches⟩)
  obtain ⟨above, before, after, split, notBefore⟩ := List.find?_eq_some_iff_append.mp isFirst
  have same : c.addr = start.base := by
    have above : start.base ≤ c.addr := of_decide_eq_true above
    have sorted := start.mapsSorted
    have positive := start.mapsPositive c (split ▸ List.mem_append_right before List.mem_cons_self)
    rw [split] at member sorted
    rcases List.mem_append.mp member with isBefore | isLater
    · exact absurd (notBefore b isBefore) (by simp [reaches])
    · rcases List.mem_cons.mp isLater with rfl | isAfter
      · exact atBase
      · have apart := List.rel_of_pairwise_cons (List.pairwise_append.mp sorted).2.1 isAfter
        simp only [Block.stop] at apart
        omega
  simp only [Start.world, initMemArena, isFirst, same, Nat.sub_self]

/-- The lists are in order and exact in every state, and every call keeps to its part, just when no mapping starts at
the arena's base while `init_mem_arena` reads the mappings. -/
theorem arena_sound_iff (start : Start) :
    (∀ w, start.Reaches w → ArenaSound w.arena w.memory.upper ∧
        ∀ call : SysCall, call.admissible → CallSound w call) ↔
      ∀ b ∈ start.maps, b.addr ≠ start.base := by
  constructor
  · intro sound b member atBase
    have separated := (sound _ .init).1.free
    rw [initMemArena_free_of_atBase start member atBase] at separated
    exact absurd (separated.positive _ List.mem_cons_self) (Nat.lt_irrefl 0)
  · intro clear w reached
    have good := reached.good clear
    refine ⟨good.toArenaSound, fun call allowed => ?_⟩
    exact (SysCall.run_ensures good allowed).mono fun _ _ _ served => ⟨served.silent, served.failed⟩

/-- A restart whose highest restored area ends at 8192, where the lower half has mapped a page. -/
def mappedAtBase : Start where
  maxAllocated := 8192
  allocated := [⟨4096, 4096⟩]
  foreign := (Block.mk 8192 4096).cells
  base := 8192
  maps := [⟨4096, 4096⟩, ⟨8192, 4096⟩]
  separated := separated_cons.mpr ⟨by decide, nofun, separated_nil⟩
  nonNull := by decide
  below := by decide
  basePositive := by decide
  mapsPositive := by decide
  mapsSorted := by decide

/-- The free list has one block, and it is empty. -/
theorem init_leaves_empty_block : mappedAtBase.Reaches mappedAtBase.world ∧
    mappedAtBase.world.arena.free = [⟨8192, 0⟩] ∧
      ¬ArenaSound mappedAtBase.world.arena mappedAtBase.world.memory.upper := by
  have free : mappedAtBase.world.arena.free = [⟨8192, 0⟩] := by decide
  refine ⟨.init, free, fun sound => ?_⟩
  have positive := sound.free.positive ⟨8192, 0⟩ (by rw [free]; exact List.mem_cons_self)
  exact absurd positive (Nat.lt_irrefl 0)

end WholeRuns

end Mana.LowerHalf
