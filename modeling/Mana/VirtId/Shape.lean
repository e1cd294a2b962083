import Mana.VirtId.Table

/-! What holds of a table in every run, and the table as a finite map from the handles in
use to their entries: `add_virt_id`, `free_virt_id` and `update_virt_id` change the map at
one handle. -/

namespace Mana.VirtId
open Mana.Lib Option Function

variable {δ : Type}

section Reserve

variable {wide : Bool} {reserved : List Bool}

theorem slotIsReserved_grow (extra slot : Nat) :
    slotIsReserved (reserved ++ List.replicate extra false) slot = slotIsReserved reserved slot := by
  unfold slotIsReserved
  by_cases inside : slot < reserved.length
  · rw [List.getElem?_append_left inside]
  · rw [List.getElem?_append_right (Nat.le_of_not_lt inside), List.getElem?_replicate,
      List.getElem?_eq_none (Nat.le_of_not_lt inside)]
    split <;> rfl

theorem slotIsReserved_reserveConstantSlot {slot : Nat} (upper : Handle)
    (before : slotIsReserved reserved slot = true) :
    slotIsReserved (reserveConstantSlot wide reserved upper) slot = true := by
  simp only [reserveConstantSlot]
  split
  · exact before
  · have grown := (slotIsReserved_grow (slotOf (handleValue wide upper) + 1 - reserved.length) slot).trans before
    simp only [slotIsReserved, List.getElem?_set] at grown ⊢
    split
    · split
      · rfl
      · next outside =>
        simp only [List.length_append, List.length_replicate] at outside
        omega
    · exact grown

/-- A constant that equals a virtual handle takes the slot of that handle away. -/
theorem reserveConstantSlot_slot {upper : Handle} (small : handleValue wide upper < 2 ^ 32)
    (inUse : kindInUse (kindOf (handleValue wide upper)) = true) :
    slotIsReserved (reserveConstantSlot wide reserved upper) (slotOf (handleValue wide upper)) = true := by
  have high : handleValue wide upper >>> 32 = 0 := by
    rw [Nat.shiftRight_eq_div_pow]
    omega
  simp only [reserveConstantSlot, high, inUse, bne_self_eq_false, Bool.not_true, Bool.or_self, Bool.false_eq_true,
    if_false, slotIsReserved]
  rw [List.getElem?_set_self]
  · rfl
  · simp only [List.length_append, List.length_replicate]
    omega

theorem slotIsReserved_fold {slot : Nat} (constants : List Handle) (before : slotIsReserved reserved slot = true) :
    slotIsReserved (constants.foldl (reserveConstantSlot wide) reserved) slot = true := by
  induction constants generalizing reserved with
  | nil => exact before
  | cons upper constants ih => exact ih (slotIsReserved_reserveConstantSlot upper before)

theorem reserved_of_constant {constants : List Handle} {upper : Handle} (member : upper ∈ constants)
    (small : handleValue wide upper < 2 ^ 32) (inUse : kindInUse (kindOf (handleValue wide upper)) = true) :
    slotIsReserved (constants.foldl (reserveConstantSlot wide) reserved) (slotOf (handleValue wide upper)) = true := by
  induction constants generalizing reserved with
  | nil => cases member
  | cons first constants ih =>
    rcases List.mem_cons.mp member with rfl | later
    · exact slotIsReserved_fold constants (reserveConstantSlot_slot small inUse)
    · exact ih later

end Reserve

section Skip

variable {reserved : List Bool}

theorem not_reserved_of_length_le {slot : Nat} (outside : reserved.length ≤ slot) :
    slotIsReserved reserved slot = false := by
  rw [slotIsReserved, List.getElem?_eq_none outside]
  rfl

theorem le_skipReserved (fuel slot : Nat) : slot ≤ skipReserved reserved fuel slot := by
  induction fuel generalizing slot with
  | zero => exact Nat.le_refl slot
  | succ fuel ih =>
    rw [skipReserved]
    split
    · exact Nat.le_of_succ_le (ih (slot + 1))
    · exact Nat.le_refl slot

theorem reserved_of_lt_skipReserved {fuel slot other : Nat} (from_ : slot ≤ other)
    (before : other < skipReserved reserved fuel slot) : slotIsReserved reserved other = true := by
  induction fuel generalizing slot with
  | zero => exact absurd (Nat.lt_of_le_of_lt from_ before) (Nat.lt_irrefl slot)
  | succ fuel ih =>
    rw [skipReserved] at before
    split at before
    · next isReserved =>
      rcases Nat.eq_or_lt_of_le from_ with rfl | later
      · exact isReserved
      · exact ih later before
    · omega

theorem skipReserved_free {fuel slot : Nat} (enough : reserved.length ≤ slot + fuel) :
    slotIsReserved reserved (skipReserved reserved fuel slot) = false := by
  induction fuel generalizing slot with
  | zero => exact not_reserved_of_length_le enough
  | succ fuel ih =>
    rw [skipReserved]
    split
    · exact ih (by omega)
    · next isFree => exact Bool.eq_false_iff.mpr isFree

end Skip

def Table.nextFree (t : Table δ) (slot : Nat) : Option Nat := (t.entries slot).bind (·.nextFree)

/-- What holds of the entries at each slot, in use or not. -/
structure Table.Shape (t : Table δ) : Prop where
  bound : t.highWater ≤ slotMask + 1
  present : ∀ slot < t.highWater, ∃ e, t.entries slot = some e
  unused : ∀ slot e, t.highWater ≤ slot → t.entries slot = some e → e = .blank
  reserved : ∀ slot e, slotIsReserved t.reserved slot = true → t.entries slot = some e → e = .blank
  issued : ∀ slot e, t.entries slot = some e → e.virt ≠ 0 →
    slot ≤ slotMask ∧ ∃ kind : Kind, e.virt = makeHandle kind.code e.gen slot

/-- The slots on the free list: those used once and not in use now. A slot that `alloc_slot`
has just handed out is on neither side. -/
structure Table.FreeList (t : Table δ) (held : Option Nat) (free : List Nat) : Prop where
  chain : Chain t.nextFree t.freeHead free
  member : ∀ slot, slot ∈ free ↔
    slot < t.highWater ∧ slotIsReserved t.reserved slot = false ∧ held ≠ some slot ∧
      ∃ e, t.entries slot = some e ∧ e.virt = 0

structure Table.WellFormed (t : Table δ) : Prop where
  shape : t.Shape
  freeList : ∃ free, t.FreeList none free

theorem Table.WellFormed.initial (wide : Bool) (constants : List Handle) :
    (Table.initial wide constants : Table δ).WellFormed where
  shape :=
    { bound := Nat.zero_le _
      present := fun _ below => absurd below (Nat.not_lt_zero _)
      unused := fun _ _ _ found => nomatch found
      reserved := fun _ _ _ found => nomatch found
      issued := fun _ _ found => nomatch found }
  freeList := ⟨[],
    { chain := .nil
      member := fun slot => iff_of_false List.not_mem_nil fun below => Nat.not_lt_zero slot below.1 }⟩

section Find

variable {t : Table δ} {handle : Nat} {e : Entry δ}

theorem Table.find_eq_some : t.find handle = some e ↔
    kindInUse (kindOf handle) = true ∧ t.entries (slotOf handle) = some e ∧ e.virt = handle := by
  unfold Table.find
  split
  · next inUse => simp only [filter_eq_some_iff, beq_iff_eq, inUse, true_and]
  · next notInUse => simp only [reduceCtorEq, notInUse, false_and]

theorem Table.find_initial_ne {wide : Bool} {constants : List Handle} :
    (Table.initial wide constants : Table δ).find handle ≠ some e := by
  rw [Ne, Table.find_eq_some]
  rintro ⟨-, ⟨⟩, -⟩

theorem Table.find_virt (found : t.find handle = some e) : e.virt = handle := (Table.find_eq_some.mp found).2.2

theorem kindInUse_ne_zero (inUse : kindInUse (kindOf handle) = true) : handle ≠ 0 := by
  rintro rfl
  simp [kindOf, kindInUse] at inUse

theorem Table.Shape.find_iff (shape : t.Shape) : t.find handle = some e ↔
    t.entries (slotOf handle) = some e ∧ e.virt = handle ∧ handle ≠ 0 := by
  rw [Table.find_eq_some]
  constructor
  · rintro ⟨inUse, found, isHandle⟩
    exact ⟨found, isHandle, kindInUse_ne_zero inUse⟩
  · rintro ⟨found, isHandle, notZero⟩
    obtain ⟨small, kind, made⟩ := shape.issued _ e found (isHandle ▸ notZero)
    refine ⟨?_, found, isHandle⟩
    rw [← isHandle, made, kindOf_makeHandle small]
    exact kind.inUse

theorem Table.find_none_of_virt_ne (found : t.entries (slotOf handle) = some e) (differs : e.virt ≠ handle) :
    t.find handle = none := by
  refine eq_none_iff_forall_ne_some.mpr fun other isOther => ?_
  obtain ⟨-, foundOther, isHandle⟩ := Table.find_eq_some.mp isOther
  obtain rfl := mem_unique found foundOther
  exact differs isHandle

theorem Table.find_none_of_virt_zero (found : t.entries (slotOf handle) = some e) (notUsed : e.virt = 0) :
    t.find handle = none := by
  refine eq_none_iff_forall_ne_some.mpr fun other isOther => ?_
  obtain ⟨inUse, foundOther, isHandle⟩ := Table.find_eq_some.mp isOther
  obtain rfl := mem_unique found foundOther
  exact kindInUse_ne_zero inUse (isHandle.symm.trans notUsed)

theorem Table.find_congr {t' : Table δ} (same : t'.entries (slotOf handle) = t.entries (slotOf handle)) :
    t'.find handle = t.find handle := by
  simp only [Table.find, same]

theorem Table.find_small (found : t.find handle = some e) : handle < 2 ^ 32 := by
  have range := kindInUse_iff.mp (Table.find_eq_some.mp found).1
  rw [kindOf_eq] at range
  omega

theorem handleValue_of_lt {wide : Bool} {handle : Nat} (small : handle < 2 ^ 32) : handleValue wide handle = handle := by
  cases wide with
  | false => exact Nat.mod_eq_of_lt small
  | true => rfl

theorem Table.Shape.find_highWater (shape : t.Shape) (found : t.find handle = some e) :
    slotOf handle < t.highWater := by
  obtain ⟨inSlot, isHandle, notZero⟩ := shape.find_iff.mp found
  by_contra outside
  have isBlank := shape.unused _ e (Nat.le_of_not_lt outside) inSlot
  rw [isBlank] at isHandle
  exact notZero isHandle.symm

theorem Table.Shape.find_not_reserved (shape : t.Shape) (found : t.find handle = some e) :
    slotIsReserved t.reserved (slotOf handle) = false := by
  obtain ⟨inSlot, isHandle, notZero⟩ := shape.find_iff.mp found
  by_contra isReserved
  have isBlank := shape.reserved _ e (Bool.eq_true_of_not_eq_false isReserved) inSlot
  rw [isBlank] at isHandle
  exact notZero isHandle.symm

theorem Table.FreeList.not_mem_of_find {held : Option Nat} {free : List Nat} (listed : t.FreeList held free)
    (shape : t.Shape) (found : t.find handle = some e) : slotOf handle ∉ free := by
  intro member
  obtain ⟨inSlot, isHandle, notZero⟩ := shape.find_iff.mp found
  obtain ⟨-, -, -, entry, isEntry, notUsed⟩ := (listed.member _).mp member
  obtain rfl := mem_unique isEntry inSlot
  exact notZero (isHandle.symm.trans notUsed)

end Find

section Set

variable {t : Table δ} {slot : Nat} {e : Entry δ}

theorem Table.Shape.setEntry (shape : t.Shape) (below : slot < t.highWater)
    (notReserved : slotIsReserved t.reserved slot = false)
    (made : e.virt ≠ 0 → ∃ kind : Kind, e.virt = makeHandle kind.code e.gen slot) :
    (t.setEntry slot e).Shape where
  bound := shape.bound
  present := by
    intro other otherBelow
    by_cases same : other = slot
    · subst same
      exact ⟨e, update_self _ _ _⟩
    · simp only [Table.setEntry, update_of_ne same]
      exact shape.present other otherBelow
  unused := by
    intro other entry outside
    have differs : other ≠ slot := (Nat.lt_of_lt_of_le below outside).ne'
    simp only [Table.setEntry, update_of_ne differs]
    exact shape.unused other entry outside
  reserved := by
    intro other entry isReserved
    have differs : other ≠ slot := by
      rintro rfl
      exact Bool.false_ne_true (notReserved.symm.trans isReserved)
    simp only [Table.setEntry, update_of_ne differs]
    exact shape.reserved other entry isReserved
  issued := by
    intro other entry
    by_cases same : other = slot
    · subst same
      simp only [Table.setEntry, update_self]
      rintro isEntry used
      cases isEntry
      have inside := shape.bound
      exact ⟨by omega, made used⟩
    · simp only [Table.setEntry, update_of_ne same]
      exact shape.issued other entry

theorem Table.Shape.congr {t' : Table δ} (shape : t.Shape) (entries : t'.entries = t.entries)
    (highWater : t'.highWater = t.highWater) (reserved : t'.reserved = t.reserved) : t'.Shape where
  bound := highWater ▸ shape.bound
  present := by
    rw [entries, highWater]
    exact shape.present
  unused := by
    rw [entries, highWater]
    exact shape.unused
  reserved := by
    rw [entries, reserved]
    exact shape.reserved
  issued := by
    rw [entries]
    exact shape.issued

theorem Table.find_setEntry_other {handle : Nat} (differs : slotOf handle ≠ slot) :
    (t.setEntry slot e).find handle = t.find handle :=
  Table.find_congr (update_of_ne differs _ _)

theorem Table.entries_setEntry : (t.setEntry slot e).entries slot = some e := update_self _ _ _

end Set

/-- What `alloc_slot` does: a slot that is not in use, and the lookups as before. -/
structure Table.Allocated (t : Table δ) (slot : Nat) (t' : Table δ) : Prop where
  shape : t'.Shape
  freeList : ∃ free, t'.FreeList (some slot) free
  below : slot < t'.highWater
  notReserved : slotIsReserved t'.reserved slot = false
  vacant : ∃ e, t'.entries slot = some e ∧ e.virt = 0
  kept : ∀ other, t'.entries other = t.entries other ∨ t.entries other = none ∧ t'.entries other = some .blank
  reserved : t'.reserved = t.reserved
  nextSeq : t'.nextSeq = t.nextSeq

theorem Table.Allocated.find {t t' : Table δ} {slot : Nat} (allocated : t.Allocated slot t') (handle : Nat) :
    t'.find handle = t.find handle := by
  rcases allocated.kept (slotOf handle) with same | ⟨before, after⟩
  · exact Table.find_congr same
  · have notThere : t.find handle = none := by
      simp only [Table.find, before, filter_none, ite_self]
    rw [notThere]
    exact Table.find_none_of_virt_zero after rfl

section Alloc

variable {t t' : Table δ} {slot : Nat}

theorem Table.WellFormed.allocSlot_pop {head : Nat} (wf : t.WellFormed) (isHead : t.freeHead = some head) :
    ∃ e, t.entries head = some e ∧ t.Allocated head { t with freeHead := e.nextFree } := by
  obtain ⟨free, listed⟩ := wf.freeList
  obtain ⟨rest, split, tail⟩ := (isHead ▸ listed.chain).head_mem
  have nodup := listed.chain.nodup
  rw [split] at nodup
  obtain ⟨below, notReserved, -, e, found, notUsed⟩ := (listed.member head).mp (split ▸ List.mem_cons_self)
  have link : t.nextFree head = e.nextFree := by simp only [Table.nextFree, found, bind_some]
  have members : ∀ other, other ∈ rest ↔
      other < t.highWater ∧ slotIsReserved t.reserved other = false ∧ some head ≠ some other ∧
        ∃ e, t.entries other = some e ∧ e.virt = 0 := by
    intro other
    have members := listed.member other
    rw [split, List.mem_cons] at members
    constructor
    · intro member
      obtain ⟨otherBelow, otherFree, -, entry⟩ := members.mp (.inr member)
      refine ⟨otherBelow, otherFree, ?_, entry⟩
      rintro same
      cases same
      exact (List.nodup_cons.mp nodup).1 member
    · rintro ⟨otherBelow, otherFree, differs, entry⟩
      rcases members.mpr ⟨otherBelow, otherFree, nofun, entry⟩ with same | member
      · exact absurd (congrArg some same.symm) differs
      · exact member
  exact ⟨e, found,
    { shape := wf.shape.congr rfl rfl rfl
      freeList := ⟨rest, link ▸ tail, members⟩
      below := below
      notReserved := notReserved
      vacant := ⟨e, found, notUsed⟩
      kept := fun _ => .inl rfl
      reserved := rfl
      nextSeq := rfl }⟩

theorem callocChunks_kept {entries : Nat → Option (Entry δ)} {first last slot : Nat} {e : Entry δ}
    (found : entries slot = some e) : callocChunks entries first last slot = some e := by
  simp [callocChunks, found]

theorem callocChunks_cases (entries : Nat → Option (Entry δ)) (first last slot : Nat) :
    callocChunks entries first last slot = entries slot ∨
      entries slot = none ∧ callocChunks entries first last slot = some .blank := by
  unfold callocChunks
  split
  · next missing => exact .inr ⟨isNone_iff_eq_none.mp missing.2.2, rfl⟩
  · exact .inl rfl

theorem callocChunks_present (entries : Nat → Option (Entry δ)) {first last slot : Nat}
    (from_ : first ≤ slot / chunkSize) (upTo : slot / chunkSize ≤ last) :
    ∃ e, callocChunks entries first last slot = some e := by
  cases found : entries slot with
  | none => exact ⟨.blank, by simp [callocChunks, found, from_, upTo]⟩
  | some e => exact ⟨e, callocChunks_kept found⟩

theorem Table.WellFormed.allocSlot_grow (wf : t.WellFormed) (noHead : t.freeHead = none)
    (isSlot : slot = skipReserved t.reserved t.reserved.length t.highWater) (small : slot ≤ slotMask) :
    t.Allocated slot { t with
      entries := callocChunks t.entries (t.highWater / chunkSize) (slot / chunkSize), highWater := slot + 1 } := by
  obtain ⟨free, listed⟩ := wf.freeList
  have isNil : free = [] := (noHead ▸ listed.chain).unique .nil
  have above : t.highWater ≤ slot := isSlot ▸ le_skipReserved _ _
  have notReserved : slotIsReserved t.reserved slot = false := by
    rw [isSlot]
    exact skipReserved_free (by omega)
  have skipped : ∀ other, t.highWater ≤ other → other < slot → slotIsReserved t.reserved other = true :=
    fun other from_ before => reserved_of_lt_skipReserved from_ (isSlot ▸ before)
  have entryCases := callocChunks_cases t.entries (t.highWater / chunkSize) (slot / chunkSize)
  have blankAbove : ∀ other e, t.highWater ≤ other →
      callocChunks t.entries (t.highWater / chunkSize) (slot / chunkSize) other = some e → e = .blank := by
    intro other e outside found
    rcases entryCases other with same | ⟨-, isBlank⟩
    · exact wf.shape.unused other e outside (same ▸ found)
    · exact mem_unique found isBlank
  have present : ∀ other < slot + 1,
      ∃ e, callocChunks t.entries (t.highWater / chunkSize) (slot / chunkSize) other = some e := by
    intro other below
    by_cases old : other < t.highWater
    · obtain ⟨e, found⟩ := wf.shape.present other old
      exact ⟨e, callocChunks_kept found⟩
    · exact callocChunks_present t.entries (Nat.div_le_div_right (Nat.le_of_not_lt old))
        (Nat.div_le_div_right (Nat.le_of_lt_succ below))
  refine
    { shape :=
        { bound := Nat.succ_le_succ small
          present := present
          unused := fun other e outside => blankAbove other e (by simp only at outside; omega)
          reserved := ?_
          issued := ?_ }
      freeList := ⟨[], noHead ▸ .nil, ?_⟩
      below := Nat.lt_succ_self slot
      notReserved := notReserved
      vacant := ?_
      kept := entryCases
      reserved := rfl
      nextSeq := rfl }
  · intro other e isReserved found
    rcases entryCases other with same | ⟨-, isBlank⟩
    · exact wf.shape.reserved other e isReserved (same ▸ found)
    · exact mem_unique found isBlank
  · intro other e found used
    rcases entryCases other with same | ⟨-, isBlank⟩
    · exact wf.shape.issued other e (same ▸ found) used
    · obtain rfl := mem_unique found isBlank
      exact absurd rfl used
  · intro other
    refine iff_of_false List.not_mem_nil ?_
    rintro ⟨below, isFree, notHeld, e, found, notUsed⟩
    by_cases old : other < t.highWater
    · -- An unused slot below the old mark would have been on the free list.
      obtain ⟨e', found'⟩ := wf.shape.present other old
      obtain rfl := mem_unique found (callocChunks_kept found')
      have member := (listed.member other).mpr ⟨old, isFree, nofun, e, found', notUsed⟩
      rw [isNil] at member
      exact List.not_mem_nil member
    · have notSlot : other ≠ slot := fun same => notHeld (congrArg some same.symm)
      have between : other < slot := by
        simp only at below
        omega
      have isReserved := skipped other (Nat.le_of_not_lt old) between
      exact Bool.false_ne_true (isFree.symm.trans isReserved)
  · obtain ⟨e, found⟩ := present slot (Nat.lt_succ_self slot)
    exact ⟨e, found, by rw [blankAbove slot e above found]; rfl⟩

theorem Table.WellFormed.allocSlot (wf : t.WellFormed) (allocated : t.allocSlot = some (slot, t')) :
    t.Allocated slot t' := by
  unfold Table.allocSlot at allocated
  cases isHead : t.freeHead with
  | some head =>
    obtain ⟨e, found, done⟩ := wf.allocSlot_pop isHead
    simp only [isHead, found, map_some] at allocated
    cases allocated
    exact done
  | none =>
    simp only [isHead, ite_none_left_eq_some, some.injEq, Prod.mk.injEq] at allocated
    obtain ⟨small, isSlot, rfl⟩ := allocated
    have done := wf.allocSlot_grow isHead isSlot.symm (Nat.le_of_not_lt (isSlot ▸ small))
    rw [← isSlot] at done ⊢
    rw [isHead] at done
    exact done

theorem Table.WellFormed.allocSlot_none (wf : t.WellFormed) (failed : t.allocSlot = none) (small : slot ≤ slotMask) :
    slotIsReserved t.reserved slot = true ∨ ∃ e, t.entries slot = some e ∧ e.virt ≠ 0 := by
  unfold Table.allocSlot at failed
  cases isHead : t.freeHead with
  | some head =>
    obtain ⟨e, found, -⟩ := wf.allocSlot_pop isHead
    simp only [isHead, found, map_some, reduceCtorEq] at failed
  | none =>
    simp only [isHead, ite_eq_left_iff, reduceCtorEq, imp_false, Decidable.not_not] at failed
    by_cases inside : slot < t.highWater
    · obtain ⟨free, listed⟩ := wf.freeList
      have isNil : free = [] := (isHead ▸ listed.chain).unique .nil
      obtain ⟨e, found⟩ := wf.shape.present slot inside
      cases isReserved : slotIsReserved t.reserved slot with
      | true => exact .inl rfl
      | false =>
        refine .inr ⟨e, found, fun vacant => ?_⟩
        have member := (listed.member slot).mpr ⟨inside, isReserved, nofun, e, found, vacant⟩
        rw [isNil] at member
        exact List.not_mem_nil member
    · exact .inl (reserved_of_lt_skipReserved (Nat.le_of_not_lt inside) (Nat.lt_of_le_of_lt small failed))

end Alloc

section Operations

variable {t t' : Table δ} {wide : Bool}
variable {e : Entry δ} {kind : Kind} {real virtId : Handle} {desc : Option δ}

theorem Table.FreeList.setEntry {slot : Nat} {free : List Nat} {held : Option Nat} (listed : t.FreeList held free)
    (notFree : slot ∉ free) (used : held = some slot ∨ held = none) (inUse : e.virt ≠ 0) :
    (t.setEntry slot e).FreeList none free where
  chain := by
    refine listed.chain.congr fun cell member => ?_
    have differs : cell ≠ slot := fun same => notFree (same ▸ member)
    simp only [Table.nextFree, Table.setEntry, update_of_ne differs]
  member := by
    intro other
    by_cases same : other = slot
    · subst same
      refine iff_of_false notFree ?_
      rintro ⟨-, -, -, entry, found, notUsed⟩
      rw [Table.entries_setEntry] at found
      exact inUse (some.inj found ▸ notUsed)
    · have notHeld : held ≠ some other := by
        rcases used with rfl | rfl
        · exact fun isOther => same (some.inj isOther).symm
        · exact nofun
      rw [listed.member other]
      simp only [Table.setEntry, update_of_ne same, notHeld, ne_eq, not_false_eq_true, reduceCtorEq]

/-- What `add_virt_id` does to the map of handles in use. -/
structure Table.Adds (t : Table δ) (kind : Kind) (real : Handle) (desc : Option δ) (handle : Handle)
    (t' : Table δ) : Prop where
  wellFormed : t'.WellFormed
  fresh : t.find handle = none
  ofKind : kindOf handle = kind.code
  notReserved : slotIsReserved t.reserved (slotOf handle) = false
  entry : ∃ e, t'.find handle = some e ∧ e.real = real ∧ e.desc = desc ∧ e.seq = t.nextSeq + 1 ∧
    e.call = none ∧ e.collective = false ∧ e.completed = false ∧
    handle = makeHandle kind.code e.gen (slotOf handle) ∧
    (t.entries (slotOf handle)).elim (e.gen = 0) (fun old => old.virt = 0 ∧ e.gen = old.gen)
  others : ∀ other, other ≠ handle → t'.find other = t.find other
  slots : ∀ slot, slot ≠ slotOf handle → t'.entries slot = t.entries slot ∨
    t.entries slot = none ∧ t'.entries slot = some .blank
  reserved : t'.reserved = t.reserved
  nextSeq : t'.nextSeq = t.nextSeq + 1

theorem Table.WellFormed.addVirtId {handle : Handle} (wf : t.WellFormed)
    (added : t.addVirtId kind real desc = some (handle, t')) : t.Adds kind real desc handle t' := by
  obtain ⟨⟨slot, t₁⟩, isSlot, added⟩ := bind_eq_some_iff.mp added
  obtain ⟨e, found, made⟩ := map_eq_some_iff.mp added
  have allocated := wf.allocSlot isSlot
  obtain ⟨e', found', notUsed⟩ := allocated.vacant
  obtain rfl := mem_unique found' found
  cases made
  obtain ⟨free, listed⟩ := allocated.freeList
  have small : slot ≤ slotMask := by
    have below := allocated.below
    have bound := allocated.shape.bound
    omega
  have slotIs : slotOf (makeHandle kind.code e'.gen slot) = slot := slotOf_makeHandle small
  have notZero : makeHandle kind.code e'.gen slot ≠ 0 := makeHandle_ne_zero kind.inUse small
  have notFree : slot ∉ free := fun member => ((listed.member slot).mp member).2.2.1 rfl
  generalize isIssued : e'.issue (makeHandle kind.code e'.gen slot) real desc (t₁.nextSeq + 1) = issued
  have virt : issued.virt = makeHandle kind.code e'.gen slot := isIssued ▸ rfl
  have gen : issued.gen = e'.gen := isIssued ▸ rfl
  have shape : (t₁.setEntry slot issued).Shape :=
    allocated.shape.setEntry allocated.below allocated.notReserved fun _ => ⟨kind, by rw [virt, gen]⟩
  have listed' := listed.setEntry notFree (.inl rfl) (virt ▸ notZero)
  have entries : (t₁.setEntry slot issued).entries slot = some issued := Table.entries_setEntry
  refine
    { wellFormed := ⟨shape.congr rfl rfl rfl, free, ?_, ?_⟩
      fresh := ?_
      ofKind := kindOf_makeHandle small
      notReserved := by rw [slotIs, ← allocated.reserved]; exact allocated.notReserved
      entry := ?_
      others := ?_
      slots := ?_
      reserved := allocated.reserved
      nextSeq := congrArg (· + 1) allocated.nextSeq }
  · exact listed'.chain
  · exact listed'.member
  · rw [← allocated.find]
    exact Table.find_none_of_virt_zero (slotIs.symm ▸ found') notUsed
  · refine ⟨issued, Table.find_eq_some.mpr ⟨?_, slotIs.symm ▸ entries, virt⟩, ?_⟩
    · rw [kindOf_makeHandle small]
      exact kind.inUse
    rw [slotIs, gen, ← isIssued, ← allocated.nextSeq]
    refine ⟨rfl, rfl, rfl, rfl, rfl, rfl, rfl, ?_⟩
    rcases allocated.kept slot with same | ⟨before, after⟩
    · rw [← same, found']
      exact ⟨notUsed, rfl⟩
    · rw [before, mem_unique found' after]
      rfl
  · intro other differs
    rw [← allocated.find other]
    by_cases sameSlot : slotOf other = slot
    · -- The slot was vacant, and its entry now has another handle.
      have vacant : t₁.find other = none := Table.find_none_of_virt_zero (sameSlot.symm ▸ found') notUsed
      rw [vacant]
      rw [← sameSlot] at entries virt differs ⊢
      exact Table.find_none_of_virt_ne entries fun same => differs (same.symm.trans virt)
    · exact Table.find_setEntry_other sameSlot
  · intro other differs
    rw [slotIs] at differs
    have same : (t₁.setEntry slot issued).entries other = t₁.entries other := update_of_ne differs _ _
    rcases allocated.kept other with kept | ⟨before, after⟩
    · exact .inl (same.trans kept)
    · exact .inr ⟨before, same.trans after⟩

theorem Table.WellFormed.addVirtId_none (wf : t.WellFormed) (failed : t.addVirtId kind real desc = none) :
    t.allocSlot = none := by
  cases isSlot : t.allocSlot with
  | none => rfl
  | some result =>
    obtain ⟨slot, t₁⟩ := result
    obtain ⟨e, found, -⟩ := (wf.allocSlot isSlot).vacant
    simp only [Table.addVirtId, isSlot, bind_some, found, map_some, reduceCtorEq] at failed

theorem Table.lookup_eq_some (found : t.lookupVirtIdEntry wide virtId = some e) :
    handleValue wide virtId = virtId % 2 ^ 32 ∧ t.find (virtId % 2 ^ 32) = some e := by
  unfold Table.lookupVirtIdEntry at found
  split at found
  · cases found
  · next isVirtual =>
    refine ⟨?_, found⟩
    cases wide with
    | false => rfl
    | true =>
      simp only [Nat.shiftRight_eq_div_pow, Bool.true_and, bne_iff_ne, ne_eq, Decidable.not_not] at isVirtual
      exact (Nat.mod_eq_of_lt (Nat.lt_of_div_eq_zero (by decide) isVirtual)).symm

theorem Table.lookup_find (virtId : Handle) :
    t.lookupVirtIdEntry wide virtId = t.find (handleValue wide virtId) := by
  cases found : t.lookupVirtIdEntry wide virtId with
  | some e =>
    obtain ⟨value, inMap⟩ := Table.lookup_eq_some found
    rw [value, inMap]
  | none =>
    symm
    refine eq_none_iff_forall_ne_some.mpr fun e isEntry => ?_
    have small := Table.find_small isEntry
    have value : handleValue wide virtId = virtId % 2 ^ 32 := by
      cases wide with
      | false => rfl
      | true => exact (Nat.mod_eq_of_lt small).symm
    have isVirtual : (wide && virtId >>> 32 != 0) = false := by
      cases wide with
      | false => rfl
      | true =>
        simp only [handleValue, if_true] at small
        simp only [Nat.shiftRight_eq_div_pow, Nat.div_eq_of_lt small, bne_self_eq_false, Bool.and_false]
    rw [Table.lookupVirtIdEntry, isVirtual, ← value] at found
    exact nomatch found.symm.trans isEntry

/-- The map changes at one handle. -/
structure Table.Puts (t : Table δ) (handle : Nat) (entry : Option (Entry δ)) (t' : Table δ) : Prop where
  wellFormed : t'.WellFormed
  here : t'.find handle = entry
  others : ∀ other, other ≠ handle → t'.find other = t.find other
  reserved : t'.reserved = t.reserved

theorem Table.Puts.cases {handle h : Nat} {entry : Option (Entry δ)} (puts : t.Puts handle entry t')
    (found : t'.find h = some e) : h = handle ∧ entry = some e ∨ h ≠ handle ∧ t.find h = some e := by
  by_cases same : h = handle
  · subst same
    exact .inl ⟨rfl, puts.here.symm.trans found⟩
  · exact .inr ⟨same, (puts.others h same).symm.trans found⟩

theorem Table.Adds.puts {handle : Handle} (adds : t.Adds kind real desc handle t')
    (found : t'.find handle = some e) : t.Puts handle (some e) t' :=
  ⟨adds.wellFormed, found, adds.others, adds.reserved⟩

/-- What `free_virt_id` does to the map. -/
structure Table.Frees (t : Table δ) (handle : Nat) (t' : Table δ) : Prop extends t.Puts handle none t' where
  entry : ∃ e, t.find handle = some e ∧ e.call = none ∧
    t'.entries (slotOf handle) = some (e.retire t.freeHead)
  slots : ∀ slot, slot ≠ slotOf handle → t'.entries slot = t.entries slot
  nextSeq : t'.nextSeq = t.nextSeq
  highWater : t'.highWater = t.highWater

theorem Table.Frees.before {handle h : Nat} (frees : t.Frees handle t') (found : t'.find h = some e) :
    h ≠ handle ∧ t.find h = some e := (frees.cases found).resolve_left fun ⟨_, isNew⟩ => nomatch isNew

theorem Table.WellFormed.freeVirtId (wf : t.WellFormed) (freed : t.freeVirtId wide virtId = some t') :
    t.Frees (handleValue wide virtId) t' := by
  obtain ⟨e, looked, freed⟩ := bind_eq_some_iff.mp freed
  obtain ⟨value, found⟩ := Table.lookup_eq_some looked
  simp only [ite_none_left_eq_some, some.injEq] at freed
  obtain ⟨noCall, rfl⟩ := freed
  rw [value]
  generalize virtId % 2 ^ 32 = handle at found
  obtain ⟨inSlot, isHandle, notZero⟩ := wf.shape.find_iff.mp found
  have below := wf.shape.find_highWater found
  have notReserved := wf.shape.find_not_reserved found
  obtain ⟨free, listed⟩ := wf.freeList
  have notFree := listed.not_mem_of_find wf.shape found
  have entries : (t.setEntry (slotOf handle) (e.retire t.freeHead)).entries (slotOf handle) =
      some (e.retire t.freeHead) := Table.entries_setEntry
  have shape : (t.setEntry (slotOf handle) (e.retire t.freeHead)).Shape :=
    wf.shape.setEntry below notReserved fun used => absurd rfl used
  have links : (t.setEntry (slotOf handle) (e.retire t.freeHead)).nextFree =
      update t.nextFree (slotOf handle) t.freeHead := by
    funext slot
    by_cases same : slot = slotOf handle
    · subst same
      simp only [Table.nextFree, entries, bind_some, update_self]
      rfl
    · simp only [Table.nextFree, Table.setEntry, update_of_ne same]
  refine
    { wellFormed := ⟨shape.congr rfl rfl rfl, slotOf handle :: free, ?_, ?_⟩
      entry := ⟨e, found, not_isSome_iff_eq_none.mp noCall, entries⟩
      here := Table.find_none_of_virt_zero entries rfl
      others := ?_
      slots := fun slot differs => update_of_ne differs _ _
      reserved := rfl
      nextSeq := rfl
      highWater := rfl }
  · have pushed := listed.chain.push notFree
    rw [← links] at pushed
    exact pushed
  · intro slot
    by_cases same : slot = slotOf handle
    · subst same
      exact iff_of_true List.mem_cons_self ⟨below, notReserved, nofun, _, entries, rfl⟩
    · rw [List.mem_cons, or_iff_right same, listed.member slot]
      simp only [Table.setEntry, update_of_ne same]
  · intro other differs
    by_cases sameSlot : slotOf other = slotOf handle
    · rw [← sameSlot] at entries inSlot ⊢
      rw [Table.find_none_of_virt_ne inSlot fun same => differs (same.symm.trans isHandle)]
      exact Table.find_none_of_virt_zero entries rfl
    · exact Table.find_setEntry_other sameSlot

/-- What an assignment to the fields that do not place the entry does to the map. -/
structure Table.Modifies (t : Table δ) (handle : Nat) (assign : Entry δ → Entry δ) (t' : Table δ) : Prop where
  wellFormed : t'.WellFormed
  entry : ∃ e, t.find handle = some e ∧ t'.find handle = some (assign e) ∧
    t'.entries (slotOf handle) = some (assign e)
  others : ∀ other, other ≠ handle → t'.find other = t.find other
  slots : ∀ slot, slot ≠ slotOf handle → t'.entries slot = t.entries slot
  reserved : t'.reserved = t.reserved
  nextSeq : t'.nextSeq = t.nextSeq
  highWater : t'.highWater = t.highWater

theorem Table.Modifies.puts {handle : Nat} {assign : Entry δ → Entry δ} (modifies : t.Modifies handle assign t')
    (found : t.find handle = some e) : t.Puts handle (some (assign e)) t' := by
  obtain ⟨e', found', after, -⟩ := modifies.entry
  obtain rfl := mem_unique found found'
  exact ⟨modifies.wellFormed, after, modifies.others, modifies.reserved⟩

def Entry.place (e : Entry δ) : Nat × Nat × Option Nat := (e.virt, e.gen, e.nextFree)

theorem Table.WellFormed.modifyEntry {assign : Entry δ → Entry δ} (wf : t.WellFormed)
    (inPlace : ∀ e, (assign e).place = e.place) (modified : t.modifyEntry wide virtId assign = some t') :
    t.Modifies (handleValue wide virtId) assign t' := by
  obtain ⟨e, looked, rfl⟩ := map_eq_some_iff.mp modified
  obtain ⟨value, found⟩ := Table.lookup_eq_some looked
  rw [value]
  generalize virtId % 2 ^ 32 = handle at found
  obtain ⟨inSlot, isHandle, notZero⟩ := wf.shape.find_iff.mp found
  obtain ⟨virt, gen, next⟩ : (assign e).virt = e.virt ∧ (assign e).gen = e.gen ∧ (assign e).nextFree = e.nextFree := by
    simpa only [Entry.place, Prod.mk.injEq] using inPlace e
  have below := wf.shape.find_highWater found
  have notReserved := wf.shape.find_not_reserved found
  obtain ⟨free, listed⟩ := wf.freeList
  have notFree := listed.not_mem_of_find wf.shape found
  have entries : (t.setEntry (slotOf handle) (assign e)).entries (slotOf handle) = some (assign e) :=
    Table.entries_setEntry
  have made : ∃ kind : Kind, (assign e).virt = makeHandle kind.code (assign e).gen (slotOf handle) := by
    rw [virt, gen]
    exact (wf.shape.issued _ e inSlot (isHandle ▸ notZero)).2
  have shape : (t.setEntry (slotOf handle) (assign e)).Shape :=
    wf.shape.setEntry below notReserved fun _ => made
  refine
    { wellFormed := ⟨shape, free, listed.setEntry notFree (.inr rfl) ?_⟩
      entry := ⟨e, found, shape.find_iff.mpr ⟨entries, virt.trans isHandle, notZero⟩, entries⟩
      others := ?_
      slots := fun slot differs => update_of_ne differs _ _
      reserved := rfl
      nextSeq := rfl
      highWater := rfl }
  · rw [virt, isHandle]
    exact notZero
  · intro other differs
    by_cases sameSlot : slotOf other = slotOf handle
    · rw [← sameSlot] at entries inSlot ⊢
      rw [Table.find_none_of_virt_ne inSlot fun same => differs (same.symm.trans isHandle)]
      exact Table.find_none_of_virt_ne entries fun same => differs (same.symm.trans (virt.trans isHandle))
    · exact Table.find_setEntry_other sameSlot

theorem Table.WellFormed.modifies {assign : Entry δ → Entry δ} (wf : t.WellFormed)
    (fits : handleValue wide virtId = virtId) (modified : t.modifyEntry wide virtId assign = some t')
    (inPlace : ∀ e, (assign e).place = e.place) : t.Modifies virtId assign t' := by
  have modifies := wf.modifyEntry inPlace modified
  rwa [fits] at modifies

end Operations

end Mana.VirtId
