import Mana.VirtId.Shape
import Mana.Lib.Machine

/-! Runs of `add_virt_id`, `free_virt_id` and `update_virt_id`, with the record of what they
returned. The record alone says which handles are in use and what they stand for; the table
answers every lookup as the record does. -/

namespace Mana.VirtId
open Mana.Lib Option

variable {δ : Type}

inductive Call (δ : Type) where
  | add (kind : Kind) (real : Handle) (desc : Option δ)
  | free (virtId : Handle)
  | update (virtId real : Handle)

/-- What a call did, with the value of the handle it returned or was given. -/
inductive Event (δ : Type) where
  | added (handle : Nat) (real : Handle) (desc : Option δ)
  | freed (handle : Nat)
  | updated (handle : Nat) (real : Handle)

structure Logged (δ : Type) where
  table : Table δ
  events : List (Event δ)

def Logged.step (wide : Bool) (s : Logged δ) : Call δ → Option (Logged δ)
  | .add kind real desc =>
    (s.table.addVirtId kind real desc).map fun (handle, t) => ⟨t, .added handle real desc :: s.events⟩
  | .free virtId =>
    (s.table.freeVirtId wide virtId).map fun t => ⟨t, .freed (handleValue wide virtId) :: s.events⟩
  | .update virtId real =>
    (s.table.updateVirtId wide virtId real).map fun t => ⟨t, .updated (handleValue wide virtId) real :: s.events⟩

def tableMachine (δ : Type) (wide : Bool) (constants : List Handle) : Machine (Logged δ) (Call δ) where
  initial s := s = ⟨.initial wide constants, []⟩
  step := Logged.step wide

def current : List (Event δ) → Nat → Option (Handle × Option δ)
  | [], _ => none
  | .added handle real desc :: older, k => if k = handle then some (real, desc) else current older k
  | .freed handle :: older, k => if k = handle then none else current older k
  | .updated handle real :: older, k =>
    if k = handle then (current older k).map (fun value => (real, value.2)) else current older k

def liveHandles : List (Event δ) → List Nat
  | [] => []
  | .added handle _ _ :: older => handle :: liveHandles older
  | .freed handle :: older => (liveHandles older).erase handle
  | .updated _ _ :: older => liveHandles older

def issuedAt (slot : Nat) : List (Event δ) → List Nat
  | [] => []
  | .added handle _ _ :: older => if slotOf handle = slot then handle :: issuedAt slot older else issuedAt slot older
  | .freed _ :: older => issuedAt slot older
  | .updated _ _ :: older => issuedAt slot older

def exactlyOne (a b c : Prop) : Prop := (a ∧ ¬b ∧ ¬c) ∨ (¬a ∧ b ∧ ¬c) ∨ (¬a ∧ ¬b ∧ c)

structure TableSound (wide : Bool) (constants : List Handle) (s : Logged δ) : Prop where
  freeList : ∃ free, Chain s.table.nextFree s.table.freeHead free ∧ free.Nodup ∧
    (∀ slot ∈ free, slot < s.table.highWater) ∧
    ∀ slot < s.table.highWater,
      exactlyOne (∃ handle ∈ liveHandles s.events, slotOf handle = slot) (slot ∈ free)
        (slotIsReserved s.table.reserved slot = true ∧ issuedAt slot s.events = [])
  lookup : ∀ virtId, (s.table.lookupVirtIdEntry wide virtId).map (fun e => (e.real, e.desc)) =
    current s.events (handleValue wide virtId)
  live : ∀ handle, handle ∈ liveHandles s.events ↔ (current s.events handle).isSome = true
  distinct : (liveHandles s.events).Nodup
  constants : ∀ slot, ∀ handle ∈ issuedAt slot s.events, ∀ upper ∈ constants,
    handleValue wide upper ≠ handleValue wide handle
  generations : ∀ slot i j a b, i < j → j ≤ i + 15 → (issuedAt slot s.events)[i]? = some a →
    (issuedAt slot s.events)[j]? = some b → a ≠ b
  served : ∀ kind real desc, s.table.addVirtId kind real desc = none → ∀ slot ≤ slotMask,
    slotIsReserved s.table.reserved slot = true ∨ ∃ handle ∈ liveHandles s.events, slotOf handle = slot
  accepted : ∀ virtId real, handleValue wide virtId ∈ liveHandles s.events →
    (s.table.freeVirtId wide virtId).isSome = true ∧ (s.table.updateVirtId wide virtId real).isSome = true
  rejected : ∀ virtId real, handleValue wide virtId ∉ liveHandles s.events →
    s.table.lookupVirtIdEntry wide virtId = none ∧ s.table.freeVirtId wide virtId = none ∧
      s.table.updateVirtId wide virtId real = none

/-- Handles with the generations 0, 1, 2 and so on modulo 16, the latest first. -/
def Numbered : List Nat → Prop
  | [] => True
  | handle :: older => genOf handle = older.length % 16 ∧ Numbered older

theorem Numbered.genOf {handles : List Nat} (numbered : Numbered handles) {i handle : Nat}
    (isAt : handles[i]? = some handle) : genOf handle = (handles.length - 1 - i) % 16 := by
  induction handles generalizing i with
  | nil => cases isAt
  | cons first older ih =>
    cases i with
    | zero =>
      cases isAt
      exact numbered.1
    | succ i =>
      rw [List.getElem?_cons_succ] at isAt
      rw [ih numbered.2 isAt, List.length_cons]
      congr 1
      omega

/-- Sixteen generations in a row differ. -/
theorem Numbered.ne {handles : List Nat} (numbered : Numbered handles) {i j a b : Nat} (later : i < j)
    (near : j ≤ i + 15) (atI : handles[i]? = some a) (atJ : handles[j]? = some b) : a ≠ b := by
  rintro rfl
  have inside := (List.getElem?_eq_some_iff.mp atJ).1
  have same := (numbered.genOf atI).symm.trans (numbered.genOf atJ)
  omega

structure Tracks (wide : Bool) (constants : List Handle) (s : Logged δ) : Prop where
  wellFormed : s.table.WellFormed
  reserved : s.table.reserved = constants.foldl (reserveConstantSlot wide) []
  current : ∀ handle, (s.table.find handle).map (fun e => (e.real, e.desc)) = current s.events handle
  live : ∀ handle, handle ∈ liveHandles s.events ↔ (s.table.find handle).isSome = true
  distinct : (liveHandles s.events).Nodup
  idle : ∀ handle e, s.table.find handle = some e → e.call = none
  numbered : ∀ slot, Numbered (issuedAt slot s.events)
  counted : ∀ slot, (s.table.entries slot).elim (issuedAt slot s.events = []) fun e =>
    (e.gen + if e.virt = 0 then 0 else 1) % 16 = (issuedAt slot s.events).length % 16
  notReserved : ∀ slot, issuedAt slot s.events ≠ [] → slotIsReserved s.table.reserved slot = false
  made : ∀ slot, ∀ handle ∈ issuedAt slot s.events,
    slotOf handle = slot ∧ handle < 2 ^ 32 ∧ kindInUse (kindOf handle) = true

section Steps

variable {wide : Bool} {constants : List Handle} {s : Logged δ}

theorem Tracks.initial : Tracks wide constants (⟨.initial wide constants, []⟩ : Logged δ) where
  wellFormed := .initial wide constants
  reserved := rfl
  current := fun handle => by
    simp only [Table.find, Table.initial, filter_none, ite_self]
    rfl
  live := fun handle => by simp [Table.find, Table.initial, liveHandles]
  distinct := List.nodup_nil
  idle := fun handle e found => nomatch (Table.find_eq_some.mp found).2.1
  numbered := fun _ => True.intro
  counted := fun _ => rfl
  notReserved := fun _ issued => absurd rfl issued
  made := fun _ _ member => absurd member List.not_mem_nil

theorem Tracks.add {kind : Kind} {real handle : Handle} {desc : Option δ} {t : Table δ} (tracks : Tracks wide constants s)
    (adds : s.table.Adds kind real desc handle t) :
    Tracks wide constants ⟨t, .added handle real desc :: s.events⟩ := by
  obtain ⟨e, found, isReal, isDesc, -, noCall, -, -, isHandle, before⟩ := adds.entry
  obtain ⟨inSlot, virt, notZero⟩ := adds.wellFormed.shape.find_iff.mp found
  have small := Table.find_small found
  have gen : e.gen % 16 = (issuedAt (slotOf handle) s.events).length % 16 := by
    have counted := tracks.counted (slotOf handle)
    cases old : s.table.entries (slotOf handle) with
    | none =>
      rw [old] at before counted
      rw [show e.gen = 0 from before, show issuedAt (slotOf handle) s.events = [] from counted]
      rfl
    | some entry =>
      rw [old] at before counted
      obtain ⟨vacant, sameGen⟩ := before
      simp only [elim_some, vacant, if_true, Nat.add_zero] at counted
      rw [sameGen]
      exact counted
  refine
    { wellFormed := adds.wellFormed
      reserved := adds.reserved.trans tracks.reserved
      current := ?_
      live := ?_
      distinct := ?_
      idle := ?_
      numbered := ?_
      counted := ?_
      notReserved := ?_
      made := ?_ }
  · intro other
    simp only [VirtId.current]
    split
    · next same =>
      rw [same, found, map_some, isReal, isDesc]
    · next differs =>
      rw [adds.others other differs]
      exact tracks.current other
  · intro other
    rw [liveHandles, List.mem_cons, tracks.live other]
    by_cases same : other = handle
    · rw [same, found]
      exact iff_of_true (.inl rfl) rfl
    · rw [adds.others other same, or_iff_right same]
  · refine List.nodup_cons.mpr ⟨?_, tracks.distinct⟩
    rw [tracks.live handle, adds.fresh]
    exact nofun
  · intro other entry isEntry
    by_cases same : other = handle
    · rw [same, found] at isEntry
      cases isEntry
      exact noCall
    · exact tracks.idle other entry (adds.others other same ▸ isEntry)
  · intro slot
    rw [issuedAt]
    split
    · next same =>
      refine ⟨?_, tracks.numbered slot⟩
      rw [← same, ← gen, isHandle, genOf_makeHandle (slotOf_le handle)]
    · exact tracks.numbered slot
  · intro slot
    rw [issuedAt]
    split
    · next same =>
      rw [← same, inSlot]
      simp only [elim_some, virt, notZero, if_false, List.length_cons]
      omega
    · next differs =>
      have counted := tracks.counted slot
      rcases adds.slots slot (Ne.symm differs) with kept | ⟨missing, blank⟩
      · rw [kept]
        exact counted
      · rw [missing] at counted
        rw [blank, show issuedAt slot s.events = [] from counted]
        rfl
  · intro slot
    rw [issuedAt, adds.reserved]
    split
    · next same =>
      intro _
      rw [← same]
      exact adds.notReserved
    · exact tracks.notReserved slot
  · intro slot other
    rw [issuedAt]
    split
    · next same =>
      intro member
      rcases List.mem_cons.mp member with rfl | older
      · exact ⟨same, small, by rw [adds.ofKind]; exact kind.inUse⟩
      · exact tracks.made slot other older
    · exact tracks.made slot other

theorem Tracks.free {handle : Nat} {t : Table δ} (tracks : Tracks wide constants s) (frees : s.table.Frees handle t) :
    Tracks wide constants ⟨t, .freed handle :: s.events⟩ := by
  obtain ⟨e, found, -, retired⟩ := frees.entry
  obtain ⟨inSlot, virt, notZero⟩ := tracks.wellFormed.shape.find_iff.mp found
  refine
    { wellFormed := frees.wellFormed
      reserved := frees.reserved.trans tracks.reserved
      current := ?_
      live := ?_
      distinct := tracks.distinct.erase handle
      idle := ?_
      numbered := tracks.numbered
      counted := ?_
      notReserved := fun slot issued => frees.reserved ▸ tracks.notReserved slot issued
      made := tracks.made }
  · intro other
    simp only [VirtId.current]
    split
    · next same =>
      rw [same, frees.here]
      rfl
    · next differs =>
      rw [frees.others other differs]
      exact tracks.current other
  · intro other
    rw [liveHandles, tracks.distinct.mem_erase_iff, tracks.live other]
    by_cases same : other = handle
    · rw [same, frees.here]
      exact iff_of_false (fun both => both.1 rfl) nofun
    · rw [frees.others other same, and_iff_right same]
  · intro other entry isEntry
    by_cases same : other = handle
    · rw [same, frees.here] at isEntry
      cases isEntry
    · exact tracks.idle other entry (frees.others other same ▸ isEntry)
  · intro slot
    by_cases same : slot = slotOf handle
    · have counted := tracks.counted slot
      rw [same] at counted ⊢
      simp only [inSlot, elim_some, virt, notZero, if_false] at counted
      simp only [retired, elim_some, Entry.retire, if_true, issuedAt]
      omega
    · rw [frees.slots slot same]
      exact tracks.counted slot

theorem Tracks.update {handle : Nat} {real : Handle} {t : Table δ} (tracks : Tracks wide constants s)
    (modifies : s.table.Modifies handle (fun e => { e with real := real }) t) :
    Tracks wide constants ⟨t, .updated handle real :: s.events⟩ := by
  obtain ⟨e, found, after, entry⟩ := modifies.entry
  refine
    { wellFormed := modifies.wellFormed
      reserved := modifies.reserved.trans tracks.reserved
      current := ?_
      live := ?_
      distinct := tracks.distinct
      idle := ?_
      numbered := tracks.numbered
      counted := ?_
      notReserved := fun slot issued => modifies.reserved ▸ tracks.notReserved slot issued
      made := tracks.made }
  · intro other
    simp only [VirtId.current]
    split
    · next same =>
      rw [same, after, ← tracks.current handle, found]
      rfl
    · next differs =>
      rw [modifies.others other differs]
      exact tracks.current other
  · intro other
    rw [liveHandles, tracks.live other]
    by_cases same : other = handle
    · rw [same, after, found]
      exact Iff.rfl
    · rw [modifies.others other same]
  · intro other entry isEntry
    by_cases same : other = handle
    · rw [same, after] at isEntry
      cases isEntry
      exact tracks.idle handle e found
    · exact tracks.idle other entry (modifies.others other same ▸ isEntry)
  · intro slot
    by_cases same : slot = slotOf handle
    · have counted := tracks.counted slot
      rw [same] at counted ⊢
      obtain ⟨inSlot, -, -⟩ := tracks.wellFormed.shape.find_iff.mp found
      rw [inSlot] at counted
      rw [entry]
      exact counted
    · rw [modifies.slots slot same]
      exact tracks.counted slot

theorem reachable_tracks (reached : Reachable (tableMachine δ wide constants) s) : Tracks wide constants s := by
  refine reached.invariant (Tracks wide constants) ?_ ?_
  · rintro _ rfl
    exact .initial
  · intro s call s' _ tracks taken
    cases call with
    | add kind real desc =>
      obtain ⟨⟨handle, t⟩, added, rfl⟩ := map_eq_some_iff.mp taken
      exact tracks.add (tracks.wellFormed.addVirtId added)
    | free virtId =>
      obtain ⟨t, freed, rfl⟩ := map_eq_some_iff.mp taken
      exact tracks.free (tracks.wellFormed.freeVirtId freed)
    | update virtId real =>
      obtain ⟨t, updated, rfl⟩ := map_eq_some_iff.mp taken
      exact tracks.update (tracks.wellFormed.modifyEntry (fun _ => rfl) updated)

end Steps

section Sound

variable {wide : Bool} {constants : List Handle} {s : Logged δ}

theorem Tracks.live_slot (tracks : Tracks wide constants s) {slot : Nat} :
    (∃ handle ∈ liveHandles s.events, slotOf handle = slot) ↔
      ∃ e, s.table.entries slot = some e ∧ e.virt ≠ 0 := by
  constructor
  · rintro ⟨handle, member, rfl⟩
    obtain ⟨e, found⟩ := isSome_iff_exists.mp ((tracks.live handle).mp member)
    obtain ⟨inSlot, virt, notZero⟩ := tracks.wellFormed.shape.find_iff.mp found
    exact ⟨e, inSlot, virt ▸ notZero⟩
  · rintro ⟨e, inSlot, used⟩
    obtain ⟨small, kind, made⟩ := tracks.wellFormed.shape.issued slot e inSlot used
    have isSlot : slotOf e.virt = slot := by rw [made, slotOf_makeHandle small]
    have found : s.table.find e.virt = some e :=
      tracks.wellFormed.shape.find_iff.mpr ⟨isSlot.symm ▸ inSlot, rfl, used⟩
    exact ⟨e.virt, (tracks.live _).mpr (found ▸ rfl), isSlot⟩

theorem Tracks.slot_cases (tracks : Tracks wide constants s) {free : List Nat}
    (listed : s.table.FreeList none free) {slot : Nat} (below : slot < s.table.highWater) :
    exactlyOne (∃ handle ∈ liveHandles s.events, slotOf handle = slot) (slot ∈ free)
      (slotIsReserved s.table.reserved slot = true ∧ issuedAt slot s.events = []) := by
  obtain ⟨e, inSlot⟩ := tracks.wellFormed.shape.present slot below
  rw [tracks.live_slot, listed.member slot]
  cases isReserved : slotIsReserved s.table.reserved slot with
  | true =>
    have blank := tracks.wellFormed.shape.reserved slot e isReserved inSlot
    have never : issuedAt slot s.events = [] := by
      by_contra issued
      exact Bool.false_ne_true ((tracks.notReserved slot issued).symm.trans isReserved)
    refine .inr (.inr ⟨?_, fun onList => Bool.noConfusion onList.2.1, rfl, never⟩)
    rintro ⟨other, isOther, used⟩
    obtain rfl := mem_unique inSlot isOther
    exact used (blank ▸ rfl)
  | false =>
    by_cases used : e.virt = 0
    · refine .inr (.inl ⟨?_, ⟨below, rfl, nofun, e, inSlot, used⟩, nofun⟩)
      rintro ⟨other, isOther, inUse⟩
      obtain rfl := mem_unique inSlot isOther
      exact inUse used
    · refine .inl ⟨⟨e, inSlot, used⟩, ?_, nofun⟩
      rintro ⟨-, -, -, other, isOther, vacant⟩
      obtain rfl := mem_unique inSlot isOther
      exact used vacant

/-- In every run the table answers as the record of the run does. -/
theorem virtual_id_table_sound (reached : Reachable (tableMachine δ wide constants) s) :
    TableSound wide constants s := by
  have tracks := reachable_tracks reached
  obtain ⟨free, listed⟩ := tracks.wellFormed.freeList
  have lookup : ∀ virtId, (s.table.lookupVirtIdEntry wide virtId).map (fun e => (e.real, e.desc)) =
      current s.events (handleValue wide virtId) :=
    fun virtId => (congrArg _ (Table.lookup_find virtId)).trans (tracks.current _)
  refine
    { freeList := ⟨free, listed.chain, listed.chain.nodup, fun slot member => ((listed.member slot).mp member).1,
        fun slot below => tracks.slot_cases listed below⟩
      lookup := lookup
      live := fun handle => by rw [tracks.live handle, ← tracks.current handle, isSome_map]
      distinct := tracks.distinct
      constants := ?_
      generations := fun slot i j a b later near => (tracks.numbered slot).ne later near
      served := ?_
      accepted := ?_
      rejected := ?_ }
  · intro slot handle issued upper isConstant same
    obtain ⟨isSlot, small, inUse⟩ := tracks.made slot handle issued
    have value : handleValue wide handle = handle := by
      cases wide with
      | false => exact Nat.mod_eq_of_lt small
      | true => rfl
    have isFree := tracks.notReserved slot (List.ne_nil_of_mem issued)
    rw [value] at same
    have isReserved := @reserved_of_constant wide [] constants upper isConstant (same ▸ small) (same ▸ inUse)
    rw [same, isSlot, ← tracks.reserved] at isReserved
    exact Bool.false_ne_true (isFree.symm.trans isReserved)
  · intro kind real desc failed slot small
    rw [tracks.live_slot]
    exact tracks.wellFormed.allocSlot_none (tracks.wellFormed.addVirtId_none failed) small
  · intro virtId real isLive
    obtain ⟨e, found⟩ := isSome_iff_exists.mp ((tracks.live _).mp isLive)
    have looked := (Table.lookup_find virtId).trans found
    simp only [Table.freeVirtId, Table.updateVirtId, Table.modifyEntry, looked, bind_some, map_some,
      tracks.idle _ e found, isSome_none, Bool.false_eq_true, if_false, isSome_some, and_self]
  · intro virtId real notLive
    have missing : s.table.lookupVirtIdEntry wide virtId = none := by
      rw [Table.lookup_find, ← not_isSome_iff_eq_none, ← tracks.live]
      exact notLive
    simp only [Table.freeVirtId, Table.updateVirtId, Table.modifyEntry, missing, bind_none, map_none,
      and_self]

/-- MPICH's `MPI_COMM_WORLD` keeps slot 0 free; a freed slot is used again with the next generation. -/
theorem virtual_id_table_sound_reuse :
    ∃ s, Reachable (tableMachine Unit false [0x44000000]) s ∧
      liveHandles s.events = [0x51000001] ∧ issuedAt 1 s.events = [0x51000001, 0x10000001] ∧
      TableSound false [0x44000000] s := by
  have ran : ((tableMachine Unit false [0x44000000]).run ⟨.initial false [0x44000000], []⟩
      [.add .comm 7 (some ()), .update 0x10000001 8, .free 0x10000001, .add .request 9 none]).map
        (fun s => (liveHandles s.events, issuedAt 1 s.events)) =
      some ([0x51000001], [0x51000001, 0x10000001]) := by decide +kernel
  obtain ⟨s, ran, seen⟩ := map_eq_some_iff.mp ran
  obtain ⟨live, issued⟩ := Prod.mk.inj seen
  have reached := (Reachable.start rfl).run ran
  exact ⟨s, reached, live, issued, virtual_id_table_sound reached⟩

end Sound

end Mana.VirtId
