import Mana.Lib.Machine
import Mana.VirtId.Release

/-! Runs of the datatype wrappers and of the calls that use datatypes. In every state the
reference counts are exact, the components of a live datatype are live and older, and a
freed datatype that nothing reaches is gone after the next release. -/

namespace Mana.VirtId
open Mana.Lib Option

inductive TypeAction where
  | construct (call : TypeCall) (real : Handle)
  | commit (type : Handle)
  | free (type : Handle)
  | post (call : NonblockingCall) (real : Handle)
  | drained (request real : Handle)
  | complete (request : Handle)
  | release

def TypeState.usable (up : UpperHalf) (s : TypeState) (type : Handle) : Bool :=
  type ∈ up.constants || type ∈ s.owned

def isRequest (up : UpperHalf) (request : Handle) : Bool :=
  handleValue up.wide request == request && kindOf request == Kind.request.code

/-- `MPI_Isend` or `MPI_Irecv`, after the call in the lower half has returned. -/
def postRequest (up : UpperHalf) (s : TypeState) (call : NonblockingCall) (real : Handle) : Option TypeState :=
  (s.table.addVirtId .request real none).bind fun (request, t) =>
    addPendingRequestToLog up.wide { s with table := t } request call

def completeRequest (up : UpperHalf) (s : TypeState) (request : Handle) : Option TypeState :=
  (releaseFreedDatatypes up.wide (clearPendingRequestFromLog up.wide s request)).bind fun s =>
    (s.table.freeVirtId up.wide request).map fun t => { s with table := t }

def TypeState.step (up : UpperHalf) (s : TypeState) : TypeAction → Option TypeState
  | .construct call real =>
    if call.oldtypes.all (s.usable up) then
      (newVirtDatatype up.wide s.table real call.record).map fun (handle, t) =>
        { s with table := t, owned := handle :: s.owned }
    else none
  | .commit type =>
    if type ∈ s.owned then some { s with table := commitVirtDatatype up.wide s.table type } else none
  | .free type =>
    if type ∈ s.owned then
      (freeVirtDatatype up.wide s type).map fun s => { s with owned := s.owned.erase type }
    else none
  | .post call real => if s.usable up call.datatype then postRequest up s call real else none
  | .drained request real =>
    if isRequest up request then
      (s.table.updateVirtId up.wide request real).map fun t =>
        clearPendingRequestFromLog up.wide { s with table := t } request
    else none
  | .complete request => if isRequest up request then completeRequest up s request else none
  | .release => releaseFreedDatatypes up.wide s

def TypeState.initial (up : UpperHalf) : TypeState where
  table := .initial up.wide up.constants
  pending := []
  freed := []
  owned := []

def typeMachine (up : UpperHalf) : Machine TypeState TypeAction where
  initial s := s = .initial up
  step := TypeState.step up

/-- What the invariant says of an entry; `held` are the datatypes that the application or a deferred free holds. -/
structure EntrySound (up : UpperHalf) (t : Table Desc) (held : List Handle) (h : Nat) (e : Entry Desc) : Prop
    extends DescSound up.wide e where
  older : ∀ d, e.desc = some (.datatype d) → ∀ p ∈ d.components, ∀ f, t.find p = some f → f.seq < e.seq
  seq : e.seq ≤ t.nextSeq
  request : kindOf h = Kind.request.code → e.desc = none
  inUse : ∀ call, e.call = some call → call.datatype ∈ up.constants ∨ call.datatype ∈ held

/-- The invariant; `work` are references that a release in progress has yet to give back, or
that a new datatype is about to take. -/
structure Accounts (up : UpperHalf) (s : TypeState) (work : List Handle) : Prop where
  wellFormed : s.table.WellFormed
  reserved : s.table.reserved = up.constants.foldl (reserveConstantSlot up.wide) []
  counted : (heapOf s.table).Counted (· ∈ up.constants) fun h => (s.owned ++ s.freed).count h + work.count h
  held : ∀ h ∈ s.owned ++ s.freed, (nodeOf s.table h).isSome = true
  nodup : (s.owned ++ s.freed).Nodup
  entries : ∀ h e, s.table.find h = some e → EntrySound up s.table (s.owned ++ s.freed) h e
  pending : ∀ r, r ∈ s.pending ↔ ∃ e, s.table.find r = some e ∧ e.call.isSome = true
  distinct : s.pending.Nodup

section Basics

variable {up : UpperHalf} {s : TypeState} {work : List Handle}
variable {t t' : Table Desc} {work' : List Handle} {type : Handle}

theorem nodeOf_small {handle : Nat} (isNode : (nodeOf t handle).isSome = true) : handle < 2 ^ 32 := by
  obtain ⟨e, -, found, -⟩ := nodeOf_isSome.mp isNode
  exact Table.find_small found

theorem Table.Shape.find_constant (shape : t.Shape)
    (reserved : t.reserved = up.constants.foldl (reserveConstantSlot up.wide) []) {upper : Handle}
    (isConstant : upper ∈ up.constants) : t.find upper = none := by
  refine eq_none_iff_forall_ne_some.mpr fun e found => ?_
  have value := up.fits upper isConstant
  have isReserved := @reserved_of_constant up.wide [] up.constants upper isConstant
    (value.symm ▸ Table.find_small found) (value.symm ▸ (Table.find_eq_some.mp found).1)
  rw [value, ← reserved] at isReserved
  exact Bool.false_ne_true ((shape.find_not_reserved found).symm.trans isReserved)

theorem Table.Adds.not_constant {kind : Kind} {real handle : Handle} {desc : Option Desc}
    (adds : t.Adds kind real desc handle t')
    (reserved : t.reserved = up.constants.foldl (reserveConstantSlot up.wide) []) : handle ∉ up.constants := by
  intro isConstant
  obtain ⟨e, found, -⟩ := adds.entry
  exact nomatch found.symm.trans
    (adds.wellFormed.shape.find_constant (adds.reserved.trans reserved) isConstant)

theorem Accounts.descs (accounts : Accounts up s work) : DescsSound up.wide s.table :=
  fun h e found => (accounts.entries h e found).toDescSound

theorem Accounts.not_pending {r : Nat} (accounts : Accounts up s work) (fresh : s.table.find r = none) :
    r ∉ s.pending := by
  intro member
  obtain ⟨e, found, -⟩ := (accounts.pending r).mp member
  exact nomatch fresh.symm.trans found

theorem Accounts.initial : Accounts up (.initial up) [] := by
  have noNode : ∀ h n, nodeOf (Table.initial up.wide up.constants) h ≠ some n := fun h n isNode => by
    obtain ⟨e, d, found, -⟩ := nodeOf_eq_some.mp isNode
    exact Table.find_initial_ne found
  exact
    { wellFormed := .initial up.wide up.constants
      reserved := rfl
      counted :=
        { exact := fun h n found => absurd found (noNode h n)
          positive := fun h n found => absurd found (noNode h n)
          parts := fun h n found => absurd found (noNode h n)
          external := fun h _ => eq_none_iff_forall_ne_some.mpr (noNode h) }
      held := fun h member => absurd member List.not_mem_nil
      nodup := List.nodup_nil
      entries := fun h e found => absurd found Table.find_initial_ne
      pending := fun r => iff_of_false List.not_mem_nil fun entry =>
        entry.elim fun e both => Table.find_initial_ne both.1
      distinct := List.nodup_nil }

/-- The holders of references may change as long as all references are held. -/
theorem Accounts.reown {s' : TypeState} (accounts : Accounts up s work) (table : s'.table = s.table)
    (pending : s'.pending = s.pending) (perm : ((s'.owned ++ s'.freed) ++ work').Perm ((s.owned ++ s.freed) ++ work))
    (nodup : (s'.owned ++ s'.freed).Nodup) (held : ∀ h ∈ s'.owned ++ s'.freed, h ∈ s.owned ++ s.freed)
    (inUse : ∀ r e call, s.table.find r = some e → e.call = some call →
      call.datatype ∈ up.constants ∨ call.datatype ∈ s'.owned ++ s'.freed) : Accounts up s' work' where
  wellFormed := table ▸ accounts.wellFormed
  reserved := table ▸ accounts.reserved
  counted := by
    rw [table]
    refine accounts.counted.congr fun h _ => ?_
    rw [← List.count_append, ← List.count_append]
    exact perm.count_eq h
  held := fun h member => table ▸ accounts.held h (held h member)
  nodup := nodup
  entries := by
    rw [table]
    exact fun h e found => { accounts.entries h e found with inUse := fun call => inUse h e call found }
  pending := by
    rw [table, pending]
    exact accounts.pending
  distinct := pending ▸ accounts.distinct

theorem RefsFrame.call {t t' : Table Desc} {wide : Bool} (frame : RefsFrame t t') (descs : DescsSound wide t) {r : Nat}
    {call : NonblockingCall} : (∃ e, t'.find r = some e ∧ e.call = some call) ↔
      ∃ e, t.find r = some e ∧ e.call = some call := by
  constructor
  · rintro ⟨e', found', isCall⟩
    obtain ⟨e, refs, found, rfl⟩ := frame.kept r e' found'
    exact ⟨e, found, isCall⟩
  · rintro ⟨e, found, isCall⟩
    have noDesc : nodeOf t r = none := by
      refine nodeOf_eq_none fun e' d found' isDesc => ?_
      obtain rfl := mem_unique found found'
      exact nomatch ((descs r e found).idle (isDesc ▸ rfl)).symm.trans isCall
    exact ⟨e, (frame.others r noDesc).trans found, isCall⟩

theorem RefsFrame.pending {wide : Bool} (frame : RefsFrame t t') (descs : DescsSound wide t) {r : Nat} :
    (∃ e, t'.find r = some e ∧ e.call.isSome = true) ↔ ∃ e, t.find r = some e ∧ e.call.isSome = true := by
  simp only [isSome_iff_exists]
  constructor
  · rintro ⟨e, found, call, isCall⟩
    obtain ⟨e', found', isCall'⟩ := (frame.call descs).mp ⟨e, found, isCall⟩
    exact ⟨e', found', call, isCall'⟩
  · rintro ⟨e, found, call, isCall⟩
    obtain ⟨e', found', isCall'⟩ := (frame.call descs).mpr ⟨e, found, isCall⟩
    exact ⟨e', found', call, isCall'⟩

theorem EntrySound.congr {held held' : List Handle} {h : Nat} {e e' : Entry Desc} (sound : EntrySound up t held h e)
    (seq : e'.seq = e.seq) (call : e'.call = e.call) (desc : e'.desc.map Desc.core = e.desc.map Desc.core)
    (nextSeq : t.nextSeq ≤ t'.nextSeq) (still : held ⊆ held')
    (parts : ∀ d, e.desc = some (.datatype d) → ∀ p ∈ d.components, ∀ f', t'.find p = some f' →
      ∃ f, t.find p = some f ∧ f'.seq = f.seq) : EntrySound up t' held' h e' where
  toDescSound := sound.toDescSound.congr call desc
  older := by
    intro d isDesc p isPart f' foundPart
    obtain ⟨d', before, components, -⟩ := Desc.core_datatype desc isDesc
    obtain ⟨f, partBefore, sameSeq⟩ := parts d' before p (components ▸ isPart) f' foundPart
    rw [seq, sameSeq]
    exact sound.older d' before p (components ▸ isPart) f partBefore
  seq := seq ▸ sound.seq.trans nextSeq
  request := by
    intro isKind
    rw [sound.request isKind] at desc
    exact map_eq_none_iff.mp desc
  inUse := fun c isCall => (sound.inUse c (call ▸ isCall)).imp_right fun member => still member

/-- An entry that is no datatype. -/
theorem EntrySound.of_other {held : List Handle} {h : Nat} {e : Entry Desc} (notType : e.desc.bind Desc.datatype? = none)
    (idle : e.desc.isSome = true → e.call = none) (seq : e.seq ≤ t.nextSeq)
    (request : kindOf h = Kind.request.code → e.desc = none)
    (inUse : ∀ call, e.call = some call → call.datatype ∈ up.constants ∨ call.datatype ∈ held) :
    EntrySound up t held h e := by
  have noType : ∀ d, e.desc ≠ some (.datatype d) := by
    intro d isDesc
    rw [isDesc] at notType
    cases notType
  exact
    { idle := idle
      fits := fun d isDesc => absurd isDesc (noType d)
      struct := fun d isDesc => absurd isDesc (noType d)
      older := fun d isDesc => absurd isDesc (noType d)
      seq := seq
      request := request
      inUse := inUse }

theorem Accounts.frame (accounts : Accounts up s work) (wellFormed : t.WellFormed) (frame : RefsFrame s.table t)
    (counted : (heapOf t).Counted (· ∈ up.constants) fun h => (s.owned ++ s.freed).count h + work'.count h)
    (held : ∀ h ∈ s.owned ++ s.freed, (nodeOf t h).isSome = true) : Accounts up { s with table := t } work' where
  wellFormed := wellFormed
  reserved := frame.reserved.trans accounts.reserved
  counted := counted
  held := held
  nodup := accounts.nodup
  entries := by
    intro h e' found'
    obtain ⟨e, refs, found, rfl⟩ := frame.kept h e' found'
    refine (accounts.entries h e found).congr rfl rfl (withRefs_core refs e) frame.nextSeq.ge (fun _ => id) ?_
    intro d _ p _ f' foundPart
    obtain ⟨f, refs, before, rfl⟩ := frame.kept p f' foundPart
    exact ⟨f, before, rfl⟩
  pending := fun r => (accounts.pending r).trans (frame.pending accounts.descs).symm
  distinct := accounts.distinct

theorem Accounts.release {t : Table Desc} (accounts : Accounts up s work) (released : Released up.wide s.table work t) :
    Accounts up { s with table := t } [] := by
  obtain ⟨counted, kept⟩ := accounts.counted.release released.releases
  refine accounts.frame released.wellFormed released.frame counted fun h member => ?_
  exact kept h (List.count_pos_iff.mpr member) (accounts.held h member)

theorem pendingCallUses_iff {pending : List Nat} :
    pendingCallUsesDatatype t pending type = true ↔
      ∃ r ∈ pending, ∃ e call, t.find r = some e ∧ e.call = some call ∧ call.datatype = type := by
  simp only [pendingCallUsesDatatype, List.any_eq_true]
  refine exists_congr fun r => and_congr_right fun _ => ?_
  cases found : t.find r with
  | none => simp
  | some e =>
    cases isCall : e.call with
    | none => simp [isCall]
    | some call => simp [isCall]

theorem Accounts.not_in_use (accounts : Accounts up s work)
    (notUsed : ¬pendingCallUsesDatatype s.table s.pending type = true) (r : Nat) (e : Entry Desc)
    (call : NonblockingCall) (found : s.table.find r = some e) (isCall : e.call = some call) :
    call.datatype ≠ type := by
  rintro same
  refine notUsed (pendingCallUses_iff.mpr ⟨r, (accounts.pending r).mpr ⟨e, found, isCall ▸ rfl⟩, e, call, found, isCall, same⟩)

theorem Accounts.fits (accounts : Accounts up s work) (member : type ∈ s.owned ++ s.freed) :
    handleValue up.wide type = type := handleValue_of_lt (nodeOf_small (accounts.held type member))

theorem Accounts.give {owned freed : List Handle} (accounts : Accounts up s [])
    (perm : ((owned ++ freed) ++ [type]).Perm (s.owned ++ s.freed))
    (notUsed : ¬pendingCallUsesDatatype s.table s.pending type = true) :
    Accounts up { s with owned := owned, freed := freed } [type] := by
  refine accounts.reown rfl rfl ?_ (List.Nodup.of_append_left (perm.nodup_iff.mpr accounts.nodup)) ?_ ?_
  · rw [List.append_nil]
    exact perm
  · exact fun h member => perm.subset (List.mem_append_left _ member)
  · intro r e call found isCall
    refine ((accounts.entries r e found).inUse call isCall).imp_right fun member => ?_
    have differs := accounts.not_in_use notUsed r e call found isCall
    rcases List.mem_append.mp (perm.symm.subset member) with stays | isType
    · exact stays
    · exact absurd (List.mem_singleton.mp isType) differs

end Basics

section Freed

variable {up : UpperHalf}

/-- The loop of `release_freed_datatypes`, after it has kept the datatypes in `done`. -/
theorem Accounts.releaseFreed {s : TypeState} {done rest : List Handle} (isFreed : s.freed = done ++ rest)
    (accounts : Accounts up s []) :
    ∃ kept t, VirtId.releaseFreed up.wide s.pending rest s.table = some (kept, t) ∧
      Accounts up { s with table := t, freed := done ++ kept } [] ∧ RefsFrame s.table t ∧
      ∀ type ∈ kept, pendingCallUsesDatatype s.table s.pending type = true := by
  induction rest generalizing s done with
  | nil =>
    refine ⟨[], s.table, rfl, ?_, .refl _, fun type member => absurd member List.not_mem_nil⟩
    rw [← isFreed]
    exact accounts
  | cons type rest ih =>
    by_cases used : pendingCallUsesDatatype s.table s.pending type = true
    · obtain ⟨kept, t, ran, after, frame, inUse⟩ := @ih s (done ++ [type]) (by simp [isFreed]) accounts
      refine ⟨type :: kept, t, ?_, ?_, frame, ?_⟩
      · simp only [VirtId.releaseFreed, used, if_true, ran, map_some]
      · rw [List.append_assoc] at after
        exact after
      · intro other member
        rcases List.mem_cons.mp member with rfl | later
        · exact used
        · exact inUse other later
    · have perm : (s.owned ++ (done ++ rest) ++ [type]).Perm (s.owned ++ s.freed) := by
        rw [isFreed, List.append_assoc, List.append_assoc]
        refine List.Perm.append_left _ (List.Perm.append_left _ ?_)
        exact List.perm_append_comm
      have moved : Accounts up { s with freed := done ++ rest } [type] := accounts.give perm used
      have isFreedType : type ∈ s.owned ++ s.freed := perm.subset (List.mem_append_right _ List.mem_cons_self)
      have fits := accounts.fits isFreedType
      obtain ⟨t₁, ran, released⟩ := releaseDatatype_returns accounts.wellFormed accounts.descs fits
      obtain ⟨kept, t, ranRest, after, frame, inUse⟩ := ih rfl (moved.release released)
      refine ⟨kept, t, ?_, after, released.frame.trans frame, ?_⟩
      · simp only [VirtId.releaseFreed, used, Bool.false_eq_true, if_false, ran, bind_some]
        exact ranRest
      · intro other member
        obtain ⟨r, pending, e, call, found, isCall, same⟩ := pendingCallUses_iff.mp (inUse other member)
        obtain ⟨e', found', isCall'⟩ := (released.frame.call accounts.descs).mp ⟨e, found, isCall⟩
        exact pendingCallUses_iff.mpr ⟨r, pending, e', call, found', isCall', same⟩

theorem Accounts.releaseFreedDatatypes {s : TypeState} (accounts : Accounts up s []) :
    ∃ s', VirtId.releaseFreedDatatypes up.wide s = some s' ∧ Accounts up s' [] ∧ RefsFrame s.table s'.table ∧
      s'.owned = s.owned ∧ s'.pending = s.pending ∧
      ∀ type ∈ s'.freed, pendingCallUsesDatatype s.table s.pending type = true := by
  obtain ⟨kept, t, ran, after, frame, inUse⟩ := @Accounts.releaseFreed up s [] s.freed rfl accounts
  refine ⟨{ s with table := t, freed := kept }, ?_, after, frame, rfl, rfl, inUse⟩
  simp only [VirtId.releaseFreedDatatypes, ran, map_some]

theorem Accounts.freeVirtDatatype {s : TypeState} {type : Handle} (accounts : Accounts up s []) (owned : type ∈ s.owned) :
    ∃ s', VirtId.freeVirtDatatype up.wide s type = some s' ∧
      Accounts up { s' with owned := s'.owned.erase type } [] ∧ RefsFrame s.table s'.table ∧ s'.owned = s.owned := by
  have isHeld := accounts.held type (List.mem_append_left _ owned)
  have fits := accounts.fits (List.mem_append_left _ owned)
  obtain ⟨e, d, found, hasDesc⟩ := nodeOf_isSome.mp isHeld
  have isDesc : datatypeDesc up.wide s.table type = some d := (datatypeDesc_iff fits).mpr ⟨e, found, hasDesc⟩
  obtain ⟨s₁, ran, after, frame, sameOwned, -, -⟩ := accounts.releaseFreedDatatypes
  have stillOwned : type ∈ s₁.owned := sameOwned ▸ owned
  have perm : (s₁.owned.erase type ++ (s₁.freed ++ [type])).Perm (s₁.owned ++ s₁.freed) := by
    rw [← List.append_assoc]
    refine List.perm_append_comm.trans ?_
    rw [← List.append_assoc, List.singleton_append]
    exact List.Perm.append_right _ (List.perm_cons_erase stillOwned).symm
  by_cases used : pendingCallUsesDatatype s₁.table s₁.pending type = true
  · refine ⟨{ s₁ with freed := s₁.freed ++ [type] }, ?_, ?_, frame, sameOwned⟩
    · simp only [VirtId.freeVirtDatatype, isDesc, ran, bind_some, used, if_true]
    · refine after.reown rfl rfl ?_ (perm.nodup_iff.mpr after.nodup) (fun h member => perm.subset member) ?_
      · simp only [List.append_nil]
        exact perm
      · intro r e call found isCall
        exact ((after.entries r e found).inUse call isCall).imp_right fun member => perm.symm.subset member
  · rw [← List.append_assoc] at perm
    have moved : Accounts up { s₁ with owned := s₁.owned.erase type } [type] := after.give perm used
    obtain ⟨t, ranRelease, released⟩ := releaseDatatype_returns after.wellFormed after.descs fits
    refine ⟨{ s₁ with table := t }, ?_, moved.release released, frame.trans released.frame, sameOwned⟩
    simp only [VirtId.freeVirtDatatype, isDesc, ran, bind_some, used, Bool.false_eq_true, if_false, ranRelease,
      map_some]

end Freed

section Construct

variable {up : UpperHalf} {s : TypeState} {work : List Handle}
variable {t : Table Desc} {handle : Nat} {entry : Option (Entry Desc)}

/-- A component of a datatype has an entry only if it had one before. -/
theorem Accounts.part_before {h p : Nat} {e f' : Entry Desc} {d : DatatypeDesc} (accounts : Accounts up s work)
    (puts : s.table.Puts handle entry t)
    (seq : ∀ e e', s.table.find handle = some e → entry = some e' → e'.seq = e.seq)
    (found : s.table.find h = some e) (isDesc : e.desc = some (.datatype d)) (isPart : p ∈ d.components)
    (foundPart : t.find p = some f') : ∃ f, s.table.find p = some f ∧ f'.seq = f.seq := by
  rcases puts.cases foundPart with ⟨rfl, isNew⟩ | ⟨-, before⟩
  · rcases accounts.counted.parts h _ (nodeOf_of_find found isDesc) p isPart with isConstant | isLive
    · have absent := puts.wellFormed.shape.find_constant (puts.reserved.trans accounts.reserved) isConstant
      exact nomatch absent.symm.trans foundPart
    · obtain ⟨f, -, before, -⟩ := nodeOf_isSome.mp isLive
      exact ⟨f, before, seq f f' before isNew⟩
  · exact ⟨f', before, rfl⟩

/-- One entry changes; the others stay sound. -/
theorem Accounts.put {owned work' : List Handle} {pending : List Nat} (accounts : Accounts up s work)
    (puts : s.table.Puts handle entry t) (nextSeq : s.table.nextSeq ≤ t.nextSeq)
    (counted : (heapOf t).Counted (· ∈ up.constants) fun h => (owned ++ s.freed).count h + work'.count h)
    (held : ∀ h ∈ owned ++ s.freed, (nodeOf t h).isSome = true) (nodup : (owned ++ s.freed).Nodup)
    (more : s.owned ⊆ owned)
    (seq : ∀ e e', s.table.find handle = some e → entry = some e' → e'.seq = e.seq)
    (new : ∀ e, entry = some e → EntrySound up t (owned ++ s.freed) handle e)
    (isPending : ∀ r, r ∈ pending ↔ r = handle ∧ entry.any (·.call.isSome) = true ∨ r ≠ handle ∧ r ∈ s.pending)
    (distinct : pending.Nodup) : Accounts up { s with table := t, owned := owned, pending := pending } work' where
  wellFormed := puts.wellFormed
  reserved := puts.reserved.trans accounts.reserved
  counted := counted
  held := held
  nodup := nodup
  entries := by
    intro h e' found'
    rcases puts.cases found' with ⟨rfl, isNew⟩ | ⟨-, found⟩
    · exact new e' isNew
    · refine (accounts.entries h e' found).congr rfl rfl rfl nextSeq ?_ ?_
      · exact fun _ member => List.mem_append.mpr ((List.mem_append.mp member).imp_left fun owned => more owned)
      · exact fun d isDesc p isPart f' => accounts.part_before puts seq found isDesc isPart
  pending := by
    intro r
    rw [isPending r, accounts.pending r]
    by_cases same : r = handle
    · subst same
      simp [puts.here, Option.any_eq_true]
    · simp [same, puts.others r same]
  distinct := distinct

theorem Accounts.put_same {pending : List Nat} (accounts : Accounts up s []) (puts : s.table.Puts handle entry t)
    (nextSeq : s.table.nextSeq ≤ t.nextSeq) (node : entry.bind Entry.node = nodeOf s.table handle)
    (seq : ∀ e e', s.table.find handle = some e → entry = some e' → e'.seq = e.seq)
    (new : ∀ e, entry = some e → EntrySound up t (s.owned ++ s.freed) handle e)
    (isPending : ∀ r, r ∈ pending ↔ r = handle ∧ entry.any (·.call.isSome) = true ∨ r ≠ handle ∧ r ∈ s.pending)
    (distinct : pending.Nodup) : Accounts up { s with table := t, pending := pending } [] := by
  have heap := puts.heap_same node
  have nodes : nodeOf t = nodeOf s.table := congrArg Heap.node heap
  exact accounts.put puts nextSeq (heap ▸ accounts.counted) (nodes ▸ accounts.held) accounts.nodup (fun _ => id) seq new
    isPending distinct

theorem Accounts.retain {p : Handle} (accounts : Accounts up s work) (fits : handleValue up.wide p = p) :
    Accounts up { s with table := retainOldtype up.wide s.table p } (p :: work) ∧
      RefsFrame s.table (retainOldtype up.wide s.table p) ∧
      ∀ h, (nodeOf s.table h).isSome = true → (nodeOf (retainOldtype up.wide s.table p) h).isSome = true := by
  cases isDesc : datatypeDesc up.wide s.table p with
  | none =>
    -- A predefined datatype is not counted.
    have absent := datatypeDesc_none fits isDesc
    simp only [retainOldtype, isDesc]
    refine ⟨accounts.frame accounts.wellFormed (.refl _) ?_ accounts.held, .refl _, fun _ isLive => isLive⟩
    refine accounts.counted.congr fun h isLive => ?_
    have differs : p ≠ h := by
      rintro rfl
      have isNode : (nodeOf s.table p).isSome = true := isLive
      rw [absent] at isNode
      exact nomatch isNode
    rw [List.count_cons_of_ne differs]
  | some d =>
    obtain ⟨e, found, hasDesc⟩ := (datatypeDesc_iff fits).mp isDesc
    simp only [retainOldtype, isDesc]
    generalize isRetained : modifyDatatype up.wide s.table p (fun old => { old with refs := old.refs + 1 }) = t
    have modifies : s.table.Modifies p (withRefs (d.refs + 1)) t := by
      rw [← isRetained]
      refine (modifyDatatype_spec accounts.wellFormed fits found).congr found ?_
      simp only [assignDatatype, withRefs, hasDesc, map_some]
    have heap : heapOf t = (heapOf s.table).put p ⟨d.refs + 1, d.components⟩ :=
      (modifies.puts found).heap_put (congrArg (Option.map _) hasDesc)
    have isNode := nodeOf_of_find found hasDesc
    have isRefs := accounts.counted.exact p _ isNode
    have positive := accounts.counted.positive p _ isNode
    have still : ∀ h, (nodeOf s.table h).isSome = true → (nodeOf t h).isSome = true := by
      intro h isLive
      rw [show nodeOf t h = _ from congrFun (congrArg Heap.node heap) h]
      exact Heap.isSome_put _ _ isLive
    have frame := modifies.frame found hasDesc
    refine ⟨accounts.frame modifies.wellFormed frame ?_ fun h member => still h (accounts.held h member), frame, still⟩
    rw [heap]
    refine accounts.counted.put_refs isNode ?_ ?_ fun j differs => ?_
    · simp only [List.count_cons_self] at isRefs ⊢
      omega
    · simp only at positive
      omega
    · rw [List.count_cons_of_ne (Ne.symm differs)]

theorem Accounts.retainAll (olds : List Handle) (accounts : Accounts up s work)
    (fits : ∀ p ∈ olds, handleValue up.wide p = p) :
    Accounts up { s with table := olds.foldl (retainOldtype up.wide) s.table } (olds.reverse ++ work) ∧
      RefsFrame s.table (olds.foldl (retainOldtype up.wide) s.table) ∧
      ∀ h, (nodeOf s.table h).isSome = true →
        (nodeOf (olds.foldl (retainOldtype up.wide) s.table) h).isSome = true := by
  induction olds generalizing s work with
  | nil => exact ⟨accounts, .refl _, fun _ isLive => isLive⟩
  | cons p rest ih =>
    obtain ⟨one, frame, still⟩ := accounts.retain (fits p List.mem_cons_self)
    obtain ⟨two, frame', still'⟩ := ih one fun q member => fits q (List.mem_cons_of_mem p member)
    rw [List.reverse_cons, List.append_assoc, List.singleton_append]
    exact ⟨two, frame.trans frame', fun h isLive => still' h (still h isLive)⟩

theorem TypeCall.record_struct (call : TypeCall) (isStruct : call.record.constructor = .struct) :
    call.record.oldtype = 0 := by
  cases call with
  | struct blocks => rfl
  | _ => cases isStruct

theorem Accounts.usable {type : Handle} (accounts : Accounts up s []) (isUsable : s.usable up type = true) :
    handleValue up.wide type = type ∧ (type ∈ up.constants ∨ (nodeOf s.table type).isSome = true) := by
  simp only [TypeState.usable, Bool.or_eq_true, decide_eq_true_eq] at isUsable
  rcases isUsable with isConstant | isOwned
  · exact ⟨up.fits type isConstant, .inl isConstant⟩
  · exact ⟨accounts.fits (List.mem_append_left _ isOwned), .inr (accounts.held type (List.mem_append_left _ isOwned))⟩

variable {call : TypeCall} {real : Handle}

/-- `new_virt_datatype`: the references to the components, then the entry. -/
theorem Accounts.newVirtDatatype (accounts : Accounts up s []) (usable : ∀ p ∈ call.oldtypes, s.usable up p = true)
    (made : VirtId.newVirtDatatype up.wide s.table real call.record = some (handle, t)) :
    ∃ t₁, Accounts up { s with table := t₁ } (call.record.components.reverse ++ []) ∧ RefsFrame s.table t₁ ∧
      (∀ h, (nodeOf s.table h).isSome = true → (nodeOf t₁ h).isSome = true) ∧
      t₁.Adds .datatype real (some (.datatype { call.record with refs := 1 })) handle t := by
  have fits : ∀ p ∈ call.record.components, handleValue up.wide p = p :=
    fun p member => (accounts.usable (usable p (call.record_components ▸ member))).1
  obtain ⟨retained, frame, still⟩ := accounts.retainAll call.record.components fits
  exact ⟨_, retained, frame, still, retained.wellFormed.addVirtId made⟩

theorem Accounts.construct (accounts : Accounts up s []) (usable : ∀ p ∈ call.oldtypes, s.usable up p = true)
    (made : VirtId.newVirtDatatype up.wide s.table real call.record = some (handle, t)) :
    Accounts up { s with table := t, owned := handle :: s.owned } [] := by
  have components := call.record_components
  have fits : ∀ p ∈ call.record.components, handleValue up.wide p = p :=
    fun p member => (accounts.usable (usable p (components ▸ member))).1
  obtain ⟨t₁, retained, frame, still, adds⟩ := accounts.newVirtDatatype usable made
  have notConstant := adds.not_constant retained.reserved
  have notLive : nodeOf t₁ handle = none := by simp only [nodeOf, adds.fresh, bind_none]
  have known : ∀ p ∈ call.record.components, p ∈ up.constants ∨ (nodeOf t₁ p).isSome = true :=
    fun p member => (accounts.usable (usable p (components ▸ member))).2.imp_right (still p)
  have notHandle : ∀ p, (p ∈ up.constants ∨ (nodeOf t₁ p).isSome = true) → p ≠ handle := by
    rintro p isKnown rfl
    rcases isKnown with isConstant | isLive
    · exact notConstant isConstant
    · rw [notLive] at isLive
      exact nomatch isLive
  have fresh : handle ∉ s.owned ++ s.freed :=
    fun member => notHandle handle (.inr (retained.held handle member)) rfl
  obtain ⟨e, found, -, isDesc, isSeq, noCall, -⟩ := adds.entry
  have puts := adds.puts found
  have nextSeq := adds.nextSeq
  refine retained.put puts (by simp only; omega) ?_ ?_ (List.nodup_cons.mpr ⟨fresh, accounts.nodup⟩)
    (List.subset_cons_self handle s.owned) (fun f _ before => nomatch adds.fresh.symm.trans before) ?_ ?_ accounts.distinct
  · have counted := retained.counted
    simp only [List.append_nil, List.count_reverse] at counted
    rw [puts.heap_put isDesc]
    refine counted.put_new notLive notConstant known ?_ Int.one_pos fun j differs => ?_
    · simp only [List.cons_append, List.count_cons_self, List.count_eq_zero_of_not_mem fresh, List.count_nil]
      rfl
    · simp only [List.cons_append, List.count_cons_of_ne (Ne.symm differs), List.count_nil, Nat.add_zero]
  · intro h member
    rcases List.mem_cons.mp member with rfl | old
    · rw [nodeOf_of_find found isDesc]
      rfl
    · have isLive := retained.held h old
      rw [nodeOf_congr (adds.others h (notHandle h (.inr isLive)))]
      exact isLive
  · rintro f ⟨⟩
    have isRecord : ∀ d, e.desc = some (.datatype d) → d = { call.record with refs := 1 } := by
      intro d hasDesc
      cases isDesc.symm.trans hasDesc
      rfl
    refine
      { idle := fun _ => noCall
        fits := fun d hasDesc => isRecord d hasDesc ▸ fits
        struct := fun d hasDesc => isRecord d hasDesc ▸ call.record_struct
        older := ?_
        seq := by omega
        request := ?_
        inUse := fun c isCall => nomatch noCall.symm.trans isCall }
    · intro d hasDesc p isPart f foundPart
      obtain rfl := isRecord d hasDesc
      rcases puts.cases foundPart with ⟨same, -⟩ | ⟨-, before⟩
      · exact absurd same (notHandle p (known p isPart))
      · have bound := (retained.entries p f before).seq
        simp only at bound
        omega
    · intro isKind
      rw [adds.ofKind] at isKind
      cases isKind
  · intro r
    simp only [any_some, noCall, isSome_none, Bool.false_eq_true, and_false, false_or]
    refine (and_iff_right_of_imp ?_).symm
    rintro member rfl
    exact retained.not_pending adds.fresh member

end Construct

section Entries

variable {up : UpperHalf} {s : TypeState}
variable {t : Table Desc} {pending : List Nat} {request : Nat}

theorem Accounts.assign {handle : Nat} {assign : Entry Desc → Entry Desc} (accounts : Accounts up s [])
    (modifies : s.table.Modifies handle assign t)
    (same : ∀ e, (assign e).seq = e.seq ∧ (assign e).call = e.call ∧ (assign e).node = e.node ∧
      (assign e).desc.map Desc.core = e.desc.map Desc.core) : Accounts up { s with table := t } [] := by
  obtain ⟨e, found, -⟩ := modifies.entry
  obtain ⟨sameSeq, sameCall, sameNode, sameDesc⟩ := same e
  have puts := modifies.puts found
  have seq : ∀ f f', s.table.find handle = some f → some (assign e) = some f' → f'.seq = f.seq := by
    rintro f _ found' ⟨⟩
    obtain rfl := mem_unique found found'
    exact sameSeq
  have node : (some (assign e)).bind Entry.node = nodeOf s.table handle := by
    rw [nodeOf, found]
    exact sameNode
  refine accounts.put_same puts modifies.nextSeq.ge node seq ?_ ?_ accounts.distinct
  · rintro _ ⟨⟩
    refine (accounts.entries handle e found).congr sameSeq sameCall sameDesc modifies.nextSeq.ge (fun _ => id) ?_
    exact fun d isDesc p isPart f' => accounts.part_before puts seq found isDesc isPart
  · intro r
    by_cases isHandle : r = handle
    · subst isHandle
      simp [accounts.pending r, found, sameCall]
    · simp [isHandle]

theorem Accounts.add {kind : Kind} {real handle : Handle} {desc : Option Desc} (accounts : Accounts up s [])
    (adds : s.table.Adds kind real desc handle t) (notType : desc.bind Desc.datatype? = none)
    (notRequest : desc = none ∨ kind ≠ .request) : Accounts up { s with table := t } [] := by
  obtain ⟨e, found, -, rfl, isSeq, noCall, -⟩ := adds.entry
  have nextSeq := adds.nextSeq
  have node : (some e).bind Entry.node = nodeOf s.table handle := by
    simp only [nodeOf, Entry.node, adds.fresh, notType, bind_some, bind_none, map_none]
  refine accounts.put_same (adds.puts found) (by omega) node ?_ ?_ ?_ accounts.distinct
  · intro f _ before
    cases adds.fresh.symm.trans before
  · rintro _ ⟨⟩
    refine .of_other notType (fun _ => noCall) (by omega) (fun isKind => ?_) fun c isCall => ?_
    · refine notRequest.resolve_right fun differs => ?_
      rw [adds.ofKind] at isKind
      cases kind <;> first | exact differs rfl | cases isKind
    · cases noCall.symm.trans isCall
  · intro r
    simp only [any_some, noCall, isSome_none, Bool.false_eq_true, and_false, false_or]
    refine (and_iff_right_of_imp ?_).symm
    rintro member rfl
    exact accounts.not_pending adds.fresh member

theorem Accounts.setCall {e : Entry Desc} {call : Option NonblockingCall} (accounts : Accounts up s [])
    (modifies : s.table.Modifies request (fun e => { e with call := call }) t) (found : s.table.find request = some e)
    (noDesc : e.desc = none)
    (isPending : ∀ r, r ∈ pending ↔ r = request ∧ call.isSome = true ∨ r ≠ request ∧ r ∈ s.pending)
    (distinct : pending.Nodup)
    (inUse : ∀ c, call = some c → c.datatype ∈ up.constants ∨ c.datatype ∈ s.owned ++ s.freed) :
    Accounts up { s with table := t, pending := pending } [] := by
  have puts := modifies.puts found
  have node : (some { e with call := call }).bind Entry.node = nodeOf s.table request := by
    rw [nodeOf, found]
    rfl
  refine accounts.put_same puts modifies.nextSeq.ge node ?_ ?_ isPending distinct
  · rintro f _ found' ⟨⟩
    obtain rfl := mem_unique found found'
    rfl
  · rintro _ ⟨⟩
    have notType : e.desc.bind Desc.datatype? = none := by rw [noDesc, bind_none]
    refine .of_other notType (fun isSome => ?_) ?_ (fun _ => noDesc) inUse
    · simp only [noDesc, isSome_none, Bool.false_eq_true] at isSome
    · rw [modifies.nextSeq]
      exact (accounts.entries request e found).seq

theorem Accounts.remove (accounts : Accounts up s []) (frees : s.table.Frees request t)
    (notType : nodeOf s.table request = none) : Accounts up { s with table := t } [] := by
  obtain ⟨e, found, noCall, -⟩ := frees.entry
  refine accounts.put_same frees.toPuts frees.nextSeq.ge notType.symm (fun _ _ _ isNew => nomatch isNew)
    (fun _ isNew => nomatch isNew) ?_ accounts.distinct
  intro r
  simp only [any_none, Bool.false_eq_true, and_false, false_or]
  refine (and_iff_right_of_imp ?_).symm
  rintro member rfl
  obtain ⟨f, before, isCall⟩ := (accounts.pending r).mp member
  obtain rfl := mem_unique found before
  rw [noCall] at isCall
  cases isCall

end Entries

/-- What the steps leave as it is: all but counts, and requests. -/
def Keeps (t t' : Table Desc) : Prop :=
  ∀ h e', t'.find h = some e' →
    (∃ e refs, t.find h = some e ∧ e' = withRefs refs e) ∨ kindOf h = Kind.request.code ∧ e'.desc = none

section Keeps

variable {t t' t'' : Table Desc} {handle : Nat}

theorem RefsFrame.keeps (frame : RefsFrame t t') : Keeps t t' := fun h e' found' => .inl (frame.kept h e' found')

theorem Keeps.refl (t : Table Desc) : Keeps t t := (RefsFrame.refl t).keeps

theorem Keeps.trans (one : Keeps t t') (two : Keeps t' t'') : Keeps t t'' := by
  intro h e'' found''
  rcases two h e'' found'' with ⟨e', refs', found', rfl⟩ | isRequest
  · rcases one h e' found' with ⟨e, refs, found, rfl⟩ | ⟨isKind, noDesc⟩
    · exact .inl ⟨e, refs', found, withRefs_withRefs refs' refs e⟩
    · exact .inr ⟨isKind, congrArg (Option.map _) noDesc⟩
  · exact .inr isRequest

theorem Table.Puts.keeps {entry : Option (Entry Desc)} (puts : t.Puts handle entry t')
    (isRequest : ∀ e, entry = some e → kindOf handle = Kind.request.code ∧ e.desc = none) : Keeps t t' := by
  intro h e' found'
  rcases puts.cases found' with ⟨rfl, isNew⟩ | ⟨-, found⟩
  · exact .inr (isRequest e' isNew)
  · exact .inl ⟨e', (withRefs_self e').imp fun _ same => ⟨found, same⟩⟩

theorem Table.Frees.keeps (frees : t.Frees handle t') : Keeps t t' := frees.toPuts.keeps fun _ isNew => nomatch isNew

end Keeps

/-- What a step does to the table. -/
def TypeAction.Does (up : UpperHalf) (s s' : TypeState) : TypeAction → Prop
  | .construct call real => (∀ p ∈ call.oldtypes, s.usable up p = true) ∧ ∃ handle t₁ t, RefsFrame s.table t₁ ∧
      (∀ h, (nodeOf s.table h).isSome = true → (nodeOf t₁ h).isSome = true) ∧
      t₁.Adds .datatype real (some (.datatype { call.record with refs := 1 })) handle t ∧
      s' = { s with table := t, owned := handle :: s.owned }
  | .commit type => type ∈ s.owned ∧ ∃ e d t, s.table.find type = some e ∧ e.desc = some (.datatype d) ∧
      s.table.Modifies type (assignDatatype fun d => { d with committed := true }) t ∧ s' = { s with table := t }
  | .free type => type ∈ s.owned ∧ RefsFrame s.table s'.table ∧ s'.owned = s.owned.erase type
  | .release => RefsFrame s.table s'.table ∧ s'.owned = s.owned
  | .post _ _ | .drained _ _ | .complete _ => Keeps s.table s'.table ∧ s'.owned = s.owned

section Run

variable {up : UpperHalf} {s : TypeState}
variable {request : Handle} {s' : TypeState}

theorem isRequest_iff : isRequest up request = true ↔
    handleValue up.wide request = request ∧ kindOf request = Kind.request.code := by
  simp only [isRequest, Bool.and_eq_true, beq_iff_eq]

theorem Accounts.request_not_type (accounts : Accounts up s []) (isKind : kindOf request = Kind.request.code) :
    nodeOf s.table request = none := by
  refine nodeOf_eq_none fun e d found isDesc => ?_
  exact nomatch ((accounts.entries request e found).request isKind).symm.trans isDesc

theorem clearPending_logged {request : Handle} {e : Entry Desc} (wellFormed : s.table.WellFormed)
    (fits : handleValue up.wide request = request) (found : s.table.find request = some e)
    (logged : e.call.isSome = true) :
    ∃ t, s.table.Modifies request (fun e => { e with call := none }) t ∧
      clearPendingRequestFromLog up.wide s request = { s with table := t, pending := s.pending.erase request } := by
  have looked : s.table.lookupVirtIdEntry up.wide request = some e := by rw [Table.lookup_find, fits, found]
  have modified : s.table.modifyEntry up.wide request (fun e => { e with call := none }) =
      some (s.table.setEntry (slotOf (request % 2 ^ 32)) { e with call := none }) := by
    simp only [Table.modifyEntry, looked, map_some]
  refine ⟨_, wellFormed.modifies fits modified fun _ => rfl, ?_⟩
  simp only [clearPendingRequestFromLog, looked, logged, if_true, modified, getD_some]

theorem clearPending_cases (wellFormed : s.table.WellFormed) (fits : handleValue up.wide request = request) :
    clearPendingRequestFromLog up.wide s request = s ∨
      ∃ e t, s.table.find request = some e ∧ s.table.Modifies request (fun e => { e with call := none }) t ∧
        clearPendingRequestFromLog up.wide s request = { s with table := t, pending := s.pending.erase request } := by
  cases looked : s.table.lookupVirtIdEntry up.wide request with
  | none =>
    left
    simp only [clearPendingRequestFromLog, looked]
  | some e =>
    have found : s.table.find request = some e := by rw [← fits, ← Table.lookup_find, looked]
    by_cases logged : e.call.isSome = true
    · obtain ⟨t, modifies, cleared⟩ := clearPending_logged wellFormed fits found logged
      exact .inr ⟨e, t, found, modifies, cleared⟩
    · left
      simp only [clearPendingRequestFromLog, looked, logged, Bool.false_eq_true, if_false]

theorem Accounts.clear (accounts : Accounts up s []) (isReq : isRequest up request = true) :
    Accounts up (clearPendingRequestFromLog up.wide s request) [] ∧
      Keeps s.table (clearPendingRequestFromLog up.wide s request).table ∧
      (clearPendingRequestFromLog up.wide s request).owned = s.owned := by
  obtain ⟨fits, isKind⟩ := isRequest_iff.mp isReq
  rcases clearPending_cases accounts.wellFormed fits with same | ⟨e, t, found, modifies, cleared⟩
  · rw [same]
    exact ⟨accounts, .refl _, rfl⟩
  · have noDesc := (accounts.entries request e found).request isKind
    rw [cleared]
    refine ⟨?_, (modifies.puts found).keeps ?_, rfl⟩
    · refine accounts.setCall modifies found noDesc (fun r => ?_) (accounts.distinct.erase request)
        fun c isCall => nomatch isCall
      rw [accounts.distinct.mem_erase_iff]
      simp
    · rintro _ ⟨⟩
      exact ⟨isKind, noDesc⟩

theorem Accounts.post {call : NonblockingCall} {real : Handle} (accounts : Accounts up s [])
    (usable : s.usable up call.datatype = true) (posted : postRequest up s call real = some s') :
    Accounts up s' [] ∧ Keeps s.table s'.table ∧ s'.owned = s.owned := by
  obtain ⟨⟨request, t⟩, added, posted⟩ := bind_eq_some_iff.mp posted
  have adds := accounts.wellFormed.addVirtId added
  have after := accounts.add adds rfl (.inl rfl)
  obtain ⟨e, found, -, noDesc, -, noCall, -⟩ := adds.entry
  have fits : handleValue up.wide request = request := handleValue_of_lt (Table.find_small found)
  obtain ⟨t', modified, rfl⟩ := map_eq_some_iff.mp posted
  have modifies := after.wellFormed.modifies fits modified fun _ => rfl
  have notPending := accounts.not_pending adds.fresh
  refine ⟨after.setCall modifies found noDesc ?_ ?_ ?_, ?_, rfl⟩
  · intro r
    simp only [List.mem_append, List.mem_singleton, isSome_some, and_true]
    constructor
    · rintro (member | rfl)
      · refine .inr ⟨?_, member⟩
        rintro rfl
        exact notPending member
      · exact .inl rfl
    · rintro (rfl | ⟨-, member⟩)
      · exact .inr rfl
      · exact .inl member
  · refine List.Nodup.append accounts.distinct (List.nodup_singleton request) ?_
    exact List.disjoint_singleton.mpr notPending
  · intro c isCall
    cases isCall
    simp only [TypeState.usable, Bool.or_eq_true, decide_eq_true_eq] at usable
    exact usable.imp_right (List.mem_append_left s.freed)
  · have added : Keeps s.table t := (adds.puts found).keeps fun f isNew => some.inj isNew ▸ ⟨adds.ofKind, noDesc⟩
    refine added.trans ((modifies.puts found).keeps ?_)
    rintro _ ⟨⟩
    exact ⟨adds.ofKind, noDesc⟩

theorem Accounts.step {action : TypeAction} (accounts : Accounts up s []) (taken : s.step up action = some s') :
    Accounts up s' [] ∧ action.Does up s s' := by
  cases action with
  | construct call real =>
    obtain ⟨usable, made⟩ := ite_none_right_eq_some.mp taken
    obtain ⟨⟨handle, t⟩, isMade, rfl⟩ := map_eq_some_iff.mp made
    have usable := List.all_eq_true.mp usable
    obtain ⟨t₁, -, frame, still, adds⟩ := accounts.newVirtDatatype usable isMade
    exact ⟨accounts.construct usable isMade, usable, handle, t₁, t, frame, still, adds, rfl⟩
  | commit type =>
    obtain ⟨owned, committed⟩ := ite_none_right_eq_some.mp taken
    cases committed
    have member : type ∈ s.owned ++ s.freed := List.mem_append_left s.freed owned
    have fits := accounts.fits member
    obtain ⟨e, d, found, isDesc⟩ := nodeOf_isSome.mp (accounts.held type member)
    have modifies : s.table.Modifies type (assignDatatype fun d => { d with committed := true })
        (commitVirtDatatype up.wide s.table type) := by
      simp only [commitVirtDatatype, (datatypeDesc_iff fits).mpr ⟨e, found, isDesc⟩]
      exact modifyDatatype_spec accounts.wellFormed fits found
    refine ⟨accounts.assign modifies fun e => ⟨rfl, rfl, ?_⟩, owned, e, d, _, found, isDesc, modifies, rfl⟩
    cases isDesc : e.desc with
    | none => simp [Entry.node, assignDatatype, isDesc]
    | some desc =>
      cases desc <;> simp [Entry.node, assignDatatype, isDesc, Desc.core, Desc.datatype?, DatatypeDesc.components]
  | free type =>
    obtain ⟨owned, freed⟩ := ite_none_right_eq_some.mp taken
    obtain ⟨s₁, ran, rfl⟩ := map_eq_some_iff.mp freed
    obtain ⟨s₂, ran', after, frame, sameOwned⟩ := accounts.freeVirtDatatype owned
    obtain rfl := mem_unique ran ran'
    exact ⟨after, owned, frame, congrArg (List.erase · type) sameOwned⟩
  | post call real =>
    obtain ⟨usable, posted⟩ := ite_none_right_eq_some.mp taken
    exact accounts.post usable posted
  | drained request real =>
    obtain ⟨isReq, drained⟩ := ite_none_right_eq_some.mp taken
    obtain ⟨t, updated, rfl⟩ := map_eq_some_iff.mp drained
    obtain ⟨fits, isKind⟩ := isRequest_iff.mp isReq
    have modifies := accounts.wellFormed.modifies fits updated fun _ => rfl
    obtain ⟨e, found, -⟩ := modifies.entry
    have updated : Keeps s.table t := (modifies.puts found).keeps fun f isNew =>
      some.inj isNew ▸ ⟨isKind, (accounts.entries request e found).request isKind⟩
    obtain ⟨after, cleared, sameOwned⟩ := (accounts.assign modifies fun _ => ⟨rfl, rfl, rfl, rfl⟩).clear isReq
    exact ⟨after, updated.trans cleared, sameOwned⟩
  | complete request =>
    obtain ⟨isReq, completed⟩ := ite_none_right_eq_some.mp taken
    obtain ⟨s₁, released, completed⟩ := bind_eq_some_iff.mp completed
    obtain ⟨t, freed, rfl⟩ := map_eq_some_iff.mp completed
    obtain ⟨isCleared, cleared, clearOwned⟩ := accounts.clear isReq
    obtain ⟨s₂, ran, after, frame, sameOwned, -⟩ := isCleared.releaseFreedDatatypes
    obtain rfl := mem_unique released ran
    obtain ⟨fits, isKind⟩ := isRequest_iff.mp isReq
    have frees := after.wellFormed.freeVirtId freed
    rw [fits] at frees
    exact ⟨after.remove frees (after.request_not_type isKind), (cleared.trans frame.keeps).trans frees.keeps,
      sameOwned.trans clearOwned⟩
  | release =>
    obtain ⟨s₁, ran, after, frame, sameOwned, -⟩ := accounts.releaseFreedDatatypes
    obtain rfl := mem_unique (show VirtId.releaseFreedDatatypes up.wide s = some s' from taken) ran
    exact ⟨after, frame, sameOwned⟩

theorem reachable_accounts (reached : Reachable (typeMachine up) s) : Accounts up s [] := by
  refine reached.invariant (fun s => Accounts up s []) ?_ ?_
  · rintro _ rfl
    exact .initial
  · intro s action s' _ accounts taken
    exact (accounts.step taken).1

structure RefsExact (up : UpperHalf) (s : TypeState) : Prop where
  refs : ∀ h d, handleValue up.wide h = h → datatypeDesc up.wide s.table h = some d →
    d.refs = (if h ∈ s.owned ∨ h ∈ s.freed then 1 else 0) + (heapOf s.table).uses h
  /-- `refs` is an `int`: it does not overflow before the live datatypes have `INT_MAX` components. -/
  bound : ∀ h d, handleValue up.wide h = h → datatypeDesc up.wide s.table h = some d →
    d.refs ≤ (heapOf s.table).occurrences + 1
  components : ∀ h e d, s.table.find h = some e → e.desc = some (.datatype d) → ∀ p ∈ d.components,
    p ∈ up.constants ∨ ∃ e' d', s.table.find p = some e' ∧ e'.desc = some (.datatype d') ∧ e'.seq < e.seq
  pending : ∀ r ∈ s.pending, ∃ e call, s.table.find r = some e ∧ e.call = some call ∧
    (call.datatype ∈ up.constants ∨ (datatypeDesc up.wide s.table call.datatype).isSome = true)
  terminates : ∀ h, handleValue up.wide h = h → ∃ t, ∀ fuel, releaseDepth s.table ≤ fuel →
    releaseDatatype up.wide fuel s.table h = some t
  frees : ∀ h ∈ s.owned, (freeVirtDatatype up.wide s h).isSome = true
  gone : ∃ s', releaseFreedDatatypes up.wide s = some s' ∧ ∀ h, handleValue up.wide h = h →
    (∀ j ∈ s.owned, ¬(heapOf s.table).Reaches j h) →
    (∀ r ∈ s.pending, ∀ e call, s.table.find r = some e → e.call = some call →
      ¬(heapOf s.table).Reaches call.datatype h) → datatypeDesc up.wide s'.table h = none

theorem RefsFrame.reaches {t t' : Table Desc} (frame : RefsFrame t t') {j k : Nat}
    (path : (heapOf t').Reaches j k) : (heapOf t).Reaches j k := by
  refine Relation.ReflTransGen.mono ?_ _ _ path
  rintro i p ⟨n, isNode, isPart⟩
  obtain ⟨e', d', found', isDesc, rfl⟩ := nodeOf_eq_some.mp isNode
  obtain ⟨e, refs, found, rfl⟩ := frame.kept i e' found'
  obtain ⟨d, before, rfl⟩ := withRefs_desc isDesc
  exact ⟨_, nodeOf_of_find found before, isPart⟩

/-- Every datatype is held by one that the application has not freed, or whose free waits. -/
theorem Accounts.owner (accounts : Accounts up s []) {h : Nat} (isLive : (nodeOf s.table h).isSome = true) :
    ∃ j ∈ s.owned ++ s.freed, (heapOf s.table).Reaches j h := by
  have older : ∀ k n, (heapOf s.table).node k = some n → ∀ p ∈ n.parts, ((heapOf s.table).node p).isSome = true →
      (s.table.find p).elim 0 (·.seq) < (s.table.find k).elim 0 (·.seq) := by
    intro k n isNode p isPart pLive
    obtain ⟨e, d, found, isDesc, rfl⟩ := nodeOf_eq_some.mp isNode
    obtain ⟨e', d', found', -⟩ := nodeOf_isSome.mp pLive
    rw [found, found']
    exact (accounts.entries k e found).older d isDesc p isPart e' found'
  obtain ⟨j, owned, -, path⟩ := accounts.counted.owner (fun k => (s.table.find k).elim 0 (·.seq)) older isLive
  exact ⟨j, List.count_pos_iff.mp owned, path⟩

/-- In every run the reference counts of the datatypes are exact. -/
theorem datatype_refs_exact (reached : Reachable (typeMachine up) s) : RefsExact up s := by
  have accounts := reachable_accounts reached
  have exactRefs : ∀ h d, handleValue up.wide h = h → datatypeDesc up.wide s.table h = some d →
      d.refs = (if h ∈ s.owned ∨ h ∈ s.freed then 1 else 0) + (heapOf s.table).uses h := by
    intro h d fits isDesc
    obtain ⟨e, found, hasDesc⟩ := (datatypeDesc_iff fits).mp isDesc
    have isRefs := accounts.counted.exact h _ (nodeOf_of_find found hasDesc)
    have count : (s.owned ++ s.freed).count h = if h ∈ s.owned ∨ h ∈ s.freed then 1 else 0 := by
      rw [List.Nodup.count accounts.nodup]
      simp only [List.mem_append]
    rw [count, List.count_nil, Nat.add_zero] at isRefs
    refine isRefs.trans ?_
    split <;> rfl
  refine
    { refs := exactRefs
      bound := ?_
      components := ?_
      pending := ?_
      terminates := ?_
      frees := ?_
      gone := ?_ }
  · intro h d fits isDesc
    have uses := (heapOf s.table).uses_le_occurrences h
    rw [exactRefs h d fits isDesc]
    split <;> omega
  · intro h e d found isDesc p isPart
    refine (accounts.counted.parts h _ (nodeOf_of_find found isDesc) p isPart).imp_right fun isLive => ?_
    obtain ⟨e', d', found', isDesc'⟩ := nodeOf_isSome.mp isLive
    exact ⟨e', d', found', isDesc', (accounts.entries h e found).older d isDesc p isPart e' found'⟩
  · intro r member
    obtain ⟨e, found, isCall⟩ := (accounts.pending r).mp member
    obtain ⟨call, isCall⟩ := isSome_iff_exists.mp isCall
    refine ⟨e, call, found, isCall, ((accounts.entries r e found).inUse call isCall).imp_right fun held => ?_⟩
    obtain ⟨e', d, found', isDesc⟩ := nodeOf_isSome.mp (accounts.held _ held)
    rw [(datatypeDesc_iff (accounts.fits held)).mpr ⟨e', found', isDesc⟩]
    rfl
  · intro h fits
    obtain ⟨t, ran, -⟩ := releaseDatatype_returns accounts.wellFormed accounts.descs fits
    exact ⟨t, fun fuel deep => releaseDatatype_mono deep ran⟩
  · intro h owned
    obtain ⟨s', ran, -⟩ := accounts.freeVirtDatatype owned
    rw [ran]
    rfl
  · obtain ⟨s', ran, after, frame, sameOwned, -, inUse⟩ := accounts.releaseFreedDatatypes
    refine ⟨s', ran, fun h fits notOwned notPending => ?_⟩
    refine eq_none_iff_forall_ne_some.mpr fun d isDesc => ?_
    obtain ⟨e, found, hasDesc⟩ := (datatypeDesc_iff fits).mp isDesc
    have isLive : (nodeOf s'.table h).isSome = true := by
      rw [nodeOf_of_find found hasDesc]
      rfl
    obtain ⟨j, holder, path⟩ := after.owner isLive
    rcases List.mem_append.mp holder with owned | freed
    · exact notOwned j (sameOwned ▸ owned) (frame.reaches path)
    · obtain ⟨r, member, f, call, isEntry, isCall, same⟩ := pendingCallUses_iff.mp (inUse j freed)
      exact notPending r member f call isEntry isCall (same ▸ frame.reaches path)

def mpich : UpperHalf where
  wide := false
  constants := [0x4c000405]
  fits := by decide

def sendCall (datatype : Handle) : NonblockingCall where
  type := .isend
  sendbuf := 0
  recvbuf := 0
  count := 1
  datatype := datatype
  comm := 0
  remoteNode := 1
  tag := 0
  laterSends := 0

theorem datatype_refs_exact_deferred :
    ∃ s, Reachable (typeMachine mpich) s ∧ s.owned = [] ∧ s.freed = [0x30000001] ∧
      (datatypeDesc false s.table 0x30000000).map (·.refs) = some 2 ∧ RefsExact mpich s := by
  have ran : ((typeMachine mpich).run (.initial mpich)
      [.construct (.contiguous 2 0x4c000405) 1, .construct (.struct [(1, 0, 0x30000000), (1, 8, 0x30000000)]) 2,
        .free 0x30000000, .post (sendCall 0x30000001) 3, .free 0x30000001]).map
        (fun s => (s.owned, s.freed, (datatypeDesc false s.table 0x30000000).map (·.refs))) =
      some ([], [0x30000001], some 2) := by decide +kernel
  obtain ⟨s, ran, seen⟩ := map_eq_some_iff.mp ran
  simp only [Prod.mk.injEq] at seen
  have reached := (Reachable.start rfl).run ran
  exact ⟨s, reached, seen.1, seen.2.1, seen.2.2, datatype_refs_exact reached⟩

end Run

end Mana.VirtId
