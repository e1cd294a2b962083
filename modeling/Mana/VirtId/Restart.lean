import Mana.Attr.Store
import Mana.Lib.Loop
import Mana.VirtId.Shape
import Mana.VirtId.TypeMap
import Mathlib.Data.List.Sort

/-! The MPI library of the lower half, and `reconstruct_descriptors`, which makes the objects
behind the virtual IDs again after a restart: by kind, and in creation order within a kind. -/

namespace Mana.VirtId
open Mana.Lib Option Function

inductive Errhandler where
  | errorsAreFatal | errorsReturn
  deriving DecidableEq, Repr

/-- A communicator in the MPI library: the world ranks of its members in order, its Cartesian
dimensions with their periods, and its error handler. -/
structure CommObj where
  members : List Nat
  cart : Option (List (Nat × Bool))
  errhandler : Errhandler
  deriving DecidableEq, Repr

/-- The MPI library of the lower half. `constant` is `lh_info->MANA_*` for a constant of the
upper half; the handles are whatever the library chooses. -/
structure LowerHalf where
  constant : Handle → Handle
  types : Handle → Option TypeObj
  comms : Handle → Option CommObj
  groups : Handle → Option (List Nat)
  ops : Handle → Option OpDesc

namespace LowerHalf

def setType (lh : LowerHalf) (handle : Handle) (obj : TypeObj) : LowerHalf :=
  { lh with types := update lh.types handle (some obj) }

def setComm (lh : LowerHalf) (handle : Handle) (obj : CommObj) : LowerHalf :=
  { lh with comms := update lh.comms handle (some obj) }

def createType (lh : LowerHalf) (call : TypeCall) (handle : Handle) : Option LowerHalf :=
  if (lh.types handle).isSome then none
  else (call.denote lh.types).map (lh.setType handle)

def commitType (lh : LowerHalf) (handle : Handle) : LowerHalf :=
  { lh with types := update lh.types handle ((lh.types handle).map fun obj => { obj with committed := true }) }

def freeType (lh : LowerHalf) (handle : Handle) : LowerHalf :=
  { lh with types := update lh.types handle none }

/-- The calls that make a communicator: a new one has the error handler of its parent. -/
def createComm (lh : LowerHalf) (parent : Handle) (members : List Nat) (cart : Option (List (Nat × Bool)))
    (handle : Handle) : Option LowerHalf :=
  if (lh.comms handle).isSome then none
  else (lh.comms parent).map fun comm => lh.setComm handle ⟨members, cart, comm.errhandler⟩

/-- `MPI_Cart_create` without reordering, on a communicator of the size of the grid. -/
def createCart (lh : LowerHalf) (parent : Handle) (dims : List (Nat × Bool)) (handle : Handle) : Option LowerHalf :=
  (lh.comms parent).bind fun comm => lh.createComm parent comm.members (some dims) handle

def freeComm (lh : LowerHalf) (handle : Handle) : LowerHalf :=
  { lh with comms := update lh.comms handle none }

def createGroup (lh : LowerHalf) (members : List Nat) (handle : Handle) : LowerHalf :=
  { lh with groups := update lh.groups handle (some members) }

def createOp (lh : LowerHalf) (op : OpDesc) (handle : Handle) : LowerHalf :=
  { lh with ops := update lh.ops handle (some op) }

end LowerHalf

/-- What all the lower halves of a rank have in common: the constants of the upper half, the
type maps of the predefined datatypes, the predefined communicators with what the attributes need,
and the rank's place in the world. -/
structure Job where
  up : UpperHalf
  predefined : Handle → Option TypeMap
  comms : Attr.Config
  size : Nat
  me : Nat
  isType : ∀ p m, predefined p = some m → p ∈ up.constants
  isWorld : comms.world ∈ up.constants
  isSelf : comms.self ∈ up.constants

abbrev Job.commWorld (job : Job) : Handle := job.comms.world

abbrev Job.commSelf (job : Job) : Handle := job.comms.self

/-- `get_real_id`: the real handle of a virtual one, or the value of a constant. -/
def getRealId (up : UpperHalf) (lh : LowerHalf) (t : Table Desc) (handle : Handle) : Option Handle :=
  match t.lookupVirtIdEntry up.wide handle with
  | some e => some e.real
  | none => if handle ∈ up.constants then some (lh.constant handle) else none

/-- The comparison of `reconstruct_descriptors`, not strict. -/
def precedes {δ : Type} (a b : Entry δ) : Prop :=
  kindOf a.virt < kindOf b.virt ∨ kindOf a.virt = kindOf b.virt ∧ a.seq ≤ b.seq

instance {δ : Type} : DecidableRel (@precedes δ) := fun a b =>
  inferInstanceAs (Decidable (kindOf a.virt < kindOf b.virt ∨ kindOf a.virt = kindOf b.virt ∧ a.seq ≤ b.seq))

def Table.inUse {δ : Type} (t : Table δ) : List (Entry δ) :=
  (List.range t.highWater).filterMap fun slot => (t.entries slot).filter fun e => e.virt != 0

def Table.reconstructOrder {δ : Type} (t : Table δ) : List (Entry δ) := t.inUse.insertionSort precedes

/-- The handles that the library returns for the object of a virtual ID, and for the plain
communicator that a Cartesian one is made from. -/
structure Picks where
  object : Nat → Handle
  plain : Nat → Handle

/-- `reconstruct_comm_desc`, but for the assignment to the entry. -/
def reconstructComm (job : Job) (picks : Picks) (lh : LowerHalf) (virt : Nat) (d : CommDesc) : Option LowerHalf :=
  let world := lh.constant job.commWorld
  let members := d.globalRanks.take d.size
  match d.cart with
  | none => lh.createComm world members none (picks.object virt)
  | some dims =>
    (lh.createComm world members none (picks.plain virt)).bind fun lh =>
      (lh.createCart (picks.plain virt) dims (picks.object virt)).map fun lh : LowerHalf => lh.freeComm (picks.plain virt)

/-- `reconstruct_datatype_desc`, but for the assignment to the entry. -/
def reconstructDatatype (job : Job) (picks : Picks) (s : Table Desc × LowerHalf) (virt : Nat) (d : DatatypeDesc) :
    Option LowerHalf :=
  (d.remake (getRealId job.up s.2 s.1)).bind fun call =>
    (s.2.createType call (picks.object virt)).map fun lh =>
      if d.committed then lh.commitType (picks.object virt) else lh

def Kind.ofCode (code : Nat) : Option Kind :=
  [Kind.comm, .group, .datatype, .op, .request, .file].find? fun kind => kind.code == code

def Desc.kind : Desc → Kind
  | .comm _ => .comm
  | .group _ => .group
  | .op _ => .op
  | .datatype _ => .datatype

/-- The descriptor is of the handle's kind; a request and a file have none. -/
def Entry.Described (e : Entry Desc) : Prop :=
  match e.desc with
  | some desc => kindOf e.virt = desc.kind.code
  | none => kindOf e.virt = Kind.request.code ∨ kindOf e.virt = Kind.file.code

/-- The assignment to `entry->real_id` at the end of each of the functions. -/
def assignReal (job : Job) (picks : Picks) (t : Table Desc) (virt : Nat) (lh : LowerHalf) :
    Option (Table Desc × LowerHalf) :=
  (t.updateVirtId job.up.wide virt (picks.object virt)).map fun t => (t, lh)

/-- The body of the loop in `reconstruct_descriptors`. -/
def reconstructEntry (job : Job) (picks : Picks) (s : Table Desc × LowerHalf) (e : Entry Desc) :
    Option (Table Desc × LowerHalf) :=
  match Kind.ofCode (kindOf e.virt), e.desc with
  | some .comm, some (.comm d) => (reconstructComm job picks s.2 e.virt d).bind (assignReal job picks s.1 e.virt)
  | some .group, some (.group d) =>
    assignReal job picks s.1 e.virt (s.2.createGroup (d.globalRanks.take d.size) (picks.object e.virt))
  | some .op, some (.op d) => assignReal job picks s.1 e.virt (s.2.createOp d (picks.object e.virt))
  | some .datatype, some (.datatype d) =>
    (reconstructDatatype job picks s e.virt d).bind (assignReal job picks s.1 e.virt)
  | some .request, none => some s
  | some .file, none => some s
  | _, _ => none

def reconstructDescriptors (job : Job) (picks : Picks) (s : Table Desc × LowerHalf) : Option (Table Desc × LowerHalf) :=
  s.1.reconstructOrder.foldlM (reconstructEntry job picks) s

section Order

variable {δ : Type} {t : Table δ}

instance : Std.Total (@precedes δ) where
  total a b := by
    simp only [precedes]
    omega

instance : IsTrans (Entry δ) precedes where
  trans a b c := by
    simp only [precedes]
    omega

theorem Table.Shape.mem_inUse (shape : t.Shape) {e : Entry δ} : e ∈ t.inUse ↔ t.find e.virt = some e := by
  simp only [Table.inUse, List.mem_filterMap, List.mem_range, filter_eq_some_iff, bne_iff_ne, ne_eq]
  constructor
  · rintro ⟨slot, below, found, used⟩
    obtain ⟨small, kind, made⟩ := shape.issued slot e found used
    have isSlot : slotOf e.virt = slot := by rw [made, slotOf_makeHandle small]
    exact shape.find_iff.mpr ⟨isSlot.symm ▸ found, rfl, used⟩
  · intro found
    obtain ⟨inSlot, -, notZero⟩ := shape.find_iff.mp found
    exact ⟨slotOf e.virt, shape.find_highWater found, inSlot, notZero⟩

theorem Table.Shape.mem_reconstructOrder (shape : t.Shape) {e : Entry δ} :
    e ∈ t.reconstructOrder ↔ t.find e.virt = some e := by
  rw [Table.reconstructOrder, List.mem_insertionSort, shape.mem_inUse]

theorem Table.Shape.inUse_nodup (shape : t.Shape) : (t.inUse.map (·.virt)).Nodup := by
  rw [Table.inUse, List.map_filterMap]
  refine List.Nodup.filterMap ?_ List.nodup_range
  intro slot slot' virt isVirt isVirt'
  have slotOfVirt : ∀ slot, virt ∈ ((t.entries slot).filter fun e => e.virt != 0).map (·.virt) → slotOf virt = slot := by
    intro slot member
    obtain ⟨e, isEntry, rfl⟩ := map_eq_some_iff.mp (mem_def.mp member)
    obtain ⟨found, used⟩ := filter_eq_some_iff.mp isEntry
    obtain ⟨small, kind, made⟩ := shape.issued slot e found (bne_iff_ne.mp used)
    rw [made, slotOf_makeHandle small]
  exact (slotOfVirt slot isVirt).symm.trans (slotOfVirt slot' isVirt')

theorem Table.Shape.reconstructOrder_nodup (shape : t.Shape) : (t.reconstructOrder.map (·.virt)).Nodup :=
  ((List.perm_insertionSort precedes t.inUse).map _).nodup_iff.mpr shape.inUse_nodup

/-- A datatype comes after each older one. -/
theorem Table.Shape.older_done (shape : t.Shape) {done rest : List (Entry δ)} {e old : Entry δ}
    (split : t.reconstructOrder = done ++ e :: rest) (found : t.find old.virt = some old)
    (sameKind : kindOf old.virt = kindOf e.virt) (older : old.seq < e.seq) : old ∈ done := by
  have member := shape.mem_reconstructOrder.mpr found
  have sorted : t.reconstructOrder.Pairwise precedes := List.pairwise_insertionSort _ _
  rw [split] at member sorted
  rcases List.mem_append.mp member with isDone | notDone
  · exact isDone
  · rcases List.mem_cons.mp notDone with rfl | later
    · exact absurd older (Nat.lt_irrefl _)
    · have after := (List.pairwise_cons.mp (List.pairwise_append.mp sorted).2.1).1 old later
      simp only [precedes] at after
      omega

end Order

/-- The body of the loop, as what it does to the table and to the lower half. -/
inductive Rebuilds (job : Job) (picks : Picks) (s : Table Desc × LowerHalf) (e : Entry Desc) :
    Table Desc × LowerHalf → Prop where
  | skip (noDesc : e.desc = none) : Rebuilds job picks s e s
  | comm {d : CommDesc} {world : CommObj} {t : Table Desc} (isDesc : e.desc = some (.comm d))
      (isWorld : s.2.comms (s.2.constant job.commWorld) = some world) (unused : s.2.comms (picks.object e.virt) = none)
      (assigned : s.1.updateVirtId job.up.wide e.virt (picks.object e.virt) = some t) :
      Rebuilds job picks s e
        (t, s.2.setComm (picks.object e.virt) ⟨d.globalRanks.take d.size, d.cart, world.errhandler⟩)
  | other {desc : Desc} {lh : LowerHalf} {t : Table Desc} (isDesc : e.desc = some desc)
      (notComm : ∀ d, desc ≠ .comm d) (notType : ∀ d, desc ≠ .datatype d) (constant : lh.constant = s.2.constant)
      (types : lh.types = s.2.types) (comms : lh.comms = s.2.comms)
      (assigned : s.1.updateVirtId job.up.wide e.virt (picks.object e.virt) = some t) : Rebuilds job picks s e (t, lh)
  | datatype {d : DatatypeDesc} {call : TypeCall} {obj : TypeObj} {t : Table Desc}
      (isDesc : e.desc = some (.datatype d)) (remade : d.remake (getRealId job.up s.2 s.1) = some call)
      (made : call.denote s.2.types = some obj) (unused : s.2.types (picks.object e.virt) = none)
      (assigned : s.1.updateVirtId job.up.wide e.virt (picks.object e.virt) = some t) :
      Rebuilds job picks s e (t, s.2.setType (picks.object e.virt) ⟨obj.typeMap, obj.committed || d.committed⟩)

section Effect

variable {job : Job} {picks : Picks} {s s' : Table Desc × LowerHalf} {e : Entry Desc} {lh lh' : LowerHalf} {virt : Nat}

theorem LowerHalf.createComm_eq {parent handle : Handle} {members : List Nat} {cart : Option (List (Nat × Bool))}
    (made : lh.createComm parent members cart handle = some lh') :
    lh.comms handle = none ∧ ∃ comm, lh.comms parent = some comm ∧
      lh' = lh.setComm handle ⟨members, cart, comm.errhandler⟩ := by
  obtain ⟨unused, made⟩ := ite_none_left_eq_some.mp made
  obtain ⟨comm, isParent, rfl⟩ := map_eq_some_iff.mp made
  exact ⟨not_isSome_iff_eq_none.mp unused, comm, isParent, rfl⟩

theorem reconstructComm_eq {d : CommDesc} (made : reconstructComm job picks lh virt d = some lh') :
    lh.comms (picks.object virt) = none ∧ ∃ world, lh.comms (lh.constant job.commWorld) = some world ∧
      lh' = lh.setComm (picks.object virt) ⟨d.globalRanks.take d.size, d.cart, world.errhandler⟩ := by
  unfold reconstructComm at made
  cases isCart : d.cart with
  | none =>
    rw [isCart] at made
    exact LowerHalf.createComm_eq made
  | some dims =>
    simp only [isCart] at made
    obtain ⟨lh₁, plain, made⟩ := bind_eq_some_iff.mp made
    obtain ⟨lh₂, cart, rfl⟩ := map_eq_some_iff.mp made
    obtain ⟨plainUnused, world, isWorld, rfl⟩ := LowerHalf.createComm_eq plain
    obtain ⟨comm, isPlain, cart⟩ := bind_eq_some_iff.mp cart
    obtain ⟨unused, comm', isPlain', rfl⟩ := LowerHalf.createComm_eq cart
    simp only [LowerHalf.setComm, update_self, some.injEq] at isPlain isPlain'
    subst isPlain
    subst isPlain'
    have differs : picks.object virt ≠ picks.plain virt := by
      intro same
      simp only [LowerHalf.setComm, same, update_self, reduceCtorEq] at unused
    simp only [LowerHalf.setComm, update_of_ne differs] at unused
    refine ⟨unused, world, isWorld, ?_⟩
    simp only [LowerHalf.freeComm, LowerHalf.setComm, LowerHalf.mk.injEq, true_and, and_true]
    have restored : update lh.comms (picks.plain virt) none = lh.comms := by
      rw [← plainUnused, update_eq_self]
    rw [update_comm differs, update_idem, restored]

theorem reconstructDatatype_eq {d : DatatypeDesc} (made : reconstructDatatype job picks s virt d = some lh') :
    ∃ call obj, d.remake (getRealId job.up s.2 s.1) = some call ∧ call.denote s.2.types = some obj ∧
      s.2.types (picks.object virt) = none ∧
      lh' = s.2.setType (picks.object virt) ⟨obj.typeMap, obj.committed || d.committed⟩ := by
  obtain ⟨call, remade, made⟩ := bind_eq_some_iff.mp made
  obtain ⟨lh₁, created, rfl⟩ := map_eq_some_iff.mp made
  obtain ⟨unused, created⟩ := ite_none_left_eq_some.mp created
  obtain ⟨obj, denotes, rfl⟩ := map_eq_some_iff.mp created
  refine ⟨call, obj, remade, denotes, not_isSome_iff_eq_none.mp unused, ?_⟩
  cases committed : d.committed with
  | true =>
    simp only [LowerHalf.commitType, LowerHalf.setType, if_true, update_self, update_idem, map_some, Bool.or_true]
  | false => simp only [Bool.false_eq_true, if_false, Bool.or_false]

theorem reconstructEntry_rebuilds (ran : reconstructEntry job picks s e = some s') : Rebuilds job picks s e s' := by
  unfold reconstructEntry at ran
  split at ran
  · next d isKind isDesc =>
    obtain ⟨lh, made, rest⟩ := bind_eq_some_iff.mp ran
    obtain ⟨t, assigned, rfl⟩ := map_eq_some_iff.mp rest
    obtain ⟨unused, world, isWorld, rfl⟩ := reconstructComm_eq made
    exact .comm isDesc isWorld unused assigned
  · next d isKind isDesc =>
    obtain ⟨t, assigned, rfl⟩ := map_eq_some_iff.mp ran
    exact .other isDesc (fun _ => nofun) (fun _ => nofun) rfl rfl rfl assigned
  · next d isKind isDesc =>
    obtain ⟨t, assigned, rfl⟩ := map_eq_some_iff.mp ran
    exact .other isDesc (fun _ => nofun) (fun _ => nofun) rfl rfl rfl assigned
  · next d isKind isDesc =>
    obtain ⟨lh, made, rest⟩ := bind_eq_some_iff.mp ran
    obtain ⟨t, assigned, rfl⟩ := map_eq_some_iff.mp rest
    obtain ⟨call, obj, remade, denotes, unused, rfl⟩ := reconstructDatatype_eq made
    exact .datatype isDesc remade denotes unused assigned
  · next isKind noDesc =>
    cases ran
    exact .skip noDesc
  · next isKind noDesc =>
    cases ran
    exact .skip noDesc
  · cases ran

end Effect

def Entry.rebuilt (e : Entry Desc) (real : Handle) : Entry Desc :=
  if e.desc.isSome then { e with real := real } else e

@[simp] theorem Entry.rebuilt_desc (e : Entry Desc) (real : Handle) : (e.rebuilt real).desc = e.desc := by
  unfold Entry.rebuilt
  split <;> rfl

@[simp] theorem Entry.rebuilt_virt (e : Entry Desc) (real : Handle) : (e.rebuilt real).virt = e.virt := by
  unfold Entry.rebuilt
  split <;> rfl

@[simp] theorem Entry.rebuilt_call (e : Entry Desc) (real : Handle) : (e.rebuilt real).call = e.call := by
  unfold Entry.rebuilt
  split <;> rfl

@[simp] theorem Entry.rebuilt_seq (e : Entry Desc) (real : Handle) : (e.rebuilt real).seq = e.seq := by
  unfold Entry.rebuilt
  split <;> rfl

/-- The table during `reconstruct_descriptors`, after the entries in `done` had their turn. -/
structure Remade (picks : Picks) (t₀ : Table Desc) (done : List (Entry Desc)) (t : Table Desc) : Prop where
  wellFormed : t.WellFormed
  reserved : t.reserved = t₀.reserved
  nextSeq : t.nextSeq = t₀.nextSeq
  waiting : ∀ h, h ∉ done.map (·.virt) → t.find h = t₀.find h
  remade : ∀ e ∈ done, t.find e.virt = some (e.rebuilt (picks.object e.virt))

section Remade

variable {job : Job} {picks : Picks} {t₀ : Table Desc} {done rest : List (Entry Desc)} {e : Entry Desc}
  {s s' : Table Desc × LowerHalf}

theorem Remade.initial (wellFormed : t₀.WellFormed) : Remade picks t₀ [] t₀ where
  wellFormed := wellFormed
  reserved := rfl
  nextSeq := rfl
  waiting := fun _ _ => rfl
  remade := fun _ member => absurd member List.not_mem_nil

theorem Remade.turn (shape : t₀.Shape) (split : t₀.reconstructOrder = done ++ e :: rest)
    (remade : Remade picks t₀ done s.1) : e.virt ∉ done.map (·.virt) ∧ s.1.find e.virt = some e := by
  have nodup := shape.reconstructOrder_nodup
  rw [split, List.map_append, List.map_cons] at nodup
  have notDone : e.virt ∉ done.map (·.virt) := fun isDone =>
    (List.nodup_append.mp nodup).2.2 _ isDone _ List.mem_cons_self rfl
  refine ⟨notDone, (remade.waiting e.virt notDone).trans (shape.mem_reconstructOrder.mp ?_)⟩
  rw [split]
  exact List.mem_append_right done List.mem_cons_self

theorem handleValue_find {t : Table Desc} {wide : Bool} (found : t.find e.virt = some e) :
    handleValue wide e.virt = e.virt := handleValue_of_lt (Table.find_small found)

theorem Table.WellFormed.updateVirtId {t t' : Table Desc} {wide : Bool} {real : Handle} (wf : t.WellFormed)
    (found : t.find e.virt = some e) (assigned : t.updateVirtId wide e.virt real = some t') :
    t.Modifies e.virt (fun e => { e with real := real }) t' :=
  wf.modifies (handleValue_find found) assigned fun _ => rfl

theorem Remade.step (shape : t₀.Shape) (split : t₀.reconstructOrder = done ++ e :: rest)
    (remade : Remade picks t₀ done s.1) (rebuilds : Rebuilds job picks s e s') :
    Remade picks t₀ (done ++ [e]) s'.1 := by
  obtain ⟨notDone, found⟩ := remade.turn shape split
  have assigned : ∀ {t}, e.desc.isSome = true → s.1.updateVirtId job.up.wide e.virt (picks.object e.virt) = some t →
      Remade picks t₀ (done ++ [e]) t := by
    intro t hasDesc assigned
    have modifies := remade.wellFormed.updateVirtId found assigned
    obtain ⟨e', found', after, -⟩ := modifies.entry
    obtain rfl := mem_unique found' found
    refine ⟨modifies.wellFormed, modifies.reserved.trans remade.reserved, modifies.nextSeq.trans remade.nextSeq, ?_, ?_⟩
    · intro h notMember
      rw [List.map_append, List.mem_append, not_or] at notMember
      have differs : h ≠ e'.virt := fun same => notMember.2 (same ▸ List.mem_singleton.mpr rfl)
      exact (modifies.others h differs).trans (remade.waiting h notMember.1)
    · intro f member
      rcases List.mem_append.mp member with before | last
      · have differs : f.virt ≠ e'.virt := fun same => notDone (same ▸ List.mem_map_of_mem before)
        exact (modifies.others f.virt differs).trans (remade.remade f before)
      · obtain rfl := List.mem_singleton.mp last
        rw [after, Entry.rebuilt, if_pos hasDesc]
  cases rebuilds with
  | skip noDesc =>
    refine ⟨remade.wellFormed, remade.reserved, remade.nextSeq, ?_, ?_⟩
    · intro h notMember
      rw [List.map_append, List.mem_append, not_or] at notMember
      exact remade.waiting h notMember.1
    · intro f member
      rcases List.mem_append.mp member with before | last
      · exact remade.remade f before
      · obtain rfl := List.mem_singleton.mp last
        rw [found, Entry.rebuilt, noDesc]
        rfl
  | comm isDesc _ _ ran | other isDesc _ _ _ _ _ ran | datatype isDesc _ _ _ ran => exact assigned (isDesc ▸ rfl) ran

theorem Remade.find {t : Table Desc} (shape : t₀.Shape) (remade : Remade picks t₀ t₀.reconstructOrder t) (h : Nat) :
    t.find h = (t₀.find h).map fun e => e.rebuilt (picks.object h) := by
  cases found : t₀.find h with
  | none =>
    refine (remade.waiting h fun member => ?_).trans found
    obtain ⟨e, isEntry, rfl⟩ := List.mem_map.mp member
    exact nomatch found.symm.trans (shape.mem_reconstructOrder.mp isEntry)
  | some e =>
    obtain ⟨-, rfl, -⟩ := shape.find_iff.mp found
    exact remade.remade e (shape.mem_reconstructOrder.mpr found)

end Remade

/-- The library returns handles that are not in use: not to predefined objects, and not to what it
has already made again. -/
structure Picks.Fresh (picks : Picks) (t : Table Desc) (new : LowerHalf) : Prop where
  types : ∀ h e d, t.find h = some e → e.desc = some (.datatype d) → new.types (picks.object h) = none
  distinctTypes : ∀ h e d h' e' d', t.find h = some e → e.desc = some (.datatype d) → t.find h' = some e' →
    e'.desc = some (.datatype d') → picks.object h = picks.object h' → h = h'
  comms : ∀ h e d, t.find h = some e → e.desc = some (.comm d) →
    new.comms (picks.object h) = none ∧ new.comms (picks.plain h) = none
  distinctComms : ∀ h e d h' e' d', t.find h = some e → e.desc = some (.comm d) → t.find h' = some e' →
    e'.desc = some (.comm d') → picks.object h = picks.object h' → h = h'
  plain : ∀ h e d h' e' d', t.find h = some e → e.desc = some (.comm d) → t.find h' = some e' →
    e'.desc = some (.comm d') → e'.seq ≤ e.seq → picks.plain h ≠ picks.object h'

def Entry.IsComm (e : Entry Desc) : Prop := ∃ d, e.desc = some (.comm d)

def Entry.IsDatatype (e : Entry Desc) : Prop := ∃ d, e.desc = some (.datatype d)

/-- The objects of one kind in the new lower half, after the entries in `done` had their turn. -/
structure Placed {β : Type} (picks : Picks) (isKind : Entry Desc → Prop) (new : Handle → Option β)
    (done : List (Entry Desc)) (objects : Handle → Option β) : Prop where
  kept : ∀ q obj, new q = some obj → objects q = some obj
  used : ∀ q obj, objects q = some obj → new q = some obj ∨ ∃ e ∈ done, isKind e ∧ q = picks.object e.virt
  unused : ∀ e ∈ done, isKind e → new (picks.object e.virt) = none
  present : ∀ e ∈ done, isKind e → ∃ obj, objects (picks.object e.virt) = some obj
  distinct : ∀ e ∈ done, isKind e → ∀ e' ∈ done, isKind e' → picks.object e.virt = picks.object e'.virt →
    e.virt = e'.virt

section Placed

variable {β : Type} {picks : Picks} {isKind : Entry Desc → Prop} {new objects : Handle → Option β}
  {done : List (Entry Desc)} {e : Entry Desc}

theorem Placed.initial : Placed picks isKind new [] new where
  kept := fun _ _ found => found
  used := fun _ _ found => .inl found
  unused := fun _ member => absurd member List.not_mem_nil
  present := fun _ member => absurd member List.not_mem_nil
  distinct := fun _ member => absurd member List.not_mem_nil

theorem mem_done {f : Entry Desc} (other : ¬ isKind e) (member : f ∈ done ++ [e]) (kind : isKind f) : f ∈ done := by
  rcases List.mem_append.mp member with before | last
  · exact before
  · exact absurd (List.mem_singleton.mp last ▸ kind) other

theorem Placed.skip (placed : Placed picks isKind new done objects) (other : ¬ isKind e) :
    Placed picks isKind new (done ++ [e]) objects where
  kept := placed.kept
  used := fun q obj found =>
    (placed.used q obj found).imp_right fun ⟨f, member, rest⟩ => ⟨f, List.mem_append_left _ member, rest⟩
  unused := fun f member kind => placed.unused f (mem_done other member kind) kind
  present := fun f member kind => placed.present f (mem_done other member kind) kind
  distinct := fun f member kind f' member' kind' =>
    placed.distinct f (mem_done other member kind) kind f' (mem_done other member' kind') kind'

theorem Placed.ne (unused : objects (picks.object e.virt) = none) {q : Handle} {obj : β} (found : objects q = some obj) :
    q ≠ picks.object e.virt := by
  rintro rfl
  exact nomatch unused.symm.trans found

theorem Placed.place (placed : Placed picks isKind new done objects) (kind : isKind e)
    (unused : objects (picks.object e.virt) = none) (obj : β) :
    Placed picks isKind new (done ++ [e]) (update objects (picks.object e.virt) (some obj)) := by
  have before : ∀ {q obj'}, objects q = some obj' → update objects (picks.object e.virt) (some obj) q = some obj' :=
    fun found => (update_of_ne (Placed.ne unused found) _ _).trans found
  refine ⟨fun q obj' found => before (placed.kept q obj' found), ?_, ?_, ?_, ?_⟩
  · intro q obj' found
    by_cases isObject : q = picks.object e.virt
    · exact .inr ⟨e, List.mem_append_right _ List.mem_cons_self, kind, isObject⟩
    · rw [update_of_ne isObject] at found
      refine (placed.used q obj' found).imp_right fun ⟨f, member, rest⟩ => ?_
      exact ⟨f, List.mem_append_left _ member, rest⟩
  · intro f member kind'
    rcases List.mem_append.mp member with done | last
    · exact placed.unused f done kind'
    · obtain rfl := List.mem_singleton.mp last
      exact eq_none_iff_forall_ne_some.mpr fun obj' found => Placed.ne unused (placed.kept _ obj' found) rfl
  · intro f member kind'
    rcases List.mem_append.mp member with done | last
    · obtain ⟨obj', found⟩ := placed.present f done kind'
      exact ⟨obj', before found⟩
    · obtain rfl := List.mem_singleton.mp last
      exact ⟨obj, update_self _ _ _⟩
  · intro f member kind₁ f' member' kind₂ same
    have apart : ∀ g ∈ done, isKind g → picks.object g.virt ≠ picks.object e.virt := fun g isDone kind => by
      obtain ⟨obj', found⟩ := placed.present g isDone kind
      exact Placed.ne unused found
    simp only [List.mem_append, List.mem_singleton] at member member'
    rcases member with isDone | rfl <;> rcases member' with isDone' | rfl
    · exact placed.distinct f isDone kind₁ f' isDone' kind₂ same
    · exact absurd same (apart f isDone kind₁)
    · exact absurd same.symm (apart f' isDone' kind₂)
    · rfl

theorem Placed.eq_none (placed : Placed picks isKind new done objects) {q : Handle} (unused : new q = none)
    (apart : ∀ e ∈ done, isKind e → q ≠ picks.object e.virt) : objects q = none := by
  refine eq_none_iff_forall_ne_some.mpr fun obj found => ?_
  rcases placed.used q obj found with before | ⟨e, member, kind, same⟩
  · exact nomatch unused.symm.trans before
  · exact apart e member kind same

end Placed

/-- The communicators in the new lower half, after the entries in `done` had their turn. -/
structure CommsRebuilt (picks : Picks) (new : LowerHalf) (world : CommObj) (done : List (Entry Desc)) (lh : LowerHalf) :
    Prop extends Placed picks Entry.IsComm new.comms done lh.comms where
  constant : lh.constant = new.constant
  made : ∀ e ∈ done, ∀ d, e.desc = some (.comm d) →
    lh.comms (picks.object e.virt) = some ⟨d.globalRanks.take d.size, d.cart, world.errhandler⟩

section Comms

variable {job : Job} {picks : Picks} {new : LowerHalf} {world : CommObj} {done rest : List (Entry Desc)}
  {e : Entry Desc} {s s' : Table Desc × LowerHalf}

theorem CommsRebuilt.initial : CommsRebuilt picks new world [] new :=
  ⟨.initial, rfl, fun _ member => absurd member List.not_mem_nil⟩

theorem CommsRebuilt.skip {lh : LowerHalf} (rebuilt : CommsRebuilt picks new world done s.2)
    (constant : lh.constant = s.2.constant) (comms : lh.comms = s.2.comms) (notComm : ¬ e.IsComm) :
    CommsRebuilt picks new world (done ++ [e]) lh := by
  refine ⟨comms ▸ rebuilt.toPlaced.skip notComm, constant.trans rebuilt.constant, ?_⟩
  exact fun f member d isDesc => comms ▸ rebuilt.made f (mem_done notComm member ⟨d, isDesc⟩) d isDesc

theorem CommsRebuilt.step (isWorld : new.comms (new.constant job.commWorld) = some world)
    (rebuilt : CommsRebuilt picks new world done s.2) (rebuilds : Rebuilds job picks s e s') :
    CommsRebuilt picks new world (done ++ [e]) s'.2 := by
  cases rebuilds with
  | skip noDesc => exact rebuilt.skip rfl rfl fun ⟨_, isDesc⟩ => nomatch noDesc.symm.trans isDesc
  | other isDesc notComm notType constant types comms assigned =>
    exact rebuilt.skip constant comms fun ⟨d, isComm⟩ => notComm d (mem_unique isDesc isComm)
  | datatype isDesc remade made unused assigned =>
    exact rebuilt.skip rfl rfl fun ⟨_, isComm⟩ => nomatch isDesc.symm.trans isComm
  | @comm d world' t isDesc isWorld' unused assigned =>
    have sameWorld : world' = world := by
      have keptWorld := rebuilt.kept _ _ isWorld
      rw [rebuilt.constant] at isWorld'
      exact mem_unique isWorld' keptWorld
    subst sameWorld
    refine ⟨rebuilt.toPlaced.place ⟨d, isDesc⟩ unused _, rebuilt.constant, ?_⟩
    intro f member d' isDesc'
    rcases List.mem_append.mp member with before | last
    · have made := rebuilt.made f before d' isDesc'
      exact (update_of_ne (Placed.ne unused made) _ _).trans made
    · obtain rfl := List.mem_singleton.mp last
      cases isDesc.symm.trans isDesc'
      exact update_self _ _ _

theorem LowerHalf.createComm_returns {lh : LowerHalf} {parent handle : Handle} {members : List Nat} {comm : CommObj}
    {cart : Option (List (Nat × Bool))} (unused : lh.comms handle = none) (isParent : lh.comms parent = some comm) :
    lh.createComm parent members cart handle = some (lh.setComm handle ⟨members, cart, comm.errhandler⟩) := by
  simp only [LowerHalf.createComm, unused, isParent, isSome_none, Bool.false_eq_true, if_false, map_some]

theorem reconstructComm_returns {lh : LowerHalf} {virt : Nat} {d : CommDesc}
    (isWorld : lh.comms (lh.constant job.commWorld) = some world) (unused : lh.comms (picks.object virt) = none)
    (plainUnused : lh.comms (picks.plain virt) = none) (differs : picks.plain virt ≠ picks.object virt) :
    ∃ lh', reconstructComm job picks lh virt d = some lh' := by
  unfold reconstructComm
  cases d.cart with
  | none => exact ⟨_, LowerHalf.createComm_returns unused isWorld⟩
  | some dims =>
    simp only [LowerHalf.createComm_returns plainUnused isWorld, bind_some, LowerHalf.createCart]
    generalize isPlain : lh.setComm (picks.plain virt) _ = lh₁
    have hasPlain : lh₁.comms (picks.plain virt) = some ⟨d.globalRanks.take d.size, none, world.errhandler⟩ := by
      rw [← isPlain]
      exact update_self _ _ _
    have stillUnused : lh₁.comms (picks.object virt) = none := by
      rw [← isPlain]
      exact (update_of_ne differs.symm _ _).trans unused
    simp only [hasPlain, bind_some, LowerHalf.createComm_returns stillUnused hasPlain, map_some]
    exact ⟨_, rfl⟩

theorem Table.done_older {t : Table Desc} {old : Entry Desc} (split : t.reconstructOrder = done ++ e :: rest)
    (isDone : old ∈ done) (sameKind : kindOf old.virt = kindOf e.virt) : old.seq ≤ e.seq := by
  have sorted : t.reconstructOrder.Pairwise precedes := List.pairwise_insertionSort _ _
  rw [split] at sorted
  have before := (List.pairwise_append.mp sorted).2.2 old isDone e List.mem_cons_self
  simp only [precedes] at before
  omega

end Comms

end Mana.VirtId
