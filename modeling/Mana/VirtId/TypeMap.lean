import Mana.VirtId.Desc
import Mathlib.Algebra.Order.Ring.Int
import Mathlib.Data.List.Basic

/-! What the MPI standard says of a datatype: its type map, with the markers that `MPI_Type_create_resized`
leaves there, and from it the lower bound and the extent. -/

namespace Mana.VirtId
open Option

structure Basic where
  name : Nat
  size : Nat
  align : Nat
  deriving DecidableEq, Repr

inductive Item where
  | basic (b : Basic)
  | lowerMarker
  | upperMarker
  deriving DecidableEq, Repr

/-- The items of a datatype with their displacements in bytes. -/
abbrev TypeMap := List (Item × Int)

namespace TypeMap

def lowerMarks (m : TypeMap) : List Int := m.filterMap fun (item, offset) => if item = .lowerMarker then some offset else none
def upperMarks (m : TypeMap) : List Int := m.filterMap fun (item, offset) => if item = .upperMarker then some offset else none

def entries (m : TypeMap) : List (Basic × Int) := m.filterMap fun (item, offset) =>
  match item with
  | .basic b => some (b, offset)
  | _ => none

def least : List Int → Int
  | [] => 0
  | first :: rest => rest.foldl min first

def greatest : List Int → Int
  | [] => 0
  | first :: rest => rest.foldl max first

/-- The lower bound: from the markers, if there are any. -/
def lb (m : TypeMap) : Int :=
  if m.lowerMarks.isEmpty then least (m.entries.map (·.2)) else least m.lowerMarks

def ub (m : TypeMap) : Int :=
  if m.upperMarks.isEmpty then greatest (m.entries.map fun (b, offset) => offset + b.size) else greatest m.upperMarks

/-- The extent; without an upper marker it is padded to the strictest alignment. -/
def extent (m : TypeMap) : Int :=
  if m.upperMarks.isEmpty then
    let align : Int := (m.entries.map (·.1.align)).foldl max 1
    (m.ub - m.lb + align - 1) / align * align
  else m.ub - m.lb

def shift (m : TypeMap) (distance : Int) : TypeMap := m.map fun (item, offset) => (item, offset + distance)

/-- Copies one after the other, each an extent after the last. -/
def block (m : TypeMap) (count : Nat) : TypeMap :=
  (List.range count).flatMap fun i => m.shift (i * m.extent)

def vector (m : TypeMap) (count blocklength : Nat) (stride : Int) : TypeMap :=
  (List.range count).flatMap fun i => (m.block blocklength).shift (i * stride)

def hindexed (m : TypeMap) (blocks : List (Nat × Int)) : TypeMap :=
  blocks.flatMap fun (length, offset) => (m.block length).shift offset

def hindexedBlock (m : TypeMap) (blocklength : Nat) (displacements : List Int) : TypeMap :=
  displacements.flatMap fun offset => (m.block blocklength).shift offset

def struct (blocks : List (Nat × Int × TypeMap)) : TypeMap :=
  blocks.flatMap fun (length, offset, m) => (m.block length).shift offset

/-- The markers of the old type go, and new ones take their place. -/
def resized (m : TypeMap) (lb extent : Int) : TypeMap :=
  m.filter (fun (item, _) => item ≠ .lowerMarker ∧ item ≠ .upperMarker) ++
    [(.lowerMarker, lb), (.upperMarker, lb + extent)]

theorem hindexedBlock_eq (m : TypeMap) (blocklength : Nat) (displacements : List Int) :
    m.hindexed (displacements.map fun d => (blocklength, d)) = m.hindexedBlock blocklength displacements := by
  simp only [hindexed, hindexedBlock, List.flatMap_map]

end TypeMap

structure TypeObj where
  typeMap : TypeMap
  committed : Bool

def structBlocks {β : Type} (value : Handle → Option β) : List (Nat × Int × Handle) → Option (List (Nat × Int × β))
  | [] => some []
  | (length, offset, oldtype) :: rest =>
    (value oldtype).bind fun old => (structBlocks value rest).map fun rest => (length, offset, old) :: rest

/-- The datatype that a constructor makes of the datatypes it names: not committed, except that
`MPI_Type_dup` copies that too. -/
def TypeCall.denote (value : Handle → Option TypeObj) : TypeCall → Option TypeObj
  | .contiguous count oldtype => (value oldtype).map fun old => ⟨old.typeMap.block count, false⟩
  | .vector count blocklength stride oldtype =>
    (value oldtype).map fun old => ⟨old.typeMap.vector count blocklength (stride * old.typeMap.extent), false⟩
  | .hvector count blocklength stride oldtype =>
    (value oldtype).map fun old => ⟨old.typeMap.vector count blocklength stride, false⟩
  | .indexed blocks oldtype =>
    (value oldtype).map fun old => ⟨old.typeMap.hindexed (blocks.map fun (n, d) => (n, d * old.typeMap.extent)), false⟩
  | .hindexed blocks oldtype => (value oldtype).map fun old => ⟨old.typeMap.hindexed blocks, false⟩
  | .hindexedBlock blocklength displacements oldtype =>
    (value oldtype).map fun old => ⟨old.typeMap.hindexedBlock blocklength displacements, false⟩
  | .struct blocks =>
    (structBlocks (fun oldtype => (value oldtype).map (·.typeMap)) blocks).map fun blocks =>
      ⟨TypeMap.struct blocks, false⟩
  | .dup oldtype => value oldtype
  | .resized oldtype lb extent => (value oldtype).map fun old => ⟨old.typeMap.resized lb extent, false⟩

/-- The call that a wrapper makes in the lower half, with the real handles there. -/
def TypeCall.lower (real : Handle → Option Handle) : TypeCall → Option TypeCall
  | .contiguous count oldtype => (real oldtype).map (.contiguous count)
  | .vector count blocklength stride oldtype => (real oldtype).map (.vector count blocklength stride)
  | .hvector count blocklength stride oldtype => (real oldtype).map (.hvector count blocklength stride)
  | .indexed blocks oldtype => (real oldtype).map (.indexed blocks)
  | .hindexed blocks oldtype => (real oldtype).map (.hindexed blocks)
  | .hindexedBlock blocklength displacements oldtype =>
    (real oldtype).map (.hindexed (displacements.map fun d => (blocklength, d)))
  | .struct blocks => (structBlocks real blocks).map .struct
  | .dup oldtype => (real oldtype).map .dup
  | .resized oldtype lb extent => (real oldtype).map (.resized · lb extent)

/-- The call by which `reconstruct_datatype_desc` makes the datatype again. -/
def DatatypeDesc.remake (real : Handle → Option Handle) (d : DatatypeDesc) : Option TypeCall :=
  match d.constructor with
  | .contiguous => (real d.oldtype).map (.contiguous d.count)
  | .vector => (real d.oldtype).map (.vector d.count d.blocklength d.stride)
  | .hvector => (real d.oldtype).map (.hvector d.count d.blocklength d.hstride)
  | .indexed => (real d.oldtype).map (.indexed ((d.blocklengths.zip d.displacements).take d.count))
  | .hindexed => (real d.oldtype).map (.hindexed ((d.blocklengths.zip d.hdisplacements).take d.count))
  | .struct => ((d.oldtypes.take d.count).mapM real).map fun olds =>
      .struct ((d.blocklengths.zip (d.hdisplacements.zip olds)).take d.count)
  | .dup => (real d.oldtype).map .dup
  | .resized => (real d.oldtype).map (.resized · d.lb d.extent)

theorem mapM_structBlocks (real : Handle → Option Handle) (blocks : List (Nat × Int × Handle)) :
    ((blocks.map (·.2.2)).mapM real).map (fun olds => (blocks.map (·.1)).zip ((blocks.map (·.2.1)).zip olds)) =
      structBlocks real blocks := by
  induction blocks with
  | nil => rfl
  | cons block blocks ih =>
    obtain ⟨length, offset, oldtype⟩ := block
    rw [structBlocks, ← ih]
    simp only [List.map_cons, List.mapM_cons]
    cases real oldtype with
    | none => rfl
    | some old =>
      cases (blocks.map (·.2.2)).mapM real with
      | none => rfl
      | some olds => rfl

/-- `reconstruct_datatype_desc` repeats the call that the wrapper recorded. -/
theorem TypeCall.record_remake (call : TypeCall) (real : Handle → Option Handle) :
    call.record.remake real = call.lower real := by
  have pairs : ∀ blocks : List (Nat × Int),
      ((blocks.map (·.1)).zip (blocks.map (·.2))).take blocks.length = blocks := by
    intro blocks
    rw [List.zip_map', List.map_id', List.take_length]
  cases call with
  | indexed blocks oldtype => exact congrArg (fun blocks => (real oldtype).map (TypeCall.indexed blocks)) (pairs blocks)
  | hindexed blocks oldtype => exact congrArg (fun blocks => (real oldtype).map (TypeCall.hindexed blocks)) (pairs blocks)
  | hindexedBlock blocklength displacements oldtype =>
    exact congrArg (fun blocks => (real oldtype).map (TypeCall.hindexed blocks)) (pairs _)
  | struct blocks =>
    have lengths : (blocks.map (·.2.2)).take blocks.length = blocks.map (·.2.2) :=
      List.take_of_length_le (List.length_map _).le
    simp only [DatatypeDesc.remake, TypeCall.record, DatatypeDesc.alloc, TypeCall.lower, lengths]
    rw [← mapM_structBlocks real blocks, map_map]
    refine map_congr fun olds _ => congrArg TypeCall.struct (List.take_of_length_le ?_)
    rw [List.length_zip, List.length_map]
    exact Nat.min_le_left _ _
  | _ => rfl

section Related

variable {rel : TypeObj → TypeObj → Prop} {value value' : Handle → Option TypeObj} {real : Handle → Option Handle}

theorem structBlocks_lower {blocks : List (Nat × Int × Handle)} (known : ∀ block ∈ blocks, ∃ q, real block.2.2 = some q) :
    ∃ lowered, structBlocks real blocks = some lowered ∧ ∀ value : Handle → Option TypeMap,
      structBlocks value lowered = structBlocks (fun p => (real p).bind value) blocks := by
  induction blocks with
  | nil => exact ⟨[], rfl, fun _ => rfl⟩
  | cons block blocks ih =>
    obtain ⟨lowered, isLowered, same⟩ := ih fun other member => known other (List.mem_cons_of_mem block member)
    obtain ⟨q, isReal⟩ := known block List.mem_cons_self
    obtain ⟨length, offset, oldtype⟩ := block
    refine ⟨(length, offset, q) :: lowered, ?_, fun value => ?_⟩
    · simp only [structBlocks, isReal, isLowered, bind_some, map_some]
    · simp only [structBlocks, isReal, same, bind_some]

/-- The call in the lower half makes of the real datatypes what the application's call means. -/
theorem TypeCall.lower_denote (call : TypeCall) (known : ∀ p ∈ call.oldtypes, ∃ q, real p = some q) :
    ∃ lowered, call.lower real = some lowered ∧
      ∀ value : Handle → Option TypeObj, lowered.denote value = call.denote fun p => (real p).bind value := by
  cases call with
  | struct blocks =>
    obtain ⟨lowered, isLowered, same⟩ := structBlocks_lower
      fun block (member : block ∈ blocks) => known block.2.2 (List.mem_map_of_mem (f := fun b => b.2.2) member)
    refine ⟨.struct lowered, by simp only [TypeCall.lower, isLowered, map_some], fun value => ?_⟩
    simp only [TypeCall.denote, same, map_bind, Function.comp_def]
  | hindexedBlock blocklength displacements oldtype =>
    obtain ⟨q, isReal⟩ := known oldtype List.mem_cons_self
    refine ⟨_, congrArg (Option.map _) isReal, fun value => ?_⟩
    simp only [TypeCall.denote, isReal, bind_some, TypeMap.hindexedBlock_eq]
  | _ =>
    obtain ⟨q, isReal⟩ := known _ List.mem_cons_self
    refine ⟨_, congrArg (Option.map _) isReal, fun value => ?_⟩
    simp only [TypeCall.denote, isReal, bind_some]

theorem structBlocks_rel (maps : ∀ new old, rel new old → new.typeMap = old.typeMap)
    {blocks : List (Nat × Int × Handle)}
    (related : ∀ block ∈ blocks, ∃ old new, value block.2.2 = some old ∧ value' block.2.2 = some new ∧ rel new old) :
    ∃ typed, structBlocks (fun p => (value p).map (·.typeMap)) blocks = some typed ∧
      structBlocks (fun p => (value' p).map (·.typeMap)) blocks = some typed := by
  induction blocks with
  | nil => exact ⟨[], rfl, rfl⟩
  | cons block blocks ih =>
    obtain ⟨typed, isTyped, isTyped'⟩ := ih fun other member => related other (List.mem_cons_of_mem block member)
    obtain ⟨old, new, isOld, isNew, isRel⟩ := related block List.mem_cons_self
    obtain ⟨length, offset, oldtype⟩ := block
    refine ⟨(length, offset, old.typeMap) :: typed, ?_, ?_⟩
    · simp only [structBlocks, isOld, isTyped, bind_some, map_some]
    · simp only [structBlocks, isNew, isTyped', bind_some, map_some, maps new old isRel]

theorem TypeCall.denote_rel (call : TypeCall) (refl : ∀ obj, rel obj obj)
    (maps : ∀ new old, rel new old → new.typeMap = old.typeMap)
    (related : ∀ p ∈ call.oldtypes, ∃ old new, value p = some old ∧ value' p = some new ∧ rel new old) :
    ∃ obj obj', call.denote value = some obj ∧ call.denote value' = some obj' ∧ rel obj' obj := by
  cases call with
  | struct blocks =>
    obtain ⟨typed, isTyped, isTyped'⟩ := structBlocks_rel maps
      fun block (member : block ∈ blocks) => related block.2.2 (List.mem_map_of_mem (f := fun b => b.2.2) member)
    refine ⟨⟨TypeMap.struct typed, false⟩, ⟨TypeMap.struct typed, false⟩, ?_, ?_, refl _⟩
    · simp only [TypeCall.denote, isTyped, map_some]
    · simp only [TypeCall.denote, isTyped', map_some]
  | dup oldtype => exact related oldtype List.mem_cons_self
  | _ =>
    obtain ⟨old, new, isOld, isNew, isRel⟩ := related _ List.mem_cons_self
    simp only [TypeCall.denote, isOld, isNew, map_some, maps new old isRel]
    exact ⟨_, _, rfl, rfl, refl _⟩

theorem TypeCall.denote_known {call : TypeCall} {obj : TypeObj} (made : call.denote value = some obj) :
    ∀ p ∈ call.oldtypes, ∃ old, value p = some old := by
  cases call with
  | struct blocks =>
    obtain ⟨typed, isTyped, -⟩ := map_eq_some_iff.mp made
    intro p member
    obtain ⟨block, isBlock, rfl⟩ := List.mem_map.mp member
    clear made member
    induction blocks generalizing typed with
    | nil => cases isBlock
    | cons first blocks ih =>
      obtain ⟨m, isMap, rest⟩ := bind_eq_some_iff.mp isTyped
      obtain ⟨typed, isTyped, -⟩ := map_eq_some_iff.mp rest
      rcases List.mem_cons.mp isBlock with rfl | later
      · obtain ⟨old, isOld, -⟩ := map_eq_some_iff.mp isMap
        exact ⟨old, isOld⟩
      · exact ih typed isTyped later
  | dup oldtype =>
    intro p member
    exact ⟨obj, (List.mem_singleton.mp member).symm ▸ made⟩
  | _ =>
    intro p member
    obtain ⟨old, isOld, -⟩ := map_eq_some_iff.mp made
    exact ⟨old, (List.mem_singleton.mp member).symm ▸ isOld⟩

theorem TypeCall.denote_mono {call : TypeCall} {obj : TypeObj} (made : call.denote value = some obj)
    (same : ∀ p ∈ call.oldtypes, ∀ old, value p = some old → value' p = some old) : call.denote value' = some obj := by
  have related : ∀ p ∈ call.oldtypes, ∃ old new, value p = some old ∧ value' p = some new ∧ new = old := by
    intro p member
    obtain ⟨old, isOld⟩ := TypeCall.denote_known made p member
    exact ⟨old, old, isOld, same p member old isOld, rfl⟩
  obtain ⟨obj', obj'', isObj', isObj'', rfl⟩ :=
    call.denote_rel (fun _ => rfl) (fun _ _ isSame => congrArg TypeObj.typeMap isSame) related
  exact isObj''.trans (isObj'.symm.trans made)

end Related

end Mana.VirtId
