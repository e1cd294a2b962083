import Mana.VirtId.Table

/-! The descriptors of virtual IDs, and the datatypes: how a derived datatype is recorded, who
holds it, and the log of pending calls that keeps a freed datatype alive. -/

namespace Mana.VirtId

inductive Constructor where
  | contiguous | vector | hvector | indexed | hindexed | struct | dup | resized
  deriving DecidableEq, Repr

structure DatatypeDesc where
  constructor : Constructor
  count : Nat
  blocklength : Nat
  stride : Int
  hstride : Int
  lb : Int
  extent : Int
  oldtype : Handle
  blocklengths : List Nat
  displacements : List Int
  hdisplacements : List Int
  oldtypes : List Handle
  committed : Bool
  refs : Int
  deriving DecidableEq, Repr

def DatatypeDesc.alloc (constructor : Constructor) : DatatypeDesc where
  constructor := constructor
  count := 0
  blocklength := 0
  stride := 0
  hstride := 0
  lb := 0
  extent := 0
  oldtype := 0
  blocklengths := []
  displacements := []
  hdisplacements := []
  oldtypes := []
  committed := false
  refs := 0

def DatatypeDesc.components (d : DatatypeDesc) : List Handle :=
  if d.constructor = .struct then d.oldtypes.take d.count else [d.oldtype]

/-- A call of a constructor. The arrays of a call have one element for each block. -/
inductive TypeCall where
  | contiguous (count : Nat) (oldtype : Handle)
  | vector (count blocklength : Nat) (stride : Int) (oldtype : Handle)
  | hvector (count blocklength : Nat) (stride : Int) (oldtype : Handle)
  | indexed (blocks : List (Nat × Int)) (oldtype : Handle)
  | hindexed (blocks : List (Nat × Int)) (oldtype : Handle)
  | hindexedBlock (blocklength : Nat) (displacements : List Int) (oldtype : Handle)
  | struct (blocks : List (Nat × Int × Handle))
  | dup (oldtype : Handle)
  | resized (oldtype : Handle) (lb extent : Int)
  deriving DecidableEq, Repr

/-- What `PMPI_Type_create_hindexed` records. -/
def recordHindexed (blocks : List (Nat × Int)) (oldtype : Handle) : DatatypeDesc :=
  { DatatypeDesc.alloc .hindexed with
    count := blocks.length, blocklengths := blocks.map (·.1), hdisplacements := blocks.map (·.2), oldtype := oldtype }

/-- The descriptor that the wrapper of a constructor fills in. `PMPI_Type_create_hindexed_block`
calls `PMPI_Type_create_hindexed` with equal block lengths. -/
def TypeCall.record : TypeCall → DatatypeDesc
  | .contiguous count oldtype => { DatatypeDesc.alloc .contiguous with count := count, oldtype := oldtype }
  | .vector count blocklength stride oldtype =>
    { DatatypeDesc.alloc .vector with
      count := count, blocklength := blocklength, stride := stride, oldtype := oldtype }
  | .hvector count blocklength stride oldtype =>
    { DatatypeDesc.alloc .hvector with
      count := count, blocklength := blocklength, hstride := stride, oldtype := oldtype }
  | .indexed blocks oldtype =>
    { DatatypeDesc.alloc .indexed with
      count := blocks.length, blocklengths := blocks.map (·.1), displacements := blocks.map (·.2), oldtype := oldtype }
  | .hindexed blocks oldtype => recordHindexed blocks oldtype
  | .hindexedBlock blocklength displacements oldtype =>
    recordHindexed (displacements.map (fun d => (blocklength, d))) oldtype
  | .struct blocks =>
    { DatatypeDesc.alloc .struct with
      count := blocks.length, blocklengths := blocks.map (·.1), hdisplacements := blocks.map (·.2.1)
      oldtypes := blocks.map (·.2.2) }
  | .dup oldtype => { DatatypeDesc.alloc .dup with oldtype := oldtype }
  | .resized oldtype lb extent => { DatatypeDesc.alloc .resized with lb := lb, extent := extent, oldtype := oldtype }

def TypeCall.oldtypes : TypeCall → List Handle
  | .contiguous _ oldtype | .vector _ _ _ oldtype | .hvector _ _ _ oldtype | .indexed _ oldtype
  | .hindexed _ oldtype | .hindexedBlock _ _ oldtype | .dup oldtype | .resized oldtype _ _ => [oldtype]
  | .struct blocks => blocks.map (·.2.2)

@[simp] theorem TypeCall.record_components (call : TypeCall) : call.record.components = call.oldtypes := by
  cases call with
  | struct blocks =>
    have length : blocks.length = (blocks.map (·.2.2)).length := (List.length_map _).symm
    simp only [DatatypeDesc.components, TypeCall.record, TypeCall.oldtypes, length, List.take_length]
    rfl
  | _ => rfl

/-- A `mana_comm_desc`; no topology is `cart_ndims == -1`. -/
structure CommDesc where
  size : Nat
  rank : Nat
  globalRanks : List Nat
  cart : Option (List (Nat × Bool))
  gid : Nat
  deriving DecidableEq, Repr

structure GroupDesc where
  size : Nat
  rank : Nat
  globalRanks : List Nat
  deriving DecidableEq, Repr

structure OpDesc where
  userFn : Nat
  commute : Bool
  deriving DecidableEq, Repr

/-- What the `desc` of an entry points to; a request and a file have none. -/
inductive Desc where
  | comm (d : CommDesc)
  | group (d : GroupDesc)
  | op (d : OpDesc)
  | datatype (d : DatatypeDesc)
  deriving DecidableEq, Repr

def Desc.datatype? : Desc → Option DatatypeDesc
  | .datatype d => some d
  | _ => none

/-- The MPI library of the upper half: the size of its handles, and its predefined constants. -/
structure UpperHalf where
  wide : Bool
  constants : List Handle
  fits : ∀ upper ∈ constants, handleValue wide upper = upper

def datatypeDesc (wide : Bool) (t : Table Desc) (type : Handle) : Option DatatypeDesc :=
  (t.lookupVirtIdEntry wide type).bind fun e => e.desc.bind Desc.datatype?

def assignDatatype (assign : DatatypeDesc → DatatypeDesc) (e : Entry Desc) : Entry Desc :=
  { e with desc := e.desc.map fun
      | .datatype d => .datatype (assign d)
      | other => other }

def modifyDatatype (wide : Bool) (t : Table Desc) (type : Handle) (assign : DatatypeDesc → DatatypeDesc) : Table Desc :=
  (t.modifyEntry wide type (assignDatatype assign)).getD t

/-- The body of the loop in `new_virt_datatype`. -/
def retainOldtype (wide : Bool) (t : Table Desc) (oldtype : Handle) : Table Desc :=
  match datatypeDesc wide t oldtype with
  | some _ => modifyDatatype wide t oldtype fun old => { old with refs := old.refs + 1 }
  | none => t

def newVirtDatatype (wide : Bool) (t : Table Desc) (real : Handle) (d : DatatypeDesc) :
    Option (Handle × Table Desc) :=
  (d.components.foldl (retainOldtype wide) t).addVirtId .datatype real (some (.datatype { d with refs := 1 }))

def commitVirtDatatype (wide : Bool) (t : Table Desc) (type : Handle) : Table Desc :=
  match datatypeDesc wide t type with
  | some _ => modifyDatatype wide t type fun d => { d with committed := true }
  | none => t

/-- What `release_datatype` releases after a datatype is gone. For a struct without components
that is the field `oldtype`, which the wrapper left 0. -/
def DatatypeDesc.released (d : DatatypeDesc) : List Handle :=
  let olds := if d.constructor = .struct then d.oldtypes.take d.count else []
  if olds.isEmpty then [d.oldtype] else olds

/-- `release_datatype`, to a depth of `fuel` nested calls. -/
def releaseDatatype (wide : Bool) : Nat → Table Desc → Handle → Option (Table Desc)
  | 0, _, _ => none
  | fuel + 1, t, type =>
    match datatypeDesc wide t type with
    | none => some t
    | some d =>
      let dropped := modifyDatatype wide t type fun d => { d with refs := d.refs - 1 }
      if 0 < d.refs - 1 then some dropped
      else (dropped.freeVirtId wide type).bind fun freed => d.released.foldlM (releaseDatatype wide fuel) freed

/-- The table of one rank with the two lists next to it: the pending calls in posting order,
linked through the entries of their requests, and `datatypes_freed_while_pending`. Nothing
reads `owned`: the datatypes that the application made and has not freed. -/
structure TypeState where
  table : Table Desc
  pending : List Nat
  freed : List Handle
  owned : List Handle

def pendingCallUsesDatatype (t : Table Desc) (pending : List Nat) (type : Handle) : Bool :=
  pending.any fun request => ((t.find request).bind (·.call)).any (·.datatype == type)

/-- The nested calls of `release_datatype` free a datatype each. -/
def releaseDepth (t : Table Desc) : Nat := t.highWater + 1

/-- The loop of `release_freed_datatypes` over the rest of the list. -/
def releaseFreed (wide : Bool) (pending : List Nat) : List Handle → Table Desc → Option (List Handle × Table Desc)
  | [], t => some ([], t)
  | type :: rest, t =>
    if pendingCallUsesDatatype t pending type then
      (releaseFreed wide pending rest t).map fun (kept, t) => (type :: kept, t)
    else (releaseDatatype wide (releaseDepth t) t type).bind (releaseFreed wide pending rest)

def releaseFreedDatatypes (wide : Bool) (s : TypeState) : Option TypeState :=
  (releaseFreed wide s.pending s.freed s.table).map fun (freed, t) => { s with table := t, freed := freed }

def freeVirtDatatype (wide : Bool) (s : TypeState) (type : Handle) : Option TypeState :=
  match datatypeDesc wide s.table type with
  | none => some s
  | some _ =>
    (releaseFreedDatatypes wide s).bind fun s =>
      if pendingCallUsesDatatype s.table s.pending type then some { s with freed := s.freed ++ [type] }
      else (releaseDatatype wide (releaseDepth s.table) s.table type).map fun t => { s with table := t }

def addPendingRequestToLog (wide : Bool) (s : TypeState) (request : Handle) (call : NonblockingCall) :
    Option TypeState :=
  (s.table.modifyEntry wide request fun e => { e with call := some { call with laterSends := 0 } }).map fun t =>
    { s with table := t, pending := s.pending ++ [request] }

def clearPendingRequestFromLog (wide : Bool) (s : TypeState) (request : Handle) : TypeState :=
  match s.table.lookupVirtIdEntry wide request with
  | none => s
  | some e =>
    if e.call.isSome then
      { s with
        table := (s.table.modifyEntry wide request fun e => { e with call := none }).getD s.table
        pending := s.pending.erase request }
    else s

end Mana.VirtId
