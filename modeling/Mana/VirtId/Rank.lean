import Mana.Attr.Store
import Mana.VirtId.Refs
import Mana.VirtId.Restart

/-! One rank: the wrappers that make, change and free datatypes, communicators and the other
handles, on the table and in the lower half, and the restart into a new lower half. -/

namespace Mana.VirtId
open Mana.Lib

/-- The state of a rank. `keyvals` are the variables of the attributes, and `freeing` are the real
communicators whose `MPI_Comm_free` barrier is not complete. No wrapper reads `meaning`: the datatypes as the library
has made them, also those that the application has freed. -/
structure Rank where
  types : TypeState
  lower : LowerHalf
  keyvals : Attr.Store Nat
  freeing : List Handle
  meaning : Handle → Option TypeObj

/-- A lower half as it starts: with the predefined datatypes and communicators. -/
structure Hosts (job : Job) (lh : LowerHalf) : Prop where
  types : ∀ p m, job.predefined p = some m → lh.types (lh.constant p) = some ⟨m, true⟩
  world : lh.comms (lh.constant job.commWorld) = some ⟨List.range job.size, none, .errorsAreFatal⟩
  self : lh.comms (lh.constant job.commSelf) = some ⟨[job.me], none, .errorsAreFatal⟩
  distinct : lh.constant job.commWorld ≠ lh.constant job.commSelf

abbrev NewLower (job : Job) := { lh : LowerHalf // Hosts job lh }

/-- The calls of the application, and the restart. `createComm` stands for every call that makes a
communicator but `MPI_Comm_dup`, with the members and the topology that the call gives it, and
`gid` is what the communicator's rank 0 broadcasts. An `Attr.Answer` is what a callback does. -/
inductive RankAction (job : Job) where
  | types (action : TypeAction)
  | createComm (parent : Handle) (members : List Nat) (cart : Option (List (Nat × Bool))) (real : Handle) (gid : Nat)
  | dupComm (parent real : Handle) (gid : Nat) (copies deletes : Int → Attr.Answer Nat)
  | freeComm (comm : Handle) (deletes : Int → Attr.Answer Nat)
  | barrierDone (real : Handle)
  | setErrhandler (comm : Handle) (handler : Errhandler)
  | keyval (op : Attr.KeyvalOp Nat)
  | setAttr (comm : Handle) (keyval : Int) (value : Nat) (answer : Attr.Answer Nat)
  | deleteAttr (comm : Handle) (keyval : Int) (answer : Attr.Answer Nat)
  | newGroup (d : GroupDesc) (real : Handle)
  | newOp (d : OpDesc) (real : Handle)
  | newFile (real : Handle)
  | freeHandle (handle : Handle)
  | restart (new : NewLower job) (picks : Picks)

def Desc.comm? : Desc → Option CommDesc
  | .comm d => some d
  | _ => none

def commDesc (t : Table Desc) (comm : Handle) : Option CommDesc :=
  (t.find comm).bind fun e => e.desc.bind Desc.comm?

namespace Rank

variable (job : Job) (r : Rank)

/-- What a predefined datatype is, and what a derived one was made as. -/
def value (type : Handle) : Option TypeObj := ((job.predefined type).map fun m => ⟨m, true⟩).or (r.meaning type)

def realId (handle : Handle) : Option Handle := getRealId job.up r.lower r.types.table handle

def isComm (comm : Handle) : Bool :=
  comm == job.commWorld || comm == job.commSelf || (commDesc r.types.table comm).isSome

def setTable (t : Table Desc) : Rank := { r with types := { r.types with table := t } }

def commDescOf (obj : CommObj) (gid : Nat) : CommDesc where
  size := obj.members.length
  rank := obj.members.idxOf job.me
  globalRanks := obj.members
  cart := obj.cart
  gid := gid

def newVirtComm (real : Handle) (gid : Nat) : Option (Handle × Rank) :=
  (r.lower.comms real).bind fun obj =>
    (r.types.table.addVirtId .comm real (some (.comm (commDescOf job obj gid)))).map fun (handle, t) =>
      (handle, r.setTable t)

def createComm (parent : Handle) (members : List Nat) (cart : Option (List (Nat × Bool))) (real : Handle) (gid : Nat) :
    Option (Handle × Rank) :=
  (r.realId job parent).bind fun realParent =>
    (r.lower.createComm realParent members cart real).bind fun lower => newVirtComm job { r with lower := lower } real gid

def freeComm (comm : Handle) (deletes : Int → Attr.Answer Nat) : Option Rank :=
  let (code, keyvals) := Attr.Store.deleteAttributes job.comms comm deletes (r.keyvals.keyvalsOf comm) r.keyvals
  if code ≠ 0 then some { r with keyvals := keyvals }
  else
    (r.realId job comm).bind fun real =>
      (r.types.table.freeVirtId job.up.wide comm).map fun t =>
        { r.setTable t with keyvals := keyvals, freeing := real :: r.freeing }

def dupComm (parent real : Handle) (gid : Nat) (copies deletes : Int → Attr.Answer Nat) : Option Rank :=
  (r.realId job parent).bind fun realParent =>
    (r.lower.comms realParent).bind fun obj =>
      (r.createComm job parent obj.members obj.cart real gid).bind fun (handle, r) =>
        let (code, keyvals) :=
          Attr.Store.copyAttributes job.comms parent handle copies (r.keyvals.keyvalsOf parent) r.keyvals
        if code ≠ 0 then freeComm job { r with keyvals := keyvals } handle deletes
        else some { r with keyvals := keyvals }

def setErrhandler (comm : Handle) (handler : Errhandler) : Option Rank :=
  (r.realId job comm).bind fun real =>
    (r.lower.comms real).map fun obj => { r with lower := r.lower.setComm real { obj with errhandler := handler } }

def typeStep : TypeAction → Option Rank
  | .construct call real =>
    -- The application names datatypes only, so that the call has a meaning.
    (call.denote (r.value job)).bind fun obj =>
      (call.lower (r.realId job)).bind fun lowered =>
        (r.lower.createType lowered real).bind fun lower =>
          (r.types.step job.up (.construct call real)).bind fun types =>
            types.owned.head?.map fun handle =>
              { r with types := types, lower := lower, meaning := Function.update r.meaning handle (some obj) }
  | .commit type =>
    (r.realId job type).bind fun real =>
      (r.types.step job.up (.commit type)).map fun types =>
        { r with types := types, lower := r.lower.commitType real
                 meaning := Function.update r.meaning type
                   ((r.meaning type).map fun obj => { obj with committed := true }) }
  | .free type =>
    (r.realId job type).bind fun real =>
      (r.types.step job.up (.free type)).map fun types => { r with types := types, lower := r.lower.freeType real }
  | action => (r.types.step job.up action).map fun types => { r with types := types }

/-- The restart, with the barriers of the freed communicators complete. -/
def restart (new : LowerHalf) (picks : Picks) : Option Rank :=
  (reconstructDescriptors job picks (r.types.table, new)).map fun (t, lower) =>
    { r.setTable t with
      lower := lower
      freeing := []
      meaning := fun h => (t.find h).bind fun e => lower.types e.real }

def step : RankAction job → Option Rank
  | .types action => r.typeStep job action
  | .createComm parent members cart real gid =>
    if r.isComm job parent then (r.createComm job parent members cart real gid).map (·.2) else none
  | .dupComm parent real gid copies deletes =>
    if r.isComm job parent then r.dupComm job parent real gid copies deletes else none
  | .freeComm comm deletes => if (commDesc r.types.table comm).isSome then r.freeComm job comm deletes else none
  | .barrierDone real =>
    if real ∈ r.freeing then some { r with lower := r.lower.freeComm real, freeing := r.freeing.erase real } else none
  | .setErrhandler comm handler => if r.isComm job comm then r.setErrhandler job comm handler else none
  | .keyval op => some { r with keyvals := r.keyvals.keyvalOp job.comms op }
  | .setAttr comm keyval value answer =>
    if r.isComm job comm then
      some { r with keyvals := (r.keyvals.setAttr job.comms comm keyval value answer).2 }
    else none
  | .deleteAttr comm keyval answer =>
    if r.isComm job comm then some { r with keyvals := (r.keyvals.deleteAttr job.comms comm keyval answer).2 } else none
  | .newGroup d real => (r.types.table.addVirtId .group real (some (.group d))).map fun (_, t) => r.setTable t
  | .newOp d real => (r.types.table.addVirtId .op real (some (.op d))).map fun (_, t) => r.setTable t
  | .newFile real => (r.types.table.addVirtId .file real none).map fun (_, t) => r.setTable t
  | .freeHandle handle =>
    if kindOf handle = Kind.group.code ∨ kindOf handle = Kind.op.code ∨ kindOf handle = Kind.file.code then
      (r.types.table.freeVirtId job.up.wide handle).map r.setTable
    else none
  | .restart new picks => r.restart job new.1 picks

end Rank

def Rank.initial (job : Job) (lh : LowerHalf) : Rank where
  types := .initial job.up
  lower := lh
  keyvals := .empty
  freeing := []
  meaning := fun _ => none

/-- The communicators and the error codes of MPICH. -/
def mpichComms : Attr.Config where
  world := 0x44000000
  self := 0x44000001
  null := 0x04000000
  predefined := [0x64400001, 0x64400003, 0x64400005, 0x64400007, 0x64400009, 0x6440000b, 0x6440000d]
  errComm := 5
  errKeyval := 48
  errKeyval_ne := by decide
  self_ne_null := by decide

def rankMachine (job : Job) : Machine Rank (RankAction job) where
  initial r := ∃ lh, Hosts job lh ∧ r = .initial job lh
  step := Rank.step job

end Mana.VirtId
