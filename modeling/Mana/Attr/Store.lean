import Mana.Lib.Assoc
import Mana.Lib.Machine
import Mathlib.Data.List.Perm.Subperm

/-! Attributes of communicators, which MANA keeps in the upper half: the keyvals, their values on each
communicator, and the callbacks that copy and delete the values. -/

namespace Mana.Attr
open Mana.Lib

abbrev Comm := Nat

structure Config where
  world : Comm
  self : Comm
  null : Comm
  predefined : List Int
  errComm : Int
  errKeyval : Int
  errKeyval_ne : errKeyval ≠ 0
  self_ne_null : self ≠ null

variable {α : Type}

/-- A value in an attribute map. Beside what the code keeps, the number of the store that put it there, and of the
one with which the attribute came to exist. -/
structure Stored (α : Type) where
  value : α
  serial : Nat
  born : Nat

/-- No function is `MPI_COMM_NULL_COPY_FN` or `MPI_COMM_NULL_DELETE_FN`. -/
structure KeyvalTuple (α : Type) where
  extraState : α
  copyFn : Option Nat
  deleteFn : Option Nat
  attributeMap : Assoc Comm (Stored α)
  freed : Bool

inductive Callback where
  | copy | delete
  deriving DecidableEq, Repr

structure Call (α : Type) where
  callback : Callback
  fn : Nat
  comm : Comm
  keyval : Int
  stored : Stored α
  extraState : α
  code : Int

/-- Where a value was stored, and the delete callback of the keyval. -/
structure Record (α : Type) where
  comm : Comm
  keyval : Int
  value : α
  extraState : α
  deleteFn : Option Nat

/-- The three variables of the wrappers, with the callbacks and the stores so far. -/
structure Store (α : Type) where
  keyvalVec : List Int
  tupleMap : Assoc Int (KeyvalTuple α)
  selfKeyvals : List Int
  calls : List (Call α)
  stores : List (Record α)

def Store.empty : Store α := ⟨[], ∅, [], [], []⟩

inductive KeyvalOp (α : Type) where
  | create (copyFn deleteFn : Option Nat) (extraState : α)
  | free (keyval : Int)

/-- What a callback does: it may create and free keyvals. A copy callback also gives a value and a flag. -/
structure Answer (α : Type) where
  ops : List (KeyvalOp α)
  code : Int
  value : α
  flag : Bool

namespace Store

def stored (s : Store α) (comm : Comm) (keyval : Int) : Option (Stored α) :=
  (s.tupleMap.lookup keyval).bind fun t => t.attributeMap.lookup comm

def removeKeyvalIfUnused (s : Store α) (keyval : Int) : Store α :=
  match s.tupleMap.lookup keyval with
  | none => s
  | some t =>
    if t.freed && t.attributeMap.keys.isEmpty then
      { s with tupleMap := s.tupleMap.erase keyval, keyvalVec := s.keyvalVec.set keyval.toNat (-1) }
    else s

/-- The loop that steps over the predefined keyvals. -/
def skipPredefined (predefined : List Int) : Nat → List Int → List Int
  | 0, vec => vec
  | fuel + 1, vec => if (vec.length : Int) ∈ predefined then skipPredefined predefined fuel (vec ++ [-2]) else vec

def emplaceTuple (s : Store α) (keyval : Int) (t : KeyvalTuple α) : Store α :=
  { s with tupleMap := if keyval ∈ s.tupleMap then s.tupleMap else s.tupleMap.insert keyval t }

def createKeyval (cfg : Config) (s : Store α) (copyFn deleteFn : Option Nat) (extraState : α) : Int × Store α :=
  let t : KeyvalTuple α := ⟨extraState, copyFn, deleteFn, ∅, false⟩
  match s.keyvalVec.findIdx? (· == -1) with
  | some keyval => (keyval, { s with keyvalVec := s.keyvalVec.set keyval keyval }.emplaceTuple keyval t)
  | none =>
    let vec := skipPredefined cfg.predefined (cfg.predefined.length + 1) s.keyvalVec
    (vec.length, { s with keyvalVec := vec ++ [(vec.length : Int)] }.emplaceTuple vec.length t)

def freeable (s : Store α) (keyval : Int) : Bool :=
  0 ≤ keyval && (s.keyvalVec[keyval.toNat]?).any (0 ≤ ·) && (s.tupleMap.lookup keyval).any (!·.freed)

/-- `MPI_Comm_free_keyval`; `tupleMap` has a tuple for each keyval of `keyvalVec`. -/
def freeKeyval (cfg : Config) (s : Store α) (keyval : Int) : Int × Store α :=
  match s.freeable keyval, s.tupleMap.lookup keyval with
  | true, some t =>
    (0, { s with tupleMap := s.tupleMap.insert keyval { t with freed := true } }.removeKeyvalIfUnused keyval)
  | _, _ => (cfg.errKeyval, s)

def keyvalOp (cfg : Config) (s : Store α) : KeyvalOp α → Store α
  | .create copyFn deleteFn extraState => (s.createKeyval cfg copyFn deleteFn extraState).2
  | .free keyval => (s.freeKeyval cfg keyval).2

def invoke (cfg : Config) (s : Store α) (answer : Answer α) (call : Int → Call α) : Store α :=
  let s := answer.ops.foldl (keyvalOp cfg) s
  { s with calls := s.calls ++ [call answer.code] }

def callDelete (cfg : Config) (s : Store α) (comm : Comm) (keyval : Int) (t : KeyvalTuple α) (old : Stored α)
    (answer : Answer α) : Int × Store α :=
  match t.deleteFn with
  | none => (0, s)
  | some fn => (answer.code, s.invoke cfg answer (⟨.delete, fn, comm, keyval, old, t.extraState, ·⟩))

def emplaceAttribute (s : Store α) (comm : Comm) (keyval : Int) (value : α) (born : Nat) : Store α :=
  match s.tupleMap.lookup keyval with
  | none => s
  | some t =>
    if comm ∈ t.attributeMap then s
    else
      { s with
        tupleMap := s.tupleMap.insert keyval
          { t with attributeMap := t.attributeMap.insert comm ⟨value, s.stores.length, born⟩ }
        stores := s.stores ++ [⟨comm, keyval, value, t.extraState, t.deleteFn⟩] }

def eraseAttribute (s : Store α) (comm : Comm) (keyval : Int) : Store α :=
  match s.tupleMap.lookup keyval with
  | none => s
  | some t =>
    { s with tupleMap := s.tupleMap.insert keyval { t with attributeMap := t.attributeMap.erase comm } }

def pushSelf (cfg : Config) (s : Store α) (comm : Comm) (keyval : Int) : Store α :=
  { s with selfKeyvals := if comm = cfg.self then s.selfKeyvals ++ [keyval] else s.selfKeyvals }

def dropSelf (cfg : Config) (s : Store α) (comm : Comm) (keyval : Int) : Store α :=
  { s with selfKeyvals := if comm = cfg.self then s.selfKeyvals.filter (· ≠ keyval) else s.selfKeyvals }

/-- `MPI_Comm_get_attr`, for keyvals that are not predefined. -/
def getAttr (cfg : Config) (s : Store α) (comm : Comm) (keyval : Int) : Int × Option α :=
  if comm = cfg.null then (cfg.errComm, none)
  else
    match s.tupleMap.lookup keyval with
    | none => (cfg.errKeyval, none)
    | some t => (0, (t.attributeMap.lookup comm).map (·.value))

def setAttr (cfg : Config) (s : Store α) (comm : Comm) (keyval : Int) (value : α) (answer : Answer α) :
    Int × Store α :=
  if comm = cfg.null then (cfg.errComm, s)
  else
    match s.tupleMap.lookup keyval with
    | none => (cfg.errKeyval, s)
    | some t =>
      match t.attributeMap.lookup comm with
      | some old =>
        let (code, s) := s.callDelete cfg comm keyval t old answer
        if code ≠ 0 then (code, s)
        else (0, (s.eraseAttribute comm keyval).emplaceAttribute comm keyval value old.born)
      | none => (0, (s.pushSelf cfg comm keyval).emplaceAttribute comm keyval value s.stores.length)

def deleteAttr (cfg : Config) (s : Store α) (comm : Comm) (keyval : Int) (answer : Answer α) : Int × Store α :=
  if comm = cfg.null then (cfg.errComm, s)
  else
    match s.tupleMap.lookup keyval with
    | none => (cfg.errKeyval, s)
    | some t =>
      match t.attributeMap.lookup comm with
      | none => (0, s)
      | some old =>
        let (code, s) := s.callDelete cfg comm keyval t old answer
        if code ≠ 0 then (code, s)
        else (0, ((s.eraseAttribute comm keyval).dropSelf cfg comm keyval).removeKeyvalIfUnused keyval)

/-- The keyvals with a value on a communicator, which the loops below list first. -/
def keyvalsOf (s : Store α) (comm : Comm) : List Int :=
  s.tupleMap.keys.filter fun keyval => (s.stored comm keyval).isSome

/-- The loop of `MPI_Comm_free` over the keyvals; each has its delete callback called at most once. -/
def deleteAttributes (cfg : Config) (comm : Comm) (answers : Int → Answer α) : List Int → Store α → Int × Store α
  | [], s => (0, s)
  | keyval :: rest, s =>
    match s.tupleMap.lookup keyval with
    | none => deleteAttributes cfg comm answers rest s
    | some t =>
      match t.attributeMap.lookup comm with
      | none => deleteAttributes cfg comm answers rest s
      | some old =>
        let (code, s) := s.callDelete cfg comm keyval t old (answers keyval)
        if code ≠ 0 then (code, s)
        else deleteAttributes cfg comm answers rest ((s.eraseAttribute comm keyval).removeKeyvalIfUnused keyval)

def copyAttributes (cfg : Config) (oldcomm newcomm : Comm) (answers : Int → Answer α) :
    List Int → Store α → Int × Store α
  | [], s => (0, s)
  | keyval :: rest, s =>
    match s.tupleMap.lookup keyval with
    | none => copyAttributes cfg oldcomm newcomm answers rest s
    | some t =>
      match t.attributeMap.lookup oldcomm, t.copyFn with
      | some old, some fn =>
        let answer := answers keyval
        let s := s.invoke cfg answer (⟨.copy, fn, oldcomm, keyval, old, t.extraState, ·⟩)
        if answer.code ≠ 0 then (answer.code, s)
        else
          copyAttributes cfg oldcomm newcomm answers rest
            (if answer.flag then s.emplaceAttribute newcomm keyval answer.value s.stores.length else s)
      | _, _ => copyAttributes cfg oldcomm newcomm answers rest s

def deleteSelfAttributes (cfg : Config) (answers : Int → Answer α) : Nat → Store α → Int × Store α
  | 0, s => (0, s)
  | fuel + 1, s =>
    match s.selfKeyvals.getLast? with
    | none => (0, s)
    | some keyval =>
      let (code, s) := { s with selfKeyvals := s.selfKeyvals.dropLast }.deleteAttr cfg cfg.self keyval (answers keyval)
      if code ≠ 0 then (code, { s with selfKeyvals := s.selfKeyvals ++ [keyval] })
      else deleteSelfAttributes cfg answers fuel s

end Store

structure Attributes (α : Type) where
  store : Store α
  comms : List Comm

def Attributes.valid (cfg : Config) (s : Attributes α) (comm : Comm) : Bool :=
  comm = cfg.self || comm = cfg.world || comm ∈ s.comms

/-- The operations, with what their callbacks do; `order` is the one in which a loop lists the keyvals, `lower` is the
answer of the lower half. -/
inductive Act (α : Type) where
  | keyval (op : KeyvalOp α)
  | set (comm : Comm) (keyval : Int) (value : α) (answer : Answer α)
  | delete (comm : Comm) (keyval : Int) (answer : Answer α)
  | dup (oldcomm newcomm : Comm) (lower : Int) (copyOrder : List Int) (copies : Int → Answer α)
      (freeOrder : List Int) (deletes : Int → Answer α) (lowerFree : Int)
  | free (comm : Comm) (order : List Int) (deletes : Int → Answer α) (lower : Int)
  | finalize (answers : Int → Answer α)

namespace Attributes

/-- `MPI_Comm_free` of a communicator that is not predefined. -/
def commFree (cfg : Config) (s : Attributes α) (comm : Comm) (order : List Int) (deletes : Int → Answer α)
    (lower : Int) : Option (Int × Attributes α) :=
  if order.Perm (s.store.keyvalsOf comm) then
    let (code, store) := Store.deleteAttributes cfg comm deletes order s.store
    if code ≠ 0 then some (code, { s with store := store })
    else some (lower, ⟨store, if lower = 0 then s.comms.erase comm else s.comms⟩)
  else none

def commDup (cfg : Config) (s : Attributes α) (oldcomm newcomm : Comm) (lower : Int) (copyOrder : List Int)
    (copies : Int → Answer α) (freeOrder : List Int) (deletes : Int → Answer α) (lowerFree : Int) :
    Option (Int × Attributes α) :=
  if lower ≠ 0 ∨ newcomm = cfg.null then some (lower, s)
  else if copyOrder.Perm (s.store.keyvalsOf oldcomm) then
    let (code, store) := Store.copyAttributes cfg oldcomm newcomm copies copyOrder s.store
    let s : Attributes α := ⟨store, newcomm :: s.comms⟩
    if code ≠ 0 then (s.commFree cfg newcomm freeOrder deletes lowerFree).map fun (_, s) => (code, s)
    else some (code, s)
  else none

/-- An operation of the program: its result and the state after it. A communicator is one that the program has, and
a new one is not. -/
def perform (cfg : Config) (s : Attributes α) : Act α → Option (Int × Attributes α)
  | .keyval (.create copyFn deleteFn extraState) =>
    some (0, { s with store := (s.store.createKeyval cfg copyFn deleteFn extraState).2 })
  | .keyval (.free keyval) =>
    let (code, store) := s.store.freeKeyval cfg keyval
    some (code, { s with store := store })
  | .set comm keyval value answer =>
    if s.valid cfg comm ∨ comm = cfg.null then
      let (code, store) := s.store.setAttr cfg comm keyval value answer
      some (code, { s with store := store })
    else none
  | .delete comm keyval answer =>
    let (code, store) := s.store.deleteAttr cfg comm keyval answer
    some (code, { s with store := store })
  | .dup oldcomm newcomm lower copyOrder copies freeOrder deletes lowerFree =>
    if s.valid cfg oldcomm ∧ ¬ s.valid cfg newcomm then
      s.commDup cfg oldcomm newcomm lower copyOrder copies freeOrder deletes lowerFree
    else none
  | .free comm order deletes lower =>
    if comm ∈ s.comms ∧ comm ≠ cfg.self then s.commFree cfg comm order deletes lower else none
  | .finalize answers =>
    let (code, store) := s.store.deleteSelfAttributes cfg answers s.store.selfKeyvals.length
    some (code, { s with store := store })

def machine (cfg : Config) : Machine (Attributes α) (Act α) where
  initial s := s = ⟨.empty, []⟩
  step s a := (s.perform cfg a).map (·.2)

end Attributes

end Mana.Attr
