import Mathlib.Data.Nat.Basic
import Mathlib.Tactic.Common

/-! The coordinator's key-value database, as the Collective Clock drain uses it.
Each request is one atomic step on the table (the database is linearizable). -/

namespace Mana.Collective

/-- `uint64_t gid`, the number of a communicator in the job. -/
abbrev Gid := Nat

/-- The databases of a drain attempt: the `what` argument of `ckpt_kvdb_name`. -/
inductive What where
  | commSeqMax
  | criticalSection
  | converge
  | targetsRaised
  | raisedGids
  deriving DecidableEq, Repr

/-- One drain attempt: the checkpoint's generation and `attemptId`. The names that
`ckpt_kvdb_name` makes hold both, so each attempt has databases of its own. -/
structure Attempt where
  generation : Nat
  attemptId : Nat
  deriving DecidableEq, Repr

structure DbName where
  what : What
  attempt : Attempt
  deriving DecidableEq, Repr

inductive Key where
  | gid (gid : Gid)
  | round (roundNum : Nat)
  | entry (roundNum i : Nat)
  deriving DecidableEq, Repr

/-- Every value that the drain stores is a count, a flag, a sequence number or a
gid, so natural numbers stand for the `int64_t` values. -/
abbrev Kvdb := DbName → Key → Option Nat

namespace Kvdb

def empty : Kvdb := fun _ _ => none

def set (kv : Kvdb) (db : DbName) (key : Key) (value : Nat) : Kvdb :=
  fun db' key' => if db' = db ∧ key' = key then some value else kv db' key'

/-- `KVDBRequest::MAX`: a missing key gets the value. -/
def max (kv : Kvdb) (db : DbName) (key : Key) (value : Nat) : Kvdb :=
  kv.set db key (Nat.max ((kv db key).getD 0) value)

/-- `KVDBRequest::INCRBY`: a missing key counts as 0. -/
def incrBy (kv : Kvdb) (db : DbName) (key : Key) (value : Nat) : Kvdb :=
  kv.set db key ((kv db key).getD 0 + value)

/-- `KVDBRequest::OR`, on a missing key too. -/
def or (kv : Kvdb) (db : DbName) (key : Key) (value : Nat) : Kvdb :=
  kv.set db key ((kv db key).getD 0 ||| value)

@[simp] theorem set_same (kv : Kvdb) (db : DbName) (key : Key) (value : Nat) :
    kv.set db key value db key = some value := by
  simp [set]

theorem set_db_ne (kv : Kvdb) {db db' : DbName} (key key' : Key) (value : Nat) (other : db' ≠ db) :
    kv.set db key value db' key' = kv db' key' := by
  simp [set, other]

theorem set_key_ne (kv : Kvdb) (db db' : DbName) {key key' : Key} (value : Nat) (other : key' ≠ key) :
    kv.set db key value db' key' = kv db' key' := by
  simp [set, other]

end Kvdb

end Mana.Collective
