import Mana.LowerHalf.Gate
import Mana.Collective.Drain
import Mana.Collective.Steps

/-! The collective calls that the wrappers pass to the lower half, on all ranks of a job. Each rank has an
application thread, which makes the calls, and a checkpoint thread, which runs the drain of the collectives,
closes the lower half, and opens it again. The drain is the machine of `Mana.Collective`, the gate of each
rank is that of `Gate`. -/

namespace Mana.LowerHalf
open Mana.Lib Mana.Collective

/-- The collective functions of MPI that the wrappers call in the lower half. `newCommDesc` is the broadcast
of `new_comm_desc` on a new communicator. The lower-half call of `MPI_Comm_free` is an `MPI_Ibarrier`;
`finishFree` is the `MPI_Comm_free` that `finish_free` makes once that barrier is complete. -/
inductive LowerCall where
  | bcast | barrier | allreduce | reduce | reduceScatter | alltoall | alltoallv | gather | gatherv
  | scatter | scatterv | allgather | allgatherv | scan
  | ibcast | ibarrier | iallreduce | ireduce | ireduceScatter | ialltoall | ialltoallv | igather | igatherv
  | iscatter | iscatterv | iallgather | iallgatherv | iscan
  | commSplit | commSplitType | commDup | commCreate | cartCreate | cartSub | commFree
  | commCreateGroup
  | newCommDesc
  | fileOpen | fileClose | fileSetView | fileSetSize | fileSetAtomicity | fileSync
  | fileReadAll | fileReadAtAll | fileWriteAll | fileWriteAtAll
  | finishFree
  | finalize
  deriving DecidableEq, Repr

/-- What the wrapper has around the lower-half call, besides the gate: `commit_begin` on the same communicator,
`begin_critical_section` without a count, the section of the call that makes the communicator, or nothing. -/
inductive Guard where
  | counted
  | uncounted
  | nested
  | bare
  deriving DecidableEq, Repr

namespace LowerCall

def guard : LowerCall → Guard
  | .commCreateGroup => .uncounted
  | .newCommDesc => .nested
  | .fileOpen | .fileClose | .fileSetView | .fileSetSize | .fileSetAtomicity | .fileSync
  | .fileReadAll | .fileReadAtAll | .fileWriteAll | .fileWriteAtAll | .finishFree | .finalize => .bare
  | _ => .counted

def waits : LowerCall → Bool
  | .ibcast | .ibarrier | .iallreduce | .ireduce | .ireduceScatter | .ialltoall | .ialltoallv | .igather | .igatherv
  | .iscatter | .iscatterv | .iallgather | .iallgatherv | .iscan | .commFree => false
  | _ => true

/-- `finish_free` runs at the end of `commit_finish`, and in `MPI_Finalize`. -/
def madeAt (c : LowerCall) (g : Gid) (app : AppPc) : Bool :=
  match c.guard, app with
  | .counted, .inCs (.counted h _) => decide (h = g)
  | .uncounted, .inCs .uncounted => true
  | .nested, .inCs _ => true
  | .bare, .ready => true
  | .bare, .finishFrees => decide (c = .finishFree)
  | _, _ => false

theorem inSection_of_madeAt {c : LowerCall} {g : Gid} {app : AppPc} (made : c.madeAt g app = true)
    (guarded : c.guard ≠ .bare) : app.inSection = true := by
  unfold madeAt at made
  split at made
  · rfl
  · rfl
  · rfl
  · next bare => exact absurd bare guarded
  · next bare => exact absurd bare guarded
  · cases made

end LowerCall

inductive Role where
  | app
  | ckpt
  deriving DecidableEq, Repr

/-- A rank, besides its part in the drain. `inside`: the collective lower-half call in which the application
thread is, with its communicator (for a file, that of the file). The code does not have the last two:
the communicators of all such calls that it has entered, in order, and whether one was `MPI_Finalize`, whose
wrapper does not leave the lower half. -/
structure Rank where
  gate : Gate Role
  inside : Option (LowerCall × Gid)
  entered : List Gid
  finalized : Bool

structure Job (n : Nat) where
  drain : State n
  rank : Fin n → Rank

inductive JobAct (n : Nat) where
  | drain (a : Action n)
  | gate (r : Fin n) (a : GateAction Role)
  | call (r : Fin n) (c : LowerCall) (g : Gid)
  | returns (r : Fin n)

namespace Job
variable {n : Nat}

def setRank (s : Job n) (r : Fin n) (k : Rank) : Job n := { s with rank := Function.update s.rank r k }

def setGate (s : Job n) (r : Fin n) (gate : Gate Role) : Job n := s.setRank r { s.rank r with gate := gate }

theorem setGate_self (s : Job n) (r : Fin n) (gate : Gate Role) :
    (s.setGate r gate).rank r = { s.rank r with gate := gate } :=
  Function.update_self ..

def thread (s : Job n) (r : Fin n) : Thread := (s.rank r).gate.thread .app

def ckpt (s : Job n) (r : Fin n) : Collective.CkptPc := (s.drain.proc r).ckpt

/-- DMTCP has suspended the application thread: from before `allow_threads_to_enter_lower_half` until the
checkpoint is over. -/
def suspended (s : Job n) (r : Fin n) : Bool := decide (s.ckpt r = .drainedAll ∧ (s.rank r).gate.closingThread = none)

def free (s : Job n) (r : Fin n) : Bool := !s.suspended r && (s.rank r).inside.isNone

def outside (s : Job n) (r : Fin n) : Bool := decide ((s.thread r).pc = .run ∧ (s.thread r).past = 0)

def behind (s : Job n) (members : Gid → Finset (Fin n)) (g : Gid) (q r : Fin n) : Bool :=
  decide (q ∈ members g ∧ (s.rank q).entered.count g < (s.rank r).entered.count g)

/-- The order of the hook's calls: `close_lower_half` or `close_lower_half_except_blocked` after the drain and
before the barrier, and at the end `allow_threads_to_enter_lower_half`, before the barriers of the checkpoint. -/
def mayDrain (blocking : Bool) (s : Job n) : Action n → Bool
  | .app r a =>
      s.free r &&
        match a with
        | .addClock _ | .eraseClock _ => decide ((s.thread r).pc = .run)
        | _ => s.outside r
  | .ckpt r =>
      match s.ckpt r with
      | .drained =>
          decide ((s.rank r).gate.ckpt = .idle ∧ (if blocking then (s.rank r).gate.parted else (s.rank r).gate.emptied) = true)
      | .drainedAll => decide ((s.rank r).gate.ckpt = .idle ∧ ∀ q, (s.rank q).gate.closed = false)
      | _ => true
  | _ => true

/-- Where the wrappers enter and leave the lower half, and where the hook closes and opens it. With
`MANA_P2P_WAIT=blocking` it closes it a second time, after the drain of the messages. -/
def mayGate (blocking : Bool) (s : Job n) (r : Fin n) : GateAction Role → Bool
  | .thread .app .enter =>
      s.free r &&
        match (s.drain.proc r).app with
        | .ready | .inCs _ | .finishFrees => true
        | _ => false
  | .thread .app .leave => s.free r && !(s.rank r).finalized
  | .thread .app .step => s.free r
  | .thread _ _ => false
  | .close skipBlocked =>
      decide (s.ckpt r = .drained ∧ skipBlocked = blocking ∧ (s.rank r).gate.emptied = false ∧
          (s.rank r).gate.parted = false) ||
        decide (s.ckpt r = .drainedAll ∧ skipBlocked = false ∧ (s.rank r).gate.emptied = false ∧
          (s.rank r).gate.parted = true)
  | .allow => decide (s.ckpt r = .drainedAll ∧ (s.rank r).gate.emptied = true)
  | .ckpt => true

variable (members : Gid → Finset (Fin n)) (blocking : Bool)

/-- A collective lower-half call that waits returns only after all members have entered it. -/
def step (s : Job n) : JobAct n → Option (Job n)
  | .drain a =>
      if s.mayDrain blocking a then (Collective.step members s.drain a).map fun drain => { s with drain := drain }
      else none
  | .gate r a =>
      if s.mayGate blocking r a then ((s.rank r).gate.step .ckpt a).map (s.setGate r) else none
  | .call r c g =>
      if s.free r ∧ (s.thread r).pc = .run ∧ 0 < (s.thread r).past ∧ r ∈ members g ∧
          c.madeAt g (s.drain.proc r).app ∧
          (c = .finishFree → s.drain.allFreed members g ∧ g ∈ (s.drain.proc r).clocks) then
        some (s.setRank r { s.rank r with
          inside := some (c, g)
          entered := (s.rank r).entered ++ [g]
          finalized := (s.rank r).finalized || c = .finalize })
      else none
  | .returns r =>
      match (s.rank r).inside with
      | none => none
      | some (c, g) =>
          if s.suspended r ∨ c.waits ∧ ∃ q, s.behind members g q r then none
          else some (s.setRank r { s.rank r with inside := none })

def machine : Machine (Job n) (JobAct n) where
  initial s := Collective.Initial members s.drain ∧ ∀ r, s.rank r = ⟨.initial Role, none, [], false⟩
  step := step members blocking

end Job

end Mana.LowerHalf
