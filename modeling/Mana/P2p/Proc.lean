import Mana.P2p.Envelope
import Mathlib.Algebra.BigOperators.Fin

/-! The point-to-point state of a rank: the requests and messages of its lower half, MANA's
buffer, the counters, the slot `g_pending_recv` and the positions of its two threads.

MANA does not support `MPI_THREAD_MULTIPLE`, so one application thread stands for all. What
an application thread does between `LOWER_HALF_DISABLE_CKPT` and `LOWER_HALF_ENABLE_CKPT` is
one step unless it can block there: the checkpoint thread waits for it to leave. -/

namespace Mana.P2p
open Mana.Collective

structure Config (n : Nat) where
  blocking : Bool
  /-- The lower half has a TLS for the checkpoint thread. -/
  ckptTls : Bool
  members : Gid → List (Fin n)
  ackComm : Gid

def Config.drainHasNoBarrier {n : Nat} (c : Config n) : Bool := !c.blocking || c.ckptTls

/-- A message to a rank; `id` is its number among the messages to that rank. -/
structure Msg (n : Nat) where
  id : Nat
  env : Envelope n
  dummy : Bool
  deriving DecidableEq, Repr

inductive ReqType where
  | isend
  | issend
  | irecv
  deriving DecidableEq, Repr

/-- The real request: what `MPI_Test` in the lower half finds. A send, and a receive from
`MPI_PROC_NULL`, completes without a message. -/
inductive Real (n : Nat) where
  | active
  | got (m : Msg n)
  | complete
  deriving DecidableEq, Repr

/-- An entry of the log of pending requests. The pattern holds the communicator, the
`remote_node` and the tag of the call; `posted` orders the receives of the rank as the lower
half got them. -/
structure Req (n : Nat) where
  id : Nat
  type : ReqType
  pattern : Pattern n
  real : Real n
  posted : Nat
  deriving DecidableEq, Repr

inductive AppPc (n : Nat) where
  /-- Not in a blocking call; other MPI calls are single steps from here. -/
  | out
  | sendBlocked
  /-- At `retry` in `PMPI_Recv`, before the test of `mana_state`. -/
  | recvRetry (r : PendingRecv n)
  | recvPassed (r : PendingRecv n)
  | recvIn (r : PendingRecv n)
  | recvLooked (r : PendingRecv n)
  /-- The slot is `ACTIVE`; `lower_half_blocking_call_begin` comes next. -/
  | recvActive (r : PendingRecv n)
  | recvEntering (r : PendingRecv n)
  | recvBlocked (r : PendingRecv n) (posted : Nat)
  /-- `NEXT_FUNC(Recv)` has returned; the read of `p2p_dummy_phase` comes next. -/
  | recvReturned (r : PendingRecv n) (m : Msg n)
  | recvReal (r : PendingRecv n) (m : Msg n)
  | recvIdle (r : PendingRecv n) (m : Msg n)
  | recvDummy (r : PendingRecv n) (m : Msg n)
  /-- Leaves the guarded section to wait for the end of the checkpoint. -/
  | recvClosed (r : PendingRecv n)
  | recvDone
  | recvWait (r : PendingRecv n)
  deriving DecidableEq, Repr

inductive ManaState where
  | running
  | ckptCollective
  | ckptP2p
  deriving DecidableEq, Repr

inductive SlotState where
  | idle
  | active
  | closed
  deriving DecidableEq, Repr

/-- The compare-and-swap from `IDLE` to `CLOSED`. -/
def SlotState.closeIdle : SlotState → SlotState
  | .idle => .closed
  | state => state

inductive CkptPc where
  | running
  | collective
  | closing
  | drainBarrier
  | p2pStart
  | closeSlot
  | notices
  -- drainWithoutBarriers
  | pass
  | sampleRecv
  | sampleSlot
  | contribute
  | reduce
  | verdict
  | doneWait
  -- registerLocalSendsAndRecvs and drainInFlightP2p
  | regSent
  | regRecv
  | regBarrier
  | getSent
  | getRecv
  | decideRound
  | isends
  -- completePendingP2pRequests and drainRemainingP2pMsgs, in both drains
  | complete
  | probe
  | matchLog
  | readSlot
  | buffer
  | await (id : Nat)
  -- the dummy step, in both drains
  | casSlot
  | publish
  | setPhase
  | publishedBarrier
  | post
  | postedBarrier
  | send
  | sentBarrier
  -- the end of the checkpoint
  | drained
  | suspendBarrier
  | suspended
  | resumePhase
  | resumeSlot
  | acks
  deriving DecidableEq, Repr

/-- The seven counters that `reduceDrainCounters` sums. -/
structure Counters where
  sent : Nat
  recv : Nat
  isends : Nat
  nbcs : Nat
  inRecv : Nat
  dummies : Nat
  notices : Nat
  deriving DecidableEq, Repr

/-- An announced `MPI_Issend`: the request, its receiver and the tag of its ack. -/
structure SsendNotice (n : Nat) where
  request : Nat
  receiver : Fin n
  ackTag : Nat
  deriving DecidableEq, Repr

structure Locals where
  dummyPass : Nat
  blocked : Bool
  iterations : Nat
  nbcs : Nat
  dummies : Nat
  recv : Nat
  inRecv : Bool
  contribution : Counters
  sums : Counters
  round : Nat
  globalSent : Nat
  globalRecv : Nat
  dispatched : Nat
  deriving DecidableEq, Repr

def Counters.zero : Counters := ⟨0, 0, 0, 0, 0, 0, 0⟩

def Locals.start : Locals := ⟨0, false, 0, 0, 0, 0, false, .zero, .zero, 0, 0, 0, 0⟩

structure Proc (n : Nat) where
  closed : Bool
  manaState : ManaState
  slot : SlotState
  pending : PendingRecv n
  dummyPhase : Bool
  sent : Nat
  recv : Nat
  log : List (Req n)
  /-- The requests that MANA completed for the application; their real request is
  `MPI_REQUEST_NULL`. -/
  completed : List Nat
  nextId : Nat
  /-- The receives that the lower half got so far. -/
  postings : Nat
  queue : List (Msg n)
  /-- The messages to this rank that no receive has taken, in flight or unexpected. -/
  inbox : List (Msg n)
  freed : List Gid
  ssendNotices : List (SsendNotice n)
  nextAckTag : Nat
  /-- The envelope of the message that `MPI_Iprobe_internal` last reported. -/
  status : Option (Envelope n)
  app : AppPc n
  ckpt : CkptPc
  locals : Locals
  -- History: all messages to this rank, those that a count of `recv` stands for, those that
  -- `PMPI_Recv` discarded, and the dummies posted for this rank in the present checkpoint.
  addressed : List (Msg n)
  counted : List (Msg n)
  discarded : List (Msg n)
  posted : Nat

variable {n : Nat}

namespace AppPc

def outside : AppPc n → Bool
  | .out | .recvRetry _ | .recvPassed _ | .recvWait _ => true
  | _ => false

def inBlockingCall : AppPc n → Bool
  | .sendBlocked | .recvEntering _ | .recvBlocked _ _ => true
  | _ => false

def published : AppPc n → Option (PendingRecv n)
  | .recvActive r | .recvEntering r | .recvBlocked r _ | .recvReturned r _ | .recvReal r _
  | .recvDummy r _ => some r
  | _ => none

/-- The message that `NEXT_FUNC(Recv)` returned and `PMPI_Recv` has neither counted nor
discarded. -/
def held : AppPc n → Option (Msg n)
  | .recvReturned _ m | .recvReal _ m | .recvIdle _ m | .recvDummy _ m => some m
  | _ => none

def receive : AppPc n → Option (PendingRecv n)
  | .recvRetry r | .recvPassed r | .recvIn r | .recvLooked r | .recvActive r | .recvEntering r
  | .recvBlocked r _ | .recvReturned r _ | .recvReal r _ | .recvIdle r _ | .recvDummy r _
  | .recvClosed r | .recvWait r => some r
  | .out | .sendBlocked | .recvDone => none

end AppPc

def Real.message : Real n → Option (Msg n)
  | .got m => some m
  | _ => none

@[simp] theorem Real.message_got (m : Msg n) : (Real.got m).message = some m := rfl
@[simp] theorem Real.message_active : (Real.active : Real n).message = none := rfl
@[simp] theorem Real.message_complete : (Real.complete : Real n).message = none := rfl

namespace Req

def isSend (q : Req n) : Bool := q.type != .irecv

def isCountedIrecv (q : Req n) : Bool := q.type == .irecv && q.pattern.source != .procNull

def flag (q : Req n) : Bool := q.real != .active

end Req

def CkptPc.suspends : CkptPc → Bool
  | .suspended | .resumePhase | .resumeSlot | .acks => true
  | _ => false

namespace Proc

def pendingCall (p : Proc n) (id : Nat) : Option (Nat × Req n) :=
  (p.log.findIdx? (fun q => q.id == id)).bind fun i => (p.log[i]?).map fun q => (i, q)

/-- `count_received_message`, for the message that the real request got. -/
def countReceived (p : Proc n) (m : Option (Msg n)) : Proc n :=
  { p with recv := p.recv + 1, counted := p.counted ++ m.toList }

def clear (p : Proc n) (i : Nat) : Proc n := { p with log := p.log.eraseIdx i }

/-- `complete_virt_request`: the application still holds the request. -/
def completeRequest (p : Proc n) (id : Nat) : Proc n := { p with completed := p.completed ++ [id] }

/-- `addPendingRequestToLog`, after the lower half got the request. -/
def addRequest (p : Proc n) (type : ReqType) (pattern : Pattern n) : Proc n :=
  { p with
    log := p.log ++ [⟨p.nextId, type, pattern, .active, p.postings⟩]
    nextId := p.nextId + 1
    postings := p.postings + 1 }

def pendingIsends (p : Proc n) : Nat := p.log.countP Req.isSend

/-- Messages that a receive of the lower half took and that nothing has counted yet. -/
def held (p : Proc n) : List (Msg n) := p.log.filterMap (·.real.message) ++ p.app.held.toList

end Proc

end Mana.P2p
