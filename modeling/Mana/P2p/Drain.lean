import Mana.Lib.Machine
import Mana.P2p.Proc

/-! The wrapped point-to-point calls and the drain of a checkpoint, step by step, for all
ranks: `drainWithoutBarriers`, and `drainInFlightP2p` followed by `unblockPendingRecvs`.

A lower half receives a message when it likes: which of the matching receives gets it is left
open here. The loops over the pending requests and over the probed messages take their steps
in any order. At a restart the new lower half gets the pending receives again, so that a
restart leaves this state as a resume does. -/

namespace Mana.P2p
open Mana.Lib Mana.Collective Function

variable {n : Nat}

structure Post (n : Nat) where
  dest : Fin n
  env : Envelope n
  dummy : Bool

/-! The application thread. -/

inductive AppAct (n : Nat) where
  /-- `MPI_Isend_internal`, for `MPI_Isend`, `MPI_Issend`, `MPI_Ssend`, `MPI_Sendrecv`, an ack,
  and with polling for `MPI_Send` and `MPI_Rsend`. -/
  | isend (synchronous : Bool) (comm : Gid) (dest : Source n) (tag : Nat)
  /-- `MPI_Irecv_internal`, for `MPI_Irecv`, `MPI_Sendrecv`, and with polling for `MPI_Recv`. -/
  | irecv (pattern : Pattern n)
  /-- `MPI_Test` or a pass of `MPI_Wait`, also for their any and all forms. -/
  | test (id : Nat)
  | free (comm : Gid)
  /-- `MPI_Send` or `MPI_Rsend` in blocking mode. -/
  | send (comm : Gid) (dest : Source n) (tag : Nat)
  | recv (r : PendingRecv n)
  | next
  deriving DecidableEq, Repr

namespace Proc

def outgoing (me : Fin n) (comm : Gid) (dest : Source n) (tag : Nat) : Option (Post n) :=
  match dest with
  | .rank d => some { dest := d, env := { comm := comm, source := me, tag := tag }, dummy := false }
  | _ => none

def mayEnter (p : Proc n) : Bool := p.app == .out && !p.closed && !p.ckpt.suspends

def countSent (p : Proc n) (dest : Source n) : Proc n :=
  { p with sent := if dest = .procNull then p.sent else p.sent + 1 }

def irecv (p : Proc n) (pattern : Pattern n) : Proc n :=
  match p.queue.findIdx? (fun m => pattern.accepts m.env) with
  | some k => { p with queue := p.queue.eraseIdx k, completed := p.completed ++ [p.nextId], nextId := p.nextId + 1 }
  | none => p.addRequest .irecv pattern

def testRequest (p : Proc n) (id : Nat) : Option (Proc n) :=
  if id ∈ p.completed then some { p with completed := p.completed.erase id }
  else
    match p.pendingCall id with
    | none => none
    | some (i, q) =>
        if q.flag then some ((if q.isCountedIrecv then p.countReceived q.real.message else p).clear i) else none

def recvNext (p : Proc n) : Option (Proc n) :=
  match p.app with
  | .out => none
  | .sendBlocked => some { p with app := .out }
  | .recvRetry r => if p.manaState = .ckptP2p then none else some { p with app := .recvPassed r }
  | .recvPassed r => if p.closed then none else some { p with app := .recvIn r }
  | .recvIn r =>
      match p.queue.findIdx? (fun m => r.accepts m.env) with
      -- The drain counted the message when it moved it to the buffer.
      | some k => some { p with queue := p.queue.eraseIdx k, app := .recvDone }
      | none => some { p with app := .recvLooked r }
  | .recvLooked r =>
      if p.slot = .idle then some { p with pending := r, slot := .active, app := .recvActive r }
      else some { p with pending := r, app := .recvClosed r }
  | .recvActive r => some { p with app := .recvEntering r }
  | .recvEntering r => some { p with app := .recvBlocked r p.postings, postings := p.postings + 1 }
  | .recvBlocked _ _ => none
  | .recvReturned r m => some { p with app := if p.dummyPhase then .recvDummy r m else .recvReal r m }
  | .recvDummy r m => some { p with slot := .closed, discarded := p.discarded ++ [m], app := .recvClosed r }
  | .recvReal r m => some { p with slot := .idle, app := .recvIdle r m }
  | .recvIdle r m =>
      some { (if r.source = .procNull then p else p.countReceived (some m)) with app := .recvDone }
  | .recvDone => some { p with app := .out }
  | .recvClosed r => some { p with app := .recvWait r }
  | .recvWait r => if p.manaState = .running then some { p with app := .recvRetry r } else none

def appStep (cfg : Config n) (me : Fin n) (p : Proc n) : AppAct n → Option (Proc n × Option (Post n))
  | .isend synchronous comm dest tag =>
      if p.mayEnter ∧ p.manaState ≠ .ckptP2p ∧ dest ≠ .any then
        let type := if synchronous ∧ dest ≠ .procNull then .issend else .isend
        some ((p.countSent dest).addRequest type { comm := comm, source := dest, tag := some tag },
          outgoing me comm dest tag)
      else none
  | .irecv pattern =>
      if p.mayEnter ∧ p.manaState ≠ .ckptP2p then some (p.irecv pattern, none) else none
  | .test id => if p.mayEnter then (p.testRequest id).map (·, none) else none
  | .free comm => if p.mayEnter then some ({ p with freed := comm :: p.freed }, none) else none
  | .send comm dest tag =>
      if cfg.blocking ∧ p.mayEnter ∧ p.manaState ≠ .ckptP2p ∧ dest ≠ .any then
        some ({ (p.countSent dest) with app := .sendBlocked }, outgoing me comm dest tag)
      else none
  -- A receive from MPI_PROC_NULL returns at once and publishes nothing.
  | .recv r =>
      if cfg.blocking ∧ p.app = .out ∧ p.ckpt.suspends = false ∧ r.source ≠ .procNull then
        some ({ p with app := .recvRetry r }, none)
      else none
  | .next => if p.ckpt.suspends then none else p.recvNext.map (·, none)

end Proc

/-! The checkpoint thread. -/

/-- This checkpoint's database. Its keys are never reused. -/
structure Db (n : Nat) where
  sent : Nat → Nat
  recv : Nat → Nat
  /-- The bits of `blocked_<word>`. -/
  blocked : Fin n → Bool
  /-- `ndummies_<rank>` and the records `dummy_<rank>_<slot>`. -/
  dummies : Fin n → List (PostedDummy n)

def Db.empty : Db n := ⟨fun _ => 0, fun _ => 0, fun _ => false, fun _ => []⟩

inductive CkptAct (n : Nat) where
  | next
  /-- The results of `test_pending_nonblocking_collectives` and `testDummySends`. -/
  | polled (nbcs dummies : Nat)
  | test (id : Nat)
  /-- `MPI_Iprobe_internal` reports the message at this place. -/
  | probe (k : Nat)
  /-- `NEXT_FUNC(Recv)` in `recvMsgIntoInternalBuffer` takes the message at this place. -/
  | recv (k : Nat)
  | ack (dest : Fin n) (tag : Nat)
  deriving DecidableEq, Repr

def Counters.received (sums : Counters) : Bool := sums.sent ≤ sums.recv && sums.isends == 0 && sums.nbcs == 0

def Counters.over (sums : Counters) : Bool := sums.received && sums.inRecv == 0 && sums.dummies == 0

def Locals.nextPass (l : Locals) : Nat :=
  if l.sums.received ∧ l.sums.inRecv > 0 ∧ l.dummyPass = 0 then 1 else l.dummyPass

namespace Proc

/-- The body of the loop in `publishSsendNotices`. The `MPI_Issend` on a communicator that the
application has freed goes on as an `MPI_Isend`. -/
def announce (p : Proc n) (q : Req n) : Proc n :=
  match q.type, q.pattern.source with
  | .issend, .rank d =>
      if q.pattern.comm ∈ p.freed then
        { p with log := p.log.map fun q' => if q' = q then { q with type := .isend } else q' }
      else
        { p with
          ssendNotices := p.ssendNotices ++ [⟨q.id, d, p.nextAckTag⟩]
          nextAckTag := (p.nextAckTag + 1) % 32768 }
  | _, _ => p

def publishSsendNotices (p : Proc n) : Proc n := p.log.foldl announce { p with ssendNotices := [] }

/-- `awaitSsendAck`: the request becomes the receive of the ack, in its place in the log. No
notice: the assertion fails. -/
def awaitSsendAck (cfg : Config n) (p : Proc n) (i : Nat) (q : Req n) : Option (Proc n) :=
  (p.ssendNotices.find? (fun notice => notice.request == q.id)).map fun notice =>
    { p with
      log := p.log.set i
        ⟨q.id, .irecv, { comm := cfg.ackComm, source := .rank notice.receiver, tag := some notice.ackTag },
          .active, p.postings⟩
      postings := p.postings + 1 }

def completePending (cfg : Config n) (p : Proc n) (i : Nat) (q : Req n) : Option (Proc n) :=
  match q.type with
  | .irecv =>
      some (((if q.pattern.source = .procNull then p else p.countReceived q.real.message).clear i).completeRequest q.id)
  | .issend => p.awaitSsendAck cfg i q
  | .isend => some ((p.clear i).completeRequest q.id)

def setLocals (p : Proc n) (f : Locals → Locals) : Proc n := { p with locals := f p.locals }

def goto (p : Proc n) (pc : CkptPc) : Proc n := { p with ckpt := pc }

/-- The search of `drainRemainingP2pMsgs` for an `MPI_Irecv` that matches the probed message. -/
def matchPending (p : Proc n) (env : Envelope n) : Proc n :=
  match p.log.find? (fun q => q.type == .irecv && q.pattern.accepts env) with
  | some q => p.goto (.await q.id)
  | none => p.goto .readSlot

def pendingRecvMatches (p : Proc n) (env : Envelope n) : Bool := p.slot == .active && p.pending.accepts env

def recvMsgIntoInternalBuffer (p : Proc n) (k : Nat) (m : Msg n) : Proc n :=
  { (p.countReceived (some m)) with inbox := p.inbox.eraseIdx k, queue := p.queue ++ [m] }

/-- The end of a part of the dummy step: of a pass of `drainWithoutBarriers`, or at a barrier of
`unblockPendingRecvs`. -/
def endPass (cfg : Config n) (p : Proc n) (dummyPass : Nat) (barrier : CkptPc) : Proc n :=
  { p with
    locals := if cfg.drainHasNoBarrier then { p.locals with dummyPass := dummyPass } else p.locals
    ckpt := if cfg.drainHasNoBarrier then .complete else barrier }

/-- The top of the loop body in `drainWithoutBarriers`: what a pass does, and `dummy_pass` until
it is done. -/
def passTurn : Nat → CkptPc × Nat
  | 0 => (.complete, 0)
  | 1 => (.casSlot, 1)
  | 2 => (.post, 2)
  | 3 => (.send, 3)
  | d => (.complete, d + 1)

def verdict (p : Proc n) : Proc n :=
  if p.locals.sums.over then p.goto .doneWait
  else (p.setLocals fun l => { l with dummyPass := l.nextPass }).goto .pass

end Proc

def Proc.ckptLocal (cfg : Config n) (p : Proc n) (a : CkptAct n) : Option (Proc n) :=
  match a, p.ckpt with
  | .next, .running => some ({ p with manaState := .ckptCollective }.goto .collective)
  -- After drain_mpi_collective()
  | .next, .collective => some ({ p with closed := true }.goto .closing)
  | .next, .closing =>
      if p.app.outside ∨ cfg.blocking ∧ p.app.inBlockingCall then some (p.goto .drainBarrier) else none
  | .next, .p2pStart => some ({ p with manaState := .ckptP2p }.goto .closeSlot)
  | .next, .closeSlot => some ({ p with slot := p.slot.closeIdle }.goto .notices)
  | .next, .notices => some (p.publishSsendNotices.goto (if cfg.drainHasNoBarrier then .pass else .regSent))
  | .next, .pass =>
      let (pc, dummyPass) := passTurn p.locals.dummyPass
      some ((p.setLocals fun l => { l with iterations := l.iterations + 1, dummyPass := dummyPass }).goto pc)
  | .test id, .complete | .test id, .reduce =>
      (p.pendingCall id).bind fun (i, q) => if q.flag then p.completePending cfg i q else none
  | .polled nbcs dummies, .complete =>
      if cfg.drainHasNoBarrier then
        some ((p.setLocals fun l => { l with nbcs := nbcs, dummies := dummies }).goto .probe)
      else none
  | .next, .complete => if cfg.drainHasNoBarrier then none else some (p.goto .probe)
  | .probe k, .probe => (p.inbox[k]?).map fun m => { p with status := some m.env }.goto .matchLog
  | .next, .matchLog => p.status.map p.matchPending
  -- The pending MPI_Recv takes the message and counts it.
  | .next, .readSlot => p.status.map fun env => p.goto (if p.pendingRecvMatches env then .probe else .buffer)
  | .recv k, .buffer =>
      (p.inbox[k]?).bind fun m =>
        if p.status = some m.env then some ((p.recvMsgIntoInternalBuffer k m).goto .probe) else none
  | .next, .probe => some (p.goto (if cfg.drainHasNoBarrier then .sampleRecv else .regSent))
  | .next, .await id =>
      (p.pendingCall id).bind fun (i, q) =>
        if q.flag then some ((((p.countReceived q.real.message).clear i).completeRequest q.id).goto .probe) else none
  | .next, .sampleRecv => some ((p.setLocals fun l => { l with recv := p.recv }).goto .sampleSlot)
  | .next, .sampleSlot => some ((p.setLocals fun l => { l with inRecv := p.slot == SlotState.active }).goto .contribute)
  | .next, .contribute =>
      some ((p.setLocals fun l =>
        { l with contribution :=
          { sent := p.sent, recv := l.recv, isends := p.pendingIsends, nbcs := l.nbcs,
            inRecv := l.inRecv.toNat, dummies := l.dummies, notices := p.ssendNotices.length } }).goto .reduce)
  | .next, .verdict => some p.verdict
  | .next, .decideRound =>
      if p.locals.globalSent > p.locals.globalRecv then
        some ((p.setLocals fun l => { l with iterations := l.iterations + 1 }).goto .complete)
      else some (p.goto .isends)
  | .test id, .isends =>
      (p.pendingCall id).bind fun (i, q) => if q.flag ∧ q.isSend then p.completePending cfg i q else none
  | .next, .isends => if p.log.any Req.isSend then none else some (p.goto .casSlot)
  | .next, .casSlot =>
      some (({ p with slot := p.slot.closeIdle }.setLocals fun l => { l with blocked := p.slot == SlotState.active }).goto .publish)
  | .next, .setPhase => some ({ p with dummyPhase := true }.endPass cfg 2 .publishedBarrier)
  -- close_lower_half(); with polling the lower half is closed since before the drain.
  | .next, .drained => if p.app.outside then some (p.goto .suspendBarrier) else none
  | .next, .suspended => some ({ p with closed := false }.goto .resumePhase)
  -- resetDrainCounters
  | .next, .resumePhase => some ({ p with dummyPhase := false }.goto .resumeSlot)
  | .next, .resumeSlot => some ({ p with slot := .idle }.goto .acks)
  | .next, .acks => some ({ p with manaState := .running }.goto .running)
  | _, _ => none

def Proc.ckptDb (cfg : Config n) (me : Fin n) (db : Db n) (p : Proc n) : Option (Proc n × Db n) :=
  let l := p.locals
  match p.ckpt with
  | .regSent =>
      some (p.goto .regRecv, { db with sent := update db.sent l.round (db.sent l.round + p.sent) })
  | .regRecv =>
      some (p.goto .regBarrier, { db with recv := update db.recv l.round (db.recv l.round + p.recv) })
  | .getSent => some ((p.setLocals fun l => { l with globalSent := db.sent l.round }).goto .getRecv, db)
  | .getRecv =>
      some ((p.setLocals fun l => { l with globalRecv := db.recv l.round, round := l.round + 1 }).goto .decideRound, db)
  | .publish =>
      some (p.goto .setPhase, { db with blocked := update db.blocked me (db.blocked me || l.blocked) })
  | .post =>
      if l.blocked then
        (postDummy cfg.members db.blocked me p.pending).map fun (sender, d) =>
          ({ p with posted := p.posted + 1 }.endPass cfg 3 .postedBarrier,
            { db with dummies := update db.dummies sender (db.dummies sender ++ [d]) })
      else some (p.endPass cfg 3 .postedBarrier, db)
  | _ => none

def Proc.ckptSend (cfg : Config n) (me : Fin n) (db : Db n) (p : Proc n) : CkptAct n → Option (Proc n × Option (Post n))
  | .next =>
      if p.ckpt = .send then
        match (db.dummies me)[p.locals.dispatched]? with
        | some d =>
            some (p.setLocals fun l => { l with dispatched := l.dispatched + 1 },
              some { dest := d.dest, env := d.envelope me, dummy := true })
        | none => some (p.endPass cfg 4 .sentBarrier, none)
      else none
  -- sendOwedSsendAcks: acks are ordinary messages.
  | .ack dest tag =>
      if p.ckpt = .acks then
        some ({ p with sent := p.sent + 1 },
          some { dest := dest, env := { comm := cfg.ackComm, source := me, tag := tag }, dummy := false })
      else none
  | _ => none

/-! The lower half. -/

inductive LowerAct where
  | take (k i : Nat)
  | takeRecv (k : Nat)
  | finish (i : Nat)
  deriving DecidableEq, Repr

def Proc.lowerStep (p : Proc n) : LowerAct → Option (Proc n)
  | .take k i =>
      match p.inbox[k]?, p.log[i]? with
      | some m, some q =>
          if q.type = .irecv ∧ q.real = .active ∧ q.pattern.accepts m.env then
            some { p with inbox := p.inbox.eraseIdx k, log := p.log.set i { q with real := .got m } }
          else none
      | _, _ => none
  | .takeRecv k =>
      match p.inbox[k]?, p.app with
      | some m, .recvBlocked r _ =>
          if r.accepts m.env then some { p with inbox := p.inbox.eraseIdx k, app := .recvReturned r m } else none
      | _, _ => none
  | .finish i =>
      match p.log[i]? with
      | some q =>
          if q.real = .active ∧ (q.isSend ∨ q.pattern.source = .procNull) then
            some { p with log := p.log.set i { q with real := .complete } }
          else none
      | none => none

/-! All ranks. -/

/-- Where all ranks wait for each other: the barriers, the reduction, `waitForAllRanksDone`, and
DMTCP's own synchronisation before it suspends the threads. -/
inductive Sync where
  | drainSendRecv
  | reduce
  | done
  | register
  | published
  | posted
  | dummiesSent
  | suspend
  deriving DecidableEq, Repr

def CkptPc.waitsAt : CkptPc → Option Sync
  | .drainBarrier => some .drainSendRecv
  | .reduce => some .reduce
  | .doneWait => some .done
  | .regBarrier => some .register
  | .publishedBarrier => some .published
  | .postedBarrier => some .posted
  | .sentBarrier => some .dummiesSent
  | .suspendBarrier => some .suspend
  | _ => none

structure State (n : Nat) where
  proc : Fin n → Proc n
  db : Db n

def State.sums (s : State n) : Counters where
  sent := ∑ r, (s.proc r).locals.contribution.sent
  recv := ∑ r, (s.proc r).locals.contribution.recv
  isends := ∑ r, (s.proc r).locals.contribution.isends
  nbcs := ∑ r, (s.proc r).locals.contribution.nbcs
  inRecv := ∑ r, (s.proc r).locals.contribution.inRecv
  dummies := ∑ r, (s.proc r).locals.contribution.dummies
  notices := ∑ r, (s.proc r).locals.contribution.notices

/-- A rank after all have reached the synchronisation. -/
def Proc.released (sums : Counters) (p : Proc n) : Sync → Proc n
  | .drainSendRecv => p.goto .p2pStart
  | .reduce => (p.setLocals fun l => { l with sums := sums }).goto .verdict
  | .done => p.goto .drained
  | .register => p.goto .getSent
  | .published => p.goto .post
  | .posted => p.goto .send
  | .dummiesSent => p.goto .drained
  -- The variables of the drain are gone.
  | .suspend => { p with posted := 0, locals := .start }.goto .suspended

inductive Action (n : Nat) where
  | app (r : Fin n) (a : AppAct n)
  | ckpt (r : Fin n) (a : CkptAct n)
  | ckptDb (r : Fin n)
  | ckptSend (r : Fin n) (a : CkptAct n)
  | lower (r : Fin n) (a : LowerAct)
  | release (sync : Sync)
  deriving DecidableEq, Repr

def Proc.arrive (p : Proc n) (o : Post n) : Proc n :=
  let m : Msg n := ⟨p.addressed.length, o.env, o.dummy⟩
  { p with inbox := p.inbox ++ [m], addressed := p.addressed ++ [m] }

namespace State

def setProc (s : State n) (r : Fin n) (p : Proc n) : State n := { s with proc := update s.proc r p }

def deliver (s : State n) : Option (Post n) → State n
  | none => s
  | some o => s.setProc o.dest ((s.proc o.dest).arrive o)

def step (cfg : Config n) (s : State n) : Action n → Option (State n)
  | .app r a => ((s.proc r).appStep cfg r a).map fun (p, o) => (s.setProc r p).deliver o
  | .ckpt r a => ((s.proc r).ckptLocal cfg a).map (s.setProc r)
  | .ckptDb r => ((s.proc r).ckptDb cfg r s.db).map fun (p, db) => { (s.setProc r p) with db := db }
  | .ckptSend r a => ((s.proc r).ckptSend cfg r s.db a).map fun (p, o) => (s.setProc r p).deliver o
  | .lower r a => ((s.proc r).lowerStep a).map (s.setProc r)
  | .release sync =>
      if ∀ q, (s.proc q).ckpt.waitsAt = some sync then
        some {
          proc := fun q => (s.proc q).released s.sums sync
          -- The name of the database holds the generation: the next checkpoint has a new one.
          db := if sync = .suspend then .empty else s.db }
      else none

end State

def Proc.initial : Proc n where
  closed := false
  manaState := .running
  slot := .idle
  pending := { comm := 0, source := .any, tag := none, count := 0, typeSize := 0 }
  dummyPhase := false
  sent := 0
  recv := 0
  log := []
  completed := []
  nextId := 0
  postings := 0
  queue := []
  inbox := []
  freed := []
  ssendNotices := []
  nextAckTag := 0
  status := none
  app := .out
  ckpt := .running
  locals := .start
  addressed := []
  counted := []
  discarded := []
  posted := 0

def machine (cfg : Config n) : Machine (State n) (Action n) where
  initial s := s = { proc := fun _ => .initial, db := .empty }
  step := State.step cfg

end Mana.P2p
