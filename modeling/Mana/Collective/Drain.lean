import Mana.Lib.Machine
import Mana.Collective.Clock
import Mathlib.Data.Fintype.Basic
import Mathlib.Data.Fintype.Card

/-! The Collective Clock drain as a machine. Each rank has an application thread,
which goes through `begin_critical_section` and `commit_finish`, and a checkpoint
thread, which runs `drain_mpi_collective`. A section under `seq_num_lock` is one
step; the lock stays held over the barrier of `share_seq_nums`. Every request to the
database outside such a section is a step of its own. -/

namespace Mana.Collective
open Mana.Lib

def MAX_DRAIN_ROUNDS : Nat := 200

inductive Phase where
  | inCs
  | isReady
  deriving DecidableEq, Repr

/-- What `begin_critical_section` is called for. `uncounted`: `counted` is false, or
the handle has no descriptor. -/
inductive Call where
  | uncounted
  | counted (g : Gid) (free : Bool)
  deriving DecidableEq, Repr

inductive AppPc where
  | ready
  | beginLock (c : Call)
  | beginSpin (c : Call) (version : Nat)
  | inCs (c : Call)
  | finishRead
  | finishLock
  | finishSpin (version : Nat)
  | finishFrees
  deriving DecidableEq, Repr

inductive Barrier where
  | shareSeqNum (attemptId : Nat)
  | presuspend (attemptId roundNum : Nat)
  | drainSendRecv
  deriving DecidableEq, Repr

/-- Where the checkpoint thread is. `share` to `sleep` are in `drain_mpi_collective`. -/
inductive CkptPc where
  | running
  | share
  | shareBarrier
  | shareDownload
  | roundTop
  | putConverge
  | putCs
  | roundBarrier
  | getConverge
  | getCs
  | getRaised
  | verdict
  | giveUp
  | sleep
  | drained
  | drainBarrier
  | drainedAll
  | aborted
  deriving DecidableEq, Repr

structure Locals where
  attemptId : Nat
  roundNum : Nat
  roundsWithoutRaise : Nat
  targetReached : Bool
  cs : Bool
  numConverged : Nat
  inCs : Nat
  raised : Nat
  deriving DecidableEq, Repr

/-- What a rank's checkpoint thread has done, for statements about whole runs. -/
inductive Event where
  | arrive (b : Barrier)
  | read (e : Attempt) (roundNum numConverged inCs raised : Nat)
  | again (e : Attempt) (roundNum roundsWithoutRaise : Nat)
  | gaveUp (e : Attempt) (roundNum : Nat)
  | returned (e : Attempt) (roundNum : Nat)
  deriving DecidableEq, Repr

/-- One process: the static variables of `seq_num.cpp`, its two threads, and its
history. `freed` has the gids on which it counted an `MPI_Comm_free`, `calls` the gids
of its counted calls in program order, and `shared` these calls as they were when it
shared its sequence numbers in an attempt. No step but the erasure of a clock reads
the history. -/
structure Proc where
  clocks : Clocks
  ckptPending : Bool
  currentPhase : Phase
  raisedClocks : List Gid
  addedClock : Bool
  targetsVersion : Nat
  app : AppPc
  ckpt : CkptPc
  locals : Locals
  generation : Nat
  freed : List Gid
  calls : List Gid
  shared : Attempt → Option (List Gid)
  log : List Event

def Proc.attempt (p : Proc) : Attempt := ⟨p.generation, p.locals.attemptId⟩

/-- The checkpoint thread holds `seq_num_lock` between two of its steps only over
the barrier in `share_seq_nums`. -/
def Proc.lockHeld (p : Proc) : Bool :=
  p.ckpt = .shareBarrier ∨ p.ckpt = .shareDownload

/-- The condition of the loop in `wait_while_targets_reached`. -/
def Proc.mustWait (p : Proc) : Bool := p.ckptPending && checkSeqNums p.clocks

def Proc.waitingAt (p : Proc) : Option Barrier :=
  match p.ckpt with
  | .shareBarrier => some (.shareSeqNum p.locals.attemptId)
  | .roundBarrier => some (.presuspend p.locals.attemptId p.locals.roundNum)
  | .drainBarrier => some .drainSendRecv
  | _ => none

def CkptPc.released : CkptPc → CkptPc
  | .shareBarrier => .shareDownload
  | .roundBarrier => .getConverge
  | .drainBarrier => .drainedAll
  | pc => pc

def Proc.released (p : Proc) : Proc := { p with ckpt := p.ckpt.released }

/-! The application thread. -/

def CommClock.passes (c : CommClock) (ckptPending : Bool) : Bool :=
  ckptPending && decide (c.seq + 1 > c.target)

def CommClock.count (c : CommClock) (ckptPending : Bool) : CommClock where
  seq := c.seq + 1
  target := if c.passes ckptPending then c.seq + 1 else c.target

def Proc.enter (size : Gid → Nat) (p : Proc) (c : Call) : Option Proc :=
  match c with
  | .uncounted => some { p with currentPhase := .inCs, app := .inCs c }
  | .counted g free =>
      match p.clocks.lookup g with
      | none => none
      | some clock =>
          some { p with
            currentPhase := .inCs
            app := .inCs c
            clocks := p.clocks.insert g (clock.count p.ckptPending)
            raisedClocks :=
              if clock.passes p.ckptPending ∧ size g > 1 then p.raisedClocks ++ [g] else p.raisedClocks
            freed := if free then g :: p.freed else p.freed
            calls := p.calls ++ [g] }

def Proc.addCommClock (p : Proc) (g : Gid) : Proc :=
  { p with
    clocks := p.clocks.insert g { seq := 0, target := 0 }
    addedClock := p.addedClock || p.ckptPending }

inductive AppAct where
  | call (c : Call)
  | lock
  | wake
  | addClock (g : Gid)
  | finish
  | readPending
  | eraseClock (g : Gid)
  | done
  deriving DecidableEq, Repr

/-- A step of the application thread. A counted call needs the communicator's handle,
which is gone once the process has freed the communicator. `mayAdd` and `mayErase` say
which clocks the calls of the program let the process add and erase. -/
def Proc.appStep (size : Gid → Nat) (mayAdd mayErase : Gid → Bool) (p : Proc) (a : AppAct) : Option Proc :=
  match a, p.app with
  | .call .uncounted, .ready => some { p with app := .beginLock .uncounted }
  | .call (.counted g free), .ready =>
      if g ∈ p.clocks ∧ g ∉ p.freed then some { p with app := .beginLock (.counted g free) } else none
  | .lock, .beginLock c =>
      if p.lockHeld then none
      else if p.mustWait then some { p with app := .beginSpin c p.targetsVersion }
      else p.enter size c
  | .wake, .beginSpin c version =>
      if p.ckptPending ∧ p.targetsVersion = version then none else some { p with app := .beginLock c }
  | .addClock g, .inCs _ =>
      if p.lockHeld = false ∧ mayAdd g ∧ g ∉ p.clocks ∧ g ∉ p.freed then some (p.addCommClock g) else none
  | .finish, .inCs _ => some { p with currentPhase := .isReady, app := .finishRead }
  -- The wrapper of a call on MPI_COMM_NULL calls only commit_finish().
  | .finish, .ready => some { p with currentPhase := .isReady, app := .finishRead }
  | .readPending, .finishRead =>
      some { p with app := if p.ckptPending then .finishLock else .finishFrees }
  | .lock, .finishLock =>
      if p.lockHeld then none
      else some { p with app := if p.mustWait then .finishSpin p.targetsVersion else .finishFrees }
  | .wake, .finishSpin version =>
      if p.ckptPending ∧ p.targetsVersion = version then none else some { p with app := .finishLock }
  -- In test_comm_free_barriers(), or in MPI_Finalize().
  | .eraseClock g, .finishFrees | .eraseClock g, .ready =>
      if p.lockHeld = false ∧ mayErase g ∧ g ∈ p.clocks then some { p with clocks := p.clocks.erase g } else none
  | .done, .finishFrees => some { p with app := .ready }
  | _, _ => none

/-! The checkpoint thread. -/

/-- The locked section of a round: `download_targets` if a clock was added,
`upload_raised_targets`, `check_seq_nums` and the read of `current_phase`. -/
def Proc.roundSection (kv : Kvdb) (p : Proc) : Proc × Kvdb :=
  let clocks := if p.addedClock then downloadTargets ⟨.commSeqMax, p.attempt⟩ kv p.clocks else p.clocks
  ({ p with
      clocks := clocks
      targetsVersion := if p.addedClock then p.targetsVersion + 1 else p.targetsVersion
      addedClock := false
      raisedClocks := []
      locals := { p.locals with
        targetReached := checkSeqNums clocks
        cs := decide (p.currentPhase = .inCs) }
      ckpt := .putConverge },
    uploadRaisedTargets p.attempt p.locals.roundNum clocks p.raisedClocks kv)

def Proc.nextRound (p : Proc) (w : Nat) : Proc :=
  { p with
    ckpt := .roundTop
    locals := { p.locals with roundNum := p.locals.roundNum + 1, roundsWithoutRaise := w }
    log := p.log ++ [.again p.attempt p.locals.roundNum w] }

def Proc.decideRound (worldSize : Nat) (kv : Kvdb) (p : Proc) : Proc :=
  let l := p.locals
  if l.inCs = 0 ∧ l.numConverged = worldSize ∧ l.raised = 0 then
    { p with ckpt := .drained, log := p.log ++ [.returned p.attempt l.roundNum] }
  else if l.raised > 0 then
    match downloadRaisedTargets p.attempt l.roundNum l.raised kv p.clocks with
    | none => { p with ckpt := .aborted }
    | some clocks => { p with clocks := clocks, targetsVersion := p.targetsVersion + 1 }.nextRound 0
  else p.nextRound (l.roundsWithoutRaise + 1)

/-- A `get64` whose `ASSERT` fails if there is no such key. -/
def Proc.afterGet (p : Proc) (value : Option Nat) (next : Nat → Proc) : Proc :=
  match value with
  | none => { p with ckpt := .aborted }
  | some v => next v

/-- The checkpoint thread's next step, or none while it waits at a barrier. -/
def Proc.ckptStep (worldSize : Nat) (kv : Kvdb) (p : Proc) : Option (Proc × Kvdb) :=
  let l := p.locals
  let round := Key.round l.roundNum
  match p.ckpt with
  | .running =>
      some ({ p with ckpt := .share, generation := p.generation + 1, locals := { l with attemptId := 0 } }, kv)
  | .share =>
      some ({ p with
          ckptPending := true
          raisedClocks := []
          addedClock := false
          ckpt := .shareBarrier
          shared := fun e => if e = p.attempt then some p.calls else p.shared e
          log := p.log ++ [.arrive (.shareSeqNum l.attemptId)] },
        uploadSeqNum ⟨.commSeqMax, p.attempt⟩ p.clocks kv)
  | .shareBarrier => none
  | .shareDownload =>
      some ({ p with
          clocks := downloadTargets ⟨.commSeqMax, p.attempt⟩ kv p.clocks
          targetsVersion := p.targetsVersion + 1
          ckpt := .roundTop
          locals := { l with roundNum := 0, roundsWithoutRaise := 0 } }, kv)
  | .roundTop =>
      if l.roundsWithoutRaise < MAX_DRAIN_ROUNDS then some (p.roundSection kv)
      else some ({ p with ckpt := .giveUp, log := p.log ++ [.gaveUp p.attempt l.roundNum] }, kv)
  | .putConverge =>
      some ({ p with ckpt := .putCs }, kv.incrBy ⟨.converge, p.attempt⟩ round l.targetReached.toNat)
  | .putCs =>
      some ({ p with ckpt := .roundBarrier, log := p.log ++ [.arrive (.presuspend l.attemptId l.roundNum)] },
        kv.or ⟨.criticalSection, p.attempt⟩ round l.cs.toNat)
  | .roundBarrier => none
  | .getConverge =>
      some (p.afterGet (kv ⟨.converge, p.attempt⟩ round)
        (fun v => { p with ckpt := .getCs, locals := { l with numConverged := v } }), kv)
  | .getCs =>
      some (p.afterGet (kv ⟨.criticalSection, p.attempt⟩ round)
        (fun v => { p with ckpt := .getRaised, locals := { l with inCs := v } }), kv)
  | .getRaised =>
      some (p.afterGet (kv ⟨.targetsRaised, p.attempt⟩ round)
        (fun v => { p with
          ckpt := .verdict
          locals := { l with raised := v }
          log := p.log ++ [.read p.attempt l.roundNum l.numConverged l.inCs v] }), kv)
  | .verdict => some (p.decideRound worldSize kv, kv)
  | .giveUp => some ({ p with ckptPending := false, ckpt := .sleep }, kv)
  | .sleep => some ({ p with ckpt := .share, locals := { l with attemptId := l.attemptId + 1 } }, kv)
  | .drained => some ({ p with ckpt := .drainBarrier, log := p.log ++ [.arrive .drainSendRecv] }, kv)
  | .drainBarrier => none
  -- The rest of the checkpoint, up to seq_num_reset() at resume or restart.
  | .drainedAll => some ({ p with ckptPending := false, ckpt := .running }, kv)
  | .aborted => none

/-! All ranks. -/

structure State (n : Nat) where
  proc : Fin n → Proc
  kvdb : Kvdb

inductive Action (n : Nat) where
  | app (r : Fin n) (a : AppAct)
  | ckpt (r : Fin n)
  /-- `complete_comm_free_barriers`, in the checkpoint thread after the drain. -/
  | completeFree (r : Fin n) (g : Gid)
  | release (b : Barrier)
  deriving DecidableEq, Repr

section Machine
variable {n : Nat} (members : Gid → Finset (Fin n))

def State.allFreed (s : State n) (g : Gid) : Bool := decide (∀ q ∈ members g, g ∈ (s.proc q).freed)

def State.setProc (s : State n) (r : Fin n) (p : Proc) : State n :=
  { s with proc := Function.update s.proc r p }

def step (s : State n) : Action n → Option (State n)
  | .app r a =>
      ((s.proc r).appStep (fun g => (members g).card) (fun g => decide (r ∈ members g)) (s.allFreed members) a).map
        (s.setProc r)
  | .ckpt r => ((s.proc r).ckptStep n s.kvdb).map (fun next => { (s.setProc r next.1) with kvdb := next.2 })
  | .completeFree r g =>
      if (s.proc r).ckpt = .drainedAll ∧ s.allFreed members g ∧ g ∈ (s.proc r).clocks then
        some (s.setProc r { s.proc r with clocks := (s.proc r).clocks.erase g })
      else none
  | .release b =>
      if ∀ q, (s.proc q).waitingAt = some b then some { s with proc := fun q => (s.proc q).released } else none

def Proc.initial (clocks : Clocks) : Proc where
  clocks := clocks
  ckptPending := false
  currentPhase := .isReady
  raisedClocks := []
  addedClock := false
  targetsVersion := 0
  app := .ready
  ckpt := .running
  locals := ⟨0, 0, 0, false, false, 0, 0, 0⟩
  generation := 0
  freed := []
  calls := []
  shared := fun _ => none
  log := []

def Initial (s : State n) : Prop :=
  s.kvdb = Kvdb.empty ∧ ∀ r, ∃ clocks, s.proc r = Proc.initial clocks ∧
    ∀ g c, clocks.lookup g = some c → c = ⟨0, 0⟩ ∧ r ∈ members g

def machine : Machine (State n) (Action n) where
  initial := Initial members
  step := step members

end Machine

end Mana.Collective
