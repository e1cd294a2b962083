import Mana.Collective.Safety

/-! Communicators over the machine of the drain: how they get their gids, when the
handles of a process are live, and how `MPI_Comm_free` defers the real free until the
communicator's barrier completes. -/

namespace Mana.Comm
open Mana.Lib Mana.Collective Function

abbrev CommId := Nat

/-- The communicators of a job. All members make the same counted calls on a
communicator in the same order, so that `free` can say which of them is `MPI_Comm_free`. -/
structure Job (n : Nat) where
  members : CommId → Finset (Fin n)
  /-- The process that has rank 0 in the communicator. -/
  root : CommId → Fin n
  root_mem : ∀ c, root c ∈ members c
  free : CommId → Nat → Bool
  world : CommId
  self : Fin n → CommId
  ssendAck : CommId
  distinct : (world :: (List.finRange n).map self ++ [ssendAck]).Nodup

def Job.predefined {n : Nat} (job : Job n) : List CommId :=
  job.world :: (List.finRange n).map job.self ++ [job.ssendAck]

/-- A wrapper call that goes through a critical section. `create` is one of the counted
calls that make communicators; a rank to which it gives MPI_COMM_NULL makes a
`collective` call. -/
inductive Op where
  | collective (c : CommId)
  | create (parent new : CommId)
  | createGroup (new : CommId)
  | free (c : CommId)
  deriving DecidableEq, Repr

namespace Op

def counts : Op → Option CommId
  | .collective c | .create c _ | .free c => some c
  | .createGroup _ => none

def new : Op → Option CommId
  | .create _ c | .createGroup c => some c
  | _ => none

def frees : Op → Bool
  | .free _ => true
  | _ => false

end Op

/-- `make_gid`, from the number of gids that the process made before. -/
def makeGid (worldSize worldRank gidsMade : Nat) : Gid := gidsMade * worldSize + worldRank

/-- What a process knows of its communicators. `descs` has the live handles with the
gids in their descriptors, `op` is the call in which the application thread is. The
history has the creation calls that the process entered, and the communicators whose
`MPI_Comm_free` barrier it started. -/
structure CommProc where
  gidsMade : Nat
  descs : Assoc CommId Gid
  pendingFrees : List (Gid × CommId)
  op : Option Op
  entered : List CommId
  started : List CommId

def CommProc.creating (cp : CommProc) (p : Proc) : Option CommId :=
  if p.app.inSection then cp.op.bind Op.new else none

def CommProc.freeing (cp : CommProc) (p : Proc) : Option CommId :=
  if p.app.inSection then
    match cp.op with
    | some (.free c) => some c
    | _ => none
  else none

/-- `gidOf` is the gid that the communicator's rank 0 made and broadcast, `owner` the
communicator for which a gid was made. -/
structure JobState (n : Nat) where
  drain : State n
  procs : Fin n → CommProc
  gidOf : CommId → Option Gid
  owner : Gid → Option CommId

section Steps
variable {n : Nat} (job : Job n)

namespace JobState

def setProcs (s : JobState n) (r : Fin n) (p : CommProc) : JobState n :=
  { s with procs := update s.procs r p }

def members (s : JobState n) (g : Gid) : Finset (Fin n) :=
  match s.owner g with
  | some c => job.members c
  | none => ∅

def allEntered (s : JobState n) (c : CommId) : Bool := decide (∀ q ∈ job.members c, c ∈ (s.procs q).entered)

def allStarted (s : JobState n) (c : CommId) : Bool := decide (∀ q ∈ job.members c, c ∈ (s.procs q).started)

def assignGid (s : JobState n) (c : CommId) : JobState n :=
  let root := s.procs (job.root c)
  let gid := makeGid n (job.root c) root.gidsMade
  { s.setProcs (job.root c) { root with gidsMade := root.gidsMade + 1 } with
    gidOf := update s.gidOf c (some gid)
    owner := update s.owner gid (some c) }

def drainStep (s : JobState n) (a : Action n) : Option (JobState n) :=
  (step (s.members job) s.drain a).map (fun drain => { s with drain := drain })

def begin_ (s : JobState n) (r : Fin n) (op : Op) (call : Call) : JobState n :=
  { s.setProcs r { s.procs r with op := some op } with
    drain := s.drain.setProc r { s.drain.proc r with app := .beginLock call } }

/-- What a call needs: the communicator that it makes is new, and the handle of the
communicator on which it is called is live. -/
def callOf (s : JobState n) (r : Fin n) (op : Op) : Option Call :=
  if op.new.all (fun c => decide (r ∈ job.members c) && decide (c ∉ (s.procs r).entered)) then
    match op.counts with
    | none => some .uncounted
    | some c =>
        match (s.procs r).descs.lookup c with
        | none => none
        | some g =>
            if job.free c ((s.drain.proc r).calls.count g + 1) = op.frees then some (.counted g op.frees) else none
  else none

def enter (s : JobState n) (r : Fin n) : Option (JobState n) :=
  (s.drainStep job (.app r .lock)).map (fun t =>
    t.setProcs r { s.procs r with
      entered :=
        if (t.drain.proc r).app.inSection then ((s.procs r).op.bind Op.new).toList ++ (s.procs r).entered
        else (s.procs r).entered })

def finishFree (s : JobState n) (r : Fin n) (g : Gid) (c : CommId) : JobState n :=
  { s.setProcs r { s.procs r with pendingFrees := (s.procs r).pendingFrees.erase (g, c) } with
    drain := s.drain.setProc r { s.drain.proc r with clocks := (s.drain.proc r).clocks.erase g } }

end JobState

inductive ThreadAct where
  | wake
  | readPending
  | done
  deriving DecidableEq, Repr

def ThreadAct.act : ThreadAct → AppAct
  | .wake => .wake
  | .readPending => .readPending
  | .done => .done

inductive JobAction (n : Nat) where
  | begin_ (r : Fin n) (op : Op)
  | lock (r : Fin n)
  | thread (r : Fin n) (a : ThreadAct)
  | makeGid (r : Fin n)
  | addClock (r : Fin n)
  | addVirtId (r : Fin n)
  | startFree (r : Fin n)
  | finish (r : Fin n)
  | testFree (r : Fin n) (g : Gid) (c : CommId)
  | completeFree (r : Fin n) (g : Gid) (c : CommId)
  | ckpt (r : Fin n)
  | release (b : Barrier)
  deriving DecidableEq, Repr

def jobStep (s : JobState n) : JobAction n → Option (JobState n)
  | .begin_ r op =>
      if (s.drain.proc r).app = .ready then (s.callOf job r op).map (s.begin_ r op) else none
  | .lock r => s.enter job r
  | .thread r a => s.drainStep job (.app r a.act)
  -- A lower-half creation call can return once all members have entered it.
  | .makeGid r =>
      match (s.procs r).creating (s.drain.proc r) with
      | some c =>
          if job.root c = r ∧ s.gidOf c = none ∧ s.allEntered job c then some (s.assignGid job c) else none
      | none => none
  -- new_comm_desc(), after the broadcast; add_comm_clock() aborts if the gid has a clock.
  | .addClock r =>
      match (s.procs r).creating (s.drain.proc r) with
      | some c =>
          match s.gidOf c with
          | some g =>
              if (s.drain.proc r).lockHeld = false ∧ g ∉ (s.drain.proc r).clocks then
                some { s with drain := s.drain.setProc r ((s.drain.proc r).addCommClock g) }
              else none
          | none => none
      | none => none
  | .addVirtId r =>
      match (s.procs r).creating (s.drain.proc r) with
      | some c =>
          match s.gidOf c with
          | some g =>
              if g ∈ (s.drain.proc r).clocks ∧ c ∉ (s.procs r).descs then
                some (s.setProcs r { s.procs r with descs := (s.procs r).descs.insert c g })
              else none
          | none => none
      | none => none
  -- start_comm_free_barrier() and free_virt_id().
  | .startFree r =>
      match (s.procs r).freeing (s.drain.proc r) with
      | some c =>
          match (s.procs r).descs.lookup c with
          | some g =>
              some (s.setProcs r { s.procs r with
                descs := (s.procs r).descs.erase c
                pendingFrees := (s.procs r).pendingFrees ++ [(g, c)]
                started := c :: (s.procs r).started })
          | none => none
      | none => none
  -- Also the commit_finish() of a call on MPI_COMM_NULL, which begins no critical section.
  | .finish r =>
      if ((s.procs r).creating (s.drain.proc r)).all (fun c => decide (c ∈ (s.procs r).descs)) ∧
          ((s.procs r).freeing (s.drain.proc r)).all (fun c => decide (c ∉ (s.procs r).descs)) then
        (s.drainStep job (.app r .finish)).map (fun t => t.setProcs r { s.procs r with op := none })
      else none
  -- In test_comm_free_barriers(), or in MPI_Finalize().
  | .testFree r g c =>
      if ((s.drain.proc r).app = .finishFrees ∨ (s.drain.proc r).app = .ready) ∧ (s.drain.proc r).lockHeld = false ∧
          (g, c) ∈ (s.procs r).pendingFrees ∧ s.allStarted job c then some (s.finishFree r g c)
      else none
  -- In complete_comm_free_barriers(), after the drain.
  | .completeFree r g c =>
      if (s.drain.proc r).ckpt = .drainedAll ∧ (g, c) ∈ (s.procs r).pendingFrees ∧ s.allStarted job c then
        some (s.finishFree r g c)
      else none
  | .ckpt r => s.drainStep job (.ckpt r)
  | .release b => s.drainStep job (.release b)

def CommProc.blank : CommProc where
  gidsMade := 0
  descs := ∅
  pendingFrees := []
  op := none
  entered := []
  started := []

def JobState.install (s : JobState n) (c : CommId) : JobState n :=
  let gid := makeGid n (job.root c) (s.procs (job.root c)).gidsMade
  let t := s.assignGid job c
  { t with
    procs := fun r =>
      if r ∈ job.members c then
        { t.procs r with descs := (t.procs r).descs.insert c gid, entered := c :: (t.procs r).entered }
      else t.procs r
    drain := { t.drain with
      proc := fun r =>
        if r ∈ job.members c then
          { t.drain.proc r with clocks := (t.drain.proc r).clocks.insert gid { seq := 0, target := 0 } }
        else t.drain.proc r } }

def JobState.blank : JobState n where
  drain := ⟨fun _ => Proc.initial ∅, Kvdb.empty⟩
  procs := fun _ => CommProc.blank
  gidOf := fun _ => none
  owner := fun _ => none

def Job.start : JobState n := job.predefined.foldl (JobState.install job) JobState.blank

def jobMachine : Machine (JobState n) (JobAction n) where
  initial s := s = job.start
  step := jobStep job

def findVirtComm (s : JobState n) (r : Fin n) (gid : Gid) : Option CommId :=
  if (s.procs r).descs.lookup job.world = some gid then some job.world
  else if (s.procs r).descs.lookup (job.self r) = some gid then some (job.self r)
  else ((s.procs r).descs.entries.find? (fun desc => desc.2 == gid)).map Sigma.fst

end Steps

end Mana.Comm
