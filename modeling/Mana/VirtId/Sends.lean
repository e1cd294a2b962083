import Mana.VirtId.PendingLog
import Mana.VirtId.RequestRestart

/-! The wrappers that send, up to the point where they return an error or wait for their requests: what
they write before the lower half has said whether it takes the message. -/

namespace Mana.VirtId
open Mana.Lib Option

structure P2pConstants where
  procNull : Int
  anySource : Int
  anyTag : Int

/-- The fields of an `mpi_message_t` that find it, and its status. -/
structure QueuedMessage where
  comm : Handle
  status : Status
  deriving DecidableEq, Repr

structure Sends where
  requests : Requests
  localSentMessages : Nat
  messageQueue : List QueuedMessage

structure SendArgs where
  buf : Nat
  count : Int
  datatype : Handle
  dest : Int
  tag : Int
  comm : Handle
  deriving DecidableEq, Repr

structure RecvArgs where
  buf : Nat
  count : Int
  datatype : Handle
  source : Int
  tag : Int
  comm : Handle
  deriving DecidableEq, Repr

/-- What the lower half returns from a send or from a receive: an error, or a request. A blocking call
has no request. -/
structure LowerReplies where
  send : Except Int Handle
  recv : Except Int Handle

/-- What a wrapper comes to: its send failed, its receive failed, or it goes on to wait or return. -/
inductive SendOutcome where
  | sendFailed (code : Int)
  | recvFailed (code : Int)
  | goesOn
  deriving DecidableEq, Repr

def countSendAfter (comm : Handle) (dest tag : Int) (e : Entry Desc) : Entry Desc :=
  { e with call := e.call.map (·.countLater comm dest tag) }

/-- `countSendAfterIssends`. It returns at once if no `MPI_Issend` is pending; the loop then changes nothing. -/
def countSendAfterIssends (wide : Bool) (comm : Handle) (dest tag : Int) (s : TypeState) : TypeState :=
  { s with table := s.pending.foldl (fun t request =>
      (t.modifyEntry wide request (countSendAfter comm dest tag)).getD t) s.table }

namespace Sends

variable (job : RequestJob) (mpi : P2pConstants) (s : Sends)

def withRequests (requests : Requests) : Sends := { s with requests := requests }

/-- What every send does first. -/
def countSend (args : SendArgs) : Sends :=
  if args.dest = mpi.procNull then s
  else
    { s with
      localSentMessages := s.localSentMessages + 1
      requests := { s.requests with rank := { s.requests.rank with
        types := countSendAfterIssends job.up.wide args.comm args.dest args.tag s.requests.rank.types } } }

/-- The translation of the handles of a call; `none`: the assertion in `get_real_id` fails. -/
def translated (comm datatype : Handle) : Option Unit :=
  (s.requests.realId job comm).bind fun _ => (s.requests.realId job datatype).map fun _ => ()

/-- `PMPI_Send` and `PMPI_Rsend` with `MANA_P2P_WAIT=blocking`. -/
def blockingSend (args : SendArgs) (reply : LowerReplies) : Option (Sends × SendOutcome) :=
  let s := s.countSend job mpi args
  (s.translated job args.comm args.datatype).map fun _ =>
    match reply.send with
    | .error code => (s, .sendFailed code)
    | .ok _ => (s, .goesOn)

def mpiIsendInternal (synchronous : Bool) (args : SendArgs) (reply : LowerReplies) : Option (Sends × SendOutcome) :=
  let s := s.countSend job mpi args
  (s.translated job args.comm args.datatype).bind fun _ =>
    match reply.send with
    | .error code => some (s, .sendFailed code)
    | .ok real =>
      (s.requests.post job
        { type := if synchronous = true ∧ args.dest ≠ mpi.procNull then .issend else .isend
          sendbuf := args.buf, recvbuf := 0, count := args.count, datatype := args.datatype, comm := args.comm
          remoteNode := args.dest, tag := args.tag, laterSends := 0 } real).map fun requests =>
        (s.withRequests requests, .goesOn)

def matchingMsg (args : RecvArgs) : Option QueuedMessage :=
  s.messageQueue.find? fun msg =>
    (msg.status.source == args.source || args.source == mpi.anySource) &&
      (msg.status.tag == args.tag || args.tag == mpi.anyTag) && msg.comm == args.comm

def mpiIrecvInternal (args : RecvArgs) (reply : LowerReplies) : Option (Sends × SendOutcome) :=
  match s.matchingMsg mpi args with
  | some msg =>
    (s.requests.serve job msg.status).map fun requests =>
      ({ s with requests := requests, messageQueue := s.messageQueue.erase msg }, .goesOn)
  | none =>
    (s.translated job args.comm args.datatype).bind fun _ =>
      match reply.recv with
      | .error code => some (s, .recvFailed code)
      | .ok real =>
        (s.requests.post job
          { type := .irecv, sendbuf := 0, recvbuf := args.buf, count := args.count, datatype := args.datatype
            comm := args.comm, remoteNode := args.source, tag := args.tag, laterSends := 0 } real).map fun requests =>
          (s.withRequests requests, .goesOn)

/-- The second of two calls, if the first has returned `MPI_SUCCESS`. -/
def andThen (first : Option (Sends × SendOutcome)) (next : Sends → Option (Sends × SendOutcome)) :
    Option (Sends × SendOutcome) :=
  first.bind fun
    | (s, .goesOn) => next s
    | failed => some failed

/-- `PMPI_Send`; `send_by_polling` calls `PMPI_Isend`. -/
def pmpiSend (polling : Bool) (args : SendArgs) (reply : LowerReplies) : Option (Sends × SendOutcome) :=
  if polling then s.mpiIsendInternal job mpi false args reply else s.blockingSend job mpi args reply

/-- `PMPI_Rsend`, which differs from `PMPI_Send` in the call of the lower half only. -/
def pmpiRsend (polling : Bool) (args : SendArgs) (reply : LowerReplies) : Option (Sends × SendOutcome) :=
  s.pmpiSend job mpi polling args reply

def pmpiIsend (args : SendArgs) (reply : LowerReplies) : Option (Sends × SendOutcome) :=
  s.mpiIsendInternal job mpi false args reply

def pmpiIssend (args : SendArgs) (reply : LowerReplies) : Option (Sends × SendOutcome) :=
  s.mpiIsendInternal job mpi true args reply

/-- `PMPI_Ssend`, up to its `PMPI_Wait`. -/
def pmpiSsend (args : SendArgs) (reply : LowerReplies) : Option (Sends × SendOutcome) := s.pmpiIssend job mpi args reply

/-- `PMPI_Sendrecv`, up to its `MPI_Waitall`. -/
def pmpiSendrecv (args : SendArgs) (recv : RecvArgs) (reply : LowerReplies) : Option (Sends × SendOutcome) :=
  andThen (s.mpiIsendInternal job mpi false args reply) fun s => s.mpiIrecvInternal job mpi recv reply

/-- `PMPI_Sendrecv_replace`, up to its `MPI_Waitall`; the receive is into `tmpbuf`. -/
def pmpiSendrecvReplace (tmpbuf : Nat) (args : SendArgs) (source recvtag : Int) (reply : LowerReplies) :
    Option (Sends × SendOutcome) :=
  let recv : RecvArgs :=
    { buf := tmpbuf, count := args.count, datatype := args.datatype, source := source, tag := recvtag, comm := args.comm }
  andThen (s.mpiIrecvInternal job mpi recv reply) fun s => s.mpiIsendInternal job mpi false args reply

end Sends

inductive SendCall where
  | send (args : SendArgs)
  | rsend (args : SendArgs)
  | isend (args : SendArgs)
  | issend (args : SendArgs)
  | ssend (args : SendArgs)
  | sendrecv (args : SendArgs) (recv : RecvArgs)
  | sendrecvReplace (tmpbuf : Nat) (args : SendArgs) (source recvtag : Int)
  deriving DecidableEq, Repr

namespace SendCall

def args : SendCall → SendArgs
  | send args | rsend args | isend args | issend args | ssend args | sendrecv args _ | sendrecvReplace _ args _ _ => args

def isReplace : SendCall → Bool
  | sendrecvReplace _ _ _ _ => true
  | _ => false

def run (job : RequestJob) (mpi : P2pConstants) (polling : Bool) (reply : LowerReplies) (s : Sends) :
    SendCall → Option (Sends × SendOutcome)
  | send args => s.pmpiSend job mpi polling args reply
  | rsend args => s.pmpiRsend job mpi polling args reply
  | isend args => s.pmpiIsend job mpi args reply
  | issend args => s.pmpiIssend job mpi args reply
  | ssend args => s.pmpiSsend job mpi args reply
  | sendrecv args recv => s.pmpiSendrecv job mpi args recv reply
  | sendrecvReplace tmpbuf args source recvtag => s.pmpiSendrecvReplace job mpi tmpbuf args source recvtag reply

end SendCall

/-- What a failed send should leave: the counter, the pending log with its `later_sends`, the table and the
requests of the lower half as they were. -/
structure SameBookkeeping (s s' : Sends) : Prop where
  counter : s'.localSentMessages = s.localSentMessages
  pending : s'.requests.rank.types.pending = s.requests.rank.types.pending
  table : s'.requests.table = s.requests.table
  posted : s'.requests.posted = s.requests.posted

section Failed

variable {job : RequestJob} {mpi : P2pConstants} {s s' : Sends} {reply : LowerReplies} {code : Int}
variable {args : SendArgs} {t t' : Table Desc} {real handle : Handle} {r r' : Requests}

theorem Sends.blockingSend_failed (failed : s.blockingSend job mpi args reply = some (s', .sendFailed code)) :
    s' = s.countSend job mpi args := by
  obtain ⟨-, -, same⟩ := map_eq_some_iff.mp failed
  split at same
  · exact (congrArg Prod.fst same).symm
  · exact nomatch congrArg Prod.snd same

theorem Sends.mpiIsendInternal_failed {synchronous : Bool}
    (failed : s.mpiIsendInternal job mpi synchronous args reply = some (s', .sendFailed code)) :
    s' = s.countSend job mpi args := by
  obtain ⟨-, -, failed⟩ := bind_eq_some_iff.mp failed
  split at failed
  · exact (congrArg Prod.fst (some.inj failed)).symm
  · obtain ⟨requests, -, same⟩ := map_eq_some_iff.mp failed
    exact nomatch congrArg Prod.snd same

theorem Sends.mpiIrecvInternal_not_sendFailed {args : RecvArgs} :
    s.mpiIrecvInternal job mpi args reply ≠ some (s', .sendFailed code) := by
  intro failed
  unfold Sends.mpiIrecvInternal at failed
  split at failed
  · obtain ⟨requests, -, same⟩ := map_eq_some_iff.mp failed
    exact nomatch congrArg Prod.snd same
  · obtain ⟨-, -, failed⟩ := bind_eq_some_iff.mp failed
    split at failed
    · exact nomatch congrArg Prod.snd (some.inj failed)
    · obtain ⟨requests, -, same⟩ := map_eq_some_iff.mp failed
      exact nomatch congrArg Prod.snd same

theorem Sends.andThen_eq_some {first : Option (Sends × SendOutcome)} {next : Sends → Option (Sends × SendOutcome)}
    {last : Sends × SendOutcome} (ran : andThen first next = some last) :
    (∃ s, first = some (s, .goesOn) ∧ next s = some last) ∨ first = some last ∧ last.2 ≠ .goesOn := by
  obtain ⟨⟨s, outcome⟩, isFirst, ran⟩ := bind_eq_some_iff.mp ran
  cases outcome with
  | goesOn => exact .inl ⟨s, isFirst, ran⟩
  | sendFailed code | recvFailed code =>
    cases ran
    exact .inr ⟨isFirst, nofun⟩

/-- A send that failed has been counted, and in `PMPI_Sendrecv_replace` the receive has been posted before. -/
theorem SendCall.run_failed {call : SendCall} {polling : Bool}
    (failed : call.run job mpi polling reply s = some (s', .sendFailed code)) :
    if call.isReplace then
      ∃ recv middle, s.mpiIrecvInternal job mpi recv reply = some (middle, .goesOn) ∧
        s' = middle.countSend job mpi call.args
    else s' = s.countSend job mpi call.args := by
  have plain : ∀ args, s.pmpiSend job mpi polling args reply = some (s', .sendFailed code) →
      s' = s.countSend job mpi args := by
    intro args sent
    unfold Sends.pmpiSend at sent
    split at sent
    · exact Sends.mpiIsendInternal_failed sent
    · exact Sends.blockingSend_failed sent
  cases call with
  | send args => exact plain args failed
  | rsend args => exact plain args failed
  | isend args | issend args | ssend args => exact Sends.mpiIsendInternal_failed failed
  | sendrecv args recv =>
    rcases Sends.andThen_eq_some failed with ⟨middle, -, received⟩ | ⟨sent, -⟩
    · exact absurd received Sends.mpiIrecvInternal_not_sendFailed
    · exact Sends.mpiIsendInternal_failed sent
  | sendrecvReplace tmpbuf args source recvtag =>
    rcases Sends.andThen_eq_some failed with ⟨middle, received, sent⟩ | ⟨received, -⟩
    · exact ⟨_, middle, received, Sends.mpiIsendInternal_failed sent⟩
    · exact absurd received Sends.mpiIrecvInternal_not_sendFailed

theorem Table.addVirtId_nextSeq {kind : Kind} {desc : Option Desc}
    (added : t.addVirtId kind real desc = some (handle, t')) : t'.nextSeq = t.nextSeq + 1 := by
  obtain ⟨⟨slot, t₁⟩, isSlot, added⟩ := bind_eq_some_iff.mp added
  obtain ⟨e, -, same⟩ := map_eq_some_iff.mp added
  have allocated : t₁.nextSeq = t.nextSeq := by
    unfold Table.allocSlot at isSlot
    split at isSlot
    · obtain ⟨e, -, same⟩ := map_eq_some_iff.mp isSlot
      cases same
      rfl
    · obtain ⟨-, same⟩ := ite_none_left_eq_some.mp isSlot
      cases same
      rfl
  cases same
  exact congrArg (· + 1) allocated

theorem Table.modifyEntry_nextSeq {wide : Bool} {assign : Entry Desc → Entry Desc}
    (modified : t.modifyEntry wide handle assign = some t') : t'.nextSeq = t.nextSeq := by
  obtain ⟨e, -, rfl⟩ := map_eq_some_iff.mp modified
  rfl

theorem Requests.post_nextSeq {call : NonblockingCall} (posted : r.post job call real = some r') :
    r'.table.nextSeq = r.table.nextSeq + 1 := by
  obtain ⟨-, posted⟩ := ite_none_right_eq_some.mp posted
  obtain ⟨lowered, -, posted⟩ := bind_eq_some_iff.mp posted
  obtain ⟨rank, stepped, posted⟩ := bind_eq_some_iff.mp posted
  obtain ⟨request, -, rfl⟩ := map_eq_some_iff.mp posted
  obtain ⟨types, isStep, rfl⟩ := map_eq_some_iff.mp stepped
  obtain ⟨-, isStep⟩ := ite_none_right_eq_some.mp isStep
  obtain ⟨⟨handle, t⟩, added, logged⟩ := bind_eq_some_iff.mp isStep
  obtain ⟨t', modified, rfl⟩ := map_eq_some_iff.mp logged
  exact (Table.modifyEntry_nextSeq modified).trans (Table.addVirtId_nextSeq added)

theorem Requests.serve_nextSeq {status : Status} (served : r.serve job status = some r') :
    r'.table.nextSeq = r.table.nextSeq + 1 := by
  obtain ⟨⟨handle, t⟩, added, served⟩ := bind_eq_some_iff.mp served
  obtain ⟨t', modified, rfl⟩ := map_eq_some_iff.mp served
  exact (Table.modifyEntry_nextSeq modified).trans (Table.addVirtId_nextSeq added)

theorem Sends.mpiIrecvInternal_goesOn {args : RecvArgs}
    (received : s.mpiIrecvInternal job mpi args reply = some (s', .goesOn)) :
    s'.localSentMessages = s.localSentMessages ∧ s'.requests.table.nextSeq = s.requests.table.nextSeq + 1 := by
  unfold Sends.mpiIrecvInternal at received
  split at received
  · obtain ⟨requests, served, same⟩ := map_eq_some_iff.mp received
    cases same
    exact ⟨rfl, Requests.serve_nextSeq served⟩
  · obtain ⟨-, -, received⟩ := bind_eq_some_iff.mp received
    split at received
    · exact nomatch congrArg Prod.snd (some.inj received)
    · obtain ⟨requests, posted, same⟩ := map_eq_some_iff.mp received
      cases same
      exact ⟨rfl, Requests.post_nextSeq posted⟩

theorem Sends.countSend_procNull (isNull : args.dest = mpi.procNull) : s.countSend job mpi args = s :=
  if_pos isNull

theorem Sends.countSend_counter (notNull : args.dest ≠ mpi.procNull) :
    (s.countSend job mpi args).localSentMessages = s.localSentMessages + 1 := by
  rw [Sends.countSend, if_neg notNull]

/-- A failed send leaves the bookkeeping as it was exactly if it went to `MPI_PROC_NULL` and was not that of
`MPI_Sendrecv_replace`. -/
theorem failed_send_sameBookkeeping_iff (call : SendCall) (polling : Bool)
    (failed : call.run job mpi polling reply s = some (s', .sendFailed code)) :
    SameBookkeeping s s' ↔ call.args.dest = mpi.procNull ∧ call.isReplace = false := by
  have left := SendCall.run_failed failed
  cases isReplace : call.isReplace with
  | false =>
    simp only [isReplace, Bool.false_eq_true, if_false] at left
    subst left
    simp only [and_true]
    constructor
    · intro same
      by_contra notNull
      have counted := same.counter
      rw [Sends.countSend_counter notNull] at counted
      omega
    · intro isNull
      rw [Sends.countSend_procNull isNull]
      exact ⟨rfl, rfl, rfl, rfl⟩
  | true =>
    simp only [isReplace, if_true] at left
    obtain ⟨recv, middle, received, rfl⟩ := left
    obtain ⟨counter, nextSeq⟩ := Sends.mpiIrecvInternal_goesOn received
    refine iff_of_false (fun same => ?_) (by simp)
    by_cases isNull : call.args.dest = mpi.procNull
    · rw [Sends.countSend_procNull isNull] at same
      rw [same.table] at nextSeq
      omega
    · have counted := same.counter
      rw [Sends.countSend_counter isNull] at counted
      omega

end Failed

def mpichP2p : P2pConstants where
  procNull := -1
  anySource := -2
  anyTag := -1

def startedSends : Sends where
  requests := .initial requestJob (startedAt 0)
  localSentMessages := 0
  messageQueue := []

def fourBytesTo (dest tag : Int) : SendArgs where
  buf := 4096
  count := 4
  datatype := 0x4c00010d
  dest := dest
  tag := tag
  comm := 0x44000000

/-- `MPI_Send` to `MPI_PROC_NULL` fails in the lower half with error code 4. -/
theorem failed_send_sameBookkeeping_iff_procNull :
    ∃ s', (SendCall.send (fourBytesTo (-1) 3)).run requestJob mpichP2p false ⟨.error 4, .error 4⟩ startedSends =
        some (s', .sendFailed 4) ∧
      (SameBookkeeping startedSends s' ↔
        (SendCall.send (fourBytesTo (-1) 3)).args.dest = mpichP2p.procNull ∧
          (SendCall.send (fourBytesTo (-1) 3)).isReplace = false) := by
  have ran : ((SendCall.send (fourBytesTo (-1) 3)).run requestJob mpichP2p false ⟨.error 4, .error 4⟩ startedSends).map
      Prod.snd = some (.sendFailed 4) := by decide +kernel
  obtain ⟨⟨s', outcome⟩, ran, rfl⟩ := map_eq_some_iff.mp ran
  exact ⟨s', ran, failed_send_sameBookkeeping_iff _ false ran⟩

/-- `MPI_Send` to rank 1 fails with an invalid tag: the counter stays at 1. `MPI_Sendrecv_replace` fails in the
same way: its receive stays in the log. -/
theorem failed_send_counted :
    ((SendCall.send (fourBytesTo 1 (-7))).run requestJob mpichP2p false ⟨.error 4, .error 4⟩ startedSends).map
        (fun p => (p.1.localSentMessages, p.2)) = some (1, .sendFailed 4) ∧
      ((SendCall.sendrecvReplace 8192 (fourBytesTo 1 (-7)) 1 3).run requestJob mpichP2p true ⟨.error 4, .ok 11⟩
          startedSends).map (fun p => (p.1.requests.rank.types.pending, p.2)) = some ([0x50000002], .sendFailed 4) ∧
      startedSends.localSentMessages = 0 ∧ startedSends.requests.rank.types.pending = [] := by
  decide +kernel

end Mana.VirtId
