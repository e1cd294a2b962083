import Mana.VirtId.Rank

/-! The requests of a rank: what the wrappers and the drain write into their entries, what
`MPI_Test` and its kin make of an entry, and the restart, which posts the pending receives again. -/

namespace Mana.VirtId
open Mana.Lib Function

/-- A job, with the constants that the wrappers of requests name. -/
structure RequestJob extends Job where
  requestNull : Handle
  byte : Handle
  isNull : requestNull ∈ up.constants
  isByte : byte ∈ up.constants

inductive LowerCall where
  | p2p (call : NonblockingCall)
  | collective
  deriving DecidableEq, Repr

/-- The call with the handles that the wrapper passes to the lower half. -/
def NonblockingCall.lower (real : Handle → Option Handle) (call : NonblockingCall) : Option NonblockingCall :=
  (real call.comm).bind fun comm =>
    (real call.datatype).map fun datatype => { call with comm := comm, datatype := datatype }

/-- A rank with its requests. `posted` are the requests of the lower half in posting order. No
wrapper reads the last two: which requests MANA has completed for the application, with the status
of a receive, and the sequence number of the communicator's entry at the call behind a request. -/
structure Requests where
  rank : Rank
  posted : List (Handle × LowerCall)
  served : Handle → Option (Option Status)
  commSeq : Handle → Option Nat

/-- What the lower half's `MPI_Test` says about its own requests. -/
abbrev Reply := Handle → Option Status

/-- What a call on a request comes to: not complete, complete with a status if there is one, a
handle passed to the lower half that is none of its own, or an abort of MANA. -/
inductive Answer where
  | pending
  | completed (status : Option Status)
  | foreign (real : Handle)
  | abort
  deriving DecidableEq, Repr

def completeVirtRequest (wide : Bool) (null : Handle) (t : Table Desc) (request : Handle) (status : Status) :
    Option (Table Desc) :=
  t.modifyEntry wide request fun e => { e with status := status, completed := true, real := null }

def Entry.savedStatus (e : Entry Desc) : Option Status := if e.completed then some e.status else none

namespace Requests

variable (job : RequestJob) (s : Requests)

def table : Table Desc := s.rank.types.table

def null : Handle := s.rank.lower.constant job.requestNull

def realId (handle : Handle) : Option Handle := s.rank.realId job.toJob handle

def setTable (t : Table Desc) : Requests := { s with rank := s.rank.setTable t }

section Tests

def lowerTest (reply : Reply) (real : Handle) : Answer :=
  if real = s.null job then .completed none
  else if real ∈ s.posted.map (·.1) then
    match reply real with
    | some status => .completed (some status)
    | none => .pending
  else .foreign real

def completedRequestStatus (request : Handle) : Option Status :=
  (s.table.lookupVirtIdEntry job.up.wide request).bind Entry.savedStatus

def testInternal (reply : Reply) (request : Handle) : Answer :=
  match s.realId job request with
  | none => .abort
  | some real =>
    match if real = s.null job then s.completedRequestStatus job request else none with
    | some status => .completed (some status)
    | none => s.lowerTest job reply real

def test (reply : Reply) (request : Handle) : Answer :=
  if request = job.requestNull then .completed none
  else
    match s.realId job request with
    | none => .abort
    | some real =>
      if real = s.null job then .completed (s.completedRequestStatus job request) else s.lowerTest job reply real

def wait (reply : Reply) (request : Handle) : Answer :=
  if request = job.requestNull then .completed none else s.testInternal job reply request

/-- A pass of the loop in `PMPI_Waitany` over the requests from index `i` on: the first one that is
not pending. -/
def waitany (reply : Reply) : Nat → List Handle → Option (Nat × Answer)
  | _, [] => none
  | i, request :: rest =>
    if request = job.requestNull then waitany reply (i + 1) rest
    else
      match s.testInternal job reply request with
      | .pending => waitany reply (i + 1) rest
      | answer => some (i, answer)

/-- `PMPI_Request_get_status`, which translates the request as `MPI_Test_internal` does. -/
def requestGetStatus (reply : Reply) (request : Handle) : Answer := s.testInternal job reply request

/-- The rest of `PMPI_Test`, and of a pass of `PMPI_Wait` or `PMPI_Waitany`: a request that is complete
goes. -/
def finish (request : Handle) : Answer → Option Requests
  | .pending => some s
  | .completed _ =>
    if request = job.requestNull then some s
    else (s.rank.typeStep job.toJob (.complete request)).map fun rank => { s with rank := rank }
  | _ => none

end Tests

section Posts

/-- `MPI_Isend_internal`, and `MPI_Irecv_internal` without a message in MANA's buffer. -/
def post (call : NonblockingCall) (real : Handle) : Option Requests :=
  if s.rank.isComm job.toJob call.comm then
    (call.lower (s.realId job)).bind fun lowered =>
      (s.rank.typeStep job.toJob (.post call real)).bind fun rank =>
        rank.types.pending.getLast?.map fun request =>
          { rank := rank
            posted := s.posted ++ [(real, .p2p lowered)]
            served := update s.served request none
            commSeq := update s.commSeq request ((s.table.find call.comm).map (·.seq)) }
  else none

/-- `MPI_Irecv_internal` with a message in MANA's buffer. -/
def serve (status : Status) : Option Requests :=
  (s.table.addVirtId .request (job.requestNull + 1) none).bind fun (request, t) =>
    (completeVirtRequest job.up.wide (s.null job) t request status).map fun t =>
      { s.setTable t with served := update s.served request (some (some status)) }

/-- `new_virt_collective_request`; the library returns a request. -/
def startCollective (real : Handle) : Option Requests :=
  if real = s.null job then none
  else
    (s.table.addVirtId .request real none).bind fun (request, t) =>
      (t.modifyEntry job.up.wide request fun e => { e with collective := true }).map fun t =>
        { s.setTable t with
          posted := s.posted ++ [(real, .collective)]
          served := update s.served request none }

end Posts

section Drain

def pendingRequestType (request : Handle) : Option CallType := ((s.table.find request).bind (·.call)).map (·.type)

/-- A receive that is complete in the lower half, in `completePendingP2pRequests` or
`drainRemainingP2pMsgs`. -/
def drainRecv (request : Handle) (status : Status) : Option Requests :=
  if s.pendingRequestType request = some .irecv then
    (completeVirtRequest job.up.wide (s.null job) s.table request status).map fun t =>
      { s with
        rank := { s.rank with types := clearPendingRequestFromLog job.up.wide { s.rank.types with table := t } request }
        served := update s.served request (some (some status)) }
  else none

/-- An `MPI_Isend` that is complete, in `completePendingP2pRequests` or `completePendingIsends`. -/
def drainSend (request : Handle) : Option Requests :=
  if s.pendingRequestType request = some .isend then
    (s.rank.typeStep job.toJob (.drained request (s.null job))).map fun rank =>
      { s with rank := rank, served := update s.served request (some none) }
  else none

def replacePendingCall (t : Table Desc) (request : Handle) (call : NonblockingCall) : Option (Table Desc) :=
  t.modifyEntry job.up.wide request fun e => { e with call := some call }

/-- The call that an `MPI_Issend` becomes: the receive of its ack. -/
def ackCall (ackComm : Handle) (receiver ackTag : Int) : NonblockingCall where
  type := .irecv
  sendbuf := 0
  recvbuf := 0
  count := 0
  datatype := job.byte
  comm := ackComm
  remoteNode := receiver
  tag := ackTag
  laterSends := 0

def awaitSsendAck (request ackComm : Handle) (receiver ackTag : Int) (real : Handle) : Option Requests :=
  if s.pendingRequestType request = some .issend ∧ s.rank.isComm job.toJob ackComm = true then
    let call := ackCall job ackComm receiver ackTag
    (call.lower (s.realId job)).bind fun lowered =>
      (s.table.updateVirtId job.up.wide request real).bind fun t =>
        (replacePendingCall job t request call).map fun t =>
          { s.setTable t with
            posted := s.posted ++ [(real, .p2p lowered)]
            commSeq := update s.commSeq request ((s.table.find ackComm).map (·.seq)) }
  else none

/-- `publishSsendNotices` on an `MPI_Issend` whose communicator has been freed: an `MPI_Isend` from
then on. -/
def dropNotice (request : Handle) : Option Requests :=
  ((s.table.find request).bind (·.call)).bind fun call =>
    if call.type = .issend ∧ s.rank.isComm job.toJob call.comm = false then
      (replacePendingCall job s.table request { call with type := .isend }).map s.setTable
    else none

/-- The requests that `pending_collective_requests` lists; their order does not matter here. -/
def pendingCollectiveRequests : List (Entry Desc) :=
  s.table.inUse.filter fun e => kindOf e.virt == Kind.request.code && e.collective && e.real != s.null job

/-- A collective that is complete in the lower half, in `complete_pending_nonblocking_collectives` or
`test_pending_nonblocking_collectives`. -/
def finishCollective (request : Handle) : Option Requests :=
  if request ∈ (s.pendingCollectiveRequests job).map (·.virt) then
    (s.table.updateVirtId job.up.wide request (s.null job)).map fun t =>
      { s.setTable t with served := update s.served request (some none) }
  else none

/-- The checkpoint comes when no send is pending and no non-blocking collective. -/
def drained : Bool :=
  (s.rank.types.pending.all fun request => s.pendingRequestType request = some .irecv) &&
    (s.pendingCollectiveRequests job).isEmpty

end Drain

section Restart

/-- The body of the loop in `replayMpiP2pOnRestart`; `reposts` are the requests that the library
returns. -/
def replayCall (reposts : Nat → Handle) (lower : LowerHalf) (p : Table Desc × List (Handle × LowerCall)) (request : Nat) :
    Option (Table Desc × List (Handle × LowerCall)) :=
  match (p.1.find request).bind (·.call) with
  | none => some p
  | some call =>
    (call.lower (getRealId job.up lower p.1)).bind fun lowered =>
      match call.type with
      | .irecv =>
        (p.1.updateVirtId job.up.wide request (reposts request)).map fun t =>
          (t, p.2 ++ [(reposts request, .p2p lowered)])
      -- There should be no pending MPI_Isend after restart.
      | .isend | .issend => none

/-- The restart: the objects behind the other handles first, then the receives in posting order. -/
def restart (new : LowerHalf) (picks : Picks) (reposts : Nat → Handle) : Option Requests :=
  (s.rank.restart job.toJob new picks).bind fun rank =>
    (rank.types.pending.foldlM (replayCall job reposts rank.lower) (rank.types.table, [])).map fun (t, posted) =>
      { s with rank := rank.setTable t, posted := posted }

end Restart

end Requests

def TypeAction.onRequests : TypeAction → Bool
  | .post _ _ | .drained _ _ | .complete _ => true
  | _ => false

/-- The steps of a rank that are steps on requests, or restarts. -/
def RankAction.onRequests {job : Job} : RankAction job → Bool
  | .types action => action.onRequests
  | .restart _ _ => true
  | _ => false

/-- What happens to the requests of a rank; `rank` is any step on its other handles. -/
inductive RequestAction (job : RequestJob) where
  | rank (action : RankAction job.toJob)
  | post (call : NonblockingCall) (real : Handle)
  | serve (status : Status)
  | startCollective (real : Handle)
  | test (reply : Reply) (request : Handle)
  | wait (reply : Reply) (request : Handle)
  | drainRecv (request : Handle) (status : Status)
  | drainSend (request : Handle)
  | awaitSsendAck (request ackComm : Handle) (receiver ackTag : Int) (real : Handle)
  | dropNotice (request : Handle)
  | finishCollective (request : Handle)
  | restart (new : NewLower job.toJob) (picks : Picks) (reposts : Nat → Handle)

/-- A pass of `PMPI_Waitany` is a sequence of passes of `PMPI_Wait`. -/
def Requests.step (job : RequestJob) (s : Requests) : RequestAction job → Option Requests
  | .rank action =>
    if action.onRequests then none else (s.rank.step job.toJob action).map fun rank => { s with rank := rank }
  | .post call real => s.post job call real
  | .serve status => s.serve job status
  | .startCollective real => s.startCollective job real
  | .test reply request => s.finish job request (s.test job reply request)
  | .wait reply request => s.finish job request (s.wait job reply request)
  | .drainRecv request status => s.drainRecv job request status
  | .drainSend request => s.drainSend job request
  | .awaitSsendAck request ackComm receiver ackTag real => s.awaitSsendAck job request ackComm receiver ackTag real
  | .dropNotice request => s.dropNotice job request
  | .finishCollective request => s.finishCollective job request
  | .restart new picks reposts => if s.drained job then s.restart job new.1 picks reposts else none

def Requests.initial (job : RequestJob) (lh : LowerHalf) : Requests where
  rank := .initial job.toJob lh
  posted := []
  served := fun _ => none
  commSeq := fun _ => none

def requestMachine (job : RequestJob) : Machine Requests (RequestAction job) where
  initial s := ∃ lh, Hosts job.toJob lh ∧ s = .initial job lh
  step := Requests.step job

end Mana.VirtId
