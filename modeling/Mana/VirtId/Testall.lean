import Mana.VirtId.RequestRestart

/-! `PMPI_Testall`: a loop of `PMPI_Test` over the array, which frees a request as soon as it is complete. -/

namespace Mana.VirtId
open Mana.Lib Option

def Answer.write (answer : Answer) (old : Status) : Status :=
  match answer with
  | .completed (some status) => status
  | _ => old

/-- An entry of `array_of_requests`, with the one of `array_of_statuses` unless that is
`MPI_STATUSES_IGNORE`. -/
structure Cell where
  request : Handle
  status : Option Status
  deriving DecidableEq, Repr

def Cell.tested (job : RequestJob) (answer : Answer) (c : Cell) : Cell :=
  match answer with
  | .completed _ => { request := job.requestNull, status := c.status.map answer.write }
  | _ => c

structure Tested where
  state : Requests
  cells : List Cell
  flag : Bool

namespace Requests

variable (job : RequestJob) (reply : Reply)

/-- The loop of `PMPI_Testall`; the last component is `incomplete`. -/
def testallLoop : Requests → List Cell → Option (Requests × List Cell × Bool)
  | s, [] => some (s, [], false)
  | s, c :: cs =>
    let answer := s.test job reply c.request
    (s.finish job c.request answer).bind fun s =>
      (testallLoop s cs).map fun (s, cs, incomplete) => (s, c.tested job answer :: cs, answer == .pending || incomplete)

/-- `PMPI_Testall`. An empty array leaves `*flag` as it was. -/
def testall (s : Requests) (flag : Bool) (cells : List Cell) : Option Tested :=
  (testallLoop job reply s cells).map fun (s, after, incomplete) =>
    { state := s, cells := after, flag := if incomplete then false else if cells = [] then flag else true }

/-- What MPI asks of the array: its requests are active ones, or null, and no active one is there twice. -/
def ActiveArray (s : Requests) (cells : List Cell) : Prop :=
  (∀ c ∈ cells, c.request ≠ job.requestNull →
    ∃ e, s.table.find c.request = some e ∧ kindOf c.request = Kind.request.code) ∧
  cells.Pairwise fun c d => c.request = job.requestNull ∨ c.request ≠ d.request

/-- All active requests of the array are complete, or none. -/
def AllOrNone (s : Requests) (cells : List Cell) : Prop :=
  (∀ c ∈ cells, c.request ≠ job.requestNull → s.test job reply c.request = .pending) ∨
  ∀ c ∈ cells, s.test job reply c.request ≠ .pending

end Requests

section Call

variable {job : RequestJob} {s s' : Requests} {reply : Reply}

theorem Requests.test_null : s.test job reply job.requestNull = .completed none := by
  simp [Requests.test]

variable {request : Handle} {e : Entry Desc} {c : Cell} {cs : List Cell}

theorem Requests.test_congr (found : s.table.find request = some e) (found' : s'.table.find request = some e)
    (null : s'.null job = s.null job) (posted : s'.posted = s.posted) :
    s'.test job reply request = s.test job reply request := by
  have real : s.realId job request = some e.real := getRealId_of_find found
  have real' : s'.realId job request = some e.real := getRealId_of_find found'
  have status : s'.completedRequestStatus job request = s.completedRequestStatus job request := by
    simp only [Requests.completedRequestStatus, Table.lookup_find, handleValue_of_lt (Table.find_small found),
      found, found']
  simp only [Requests.test, real, real', status, Requests.lowerTest, null, posted]

theorem RequestsSound.test_cases {request : Handle} {e : Entry Desc} (sound : RequestsSound job s)
    (found : s.table.find request = some e) (isKind : kindOf request = Kind.request.code) :
    s.test job reply request = .pending ∨ ∃ status, s.test job reply request = .completed status := by
  have posted : e.real ∈ s.posted.map (·.1) → s.test job reply request = .pending ∨
      ∃ status, s.test job reply request = .completed status := by
    intro member
    have real : s.realId job request = some e.real := getRealId_of_find found
    simp only [Requests.test, real, Requests.lowerTest, member, if_true]
    split_ifs
    · exact .inr ⟨_, rfl⟩
    · exact .inr ⟨_, rfl⟩
    · cases reply e.real with
      | none => exact .inl rfl
      | some status => exact .inr ⟨_, rfl⟩
  have entry := sound.entries request e found isKind
  unfold Requests.EntrySound at entry
  split at entry
  · exact .inr ⟨_, (sound.completed found entry.1 entry.2 reply).1⟩
  · exact entry.elim
  · obtain ⟨-, -, -, lowered, member⟩ := entry
    exact posted (List.mem_map_of_mem (f := (·.1)) member)
  · exact posted (List.mem_map_of_mem (f := (·.1)) entry.2.2.2)

theorem RequestsSound.ne_null (sound : RequestsSound job s) (found : s.table.find request = some e) :
    request ≠ job.requestNull := by
  rintro rfl
  exact nomatch found.symm.trans (sound.types.accounts.wellFormed.shape.find_constant sound.types.accounts.reserved
    job.isNull)

theorem RequestsSound.finish_completed (sound : RequestsSound job s) (found : s.table.find request = some e)
    (isKind : kindOf request = Kind.request.code) (status : Option Status) :
    ∃ s', s.finish job request (.completed status) = some s' ∧ RequestsSound job s' ∧ s'.null job = s.null job ∧
      s'.posted = s.posted ∧ s'.table.find request = none ∧
      ∀ h, h ≠ request → kindOf h = Kind.request.code → s'.table.find h = s.table.find h := by
  have accounts := sound.types.accounts
  have isReq := @isRequest_of_find job.up _ _ _ found isKind
  obtain ⟨fits, -⟩ := isRequest_iff.mp isReq
  have cleared : (∃ e', (clearPendingRequestFromLog job.up.wide s.rank.types request).table.find request = some e' ∧
        e'.call = none) ∧
      ∀ h, h ≠ request → (clearPendingRequestFromLog job.up.wide s.rank.types request).table.find h = s.table.find h := by
    by_cases logged : e.call.isSome = true
    · obtain ⟨t, modifies, isCleared⟩ := @clearPending_logged job.up s.rank.types request e accounts.wellFormed fits found
        logged
      rw [isCleared]
      exact ⟨⟨_, (modifies.puts found).here, rfl⟩, modifies.others⟩
    · have looked : s.rank.types.table.lookupVirtIdEntry job.up.wide request = some e := by
        rw [Table.lookup_find, fits]
        exact found
      have same : clearPendingRequestFromLog job.up.wide s.rank.types request = s.rank.types := by
        simp only [clearPendingRequestFromLog, looked, logged, Bool.false_eq_true, if_false]
      rw [same]
      exact ⟨⟨e, found, by simpa using logged⟩, fun _ _ => rfl⟩
  obtain ⟨after, -⟩ := accounts.clear isReq
  obtain ⟨s₁, released, accounts₁, frame, -⟩ := after.releaseFreedDatatypes
  have kept : ∀ h, kindOf h = Kind.request.code →
      s₁.table.find h = (clearPendingRequestFromLog job.up.wide s.rank.types request).table.find h :=
    fun h isKind => frame.others h (after.request_not_type isKind)
  obtain ⟨⟨e', found', noCall⟩, others⟩ := cleared
  have freed : (s₁.table.freeVirtId job.up.wide request).isSome = true := by
    rw [Table.freeVirtId, Table.lookup_find, fits, kept request isKind, found', bind_some, noCall]
    rfl
  obtain ⟨t, isFreed⟩ := isSome_iff_exists.mp freed
  have frees := accounts₁.wellFormed.freeVirtId isFreed
  rw [fits] at frees
  have taken : s.finish job request (.completed status) =
      some { s with rank := { s.rank with types := { s₁ with table := t } } } := by
    simp only [Requests.finish, sound.ne_null found, if_false, Rank.typeStep, TypeState.step, isReq, if_true,
      completeRequest, released, bind_some, isFreed, map_some]
  refine ⟨_, taken, sound.finish taken, rfl, rfl, frees.here, ?_⟩
  intro h differs isKind'
  exact (frees.others h differs).trans ((kept h isKind').trans (others h differs))

structure Looped (job : RequestJob) (reply : Reply) (s : Requests) (cells : List Cell) (s' : Requests) : Prop where
  ran : Requests.testallLoop job reply s cells =
    some (s', cells.map fun c => c.tested job (s.test job reply c.request),
      cells.any fun c => s.test job reply c.request == .pending)
  unchanged : (∀ c ∈ cells, c.request ≠ job.requestNull → s.test job reply c.request = .pending) → s' = s
  freed : ∀ c ∈ cells, c.request ≠ job.requestNull → s.test job reply c.request ≠ .pending →
    s'.table.find c.request = none
  others : ∀ h, kindOf h = Kind.request.code → (∀ c ∈ cells, c.request ≠ h) → s'.table.find h = s.table.find h

theorem Looped.skip (looped : Looped job reply s cs s')
    (skips : s.finish job c.request (s.test job reply c.request) = some s)
    (stays : c.request = job.requestNull ∨ s.test job reply c.request = .pending) :
    Looped job reply s (c :: cs) s' where
  ran := by simp only [Requests.testallLoop, skips, bind_some, looped.ran, map_some, List.map_cons,
    List.any_cons]
  unchanged := fun pending => looped.unchanged fun d member => pending d (List.mem_cons_of_mem _ member)
  freed := by
    intro d member notNull complete
    rcases List.mem_cons.mp member with rfl | later
    · exact (stays.elim notNull complete).elim
    · exact looped.freed d later notNull complete
  others := fun h isKind apart => looped.others h isKind fun d member => apart d (List.mem_cons_of_mem _ member)

theorem Looped.complete {s₁ : Requests} {status : Option Status} (looped : Looped job reply s₁ cs s')
    (notNull : c.request ≠ job.requestNull) (isKind : kindOf c.request = Kind.request.code)
    (completed : s.test job reply c.request = .completed status)
    (finished : s.finish job c.request (.completed status) = some s₁) (gone : s₁.table.find c.request = none)
    (others : ∀ h, h ≠ c.request → kindOf h = Kind.request.code → s₁.table.find h = s.table.find h)
    (apart : ∀ d ∈ cs, d.request ≠ c.request)
    (sameTest : ∀ d ∈ cs, s₁.test job reply d.request = s.test job reply d.request) :
    Looped job reply s (c :: cs) s' where
  ran := by
    have cells : cs.map (fun d => d.tested job (s₁.test job reply d.request)) =
        cs.map fun d => d.tested job (s.test job reply d.request) :=
      List.map_congr_left fun d member => by rw [sameTest d member]
    have incomplete : (cs.any fun d => s₁.test job reply d.request == .pending) =
        cs.any fun d => s.test job reply d.request == .pending := by
      rw [Bool.eq_iff_iff, List.any_eq_true, List.any_eq_true]
      exact exists_congr fun d => and_congr_right fun member => by rw [sameTest d member]
    simp only [Requests.testallLoop, completed, finished, bind_some, looped.ran, map_some, List.map_cons,
      List.any_cons, cells, incomplete]
  unchanged := fun pending => nomatch (pending c List.mem_cons_self notNull).symm.trans completed
  freed := by
    intro d member dNotNull complete
    rcases List.mem_cons.mp member with rfl | later
    · rw [looped.others _ isKind apart, gone]
    · exact looped.freed d later dNotNull (sameTest d later ▸ complete)
  others := by
    intro h isRequest away
    rw [looped.others h isRequest fun d member => away d (List.mem_cons_of_mem _ member)]
    exact others h (away c List.mem_cons_self).symm isRequest

theorem RequestsSound.looped (sound : RequestsSound job s) {cells : List Cell} (active : s.ActiveArray job cells) :
    ∃ s', Looped job reply s cells s' := by
  induction cells generalizing s with
  | nil => exact ⟨s, rfl, fun _ => rfl, nofun, fun _ _ _ => rfl⟩
  | cons c cs ih =>
    obtain ⟨distinct, distinctTail⟩ := List.pairwise_cons.mp active.2
    have tail : s.ActiveArray job cs := ⟨fun d member => active.1 d (List.mem_cons_of_mem _ member), distinctTail⟩
    by_cases isNull : c.request = job.requestNull
    · obtain ⟨s', looped⟩ := ih sound tail
      exact ⟨s', looped.skip (by simp [isNull, Requests.test_null, Requests.finish]) (.inl isNull)⟩
    obtain ⟨e, found, isKind⟩ := active.1 c List.mem_cons_self isNull
    rcases @RequestsSound.test_cases _ _ reply _ _ sound found isKind with pending | ⟨status, completed⟩
    · obtain ⟨s', looped⟩ := ih sound tail
      exact ⟨s', looped.skip (by rw [pending]; rfl) (.inr pending)⟩
    · obtain ⟨s₁, finished, sound₁, null, posted, gone, others⟩ := sound.finish_completed found isKind status
      have apart : ∀ d ∈ cs, d.request ≠ c.request := fun d member same =>
        (distinct d member).elim isNull (absurd same.symm)
      have kept : ∀ d ∈ cs, d.request ≠ job.requestNull → ∃ e, s.table.find d.request = some e ∧
          s₁.table.find d.request = some e ∧ kindOf d.request = Kind.request.code := by
        intro d member notNull
        obtain ⟨e', found', isKind'⟩ := tail.1 d member notNull
        exact ⟨e', found', (others _ (apart d member) isKind').trans found', isKind'⟩
      have sameTest : ∀ d ∈ cs, s₁.test job reply d.request = s.test job reply d.request := by
        intro d member
        by_cases noRequest : d.request = job.requestNull
        · rw [noRequest, Requests.test_null, Requests.test_null]
        · obtain ⟨e', found', found₁, -⟩ := kept d member noRequest
          exact Requests.test_congr found' found₁ null posted
      have tail₁ : s₁.ActiveArray job cs := by
        refine ⟨fun d member notNull => ?_, distinctTail⟩
        obtain ⟨e', -, found₁, isKind'⟩ := kept d member notNull
        exact ⟨e', found₁, isKind'⟩
      obtain ⟨s', looped⟩ := ih sound₁ tail₁
      exact ⟨s', looped.complete isNull isKind completed finished gone others apart sameTest⟩

/-- A call returns; `AllOrNone` decides whether it leaves the array and the state alone if not all requests are
complete, and if they are, it writes their statuses and frees them. -/
theorem RequestsSound.testall_returns (sound : RequestsSound job s) {cells : List Cell}
    (active : s.ActiveArray job cells) (flag : Bool) :
    ∃ r, s.testall job reply flag cells = some r ∧
      (r.flag = false → (r.cells.map (·.request) = cells.map (·.request) ∧ r.state = s ↔ s.AllOrNone job reply cells)) ∧
      (r.flag = true → s.AllOrNone job reply cells ∧ ∀ (i : Nat) c, cells[i]? = some c → c.request ≠ job.requestNull →
        ∃ status, s.test job reply c.request = .completed status ∧
          r.cells[i]? = some ⟨job.requestNull, c.status.map (Answer.completed status).write⟩ ∧
          r.state.table.find c.request = none) := by
  obtain ⟨s', looped⟩ := @RequestsSound.looped _ _ reply sound _ active
  have complete : ∀ c ∈ cells, c.request ≠ job.requestNull → s.test job reply c.request ≠ .pending →
      ∃ status, s.test job reply c.request = .completed status := by
    intro c member notNull done
    obtain ⟨e, found, isKind⟩ := active.1 c member notNull
    exact (sound.test_cases found isKind).resolve_left done
  refine ⟨_, by rw [Requests.testall, looped.ran]; rfl, ?_⟩
  by_cases incomplete : ∃ c ∈ cells, s.test job reply c.request = .pending
  · have someLeft : (cells.any fun c => s.test job reply c.request == .pending) = true := by
      simpa [List.any_eq_true] using incomplete
    simp only [someLeft, if_true, forall_const, Bool.false_eq_true, false_imp_iff, and_true]
    constructor
    · rintro ⟨sameRequests, -⟩
      refine .inl fun c member notNull => ?_
      by_contra done
      obtain ⟨status, completed⟩ := complete c member notNull done
      rw [List.map_map] at sameRequests
      have same := List.map_inj_left.mp sameRequests c member
      rw [Function.comp_apply, completed] at same
      exact notNull same.symm
    · rintro (pending | done)
      · refine ⟨?_, looped.unchanged pending⟩
        rw [List.map_map]
        refine List.map_congr_left fun c member => ?_
        by_cases isNull : c.request = job.requestNull
        · rw [Function.comp_apply, isNull, Requests.test_null]
          rfl
        · rw [Function.comp_apply, pending c member isNull]
          rfl
      · obtain ⟨c, member, pending⟩ := incomplete
        exact absurd pending (done c member)
  · have done : ∀ c ∈ cells, s.test job reply c.request ≠ .pending := fun c member pending =>
      incomplete ⟨c, member, pending⟩
    have noneLeft : (cells.any fun c => s.test job reply c.request == .pending) = false := by
      simpa [List.any_eq_false] using done
    simp only [noneLeft, Bool.false_eq_true, if_false]
    refine ⟨fun unset => ?_, fun _ => ⟨.inr done, fun i c isCell notNull => ?_⟩⟩
    · have empty : cells = [] := by
        by_contra nonempty
        simp [nonempty] at unset
      subst empty
      exact iff_of_true ⟨rfl, looped.unchanged nofun⟩ (.inl nofun)
    · have member := List.mem_of_getElem? isCell
      obtain ⟨status, completed⟩ := complete c member notNull (done c member)
      refine ⟨status, completed, ?_, looped.freed c member notNull (done c member)⟩
      rw [List.getElem?_map, isCell, map_some, completed]
      rfl

end Call

/-- A call of `PMPI_Testall`, with what the application passes to it and what the lower half replies. Between two
calls the application and MANA do what they like. -/
structure TestallCall where
  state : Requests
  reply : Reply
  flag : Bool
  statuses : Option (Nat → Status)

def TestallCall.cells (call : TestallCall) (requests : List Handle) : List Cell :=
  requests.mapIdx fun i request => { request := request, status := call.statuses.map (· i) }

structure Returned where
  before : List Handle
  call : TestallCall
  result : Tested

def Returned.after (x : Returned) : List Handle := x.result.cells.map (·.request)

def testallUntil (job : RequestJob) : List Handle → List TestallCall → Option (List Returned)
  | _, [] => some []
  | requests, call :: calls =>
    (call.state.testall job call.reply call.flag (call.cells requests)).bind fun result =>
      let returned : Returned := ⟨requests, call, result⟩
      if result.flag then some [returned] else (testallUntil job returned.after calls).map (returned :: ·)

def ValidCalls (job : RequestJob) : List Handle → List TestallCall → Prop
  | _, [] => True
  | requests, call :: calls =>
    Reachable ((requestMachine job).restrict RequestAction.restartable) call.state ∧
    call.state.ActiveArray job (call.cells requests) ∧
    ∀ result, call.state.testall job call.reply call.flag (call.cells requests) = some result → result.flag = false →
      ValidCalls job (result.cells.map (·.request)) calls

namespace Returned

variable (job : RequestJob) (x : Returned)

/-- The call before which all active requests are complete, or none. -/
def AllOrNone : Prop := x.call.state.AllOrNone job x.call.reply (x.call.cells x.before)

/-- A call without the flag leaves the array, the pending log and the table as they were. -/
def Unchanged : Prop := x.result.flag = false → x.after = x.before ∧ x.result.state = x.call.state

/-- A call with the flag writes the statuses of all the requests that were active at first, and completes them. -/
def CompletesAll (requests : List Handle) : Prop :=
  x.result.flag = true → x.before = requests ∧ ∀ (i : Nat) request, requests[i]? = some request →
    request ≠ job.requestNull → ∃ status, x.call.state.test job x.call.reply request = .completed status ∧
      x.result.cells[i]? =
        some ⟨job.requestNull, x.call.statuses.map fun old => (Answer.completed status).write (old i)⟩ ∧
      x.result.state.table.find request = none

end Returned

section Calls

variable {job : RequestJob}

theorem TestallCall.map_cells (call : TestallCall) (requests : List Handle) :
    (call.cells requests).map (·.request) = requests := by
  refine List.ext_getElem? fun i => ?_
  simp [TestallCall.cells, List.getElem?_mapIdx, Function.comp_def]

/-- `MPI_Testall` is all or nothing in a sequence of calls exactly if before each of them all active requests are
complete, or none. -/
theorem testall_all_or_nothing_iff {requests : List Handle} {calls : List TestallCall}
    (valid : ValidCalls job requests calls) :
    ∃ returned, testallUntil job requests calls = some returned ∧
      ((∀ x ∈ returned, x.Unchanged ∧ x.CompletesAll job requests) ↔ ∀ x ∈ returned, x.AllOrNone job) := by
  induction calls generalizing requests with
  | nil => exact ⟨[], rfl, by simp⟩
  | cons call calls ih =>
    obtain ⟨reached, active, later⟩ := valid
    obtain ⟨result, ran, unset, set⟩ :=
      @RequestsSound.testall_returns _ _ call.reply (reachable_requestsSound reached) _ active call.flag
    rw [call.map_cells] at unset
    let first : Returned := ⟨requests, call, result⟩
    by_cases flag : result.flag = true
    · refine ⟨[first], by simp [testallUntil, ran, flag, first], ?_⟩
      obtain ⟨allDone, statuses⟩ := set flag
      have completes : first.CompletesAll job requests := by
        refine fun _ => ⟨rfl, fun i request isRequest notNull => ?_⟩
        have isCell : (call.cells requests)[i]? = some ⟨request, call.statuses.map (· i)⟩ := by
          simp [TestallCall.cells, List.getElem?_mapIdx, isRequest]
        obtain ⟨status, completed, written, freed⟩ := statuses i _ isCell notNull
        exact ⟨status, completed, by rw [written, map_map]; rfl, freed⟩
      simp only [List.mem_singleton, forall_eq]
      exact iff_of_true ⟨fun noFlag => absurd (flag.symm.trans noFlag) nofun, completes⟩ allDone
    · have noFlag : result.flag = false := by simpa using flag
      obtain ⟨returned, ranLater, iffLater⟩ := ih (later result ran noFlag)
      refine ⟨first :: returned, by simp [testallUntil, ran, noFlag, ranLater, first, Returned.after], ?_⟩
      have firstIff : first.Unchanged ↔ first.AllOrNone job := by
        rw [Returned.Unchanged, imp_iff_right noFlag]
        exact unset noFlag
      have completes : first.CompletesAll job requests := fun isSet => nomatch noFlag.symm.trans isSet
      simp only [List.forall_mem_cons, firstIff, completes, and_true]
      -- Once the first call has left the array alone, the later calls are on the same array.
      refine and_congr_right fun allOrNone => ?_
      have same : first.after = requests := ((firstIff.mpr allOrNone) noFlag).1
      rw [← iffLater, show result.cells.map (·.request) = requests from same]

end Calls

def pendingAndServed : Option Requests :=
  ((requestMachine requestJob).restrict RequestAction.restartable).run (.initial requestJob (startedAt 0))
    [.post recvCall 11, .serve ⟨1, 3, 0, 4⟩]

theorem pendingAndServed_reached {s : Requests} (ran : pendingAndServed = some s) :
    Reachable ((requestMachine requestJob).restrict RequestAction.restartable) s := by
  have first : ((requestMachine requestJob).restrict RequestAction.restartable).initial (.initial requestJob (startedAt 0)) :=
    ⟨_, startedAt_hosts_requests 0, rfl⟩
  exact (Reachable.start first).run ran

/-- The two in an array. -/
theorem testall_all_or_nothing_iff_served :
    ∃ call : TestallCall, pendingAndServed = some call.state ∧ ValidCalls requestJob [0x50000002, 0x50000003] [call] ∧
      ∃ returned, testallUntil requestJob [0x50000002, 0x50000003] [call] = some returned ∧
        ((∀ x ∈ returned, x.Unchanged ∧ x.CompletesAll requestJob [0x50000002, 0x50000003]) ↔
          ∀ x ∈ returned, x.AllOrNone requestJob) := by
  have ran : pendingAndServed.map (fun s => ((s.table.find 0x50000002).isSome, (s.table.find 0x50000003).isSome)) =
      some (true, true) := by decide +kernel
  obtain ⟨s, ran, ends⟩ := map_eq_some_iff.mp ran
  simp only [Prod.mk.injEq] at ends
  obtain ⟨e, isFirst⟩ := isSome_iff_exists.mp ends.1
  obtain ⟨f, isSecond⟩ := isSome_iff_exists.mp ends.2
  let call : TestallCall := ⟨s, fun _ => some ⟨1, 3, 0, 4⟩, false, none⟩
  have cells : call.cells [0x50000002, 0x50000003] = [⟨0x50000002, none⟩, ⟨0x50000003, none⟩] := rfl
  have active : s.ActiveArray requestJob (call.cells [0x50000002, 0x50000003]) := by
    rw [cells]
    refine ⟨?_, by decide⟩
    rintro c member -
    rcases List.mem_pair.mp member with rfl | rfl
    · exact ⟨e, isFirst, by decide⟩
    · exact ⟨f, isSecond, by decide⟩
  have valid : ValidCalls requestJob [0x50000002, 0x50000003] [call] :=
    ⟨pendingAndServed_reached ran, active, fun _ _ _ => trivial⟩
  exact ⟨call, ran, valid, testall_all_or_nothing_iff valid⟩

/-- Only the served one is complete at the call: it is freed although the call returns without the flag. -/
theorem testall_frees_one_of_two :
    pendingAndServed.bind (fun s => (s.testall requestJob (fun _ => none) true
        [⟨0x50000002, none⟩, ⟨0x50000003, none⟩]).map fun r =>
      (r.flag, r.cells.map (·.request), (s.table.find 0x50000003).isSome, (r.state.table.find 0x50000003).isSome)) =
      some (false, [0x50000002, 0x2c000000], true, false) := by
  decide +kernel

end Mana.VirtId
