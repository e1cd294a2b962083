import Mana.P2p.Drain

/-! What one step can do, by cases. The invariants are proved from these. -/

namespace Mana.P2p
open Mana.Lib Mana.Collective Option Function

variable {n : Nat}

inductive RecvMove (p : Proc n) : Proc n → Prop where
  | sendReturn (here : p.app = .sendBlocked) : RecvMove p { p with app := .out }
  | retry (r : PendingRecv n) (here : p.app = .recvRetry r) : RecvMove p { p with app := .recvPassed r }
  | enter (r : PendingRecv n) (here : p.app = .recvPassed r) (opened : p.closed = false) :
      RecvMove p { p with app := .recvIn r }
  | consume (r : PendingRecv n) (k : Nat) (here : p.app = .recvIn r) :
      RecvMove p { p with queue := p.queue.eraseIdx k, app := .recvDone }
  | look (r : PendingRecv n) (here : p.app = .recvIn r) : RecvMove p { p with app := .recvLooked r }
  | publish (r : PendingRecv n) (here : p.app = .recvLooked r) (idle : p.slot = .idle) :
      RecvMove p { p with pending := r, slot := .active, app := .recvActive r }
  | refuse (r : PendingRecv n) (here : p.app = .recvLooked r) (busy : p.slot ≠ .idle) :
      RecvMove p { p with pending := r, app := .recvClosed r }
  | beginBlocking (r : PendingRecv n) (here : p.app = .recvActive r) : RecvMove p { p with app := .recvEntering r }
  | block (r : PendingRecv n) (here : p.app = .recvEntering r) :
      RecvMove p { p with app := .recvBlocked r p.postings, postings := p.postings + 1 }
  | readDummy (r : PendingRecv n) (m : Msg n) (here : p.app = .recvReturned r m) (phase : p.dummyPhase = true) :
      RecvMove p { p with app := .recvDummy r m }
  | readReal (r : PendingRecv n) (m : Msg n) (here : p.app = .recvReturned r m) (phase : p.dummyPhase = false) :
      RecvMove p { p with app := .recvReal r m }
  | discard (r : PendingRecv n) (m : Msg n) (here : p.app = .recvDummy r m) :
      RecvMove p { p with slot := .closed, discarded := p.discarded ++ [m], app := .recvClosed r }
  | reopen (r : PendingRecv n) (m : Msg n) (here : p.app = .recvReal r m) :
      RecvMove p { p with slot := .idle, app := .recvIdle r m }
  | countNull (r : PendingRecv n) (m : Msg n) (here : p.app = .recvIdle r m) (null : r.source = .procNull) :
      RecvMove p { p with app := .recvDone }
  | count (r : PendingRecv n) (m : Msg n) (here : p.app = .recvIdle r m) :
      RecvMove p { (p.countReceived (some m)) with app := .recvDone }
  | leave (here : p.app = .recvDone) : RecvMove p { p with app := .out }
  | leaveClosed (r : PendingRecv n) (here : p.app = .recvClosed r) : RecvMove p { p with app := .recvWait r }
  | again (r : PendingRecv n) (here : p.app = .recvWait r) : RecvMove p { p with app := .recvRetry r }

variable {p q : Proc n} {id i : Nat} {cfg : Config n} {me : Fin n} {o : Option (Post n)} {a : CkptAct n} {db : Db n}

theorem Proc.recvNext_move (taken : p.recvNext = some q) : RecvMove p q := by
  unfold Proc.recvNext at taken
  split at taken
  case h_1 => cases taken
  case h_3 r here =>
    split at taken
    · cases taken
    · cases taken
      exact .retry r here
  case h_4 r here =>
    split at taken
    · cases taken
    · next opened =>
      cases taken
      exact .enter r here (by simpa using opened)
  case h_5 r here =>
    split at taken
    · cases taken
      exact .consume r _ here
    · cases taken
      exact .look r here
  case h_6 r here =>
    split at taken
    · next idle =>
      cases taken
      exact .publish r here idle
    · next busy =>
      cases taken
      exact .refuse r here busy
  case h_9 => cases taken
  case h_10 r m here =>
    by_cases phase : p.dummyPhase = true
    · rw [if_pos phase] at taken
      cases taken
      exact .readDummy r m here phase
    · rw [if_neg phase] at taken
      cases taken
      exact .readReal r m here (by simpa using phase)
  case h_13 r m here =>
    cases taken
    split
    · next null => exact .countNull r m here null
    · exact .count r m here
  case h_16 r here =>
    split at taken
    · cases taken
      exact .again r here
    · cases taken
  case h_14 here =>
    cases taken
    exact .leave here
  case h_2 here | h_7 r here | h_8 r here | h_11 r m here | h_12 r m here | h_15 r here =>
    cases taken
    constructor
    exact here

inductive AppMove (me : Fin n) (p : Proc n) : Proc n → Option (Post n) → Prop where
  | isend (type : ReqType) (comm : Gid) (dest : Source n) (tag : Nat) (enters : p.mayEnter = true)
      (sends : type ≠ .irecv) (known : dest ≠ .any) :
      AppMove me p ((p.countSent dest).addRequest type { comm := comm, source := dest, tag := some tag })
        (Proc.outgoing me comm dest tag)
  | fromQueue (k : Nat) (enters : p.mayEnter = true) :
      AppMove me p
        { p with queue := p.queue.eraseIdx k, completed := p.completed ++ [p.nextId], nextId := p.nextId + 1 } none
  | irecv (pattern : Pattern n) (enters : p.mayEnter = true) : AppMove me p (p.addRequest .irecv pattern) none
  | forget (id : Nat) (enters : p.mayEnter = true) : AppMove me p { p with completed := p.completed.erase id } none
  | test (i : Nat) (q : Req n) (enters : p.mayEnter = true) (entry : p.log[i]? = some q) (flag : q.flag = true)
      (uncounted : q.isCountedIrecv = false) : AppMove me p (p.clear i) none
  | testCounted (i : Nat) (q : Req n) (enters : p.mayEnter = true) (entry : p.log[i]? = some q) (flag : q.flag = true)
      (counts : q.isCountedIrecv = true) : AppMove me p ((p.countReceived q.real.message).clear i) none
  | free (comm : Gid) (enters : p.mayEnter = true) : AppMove me p { p with freed := comm :: p.freed } none
  | send (comm : Gid) (dest : Source n) (tag : Nat) (enters : p.mayEnter = true) (known : dest ≠ .any) :
      AppMove me p { (p.countSent dest) with app := .sendBlocked } (Proc.outgoing me comm dest tag)
  | recv (r : PendingRecv n) (here : p.app = .out) (known : r.source ≠ .procNull) :
      AppMove me p { p with app := .recvRetry r } none
  | next {q : Proc n} (awake : p.ckpt.suspends = false) (moved : RecvMove p q) : AppMove me p q none

theorem Proc.pendingCall_entry {q : Req n} (found : p.pendingCall id = some (i, q)) : p.log[i]? = some q := by
  simp only [Proc.pendingCall, bind_eq_some_iff, map_eq_some_iff, Prod.mk.injEq] at found
  obtain ⟨j, -, q', entry, rfl, rfl⟩ := found
  exact entry

theorem Proc.pendingCall_id {q : Req n} (found : p.pendingCall id = some (i, q)) : q.id = id := by
  have entry := Proc.pendingCall_entry found
  simp only [Proc.pendingCall, bind_eq_some_iff, map_eq_some_iff, Prod.mk.injEq] at found
  obtain ⟨j, first, q', -, rfl, -⟩ := found
  obtain ⟨inside, matches_, -⟩ := List.findIdx?_eq_some_iff_getElem.mp first
  obtain ⟨_, rfl⟩ := List.getElem?_eq_some_iff.mp entry
  simpa using matches_

theorem Proc.appStep_move {a : AppAct n} (taken : p.appStep cfg me a = some (q, o)) : AppMove me p q o := by
  cases a with
  | isend synchronous comm dest tag =>
    simp only [Proc.appStep, ite_none_right_eq_some, some.injEq, Prod.mk.injEq] at taken
    obtain ⟨⟨enters, -, known⟩, rfl, rfl⟩ := taken
    refine .isend _ comm dest tag enters ?_ known
    split <;> simp
  | irecv pattern =>
    simp only [Proc.appStep, ite_none_right_eq_some, some.injEq, Prod.mk.injEq] at taken
    obtain ⟨⟨enters, -⟩, rfl, rfl⟩ := taken
    unfold Proc.irecv
    split
    · exact .fromQueue _ enters
    · exact .irecv pattern enters
  | test id =>
    simp only [Proc.appStep, ite_none_right_eq_some, map_eq_some_iff, Prod.mk.injEq] at taken
    obtain ⟨enters, q', tested, rfl, rfl⟩ := taken
    unfold Proc.testRequest at tested
    split at tested
    · cases tested
      exact .forget id enters
    · split at tested
      · cases tested
      · next i q found =>
        simp only [ite_none_right_eq_some, some.injEq] at tested
        obtain ⟨flag, rfl⟩ := tested
        split
        · next counts => exact .testCounted i q enters (Proc.pendingCall_entry found) flag counts
        · next uncounted => exact .test i q enters (Proc.pendingCall_entry found) flag (by simpa using uncounted)
  | free comm =>
    simp only [Proc.appStep, ite_none_right_eq_some, some.injEq, Prod.mk.injEq] at taken
    obtain ⟨enters, rfl, rfl⟩ := taken
    exact .free comm enters
  | send comm dest tag =>
    simp only [Proc.appStep, ite_none_right_eq_some, some.injEq, Prod.mk.injEq] at taken
    obtain ⟨⟨-, enters, -, known⟩, rfl, rfl⟩ := taken
    exact .send comm dest tag enters known
  | recv r =>
    simp only [Proc.appStep, ite_none_right_eq_some, some.injEq, Prod.mk.injEq] at taken
    obtain ⟨⟨-, here, -, known⟩, rfl, rfl⟩ := taken
    exact .recv r here known
  | next =>
    simp only [Proc.appStep, ite_none_left_eq_some, map_eq_some_iff, Prod.mk.injEq] at taken
    obtain ⟨awake, q', moved, rfl, rfl⟩ := taken
    exact .next (by simpa using awake) (Proc.recvNext_move moved)

/-- `publishSsendNotices` changes an entry of the log at most from `MPI_Issend` to `MPI_Isend`. -/
structure SameReq (q q' : Req n) : Prop where
  id : q'.id = q.id
  pattern : q'.pattern = q.pattern
  real : q'.real = q.real
  isSend : q'.isSend = q.isSend

def Renotes (p q : Proc n) : Prop :=
  ∃ (f : Req n → Req n) (notices : List (SsendNotice n)) (tag : Nat), (∀ q, SameReq q (f q)) ∧
    q = { p with log := p.log.map f, ssendNotices := notices, nextAckTag := tag }

theorem Renotes.refl (p : Proc n) : Renotes p p :=
  ⟨id, p.ssendNotices, p.nextAckTag, fun _ => ⟨rfl, rfl, rfl, rfl⟩, by rw [List.map_id]⟩

theorem Renotes.trans {r : Proc n} (first : Renotes p q) (second : Renotes q r) : Renotes p r := by
  obtain ⟨f, _, _, same, rfl⟩ := first
  obtain ⟨g, notices, tag, same', rfl⟩ := second
  refine ⟨g ∘ f, notices, tag, fun q => ⟨?_, ?_, ?_, ?_⟩, by simp⟩
  · exact (same' _).id.trans (same q).id
  · exact (same' _).pattern.trans (same q).pattern
  · exact (same' _).real.trans (same q).real
  · exact (same' _).isSend.trans (same q).isSend

theorem Proc.announce_renotes (p : Proc n) (q : Req n) : Renotes p (p.announce q) := by
  unfold Proc.announce
  split
  · next isIssend receiver =>
    split
    · refine ⟨fun q' => if q' = q then { q with type := .isend } else q', _, _, fun q' => ?_, rfl⟩
      by_cases this : q' = q
      · simp only [this, if_true]
        exact ⟨rfl, rfl, rfl, by simp only [Req.isSend, isIssend]; decide⟩
      · simp only [this, if_false]
        exact ⟨rfl, rfl, rfl, rfl⟩
    · exact ⟨id, _, _, fun _ => ⟨rfl, rfl, rfl, rfl⟩, by rw [List.map_id]⟩
  · exact .refl p

theorem Proc.publishSsendNotices_renotes (p : Proc n) : Renotes p p.publishSsendNotices := by
  unfold Proc.publishSsendNotices
  have first : Renotes p { p with ssendNotices := [] } :=
    ⟨id, [], p.nextAckTag, fun _ => ⟨rfl, rfl, rfl, rfl⟩, by rw [List.map_id]⟩
  generalize { p with ssendNotices := [] } = start at first
  induction p.log generalizing start with
  | nil => exact first
  | cons q rest ih => exact ih _ (first.trans (start.announce_renotes q))

/-- What `completePendingP2pRequests` does with a complete request: it counts the message, or not,
and takes the request from the log, or the request becomes the receive of an ack. -/
inductive Completes (p : Proc n) (i : Nat) (q : Req n) : Proc n → Prop where
  | received (irecv : q.type = .irecv) (real : q.pattern.source ≠ .procNull) :
      Completes p i q (((p.countReceived q.real.message).clear i).completeRequest q.id)
  | done (unread : q.isSend = true ∨ q.pattern.source = .procNull) :
      Completes p i q ((p.clear i).completeRequest q.id)
  | ack (issend : q.type = .issend) (pattern : Pattern n) (real : pattern.source ≠ .procNull) :
      Completes p i q
        { p with log := p.log.set i ⟨q.id, .irecv, pattern, .active, p.postings⟩, postings := p.postings + 1 }

theorem Proc.completePending_completes {p' : Proc n} {q : Req n} (completed : p.completePending cfg i q = some p') :
    Completes p i q p' := by
  unfold Proc.completePending at completed
  split at completed
  · next irecv =>
    cases completed
    split
    · next null => exact .done (.inr null)
    · next real => exact .received irecv real
  · next issend =>
    obtain ⟨notice, -, rfl⟩ := map_eq_some_iff.mp completed
    exact .ack issend _ (by simp)
  · next isend =>
    cases completed
    exact .done (.inl (by simp [Req.isSend, isend]))

inductive CkptMove (cfg : Config n) (p : Proc n) : Proc n → Prop where
  | collective (here : p.ckpt = .running) : CkptMove cfg p ({ p with manaState := .ckptCollective }.goto .collective)
  | close (here : p.ckpt = .collective) : CkptMove cfg p ({ p with closed := true }.goto .closing)
  | wait (here : p.ckpt = .closing) (left : p.app.outside = true ∨ p.app.inBlockingCall = true) :
      CkptMove cfg p (p.goto .drainBarrier)
  | p2pStart (here : p.ckpt = .p2pStart) : CkptMove cfg p ({ p with manaState := .ckptP2p }.goto .closeSlot)
  | closeSlot (here : p.ckpt = .closeSlot) : CkptMove cfg p ({ p with slot := p.slot.closeIdle }.goto .notices)
  | notices (here : p.ckpt = .notices) (f : Req n → Req n) (notices : List (SsendNotice n)) (tag : Nat)
      (same : ∀ q, SameReq q (f q)) :
      CkptMove cfg p ({ p with log := p.log.map f, ssendNotices := notices, nextAckTag := tag }.goto
        (if cfg.drainHasNoBarrier then .pass else .regSent))
  | pass (here : p.ckpt = .pass) :
      CkptMove cfg p ((p.setLocals fun l =>
        { l with iterations := l.iterations + 1, dummyPass := (Proc.passTurn p.locals.dummyPass).2 }).goto
          (Proc.passTurn p.locals.dummyPass).1)
  | polled (here : p.ckpt = .complete) (nbcs dummies : Nat) (noBarrier : cfg.drainHasNoBarrier = true) :
      CkptMove cfg p ((p.setLocals fun l => { l with nbcs := nbcs, dummies := dummies }).goto .probe)
  | completed (here : p.ckpt = .complete) (barrier : cfg.drainHasNoBarrier = false) : CkptMove cfg p (p.goto .probe)
  | probe (here : p.ckpt = .probe) (m : Msg n) : CkptMove cfg p ({ p with status := some m.env }.goto .matchLog)
  | matched (here : p.ckpt = .matchLog) (env : Envelope n) (q : Req n) (entry : q ∈ p.log) (irecv : q.type = .irecv)
      (accepts : q.pattern.accepts env = true) : CkptMove cfg p (p.goto (.await q.id))
  | unmatched (here : p.ckpt = .matchLog) : CkptMove cfg p (p.goto .readSlot)
  | leaveToRecv (here : p.ckpt = .readSlot) : CkptMove cfg p (p.goto .probe)
  | unpublished (here : p.ckpt = .readSlot) (env : Envelope n) (status : p.status = some env)
      (free : p.pendingRecvMatches env = false) : CkptMove cfg p (p.goto .buffer)
  | buffer (here : p.ckpt = .buffer) (k : Nat) (m : Msg n) (entry : p.inbox[k]? = some m)
      (status : p.status = some m.env) : CkptMove cfg p ((p.recvMsgIntoInternalBuffer k m).goto .probe)
  | probed (here : p.ckpt = .probe) :
      CkptMove cfg p (p.goto (if cfg.drainHasNoBarrier then .sampleRecv else .regSent))
  | await (id : Nat) (here : p.ckpt = .await id) (i : Nat) (q : Req n) (entry : p.log[i]? = some q)
      (named : q.id = id) (flag : q.flag = true) :
      CkptMove cfg p ((((p.countReceived q.real.message).clear i).completeRequest q.id).goto .probe)
  | sampleRecv (here : p.ckpt = .sampleRecv) :
      CkptMove cfg p ((p.setLocals fun l => { l with recv := p.recv }).goto .sampleSlot)
  | sampleSlot (here : p.ckpt = .sampleSlot) :
      CkptMove cfg p ((p.setLocals fun l => { l with inRecv := p.slot == SlotState.active }).goto .contribute)
  | contribute (here : p.ckpt = .contribute) :
      CkptMove cfg p ((p.setLocals fun l =>
        { l with contribution :=
          { sent := p.sent, recv := l.recv, isends := p.pendingIsends, nbcs := l.nbcs,
            inRecv := l.inRecv.toNat, dummies := l.dummies, notices := p.ssendNotices.length } }).goto .reduce)
  | finish (here : p.ckpt = .verdict) (ends : p.locals.sums.over = true) : CkptMove cfg p (p.goto .doneWait)
  | iterate (here : p.ckpt = .verdict) (more : p.locals.sums.over = false) :
      CkptMove cfg p ((p.setLocals fun l => { l with dummyPass := l.nextPass }).goto .pass)
  | again (here : p.ckpt = .decideRound) (more : p.locals.globalRecv < p.locals.globalSent) :
      CkptMove cfg p ((p.setLocals fun l => { l with iterations := l.iterations + 1 }).goto .complete)
  | leaveRounds (here : p.ckpt = .decideRound) (enough : p.locals.globalSent ≤ p.locals.globalRecv) :
      CkptMove cfg p (p.goto .isends)
  | noIsends (here : p.ckpt = .isends) (none : p.log.any Req.isSend = false) : CkptMove cfg p (p.goto .casSlot)
  | casSlot (here : p.ckpt = .casSlot) :
      CkptMove cfg p (({ p with slot := p.slot.closeIdle }.setLocals fun l =>
        { l with blocked := p.slot == SlotState.active }).goto .publish)
  | setPhase (here : p.ckpt = .setPhase) : CkptMove cfg p ({ p with dummyPhase := true }.endPass cfg 2 .publishedBarrier)
  | drained (here : p.ckpt = .drained) (outside : p.app.outside = true) : CkptMove cfg p (p.goto .suspendBarrier)
  | allow (here : p.ckpt = .suspended) : CkptMove cfg p ({ p with closed := false }.goto .resumePhase)
  | resetPhase (here : p.ckpt = .resumePhase) : CkptMove cfg p ({ p with dummyPhase := false }.goto .resumeSlot)
  | resetSlot (here : p.ckpt = .resumeSlot) : CkptMove cfg p ({ p with slot := .idle }.goto .acks)
  | resume (here : p.ckpt = .acks) : CkptMove cfg p ({ p with manaState := .running }.goto .running)
  | test (here : p.ckpt = .complete ∨ p.ckpt = .reduce ∨ p.ckpt = .isends) (i : Nat) (q : Req n) {p' : Proc n}
      (entry : p.log[i]? = some q) (flag : q.flag = true) (completes : Completes p i q p') : CkptMove cfg p p'

theorem Proc.ckptLocal_move (taken : p.ckptLocal cfg a = some q) : CkptMove cfg p q := by
  unfold Proc.ckptLocal at taken
  split at taken
  case h_3 here =>
    simp only [ite_none_right_eq_some, some.injEq] at taken
    obtain ⟨left, rfl⟩ := taken
    exact .wait here (left.imp_right And.right)
  case h_6 here =>
    cases taken
    obtain ⟨f, notices, tag, same, renoted⟩ := p.publishSsendNotices_renotes
    rw [renoted]
    exact .notices here f notices tag same
  case h_8 here | h_9 here =>
    obtain ⟨⟨i, q'⟩, found, completed⟩ := bind_eq_some_iff.mp taken
    simp only [ite_none_right_eq_some] at completed
    exact .test (by simp [here]) i q' (Proc.pendingCall_entry found) completed.1
      (Proc.completePending_completes completed.2)
  case h_10 here =>
    simp only [ite_none_right_eq_some, some.injEq] at taken
    obtain ⟨noBarrier, rfl⟩ := taken
    exact .polled here _ _ noBarrier
  case h_11 here =>
    simp only [ite_none_left_eq_some, some.injEq] at taken
    obtain ⟨barrier, rfl⟩ := taken
    exact .completed here (by simpa using barrier)
  case h_12 here =>
    obtain ⟨m, -, rfl⟩ := map_eq_some_iff.mp taken
    exact .probe here m
  case h_13 here =>
    obtain ⟨env, -, rfl⟩ := map_eq_some_iff.mp taken
    unfold Proc.matchPending
    split
    · next q found =>
      have accepted := List.find?_some found
      simp only [Bool.and_eq_true, beq_iff_eq] at accepted
      exact .matched here env q (List.mem_of_find?_eq_some found) accepted.1 accepted.2
    · exact .unmatched here
  case h_14 here =>
    obtain ⟨env, status, rfl⟩ := map_eq_some_iff.mp taken
    split
    · exact .leaveToRecv here
    · next free => exact .unpublished here env status (by simpa using free)
  case h_15 here =>
    obtain ⟨m, entry, received⟩ := bind_eq_some_iff.mp taken
    simp only [ite_none_right_eq_some, some.injEq] at received
    obtain ⟨status, rfl⟩ := received
    exact .buffer here _ m entry status
  case h_17 here =>
    obtain ⟨⟨i, q'⟩, found, completed⟩ := bind_eq_some_iff.mp taken
    simp only [ite_none_right_eq_some, some.injEq] at completed
    obtain ⟨flag, rfl⟩ := completed
    exact .await _ here i q' (Proc.pendingCall_entry found) (Proc.pendingCall_id found) flag
  case h_21 here =>
    cases taken
    unfold Proc.verdict
    split
    · next ends => exact .finish here ends
    · next more => exact .iterate here (by simpa using more)
  case h_22 here =>
    split at taken
    · next more =>
      cases taken
      exact .again here more
    · next enough =>
      cases taken
      exact .leaveRounds here (by omega)
  case h_23 here =>
    obtain ⟨⟨i, q'⟩, found, completed⟩ := bind_eq_some_iff.mp taken
    simp only [ite_none_right_eq_some] at completed
    exact .test (by simp [here]) i q' (Proc.pendingCall_entry found) completed.1.1
      (Proc.completePending_completes completed.2)
  case h_24 here =>
    simp only [ite_none_left_eq_some, some.injEq] at taken
    obtain ⟨none, rfl⟩ := taken
    exact .noIsends here (by simpa using none)
  case h_27 here =>
    simp only [ite_none_right_eq_some, some.injEq] at taken
    obtain ⟨outside, rfl⟩ := taken
    exact .drained here outside
  case h_1 here | h_2 here | h_4 here | h_5 here | h_7 here | h_16 here | h_18 here | h_19 here | h_20 here
    | h_25 here | h_26 here | h_28 here | h_29 here | h_30 here | h_31 here =>
    cases taken
    constructor
    exact here
  case h_32 => cases taken

inductive DbMove (cfg : Config n) (me : Fin n) (db : Db n) (p : Proc n) : Proc n → Db n → Prop where
  | regSent (here : p.ckpt = .regSent) :
      DbMove cfg me db p (p.goto .regRecv)
        { db with sent := update db.sent p.locals.round (db.sent p.locals.round + p.sent) }
  | regRecv (here : p.ckpt = .regRecv) :
      DbMove cfg me db p (p.goto .regBarrier)
        { db with recv := update db.recv p.locals.round (db.recv p.locals.round + p.recv) }
  | getSent (here : p.ckpt = .getSent) :
      DbMove cfg me db p ((p.setLocals fun l => { l with globalSent := db.sent l.round }).goto .getRecv) db
  | getRecv (here : p.ckpt = .getRecv) :
      DbMove cfg me db p
        ((p.setLocals fun l => { l with globalRecv := db.recv l.round, round := l.round + 1 }).goto .decideRound) db
  | publish (here : p.ckpt = .publish) :
      DbMove cfg me db p (p.goto .setPhase)
        { db with blocked := update db.blocked me (db.blocked me || p.locals.blocked) }
  | post (here : p.ckpt = .post) (blocked : p.locals.blocked = true) (sender : Fin n) (d : PostedDummy n)
      (made : postDummy cfg.members db.blocked me p.pending = some (sender, d)) :
      DbMove cfg me db p ({ p with posted := p.posted + 1 }.endPass cfg 3 .postedBarrier)
        { db with dummies := update db.dummies sender (db.dummies sender ++ [d]) }
  | noPost (here : p.ckpt = .post) (unblocked : p.locals.blocked = false) :
      DbMove cfg me db p (p.endPass cfg 3 .postedBarrier) db

theorem Proc.ckptDb_move {db' : Db n} (taken : p.ckptDb cfg me db = some (q, db')) : DbMove cfg me db p q db' := by
  simp only [Proc.ckptDb] at taken
  split at taken
  case h_1 here | h_2 here | h_3 here | h_4 here | h_5 here =>
    cases taken
    constructor
    exact here
  case h_6 here =>
    split at taken
    · next blocked =>
      obtain ⟨⟨sender, d⟩, made, same⟩ := map_eq_some_iff.mp taken
      simp only [Prod.mk.injEq] at same
      obtain ⟨rfl, rfl⟩ := same
      exact .post here blocked sender d made
    · next unblocked =>
      cases taken
      exact .noPost here (by simpa using unblocked)
  case h_7 => cases taken

inductive SendMove (cfg : Config n) (me : Fin n) (db : Db n) (p : Proc n) : Proc n → Option (Post n) → Prop where
  | send (here : p.ckpt = .send) (d : PostedDummy n) (record : (db.dummies me)[p.locals.dispatched]? = some d) :
      SendMove cfg me db p (p.setLocals fun l => { l with dispatched := l.dispatched + 1 })
        (some { dest := d.dest, env := d.envelope me, dummy := true })
  | sent (here : p.ckpt = .send) (all : (db.dummies me).length ≤ p.locals.dispatched) :
      SendMove cfg me db p (p.endPass cfg 4 .sentBarrier) none
  | ack (here : p.ckpt = .acks) (dest : Fin n) (tag : Nat) :
      SendMove cfg me db p { p with sent := p.sent + 1 }
        (some { dest := dest, env := { comm := cfg.ackComm, source := me, tag := tag }, dummy := false })

theorem Proc.ckptSend_move (taken : p.ckptSend cfg me db a = some (q, o)) : SendMove cfg me db p q o := by
  unfold Proc.ckptSend at taken
  split at taken
  · split at taken
    · next here =>
      split at taken
      · next d record =>
        cases taken
        exact .send here d record
      · next none =>
        cases taken
        exact .sent here (List.getElem?_eq_none_iff.mp none)
    · cases taken
  · next dest tag =>
    simp only [ite_none_right_eq_some, some.injEq, Prod.mk.injEq] at taken
    obtain ⟨here, rfl, rfl⟩ := taken
    exact .ack here dest tag
  · cases taken

inductive LowerMove (p : Proc n) : LowerAct → Proc n → Prop where
  | take (k i : Nat) (m : Msg n) (q : Req n) (message : p.inbox[k]? = some m) (entry : p.log[i]? = some q)
      (irecv : q.type = .irecv) (active : q.real = .active) (accepts : q.pattern.accepts m.env = true) :
      LowerMove p (.take k i) { p with inbox := p.inbox.eraseIdx k, log := p.log.set i { q with real := .got m } }
  | takeRecv (k : Nat) (m : Msg n) (r : PendingRecv n) (posted : Nat) (message : p.inbox[k]? = some m)
      (here : p.app = .recvBlocked r posted) (accepts : r.accepts m.env = true) :
      LowerMove p (.takeRecv k) { p with inbox := p.inbox.eraseIdx k, app := .recvReturned r m }
  | finish (i : Nat) (q : Req n) (entry : p.log[i]? = some q) (active : q.real = .active)
      (free : q.isSend = true ∨ q.pattern.source = .procNull) :
      LowerMove p (.finish i) { p with log := p.log.set i { q with real := .complete } }

theorem Proc.lowerStep_move {a : LowerAct} (taken : p.lowerStep a = some q) : LowerMove p a q := by
  cases a with
  | take k i =>
    simp only [Proc.lowerStep] at taken
    split at taken
    · next m q' message entry =>
      simp only [ite_none_right_eq_some, some.injEq] at taken
      obtain ⟨⟨irecv, active, accepts⟩, rfl⟩ := taken
      exact .take k i m q' message entry irecv active accepts
    · cases taken
  | takeRecv k =>
    simp only [Proc.lowerStep] at taken
    split at taken
    · next m r posted message here =>
      simp only [ite_none_right_eq_some, some.injEq] at taken
      obtain ⟨accepts, rfl⟩ := taken
      exact .takeRecv k m r posted message here accepts
    · cases taken
  | finish i =>
    simp only [Proc.lowerStep] at taken
    split at taken
    · next q' entry =>
      simp only [ite_none_right_eq_some, some.injEq] at taken
      obtain ⟨⟨active, free⟩, rfl⟩ := taken
      exact .finish i q' entry active free
    · cases taken

inductive Move (cfg : Config n) (s : State n) : Action n → State n → Prop where
  | app (r : Fin n) (a : AppAct n) {q : Proc n} {o : Option (Post n)} (moved : AppMove r (s.proc r) q o) :
      Move cfg s (.app r a) ((s.setProc r q).deliver o)
  | ckpt (r : Fin n) (a : CkptAct n) {q : Proc n} (moved : CkptMove cfg (s.proc r) q) :
      Move cfg s (.ckpt r a) (s.setProc r q)
  | db (r : Fin n) {q : Proc n} {db : Db n} (moved : DbMove cfg r s.db (s.proc r) q db) :
      Move cfg s (.ckptDb r) { (s.setProc r q) with db := db }
  | send (r : Fin n) (a : CkptAct n) {q : Proc n} {o : Option (Post n)} (moved : SendMove cfg r s.db (s.proc r) q o) :
      Move cfg s (.ckptSend r a) ((s.setProc r q).deliver o)
  | lower (r : Fin n) (a : LowerAct) {q : Proc n} (moved : LowerMove (s.proc r) a q) :
      Move cfg s (.lower r a) (s.setProc r q)
  | release (sync : Sync) (all : ∀ q, (s.proc q).ckpt.waitsAt = some sync) :
      Move cfg s (.release sync)
        { proc := fun q => (s.proc q).released s.sums sync
          db := if sync = .suspend then .empty else s.db }

theorem step_move {s t : State n} {a : Action n} (taken : (machine cfg).step s a = some t) : Move cfg s a t := by
  simp only [machine] at taken
  cases a with
  | app r a =>
    obtain ⟨⟨q, o⟩, moved, rfl⟩ := map_eq_some_iff.mp taken
    exact .app r a (Proc.appStep_move moved)
  | ckpt r a =>
    obtain ⟨q, moved, rfl⟩ := map_eq_some_iff.mp taken
    exact .ckpt r a (Proc.ckptLocal_move moved)
  | ckptDb r =>
    obtain ⟨⟨q, db⟩, moved, rfl⟩ := map_eq_some_iff.mp taken
    exact .db r (Proc.ckptDb_move moved)
  | ckptSend r a =>
    obtain ⟨⟨q, o⟩, moved, rfl⟩ := map_eq_some_iff.mp taken
    exact .send r a (Proc.ckptSend_move moved)
  | lower r a =>
    obtain ⟨q, moved, rfl⟩ := map_eq_some_iff.mp taken
    exact .lower r a (Proc.lowerStep_move moved)
  | release sync =>
    simp only [State.step, ite_none_right_eq_some, some.injEq] at taken
    obtain ⟨all, rfl⟩ := taken
    exact .release sync all

end Mana.P2p
