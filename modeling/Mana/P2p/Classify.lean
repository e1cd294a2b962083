import Mana.P2p.Count

/-! What each rank takes for a dummy and for a message of the application, and how far its
dummy step is. -/

namespace Mana.P2p
open Mana.Lib Mana.Collective Option

variable {n : Nat}

def AppPc.Classified : AppPc n → Prop
  | .recvReal _ m | .recvIdle _ m => m.dummy = false
  | .recvDummy _ m => m.dummy = true
  | _ => True

structure Proc.Classified (p : Proc n) : Prop where
  counted : ∀ m ∈ p.counted, m.dummy = false
  discarded : ∀ m ∈ p.discarded, m.dummy = true
  requests : ∀ r ∈ p.log, ∀ m ∈ r.real.message, m.dummy = false
  queued : ∀ m ∈ p.queue, m.dummy = false
  buffered : ∀ m ∈ p.queue, m ∈ p.counted
  read : p.app.Classified

section Classified
variable {cfg : Config n} {db : Db n} {p q : Proc n}

theorem Proc.Classified.congr (classified : p.Classified) (counted : q.counted = p.counted)
    (discarded : q.discarded = p.discarded) (log : q.log = p.log) (queue : q.queue = p.queue)
    (read : q.app.Classified) : q.Classified := by
  refine ⟨?_, ?_, ?_, ?_, ?_, read⟩
  · rw [counted]
    exact classified.counted
  · rw [discarded]
    exact classified.discarded
  · rw [log]
    exact classified.requests
  · rw [queue]
    exact classified.queued
  · rw [queue, counted]
    exact classified.buffered

theorem Proc.Classified.countReceived (classified : p.Classified) {m : Option (Msg n)}
    (real : ∀ x ∈ m, x.dummy = false) : (p.countReceived m).Classified := by
  refine { classified with
    counted := fun x member => ?_
    buffered := fun x member => List.mem_append_left _ (classified.buffered x member) }
  rcases List.mem_append.mp member with old | new
  · exact classified.counted x old
  · exact real x (mem_toList.mp new)

theorem Proc.Classified.clear (classified : p.Classified) (i : Nat) : (p.clear i).Classified :=
  { classified with requests := fun r entry => classified.requests r (List.mem_of_mem_eraseIdx entry) }

theorem Proc.Classified.fromQueue (classified : p.Classified) (k : Nat) :
    Proc.Classified { p with queue := p.queue.eraseIdx k } :=
  { classified with
    queued := fun m member => classified.queued m (List.mem_of_mem_eraseIdx member)
    buffered := fun m member => classified.buffered m (List.mem_of_mem_eraseIdx member) }

variable {r : Req n} {me : Fin n} {o : Option (Post n)}

theorem Proc.Classified.set (classified : p.Classified) (i : Nat) (real : ∀ m ∈ r.real.message, m.dummy = false) :
    ∀ r' ∈ p.log.set i r, ∀ m ∈ r'.real.message, m.dummy = false := by
  intro r' entry
  rcases List.mem_or_eq_of_mem_set entry with old | rfl
  · exact classified.requests r' old
  · exact real

theorem Proc.Classified.addRequest (classified : p.Classified) (type : ReqType) (pattern : Pattern n) :
    (p.addRequest type pattern).Classified := by
  refine { classified with requests := fun r entry => ?_ }
  rcases List.mem_append.mp entry with old | new
  · exact classified.requests r old
  · rw [List.mem_singleton.mp new]
    simp

theorem RecvMove.classified (moved : RecvMove p q) (classified : p.Classified)
    (reads : ∀ r m, p.app = .recvReturned r m → p.dummyPhase = m.dummy) : q.Classified := by
  have read := classified.read
  cases moved with
  | consume r k here => exact (classified.fromQueue k).congr rfl rfl rfl rfl trivial
  | readDummy r m here phase | readReal r m here phase =>
    exact classified.congr rfl rfl rfl rfl ((reads r m here).symm.trans phase)
  | discard r m here =>
    rw [here] at read
    refine { classified with discarded := fun x member => ?_, read := trivial }
    rcases List.mem_append.mp member with old | new
    · exact classified.discarded x old
    · rw [List.mem_singleton.mp new]
      exact read
  | reopen r m here =>
    rw [here] at read
    exact classified.congr rfl rfl rfl rfl read
  | count r m here =>
    rw [here] at read
    have real : ∀ x ∈ some m, x.dummy = false := fun x same => by
      cases same
      exact read
    exact (classified.countReceived real).congr rfl rfl rfl rfl trivial
  | _ => exact classified.congr rfl rfl rfl rfl trivial

theorem AppMove.classified (moved : AppMove me p q o) (classified : p.Classified)
    (reads : ∀ r m, p.app = .recvReturned r m → p.dummyPhase = m.dummy) : q.Classified := by
  cases moved with
  | isend type comm dest tag enters sends known =>
    have counted : (p.countSent dest).Classified := classified.congr rfl rfl rfl rfl classified.read
    exact counted.addRequest _ _
  | fromQueue k enters => exact (classified.fromQueue k).congr rfl rfl rfl rfl classified.read
  | irecv pattern enters => exact classified.addRequest _ _
  | test i r => exact classified.clear i
  | testCounted i r enters entry =>
    exact (classified.countReceived (classified.requests r (List.mem_of_getElem? entry))).clear i
  | send | recv => exact classified.congr rfl rfl rfl rfl trivial
  | next awake moved => exact moved.classified classified reads
  | _ => exact classified.congr rfl rfl rfl rfl classified.read

theorem LowerMove.classified {a : LowerAct} (moved : LowerMove p a q) (classified : p.Classified)
    (kept : ∀ k i m, a = .take k i → p.inbox[k]? = some m → m.dummy = false) : q.Classified := by
  cases moved with
  | take k i m r message entry irecv active accepts =>
    refine { classified with requests := classified.set i fun x same => ?_ }
    cases same
    exact kept k i m rfl message
  | takeRecv k m r posted message here accepts => exact classified.congr rfl rfl rfl rfl trivial
  | finish i r entry active free =>
    exact { classified with requests := classified.set i (by simp) }

theorem Completes.classified {i : Nat} (completes : Completes p i r q) (entry : p.log[i]? = some r)
    (classified : p.Classified) : q.Classified := by
  cases completes with
  | received irecv real =>
    have counted := (classified.countReceived (classified.requests r (List.mem_of_getElem? entry))).clear i
    exact counted.congr rfl rfl rfl rfl counted.read
  | done unread => exact (classified.clear i).congr rfl rfl rfl rfl classified.read
  | ack issend pattern real =>
    exact { classified with requests := classified.set i (by simp) }

theorem CkptMove.classified (moved : CkptMove cfg p q) (classified : p.Classified)
    (answers : ∀ m ∈ p.inbox, m.dummy = true → p.slot = .active ∧ p.pending.accepts m.env = true)
    (guarded : p.Guarded) : q.Classified := by
  cases moved with
  | notices here f notices tag same =>
    refine { classified with requests := fun r entry => ?_ }
    obtain ⟨r', old, rfl⟩ := List.mem_map.mp entry
    rw [(same r').real]
    exact classified.requests r' old
  | test here i r entry flag completes => exact completes.classified entry classified
  | buffer here k m entry status =>
    -- No published receive matches the envelope, so the message is no dummy.
    have real : m.dummy = false := by
      by_contra isDummy
      obtain ⟨active, accepts⟩ := answers m (List.mem_of_getElem? entry) (by simpa using isDummy)
      have free := guarded.unpublished here m.env status
      simp [Proc.pendingRecvMatches, active, accepts] at free
    have counted : (p.countReceived (some m)).Classified := classified.countReceived fun x same => by
      cases same
      exact real
    refine { counted with queued := fun x member => ?_, buffered := fun x member => ?_ }
    · rcases List.mem_append.mp member with old | new
      · exact classified.queued x old
      · rw [List.mem_singleton.mp new]
        exact real
    · rcases List.mem_append.mp member with old | new
      · exact counted.buffered x old
      · exact List.mem_append_right _ new
  | await id here i r entry named flag =>
    have counted := (classified.countReceived (classified.requests r (List.mem_of_getElem? entry))).clear i
    exact counted.congr rfl rfl rfl rfl counted.read
  | _ => exact classified.congr rfl rfl rfl rfl classified.read

theorem DbMove.classified {db' : Db n} (moved : DbMove cfg me db p q db') (classified : p.Classified) :
    q.Classified := by
  cases moved <;> exact classified.congr rfl rfl rfl rfl classified.read

theorem SendMove.classified (moved : SendMove cfg me db p q o) (classified : p.Classified) : q.Classified := by
  cases moved <;> exact classified.congr rfl rfl rfl rfl classified.read

theorem Proc.Classified.released (classified : p.Classified) (sums : Counters) (sync : Sync) :
    (p.released sums sync).Classified := by
  cases sync <;> exact classified.congr rfl rfl rfl rfl classified.read

theorem Proc.Classified.recv_eq (classified : p.Classified) (conserves : p.Conserves) :
    p.recv = p.counted.countP Msg.isReal := by
  rw [conserves.recv, eq_comm, List.countP_eq_length]
  intro m member
  simp [Msg.isReal, classified.counted m member]

/-- Dummies leave the lower half by being discarded, and nothing else does. -/
theorem Proc.Classified.outstanding_dummy (classified : p.Classified) (conserves : p.Conserves) :
    p.outstanding Msg.dummy + p.discarded.length = p.addressed.countP Msg.dummy := by
  have all := conserves.messages Msg.dummy
  have counted : p.counted.countP Msg.dummy = 0 :=
    List.countP_eq_zero.mpr fun m member => by simp [classified.counted m member]
  have discarded : p.discarded.countP Msg.dummy = p.discarded.length :=
    List.countP_eq_length.mpr classified.discarded
  unfold Proc.outstanding
  omega

theorem Proc.Classified.outstanding_real (classified : p.Classified) (conserves : p.Conserves) :
    p.recv + p.outstanding Msg.isReal = p.addressed.countP Msg.isReal := by
  have all := conserves.messages Msg.isReal
  have discarded : p.discarded.countP Msg.isReal = 0 :=
    List.countP_eq_zero.mpr fun m member => by simp [Msg.isReal, classified.discarded m member]
  rw [classified.recv_eq conserves]
  unfold Proc.outstanding
  omega

end Classified

/-! The dummy step. -/

namespace Stage

def calm : Stage → Bool
  | .loop _ pass => pass != 0
  | .free | .rounds _ => false
  | _ => true

end Stage

def Proc.told (p : Proc n) : Prop :=
  2 ≤ p.locals.dummyPass ∨ p.ckpt ∈ [CkptPc.publishedBarrier, .post, .postedBarrier, .send, .sentBarrier]

def Proc.pastPost (cfg : Config n) (p : Proc n) : Prop :=
  if cfg.drainHasNoBarrier then 3 ≤ p.locals.dummyPass
  else p.ckpt ∈ [CkptPc.postedBarrier, .send, .sentBarrier, .drained, .suspendBarrier]

structure Proc.Phased (cfg : Config n) (stage : Stage) (p : Proc n) : Prop where
  phase : p.dummyPhase = true → stage.calm = true ∨ p.ckpt = .suspended ∨ p.ckpt = .resumePhase
  told : p.told → p.dummyPhase = true
  blocked : p.locals.blocked = true → stage.calm = true
  posted : 1 ≤ p.posted → p.posted = 1 ∧ p.locals.blocked = true ∧ p.pastPost cfg
  owed : p.locals.blocked = true → p.pastPost cfg → p.posted = 1
  active : p.locals.blocked = true → p.posted = 0 → p.slot = .active

section Phased
variable {cfg : Config n} {db : Db n} {stage stage' : Stage} {p q : Proc n}

theorem Proc.Phased.of_step (phased : p.Phased cfg stage) (phase : q.dummyPhase = p.dummyPhase)
    (posted : q.posted = p.posted) (blocked : q.locals.blocked = p.locals.blocked)
    (slot : p.slot = .active → q.slot = .active) (awake : p.ckpt ≠ .suspended ∧ p.ckpt ≠ .resumePhase)
    (told : q.told → p.told) (past : q.pastPost cfg ↔ p.pastPost cfg)
    (calm : stage.calm = true → stage'.calm = true) : q.Phased cfg stage' := by
  refine ⟨fun set => ?_, fun isTold => ?_, fun isBlocked => ?_, fun isPosted => ?_, fun isBlocked isPast => ?_,
    fun isBlocked none => ?_⟩
  · rcases phased.phase (phase ▸ set) with isCalm | here | here
    · exact .inl (calm isCalm)
    · exact absurd here awake.1
    · exact absurd here awake.2
  · rw [phase]
    exact phased.told (told isTold)
  · exact calm (phased.blocked (blocked ▸ isBlocked))
  · rw [posted] at isPosted ⊢
    obtain ⟨one, isBlocked, isPast⟩ := phased.posted isPosted
    exact ⟨one, blocked ▸ isBlocked, past.mpr isPast⟩
  · rw [posted]
    exact phased.owed (blocked ▸ isBlocked) (past.mp isPast)
  · exact slot (phased.active (blocked ▸ isBlocked) (posted ▸ none))

theorem Proc.Phased.congr (phased : p.Phased cfg stage) (phase : q.dummyPhase = p.dummyPhase)
    (posted : q.posted = p.posted) (locals : q.locals = p.locals) (ckpt : q.ckpt = p.ckpt)
    (slot : p.locals.blocked = true → p.posted = 0 → q.slot = .active) : q.Phased cfg stage := by
  refine ⟨?_, ?_, ?_, ?_, ?_, ?_⟩
  · rw [phase, ckpt]
    exact phased.phase
  · rw [phase, Proc.told, locals, ckpt]
    exact phased.told
  · rw [locals]
    exact phased.blocked
  · rw [posted, locals, Proc.pastPost, locals, ckpt]
    exact phased.posted
  · rw [posted, locals, Proc.pastPost, locals, ckpt]
    exact phased.owed
  · rw [locals, posted]
    exact slot

inductive SlotMove (p q : Proc n) : Prop where
  | same (slot : q.slot = p.slot) (discarded : q.discarded = p.discarded)
      (pending : q.pending = p.pending ∨ ∃ r, p.app = .recvLooked r)
  | publish (r : PendingRecv n) (here : p.app = .recvLooked r) (slot : q.slot = .active)
      (discarded : q.discarded = p.discarded)
  | discard (r : PendingRecv n) (m : Msg n) (here : p.app = .recvDummy r m) (slot : q.slot = .closed)
      (discarded : q.discarded = p.discarded ++ [m]) (pending : q.pending = p.pending)
  | reopen (r : PendingRecv n) (m : Msg n) (here : p.app = .recvReal r m) (slot : q.slot = .idle)
      (discarded : q.discarded = p.discarded) (pending : q.pending = p.pending)

variable {me : Fin n} {o : Option (Post n)} {sync : Sync}

theorem AppMove.slot (moved : AppMove me p q o) : SlotMove p q := by
  cases moved with
  | next awake moved =>
    cases moved with
    | publish r here idle => exact .publish r here rfl rfl
    | refuse r here busy => exact .same rfl rfl (.inr ⟨r, here⟩)
    | discard r m here => exact .discard r m here rfl rfl rfl
    | reopen r m here => exact .reopen r m here rfl rfl rfl
    | _ => exact .same rfl rfl (.inl rfl)
  | _ => exact .same rfl rfl (.inl rfl)

theorem AppMove.keeps (moved : AppMove me p q o) :
    q.dummyPhase = p.dummyPhase ∧ q.posted = p.posted ∧ q.inbox = p.inbox := by
  cases moved with
  | next awake moved => cases moved <;> exact ⟨rfl, rfl, rfl⟩
  | _ => exact ⟨rfl, rfl, rfl⟩

theorem AppMove.phased (moved : AppMove me p q o) (phased : p.Phased cfg stage)
    (discards : ∀ r m, p.app = .recvDummy r m → 1 ≤ p.posted)
    (reopens : ∀ r m, p.app = .recvReal r m → p.locals.blocked = false) : q.Phased cfg stage := by
  obtain ⟨phase, posted, -⟩ := moved.keeps
  refine phased.congr phase posted moved.control.2 moved.control.1 fun isBlocked none => ?_
  cases moved.slot with
  | same slot discarded pending => exact slot.trans (phased.active isBlocked none)
  | publish r here slot discarded => exact slot
  | discard r m here slot discarded pending =>
    have := discards r m here
    omega
  | reopen r m here slot discarded pending =>
    rw [reopens r m here] at isBlocked
    cases isBlocked

theorem LowerMove.phased {a : LowerAct} (moved : LowerMove p a q) (phased : p.Phased cfg stage) :
    q.Phased cfg stage := by
  cases moved <;> exact phased.congr rfl rfl rfl rfl phased.active

theorem Completes.phased {i : Nat} {r : Req n} (completes : Completes p i r q) (phased : p.Phased cfg stage) :
    q.Phased cfg stage := by
  cases completes <;> exact phased.congr rfl rfl rfl rfl phased.active

theorem Proc.Phased.not_posted (phased : p.Phased cfg stage) (early : ¬p.pastPost cfg) : p.posted = 0 := by
  by_contra isPosted
  exact early (phased.posted (Nat.one_le_iff_ne_zero.mpr isPosted)).2.2

theorem Proc.Phased.before_post (none : p.posted = 0) (early : ¬p.pastPost cfg) (calm : stage.calm = true)
    (told : p.told → p.dummyPhase = true) (active : p.locals.blocked = true → p.slot = .active) : p.Phased cfg stage :=
  ⟨fun _ => .inl calm, told, fun _ => calm, fun isPosted => absurd none (Nat.one_le_iff_ne_zero.mp isPosted),
    fun _ isPast => absurd isPast early, fun isBlocked _ => active isBlocked⟩

theorem Proc.Phased.of_start (start : p.locals = .start) (none : p.posted = 0)
    (pc : p.ckpt ∉ [CkptPc.publishedBarrier, .post, .postedBarrier, .send, .sentBarrier])
    (phase : p.dummyPhase = true → stage.calm = true ∨ p.ckpt = .suspended ∨ p.ckpt = .resumePhase) :
    p.Phased cfg stage := by
  have unblocked : p.locals.blocked ≠ true := by
    rw [start]
    decide
  refine ⟨phase, ?_, fun isBlocked => absurd isBlocked unblocked,
    fun isPosted => absurd none (Nat.one_le_iff_ne_zero.mp isPosted), fun isBlocked => absurd isBlocked unblocked,
    fun isBlocked => absurd isBlocked unblocked⟩
  rintro (late | member)
  · rw [start] at late
    exact absurd late (by decide)
  · exact absurd member pc

theorem Proc.not_pastPost_of_mem (placed : p.Placed cfg)
    (here : p.ckpt ∈ [CkptPc.casSlot, .publish, .setPhase, .post]) : ¬p.pastPost cfg := by
  simp only [List.mem_cons, List.not_mem_nil, or_false] at here
  unfold Proc.pastPost
  split
  · next noBarrier =>
    rcases here with pc | pc | pc | pc <;> simp only [Proc.Placed, pc] at placed <;> have := placed noBarrier <;> omega
  · rcases here with pc | pc | pc | pc <;> simp [pc]

theorem Proc.calm_of_mem (placed : p.Placed cfg)
    (here : p.ckpt ∈ [CkptPc.casSlot, .publish, .setPhase, .post]) : (p.stage cfg db).calm = true := by
  simp only [List.mem_cons, List.not_mem_nil, or_false] at here
  cases noBarrier : cfg.drainHasNoBarrier <;>
    rcases here with pc | pc | pc | pc <;> simp_all [Proc.Placed, Proc.stage, Stage.calm]

theorem Proc.Phased.not_posted_of_start (phased : p.Phased cfg stage) (start : p.locals = .start) : p.posted = 0 := by
  by_contra isPosted
  have isBlocked := (phased.posted (Nat.one_le_iff_ne_zero.mpr isPosted)).2.1
  rw [start] at isBlocked
  cases isBlocked

theorem CkptMove.phased (moved : CkptMove cfg p q) (placed : p.Placed cfg)
    (belongs : p.stage cfg db = stage) (phased : p.Phased cfg stage) : q.Phased cfg stage := by
  have moved' : q.Placed cfg ∧ q.stage cfg db = p.stage cfg db := moved.placed placed
  cases moved with
  | closeSlot here =>
    refine phased.of_step rfl rfl rfl SlotState.closeIdle_active.mpr ?_ ?_ ?_ id <;>
      simp [Proc.told, Proc.pastPost, Proc.goto, here]
  | notices here | probed here =>
    refine phased.of_step rfl rfl rfl id ?_ ?_ ?_ id <;> cases cfg.drainHasNoBarrier <;>
      simp [Proc.told, Proc.pastPost, Proc.goto, here]
  | pass here =>
    have noBarrier : cfg.drainHasNoBarrier = true := by simpa only [Proc.Placed, here] using placed
    refine phased.of_step rfl rfl rfl id ?_ ?_ ?_ id <;>
      rcases d : p.locals.dummyPass with _ | _ | _ | _ | d <;>
        simp [Proc.told, Proc.pastPost, Proc.goto, Proc.setLocals, Proc.passTurn, here, d, noBarrier]
  | test here i r entry flag completes => exact completes.phased phased
  | await id' here | buffer here =>
    refine phased.of_step rfl rfl rfl id ?_ ?_ ?_ id <;>
      simp [Proc.told, Proc.pastPost, Proc.goto, Proc.completeRequest, Proc.clear, Proc.countReceived,
        Proc.recvMsgIntoInternalBuffer, here]
  | iterate here more =>
    have pass : p.locals.nextPass = p.locals.dummyPass ∨ p.locals.dummyPass = 0 ∧ p.locals.nextPass = 1 := by
      unfold Locals.nextPass
      split
      · next first => exact .inr ⟨first.2.2, rfl⟩
      · exact .inl rfl
    refine phased.of_step rfl rfl rfl id (by simp [here]) (fun told => ?_) ?_ id
    · simp [Proc.told, Proc.goto, Proc.setLocals, here] at told ⊢
      omega
    · have same : 3 ≤ p.locals.nextPass ↔ 3 ≤ p.locals.dummyPass := by omega
      simp [Proc.pastPost, Proc.goto, Proc.setLocals, here, same]
  | casSlot here =>
    have none := phased.not_posted (Proc.not_pastPost_of_mem placed (by simp [here]))
    have calm : stage.calm = true := belongs ▸ Proc.calm_of_mem placed (by simp [here])
    have next := Proc.not_pastPost_of_mem moved'.1 (by simp [Proc.goto])
    refine .before_post none next calm (fun isTold => ?_) fun isBlocked => ?_
    · exact phased.told (.inl (by simpa [Proc.told, Proc.goto, Proc.setLocals] using isTold))
    · exact SlotState.closeIdle_active.mpr (by simpa [Proc.goto, Proc.setLocals] using isBlocked)
  | setPhase here =>
    have none := phased.not_posted (Proc.not_pastPost_of_mem placed (by simp [here]))
    have calm : stage.calm = true := belongs ▸ Proc.calm_of_mem placed (by simp [here])
    refine .before_post none ?_ calm (fun _ => rfl) fun isBlocked => ?_
    · cases noBarrier : cfg.drainHasNoBarrier <;> simp [Proc.pastPost, noBarrier, Proc.endPass]
    · rw [Proc.endPass_blocked] at isBlocked
      exact phased.active isBlocked none
  | allow here =>
    have start : p.locals = .start := by simpa only [Proc.Placed, here] using placed
    exact .of_start start (phased.not_posted_of_start start) (by simp [Proc.goto]) fun _ => .inr (.inr rfl)
  | resetPhase here =>
    have start : p.locals = .start := by simpa only [Proc.Placed, here] using placed
    exact .of_start start (phased.not_posted_of_start start) (by simp [Proc.goto]) (by simp [Proc.goto])
  | resetSlot here =>
    have start : p.locals = .start := by simpa only [Proc.Placed, here] using placed
    refine .of_start start (phased.not_posted_of_start start) (by simp [Proc.goto]) fun set => ?_
    rcases phased.phase set with calm | elsewhere | elsewhere
    · exact .inl calm
    · simp [here] at elsewhere
    · simp [here] at elsewhere
  | _ here =>
    refine phased.of_step rfl rfl rfl id ?_ ?_ ?_ id <;>
      simp [Proc.told, Proc.pastPost, Proc.goto, Proc.setLocals, here]

theorem DbMove.phased {db' : Db n} (moved : DbMove cfg me db p q db') (placed : p.Placed cfg)
    (belongs : p.stage cfg db = stage) (phased : p.Phased cfg stage) : q.Phased cfg stage := by
  cases moved with
  | post here blocked sender d made =>
    have none := phased.not_posted (Proc.not_pastPost_of_mem placed (by simp [here]))
    have calm : stage.calm = true := belongs ▸ Proc.calm_of_mem placed (by simp [here])
    have set : p.dummyPhase = true := phased.told (.inr (by simp [here]))
    refine ⟨fun _ => .inl calm, fun _ => set, fun _ => calm,
      fun _ => ⟨by simp [Proc.endPass, none], by rw [Proc.endPass_blocked, blocked], ?_⟩,
      fun _ _ => by simp [Proc.endPass, none], fun _ absent => by simp [Proc.endPass] at absent⟩
    cases noBarrier : cfg.drainHasNoBarrier <;> simp [Proc.pastPost, noBarrier, Proc.endPass]
  | noPost here unblocked =>
    have none := phased.not_posted (Proc.not_pastPost_of_mem placed (by simp [here]))
    have calm : stage.calm = true := belongs ▸ Proc.calm_of_mem placed (by simp [here])
    have set : p.dummyPhase = true := phased.told (.inr (by simp [here]))
    have free : (p.endPass cfg 3 .postedBarrier).locals.blocked ≠ true := by simp [Proc.endPass_blocked, unblocked]
    exact ⟨fun _ => .inl calm, fun _ => set, fun _ => calm,
      fun isPosted => absurd none (Nat.one_le_iff_ne_zero.mp isPosted), fun isBlocked => absurd isBlocked free,
      fun isBlocked => absurd isBlocked free⟩
  | _ here =>
    refine phased.of_step rfl rfl rfl id ?_ ?_ ?_ id <;>
      simp [Proc.told, Proc.pastPost, Proc.goto, Proc.setLocals, here]

theorem SendMove.phased (moved : SendMove cfg me db p q o) (placed : p.Placed cfg) (phased : p.Phased cfg stage) :
    q.Phased cfg stage := by
  cases moved with
  | send here d record =>
    refine phased.of_step rfl rfl rfl id ?_ ?_ ?_ id <;> simp [Proc.told, Proc.pastPost, Proc.setLocals, here]
  | sent here all =>
    simp only [Proc.Placed, here] at placed
    refine phased.of_step rfl rfl (Proc.endPass_blocked ..) id ?_ ?_ ?_ id <;>
      cases noBarrier : cfg.drainHasNoBarrier <;> simp_all [Proc.told, Proc.pastPost, Proc.endPass]
  | ack here dest tag =>
    refine phased.of_step rfl rfl rfl id ?_ ?_ ?_ id <;> simp [Proc.told, Proc.pastPost, here]

theorem StageStep.calm {s : State n} (moves : StageStep cfg s sync stage stage') (inside : sync ≠ .suspend)
    (calm : stage.calm = true) : stage'.calm = true := by
  cases moves with
  | startLoop | startRounds => cases calm
  | iterate i pass more =>
    have late : pass ≠ 0 := by simpa [Stage.calm] using calm
    simp [Stage.calm, Counters.nextPass, late]
  | again k more => cases calm
  | leave k enough => cases calm
  | suspend => exact absurd rfl inside
  | _ => rfl

theorem Proc.Phased.released (phased : p.Phased cfg stage) (placed : p.Placed cfg) (s : State n)
    (waits : p.ckpt.waitsAt = some sync) (moves : StageStep cfg s sync stage stage') :
    (p.released s.sums sync).Phased cfg stage' := by
  by_cases suspends : sync = .suspend
  · subst suspends
    exact .of_start rfl rfl (by simp [Proc.released, Proc.goto]) fun _ => .inr (.inl rfl)
  · have calm := moves.calm suspends
    clear moves
    have pc := CkptPc.eq_place waits
    cases sync with
    | suspend => exact absurd rfl suspends
    | _ =>
      simp only [Proc.Placed, pc, Sync.place] at placed
      refine phased.of_step rfl rfl rfl id ?_ ?_ ?_ calm <;>
        simp [pc, placed, Sync.place, Proc.released, Proc.told, Proc.pastPost, Proc.goto, Proc.setLocals]

end Phased

/-! The end of the drain. -/

def Proc.flushed (cfg : Config n) (stage : Stage) (p : Proc n) : Prop :=
  if cfg.drainHasNoBarrier then stage = .ended ∨ ∃ i, stage = .finished i
  else p.ckpt ∈ [CkptPc.casSlot, .publish, .setPhase, .publishedBarrier, .post, .postedBarrier, .send, .sentBarrier,
    .drained, .suspendBarrier]

structure Proc.Finished (cfg : Config n) (stage : Stage) (p : Proc n) : Prop where
  isends : p.flushed cfg stage → p.pendingIsends = 0
  slot : cfg.drainHasNoBarrier = true → (stage = .ended ∨ ∃ i, stage = .finished i) → p.slot ≠ .active

section Finished
variable {cfg : Config n} {db : Db n} {stage : Stage} {p q : Proc n}

theorem Proc.Finished.of_step (finished : p.Finished cfg stage) (flushed : q.flushed cfg stage → p.flushed cfg stage)
    (isends : p.flushed cfg stage → q.pendingIsends ≤ p.pendingIsends)
    (slot : stage ≠ .free → q.slot = .active → p.slot = .active) : q.Finished cfg stage := by
  refine ⟨fun isFlushed => ?_, fun noBarrier ends active => ?_⟩
  · have before := flushed isFlushed
    exact Nat.le_zero.mp (finished.isends before ▸ isends before)
  · have busy : stage ≠ .free := by
      rintro rfl
      rcases ends with ends | ⟨i, ends⟩ <;> cases ends
    exact finished.slot noBarrier ends (slot busy active)

theorem Proc.Finished.congr (finished : p.Finished cfg stage) (ckpt : q.ckpt = p.ckpt)
    (isends : p.flushed cfg stage → q.pendingIsends ≤ p.pendingIsends)
    (slot : stage ≠ .free → q.slot = .active → p.slot = .active) : q.Finished cfg stage :=
  finished.of_step (by rw [Proc.flushed, ckpt]; exact id) isends slot

theorem Proc.closes_of_flushed (belongs : p.stage cfg db = stage) (flushed : p.flushed cfg stage) :
    p.ckpt.closes = true := by
  refine Proc.closes_of_stage cfg db ?_
  rw [belongs]
  rintro rfl
  unfold Proc.flushed at flushed
  split at flushed
  · rcases flushed with ends | ⟨i, ends⟩ <;> cases ends
  · next barrier =>
    cases pc : p.ckpt <;> simp [Proc.stage, pc, barrier] at belongs flushed

theorem Proc.late_of_stage (belongs : p.stage cfg db = stage) (busy : stage ≠ .free) : p.ckpt.early = false := by
  rw [← belongs] at busy
  cases pc : p.ckpt <;> simp [Proc.stage, pc] at busy <;> rfl

theorem AppMove.finished {me : Fin n} {o : Option (Post n)} (moved : AppMove me p q o) (guarded : p.Guarded)
    (belongs : p.stage cfg db = stage) (finished : p.Finished cfg stage) : q.Finished cfg stage := by
  refine finished.congr moved.control.1 (fun flushed => ?_) fun busy => ?_
  · rw [Proc.pendingIsends, (moved.closed guarded (Proc.closes_of_flushed belongs flushed)).2]
    exact Nat.le_refl _
  · exact moved.inactive guarded (Proc.late_of_stage belongs busy)

theorem LowerMove.finished {a : LowerAct} (moved : LowerMove p a q) (finished : p.Finished cfg stage) :
    q.Finished cfg stage :=
  finished.congr moved.control.1 (fun _ => moved.pendingIsends.le) fun _ => moved.slot.symm.trans

theorem CkptMove.finished (moved : CkptMove cfg p q) (placed : p.Placed cfg) (finished : p.Finished cfg stage) :
    q.Finished cfg stage := by
  cases moved with
  | closeSlot here | casSlot here =>
    refine finished.of_step ?_ (fun _ => Nat.le_refl _) fun _ => SlotState.closeIdle_active.mp
    cases noBarrier : cfg.drainHasNoBarrier <;> simp [Proc.flushed, noBarrier, Proc.goto, here]
  | notices here f notices tag same =>
    have isends : (p.log.map f).countP Req.isSend = p.log.countP Req.isSend := by
      rw [List.countP_map]
      exact List.countP_congr fun r _ => by simp [(same r).isSend]
    refine finished.of_step ?_ (fun _ => isends.le) fun _ => id
    cases noBarrier : cfg.drainHasNoBarrier <;> simp [Proc.flushed, noBarrier, Proc.goto]
  | pass here =>
    have noBarrier : cfg.drainHasNoBarrier = true := by simpa only [Proc.Placed, here] using placed
    exact finished.of_step (by simp [Proc.flushed, noBarrier]) (fun _ => Nat.le_refl _) fun _ => id
  | test here i r entry flag completes =>
    have slot : q.slot = p.slot := by cases completes <;> rfl
    exact finished.congr completes.control.1 (fun _ => completes.pendingIsends entry) fun _ => slot.symm.trans
  | await id' here i r entry named flag =>
    refine finished.of_step ?_ (fun _ => ?_) fun _ => id
    · cases noBarrier : cfg.drainHasNoBarrier <;> simp [Proc.flushed, noBarrier, Proc.goto]
    · have before := countP_eraseIdx entry Req.isSend
      simp only [Proc.pendingIsends, Proc.goto, Proc.completeRequest, Proc.clear, Proc.countReceived]
      omega
  | noIsends here none =>
    refine ⟨fun _ => ?_, finished.slot⟩
    exact List.countP_eq_zero.mpr fun r entry => by simpa using List.any_eq_false.mp none r entry
  | resetSlot here =>
    refine finished.of_step ?_ (fun _ => Nat.le_refl _) fun _ active => by cases active
    cases noBarrier : cfg.drainHasNoBarrier <;> simp [Proc.flushed, noBarrier, Proc.goto]
  | _ here =>
    refine finished.of_step ?_ (fun _ => Nat.le_refl _) fun _ => id
    cases noBarrier : cfg.drainHasNoBarrier <;>
      simp [Proc.flushed, noBarrier, Proc.goto, Proc.endPass, here]

theorem DbMove.finished {me : Fin n} {db' : Db n} (moved : DbMove cfg me db p q db') (finished : p.Finished cfg stage) :
    q.Finished cfg stage := by
  cases moved with
  | _ here =>
    refine finished.of_step ?_ (fun _ => Nat.le_refl _) fun _ => id
    cases noBarrier : cfg.drainHasNoBarrier <;> simp [Proc.flushed, noBarrier, Proc.goto, Proc.endPass, here]

theorem SendMove.finished {me : Fin n} {o : Option (Post n)} (moved : SendMove cfg me db p q o)
    (finished : p.Finished cfg stage) : q.Finished cfg stage := by
  cases moved with
  | sent here all =>
    refine finished.of_step ?_ (fun _ => Nat.le_refl _) fun _ => id
    cases noBarrier : cfg.drainHasNoBarrier <;> simp_all [Proc.flushed, Proc.endPass]
  | _ => exact finished.congr rfl (fun _ => Nat.le_refl _) fun _ => id

end Finished

end Mana.P2p
