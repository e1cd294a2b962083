import Mana.P2p.Dummy
import Mathlib.Algebra.Order.BigOperators.Group.Finset

/-! The drain as a whole: when the ranks leave the loop, or come to the dummy step, no message of
the application is in a lower half, and from then on what `PMPI_Recv` returns is the dummy. -/

namespace Mana.P2p
open Mana.Lib Mana.Collective

variable {n : Nat}

def keepsDummies (s : State n) : Action n → Prop
  | .lower r (.take k _) => ∀ m ∈ (s.proc r).inbox[k]?, m.dummy = false
  | _ => True

instance (s : State n) : (a : Action n) → Decidable (keepsDummies s a)
  | .lower r (.take k _) => inferInstanceAs (Decidable (∀ m ∈ (s.proc r).inbox[k]?, m.dummy = false))
  | .lower _ (.takeRecv _) | .lower _ (.finish _) | .app .. | .ckpt .. | .ckptDb .. | .ckptSend .. | .release .. =>
      .isTrue trivial

structure Drains (cfg : Config n) (s : State n) (stage : Stage) : Prop where
  sound : ∀ r, (s.proc r).Sound
  inStage : InStage cfg s stage
  quiet : stage.calm = true → ∀ r, (s.proc r).outstanding Msg.isReal = 0
  classified : ∀ r, (s.proc r).Classified
  phased : ∀ r, (s.proc r).Phased cfg stage
  finished : ∀ r, (s.proc r).Finished cfg stage
  answered : s.Answered cfg
  fresh : stage = .free → s.db = .empty
  registers : ∀ k, stage = .rounds k → Registers s k

section Drains
variable {cfg : Config n} {s t : State n} {stage : Stage} {a : Action n}
variable {r : Fin n} {m : Msg n} {recv : PendingRecv n}

theorem Drains.not_calm (drains : Drains cfg s stage) (held : (s.proc r).app.held = some m) (real : m.dummy = false) :
    stage.calm = false := by
  cases calm : stage.calm with
  | false => rfl
  | true =>
    have some : 1 ≤ (s.proc r).outstanding Msg.isReal := Proc.outstanding_of_held held (by simp [Msg.isReal, real])
    have none := drains.quiet calm r
    omega

theorem Drains.posted_of_held (drains : Drains cfg s stage) (held : (s.proc r).app.held = some m)
    (dummy : m.dummy = true) : 1 ≤ (s.proc r).posted :=
  (drains.answered.of_outstanding (Proc.outstanding_of_held held dummy)).1

theorem Drains.reads (drains : Drains cfg s stage) (here : (s.proc r).app = .recvReturned recv m) :
    (s.proc r).dummyPhase = m.dummy := by
  have held : (s.proc r).app.held = some m := by rw [here]; rfl
  cases dummy : m.dummy with
  | true => exact drains.answered.phase r r (drains.posted_of_held held dummy)
  | false =>
    -- A thread that has not read the flag is not suspended, so the flag is of this checkpoint.
    have busy := drains.not_calm held dummy
    by_contra set
    rcases (drains.phased r).phase (by simpa using set) with calm | pc | pc
    · rw [busy] at calm
      cases calm
    · have outside := (drains.sound r).guarded.outside (by rw [pc]; rfl)
      rw [here] at outside
      cases outside
    · have outside := (drains.sound r).guarded.outside (by rw [pc]; rfl)
      rw [here] at outside
      cases outside

theorem Drains.discards (drains : Drains cfg s stage) (here : (s.proc r).app = .recvDummy recv m) :
    1 ≤ (s.proc r).posted := by
  have read := (drains.classified r).read
  rw [here] at read
  exact drains.posted_of_held (by rw [here]; rfl) read

theorem Drains.reopens (drains : Drains cfg s stage) (here : (s.proc r).app = .recvReal recv m) :
    stage.calm = false := by
  have read := (drains.classified r).read
  rw [here] at read
  exact drains.not_calm (by rw [here]; rfl) read

theorem Drains.answers (drains : Drains cfg s stage) :
    ∀ m ∈ (s.proc r).inbox, m.dummy = true → (s.proc r).slot = .active ∧ (s.proc r).pending.accepts m.env = true :=
  fun m member dummy => ⟨(drains.answered.of_outstanding (Proc.outstanding_of_inbox member dummy)).2,
    drains.answered.inbox r m member dummy⟩

theorem Drains.closes (drains : Drains cfg s stage) (busy : stage ≠ .free) (r : Fin n) :
    (s.proc r).ckpt.closes = true :=
  Proc.closes_of_stage cfg s.db (by rwa [drains.inStage.same r])

theorem Drains.free_of_early (drains : Drains cfg s stage) (early : (s.proc r).ckpt.early = true) :
    stage = .free := by
  rw [← drains.inStage.same r]
  cases pc : (s.proc r).ckpt with
  | running | collective | closing => simp only [Proc.stage, pc]
  | _ =>
    rw [pc] at early
    cases early

theorem Drains.not_posted (drains : Drains cfg s stage) (busy : stage.calm = false) (r : Fin n) : (s.proc r).posted = 0 := by
  by_contra isPosted
  have blocked := ((drains.phased r).posted (Nat.one_le_iff_ne_zero.mpr isPosted)).2.1
  have calm := (drains.phased r).blocked blocked
  rw [busy] at calm
  cases calm

theorem Drains.move_quiet (drains : Drains cfg s stage) (moved : Move cfg s a t) (inside : ∀ sync, a ≠ .release sync)
    (calm : stage.calm = true) : ∀ r, (t.proc r).outstanding Msg.isReal = 0 := by
  have busy : stage ≠ .free := by
    rintro rfl
    cases calm
  have quiet := drains.quiet calm
  have kept : ∀ {r : Fin n} {q : Proc n}, Grows (s.proc r) q → q.Conserves →
      ∀ r', ((s.setProc r q).proc r').outstanding Msg.isReal = 0 := fun {r q} grows conserves =>
    @forall_setProc n s (fun p => p.outstanding Msg.isReal = 0) quiet r q
      (Nat.le_zero.mp (quiet r ▸ grows.outstanding (drains.sound r).conserves conserves Msg.isReal))
  cases moved with
  | app r a moved =>
    obtain ⟨guarded, handled, conserves⟩ := drains.sound r
    obtain ⟨rfl, -⟩ := moved.closed guarded (drains.closes busy r)
    exact kept moved.grows (moved.conserves guarded conserves)
  | ckpt r a moved =>
    obtain ⟨guarded, handled, conserves⟩ := drains.sound r
    exact kept moved.grows (moved.conserves handled conserves)
  | db r moved | lower r a moved => exact kept moved.grows (moved.conserves (drains.sound r).conserves)
  | send r a moved =>
    have before := kept moved.grows (moved.conserves (drains.sound r).conserves)
    cases moved with
    | send here d record =>
      refine @forall_setProc n _ (fun p => p.outstanding Msg.isReal = 0) before _ _ ?_
      rw [Proc.outstanding_arrive, before]
      rfl
    | sent here all => exact before
    | ack here dest tag =>
      have closes := drains.closes busy r
      rw [here] at closes
      cases closes
  | release sync all => exact absurd rfl (inside sync)

theorem Drains.move_classified (drains : Drains cfg s stage) (moved : Move cfg s a t) (kept : keepsDummies s a) :
    ∀ r, (t.proc r).Classified := by
  have arrives : ∀ (p : Proc n) (o : Post n), p.Classified → (p.arrive o).Classified := fun p o classified =>
    classified.congr rfl rfl rfl rfl classified.read
  have classified := drains.classified
  cases moved with
  | app r a moved =>
    exact forall_deliver (forall_setProc classified (moved.classified (classified r) fun _ _ => drains.reads)) arrives
  | ckpt r a moved => exact forall_setProc classified (moved.classified (classified r) drains.answers (drains.sound r).guarded)
  | db r moved => exact forall_setProc classified (moved.classified (classified r))
  | send r a moved => exact forall_deliver (forall_setProc classified (moved.classified (classified r))) arrives
  | lower r a moved =>
    refine forall_setProc classified (moved.classified (classified r) ?_)
    rintro k i m rfl message
    exact kept m message
  | release sync all => exact fun r => (classified r).released _ _

theorem Drains.move_phased (drains : Drains cfg s stage) (moved : Move cfg s a t) (inside : ∀ sync, a ≠ .release sync) :
    ∀ r, (t.proc r).Phased cfg stage := by
  have arrives : ∀ (p : Proc n) (o : Post n), p.Phased cfg stage → (p.arrive o).Phased cfg stage := fun p o phased =>
    phased.congr rfl rfl rfl rfl phased.active
  have phased := drains.phased
  cases moved with
  | app r a moved =>
    refine forall_deliver (forall_setProc phased (moved.phased (phased r) (fun _ _ => drains.discards) ?_)) arrives
    intro recv m here
    have busy := drains.reopens here
    by_contra blocked
    have calm := (phased r).blocked (by simpa using blocked)
    rw [busy] at calm
    cases calm
  | ckpt r a moved | db r moved =>
    exact forall_setProc phased (moved.phased (drains.inStage.placed r) (drains.inStage.same r) (phased r))
  | send r a moved => exact forall_deliver (forall_setProc phased (moved.phased (drains.inStage.placed r) (phased r))) arrives
  | lower r a moved => exact forall_setProc phased (moved.phased (phased r))
  | release sync all => exact absurd rfl (inside sync)

theorem Drains.move_finished (drains : Drains cfg s stage) (moved : Move cfg s a t) (inside : ∀ sync, a ≠ .release sync) :
    ∀ r, (t.proc r).Finished cfg stage := by
  have arrives : ∀ (p : Proc n) (o : Post n), p.Finished cfg stage → (p.arrive o).Finished cfg stage := fun p o finished =>
    finished.congr rfl (fun _ => Nat.le_refl _) fun _ => id
  have finished := drains.finished
  cases moved with
  | app r a moved =>
    exact forall_deliver (forall_setProc finished
      (moved.finished (drains.sound r).guarded (drains.inStage.same r) (finished r))) arrives
  | ckpt r a moved => exact forall_setProc finished (moved.finished (drains.inStage.placed r) (finished r))
  | db r moved | lower r a moved => exact forall_setProc finished (moved.finished (finished r))
  | send r a moved => exact forall_deliver (forall_setProc finished (moved.finished (finished r))) arrives
  | release sync all => exact absurd rfl (inside sync)

theorem Drains.due_of_looked (drains : Drains cfg s stage) (here : (s.proc r).app = .recvLooked recv) :
    (s.proc r).posted = 0 := by
  have early := (drains.sound r).guarded.entering (by rw [here]; rfl)
  exact drains.not_posted (by rw [drains.free_of_early early]; rfl) r

theorem Drains.app_answered (drains : Drains cfg s stage) {q : Proc n} {o : Option (Post n)}
    (moved : AppMove r (s.proc r) q o) : (s.setProc r q).Answered cfg := by
  obtain ⟨guarded, handled, conserves⟩ := drains.sound r
  obtain ⟨pc, locals⟩ := moved.control
  obtain ⟨phase, posted, inbox⟩ := moved.keeps
  have before := (drains.classified r).outstanding_dummy conserves
  have after := (moved.classified (drains.classified r) fun _ _ => drains.reads).outstanding_dummy
    (moved.conserves guarded conserves)
  rw [moved.grows.addressed] at after
  have without : (s.proc r).posted = 0 → (s.proc r).due = 0 ∧ q.due = 0 := fun none => by
    simp [Proc.due, posted, none]
  have changes : q.outstanding Msg.dummy + (s.proc r).due = (s.proc r).outstanding Msg.dummy + q.due ∧
      (q.pending = (s.proc r).pending ∨ (s.proc r).due = 0) := by
    cases moved.slot with
    | same slot discarded pending =>
      have due : q.due = (s.proc r).due := by simp only [Proc.due, posted, slot]
      rw [discarded] at after
      exact ⟨by omega, pending.imp_right fun looked =>
        looked.elim fun recv here => (without (drains.due_of_looked here)).1⟩
    | publish recv here slot discarded =>
      have due := without (drains.due_of_looked here)
      rw [discarded] at after
      exact ⟨by omega, .inr due.1⟩
    | discard recv m here slot discarded pending =>
      have isDummy := (drains.classified r).read
      rw [here] at isDummy
      have waits := drains.answered.of_outstanding (Proc.outstanding_of_held (m := m) (by rw [here]; rfl) isDummy)
      have due : (s.proc r).due = 1 ∧ q.due = 0 := by simp [Proc.due, waits.1, waits.2, slot]
      rw [discarded, List.length_append, List.length_singleton] at after
      exact ⟨by omega, .inl pending⟩
    | reopen recv m here slot discarded pending =>
      have due := without (drains.not_posted (drains.reopens here) r)
      rw [discarded] at after
      exact ⟨by omega, .inl pending⟩
  refine drains.answered.setProc rfl
    ⟨by rw [locals], posted, changes.1, changes.2, fun m member _ => inbox ▸ member, ?_, fun past => .inl ?_⟩
  · intro q' isPosted
    rw [phase]
    exact drains.answered.phase q' r isPosted
  · simpa only [Proc.pastSend, locals, pc] using past

end Drains

/-- A step that neither posts nor sends nor discards a dummy. -/
structure KeepsDummies (p q : Proc n) : Prop where
  dispatched : q.locals.dispatched = p.locals.dispatched
  posted : q.posted = p.posted
  discarded : q.discarded = p.discarded
  pending : q.pending = p.pending
  slot : q.slot = .active ↔ p.slot = .active
  inbox : ∀ m ∈ q.inbox, m ∈ p.inbox

section Keeps
variable {cfg : Config n} {db : Db n} {p q : Proc n}

theorem LowerMove.keepsDummies {a : LowerAct} (moved : LowerMove p a q) : KeepsDummies p q := by
  cases moved with
  | take | takeRecv => exact ⟨rfl, rfl, rfl, rfl, .rfl, fun m member => List.mem_of_mem_eraseIdx member⟩
  | finish => exact ⟨rfl, rfl, rfl, rfl, .rfl, fun m => id⟩

theorem CkptMove.keepsDummies (moved : CkptMove cfg p q) (guarded : p.Guarded) : KeepsDummies p q := by
  cases moved with
  | closeSlot here | casSlot here => exact ⟨rfl, rfl, rfl, rfl, SlotState.closeIdle_active, fun m => id⟩
  | setPhase here => exact ⟨Proc.endPass_dispatched .., rfl, rfl, rfl, .rfl, fun m => id⟩
  | test here i r entry flag completes => cases completes <;> exact ⟨rfl, rfl, rfl, rfl, .rfl, fun m => id⟩
  | buffer => exact ⟨rfl, rfl, rfl, rfl, .rfl, fun m member => List.mem_of_mem_eraseIdx member⟩
  | resetSlot here =>
    have inactive : p.slot ≠ .active := guarded.not_active (by rw [here]; rfl)
    exact ⟨rfl, rfl, rfl, rfl, by simp [inactive, Proc.goto], fun m => id⟩
  | _ => exact ⟨rfl, rfl, rfl, rfl, .rfl, fun m => id⟩

theorem CkptMove.pastSend (moved : CkptMove cfg p q) (past : q.pastSend cfg) : p.pastSend cfg := by
  cases moved with
  | notices here | probed here | setPhase here =>
    cases noBarrier : cfg.drainHasNoBarrier <;> simp_all [Proc.pastSend, Proc.goto, Proc.endPass]
  | pass here =>
    rcases d : p.locals.dummyPass with _ | _ | _ | _ | d <;>
      simp_all [Proc.pastSend, Proc.goto, Proc.setLocals, Proc.passTurn]
  | test here i r entry flag completes => cases completes <;> exact past
  | iterate here more =>
    simp only [Proc.pastSend, Proc.goto, Proc.setLocals, Locals.nextPass] at past
    split at past <;> simp_all [Proc.pastSend]
  | await id here | buffer here =>
    exact .inl (by simpa [Proc.pastSend, Proc.goto, Proc.completeRequest, Proc.clear, Proc.countReceived,
      Proc.recvMsgIntoInternalBuffer] using past)
  | _ here => simp_all [Proc.pastSend, Proc.goto, Proc.setLocals]

theorem Proc.dummyPass_of_loop (placed : p.Placed cfg) {i pass : Nat} (here : p.stage cfg db = .loop i pass)
    (late : 2 ≤ pass) : pass ≤ p.locals.dummyPass ∧ p.locals.dummyPass ≤ pass + 1 := by
  cases pc : p.ckpt with
  | p2pStart | closeSlot | notices =>
    have start : p.locals = .start := by simpa only [Proc.Placed, pc] using placed
    simp only [Proc.stage, pc, start, Locals.start] at here
    split at here
    · simp only [Stage.loop.injEq] at here
      omega
    · cases here
  | verdict =>
    simp only [Proc.stage, pc, Locals.nextPass] at here
    split at here
    · cases here
    · simp only [Stage.loop.injEq] at here
      obtain ⟨-, same⟩ := here
      split at same <;> omega
  | pass | sampleRecv | sampleSlot | contribute | reduce =>
    simp only [Proc.stage, pc, Stage.loop.injEq] at here
    omega
  | complete | probe | matchLog | readSlot | buffer | await | casSlot | publish | setPhase | post | send =>
    simp only [Proc.stage, pc] at here
    split at here
    · simp only [Stage.loop.injEq] at here
      omega
    · cases here
  | getSent | getRecv | decideRound =>
    simp only [Proc.stage, pc] at here
    split at here <;> cases here
  | _ =>
    simp only [Proc.stage, pc] at here
    cases here

theorem Proc.ckpt_of_posting (here : p.stage cfg db = .posting) :
    cfg.drainHasNoBarrier = false ∧ p.ckpt = .post ∨ p.ckpt = .postedBarrier := by
  cases pc : p.ckpt with
  | postedBarrier => exact .inr rfl
  | post =>
    simp only [Proc.stage, pc] at here
    split at here
    · cases here
    · next barrier => exact .inl ⟨by simpa using barrier, rfl⟩
  | p2pStart | closeSlot | notices | verdict | complete | probe | matchLog | readSlot | buffer | await | casSlot | publish
  | setPhase | send | getSent | getRecv | decideRound =>
    simp only [Proc.stage, pc] at here
    split at here <;> cases here
  | _ =>
    simp only [Proc.stage, pc] at here
    cases here

end Keeps

/-- While dummies are posted, all ranks have set `p2p_dummy_phase` and none has sent dummies. -/
def Stage.posts (cfg : Config n) (stage : Stage) : Prop :=
  cfg.drainHasNoBarrier = false ∧ stage = .posting ∨ cfg.drainHasNoBarrier = true ∧ ∃ i, stage = .loop i 2

section Posting
variable {cfg : Config n} {db : Db n} {p : Proc n} {stage : Stage}

theorem Proc.posts_of_post (placed : p.Placed cfg) (here : p.ckpt = .post) : (p.stage cfg db).posts cfg := by
  simp only [Proc.Placed, here] at placed
  cases noBarrier : cfg.drainHasNoBarrier with
  | true => exact .inr ⟨noBarrier, p.locals.iterations, by simp [Proc.stage, here, noBarrier, placed noBarrier]⟩
  | false => exact .inl ⟨noBarrier, by simp [Proc.stage, here, noBarrier]⟩

theorem Stage.posts.told (posts : stage.posts cfg) (placed : p.Placed cfg) (here : p.stage cfg db = stage) : p.told := by
  rcases posts with ⟨-, rfl⟩ | ⟨-, i, rfl⟩
  · rcases Proc.ckpt_of_posting here with ⟨-, pc⟩ | pc <;> exact .inr (by simp [pc])
  · exact .inl (Proc.dummyPass_of_loop placed here (Nat.le_refl 2)).1

theorem Stage.posts.not_pastSend (posts : stage.posts cfg) (placed : p.Placed cfg) (here : p.stage cfg db = stage) :
    ¬p.pastSend cfg := by
  rcases posts with ⟨barrier, rfl⟩ | ⟨noBarrier, i, rfl⟩
  · rcases Proc.ckpt_of_posting here with ⟨-, pc⟩ | pc <;> simp [Proc.pastSend, pc, barrier]
  · have early := (Proc.dummyPass_of_loop placed here (Nat.le_refl 2)).2
    rintro (⟨-, late⟩ | pc | ⟨barrier, -⟩)
    · omega
    · simp [Proc.stage, pc] at here
    · rw [noBarrier] at barrier
      cases barrier

end Posting

section Answers
variable {cfg : Config n} {s t : State n} {stage : Stage} {a : Action n}
variable {r : Fin n} {q p : Proc n} {o : Option (Post n)} {db : Db n}

theorem Drains.keeps_answered (drains : Drains cfg s stage) (grows : Grows (s.proc r) q) (classified : q.Classified)
    (conserves : q.Conserves) (keeps : KeepsDummies (s.proc r) q)
    (phase : ∀ q', 1 ≤ (s.proc q').posted → q.dummyPhase = true)
    (past : q.pastSend cfg → (s.proc r).pastSend cfg ∨ (s.db.dummies r).length ≤ q.locals.dispatched)
    (same : db.dummies = s.db.dummies) : State.Answered cfg { (s.setProc r q) with db := db } := by
  have before := (drains.classified r).outstanding_dummy (drains.sound r).conserves
  have after := classified.outstanding_dummy conserves
  rw [grows.addressed, keeps.discarded] at after
  have due : q.due = (s.proc r).due := by simp only [Proc.due, keeps.posted, keeps.slot]
  exact drains.answered.setProc same ⟨keeps.dispatched, keeps.posted, by omega, .inl keeps.pending,
    fun m member _ => keeps.inbox m member, phase, past⟩

theorem AppMove.real (moved : AppMove r p q o) : ∀ x ∈ o, x.dummy = false := by
  have real : ∀ comm dest tag, ∀ x ∈ Proc.outgoing r comm dest tag, x.dummy = false := by
    intro comm dest tag x member
    cases dest with
    | rank d =>
      cases member
      rfl
    | any | procNull => cases member
  cases moved with
  | isend type comm dest tag enters sends known => exact real comm dest tag
  | send comm dest tag enters known => exact real comm dest tag
  | _ => exact fun x member => by cases member

theorem Drains.db_answered (drains : Drains cfg s stage) (moved : DbMove cfg r s.db (s.proc r) q db) :
    State.Answered cfg { (s.setProc r q) with db := db } := by
  have grows := moved.grows
  have classified := moved.classified (drains.classified r)
  have conserves := moved.conserves (drains.sound r).conserves
  have inStage := (@Move.db n cfg s r _ _ moved).inStage drains.inStage (by simp)
  have phased := drains.move_phased (@Move.db n cfg s r _ _ moved) (by simp)
  have phase : ∀ q', 1 ≤ (s.proc q').posted → (s.proc r).dummyPhase = true := (drains.answered.phase · r)
  cases moved with
  | post here blocked sender d made =>
    have posts : stage.posts cfg := drains.inStage.same r ▸ Proc.posts_of_post (drains.inStage.placed r) here
    have none := (drains.phased r).not_posted (Proc.not_pastPost_of_mem (drains.inStage.placed r) (by simp [here]))
    refine drains.answered.post made none ((drains.phased r).active blocked none) (Proc.endPass_dispatched ..)
      (by simp [Proc.endPass, none]) rfl rfl rfl rfl ?_ ?_
    · exact fun r' => (phased r').told (posts.told (inStage.placed r') (inStage.same r'))
    · exact fun r' => posts.not_pastSend (inStage.placed r') (inStage.same r')
  | noPost here unblocked =>
    refine drains.keeps_answered grows classified conserves
      ⟨Proc.endPass_dispatched .., rfl, rfl, rfl, .rfl, fun m => id⟩ phase (fun past => .inl ?_) rfl
    cases noBarrier : cfg.drainHasNoBarrier <;> simp_all [Proc.pastSend, Proc.endPass]
  | _ here =>
    refine drains.keeps_answered grows classified conserves ⟨rfl, rfl, rfl, rfl, .rfl, fun m => id⟩ phase
      (fun past => .inl ?_) rfl
    simp_all [Proc.pastSend, Proc.goto, Proc.setLocals]

theorem Drains.send_answered (drains : Drains cfg s stage) (moved : SendMove cfg r s.db (s.proc r) q o) :
    ((s.setProc r q).deliver o).Answered cfg := by
  have placed := drains.inStage.placed r
  have grows := moved.grows
  have classified := moved.classified (drains.classified r)
  have conserves := moved.conserves (drains.sound r).conserves
  have phase : ∀ q', 1 ≤ (s.proc q').posted → (s.proc r).dummyPhase = true := (drains.answered.phase · r)
  cases moved with
  | send here d record =>
    refine drains.answered.dispatch record ?_
    simp only [Proc.Placed, here] at placed
    rintro (⟨noBarrier, late⟩ | pc | ⟨-, pc | pc⟩)
    · have := placed noBarrier
      omega
    all_goals simp [here] at pc
  | sent here all =>
    refine drains.keeps_answered grows classified conserves
      ⟨Proc.endPass_dispatched .., rfl, rfl, rfl, .rfl, fun m => id⟩ phase (fun _ => .inr ?_) rfl
    rw [Proc.endPass_dispatched]
    exact all
  | ack here dest tag =>
    have own := drains.keeps_answered grows classified conserves ⟨rfl, rfl, rfl, rfl, .rfl, fun m => id⟩ phase .inl rfl
    exact own.deliver_real fun x member => by
      cases member
      rfl

theorem Drains.move_answered (drains : Drains cfg s stage) (moved : Move cfg s a t) (kept : keepsDummies s a)
    (inside : ∀ sync, a ≠ .release sync) : t.Answered cfg := by
  have after := drains.move_classified moved kept
  have sound := moved.sound drains.sound
  cases moved with
  | app r a moved => exact (drains.app_answered moved).deliver_real moved.real
  | ckpt r a moved =>
    have classified := after r
    have conserves := (sound r).conserves
    rw [State.setProc_own] at classified conserves
    refine drains.keeps_answered moved.grows classified conserves (moved.keepsDummies (drains.sound r).guarded)
      (fun q' isPosted => ?_) (fun past => .inl (moved.pastSend past)) rfl
    have set := drains.answered.phase q' r isPosted
    cases moved with
    | test here i r entry flag completes => cases completes <;> exact set
    | setPhase => rfl
    | resetPhase here =>
      -- The threads are suspended: the records of the checkpoint are gone.
      have free : stage = .free := by
        rw [← drains.inStage.same r]
        simp only [Proc.stage, here]
      have none := drains.not_posted (by rw [free]; rfl) q'
      omega
    | _ => exact set
  | db r moved => exact drains.db_answered moved
  | send r a moved => exact drains.send_answered moved
  | lower r a moved =>
    have classified := after r
    have conserves := (sound r).conserves
    rw [State.setProc_own] at classified conserves
    refine drains.keeps_answered moved.grows classified conserves moved.keepsDummies
      (fun q' isPosted => ?_) (fun past => .inl ?_) rfl
    · have set := drains.answered.phase q' r isPosted
      cases moved <;> exact set
    · rw [Proc.pastSend, moved.control.1, moved.control.2] at past
      exact past
  | release sync all => exact absurd rfl (inside sync)

theorem State.deliver_db (s : State n) (o : Option (Post n)) : (s.deliver o).db = s.db := by
  cases o <;> rfl

theorem DbMove.not_free {me : Fin n} {db' : Db n} (moved : DbMove cfg me db p q db') : p.stage cfg db ≠ .free := by
  cases moved with
  | publish here | post here | noPost here | getSent here | getRecv here =>
    simp only [Proc.stage, here]
    split <;> simp
  | _ here => simp [Proc.stage, here]

theorem Drains.move (drains : Drains cfg s stage) (moved : Move cfg s a t) (kept : keepsDummies s a)
    (inside : ∀ sync, a ≠ .release sync) : Drains cfg t stage where
  sound := moved.sound drains.sound
  inStage := moved.inStage drains.inStage inside
  quiet := drains.move_quiet moved inside
  classified := drains.move_classified moved kept
  phased := drains.move_phased moved inside
  finished := drains.move_finished moved inside
  answered := drains.move_answered moved kept inside
  fresh := by
    rintro rfl
    have empty := drains.fresh rfl
    cases moved with
    | app r a moved | send r a moved => exact (State.deliver_db _ _).trans empty
    | ckpt r a moved => exact empty
    | db r moved =>
      have here := drains.inStage.same r
      exact absurd here moved.not_free
    | lower r a moved => exact empty
    | release sync all => exact absurd rfl (inside sync)
  registers := by
    rintro k rfl
    exact (drains.registers k rfl).move moved drains.inStage drains.sound inside

end Answers

section Release
variable {cfg : Config n} {s : State n} {stage next : Stage} {sync : Sync}

def State.released (s : State n) (sync : Sync) : State n where
  proc q := (s.proc q).released s.sums sync
  db := if sync = .suspend then .empty else s.db

theorem Drains.quiet_of_counts (drains : Drains cfg s stage) (balanced : s.Balanced)
    (enough : ∑ r, (s.proc r).sent ≤ ∑ r, (s.proc r).recv) : ∀ r, (s.proc r).outstanding Msg.isReal = 0 := by
  have total : ∑ r, (s.proc r).sent = ∑ r, (s.proc r).recv + ∑ r, (s.proc r).outstanding Msg.isReal := by
    rw [balanced.total, ← Finset.sum_add_distrib]
    exact Finset.sum_congr rfl fun r _ => ((drains.classified r).outstanding_real (drains.sound r).conserves).symm
  have none : ∑ r, (s.proc r).outstanding Msg.isReal = 0 := by omega
  exact fun r => Finset.sum_eq_zero_iff.mp none r (Finset.mem_univ r)

/-- The sums of the counters were sampled before now: what was sent then is sent now, and what
was counted then is counted now. -/
theorem Drains.quiet_of_received (drains : Drains cfg s stage) (balanced : s.Balanced)
    (sampled : ∀ r, (s.proc r).Sampled) (all : ∀ q, (s.proc q).ckpt.waitsAt = some .reduce)
    (received : s.sums.received = true) : ∀ r, (s.proc r).outstanding Msg.isReal = 0 := by
  refine drains.quiet_of_counts balanced ?_
  have counts : s.sums.sent ≤ s.sums.recv := by
    simp only [Counters.received, Bool.and_eq_true, decide_eq_true_eq] at received
    exact received.1.1
  calc ∑ r, (s.proc r).sent
      = s.sums.sent := Finset.sum_congr rfl fun r _ => ((sampled r).sent (CkptPc.eq_place (all r))).symm
    _ ≤ s.sums.recv := counts
    _ = ∑ r, (s.proc r).locals.contribution.recv := rfl
    _ ≤ ∑ r, (s.proc r).recv := Finset.sum_le_sum fun r _ => (sampled r).recv (CkptPc.eq_place (all r))

theorem Drains.release_quiet (drains : Drains cfg s stage) (balanced : s.Balanced) (sampled : ∀ r, (s.proc r).Sampled)
    (all : ∀ q, (s.proc q).ckpt.waitsAt = some sync) (moves : StageStep cfg s sync stage next)
    (calm : next.calm = true) : ∀ r, (s.proc r).outstanding Msg.isReal = 0 := by
  cases before : stage.calm with
  | true => exact drains.quiet before
  | false =>
    cases moves with
    | startLoop | startRounds => cases calm
    | iterate i pass more =>
      have first : pass = 0 := by simpa [Stage.calm] using before
      subst first
      refine drains.quiet_of_received balanced sampled all ?_
      by_contra missing
      simp [Stage.calm, Counters.nextPass, missing] at calm
    | finish i pass ends =>
      refine drains.quiet_of_received balanced sampled all ?_
      simp only [Counters.over, Bool.and_eq_true] at ends
      exact ends.1.1
    | again k more => cases calm
    | leave k enough =>
      have keys := (drains.registers k rfl).complete fun r => CkptPc.eq_place (all r)
      exact drains.quiet_of_counts balanced (by omega)
    | suspend => cases calm
    | done | published | posted | dummiesSent => cases before

/-- The test that ends the loop of `drainWithoutBarriers` also finds no pending send and no
published receive. -/
theorem finished_of_over (sampled : ∀ r, (s.proc r).Sampled)
    (all : ∀ q, (s.proc q).ckpt.waitsAt = some .reduce) (ends : s.sums.over = true) (r : Fin n) :
    (s.proc r).pendingIsends = 0 ∧ (s.proc r).slot ≠ .active := by
  simp only [Counters.over, Counters.received, Bool.and_eq_true, beq_iff_eq] at ends
  obtain ⟨⟨⟨⟨-, isends⟩, -⟩, inRecv⟩, -⟩ := ends
  have pc := CkptPc.eq_place (all r)
  have noIsends : (s.proc r).locals.contribution.isends = 0 :=
    Finset.sum_eq_zero_iff.mp (show ∑ q, (s.proc q).locals.contribution.isends = 0 from isends) r (Finset.mem_univ r)
  have noRecv : (s.proc r).locals.contribution.inRecv = 0 :=
    Finset.sum_eq_zero_iff.mp (show ∑ q, (s.proc q).locals.contribution.inRecv = 0 from inRecv) r (Finset.mem_univ r)
  exact ⟨Nat.le_zero.mp (noIsends ▸ (sampled r).isends pc), (sampled r).inRecv pc noRecv⟩

theorem Drains.release_finished (drains : Drains cfg s stage) (sampled : ∀ r, (s.proc r).Sampled)
    (all : ∀ q, (s.proc q).ckpt.waitsAt = some sync) (moves : StageStep cfg s sync stage next) (r : Fin n) :
    ((s.proc r).released s.sums sync).Finished cfg next := by
  have finished := drains.finished r
  have placed := drains.inStage.placed r
  have pc := CkptPc.eq_place (all r)
  cases moves with
  | startLoop | startRounds | iterate | again | leave | suspend =>
    refine ⟨?_, ?_⟩ <;> simp [Proc.flushed, Proc.released, Proc.goto]
  | finish i pass ends =>
    have done := finished_of_over sampled all ends r
    exact ⟨fun _ => done.1, fun _ _ => done.2⟩
  | done i =>
    have noBarrier : cfg.drainHasNoBarrier = true := by simpa only [Proc.Placed, pc, Sync.place] using placed
    have ends : (s.proc r).flushed cfg (.finished i) := by simp [Proc.flushed, noBarrier]
    exact ⟨fun _ => finished.isends ends, fun _ _ => finished.slot noBarrier (.inr ⟨i, rfl⟩)⟩
  | published k | posted | dummiesSent =>
    have barrier : cfg.drainHasNoBarrier = false := by simpa only [Proc.Placed, pc, Sync.place] using placed
    refine ⟨fun _ => finished.isends ?_, fun noBarrier => ?_⟩
    · simp [Proc.flushed, barrier, pc, Sync.place]
    · rw [barrier] at noBarrier
      cases noBarrier

theorem Proc.released_keeps (p : Proc n) (sums : Counters) (inside : sync ≠ .suspend) :
    KeepsDummies p (p.released sums sync) ∧ (p.released sums sync).held = p.held ∧
      (p.released sums sync).inbox = p.inbox ∧ (p.released sums sync).dummyPhase = p.dummyPhase := by
  cases sync with
  | suspend => exact absurd rfl inside
  | _ => exact ⟨⟨rfl, rfl, rfl, rfl, .rfl, fun m => id⟩, rfl, rfl, rfl⟩

theorem Proc.released_pastSend {p : Proc n} {sums : Counters} (waits : p.ckpt.waitsAt = some sync)
    (placed : p.Placed cfg) (past : (p.released sums sync).pastSend cfg) : p.pastSend cfg := by
  have pc := CkptPc.eq_place waits
  cases sync <;>
    simp_all [Sync.place, Proc.Placed, Proc.pastSend, Proc.released, Proc.goto, Proc.setLocals, Locals.start]

theorem Drains.suspend_outstanding (drains : Drains cfg s stage) (all : ∀ q, (s.proc q).ckpt.waitsAt = some .suspend)
    (r : Fin n) : (s.proc r).outstanding Msg.dummy = 0 := by
  have pc := CkptPc.eq_place (all r)
  by_contra some
  have active := (drains.answered.of_outstanding (Nat.one_le_iff_ne_zero.mpr some)).2
  exact (drains.sound r).guarded.not_active (by rw [pc]; rfl) active

theorem Drains.release_answered (drains : Drains cfg s stage) (all : ∀ q, (s.proc q).ckpt.waitsAt = some sync) :
    (s.released sync).Answered cfg := by
  have answered := drains.answered
  by_cases suspends : sync = .suspend
  · subst suspends
    have none : ∀ r, ((s.released .suspend).proc r).outstanding Msg.dummy = 0 := drains.suspend_outstanding all
    refine ⟨fun r => ?_, fun r => ?_, fun q d isUnsent => ?_, fun r m member isDummy => ?_, fun q r isPosted => ?_,
      fun r => Nat.le_refl 0, fun r _ => rfl⟩
    · rw [none]
      simp [State.unsent, State.unsentBy, State.released, Db.empty, Proc.due, Proc.released, Proc.goto]
    · simp [State.records, State.released, Db.empty, Proc.released, Proc.goto]
    · simp [State.unsentBy, State.released, Db.empty] at isUnsent
    · have some := Proc.outstanding_of_inbox member isDummy
      have := none r
      omega
    · simp [State.released, Proc.released, Proc.goto] at isPosted
  · refine answered.of_keepsDue (congrArg Db.dummies (if_neg suspends)) fun r => ?_
    obtain ⟨keeps, held, inbox, phase⟩ := (s.proc r).released_keeps s.sums suspends
    refine ⟨keeps.dispatched, keeps.posted, ?_, .inl keeps.pending, fun m member _ => keeps.inbox m member,
      fun q' isPosted => phase.trans (answered.phase q' r isPosted),
      fun past => .inl (Proc.released_pastSend (all r) (drains.inStage.placed r) past)⟩
    simp only [Proc.outstanding, Proc.due, State.released, held, inbox, keeps.posted, keeps.slot]

theorem Registers.start {s : State n} {k : Nat} (sent : ∀ j, k ≤ j → s.db.sent j = 0 ∧ s.db.recv j = 0)
    (away : ∀ r, (s.proc r).ckpt ≠ .regRecv ∧ (s.proc r).ckpt ≠ .regBarrier) : Registers s k := by
  have zero := fun r => Proc.registered_eq_zero (away r).1 (away r).2
  refine ⟨?_, ?_, fun j later => sent j (Nat.le_of_lt later)⟩
  · simp only [(zero _).1, Finset.sum_const_zero]
    exact (sent k (Nat.le_refl k)).1
  · rw [(sent k (Nat.le_refl k)).2]
    exact Nat.zero_le _

/-- The ranks go on to the next stage together. -/
theorem Drains.release [NeZero n] (drains : Drains cfg s stage) (balanced : s.Balanced)
    (sampled : ∀ r, (s.proc r).Sampled) (all : ∀ q, (s.proc q).ckpt.waitsAt = some sync) :
    ∃ next, StageStep cfg s sync stage next ∧ Drains cfg (s.released sync) next := by
  obtain ⟨next, moves, inNext⟩ := drains.inStage.release all
  have outstanding : ∀ r, ((s.released sync).proc r).outstanding Msg.isReal = (s.proc r).outstanding Msg.isReal := by
    intro r
    cases sync <;> rfl
  refine ⟨next, moves, (@Move.release n cfg s sync all).sound drains.sound, inNext, fun calm r => ?_,
    fun r => (drains.classified r).released _ _, fun r => (drains.phased r).released (drains.inStage.placed r) s (all r) moves,
    drains.release_finished sampled all moves, drains.release_answered all, ?_, ?_⟩
  · rw [outstanding]
    exact drains.release_quiet balanced sampled all moves calm r
  · rintro rfl
    cases moves with
    | suspend => rfl
  · rintro k rfl
    cases moves with
    | startRounds barrier =>
      refine .start (fun j _ => ?_) fun r => ?_
      · have empty : (s.released .drainSendRecv).db = .empty := drains.fresh rfl
        rw [empty]
        exact ⟨rfl, rfl⟩
      · simp [State.released, Proc.released, Proc.goto]
    | again k more =>
      refine .start (fun j later => (drains.registers k rfl).later j later) fun r => ?_
      simp [State.released, Proc.released, Proc.goto]

end Release

theorem Drains.initial (cfg : Config n) : Drains cfg ({ proc := fun _ => .initial, db := .empty } : State n) .free where
  sound _ := Proc.initial_sound
  inStage := ⟨fun _ => rfl, fun _ => rfl⟩
  quiet calm := by cases calm
  classified _ := by
    refine ⟨?_, ?_, ?_, ?_, ?_, trivial⟩ <;> simp [Proc.initial]
  phased _ := .of_start rfl rfl (by simp [Proc.initial]) (by simp [Proc.initial])
  finished _ := ⟨fun _ => rfl, fun _ _ => by simp [Proc.initial]⟩
  answered := by
    refine ⟨fun r => ?_, fun r => ?_, ?_, ?_, ?_, fun r => Nat.le_refl 0, fun r _ => rfl⟩ <;>
      simp [State.unsent, State.unsentBy, State.records, Db.empty, Proc.initial, Proc.outstanding, Proc.held, AppPc.held,
        Proc.due]
  fresh _ := rfl
  registers k wrong := by cases wrong

theorem reachable_drains [NeZero n] {cfg : Config n} {s : State n}
    (reached : Reachable ((machine cfg).restrict keepsDummies) s) : ∃ stage, Drains cfg s stage := by
  refine Reachable.invariant (fun s => ∃ stage, Drains cfg s stage) ?_ ?_ reached
  · rintro _ rfl
    exact ⟨.free, Drains.initial cfg⟩
  · rintro s a t before ⟨stage, drains⟩ taken
    obtain ⟨kept, taken⟩ := restrict_step.mp taken
    have reached := before.of_restrict
    by_cases releases : ∃ sync, a = .release sync
    · obtain ⟨sync, rfl⟩ := releases
      cases step_move taken with
      | release _ all =>
        obtain ⟨next, -, inNext⟩ := drains.release (reachable_balanced reached) (reachable_sampled reached) all
        exact ⟨next, inNext⟩
    · exact ⟨stage, drains.move (step_move taken) kept fun sync isRelease => releases ⟨sync, isRelease⟩⟩

end Mana.P2p
