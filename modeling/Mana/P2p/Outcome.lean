import Mana.P2p.Quiet

/-! What a drain leaves behind, and which messages a blocked `MPI_Recv` takes for dummies. -/

namespace Mana.P2p
open Mana.Lib Mana.Collective Option

variable {n : Nat}

section Classification
variable {cfg : Config n} {s t u : State n} {r : Fin n}

def notSuspended (r : Fin n) (s : State n) : Prop := (s.proc r).ckpt.suspends = false

theorem neZero_of_rank (r : Fin n) : NeZero n := ⟨by have := r.isLt; omega⟩

variable {p q : Proc n} {me r' : Fin n} {db db' : Db n} {o : Option (Post n)} {a : Action n}

theorem Proc.start_of_suspends (placed : p.Placed cfg) (suspends : p.ckpt.suspends = true) : p.locals = .start := by
  cases pc : p.ckpt with
  | suspended | resumePhase | resumeSlot | acks => simpa only [Proc.Placed, pc] using placed
  | _ =>
    rw [pc] at suspends
    cases suspends

def BlockedStep (p q : Proc n) : Prop :=
  q.locals.blocked = p.locals.blocked ∨ q.ckpt.suspends = true ∨
    p.ckpt = .casSlot ∧ q.ckpt = .publish ∧ q.locals.blocked = (p.slot == SlotState.active)

theorem CkptMove.blocked (moved : CkptMove cfg p q) : BlockedStep p q := by
  cases moved with
  | casSlot here => exact .inr (.inr ⟨here, rfl, rfl⟩)
  | setPhase here => exact .inl (Proc.endPass_blocked ..)
  | test here i r entry flag completes => exact .inl (by rw [completes.control.2])
  | _ => exact .inl rfl

theorem DbMove.blocked (moved : DbMove cfg me db p q db') : q.locals.blocked = p.locals.blocked := by
  cases moved with
  | post | noPost => exact Proc.endPass_blocked ..
  | _ => rfl

theorem SendMove.blocked (moved : SendMove cfg me db p q o) : q.locals.blocked = p.locals.blocked := by
  cases moved with
  | sent here all => exact Proc.endPass_blocked ..
  | _ => rfl

theorem BlockedStep.setProc (own : BlockedStep (s.proc r') q) (r : Fin n) :
    BlockedStep (s.proc r) ((s.setProc r' q).proc r) := by
  by_cases same : r = r'
  · subst same
    rw [State.setProc_own]
    exact own
  · rw [State.setProc_other s q same]
    exact .inl rfl

theorem Move.blocked (moved : Move cfg s a t) (r : Fin n) : BlockedStep (s.proc r) (t.proc r) := by
  have delivered : ∀ (v : State n) (o : Option (Post n)), ((v.deliver o).proc r).locals.blocked = (v.proc r).locals.blocked :=
    fun v o => State.deliver_same (s := v) (f := fun p => p.locals.blocked) (fun _ _ => rfl) o r
  cases moved with
  | app r' a moved =>
    refine .inl ((delivered _ _).trans ?_)
    exact State.setProc_same (f := fun p => p.locals.blocked) (by rw [moved.control.2]) r
  | ckpt r' a moved => exact moved.blocked.setProc r
  | db r' moved => exact BlockedStep.setProc (.inl moved.blocked) r
  | send r' a moved =>
    refine .inl ((delivered _ _).trans ?_)
    exact State.setProc_same (f := fun p => p.locals.blocked) moved.blocked r
  | lower r' a moved => exact BlockedStep.setProc (.inl (by rw [moved.control.2])) r
  | release sync all => cases sync <;> first | exact .inl rfl | exact .inr (.inl rfl)

def Proc.afterCas (cfg : Config n) (p : Proc n) : Prop :=
  p.ckpt = .publish ∨ p.ckpt = .setPhase ∨
    if cfg.drainHasNoBarrier then 2 ≤ p.locals.dummyPass
    else p.ckpt ∈ [CkptPc.publishedBarrier, .post, .postedBarrier, .send, .sentBarrier, .drained, .suspendBarrier]

theorem Proc.afterCas.ne_casSlot (after : p.afterCas cfg) (placed : p.Placed cfg) : p.ckpt ≠ .casSlot := by
  intro here
  simp only [Proc.Placed, here] at placed
  rcases after with pc | pc | later
  · simp [here] at pc
  · simp [here] at pc
  · split at later
    · next noBarrier =>
      have := placed noBarrier
      omega
    · simp [here] at later

theorem Proc.afterCas.congr (after : p.afterCas cfg) (ckpt : q.ckpt = p.ckpt) (locals : q.locals = p.locals) :
    q.afterCas cfg := by
  rw [Proc.afterCas, ckpt, locals]
  exact after

theorem CkptMove.afterCas (moved : CkptMove cfg p q) (after : p.afterCas cfg) (placed : p.Placed cfg)
    (awake : q.ckpt.suspends = false) : q.afterCas cfg := by
  cases moved with
  | test here i r entry flag completes => exact after.congr completes.control.1 completes.control.2
  | notices here =>
    have start : p.locals = .start := by simpa only [Proc.Placed, here] using placed
    cases noBarrier : cfg.drainHasNoBarrier <;> simp_all [Proc.afterCas, Locals.start]
  | pass here =>
    rcases d : p.locals.dummyPass with _ | _ | _ | _ | d <;>
      simp_all [Proc.afterCas, Proc.Placed, Proc.goto, Proc.setLocals, Proc.passTurn]
  | await id here | buffer here =>
    cases noBarrier : cfg.drainHasNoBarrier <;>
      simp_all [Proc.afterCas, Proc.goto, Proc.completeRequest, Proc.clear, Proc.countReceived,
        Proc.recvMsgIntoInternalBuffer]
  | iterate here more =>
    simp only [Proc.Placed, here] at placed
    have late : 2 ≤ p.locals.dummyPass := by simpa [Proc.afterCas, here, placed.1] using after
    have kept : p.locals.nextPass = p.locals.dummyPass := by
      unfold Locals.nextPass
      rw [if_neg (by omega)]
    exact .inr (.inr (by simpa [Proc.goto, Proc.setLocals, placed.1, kept] using late))
  | _ here =>
    cases noBarrier : cfg.drainHasNoBarrier <;>
      simp_all [Proc.afterCas, Proc.Placed, Proc.goto, Proc.setLocals, Proc.endPass, CkptPc.suspends]

theorem DbMove.afterCas (moved : DbMove cfg me db p q db') (after : p.afterCas cfg) : q.afterCas cfg := by
  cases moved <;> cases noBarrier : cfg.drainHasNoBarrier <;>
    simp_all [Proc.afterCas, Proc.goto, Proc.setLocals, Proc.endPass]

theorem SendMove.afterCas (moved : SendMove cfg me db p q o) (after : p.afterCas cfg) : q.afterCas cfg := by
  cases moved with
  | ack here dest tag => exact after.congr rfl rfl
  | _ => cases noBarrier : cfg.drainHasNoBarrier <;> simp_all [Proc.afterCas, Proc.setLocals, Proc.endPass]

theorem Proc.afterCas.released (after : p.afterCas cfg) (sums : Counters) {sync : Sync}
    (waits : p.ckpt.waitsAt = some sync) (placed : p.Placed cfg) (awake : (p.released sums sync).ckpt.suspends = false) :
    (p.released sums sync).afterCas cfg := by
  have pc := CkptPc.eq_place waits
  cases noBarrier : cfg.drainHasNoBarrier <;> cases sync <;>
    simp_all [Proc.afterCas, Proc.Placed, Sync.place, Proc.released, Proc.goto, Proc.setLocals, CkptPc.suspends]

theorem Proc.afterCas.setProc {r : Fin n} (after : (s.proc r).afterCas cfg) (own : r = r' → q.afterCas cfg) :
    ((s.setProc r' q).proc r).afterCas cfg := by
  by_cases same : r = r'
  · subst same
    rw [State.setProc_own]
    exact own rfl
  · rwa [State.setProc_other s q same]

theorem Move.afterCas (moved : Move cfg s a t) (placed : (s.proc r).Placed cfg) (after : (s.proc r).afterCas cfg)
    (awake : notSuspended r t) : (t.proc r).afterCas cfg := by
  have delivered : ∀ (v : State n) (o : Option (Post n)), (v.proc r).afterCas cfg → ((v.deliver o).proc r).afterCas cfg :=
    fun v o after => after.congr (State.deliver_same (s := v) (f := Proc.ckpt) (fun _ _ => rfl) o r)
      (State.deliver_same (s := v) (f := Proc.locals) (fun _ _ => rfl) o r)
  cases moved with
  | app r' a moved =>
    exact delivered _ _ (after.setProc fun same => by subst same; exact after.congr moved.control.1 moved.control.2)
  | ckpt r' a moved =>
    refine after.setProc fun same => ?_
    subst same
    rw [notSuspended, State.setProc_own] at awake
    exact moved.afterCas after placed awake
  | db r' moved => exact after.setProc fun same => by subst same; exact moved.afterCas after
  | send r' a moved => exact delivered _ _ (after.setProc fun same => by subst same; exact moved.afterCas after)
  | lower r' a moved =>
    exact after.setProc fun same => by subst same; exact after.congr moved.control.1 moved.control.2
  | release sync all => exact after.released _ (all r) placed awake

theorem blocked_of_within [NeZero n] (reached : Reachable ((machine cfg).restrict keepsDummies) t)
    (after : (t.proc r).afterCas cfg) (path : Within ((machine cfg).restrict keepsDummies) (notSuspended r) t u) :
    (u.proc r).locals.blocked = (t.proc r).locals.blocked := by
  refine (path.invariant (fun v => (v.proc r).afterCas cfg ∧ (v.proc r).locals.blocked = (t.proc r).locals.blocked)
    reached ⟨after, rfl⟩ ?_).2
  rintro v a w before - awake ⟨after, same⟩ taken
  have moved := step_move (restrict_step.mp taken).2
  obtain ⟨stage, drains⟩ := reachable_drains before
  have placed := drains.inStage.placed r
  refine ⟨moved.afterCas placed after awake, ?_⟩
  rcases moved.blocked r with kept | suspended | ⟨here, -⟩
  · exact kept.trans same
  · rw [notSuspended, suspended] at awake
    cases awake
  · exact absurd here (after.ne_casSlot placed)

theorem found_of_blocked [NeZero n] (reached : Reachable ((machine cfg).restrict keepsDummies) s)
    (blocked : (s.proc r).locals.blocked = true) :
    ∃ v, Reachable ((machine cfg).restrict keepsDummies) v ∧ (v.proc r).ckpt = .casSlot ∧ (v.proc r).slot = .active ∧
      Within ((machine cfg).restrict keepsDummies) (notSuspended r) v s := by
  induction reached with
  | start first =>
    cases first
    cases blocked
  | @next s t a before taken ih =>
    have moved := step_move (restrict_step.mp taken).2
    have after := before.next taken
    obtain ⟨stage, drains⟩ := reachable_drains after
    have awake : notSuspended r t := by
      cases suspends : (t.proc r).ckpt.suspends with
      | false => exact suspends
      | true =>
        rw [Proc.start_of_suspends (drains.inStage.placed r) suspends] at blocked
        cases blocked
    rcases moved.blocked r with kept | suspended | ⟨here, -, set⟩
    · obtain ⟨v, reachedV, begins, active, path⟩ := ih (kept ▸ blocked)
      exact ⟨v, reachedV, begins, active, path.next taken awake⟩
    · rw [notSuspended, suspended] at awake
      cases awake
    · have active : (s.proc r).slot = .active := by simpa [set] using blocked
      refine ⟨s, before, here, active, .next (.here ?_) taken awake⟩
      rw [notSuspended, here]
      rfl

/-- In blocking mode, as long as no pending `MPI_Irecv` takes a dummy: the read of
`p2p_dummy_phase` tells a dummy from a message of the application; a rank gets one dummy if its
slot is ACTIVE at the compare-and-swap of the dummy step and none otherwise, and none without
it; and an `MPI_Recv` in the lower half, or entering it, has its slot ACTIVE. -/
theorem dummy_classification (reached : Reachable ((machine cfg).restrict keepsDummies) s) (r : Fin n) :
    (∀ recv m, (s.proc r).app = .recvReturned recv m → ((s.proc r).dummyPhase = true ↔ m.dummy = true)) ∧
    (∀ t u, (s.proc r).ckpt = .casSlot → ((machine cfg).restrict keepsDummies).step s (.ckpt r .next) = some t →
      Within ((machine cfg).restrict keepsDummies) (notSuspended r) t u →
        ((s.proc r).slot ≠ .active → u.records r = 0) ∧
        ((s.proc r).slot = .active → u.records r ≤ 1 ∧
          ((u.proc r).pastPost cfg ∨ (u.proc r).ckpt = .suspendBarrier → u.records r = 1))) ∧
    (s.records r ≠ 0 → ∃ v, Reachable ((machine cfg).restrict keepsDummies) v ∧ (v.proc r).ckpt = .casSlot ∧
      (v.proc r).slot = .active ∧ Within ((machine cfg).restrict keepsDummies) (notSuspended r) v s) ∧
    (∀ recv posted, (s.proc r).app = .recvEntering recv ∨ (s.proc r).app = .recvBlocked recv posted →
      (s.proc r).slot = .active) := by
  have := neZero_of_rank r
  obtain ⟨stage, drains⟩ := reachable_drains reached
  refine ⟨fun recv m here => ?_, fun t u begins taken path => ?_, fun some => ?_, fun recv posted here => ?_⟩
  · rw [drains.reads here]
  · have afterwards := reached.next taken
    have cas : (t.proc r).ckpt = .publish ∧ (t.proc r).locals.blocked = ((s.proc r).slot == SlotState.active) := by
      obtain ⟨-, taken⟩ := restrict_step.mp taken
      simp only [machine, State.step, Proc.ckptLocal, begins, map_some, some.injEq] at taken
      subst taken
      rw [State.setProc_own]
      exact ⟨rfl, rfl⟩
    obtain ⟨last, drainsU⟩ := reachable_drains (path.reachable afterwards)
    have blocked := (blocked_of_within afterwards (.inl cas.1) path).trans cas.2
    have phased := drainsU.phased r
    rw [drainsU.answered.recorded]
    refine ⟨fun inactive => ?_, fun active => ?_⟩
    · by_contra some
      have set := (phased.posted (Nat.one_le_iff_ne_zero.mpr some)).2.1
      simp [blocked, inactive] at set
    · have set : (u.proc r).locals.blocked = true := by simp [blocked, active]
      have one : (u.proc r).posted ≠ 0 → (u.proc r).posted = 1 := fun some =>
        (phased.posted (Nat.one_le_iff_ne_zero.mpr some)).1
      refine ⟨?_, fun late => ?_⟩
      · by_cases none : (u.proc r).posted = 0
        · omega
        · exact (one none).le
      · rcases late with past | settled
        · exact phased.owed set past
        · refine one fun none => ?_
          exact (drainsU.sound r).guarded.not_active (by rw [settled]; rfl) (phased.active set none)
  · rw [drains.answered.recorded] at some
    exact found_of_blocked reached ((drains.phased r).posted (Nat.one_le_iff_ne_zero.mpr some)).2.1
  · refine (drains.sound r).guarded.slot.mpr ?_
    rcases here with here | here <;> rw [here] <;> rfl

end Classification

/-! Two ranks: rank 1 waits in `MPI_Recv` for a message of rank 0 when a checkpoint begins. -/

def pairConfig : Config 2 where
  blocking := true
  ckptTls := true
  members _ := List.finRange 2
  ackComm := 99

def steps (k : Nat) (r : Fin 2) : List (Action 2) := List.replicate k (.ckpt r .next)

def both (script : Fin 2 → List (Action 2)) : List (Action 2) := (List.finRange 2).flatMap script

def loopBody (r : Fin 2) : List (Action 2) := .ckpt r (.polled 0 0) :: steps 4 r

def blockedRecv : PendingRecv 2 := { comm := 0, source := .any, tag := some 5, count := 1, typeSize := 1 }

def blockActions (r : Fin 2) : List (Action 2) := .app r (.recv blockedRecv) :: List.replicate 6 (.app r .next)

def toCas : List (Action 2) :=
  both (steps 3) ++ [.release .drainSendRecv] ++ both (steps 4) ++ both loopBody ++ [.release .reduce] ++ both (steps 2)

def dummyStep (sender receiver : Fin 2) : List (Action 2) :=
  both (steps 1) ++ both (fun r => [.ckptDb r]) ++ both (steps 1) ++ both loopBody ++ [.release .reduce] ++ both (steps 2) ++
    both (fun r => [.ckptDb r]) ++ both loopBody ++ [.release .reduce] ++ both (steps 2) ++
    [.ckptSend sender .next, .ckptSend sender .next, .ckptSend receiver .next]

def firstState (n : Nat) : State n := { proc := fun _ => .initial, db := .empty }

theorem dummy_classification_two_ranks : ∃ s, Reachable ((machine pairConfig).restrict keepsDummies) s ∧
    (s.proc 1).app = .recvReturned blockedRecv ⟨0, ⟨0, 0, 5⟩, true⟩ ∧ (s.proc 1).dummyPhase = true := by
  have ran : ((((machine pairConfig).restrict keepsDummies).run (firstState 2)
      (blockActions 1 ++ toCas ++ dummyStep 0 1 ++ [.lower 1 (.takeRecv 0)])).map fun s => (s.proc 1).app) =
      some (.recvReturned blockedRecv ⟨0, ⟨0, 0, 5⟩, true⟩) := by
    decide +kernel
  obtain ⟨s, ran, returned⟩ := map_eq_some_iff.mp ran
  have reached : Reachable ((machine pairConfig).restrict keepsDummies) s := (Reachable.start rfl).run ran
  exact ⟨s, reached, returned, ((dummy_classification reached 1).1 _ _ returned).mpr rfl⟩

section Completeness
variable {cfg : Config n} {s : State n}

def Proc.leaves (cfg : Config n) (db : Db n) (p : Proc n) : Option Nat :=
  match p.stage cfg db with
  | .finished i | .left i => some i
  | _ => none

theorem Proc.Conserves.perm {p : Proc n} (conserves : p.Conserves) :
    (p.counted ++ p.discarded ++ p.held ++ p.inbox).Perm p.addressed := by
  refine List.perm_iff_count.mpr fun m => ?_
  simp only [List.count, List.countP_append]
  exact (conserves.messages _).symm

theorem Proc.Conserves.nodup {p : Proc n} (conserves : p.Conserves) : p.addressed.Nodup := by
  refine List.Nodup.of_map Msg.id ?_
  rw [conserves.ids]
  exact List.nodup_range

theorem Proc.dummy_of_quiet {p : Proc n} (quiet : p.outstanding Msg.isReal = 0) : ∀ m ∈ p.held ++ p.inbox, m.dummy = true := by
  intro m member
  have none : (p.held ++ p.inbox).countP Msg.isReal = 0 := by
    rw [List.countP_append]
    exact quiet
  simpa [Msg.isReal] using List.countP_eq_zero.mp none m member

/-- The counters of a drain. A rank's `local_sent_messages` is the number of messages of the
application that it has sent to a rank. Every message to a rank is counted as received,
discarded as a dummy, taken by a receive of the lower half, or not taken yet, and is one of
these once; `local_recv_messages` is the number of the first ones; those in MANA's buffer are
among them. When a rank leaves the loop of its drain, all ranks leave it in the same iteration,
and the lower halves hold no message of the application. At the end no send is pending. -/
theorem drain_completeness (reached : Reachable ((machine cfg).restrict keepsDummies) s) (r : Fin n) :
    (s.proc r).sent = s.sentCount (Msg.isFrom r) ∧
    (s.proc r).recv = (s.proc r).counted.length ∧
    ((s.proc r).counted ++ (s.proc r).discarded ++ (s.proc r).held ++ (s.proc r).inbox).Perm (s.proc r).addressed ∧
    (s.proc r).addressed.Nodup ∧
    (∀ m ∈ (s.proc r).counted, m.dummy = false) ∧ (∀ m ∈ (s.proc r).discarded, m.dummy = true) ∧
    (∀ m ∈ (s.proc r).queue, m ∈ (s.proc r).counted) ∧
    (∀ i, (s.proc r).leaves cfg s.db = some i → ∀ q, (s.proc q).leaves cfg s.db = some i ∧
      ∀ m ∈ (s.proc q).held ++ (s.proc q).inbox, m.dummy = true) ∧
    ((s.proc r).ckpt = .drained ∨ (s.proc r).ckpt = .suspendBarrier → (s.proc r).pendingIsends = 0) := by
  have := neZero_of_rank r
  obtain ⟨stage, drains⟩ := reachable_drains reached
  obtain ⟨guarded, handled, conserves⟩ := drains.sound r
  have classified := drains.classified r
  refine ⟨reachable_balanced reached.of_restrict r, conserves.recv, conserves.perm, conserves.nodup, classified.counted,
    classified.discarded, classified.buffered, fun i leaves q => ?_, fun ends => ?_⟩
  · have together : ∀ q, (s.proc q).leaves cfg s.db = some i := fun q => by
      rw [Proc.leaves, drains.inStage.same q, ← drains.inStage.same r]
      exact leaves
    refine ⟨together q, Proc.dummy_of_quiet (drains.quiet ?_ q)⟩
    rw [Proc.leaves, drains.inStage.same r] at leaves
    split at leaves
    · rfl
    · rfl
    · cases leaves
  · refine (drains.finished r).isends ?_
    have ended : stage = .ended := by
      rw [← drains.inStage.same r]
      rcases ends with pc | pc <;> simp only [Proc.stage, pc]
    unfold Proc.flushed
    split
    · exact .inl ended
    · rcases ends with pc | pc <;> simp [pc]

end Completeness

def bufferActions (sender receiver : Fin 2) : List (Action 2) :=
  [.app sender (.isend false 0 (.rank receiver) 5), .lower sender (.finish 0)] ++ both (steps 3) ++
    [.release .drainSendRecv] ++ both (steps 4) ++ [.ckpt sender (.test 0)] ++ loopBody sender ++
    [.ckpt receiver (.polled 0 0), .ckpt receiver (.probe 0)] ++ steps 2 receiver ++ [.ckpt receiver (.recv 0)] ++
      steps 4 receiver ++ [.release .reduce]

theorem drain_completeness_two_ranks : ∃ s, Reachable ((machine pairConfig).restrict keepsDummies) s ∧
    (s.proc 1).leaves pairConfig s.db = some 1 ∧ (s.proc 1).queue.length = 1 ∧
      ∀ m ∈ (s.proc 0).held ++ (s.proc 0).inbox, m.dummy = true := by
  have ran : ((((machine pairConfig).restrict keepsDummies).run (firstState 2) (bufferActions 0 1)).map
      fun s => ((s.proc 1).leaves pairConfig s.db, (s.proc 1).queue.length)) = some (some 1, 1) := by
    decide +kernel
  obtain ⟨s, ran, ends⟩ := map_eq_some_iff.mp ran
  simp only [Prod.mk.injEq] at ends
  have reached : Reachable ((machine pairConfig).restrict keepsDummies) s := (Reachable.start rfl).run ran
  obtain ⟨-, -, -, -, -, -, -, leaving, -⟩ := drain_completeness reached 1
  exact ⟨s, reached, ends.1, ends.2, (leaving 1 ends.1 0).2⟩

end Mana.P2p
