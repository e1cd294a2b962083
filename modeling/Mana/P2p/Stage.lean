import Mana.P2p.Moves

/-! All checkpoint threads go through the drain together: they take the same turns, since they
decide by the same sums. -/

namespace Mana.P2p
open Mana.Lib Mana.Collective Function

variable {n : Nat}

inductive Stage where
  | free
  /-- An iteration of `drainWithoutBarriers`, with the `dummy_pass` at its top. -/
  | loop (iteration pass : Nat)
  | finished (iteration : Nat)
  /-- `drainInFlightP2p` up to the barrier of a round. -/
  | rounds (round : Nat)
  /-- After the last round, up to the barrier `Published`. -/
  | left (rounds : Nat)
  | posting
  | sending
  | ended
  deriving DecidableEq, Repr

/-- The stage of a rank. After the barrier of a round it is decided by what the database holds,
before the rank has read it. -/
def Proc.stage (cfg : Config n) (db : Db n) (p : Proc n) : Stage :=
  let l := p.locals
  let noBarrier := cfg.drainHasNoBarrier
  match p.ckpt with
  | .running | .collective | .closing | .drainBarrier | .suspended | .resumePhase | .resumeSlot | .acks => .free
  | .p2pStart | .closeSlot | .notices => if noBarrier then .loop (l.iterations + 1) l.dummyPass else .rounds l.round
  | .pass => .loop (l.iterations + 1) l.dummyPass
  | .complete | .probe | .matchLog | .readSlot | .buffer | .await _ =>
      if noBarrier then .loop l.iterations (l.dummyPass - 1) else .rounds l.round
  | .sampleRecv | .sampleSlot | .contribute | .reduce => .loop l.iterations (l.dummyPass - 1)
  | .verdict => if l.sums.over then .finished l.iterations else .loop (l.iterations + 1) l.nextPass
  | .doneWait => .finished l.iterations
  | .regSent | .regRecv | .regBarrier => .rounds l.round
  | .getSent => if db.recv l.round < db.sent l.round then .rounds (l.round + 1) else .left (l.round + 1)
  | .getRecv => if db.recv l.round < l.globalSent then .rounds (l.round + 1) else .left (l.round + 1)
  | .decideRound => if l.globalRecv < l.globalSent then .rounds l.round else .left l.round
  | .isends | .publishedBarrier => .left l.round
  | .casSlot | .publish | .setPhase => if noBarrier then .loop l.iterations l.dummyPass else .left l.round
  | .post => if noBarrier then .loop l.iterations l.dummyPass else .posting
  | .postedBarrier => .posting
  | .send => if noBarrier then .loop l.iterations l.dummyPass else .sending
  | .sentBarrier => .sending
  | .drained | .suspendBarrier => .ended

/-- The pass that each place belongs to, and which of the two drains has the place. -/
def Proc.Placed (cfg : Config n) (p : Proc n) : Prop :=
  let d := p.locals.dummyPass
  match p.ckpt with
  | .running | .collective | .closing | .drainBarrier | .suspended | .resumePhase | .resumeSlot | .acks
  | .p2pStart | .closeSlot | .notices => p.locals = .start
  | .pass | .doneWait => cfg.drainHasNoBarrier = true
  | .complete | .probe | .matchLog | .readSlot | .buffer | .await _ => cfg.drainHasNoBarrier = true → d ≠ 1
  | .sampleRecv | .sampleSlot | .contribute | .reduce | .verdict => cfg.drainHasNoBarrier = true ∧ d ≠ 1
  | .casSlot | .publish | .setPhase => cfg.drainHasNoBarrier = true → d = 1
  | .post => cfg.drainHasNoBarrier = true → d = 2
  | .send => cfg.drainHasNoBarrier = true → d = 3
  | .regSent | .regRecv | .regBarrier | .getSent | .getRecv | .decideRound | .isends | .publishedBarrier
  | .postedBarrier | .sentBarrier => cfg.drainHasNoBarrier = false
  | _ => True

section Control
variable {cfg : Config n} {db : Db n} {p q : Proc n}

theorem Proc.endPass_blocked (cfg : Config n) (p : Proc n) (dummyPass : Nat) (barrier : CkptPc) :
    (p.endPass cfg dummyPass barrier).locals.blocked = p.locals.blocked := by
  simp only [Proc.endPass]
  split <;> rfl

theorem Proc.endPass_dispatched (cfg : Config n) (p : Proc n) (dummyPass : Nat) (barrier : CkptPc) :
    (p.endPass cfg dummyPass barrier).locals.dispatched = p.locals.dispatched := by
  simp only [Proc.endPass]
  split <;> rfl

theorem Proc.stage_congr (ckpt : q.ckpt = p.ckpt) (locals : q.locals = p.locals) :
    q.stage cfg db = p.stage cfg db := by
  simp only [Proc.stage, ckpt, locals]

theorem Proc.Placed.congr (placed : p.Placed cfg) (ckpt : q.ckpt = p.ckpt) (locals : q.locals = p.locals) :
    q.Placed cfg := by
  simp only [Proc.Placed, ckpt, locals]
  exact placed

variable {me : Fin n} {o : Option (Post n)} {db' : Db n}

theorem AppMove.control (moved : AppMove me p q o) : q.ckpt = p.ckpt ∧ q.locals = p.locals := by
  cases moved with
  | next awake moved => cases moved <;> exact ⟨rfl, rfl⟩
  | _ => exact ⟨rfl, rfl⟩

theorem LowerMove.control {a : LowerAct} (moved : LowerMove p a q) : q.ckpt = p.ckpt ∧ q.locals = p.locals := by
  cases moved <;> exact ⟨rfl, rfl⟩

theorem Completes.control {i : Nat} {r : Req n} (completes : Completes p i r q) :
    q.ckpt = p.ckpt ∧ q.locals = p.locals := by
  cases completes <;> exact ⟨rfl, rfl⟩

theorem CkptMove.placed (moved : CkptMove cfg p q) (placed : p.Placed cfg) :
    q.Placed cfg ∧ q.stage cfg db = p.stage cfg db := by
  cases moved with
  | test here i r entry flag completes =>
    have same := completes.control
    exact ⟨placed.congr same.1 same.2, Proc.stage_congr same.1 same.2⟩
  | notices here =>
    have start : p.locals = .start := by simpa only [Proc.Placed, here] using placed
    cases noBarrier : cfg.drainHasNoBarrier <;>
      simp [Proc.Placed, Proc.stage, Proc.goto, here, noBarrier]
  | pass here =>
    have noBarrier : cfg.drainHasNoBarrier = true := by simpa only [Proc.Placed, here] using placed
    match d : p.locals.dummyPass with
    | 0 | 1 | 2 | 3 | d' + 4 => simp [Proc.Placed, Proc.stage, Proc.goto, Proc.setLocals, Proc.passTurn, here, noBarrier, d]
  | await id here | buffer here =>
    simp only [Proc.Placed, here] at placed
    exact ⟨placed, by simp only [Proc.stage, here]; rfl⟩
  | _ =>
    cases noBarrier : cfg.drainHasNoBarrier <;>
      simp_all [Proc.Placed, Proc.stage, Proc.goto, Proc.setLocals, Proc.endPass]

theorem DbMove.placed (moved : DbMove cfg me db p q db') (placed : p.Placed cfg) :
    q.Placed cfg ∧ q.stage cfg db' = p.stage cfg db := by
  cases moved with
  | post here | noPost here =>
    cases noBarrier : cfg.drainHasNoBarrier <;> simp_all [Proc.Placed, Proc.stage, Proc.endPass]
  | _ => simp_all [Proc.Placed, Proc.stage, Proc.goto, Proc.setLocals]

theorem DbMove.stage_other {other : Proc n} (moved : DbMove cfg me db p q db')
    (together : other.stage cfg db = p.stage cfg db) : other.stage cfg db' = other.stage cfg db := by
  cases moved with
  | regSent here | regRecv here =>
    have round : p.stage cfg db = .rounds p.locals.round := by simp only [Proc.stage, here]
    cases pc : other.ckpt with
    | getSent | getRecv =>
      have past : other.locals.round ≠ p.locals.round := by
        intro same
        rw [round] at together
        simp only [Proc.stage, pc, same] at together
        split at together <;> simp at together
      simp only [Proc.stage, pc, update_of_ne past]
    | _ => simp only [Proc.stage, pc]
  | _ => rfl

theorem SendMove.placed (moved : SendMove cfg me db p q o) (placed : p.Placed cfg) :
    q.Placed cfg ∧ q.stage cfg db = p.stage cfg db := by
  cases moved with
  | send here d record => simp_all [Proc.Placed, Proc.stage, Proc.setLocals]
  | sent here all =>
    cases noBarrier : cfg.drainHasNoBarrier <;> simp_all [Proc.Placed, Proc.stage, Proc.endPass]
  | ack here dest tag => exact ⟨placed, rfl⟩

end Control

/-- `dummy_pass` at the top of the next iteration, from the one at the top of this. -/
def Counters.nextPass (sums : Counters) (pass : Nat) : Nat :=
  if sums.received ∧ sums.inRecv > 0 ∧ pass = 0 then 1 else if pass = 0 then 0 else pass + 1

theorem Locals.nextPass_eq {l : Locals} (pass : l.dummyPass ≠ 1) :
    l.nextPass = l.sums.nextPass (l.dummyPass - 1) := by
  unfold Locals.nextPass Counters.nextPass
  have zero : l.dummyPass - 1 = 0 ↔ l.dummyPass = 0 := by omega
  simp only [zero]
  split_ifs <;> omega

/-- How the ranks go from a stage to the next. -/
inductive StageStep (cfg : Config n) (s : State n) : Sync → Stage → Stage → Prop where
  | startLoop (noBarrier : cfg.drainHasNoBarrier = true) : StageStep cfg s .drainSendRecv .free (.loop 1 0)
  | startRounds (barrier : cfg.drainHasNoBarrier = false) : StageStep cfg s .drainSendRecv .free (.rounds 0)
  | iterate (i pass : Nat) (more : s.sums.over = false) :
      StageStep cfg s .reduce (.loop i pass) (.loop (i + 1) (s.sums.nextPass pass))
  | finish (i pass : Nat) (ends : s.sums.over = true) : StageStep cfg s .reduce (.loop i pass) (.finished i)
  | done (i : Nat) : StageStep cfg s .done (.finished i) .ended
  | again (k : Nat) (more : s.db.recv k < s.db.sent k) : StageStep cfg s .register (.rounds k) (.rounds (k + 1))
  | leave (k : Nat) (enough : s.db.sent k ≤ s.db.recv k) : StageStep cfg s .register (.rounds k) (.left (k + 1))
  | published (k : Nat) : StageStep cfg s .published (.left k) .posting
  | posted : StageStep cfg s .posted .posting .sending
  | dummiesSent : StageStep cfg s .dummiesSent .sending .ended
  | suspend : StageStep cfg s .suspend .ended .free

structure InStage (cfg : Config n) (s : State n) (stage : Stage) : Prop where
  placed : ∀ r, (s.proc r).Placed cfg
  same : ∀ r, (s.proc r).stage cfg s.db = stage

section Ranks
variable {cfg : Config n} {s t : State n} {stage : Stage}
variable {r : Fin n} {q : Proc n} {sync : Sync}

theorem InStage.update (inStage : InStage cfg s stage) {db : Db n} (placed : q.Placed cfg)
    (own : q.stage cfg db = stage) (others : ∀ q', (s.proc q').stage cfg db = stage) :
    InStage cfg { (s.setProc r q) with db := db } stage := by
  refine ⟨fun q' => ?_, fun q' => ?_⟩ <;> by_cases same : q' = r
  · subst same
    simpa only [State.setProc, update_self] using placed
  · simpa only [State.setProc, update_of_ne same] using inStage.placed q'
  · subst same
    simpa only [State.setProc, update_self] using own
  · simpa only [State.setProc, update_of_ne same] using others q'

theorem InStage.setProc (inStage : InStage cfg s stage) (placed : q.Placed cfg)
    (same : q.stage cfg s.db = (s.proc r).stage cfg s.db) : InStage cfg (s.setProc r q) stage :=
  inStage.update placed (same.trans (inStage.same r)) inStage.same

theorem InStage.deliver (inStage : InStage cfg s stage) (o : Option (Post n)) : InStage cfg (s.deliver o) stage := by
  cases o with
  | none => exact inStage
  | some o => exact inStage.setProc ((inStage.placed o.dest).congr rfl rfl) (Proc.stage_congr rfl rfl)

def Sync.place : Sync → CkptPc
  | .drainSendRecv => .drainBarrier
  | .reduce => .reduce
  | .done => .doneWait
  | .register => .regBarrier
  | .published => .publishedBarrier
  | .posted => .postedBarrier
  | .dummiesSent => .sentBarrier
  | .suspend => .suspendBarrier

theorem CkptPc.eq_place {pc : CkptPc} (waits : pc.waitsAt = some sync) : pc = sync.place := by
  cases pc <;> cases waits <;> rfl

theorem Proc.stage_released (cfg : Config n) {p : Proc n} (s : State n) (placed : p.Placed cfg)
    (waits : p.ckpt.waitsAt = some sync) :
    (p.released s.sums sync).Placed cfg ∧
      StageStep cfg s sync (p.stage cfg s.db)
        ((p.released s.sums sync).stage cfg (if sync = .suspend then .empty else s.db)) := by
  have pc := CkptPc.eq_place waits
  cases sync with
  | drainSendRecv =>
    change p.ckpt = .drainBarrier at pc
    have start : p.locals = .start := by simpa only [Proc.Placed, pc] using placed
    refine ⟨start, ?_⟩
    have here : p.stage cfg s.db = .free := by simp only [Proc.stage, pc]
    rw [here]
    cases noBarrier : cfg.drainHasNoBarrier with
    | true =>
      have next : (p.released s.sums .drainSendRecv).stage cfg s.db = .loop 1 0 := by
        simp [Proc.released, Proc.goto, Proc.stage, start, Locals.start, noBarrier]
      exact next ▸ .startLoop noBarrier
    | false =>
      have next : (p.released s.sums .drainSendRecv).stage cfg s.db = .rounds 0 := by
        simp [Proc.released, Proc.goto, Proc.stage, start, Locals.start, noBarrier]
      exact next ▸ .startRounds noBarrier
  | reduce =>
    change p.ckpt = .reduce at pc
    simp only [Proc.Placed, pc] at placed
    refine ⟨placed, ?_⟩
    have here : p.stage cfg s.db = .loop p.locals.iterations (p.locals.dummyPass - 1) := by simp only [Proc.stage, pc]
    rw [here]
    cases ends : s.sums.over with
    | true =>
      have finished : (p.released s.sums .reduce).stage cfg s.db = .finished p.locals.iterations := by
        simp [Proc.released, Proc.setLocals, Proc.goto, Proc.stage, ends]
      exact finished ▸ .finish _ _ ends
    | false =>
      have next : (p.released s.sums .reduce).stage cfg s.db =
          .loop (p.locals.iterations + 1) (s.sums.nextPass (p.locals.dummyPass - 1)) := by
        have turn := Locals.nextPass_eq (l := { p.locals with sums := s.sums }) placed.2
        simp [Proc.released, Proc.setLocals, Proc.goto, Proc.stage, ends, turn]
      exact next ▸ .iterate _ _ ends
  | done =>
    change p.ckpt = .doneWait at pc
    simp only [Proc.released, Proc.stage, pc, Proc.goto]
    exact ⟨trivial, .done _⟩
  | register =>
    change p.ckpt = .regBarrier at pc
    simp only [Proc.Placed, pc] at placed
    refine ⟨placed, ?_⟩
    have here : p.stage cfg s.db = .rounds p.locals.round := by simp only [Proc.stage, pc]
    rw [here]
    by_cases more : s.db.recv p.locals.round < s.db.sent p.locals.round
    · have next : (p.released s.sums .register).stage cfg s.db = .rounds (p.locals.round + 1) := by
        simp [Proc.released, Proc.goto, Proc.stage, more]
      exact next ▸ .again _ more
    · have next : (p.released s.sums .register).stage cfg s.db = .left (p.locals.round + 1) := by
        simp [Proc.released, Proc.goto, Proc.stage, more]
      exact next ▸ .leave _ (Nat.le_of_not_lt more)
  | published =>
    change p.ckpt = .publishedBarrier at pc
    simp only [Proc.Placed, pc] at placed
    simp only [Proc.released, Proc.stage, pc, Proc.goto, Proc.Placed, placed]
    exact ⟨by simp, .published _⟩
  | posted =>
    change p.ckpt = .postedBarrier at pc
    simp only [Proc.Placed, pc] at placed
    simp only [Proc.released, Proc.stage, pc, Proc.goto, Proc.Placed, placed]
    exact ⟨by simp, .posted⟩
  | dummiesSent =>
    change p.ckpt = .sentBarrier at pc
    simp only [Proc.released, Proc.stage, pc, Proc.goto]
    exact ⟨trivial, .dummiesSent⟩
  | suspend =>
    change p.ckpt = .suspendBarrier at pc
    simp only [Proc.released, Proc.stage, pc, Proc.goto]
    exact ⟨rfl, .suspend⟩

theorem StageStep.unique {before next next' : Stage} (first : StageStep cfg s sync before next)
    (second : StageStep cfg s sync before next') : next = next' := by
  cases first <;> cases second <;> simp_all <;> omega

theorem InStage.release (inStage : InStage cfg s stage) {sync : Sync}
    (all : ∀ q, (s.proc q).ckpt.waitsAt = some sync) [NeZero n] :
    ∃ next, StageStep cfg s sync stage next ∧
      InStage cfg
        { proc := fun q => (s.proc q).released s.sums sync, db := if sync = .suspend then .empty else s.db }
        next := by
  have each := fun r => Proc.stage_released cfg s (inStage.placed r) (all r)
  simp only [inStage.same] at each
  exact ⟨_, (each 0).2, fun r => (each r).1, fun r => (each r).2.unique (each 0).2⟩

theorem Move.inStage {a : Action n} (moved : Move cfg s a t) (inStage : InStage cfg s stage)
    (inside : ∀ sync, a ≠ .release sync) : InStage cfg t stage := by
  cases moved with
  | app r a moved =>
    have same := moved.control
    exact (inStage.setProc ((inStage.placed r).congr same.1 same.2) (Proc.stage_congr same.1 same.2)).deliver _
  | @ckpt r a q moved =>
    have next : q.Placed cfg ∧ q.stage cfg s.db = (s.proc r).stage cfg s.db := moved.placed (inStage.placed r)
    exact inStage.setProc next.1 next.2
  | db r moved =>
    have own := moved.placed (inStage.placed r)
    refine inStage.update own.1 (own.2.trans (inStage.same r)) (fun q' => ?_)
    have together : (s.proc q').stage cfg s.db = (s.proc r).stage cfg s.db := by rw [inStage.same, inStage.same]
    exact (moved.stage_other together).trans (inStage.same q')
  | send r a moved =>
    have next := moved.placed (inStage.placed r)
    exact (inStage.setProc next.1 next.2).deliver _
  | lower r a moved =>
    have same := moved.control
    exact inStage.setProc ((inStage.placed r).congr same.1 same.2) (Proc.stage_congr same.1 same.2)
  | release sync all => exact absurd rfl (inside sync)

end Ranks

end Mana.P2p
