import Mana.Collective.Fresh
import Mana.Collective.Sections
import Mathlib.Algebra.BigOperators.Fin
import Mathlib.Algebra.Order.BigOperators.Group.Finset

/-! The drain is safe: when it returns on a rank, no rank is in a critical section,
the sequence numbers agree, and no rank begins a collective call before the checkpoint
is over. -/

namespace Mana.Collective
open Mana.Lib Option Function

namespace CkptPc

def checked : CkptPc → Bool
  | .putConverge | .putCs | .roundBarrier | .getConverge | .getCs | .getRaised | .verdict => true
  | _ => false

/-- From the return of the drain to the reset of `ckpt_pending`. -/
def settled : CkptPc → Bool
  | .drained | .drainBarrier | .drainedAll => true
  | _ => false

variable {pc : CkptPc}

@[simp] theorem checked_released (pc : CkptPc) : pc.released.checked = pc.checked := by cases pc <;> rfl

@[simp] theorem settled_released (pc : CkptPc) : pc.released.settled = pc.settled := by cases pc <;> rfl

theorem pending_of_checked (checked : pc.checked = true) : pc.pending = true := by
  cases pc <;> first | rfl | cases checked

theorem pending_of_settled (settled : pc.settled = true) : pc.pending = true := by
  cases pc <;> first | rfl | cases settled

theorem checked_of_reading (reading : pc.part = .reading) : pc.checked = true := by
  cases pc <;> first | rfl | cases reading

end CkptPc

/-! One rank. A rank that found its targets reached outside a critical section is frozen
from that check on. -/

structure Frozen (p : Proc) : Prop where
  out : p.app.inSection = false
  reached : checkSeqNums p.clocks = true
  noRaise : p.raisedClocks = []
  noAdd : p.addedClock = false

structure RankInv (p : Proc) : Prop where
  phase : p.currentPhase = .inCs ↔ p.app.inSection = true
  frozen : p.ckpt.checked → p.locals.targetReached = true → p.locals.cs = false → Frozen p
  settled : p.ckpt.settled → Frozen p

section Rank
variable {n : Nat} {members : Gid → Finset (Fin n)} {kv kv' : Kvdb} {r : Fin n} {p q : Proc} {size : Gid → Nat}
    {mayAdd mayErase : Gid → Bool}

theorem rankInv_initial (clocks : Clocks) : RankInv (Proc.initial clocks) where
  phase := by simp [Proc.initial, AppPc.inSection]
  frozen := by simp [Proc.initial, CkptPc.checked]
  settled := by simp [Proc.initial, CkptPc.settled]

theorem AppMove.frozen (moved : AppMove size mayAdd mayErase p q) (pending : p.ckptPending = true)
    (frozen : Frozen p) : Frozen q := by
  cases moved with
  | move phase app out => exact ⟨out, frozen.reached, frozen.noRaise, frozen.noAdd⟩
  | enter c pc unlocked goes => simp [Proc.mustWait, pending, frozen.reached] at goes
  | add g inside => simp [frozen.out] at inside
  | erase g out => exact ⟨out, checkSeqNums_erase g frozen.reached, frozen.noRaise, frozen.noAdd⟩

theorem RankInv.appMove (inv : RankInv p) (own : ClockInv members kv r p .idle)
    (moved : AppMove size mayAdd mayErase p q) : RankInv q := by
  have same := moved.sameCkpt
  have still (pending : p.ckpt.pending = true) (frozen : Frozen p) : Frozen q := moved.frozen (own.flag pending) frozen
  refine ⟨?_, ?_, ?_⟩
  · cases moved with
    | move phase app out ready =>
      rcases ready with rfl | ⟨rfl, before⟩
      · simp [out]
      · rw [inv.phase]
        simp [before, out]
    | enter c pc unlocked goes entered =>
      cases c with
      | uncounted =>
        cases entered
        simp [AppPc.inSection]
      | counted g free =>
        obtain ⟨clock, -, rfl⟩ := Proc.enter_counted entered
        simp [AppPc.inSection]
    | add | erase => exact inv.phase
  · rw [same.ckpt, same.locals]
    exact fun checked reached noCs => still (CkptPc.pending_of_checked checked) (inv.frozen checked reached noCs)
  · rw [same.ckpt]
    exact fun settled => still (CkptPc.pending_of_settled settled) (inv.settled settled)

theorem RankInv.ckptMove (inv : RankInv p) (moved : CkptMove n kv p p.ckpt q kv')
    (final : p.ckpt = .verdict → p.locals.inCs = 0 ∧ p.locals.numConverged = n ∧ p.locals.raised = 0 →
      p.locals.targetReached = true ∧ p.locals.cs = false) : RankInv q := by
  generalize pc : p.ckpt = here at moved
  cases moved with
  | section_ few =>
    refine ⟨inv.phase, fun _ reached noCs => ⟨?_, ?_, rfl, rfl⟩, fun settled => by cases settled⟩
    · simpa [Proc.roundSection, inv.phase] using noCs
    · simpa [Proc.roundSection] using reached
  | putConverge | putCs | getConverge | getCs | getRaised =>
    refine ⟨inv.phase, fun _ reached noCs => ?_, fun settled => by cases settled⟩
    obtain ⟨out, done, noRaise, noAdd⟩ := inv.frozen (by rw [pc]; rfl) reached noCs
    exact ⟨out, done, noRaise, noAdd⟩
  | returned done =>
    obtain ⟨reached, noCs⟩ := final pc done
    refine ⟨inv.phase, fun checked => (by cases checked), fun _ => ?_⟩
    obtain ⟨out, done, noRaise, noAdd⟩ := inv.frozen (by rw [pc]; rfl) reached noCs
    exact ⟨out, done, noRaise, noAdd⟩
  | drained =>
    refine ⟨inv.phase, fun checked => (by cases checked), fun _ => ?_⟩
    obtain ⟨out, done, noRaise, noAdd⟩ := inv.settled (by rw [pc]; rfl)
    exact ⟨out, done, noRaise, noAdd⟩
  | _ => exact ⟨inv.phase, fun checked => (by cases checked), fun settled => by cases settled⟩

theorem RankInv.congr (inv : RankInv p) (same : q.currentPhase = p.currentPhase ∧ q.app = p.app ∧
    q.raisedClocks = p.raisedClocks ∧ q.addedClock = p.addedClock ∧ q.locals = p.locals)
    (clocks : checkSeqNums p.clocks = true → checkSeqNums q.clocks = true)
    (checked : q.ckpt.checked = p.ckpt.checked) (settled : q.ckpt.settled = p.ckpt.settled) : RankInv q := by
  obtain ⟨phase, app, raised, added, locals⟩ := same
  have still : Frozen p → Frozen q := fun ⟨out, reached, noRaise, noAdd⟩ =>
    ⟨by rw [app, out], clocks reached, by rw [raised, noRaise], by rw [added, noAdd]⟩
  refine ⟨by rw [phase, app, inv.phase], ?_, ?_⟩
  · rw [checked, locals]
    exact fun isChecked reached noCs => still (inv.frozen isChecked reached noCs)
  · rw [settled]
    exact fun isSettled => still (inv.settled isSettled)

end Rank

def Goal.later : Goal → Moment
  | .share e => ⟨e.generation, e.attemptId, 0⟩
  | .round e r _ => ⟨e.generation, e.attemptId, r + 1⟩
  | .drain e _ => ⟨e.generation + 1, 0, 0⟩

def Proc.counted (p : Proc) : Nat :=
  if p.ckpt = .putCs ∨ p.ckpt = .roundBarrier then p.locals.targetReached.toNat else 0

structure StageInv {n : Nat} (s : State n) (stage : Stage) : Prop where
  ranks : ∀ r, RankInv (s.proc r)
  converge : ∀ e r w, stage.goal n = .round e r w →
    (s.kvdb ⟨.converge, e⟩ (.round r)).getD 0 = ∑ q, (s.proc q).counted
  cs : ∀ e r w, stage.goal n = .round e r w → (s.kvdb ⟨.criticalSection, e⟩ (.round r)).getD 0 = 0 →
    ∀ q, (s.proc q).ckpt = .roundBarrier → (s.proc q).locals.cs = false
  untouched : ∀ what, what ≠ .commSeqMax → ∀ e r, (stage.goal n).later.Le ⟨e.generation, e.attemptId, r⟩ →
    s.kvdb ⟨what, e⟩ (.round r) = none
  final : ∀ e r w v, stage = .round e r w v → v.Done n → ∀ q, (s.proc q).ckpt.part = .reading →
    (s.proc q).locals.targetReached = true ∧ (s.proc q).locals.cs = false
  quiet : ∀ e r w v, stage = .round e r w v → v.Done n → ∀ j, r < j → s.kvdb ⟨.targetsRaised, e⟩ (.round j) = none

/-! Where a rank is, by its program point. -/

section Places
variable {n : Nat} {stage : Stage} {p : Proc} {pc : CkptPc} {events : List Event}

theorem At.of_verdict (here : At n stage p .verdict events) :
    ∃ e r w v, stage = .round e r w v ∧ InRound e r w p ∧ p.locals.numConverged = v.numConverged ∧
      p.locals.inCs = v.inCs ∧ p.locals.raised = v.raised := by
  cases here with
  | early early =>
    cases early with
    | verdict here conv cs raised => exact ⟨_, _, _, _, rfl, here, conv, cs, raised⟩
  | onWay way | arrived way =>
    generalize stage.goal n = goal at way
    cases way

end Places

section Preserve
variable {n : Nat} {members : Gid → Finset (Fin n)} {s t : State n} {stage : Stage} {past : List Event}

theorem stageInv_initial (first : Initial members s) : StageInv s (.between 0) := by
  obtain ⟨empty, procs⟩ := first
  constructor
  case ranks =>
    intro r
    obtain ⟨clocks, proc, -⟩ := procs r
    rw [proc]
    exact rankInv_initial clocks
  case converge | cs => simp [Stage.goal]
  case untouched => simp [empty, Kvdb.empty]
  case final | quiet => simp

variable {q p : Proc} {kv kv' : Kvdb} {pc : CkptPc} {events : List Event} {e : Attempt} {r w : Nat} {size : Gid → Nat}
    {mayAdd mayErase : Gid → Bool} {a : Action n}

theorem StageInv.setProc (inv : StageInv s stage) (r : Fin n) (same : SameCkpt (s.proc r) q) (rank : RankInv q) :
    StageInv (s.setProc r q) stage := by
  have ckpt : ∀ r', ((s.setProc r q).proc r').ckpt = (s.proc r').ckpt := by
    intro r'
    by_cases own : r' = r
    · subst own
      simp [State.setProc, same.ckpt]
    · simp [State.setProc, own]
  have locals : ∀ r', ((s.setProc r q).proc r').locals = (s.proc r').locals := by
    intro r'
    by_cases own : r' = r
    · subst own
      simp [State.setProc, same.locals]
    · simp [State.setProc, own]
  constructor
  case ranks =>
    intro r'
    by_cases own : r' = r
    · subst own
      simpa [State.setProc] using rank
    · simpa [State.setProc, own] using inv.ranks r'
  case converge =>
    simp only [Proc.counted, ckpt, locals]
    exact inv.converge
  case cs =>
    simp only [ckpt, locals]
    exact inv.cs
  case untouched => exact inv.untouched
  case final =>
    simp only [ckpt, locals]
    exact inv.final
  case quiet => exact inv.quiet

theorem At.converge_key (here : At n stage p pc events) (at_ : p.ckpt = pc) (moved : CkptMove n kv p pc q kv')
    (aim : stage.goal n = .round e r w) :
    (kv' ⟨.converge, e⟩ (.round r)).getD 0 + p.counted = (kv ⟨.converge, e⟩ (.round r)).getD 0 + q.counted := by
  by_cases puts : pc = .putConverge
  · subst puts
    rcases here.collecting (.inr (.inl rfl)) with ⟨e', r', w', aim', inRound⟩ | ⟨e', r', w', v, rfl, -, ends⟩
    · rw [aim', Goal.round.injEq] at aim
      obtain ⟨rfl, rfl, -⟩ := aim
      cases moved
      simp [Kvdb.incrBy, inRound.attempt, inRound.roundNum, Proc.counted, at_]
    · simp [ends.goal] at aim
  · have sameKey : kv' ⟨.converge, e⟩ (.round r) = kv ⟨.converge, e⟩ (.round r) := by
      cases moved with
      | share => exact uploadSeqNum_other _ _ _ _ _ (by simp)
      | section_ => exact uploadRaisedTargets_other _ _ _ _ _ _ _ (.inr (.inl rfl))
      | putConverge => exact absurd rfl puts
      | putCs => exact Kvdb.set_db_ne _ _ _ _ (by simp)
      | _ => rfl
    have sameCount : q.counted = p.counted := by
      cases moved with
      | putConverge => exact absurd rfl puts
      | _ => simp [Proc.counted, at_, Proc.roundSection, Proc.nextRound]
    rw [sameKey, sameCount]

theorem At.cs_key (here : At n stage p pc events) (moved : CkptMove n kv p pc q kv') (aim : stage.goal n = .round e r w)
    (none_ : (kv' ⟨.criticalSection, e⟩ (.round r)).getD 0 = 0) :
    (kv ⟨.criticalSection, e⟩ (.round r)).getD 0 = 0 ∧ (q.ckpt = .roundBarrier → q.locals.cs = false) := by
  by_cases puts : pc = .putCs
  · subst puts
    rcases here.collecting (.inr (.inr rfl)) with ⟨e', r', w', aim', inRound⟩ | ⟨e', r', w', v, rfl, -, ends⟩
    · rw [aim', Goal.round.injEq] at aim
      obtain ⟨rfl, rfl, -⟩ := aim
      cases moved
      simp only [Kvdb.or, inRound.attempt, inRound.roundNum, Kvdb.set_same, getD_some] at none_
      rw [Nat.or_eq_zero_iff] at none_
      exact ⟨none_.1, fun _ => by simpa using none_.2⟩
    · simp [ends.goal] at aim
  · have sameKey : kv' ⟨.criticalSection, e⟩ (.round r) = kv ⟨.criticalSection, e⟩ (.round r) := by
      cases moved with
      | share => exact uploadSeqNum_other _ _ _ _ _ (by simp)
      | section_ => exact uploadRaisedTargets_other _ _ _ _ _ _ _ (.inr (.inr (.inl rfl)))
      | putConverge => exact Kvdb.set_db_ne _ _ _ _ (by simp)
      | putCs => exact absurd rfl puts
      | _ => rfl
    refine ⟨by rw [← sameKey, none_], fun barrier => ?_⟩
    cases moved with
    | putCs => exact absurd rfl puts
    | _ => simp [Proc.roundSection, Proc.nextRound] at barrier

theorem At.untouched_key (here : At n stage p pc events) (moved : CkptMove n kv p pc q kv') {what : What}
    (notMax : what ≠ .commSeqMax) (later : (stage.goal n).later.Le ⟨e.generation, e.attemptId, r⟩) :
    kv' ⟨what, e⟩ (.round r) = kv ⟨what, e⟩ (.round r) := by
  apply moved.round_key _ notMax
  rintro puts rfl rfl
  rcases here.collecting puts with ⟨e, r, w, aim, inRound⟩ | ⟨e, r, w, v, rfl, inRound, ends⟩
  · rw [aim, inRound.attempt, inRound.roundNum] at later
    simp only [Goal.later, Moment.Le] at later
    omega
  · rw [ends.goal, inRound.attempt, inRound.roundNum] at later
    simp only [Goal.later, Moment.Le] at later
    omega

theorem CkptMove.reading (moved : CkptMove n kv p pc q kv') (reading : q.ckpt.part = .reading) :
    pc.part = .reading ∧ q.locals.targetReached = p.locals.targetReached ∧ q.locals.cs = p.locals.cs := by
  cases moved <;> first | exact ⟨rfl, rfl, rfl⟩ | cases reading

theorem sum_counted_update (procs : Fin n → Proc) (r : Fin n) (q : Proc) :
    (∑ x, (update procs r q x).counted) + (procs r).counted = (∑ x, (procs x).counted) + q.counted := by
  have others : ∑ x ∈ Finset.univ.erase r, (update procs r q x).counted =
      ∑ x ∈ Finset.univ.erase r, (procs x).counted := by
    apply Finset.sum_congr rfl
    intro x member
    rw [update_of_ne (Finset.ne_of_mem_erase member)]
  rw [← Finset.add_sum_erase _ _ (Finset.mem_univ r), ← Finset.add_sum_erase _ (fun x => (procs x).counted)
    (Finset.mem_univ r), others, update_self]
  omega

theorem StageInv.ckpt (inv : StageInv s stage) (aligned : Aligned s stage past) (r : Fin n) {q : Proc} {kv : Kvdb}
    (moved : CkptMove n s.kvdb (s.proc r) (s.proc r).ckpt q kv) :
    StageInv { proc := update s.proc r q, kvdb := kv } stage := by
  obtain ⟨events, -, here⟩ := aligned.places r
  constructor
  case ranks =>
    refine (forall_update_iff s.proc fun _ p => RankInv p).mpr ⟨?_, fun r' _ => inv.ranks r'⟩
    refine (inv.ranks r).ckptMove moved fun pc done => ?_
    have reading : (s.proc r).ckpt.part = .reading := by rw [pc]; rfl
    rw [pc] at here
    obtain ⟨e, R, w, v, rfl, inRound, conv, cs, raised⟩ := here.of_verdict
    exact inv.final e R w v rfl (by rwa [cs, conv, raised] at done) r reading
  case converge =>
    intro e R w aim
    have key := here.converge_key rfl moved aim
    have sum := sum_counted_update s.proc r q
    have := inv.converge e R w aim
    dsimp only
    omega
  case cs =>
    intro e R w aim none_ r' barrier
    obtain ⟨before, own'⟩ := here.cs_key moved aim none_
    by_cases own : r' = r
    · subst own
      simp only [update_self] at barrier ⊢
      exact own' barrier
    · simp only [update_of_ne own] at barrier ⊢
      exact inv.cs e R w aim before r' barrier
  case untouched =>
    intro what notMax e R later
    exact (here.untouched_key moved notMax later).trans (inv.untouched what notMax e R later)
  case final =>
    intro e R w v round done r' reading
    by_cases own : r' = r
    · subst own
      simp only [update_self] at reading ⊢
      obtain ⟨before, target, cs⟩ := moved.reading reading
      rw [target, cs]
      exact inv.final e R w v round done r' before
    · simp only [update_of_ne own] at reading ⊢
      exact inv.final e R w v round done r' reading
  case quiet =>
    rintro e R w v rfl done j later
    rw [← inv.quiet e R w v rfl done j later]
    refine moved.round_key _ (by simp) _ _ fun puts => ?_
    obtain ⟨-, -, pcs⟩ := here.of_done done
    rcases puts with pc | pc | pc <;> simp [pc] at pcs

theorem Stage.goal_drain (aim : stage.goal n = .drain e r) : ∃ w v, stage = .round e r w v ∧ v.Done n := by
  cases stage with
  | between gen | shared e' => simp [Stage.goal] at aim
  | round e' r' w v =>
    simp only [Stage.goal] at aim
    split at aim
    · next done =>
      simp only [Goal.drain.injEq] at aim
      exact ⟨w, v, by rw [aim.1, aim.2], done⟩
    · split at aim
      · simp at aim
      · split at aim <;> simp at aim

theorem Goal.moment_le_later (goal : Goal) : goal.moment.Le goal.later := by
  cases goal <;> simp [Goal.moment, Goal.later, Moment.Le]

theorem Stage.later_le_next (n : Nat) (kv : Kvdb) (stage : Stage) :
    (stage.goal n).later.Le ((stage.next n kv).goal n).moment := by
  unfold Stage.next
  cases stage.goal n with
  | share e | drain e r => simp [Stage.goal, Goal.later, Goal.moment, Moment.Le]
  | round e r w =>
    simp only [Stage.goal]
    split
    · simp [Goal.later, Goal.moment, Moment.Le]
    · split
      · simp [Goal.later, Goal.moment, Moment.Le]
      · split <;> simp [Goal.later, Goal.moment, Moment.Le]

theorem StageInv.release (inv : StageInv s stage) (aligned : Aligned s stage past) {b : Barrier}
    (released : Release s b t) : StageInv t (stage.next n s.kvdb) := by
  obtain ⟨all, rfl⟩ := released
  have ways : ∀ r, OnWay (stage.goal n) (s.proc r) (s.proc r).ckpt true := by
    intro r
    obtain ⟨events, -, here⟩ := aligned.places r
    exact (here.arrived_of_waiting rfl (all r)).1
  have gone : ∀ r, (s.proc r).released.ckpt ≠ .putCs ∧ (s.proc r).released.ckpt ≠ .roundBarrier := by
    intro r
    have way := ways r
    simp only [Proc.released]
    generalize (s.proc r).ckpt = here at way
    generalize stage.goal n = goal at way
    cases way <;> simp [CkptPc.released]
  constructor
  case ranks =>
    exact fun r => (inv.ranks r).congr ⟨rfl, rfl, rfl, rfl, rfl⟩ id (CkptPc.checked_released _) (CkptPc.settled_released _)
  case converge =>
    intro e r w aim
    have before := stage.later_le_next n s.kvdb
    rw [aim] at before
    rw [inv.untouched _ (by simp) e r before]
    symm
    apply Finset.sum_eq_zero
    intro q _
    simp [Proc.counted, gone q]
  case cs => exact fun e r w aim none_ q barrier => absurd barrier (gone q).2
  case untouched =>
    intro what notMax e r later
    exact inv.untouched what notMax e r (((stage.later_le_next n s.kvdb).trans (Goal.moment_le_later _)).trans later)
  case final =>
    intro e r w v round done q _
    unfold Stage.next at round
    generalize aim : stage.goal n = goal at round
    cases goal with
    | share e' | drain e' r' => simp at round
    | round e' r' w' =>
      simp only [Stage.round.injEq] at round
      obtain ⟨rfl, rfl, rfl, rfl⟩ := round
      have barrier : ∀ q, (s.proc q).ckpt = .roundBarrier := by
        intro q
        have way := ways q
        rw [aim] at way
        generalize (s.proc q).ckpt = here at way
        cases way
        rfl
      have sum := (inv.converge e' r' w' aim).symm.trans done.2.1
      have bound : ∀ q ∈ Finset.univ, (s.proc q).counted ≤ 1 := by
        intro q _
        unfold Proc.counted
        split
        · exact Bool.toNat_le _
        · exact Nat.zero_le _
      have ones := (Finset.sum_eq_sum_iff_of_le bound).mp (by simpa using sum) q (Finset.mem_univ q)
      have reached : (s.proc q).locals.targetReached = true := by simpa [Proc.counted, barrier q] using ones
      exact ⟨reached, inv.cs e' r' w' aim done.1 q (barrier q)⟩
  case quiet =>
    intro e r w v round _ j later
    refine inv.untouched _ (by simp) e j ?_
    unfold Stage.next at round
    cases aim : stage.goal n with
    | share | drain => simp [aim] at round
    | round e' r' w' =>
      simp only [aim, Stage.round.injEq] at round
      obtain ⟨rfl, rfl, -⟩ := round
      exact .inr ⟨rfl, .inr ⟨rfl, later⟩⟩

theorem StageInv.rankMove (inv : StageInv s stage) (reached : Reachable (machine members) s)
    (aligned : Aligned s stage past) (moved : RankMove members s t) : StageInv t stage := by
  cases moved with
  | app r moved => exact inv.setProc r moved.sameCkpt ((inv.ranks r).appMove (reachable_clockInv reached r) moved)
  | ckpt r moved => exact inv.ckpt aligned r moved
  | completeFree r g pc freed held =>
    have same : SameCkpt (s.proc r) { s.proc r with clocks := (s.proc r).clocks.erase g } := by constructor <;> rfl
    exact inv.setProc r same ((inv.ranks r).congr ⟨rfl, rfl, rfl, rfl, rfl⟩ (checkSeqNums_erase g) rfl rfl)

theorem reachable_stageInv (reached : Reachable (machine members) s) :
    ∃ stage past, Aligned s stage past ∧ History n stage past ∧ StageInv s stage :=
  reachable_staged StageInv (fun _ first => stageInv_initial first)
    (fun _ _ _ _ before aligned inv moved => inv.rankMove before aligned moved)
    (fun _ _ _ _ _ aligned inv released _ => inv.release aligned released) reached

/-! The drain has returned on a rank. -/

theorem StageInv.frozen_of_done (inv : StageInv s stage) (aligned : Aligned s stage past) {v : Verdict}
    (last : stage = .round e r w v) (done : v.Done n) (q : Fin n) :
    (s.proc q).ckpt.pending = true ∧ Frozen (s.proc q) := by
  subst last
  have rank := inv.ranks q
  obtain ⟨events, -, here⟩ := aligned.places q
  obtain ⟨-, -, pcs⟩ := here.of_done done
  have byPlace : (s.proc q).ckpt.part = .reading ∨ (s.proc q).ckpt.settled = true := by
    rcases pcs with pc | pc | pc | pc | pc | pc <;> simp [pc, CkptPc.part, CkptPc.settled]
  rcases byPlace with reading | settled
  · obtain ⟨target, cs⟩ := inv.final e r w v rfl done q reading
    have checked := CkptPc.checked_of_reading reading
    exact ⟨CkptPc.pending_of_checked checked, rank.frozen checked target cs⟩
  · exact ⟨CkptPc.pending_of_settled settled, rank.settled settled⟩

/-- In the last stage of a drain every rank has made just the calls that the database knows: no target was raised in
the last round, so that every target is at least the maximum. -/
theorem StageInv.seq_of_done (inv : StageInv s stage) (aligned : Aligned s stage past)
    (reached : Reachable (machine members) s) {v : Verdict} (last : stage = .round e r w v) (done : v.Done n) {q : Fin n}
    {g : Gid} {c : CommClock} (found : (s.proc q).clocks.lookup g = some c) (big : 1 < (members g).card) :
    c.seq = seqMax s.kvdb e g := by
  obtain ⟨pending, frozen⟩ := inv.frozen_of_done aligned last done q
  subst last
  obtain ⟨events, -, here⟩ := aligned.places q
  obtain ⟨attempt, roundNum, pcs⟩ := here.of_done done
  have own := reachable_clockInv reached q
  have isFresh : (s.proc q).freshRound .idle g = some r := by
    rcases pcs with pc | pc | pc | pc | pc | pc <;> simp [Proc.freshRound, pc, frozen.noAdd, roundNum]
  obtain ⟨uploads, between⟩ := reachable_betweenSections reached
  obtain ⟨era, sound⟩ := sound_of_reachable between
  have noList (j : Nat) (late : r ≤ j) : listLength s.kvdb (s.proc q).attempt j = 0 := by
    rw [listLength, attempt]
    rcases Nat.eq_or_lt_of_le late with rfl | later
    · rw [aligned.reads.2.2, done.2.2]
      rfl
    · rw [inv.quiet e r w v rfl done j later]
      rfl
  have above : seqMax s.kvdb (s.proc q).attempt g ≤ c.target :=
    sound.seqMax_le_target (fun _ => rfl) found isFresh noList
  have target := (checkSeqNums_eq_true _).mp frozen.reached g c found
  have below := (own.known (own.flag pending) g c found (by simp [Proc.unsent, frozen.noRaise])).resolve_right (by omega)
  rw [attempt] at above below
  omega

/-- A rank that stays out of critical sections: the drain's last stage has begun, or the
rank itself has returned from the drain. -/
structure Held (members : Gid → Finset (Fin n)) (q : Fin n) (s : State n) : Prop where
  reached : Reachable (machine members) s
  held : ∃ stage past, Aligned s stage past ∧ StageInv s stage ∧
    ((∃ e r w v, stage = .round e r w v ∧ v.Done n) ∨ (s.proc q).ckpt.settled = true)

theorem Held.frozen {q : Fin n} (held : Held members q s) :
    (s.proc q).ckptPending = true ∧ Frozen (s.proc q) := by
  have own := reachable_clockInv held.reached q
  obtain ⟨stage, past, aligned, inv, ⟨e, r, w, v, last, done⟩ | settled⟩ := held.held
  · obtain ⟨pending, frozen⟩ := inv.frozen_of_done aligned last done q
    exact ⟨own.flag pending, frozen⟩
  · exact ⟨own.flag (CkptPc.pending_of_settled settled), (inv.ranks q).settled settled⟩

theorem Held.step_out {q : Fin n} (held : Held members q s) (taken : step members s a = some t) :
    (t.proc q).app.inSection = false := by
  obtain ⟨pending, frozen⟩ := held.frozen
  cases step_seenFrom taken q with
  | app b isApp moved => exact (moved.frozen pending frozen).out
  | ckpt isCkpt moved => exact moved.app_eq.1 ▸ frozen.out
  | erase g isErase freed same | released b isRelease same | other same =>
    rw [same]
    exact frozen.out

theorem SeenFrom.settled {r : Fin n} (seen : SeenFrom members s t a r) (settled : (s.proc r).ckpt.settled = true) :
    (t.proc r).ckpt.settled = true ∨ a = .ckpt r ∧ (s.proc r).ckpt = .drainedAll ∧ (t.proc r).ckptPending = false := by
  cases seen with
  | app b isApp moved => exact .inl (moved.sameCkpt.ckpt ▸ settled)
  | ckpt isCkpt moved =>
    generalize (s.proc r).ckpt = at_ at moved settled
    generalize t.proc r = q, t.kvdb = kv', s.kvdb = kv at moved
    cases moved with
    | drained => exact .inl rfl
    | resume => exact .inr ⟨isCkpt, rfl, rfl⟩
    | _ => cases settled
  | released b isRelease same => exact .inl (by rw [same, Proc.released, CkptPc.settled_released, settled])
  | erase g isErase freed same | other same => exact .inl (same ▸ settled)

theorem Held.next {q : Fin n} (held : Held members q s) (taken : step members s a = some t)
    (pending : (t.proc q).ckptPending = true) : Held members q t := by
  obtain ⟨reached, stage, past, aligned, inv, last⟩ := held
  refine ⟨reached.next taken, ?_⟩
  rcases step_move taken with moved | ⟨b, released⟩
  · refine ⟨stage, past, aligned.rankMove moved, inv.rankMove reached aligned moved, last.imp_right fun settled => ?_⟩
    exact ((step_seenFrom taken q).settled settled).resolve_right fun resumed => nomatch resumed.2.2.symm.trans pending
  · have some_ : 0 < n := Nat.zero_lt_of_lt q.isLt
    refine ⟨_, _, aligned.release released some_, inv.release aligned released, .inr ?_⟩
    obtain ⟨all, rfl⟩ := released
    simp only [Proc.released, CkptPc.settled_released]
    rcases last with ⟨e, r, w, v, rfl, done⟩ | settled
    · obtain ⟨events, -, here⟩ := aligned.places q
      have way := (here.arrived_of_waiting rfl (all q)).1
      rw [show (Stage.round e r w v).goal n = .drain e r by simp [Stage.goal, done]] at way
      generalize (s.proc q).ckpt = pc at way
      cases way
      rfl
    · exact settled

theorem Held.ckpt_ne_giveUp {r : Fin n} (held : Held members r s) : (s.proc r).ckpt ≠ .giveUp := by
  intro isPc
  obtain ⟨stage, past, aligned, inv, ⟨e, k, w, v, rfl, done⟩ | settled⟩ := held.held
  · obtain ⟨events, -, here⟩ := aligned.places r
    have aim : (Stage.round e k w v).goal n = .drain e k := by simp [Stage.goal, done]
    rw [isPc] at here
    cases here with
    | early early =>
      cases early with
      | giveUp _ ends => exact ends.unfinished done
    | onWay way =>
      rw [aim] at way
      cases way
    | arrived way =>
      rw [aim] at way
      cases way
  · rw [isPc] at settled
    cases settled

theorem Held.step {r : Fin n} (held : Held members r s) (taken : step members s a = some t)
    (goesOn : ¬(a = .ckpt r ∧ (s.proc r).ckpt = .drainedAll)) : Held members r t := by
  refine held.next taken ?_
  have pending := held.frozen.1
  cases step_seenFrom taken r with
  | app b isApp moved => exact moved.sameCkpt.ckptPending.trans pending
  | ckpt isCkpt moved =>
    have notGiveUp := held.ckpt_ne_giveUp
    generalize pc : (s.proc r).ckpt = at_ at moved notGiveUp goesOn
    generalize t.proc r = q, t.kvdb = kv', s.kvdb = kv at moved
    cases moved with
    | giveUp => exact absurd rfl notGiveUp
    | resume => exact absurd ⟨isCkpt, rfl⟩ goesOn
    | section_ => exact pending
    | share => rfl
    | _ => exact pending
  | erase g isErase freed same | released b isRelease same | other same => exact same ▸ pending

theorem held_of_settled (reached : Reachable (machine members) s) {r : Fin n} (settled : (s.proc r).ckpt.settled = true) :
    Held members r s := by
  obtain ⟨stage, past, aligned, -, inv⟩ := reachable_stageInv reached
  exact ⟨reached, stage, past, aligned, inv, .inr settled⟩

/-- Once the drain has returned on a rank, every rank is held, and the clocks of a
communicator agree. -/
theorem returned_held (reached : Reachable (machine members) s) {p : Fin n} (returned : (s.proc p).ckpt = .drained) :
    (∀ q, Held members q s) ∧ ∀ g q q' c c', (s.proc q).clocks.lookup g = some c →
      (s.proc q').clocks.lookup g = some c' → c.seq = c'.seq := by
  obtain ⟨stage, past, aligned, -, inv⟩ := reachable_stageInv reached
  obtain ⟨events, -, here⟩ := aligned.places p
  obtain ⟨r, aim⟩ := here.goal_of_returned (.inl returned)
  obtain ⟨w, v, last, done⟩ := Stage.goal_drain aim
  refine ⟨fun q => ⟨reached, stage, past, aligned, inv, .inl ⟨_, _, w, v, last, done⟩⟩, fun g q q' c c' found found' => ?_⟩
  by_cases big : 1 < (members g).card
  · rw [inv.seq_of_done aligned reached last done found big, inv.seq_of_done aligned reached last done found' big]
  · -- A communicator of one process has one clock.
    have member {q : Fin n} {c : CommClock} (found : (s.proc q).clocks.lookup g = some c) : q ∈ members g :=
      (reachable_clockInv reached q).member g (Assoc.mem_of_lookup found)
    have one := Finset.card_le_one.mp (Nat.le_of_not_lt big) q (member found) q' (member found')
    subst one
    rw [found, some.injEq] at found'
    rw [found']

/-- When the drain returns on a rank: no rank is in a critical section; the ranks that
hold a clock have counted the same number of calls on its communicator; and as long as
`ckpt_pending` stays set on a rank, no step takes that rank into a critical section. -/
theorem drain_safety (reached : Reachable (machine members) s) {p : Fin n} (returned : (s.proc p).ckpt = .drained) :
    (∀ q, (s.proc q).currentPhase = .isReady ∧ (s.proc q).app.inSection = false) ∧
      (∀ g q q' c c', (s.proc q).clocks.lookup g = some c → (s.proc q').clocks.lookup g = some c' →
        c.seq = c'.seq ∧ (s.proc q).calls.count g = (s.proc q').calls.count g) ∧
      (∀ q t a u, Within (machine members) (fun x => (x.proc q).ckptPending = true) s t →
        (machine members).step t a = some u → (u.proc q).app.inSection = false) := by
  obtain ⟨held, agree⟩ := returned_held reached returned
  refine ⟨fun q => ?_, fun g q q' c c' found found' => ?_, fun q t a u path taken => ?_⟩
  · obtain ⟨-, frozen⟩ := (held q).frozen
    obtain ⟨stage, past, -, -, inv⟩ := reachable_stageInv reached
    have notIn : (s.proc q).currentPhase ≠ .inCs := by
      rw [ne_eq, (inv.ranks q).phase, frozen.out]
      simp
    refine ⟨?_, frozen.out⟩
    cases phase : (s.proc q).currentPhase with
    | inCs => exact absurd phase notIn
    | isReady => rfl
  · have same := agree g q q' c c' found found'
    refine ⟨same, ?_⟩
    rw [← (reachable_clockInv reached q).counts.held g c found, ← (reachable_clockInv reached q').counts.held g c' found',
      same]
  · have still : Held members q t := by
      refine path.invariant (Held members q) reached (held q) ?_
      intro t a u _ _ pending held taken
      exact held.next taken pending
    exact still.step_out taken

theorem drain_safety_two_ranks : ∃ s, Reachable (machine worldOnly) s ∧ (s.proc 0).ckpt = .drained ∧
    (s.proc 1).ckpt = .getConverge ∧ ∀ q, (s.proc q).currentPhase = .isReady ∧ (s.proc q).app.inSection = false := by
  obtain ⟨s, reached, drained, reading, -⟩ := drainActions_run
  exact ⟨s, reached, drained, reading, (drain_safety reached drained).1⟩

end Preserve

end Mana.Collective
