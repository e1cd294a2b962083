import Mana.Collective.Steps

/-! The checkpoint threads stay in step. A stage is the stretch of a run after the
release of one barrier and before the release of the next one. What the ranks read in
a stage, and the barrier they go to next, are the same for all of them. -/

namespace Mana.Collective
open Mana.Lib Option

structure Verdict where
  numConverged : Nat
  inCs : Nat
  raised : Nat
  deriving DecidableEq, Repr

def Verdict.Done (n : Nat) (v : Verdict) : Prop := v.inCs = 0 ∧ v.numConverged = n ∧ v.raised = 0

instance (n : Nat) (v : Verdict) : Decidable (v.Done n) := inferInstanceAs (Decidable (_ ∧ _))

/-- The barrier released last: none of this checkpoint, that of `share_seq_nums`, or
that of a round, with what the round's keys hold since. -/
inductive Stage where
  | between (generation : Nat)
  | shared (e : Attempt)
  | round (e : Attempt) (roundNum roundsWithoutRaise : Nat) (v : Verdict)
  deriving DecidableEq, Repr

inductive Goal where
  | share (e : Attempt)
  | round (e : Attempt) (roundNum roundsWithoutRaise : Nat)
  | drain (e : Attempt) (roundNum : Nat)
  deriving DecidableEq, Repr

def Goal.barrier : Goal → Barrier
  | .share e => .shareSeqNum e.attemptId
  | .round e r _ => .presuspend e.attemptId r
  | .drain _ _ => .drainSendRecv

def Stage.goal (n : Nat) : Stage → Goal
  | .between gen => .share ⟨gen + 1, 0⟩
  | .shared e => .round e 0 0
  | .round e r w v =>
      if v.Done n then .drain e r
      else if v.raised > 0 then .round e (r + 1) 0
      else if w + 1 < MAX_DRAIN_ROUNDS then .round e (r + 1) (w + 1)
      else .share ⟨e.generation, e.attemptId + 1⟩

def Stage.events (n : Nat) : Stage → List Event
  | .between _ => []
  | .shared _ => []
  | .round e r w v =>
      .read e r v.numConverged v.inCs v.raised ::
        if v.Done n then [.returned e r]
        else if v.raised > 0 then [.again e r 0]
        else if w + 1 < MAX_DRAIN_ROUNDS then [.again e r (w + 1)]
        else [.again e r (w + 1), .gaveUp e (r + 1)]

def Stage.plan (n : Nat) (stage : Stage) : List Event :=
  stage.events n ++ [.arrive (stage.goal n).barrier]

structure InRound (e : Attempt) (r w : Nat) (p : Proc) : Prop where
  attempt : p.attempt = e
  roundNum : p.locals.roundNum = r
  roundsWithoutRaise : p.locals.roundsWithoutRaise = w

inductive OnWay : Goal → Proc → CkptPc → Bool → Prop where
  | share {e : Attempt} {p : Proc} (here : p.attempt = e) : OnWay (.share e) p .share false
  | shareWait {e : Attempt} {p : Proc} (here : p.attempt = e) : OnWay (.share e) p .shareBarrier true
  | roundTop {e : Attempt} {r w : Nat} {p : Proc} (here : InRound e r w p) (few : w < MAX_DRAIN_ROUNDS) :
      OnWay (.round e r w) p .roundTop false
  | putConverge {e : Attempt} {r w : Nat} {p : Proc} (here : InRound e r w p) :
      OnWay (.round e r w) p .putConverge false
  | putCs {e : Attempt} {r w : Nat} {p : Proc} (here : InRound e r w p) : OnWay (.round e r w) p .putCs false
  | roundWait {e : Attempt} {r w : Nat} {p : Proc} (here : InRound e r w p) :
      OnWay (.round e r w) p .roundBarrier true
  | drained {e : Attempt} {r : Nat} {p : Proc} (here : p.attempt = e) (roundNum : p.locals.roundNum = r) :
      OnWay (.drain e r) p .drained false
  | drainWait {e : Attempt} {r : Nat} {p : Proc} (here : p.attempt = e) (roundNum : p.locals.roundNum = r) :
      OnWay (.drain e r) p .drainBarrier true

structure Verdict.Exhausted (n w : Nat) (v : Verdict) : Prop where
  unfinished : ¬v.Done n
  quiet : v.raised = 0
  many : ¬w + 1 < MAX_DRAIN_ROUNDS

inductive Early (n : Nat) : Stage → Proc → CkptPc → List Event → Prop where
  | running {gen : Nat} {p : Proc} (same : p.generation = gen) : Early n (.between gen) p .running []
  | drainedAll {gen : Nat} {p : Proc} (same : p.generation = gen) : Early n (.between gen) p .drainedAll []
  | download {e : Attempt} {p : Proc} (here : p.attempt = e) : Early n (.shared e) p .shareDownload []
  | getConverge {e : Attempt} {r w : Nat} {v : Verdict} {p : Proc} (here : InRound e r w p) :
      Early n (.round e r w v) p .getConverge []
  | getCs {e : Attempt} {r w : Nat} {v : Verdict} {p : Proc} (here : InRound e r w p)
      (conv : p.locals.numConverged = v.numConverged) : Early n (.round e r w v) p .getCs []
  | getRaised {e : Attempt} {r w : Nat} {v : Verdict} {p : Proc} (here : InRound e r w p)
      (conv : p.locals.numConverged = v.numConverged) (cs : p.locals.inCs = v.inCs) :
      Early n (.round e r w v) p .getRaised []
  | verdict {e : Attempt} {r w : Nat} {v : Verdict} {p : Proc} (here : InRound e r w p)
      (conv : p.locals.numConverged = v.numConverged) (cs : p.locals.inCs = v.inCs)
      (raised : p.locals.raised = v.raised) :
      Early n (.round e r w v) p .verdict [.read e r v.numConverged v.inCs v.raised]
  | exhausted {e : Attempt} {r w : Nat} {v : Verdict} {p : Proc} (here : InRound e (r + 1) (w + 1) p)
      (ends : v.Exhausted n w) :
      Early n (.round e r w v) p .roundTop [.read e r v.numConverged v.inCs v.raised, .again e r (w + 1)]
  | giveUp {e : Attempt} {r w : Nat} {v : Verdict} {p : Proc} (here : p.attempt = e) (ends : v.Exhausted n w) :
      Early n (.round e r w v) p .giveUp
        [.read e r v.numConverged v.inCs v.raised, .again e r (w + 1), .gaveUp e (r + 1)]
  | sleep {e : Attempt} {r w : Nat} {v : Verdict} {p : Proc} (here : p.attempt = e) (ends : v.Exhausted n w) :
      Early n (.round e r w v) p .sleep
        [.read e r v.numConverged v.inCs v.raised, .again e r (w + 1), .gaveUp e (r + 1)]

inductive At (n : Nat) (stage : Stage) (p : Proc) (pc : CkptPc) : List Event → Prop where
  | early {events : List Event} (early : Early n stage p pc events) : At n stage p pc events
  | onWay (way : OnWay (stage.goal n) p pc false) : At n stage p pc (stage.events n)
  | arrived (way : OnWay (stage.goal n) p pc true) : At n stage p pc (stage.plan n)

section Places
variable {n : Nat} {stage : Stage} {p : Proc} {pc : CkptPc} {events : List Event}

theorem At.events_prefix (here : At n stage p pc events) : events <+: stage.plan n := by
  cases here with
  | early early =>
    cases early with
    | running | drainedAll | download | getConverge | getCs | getRaised => exact List.nil_prefix
    | verdict => simp [Stage.plan, Stage.events]
    | exhausted _ ends | giveUp _ ends | sleep _ ends =>
      simp [Stage.plan, Stage.events, ends.unfinished, ends.quiet, ends.many]
  | onWay => exact List.prefix_append ..
  | arrived => exact List.prefix_rfl

variable {e : Attempt} {r w : Nat} {p' : Proc}

theorem InRound.congr (here : InRound e r w p) (locals : p'.locals = p.locals)
    (generation : p'.generation = p.generation) : InRound e r w p' := by
  refine ⟨?_, by rw [locals]; exact here.roundNum, by rw [locals]; exact here.roundsWithoutRaise⟩
  rw [← here.attempt, Proc.attempt, Proc.attempt, locals, generation]

theorem Proc.attempt_congr (locals : p'.locals = p.locals) (generation : p'.generation = p.generation) :
    p'.attempt = p.attempt := by
  simp [Proc.attempt, locals, generation]

theorem OnWay.congr {goal : Goal} {arrived : Bool} (way : OnWay goal p pc arrived) (locals : p'.locals = p.locals)
    (generation : p'.generation = p.generation) : OnWay goal p' pc arrived := by
  have attempt := Proc.attempt_congr locals generation
  cases way with
  | share here => exact .share (attempt.trans here)
  | shareWait here => exact .shareWait (attempt.trans here)
  | roundTop here few => exact .roundTop (here.congr locals generation) few
  | putConverge here => exact .putConverge (here.congr locals generation)
  | putCs here => exact .putCs (here.congr locals generation)
  | roundWait here => exact .roundWait (here.congr locals generation)
  | drained here roundNum => exact .drained (attempt.trans here) (locals ▸ roundNum)
  | drainWait here roundNum => exact .drainWait (attempt.trans here) (locals ▸ roundNum)

theorem At.congr (here : At n stage p pc events) (locals : p'.locals = p.locals)
    (generation : p'.generation = p.generation) : At n stage p' pc events := by
  have attempt := Proc.attempt_congr locals generation
  cases here with
  | early early =>
    refine .early ?_
    cases early with
    | running same => exact .running (generation.trans same)
    | drainedAll same => exact .drainedAll (generation.trans same)
    | download here => exact .download (attempt.trans here)
    | getConverge here => exact .getConverge (here.congr locals generation)
    | getCs here conv => exact .getCs (here.congr locals generation) (by rw [locals, conv])
    | getRaised here conv cs =>
      exact .getRaised (here.congr locals generation) (by rw [locals, conv]) (by rw [locals, cs])
    | verdict here conv cs raised =>
      exact .verdict (here.congr locals generation) (by rw [locals, conv]) (by rw [locals, cs])
        (by rw [locals, raised])
    | exhausted here ends => exact .exhausted (here.congr locals generation) ends
    | giveUp here ends => exact .giveUp (attempt.trans here) ends
    | sleep here ends => exact .sleep (attempt.trans here) ends
  | onWay way => exact .onWay (way.congr locals generation)
  | arrived way => exact .arrived (way.congr locals generation)

theorem At.of_way {goal : Goal} (aim : stage.goal n = goal) (past : stage.events n = events)
    (way : OnWay goal p pc false) : At n stage p pc events := by
  subst aim past
  exact .onWay way

theorem InRound.nextRound {w' : Nat} (here : InRound e r w p) : InRound e (r + 1) w' (p.nextRound w') :=
  ⟨here.attempt, congrArg (· + 1) here.roundNum, rfl⟩

theorem Verdict.Exhausted.goal {v : Verdict} (ends : v.Exhausted n w) :
    (Stage.round e r w v).goal n = .share ⟨e.generation, e.attemptId + 1⟩ := by
  simp [Stage.goal, ends.unfinished, ends.quiet, ends.many]

end Places

def Stage.Reads (kv : Kvdb) : Stage → Prop
  | .round e r _ v => kv ⟨.converge, e⟩ (.round r) = some v.numConverged ∧
      kv ⟨.criticalSection, e⟩ (.round r) = some v.inCs ∧ kv ⟨.targetsRaised, e⟩ (.round r) = some v.raised
  | _ => True

def ListsComplete (kv : Kvdb) : Prop :=
  ∀ e r i, i < (kv ⟨.targetsRaised, e⟩ (.round r)).getD 0 →
    ∃ g m, kv ⟨.raisedGids, e⟩ (.entry r i) = some g ∧ kv ⟨.commSeqMax, e⟩ (.gid g) = some m

section Step
variable {n : Nat} {stage : Stage} {kv kv' : Kvdb} {p p' : Proc} {pc : CkptPc} {events : List Event}

theorem Early.ckptMove (early : Early n stage p pc events) (reads : stage.Reads kv) (lists : ListsComplete kv)
    (moved : CkptMove n kv p pc p' kv') :
    ∃ new, p'.log = p.log ++ new ∧ At n stage p' p'.ckpt (events ++ new) := by
  cases early with
  | running same =>
    cases moved
    exact ⟨[], by simp, .onWay (.share (by simp [Proc.attempt, same]))⟩
  | drainedAll same =>
    cases moved
    exact ⟨[], by simp, .early (.running same)⟩
  | download here =>
    cases moved
    exact ⟨[], by simp, .onWay (.roundTop ⟨here, rfl, rfl⟩ (by decide))⟩
  | getConverge here =>
    cases moved with
    | getConverge value got =>
      rw [here.attempt, here.roundNum, reads.1, some.injEq] at got
      exact ⟨[], by simp, .early (.getCs ⟨here.1, here.2, here.3⟩ got.symm)⟩
    | noConverge missing => simp [here.attempt, here.roundNum, reads.1] at missing
  | getCs here conv =>
    cases moved with
    | getCs value got =>
      rw [here.attempt, here.roundNum, reads.2.1, some.injEq] at got
      exact ⟨[], by simp, .early (.getRaised ⟨here.1, here.2, here.3⟩ conv got.symm)⟩
    | noCs missing => simp [here.attempt, here.roundNum, reads.2.1] at missing
  | getRaised here conv cs =>
    cases moved with
    | getRaised value got =>
      rw [here.attempt, here.roundNum, reads.2.2, some.injEq] at got
      refine ⟨_, rfl, ?_⟩
      rw [here.attempt, here.roundNum, conv, cs, ← got]
      exact .early (.verdict ⟨here.1, here.2, here.3⟩ conv cs rfl)
    | noRaised missing => simp [here.attempt, here.roundNum, reads.2.2] at missing
  | @verdict e r w v _ here conv cs raised =>
    cases moved with
    | returned done =>
      have done' : v.Done n := by rwa [cs, conv, raised] at done
      have aim : (Stage.round e r w v).goal n = .drain e r := by simp [Stage.goal, done']
      refine ⟨_, rfl, .of_way aim ?_ (.drained here.attempt here.roundNum)⟩
      simp [Stage.events, done', here.attempt, here.roundNum]
    | raised positive clocks downloaded =>
      have positive' : v.raised > 0 := raised ▸ positive
      have unfinished : ¬v.Done n := fun done => Nat.ne_of_gt positive' done.2.2
      have aim : (Stage.round e r w v).goal n = .round e (r + 1) 0 := by simp [Stage.goal, unfinished, positive']
      have here' : InRound e r w { p with clocks := clocks, targetsVersion := p.targetsVersion + 1 } :=
        ⟨here.attempt, here.roundNum, here.roundsWithoutRaise⟩
      refine ⟨_, rfl, .of_way aim ?_ (.roundTop here'.nextRound (by decide))⟩
      simp [Stage.events, unfinished, positive', here'.attempt, here.roundNum]
    | again unfinished quiet =>
      have unfinished' : ¬v.Done n := by rwa [cs, conv, raised] at unfinished
      have quiet' : v.raised = 0 := raised ▸ quiet
      rw [here.roundsWithoutRaise]
      by_cases few : w + 1 < MAX_DRAIN_ROUNDS
      · have aim : (Stage.round e r w v).goal n = .round e (r + 1) (w + 1) := by
          simp [Stage.goal, unfinished', quiet', few]
        refine ⟨_, rfl, .of_way aim ?_ (.roundTop here.nextRound few)⟩
        simp [Stage.events, unfinished', quiet', few, here.attempt, here.roundNum]
      · refine ⟨[.again e r (w + 1)], ?_, .early (.exhausted here.nextRound ⟨unfinished', quiet', few⟩)⟩
        rw [← here.attempt, ← here.roundNum]
        rfl
    | noTarget missing =>
      have complete := downloadRaisedTargets_isSome p.clocks (lists p.attempt p.locals.roundNum)
      rw [here.attempt, here.roundNum, reads.2.2, getD_some, ← raised, ← here.attempt, ← here.roundNum,
        missing] at complete
      simp at complete
  | @exhausted e r w v _ here ends =>
    cases moved with
    | section_ few => exact absurd (here.roundsWithoutRaise ▸ few) ends.many
    | exhausted _ =>
      refine ⟨[.gaveUp e (r + 1)], ?_, .early (.giveUp here.attempt ends)⟩
      rw [← here.attempt, ← here.roundNum]
  | giveUp here ends =>
    cases moved
    exact ⟨[], by simp, .early (.sleep here ends)⟩
  | @sleep e r w v _ here ends =>
    cases moved
    have past := ends.goal (e := e) (r := r)
    refine ⟨[], by simp, .of_way past ?_ (.share (by rw [← here]; rfl))⟩
    simp [Stage.events, ends.unfinished, ends.quiet, ends.many]

theorem OnWay.ckptMove {goal : Goal} (way : OnWay goal p pc false) (moved : CkptMove n kv p pc p' kv') :
    (p'.log = p.log ∧ OnWay goal p' p'.ckpt false) ∨
      (p'.log = p.log ++ [.arrive goal.barrier] ∧ OnWay goal p' p'.ckpt true) := by
  cases way with
  | share here =>
    cases moved
    subst here
    exact .inr ⟨rfl, .shareWait rfl⟩
  | roundTop here few =>
    cases moved with
    | section_ few => exact .inl ⟨rfl, .putConverge ⟨here.1, here.2, here.3⟩⟩
    | exhausted many => exact absurd (here.3 ▸ few) many
  | putConverge here =>
    cases moved
    exact .inl ⟨rfl, .putCs ⟨here.1, here.2, here.3⟩⟩
  | putCs here =>
    cases moved
    refine .inr ⟨?_, .roundWait ⟨here.1, here.2, here.3⟩⟩
    rw [Goal.barrier, ← here.attempt, ← here.roundNum]
    rfl
  | drained here roundNum =>
    cases moved
    exact .inr ⟨rfl, .drainWait here roundNum⟩

theorem OnWay.waitingAt {goal : Goal} {arrived : Bool} (way : OnWay goal p pc arrived) (at_ : p.ckpt = pc) :
    p.waitingAt = if arrived then some goal.barrier else none := by
  cases way with
  | shareWait here =>
    simp only [Proc.waitingAt, at_, Goal.barrier, ← here]
    rfl
  | roundWait here =>
    simp only [Proc.waitingAt, at_, Goal.barrier, ← here.attempt, ← here.roundNum]
    rfl
  | share | roundTop | putConverge | putCs | drained | drainWait => simp [Proc.waitingAt, at_, Goal.barrier]

theorem OnWay.not_ckptMove {goal : Goal} (way : OnWay goal p pc true) : ¬CkptMove n kv p pc p' kv' := by
  intro moved
  cases way <;> cases moved

theorem At.ckptMove (here : At n stage p pc events) (reads : stage.Reads kv) (lists : ListsComplete kv)
    (moved : CkptMove n kv p pc p' kv') :
    ∃ new, p'.log = p.log ++ new ∧ At n stage p' p'.ckpt (events ++ new) := by
  cases here with
  | early early => exact early.ckptMove reads lists moved
  | onWay way =>
    rcases way.ckptMove moved with ⟨log, way⟩ | ⟨log, way⟩
    · exact ⟨[], by simpa using log, by simpa using At.onWay way⟩
    · exact ⟨_, log, .arrived way⟩
  | arrived way => exact absurd moved way.not_ckptMove

theorem At.arrived_of_waiting {b : Barrier} (here : At n stage p pc events) (at_ : p.ckpt = pc)
    (waits : p.waitingAt = some b) :
    OnWay (stage.goal n) p pc true ∧ events = stage.plan n ∧ (stage.goal n).barrier = b := by
  cases here with
  | early early =>
    exfalso
    cases early <;> simp [Proc.waitingAt, at_] at waits
  | onWay way => simp [way.waitingAt at_] at waits
  | arrived way => exact ⟨way, rfl, by simpa [way.waitingAt at_] using waits⟩

theorem Stage.goal_round {e : Attempt} {r w : Nat} (aim : stage.goal n = .round e r w) :
    (stage = .shared e ∧ r = 0) ∨ ∃ r' w' v, stage = .round e r' w' v ∧ r = r' + 1 := by
  cases stage with
  | between gen => simp [Stage.goal] at aim
  | shared e' =>
    simp only [Stage.goal, Goal.round.injEq] at aim
    exact .inl ⟨by rw [aim.1], aim.2.1.symm⟩
  | round e' r' w' v =>
    simp only [Stage.goal] at aim
    split at aim
    · simp at aim
    · split at aim
      · simp only [Goal.round.injEq] at aim
        exact .inr ⟨r', w', v, by rw [aim.1], aim.2.1.symm⟩
      · split at aim
        · simp only [Goal.round.injEq] at aim
          exact .inr ⟨r', w', v, by rw [aim.1], aim.2.1.symm⟩
        · simp at aim

/-- A rank before or at the puts of a round: it is on its way to that round's barrier,
or it is about to give up. -/
theorem At.collecting (here : At n stage p pc events) (puts : pc = .roundTop ∨ pc = .putConverge ∨ pc = .putCs) :
    (∃ e r w, stage.goal n = .round e r w ∧ InRound e r w p) ∨
      ∃ e r w v, stage = .round e r w v ∧ InRound e (r + 1) (w + 1) p ∧ v.Exhausted n w := by
  cases here with
  | early early =>
    cases early with
    | exhausted here ends => exact .inr ⟨_, _, _, _, rfl, here, ends⟩
    | _ => simp at puts
  | onWay way =>
    generalize aim : stage.goal n = goal at way
    cases way with
    | roundTop here | putConverge here | putCs here => exact .inl ⟨_, _, _, rfl, here⟩
    | _ => simp at puts
  | arrived way =>
    generalize stage.goal n = goal at way
    cases way <;> simp at puts

theorem At.goal_of_returned (here : At n stage p pc events) (returned : pc = .drained ∨ pc = .drainBarrier) :
    ∃ r, stage.goal n = .drain p.attempt r := by
  cases here with
  | early early => cases early <;> simp at returned
  | onWay way =>
    generalize stage.goal n = goal at way
    cases way with
    | drained here => exact ⟨_, by rw [here]⟩
    | _ => simp at returned
  | arrived way =>
    generalize stage.goal n = goal at way
    cases way with
    | drainWait here => exact ⟨_, by rw [here]⟩
    | _ => simp at returned

/-- In the last stage of a drain a rank is about to return, or has returned. -/
theorem At.of_done {v : Verdict} (here : At n (.round e r w v) p pc events) (done : v.Done n) :
    p.attempt = e ∧ p.locals.roundNum = r ∧
      (pc = .getConverge ∨ pc = .getCs ∨ pc = .getRaised ∨ pc = .verdict ∨ pc = .drained ∨ pc = .drainBarrier) := by
  have aim : (Stage.round e r w v).goal n = .drain e r := by simp [Stage.goal, done]
  cases here with
  | early early =>
    cases early with
    | getConverge here | getCs here | getRaised here | verdict here => exact ⟨here.attempt, here.roundNum, by simp⟩
    | exhausted _ ends | giveUp _ ends | sleep _ ends => exact absurd done ends.unfinished
  | onWay way =>
    rw [aim] at way
    cases way with
    | drained here roundNum => exact ⟨here, roundNum, by simp⟩
  | arrived way =>
    rw [aim] at way
    cases way with
    | drainWait here roundNum => exact ⟨here, roundNum, by simp⟩

theorem At.not_aborted (here : At n stage p pc events) : pc ≠ .aborted := by
  rintro rfl
  cases here with
  | early early => cases early
  | onWay way | arrived way =>
    generalize stage.goal n = goal at way
    cases way

end Step

end Mana.Collective
