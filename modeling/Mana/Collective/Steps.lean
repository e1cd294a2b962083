import Mana.Collective.Drain

/-! What one step can do, by cases. The invariants of the drain are proved from
these, not from the step functions. -/

namespace Mana.Collective
open Mana.Lib Option Function

def AppPc.inSection : AppPc → Bool
  | .inCs _ => true
  | _ => false

inductive AppMove (size : Gid → Nat) (mayAdd mayErase : Gid → Bool) (p : Proc) : Proc → Prop where
  | move (phase : Phase) (app : AppPc) (out : app.inSection = false)
      (ready : phase = .isReady ∨ phase = p.currentPhase ∧ p.app.inSection = false) :
      AppMove size mayAdd mayErase p { p with currentPhase := phase, app := app }
  | enter {q : Proc} (c : Call) (pc : p.app = .beginLock c) (unlocked : p.lockHeld = false)
      (goes : p.mustWait = false) (entered : p.enter size c = some q) : AppMove size mayAdd mayErase p q
  | add (g : Gid) (inside : p.app.inSection = true) (unlocked : p.lockHeld = false) (may : mayAdd g = true)
      (absent : g ∉ p.clocks) (unfreed : g ∉ p.freed) : AppMove size mayAdd mayErase p (p.addCommClock g)
  | erase (g : Gid) (out : p.app.inSection = false) (unlocked : p.lockHeld = false) (may : mayErase g = true)
      (present : g ∈ p.clocks) : AppMove size mayAdd mayErase p { p with clocks := p.clocks.erase g }

inductive AppStep (size : Gid → Nat) (mayAdd mayErase : Gid → Bool) (p : Proc) : AppAct → Proc → Prop where
  | call (c : Call) (pc : p.app = .ready) (live : ∀ g free, c = .counted g free → g ∈ p.clocks ∧ g ∉ p.freed) :
      AppStep size mayAdd mayErase p (.call c) { p with app := .beginLock c }
  | wait (c : Call) (pc : p.app = .beginLock c) (unlocked : p.lockHeld = false) (waits : p.mustWait = true) :
      AppStep size mayAdd mayErase p .lock { p with app := .beginSpin c p.targetsVersion }
  | enter {q : Proc} (c : Call) (pc : p.app = .beginLock c) (unlocked : p.lockHeld = false)
      (goes : p.mustWait = false) (entered : p.enter size c = some q) : AppStep size mayAdd mayErase p .lock q
  | wake (c : Call) (version : Nat) (pc : p.app = .beginSpin c version)
      (changed : ¬(p.ckptPending = true ∧ p.targetsVersion = version)) :
      AppStep size mayAdd mayErase p .wake { p with app := .beginLock c }
  | add (g : Gid) (c : Call) (pc : p.app = .inCs c) (unlocked : p.lockHeld = false) (may : mayAdd g = true)
      (absent : g ∉ p.clocks) (unfreed : g ∉ p.freed) :
      AppStep size mayAdd mayErase p (.addClock g) (p.addCommClock g)
  | finish (pc : (∃ c, p.app = .inCs c) ∨ p.app = .ready) :
      AppStep size mayAdd mayErase p .finish { p with currentPhase := .isReady, app := .finishRead }
  | readPending (pc : p.app = .finishRead) :
      AppStep size mayAdd mayErase p .readPending
        { p with app := if p.ckptPending then .finishLock else .finishFrees }
  | finishLock (pc : p.app = .finishLock) (unlocked : p.lockHeld = false) :
      AppStep size mayAdd mayErase p .lock
        { p with app := if p.mustWait then .finishSpin p.targetsVersion else .finishFrees }
  | finishWake (version : Nat) (pc : p.app = .finishSpin version)
      (changed : ¬(p.ckptPending = true ∧ p.targetsVersion = version)) :
      AppStep size mayAdd mayErase p .wake { p with app := .finishLock }
  | erase (g : Gid) (pc : p.app = .finishFrees ∨ p.app = .ready) (unlocked : p.lockHeld = false)
      (may : mayErase g = true) (present : g ∈ p.clocks) :
      AppStep size mayAdd mayErase p (.eraseClock g) { p with clocks := p.clocks.erase g }
  | done (pc : p.app = .finishFrees) : AppStep size mayAdd mayErase p .done { p with app := .ready }

variable {size : Gid → Nat} {mayAdd mayErase : Gid → Bool} {p q : Proc} {a : AppAct} {worldSize : Nat} {kv kv' : Kvdb}
    {pc : CkptPc}

theorem Proc.appStep_cases (taken : p.appStep size mayAdd mayErase a = some q) :
    AppStep size mayAdd mayErase p a q := by
  unfold Proc.appStep at taken
  split at taken
  case h_1 pc =>
    cases taken
    exact .call _ pc (fun g free counted => by cases counted)
  case h_2 pc =>
    split at taken
    · next live =>
      cases taken
      refine .call _ pc (fun g free counted => ?_)
      cases counted
      exact live
    · cases taken
  case h_3 c pc =>
    by_cases locked : p.lockHeld = true
    · simp [locked] at taken
    · have unlocked : p.lockHeld = false := by simpa using locked
      rw [if_neg locked] at taken
      by_cases waits : p.mustWait = true
      · rw [if_pos waits] at taken
        cases taken
        exact .wait c pc unlocked waits
      · rw [if_neg waits] at taken
        exact .enter c pc unlocked (by simpa using waits) taken
  case h_4 pc =>
    split at taken
    · cases taken
    · next changed =>
      cases taken
      exact .wake _ _ pc changed
  case h_5 g _ pc =>
    split at taken
    · next may =>
      cases taken
      exact .add g _ pc may.1 may.2.1 may.2.2.1 may.2.2.2
    · cases taken
  case h_6 pc =>
    cases taken
    exact .finish (.inl ⟨_, pc⟩)
  case h_7 pc =>
    cases taken
    exact .finish (.inr pc)
  case h_8 pc =>
    cases taken
    exact .readPending pc
  case h_9 pc =>
    by_cases locked : p.lockHeld = true
    · simp [locked] at taken
    · rw [if_neg locked] at taken
      cases taken
      exact .finishLock pc (by simpa using locked)
  case h_10 pc =>
    split at taken
    · cases taken
    · next changed =>
      cases taken
      exact .finishWake _ pc changed
  case h_11 g pc =>
    split at taken
    · next may =>
      cases taken
      exact .erase g (.inl pc) may.1 may.2.1 may.2.2
    · cases taken
  case h_12 g pc =>
    split at taken
    · next may =>
      cases taken
      exact .erase g (.inr pc) may.1 may.2.1 may.2.2
    · cases taken
  case h_13 pc =>
    cases taken
    exact .done pc
  case h_14 => cases taken

theorem AppStep.move (taken : AppStep size mayAdd mayErase p a q) : AppMove size mayAdd mayErase p q := by
  cases taken with
  | call c pc | wait c pc | wake c v pc | finishWake v pc | done pc =>
    exact .move p.currentPhase _ rfl (.inr ⟨rfl, by rw [pc]; rfl⟩)
  | enter c pc unlocked goes entered => exact .enter c pc unlocked goes entered
  | add g c pc unlocked may absent unfreed => exact .add g (by rw [pc]; rfl) unlocked may absent unfreed
  | finish => exact .move .isReady _ rfl (.inl rfl)
  | readPending pc | finishLock pc =>
    refine .move p.currentPhase _ ?_ (.inr ⟨rfl, by rw [pc]; rfl⟩)
    split <;> rfl
  | erase g pc unlocked may present =>
    refine .erase g ?_ unlocked may present
    rcases pc with pc | pc <;> rw [pc] <;> rfl

theorem Proc.enter_counted {g : Gid} {free : Bool} (entered : p.enter size (.counted g free) = some q) :
    ∃ clock, p.clocks.lookup g = some clock ∧
      q = { p with
        currentPhase := .inCs
        app := .inCs (.counted g free)
        clocks := p.clocks.insert g (clock.count p.ckptPending)
        raisedClocks :=
          if clock.passes p.ckptPending ∧ size g > 1 then p.raisedClocks ++ [g] else p.raisedClocks
        freed := if free then g :: p.freed else p.freed
        calls := p.calls ++ [g] } := by
  unfold Proc.enter at entered
  cases found : p.clocks.lookup g with
  | none => simp [found] at entered
  | some clock =>
    simp only [found, some.injEq] at entered
    exact ⟨clock, rfl, entered.symm⟩

/-- The application thread leaves the checkpoint thread's variables alone. -/
structure SameCkpt (p q : Proc) : Prop where
  ckpt : q.ckpt = p.ckpt
  locals : q.locals = p.locals
  generation : q.generation = p.generation
  log : q.log = p.log
  shared : q.shared = p.shared
  ckptPending : q.ckptPending = p.ckptPending
  targetsVersion : q.targetsVersion = p.targetsVersion

theorem SameCkpt.attempt (same : SameCkpt p q) : q.attempt = p.attempt := by
  rw [Proc.attempt, same.generation, same.locals]
  rfl

theorem AppMove.sameCkpt (moved : AppMove size mayAdd mayErase p q) : SameCkpt p q := by
  cases moved with
  | move | add | erase => constructor <;> rfl
  | enter c pc unlocked goes entered =>
    cases c with
    | uncounted =>
      simp only [Proc.enter, some.injEq] at entered
      subst entered
      constructor <;> rfl
    | counted g free =>
      obtain ⟨clock, -, rfl⟩ := Proc.enter_counted entered
      constructor <;> rfl

/-- The history only grows. -/
structure Proc.Extends (p q : Proc) : Prop where
  calls : p.calls <+: q.calls
  freed : p.freed ⊆ q.freed

theorem Proc.Extends.refl (p : Proc) : p.Extends p := ⟨List.prefix_rfl, List.Subset.refl _⟩

theorem AppMove.extends (moved : AppMove size mayAdd mayErase p q) : p.Extends q := by
  cases moved with
  | move | add | erase => exact ⟨List.prefix_rfl, List.Subset.refl _⟩
  | enter c pc unlocked goes entered =>
    cases c with
    | uncounted =>
      cases entered
      exact ⟨List.prefix_rfl, List.Subset.refl _⟩
    | counted g free =>
      obtain ⟨clock, -, rfl⟩ := Proc.enter_counted entered
      refine ⟨List.prefix_append .., ?_⟩
      dsimp only
      split
      · exact List.subset_cons_self _ _
      · exact List.Subset.refl _

inductive CkptMove (worldSize : Nat) (kv : Kvdb) (p : Proc) : CkptPc → Proc → Kvdb → Prop where
  | start :
      CkptMove worldSize kv p .running
        { p with ckpt := .share, generation := p.generation + 1, locals := { p.locals with attemptId := 0 } } kv
  | share :
      CkptMove worldSize kv p .share
        { p with
          ckptPending := true
          raisedClocks := []
          addedClock := false
          ckpt := .shareBarrier
          shared := fun e => if e = p.attempt then some p.calls else p.shared e
          log := p.log ++ [.arrive (.shareSeqNum p.locals.attemptId)] }
        (uploadSeqNum ⟨.commSeqMax, p.attempt⟩ p.clocks kv)
  | download :
      CkptMove worldSize kv p .shareDownload
        { p with
          clocks := downloadTargets ⟨.commSeqMax, p.attempt⟩ kv p.clocks
          targetsVersion := p.targetsVersion + 1
          ckpt := .roundTop
          locals := { p.locals with roundNum := 0, roundsWithoutRaise := 0 } } kv
  | section_ (few : p.locals.roundsWithoutRaise < MAX_DRAIN_ROUNDS) :
      CkptMove worldSize kv p .roundTop (p.roundSection kv).1 (p.roundSection kv).2
  | exhausted (many : ¬p.locals.roundsWithoutRaise < MAX_DRAIN_ROUNDS) :
      CkptMove worldSize kv p .roundTop
        { p with ckpt := .giveUp, log := p.log ++ [.gaveUp p.attempt p.locals.roundNum] } kv
  | putConverge :
      CkptMove worldSize kv p .putConverge { p with ckpt := .putCs }
        (kv.incrBy ⟨.converge, p.attempt⟩ (.round p.locals.roundNum) p.locals.targetReached.toNat)
  | putCs :
      CkptMove worldSize kv p .putCs
        { p with
          ckpt := .roundBarrier
          log := p.log ++ [.arrive (.presuspend p.locals.attemptId p.locals.roundNum)] }
        (kv.or ⟨.criticalSection, p.attempt⟩ (.round p.locals.roundNum) p.locals.cs.toNat)
  | getConverge (value : Nat) (got : kv ⟨.converge, p.attempt⟩ (.round p.locals.roundNum) = some value) :
      CkptMove worldSize kv p .getConverge
        { p with ckpt := .getCs, locals := { p.locals with numConverged := value } } kv
  | getCs (value : Nat) (got : kv ⟨.criticalSection, p.attempt⟩ (.round p.locals.roundNum) = some value) :
      CkptMove worldSize kv p .getCs
        { p with ckpt := .getRaised, locals := { p.locals with inCs := value } } kv
  | getRaised (value : Nat) (got : kv ⟨.targetsRaised, p.attempt⟩ (.round p.locals.roundNum) = some value) :
      CkptMove worldSize kv p .getRaised
        { p with
          ckpt := .verdict
          locals := { p.locals with raised := value }
          log := p.log ++ [.read p.attempt p.locals.roundNum p.locals.numConverged p.locals.inCs value] } kv
  | returned (done : p.locals.inCs = 0 ∧ p.locals.numConverged = worldSize ∧ p.locals.raised = 0) :
      CkptMove worldSize kv p .verdict
        { p with ckpt := .drained, log := p.log ++ [.returned p.attempt p.locals.roundNum] } kv
  | raised (positive : p.locals.raised > 0) (clocks : Clocks)
      (downloaded : downloadRaisedTargets p.attempt p.locals.roundNum p.locals.raised kv p.clocks = some clocks) :
      CkptMove worldSize kv p .verdict
        ({ p with clocks := clocks, targetsVersion := p.targetsVersion + 1 }.nextRound 0) kv
  | again (unfinished : ¬(p.locals.inCs = 0 ∧ p.locals.numConverged = worldSize ∧ p.locals.raised = 0))
      (quiet : p.locals.raised = 0) :
      CkptMove worldSize kv p .verdict (p.nextRound (p.locals.roundsWithoutRaise + 1)) kv
  | giveUp : CkptMove worldSize kv p .giveUp { p with ckptPending := false, ckpt := .sleep } kv
  | sleep :
      CkptMove worldSize kv p .sleep
        { p with ckpt := .share, locals := { p.locals with attemptId := p.locals.attemptId + 1 } } kv
  | drained :
      CkptMove worldSize kv p .drained
        { p with ckpt := .drainBarrier, log := p.log ++ [.arrive .drainSendRecv] } kv
  | resume : CkptMove worldSize kv p .drainedAll { p with ckptPending := false, ckpt := .running } kv
  | noConverge (missing : kv ⟨.converge, p.attempt⟩ (.round p.locals.roundNum) = none) :
      CkptMove worldSize kv p .getConverge { p with ckpt := .aborted } kv
  | noCs (missing : kv ⟨.criticalSection, p.attempt⟩ (.round p.locals.roundNum) = none) :
      CkptMove worldSize kv p .getCs { p with ckpt := .aborted } kv
  | noRaised (missing : kv ⟨.targetsRaised, p.attempt⟩ (.round p.locals.roundNum) = none) :
      CkptMove worldSize kv p .getRaised { p with ckpt := .aborted } kv
  | noTarget
      (missing : downloadRaisedTargets p.attempt p.locals.roundNum p.locals.raised kv p.clocks = none) :
      CkptMove worldSize kv p .verdict { p with ckpt := .aborted } kv

theorem Proc.decideRound_move : CkptMove worldSize kv p .verdict (p.decideRound worldSize kv) kv := by
  unfold Proc.decideRound
  by_cases done : p.locals.inCs = 0 ∧ p.locals.numConverged = worldSize ∧ p.locals.raised = 0
  · simp only [if_pos done]
    exact .returned done
  · simp only [if_neg done]
    by_cases positive : p.locals.raised > 0
    · simp only [if_pos positive]
      cases downloaded : downloadRaisedTargets p.attempt p.locals.roundNum p.locals.raised kv p.clocks with
      | none => exact .noTarget downloaded
      | some clocks => exact .raised positive clocks downloaded
    · simp only [if_neg positive]
      exact .again done (by omega)

theorem Proc.ckptStep_move (taken : p.ckptStep worldSize kv = some (q, kv')) :
    CkptMove worldSize kv p p.ckpt q kv' := by
  unfold Proc.ckptStep at taken
  cases pc : p.ckpt with
  | shareBarrier | roundBarrier | drainBarrier | aborted => simp [pc] at taken
  | roundTop =>
    simp only [pc] at taken
    by_cases few : p.locals.roundsWithoutRaise < MAX_DRAIN_ROUNDS
    · rw [if_pos few, some.injEq] at taken
      have moved : CkptMove worldSize kv p .roundTop _ _ := .section_ few
      rwa [taken] at moved
    · rw [if_neg few, some.injEq, Prod.mk.injEq] at taken
      obtain ⟨rfl, rfl⟩ := taken
      exact .exhausted few
  | verdict =>
    simp only [pc] at taken
    cases taken
    exact Proc.decideRound_move
  | getConverge =>
    simp only [pc] at taken
    cases taken
    cases got : kv ⟨.converge, p.attempt⟩ (.round p.locals.roundNum) with
    | none => exact .noConverge got
    | some value => exact .getConverge value got
  | getCs =>
    simp only [pc] at taken
    cases taken
    cases got : kv ⟨.criticalSection, p.attempt⟩ (.round p.locals.roundNum) with
    | none => exact .noCs got
    | some value => exact .getCs value got
  | getRaised =>
    simp only [pc] at taken
    cases taken
    cases got : kv ⟨.targetsRaised, p.attempt⟩ (.round p.locals.roundNum) with
    | none => exact .noRaised got
    | some value => exact .getRaised value got
  | running | share | shareDownload | putConverge | putCs | giveUp | sleep | drained | drainedAll =>
    simp only [pc] at taken
    cases taken
    constructor

theorem CkptMove.app_eq (moved : CkptMove worldSize kv p pc q kv') :
    q.app = p.app ∧ q.calls = p.calls ∧ q.freed = p.freed := by
  cases moved <;> exact ⟨rfl, rfl, rfl⟩

theorem CkptMove.mem_clocks (moved : CkptMove worldSize kv p pc q kv') (g : Gid) : g ∈ q.clocks ↔ g ∈ p.clocks := by
  cases moved with
  | download => exact Assoc.mem_mapVal ..
  | section_ few =>
    simp only [Proc.roundSection]
    split
    · exact Assoc.mem_mapVal ..
    · rfl
  | raised positive clocks downloaded => exact mem_downloadRaisedTargets downloaded g
  | _ => rfl

section Machine
variable {n : Nat} {members : Gid → Finset (Fin n)} {s t : State n}

inductive RankMove (members : Gid → Finset (Fin n)) (s : State n) : State n → Prop where
  | app (r : Fin n) {q : Proc}
      (moved : AppMove (fun g => (members g).card) (fun g => decide (r ∈ members g)) (s.allFreed members)
        (s.proc r) q) : RankMove members s (s.setProc r q)
  | ckpt (r : Fin n) {q : Proc} {kv : Kvdb} (moved : CkptMove n s.kvdb (s.proc r) (s.proc r).ckpt q kv) :
      RankMove members s { proc := update s.proc r q, kvdb := kv }
  | completeFree (r : Fin n) (g : Gid) (pc : (s.proc r).ckpt = .drainedAll) (freed : s.allFreed members g = true)
      (held : g ∈ (s.proc r).clocks) :
      RankMove members s (s.setProc r { s.proc r with clocks := (s.proc r).clocks.erase g })

def Release (s : State n) (b : Barrier) (t : State n) : Prop :=
  (∀ q, (s.proc q).waitingAt = some b) ∧ t = { s with proc := fun q => (s.proc q).released }

theorem step_move {a : Action n} (taken : step members s a = some t) :
    RankMove members s t ∨ ∃ b, Release s b t := by
  cases a with
  | app r a =>
    simp only [step, map_eq_some_iff] at taken
    obtain ⟨q, moved, rfl⟩ := taken
    exact .inl (.app r (Proc.appStep_cases moved).move)
  | ckpt r =>
    simp only [step, map_eq_some_iff] at taken
    obtain ⟨⟨q, kv⟩, moved, rfl⟩ := taken
    exact .inl (.ckpt r (Proc.ckptStep_move moved))
  | completeFree r g =>
    simp only [step] at taken
    split at taken
    · next may =>
      cases taken
      exact .inl (.completeFree r g may.1 may.2.1 may.2.2)
    · simp at taken
  | release b =>
    simp only [step] at taken
    split at taken
    · next all => exact .inr ⟨b, all, (some.inj taken).symm⟩
    · simp at taken

/-- What a step of the machine does to one rank. -/
inductive SeenFrom (members : Gid → Finset (Fin n)) (s t : State n) (a : Action n) (r : Fin n) : Prop where
  | app (b : AppAct) (isApp : a = .app r b)
      (moved : AppMove (fun g => (members g).card) (fun g => decide (r ∈ members g)) (s.allFreed members)
        (s.proc r) (t.proc r))
  | ckpt (isCkpt : a = .ckpt r) (moved : CkptMove n s.kvdb (s.proc r) (s.proc r).ckpt (t.proc r) t.kvdb)
  | erase (g : Gid) (isErase : a = .completeFree r g) (freed : s.allFreed members g = true)
      (same : t.proc r = { s.proc r with clocks := (s.proc r).clocks.erase g })
  | released (b : Barrier) (isRelease : a = .release b) (same : t.proc r = (s.proc r).released)
  | other (same : t.proc r = s.proc r)

theorem step_seenFrom {a : Action n} (taken : step members s a = some t) (r : Fin n) :
    SeenFrom members s t a r := by
  have split (r' : Fin n) {q : Proc} {kv : Kvdb} (own : r = r' → t.proc r = q → SeenFrom members s t a r)
      (isNext : t = { proc := update s.proc r' q, kvdb := kv }) : SeenFrom members s t a r := by
    by_cases same : r = r'
    · exact own same (by rw [isNext, same]; exact update_self ..)
    · exact .other (by rw [isNext]; exact update_of_ne same ..)
  cases a with
  | app r' b =>
    obtain ⟨q, moved, isNext⟩ := map_eq_some_iff.mp taken
    refine split r' (fun own isProc => ?_) isNext.symm
    subst own isProc
    exact .app b rfl (Proc.appStep_cases moved).move
  | ckpt r' =>
    obtain ⟨⟨q, kv⟩, moved, isNext⟩ := map_eq_some_iff.mp taken
    refine split r' (fun own isProc => ?_) isNext.symm
    obtain rfl : t.kvdb = kv := congrArg State.kvdb isNext.symm
    subst own isProc
    exact .ckpt rfl (Proc.ckptStep_move moved)
  | completeFree r' g =>
    obtain ⟨⟨-, freed, -⟩, isNext⟩ := ite_none_right_eq_some.mp taken
    refine split r' (fun own isProc => ?_) (some.inj isNext).symm
    subst own
    exact .erase g rfl freed isProc
  | release b =>
    obtain ⟨-, isNext⟩ := ite_none_right_eq_some.mp taken
    exact .released b rfl (by rw [← some.inj isNext])

theorem step_extends {a : Action n} (taken : step members s a = some t) (r : Fin n) : (s.proc r).Extends (t.proc r) := by
  cases step_seenFrom taken r with
  | app b isApp moved => exact moved.extends
  | ckpt isCkpt moved =>
    obtain ⟨-, calls, freed⟩ := moved.app_eq
    exact ⟨calls ▸ List.prefix_rfl, freed ▸ List.Subset.refl _⟩
  | erase g isErase freed same | released b isRelease same | other same =>
    rw [same]
    exact ⟨List.prefix_rfl, List.Subset.refl _⟩

end Machine

end Mana.Collective
