import Mana.Comm.Handles

/-! What one step of the job does to the communicators of a process. -/

namespace Mana.Comm
open Mana.Lib Mana.Collective Option Function

def beginning : AppPc → Option Call
  | .beginLock call => some call
  | .beginSpin call _ => some call
  | _ => none

section Moves
variable {n : Nat} {job : Job n}

structure Begins (job : Job n) (r : Fin n) (p : Proc) (cp : CommProc) (op : Op) (call : Call) : Prop where
  new : ∀ c, op.new = some c → r ∈ job.members c ∧ c ∉ cp.entered
  counts : (op.counts = none ∧ call = .uncounted) ∨ ∃ c g, op.counts = some c ∧ cp.descs.lookup c = some g ∧
    call = .counted g op.frees ∧ job.free c (p.calls.count g + 1) = op.frees

variable {s t : JobState n} {r : Fin n}

theorem JobState.callOf_begins {op : Op} {call : Call} (may : s.callOf job r op = some call) :
    Begins job r (s.drain.proc r) (s.procs r) op call := by
  unfold JobState.callOf at may
  split at may
  · next fresh =>
    refine ⟨fun c new => ?_, ?_⟩
    · simpa [new] using fresh
    · cases counts : op.counts with
      | none =>
        simp only [counts, some.injEq] at may
        exact .inl ⟨rfl, may.symm⟩
      | some c =>
        simp only [counts] at may
        cases found : (s.procs r).descs.lookup c with
        | none => simp [found] at may
        | some g =>
          simp only [found, ite_none_right_eq_some, some.injEq] at may
          exact .inr ⟨c, g, rfl, found, may.2.symm, may.1⟩
  · cases may

inductive CommMove (job : Job n) (s : JobState n) (r : Fin n) (p : Proc) (cp : CommProc) : Proc → CommProc → Prop where
  | begin_ (op : Op) (call : Call) (pc : p.app = .ready) (begins : Begins job r p cp op call) :
      CommMove job s r p cp { p with app := .beginLock call } { cp with op := some op }
  | enter {q : Proc} (call : Call) (pc : p.app = .beginLock call) (unlocked : p.lockHeld = false)
      (goes : p.mustWait = false) (entered : p.enter (fun g => (s.members job g).card) call = some q) :
      CommMove job s r p cp q { cp with entered := (cp.op.bind Op.new).toList ++ cp.entered }
  | move (app : AppPc) (act : AppAct) (was : p.app.inSection = false) (out : app.inSection = false)
      (same : beginning app = beginning p.app)
      (taken : ∀ size mayAdd mayErase, p.appStep size mayAdd mayErase act = some { p with app := app }) :
      CommMove job s r p cp { p with app := app } cp
  | addClock (c : CommId) (g : Gid) (creating : cp.creating p = some c) (gid : s.gidOf c = some g)
      (unlocked : p.lockHeld = false) (absent : g ∉ p.clocks) : CommMove job s r p cp (p.addCommClock g) cp
  | addVirtId (c : CommId) (g : Gid) (creating : cp.creating p = some c) (gid : s.gidOf c = some g)
      (clock : g ∈ p.clocks) (absent : c ∉ cp.descs) :
      CommMove job s r p cp p { cp with descs := cp.descs.insert c g }
  | startFree (c : CommId) (g : Gid) (freeing : cp.freeing p = some c) (found : cp.descs.lookup c = some g) :
      CommMove job s r p cp p
        { cp with descs := cp.descs.erase c, pendingFrees := cp.pendingFrees ++ [(g, c)], started := c :: cp.started }
  | finish (created : ∀ c, cp.creating p = some c → c ∈ cp.descs) (freed : ∀ c, cp.freeing p = some c → c ∉ cp.descs)
      (pc : (∃ call, p.app = .inCs call) ∨ p.app = .ready) :
      CommMove job s r p cp { p with currentPhase := .isReady, app := .finishRead } { cp with op := none }
  | finishFree (g : Gid) (c : CommId)
      (where_ : ((p.app = .finishFrees ∨ p.app = .ready) ∧ p.lockHeld = false) ∨ p.ckpt = .drainedAll)
      (pending : (g, c) ∈ cp.pendingFrees) (all : s.allStarted job c = true) :
      CommMove job s r p cp { p with clocks := p.clocks.erase g } { cp with pendingFrees := cp.pendingFrees.erase (g, c) }

inductive JobMove (job : Job n) (s : JobState n) : JobState n → Prop where
  | rank (r : Fin n) {q : Proc} {cq : CommProc} (moved : CommMove job s r (s.drain.proc r) (s.procs r) q cq) :
      JobMove job s { s with drain := s.drain.setProc r q, procs := update s.procs r cq }
  | makeGid (c : CommId) (fresh : s.gidOf c = none) (entered : ∀ q ∈ job.members c, c ∈ (s.procs q).entered) :
      JobMove job s (s.assignGid job c)
  | drain (a : Action n) {d : State n} (thread : ∀ r b, a ≠ .app r b) (erases : ∀ r g, a ≠ .completeFree r g)
      (taken : ∀ members, step members s.drain a = some d) : JobMove job s { s with drain := d }

theorem JobState.drainStep_app {a : AppAct} (taken : s.drainStep job (.app r a) = some t) :
    ∃ q, AppStep (fun g => (s.members job g).card) (fun g => decide (r ∈ s.members job g))
      (s.drain.allFreed (s.members job)) (s.drain.proc r) a q ∧ t = { s with drain := s.drain.setProc r q } := by
  simp only [JobState.drainStep, step, map_map, map_eq_some_iff] at taken
  obtain ⟨q, moved, rfl⟩ := taken
  exact ⟨q, Proc.appStep_cases moved, rfl⟩

theorem CommMove.of_thread {p q : Proc} {cp : CommProc} {size : Gid → Nat} {mayAdd mayErase : Gid → Bool}
    {a : ThreadAct} (moved : AppStep size mayAdd mayErase p a.act q) : CommMove job s r p cp q cp := by
  generalize act : a.act = b at moved
  cases moved with
  | wake call version pc changed | finishWake version pc changed =>
    refine .move _ .wake (by rw [pc]; rfl) rfl (by rw [pc]; rfl) (fun _ _ _ => ?_)
    simp only [Proc.appStep, pc]
    rw [if_neg changed]
  | readPending pc =>
    refine .move _ .readPending (by rw [pc]; rfl) ?_ ?_ (fun _ _ _ => by simp only [Proc.appStep, pc])
    · split <;> rfl
    · rw [pc]
      split <;> rfl
  | done pc => exact .move _ .done (by rw [pc]; rfl) rfl (by rw [pc]; rfl) (fun _ _ _ => by simp only [Proc.appStep, pc])
  | _ => cases a <;> cases act

theorem jobStep_move {a : JobAction n} (taken : jobStep job s a = some t) : JobMove job s t := by
  cases a with
  | begin_ r op =>
    simp only [jobStep, ite_none_right_eq_some, map_eq_some_iff] at taken
    obtain ⟨pc, call, may, rfl⟩ := taken
    exact .rank r (.begin_ op call pc (JobState.callOf_begins may))
  | lock r =>
    simp only [jobStep, JobState.enter, map_eq_some_iff] at taken
    obtain ⟨u, locked, rfl⟩ := taken
    obtain ⟨q, moved, rfl⟩ := JobState.drainStep_app locked
    have same : (s.drain.setProc r q).proc r = q := update_self ..
    simp only [same]
    cases moved with
    | wait call pc unlocked waits =>
      refine .rank r (.move _ .lock (by rw [pc]; rfl) rfl (by rw [pc]; rfl) (fun _ _ _ => ?_))
      simp [Proc.appStep, pc, unlocked, waits]
    | enter call pc unlocked goes entered =>
      have inside : q.app.inSection = true := by
        cases call with
        | uncounted =>
          simp only [Proc.enter, some.injEq] at entered
          rw [← entered]
          rfl
        | counted g free =>
          obtain ⟨clock, -, rfl⟩ := Proc.enter_counted entered
          rfl
      rw [if_pos inside]
      exact .rank r (.enter call pc unlocked goes entered)
    | finishLock pc unlocked =>
      have out : (if (s.drain.proc r).mustWait then AppPc.finishSpin (s.drain.proc r).targetsVersion
          else AppPc.finishFrees).inSection = false := by split <;> rfl
      simp only [out, Bool.false_eq_true, if_false]
      refine .rank r (.move _ .lock (by rw [pc]; rfl) out (by rw [pc]; split <;> rfl) (fun _ _ _ => ?_))
      simp [Proc.appStep, pc, unlocked]
  | thread r a =>
    obtain ⟨q, moved, rfl⟩ := JobState.drainStep_app taken
    have moved' : CommMove job s r (s.drain.proc r) (s.procs r) q (s.procs r) := .of_thread moved
    have rank := JobMove.rank r moved'
    rwa [update_eq_self] at rank
  | makeGid r =>
    simp only [jobStep] at taken
    split at taken
    · simp only [ite_none_right_eq_some, some.injEq, JobState.allEntered, decide_eq_true_eq] at taken
      obtain ⟨⟨-, fresh, entered⟩, rfl⟩ := taken
      exact .makeGid _ fresh entered
    · cases taken
  | addClock r =>
    simp only [jobStep] at taken
    split at taken
    · next c creating =>
      split at taken
      · next g gid =>
        simp only [ite_none_right_eq_some, some.injEq] at taken
        obtain ⟨⟨unlocked, absent⟩, rfl⟩ := taken
        have moved : CommMove job s r (s.drain.proc r) (s.procs r) _ (s.procs r) := .addClock c g creating gid unlocked absent
        have rank := JobMove.rank r moved
        rwa [update_eq_self] at rank
      · cases taken
    · cases taken
  | addVirtId r =>
    simp only [jobStep] at taken
    split at taken
    · next c creating =>
      split at taken
      · next g gid =>
        simp only [ite_none_right_eq_some, some.injEq] at taken
        obtain ⟨⟨clock, absent⟩, rfl⟩ := taken
        have moved : CommMove job s r (s.drain.proc r) (s.procs r) (s.drain.proc r) _ :=
          .addVirtId c g creating gid clock absent
        have rank := JobMove.rank r moved
        rwa [State.setProc, update_eq_self] at rank
      · cases taken
    · cases taken
  | startFree r =>
    simp only [jobStep] at taken
    split at taken
    · next c freeing =>
      split at taken
      · next g found =>
        cases taken
        have moved : CommMove job s r (s.drain.proc r) (s.procs r) (s.drain.proc r) _ := .startFree c g freeing found
        have rank := JobMove.rank r moved
        rwa [State.setProc, update_eq_self] at rank
      · cases taken
    · cases taken
  | finish r =>
    simp only [jobStep, ite_none_right_eq_some, map_eq_some_iff, all_eq_true_iff_get] at taken
    obtain ⟨⟨created, freed⟩, u, finished, rfl⟩ := taken
    obtain ⟨q, moved, rfl⟩ := JobState.drainStep_app finished
    cases moved with
    | finish pc =>
      refine .rank r (.finish (fun c creating => ?_) (fun c freeing => ?_) pc)
      · simpa [creating] using created
      · simpa [freeing] using freed
  | testFree r g c =>
    simp only [jobStep, ite_none_right_eq_some, some.injEq] at taken
    obtain ⟨⟨pc, unlocked, pending, all⟩, rfl⟩ := taken
    exact .rank r (.finishFree g c (.inl ⟨pc, unlocked⟩) pending all)
  | completeFree r g c =>
    simp only [jobStep, ite_none_right_eq_some, some.injEq] at taken
    obtain ⟨⟨pc, pending, all⟩, rfl⟩ := taken
    exact .rank r (.finishFree g c (.inr pc) pending all)
  | ckpt r =>
    simp only [jobStep, JobState.drainStep, map_eq_some_iff] at taken
    obtain ⟨d, moved, rfl⟩ := taken
    exact .drain (.ckpt r) (by simp) (by simp) (fun _ => moved)
  | release b =>
    simp only [jobStep, JobState.drainStep, map_eq_some_iff] at taken
    obtain ⟨d, moved, rfl⟩ := taken
    exact .drain (.release b) (by simp) (by simp) (fun _ => moved)

end Moves

end Mana.Comm
