import Mana.LowerHalf.Closed
import Mana.LowerHalf.Collectives

/-! The wait in `close_lower_half_and_wait` ends once the application thread takes its way out of the lower half:
no step of that way waits for the checkpoint thread, and then the walk over the threads sees nobody inside. -/

namespace Mana.LowerHalf
open Mana.Lib Option Function

def CkptPc.closes {ι : Type} : CkptPc ι → Bool
  | .idle | .storeOpen => false
  | _ => true

structure GateHeld {ι : Type} (me : ι) (s : Gate ι) : Prop where
  owned : ∀ t, s.threadsLock = some (.thread t) → (s.thread t).pc.holdsLock = true
  walker : s.threadsLock = some .walker → s.ckpt.walking.isSome = true
  testing : s.ckpt ≠ .testBlocked []
  closing : s.ckpt.closes = true → s.closingThread = some me

section Held

variable {ι : Type} {me : ι} {s s' : Gate ι} {i : ι} {th : Thread}

theorem GateHeld.initial : GateHeld me (.initial ι) := ⟨nofun, nofun, nofun, nofun⟩

variable [DecidableEq ι]

theorem GateHeld.setThread (held : GateHeld me s) (notOwner : (s.thread i).pc.holdsLock = false) :
    GateHeld me (s.setThread i th) := by
  refine { held with owned := fun t isLocked => ?_ }
  have holds := held.owned t isLocked
  have differs : t ≠ i := by
    rintro rfl
    rw [notOwner] at holds
    cases holds
  simpa only [Gate.setThread, update_of_ne differs] using holds

theorem GateHeld.withLock (held : GateHeld me s) {threads : List ι} {lock : Option (Holder ι)}
    (owned : ∀ holder, lock = some holder → holder = .thread i ∧ th.pc.holdsLock = true) :
    GateHeld me { s.setThread i th with threads := threads, threadsLock := lock } where
  owned := by
    intro t isLocked
    obtain ⟨isThread, holds⟩ := owned _ isLocked
    cases isThread
    simpa only [Gate.setThread, update_self] using holds
  walker := fun isLocked => nomatch (owned _ isLocked).1
  testing := held.testing
  closing := held.closing

theorem GateHeld.threadStep (held : GateHeld me s) (sound : GateSound me s) (taken : s.threadStep i = some s') :
    GateHeld me s' := by
  unfold Gate.threadStep at taken
  cases isPc : (s.thread i).pc with
  | run =>
    simp only [isPc] at taken
    cases taken
  | lockToLink | lockToUnlink =>
    simp only [isPc, ite_none_right_eq_some, some.injEq] at taken
    obtain ⟨-, rfl⟩ := taken
    exact held.withLock fun holder isHolder => ⟨(some.inj isHolder).symm, rfl⟩
  | link | unlink =>
    simp only [isPc] at taken
    cases taken
    have isLocked := sound.locked i (isPc ▸ rfl)
    exact held.withLock fun holder isHolder => ⟨(mem_unique isLocked isHolder).symm, rfl⟩
  | unlockLinked | unlockUnlinked =>
    simp only [isPc] at taken
    cases taken
    exact held.withLock nofun
  | storeDepth | loadClosed | slowPath | loopClosed | stepOut | sleep | stepIn =>
    simp only [isPc] at taken
    cases taken
    exact held.setThread (isPc ▸ rfl)

theorem GateHeld.threadAction {action : ThreadAction} (held : GateHeld me s) (sound : GateSound me s)
    (taken : s.threadAction i action = some s') : GateHeld me s' := by
  cases action with
  | step => exact held.threadStep sound taken
  | enter | leave | blockingCallBegin | blockingCallEnd | exit =>
    obtain ⟨atRun, taken⟩ := ite_none_right_eq_some.mp taken
    cases taken
    refine held.setThread ?_
    first
    | rw [atRun]; rfl
    | rw [atRun.1]; rfl

theorem GateHeld.ckptStep (held : GateHeld me s) (taken : s.ckptStep me = some s') : GateHeld me s' := by
  have closing := held.closing
  have notWalker (noWalk : s.ckpt.walking.isSome = false) : s.threadsLock ≠ some .walker :=
    fun isLocked => nomatch noWalk.symm.trans (held.walker isLocked)
  cases Gate.ckptStep_closes taken with
  | again skipBlocked isPc | close skipBlocked isPc | membarrier skipBlocked isPc =>
    rw [isPc] at closing
    exact ⟨held.owned, fun isLocked => absurd isLocked (notWalker (isPc ▸ rfl)), nofun, fun _ => closing rfl⟩
  | lock skipBlocked isPc isFree =>
    rw [isPc] at closing
    exact ⟨nofun, fun _ => rfl, nofun, fun _ => closing rfl⟩
  | storeOpen isPc => exact ⟨held.owned, fun isLocked => absurd isLocked (notWalker (isPc ▸ rfl)), nofun, nofun⟩
  | leave skipBlocked isPc => exact ⟨nofun, nofun, nofun, nofun⟩
  | seen _ _ _ isPc | test _ _ isPc | tested _ _ isPc =>
    rw [isPc] at closing
    exact ⟨held.owned, fun _ => rfl, nofun, fun _ => closing rfl⟩
  | wait => exact held

theorem GateHeld.step {action : GateAction ι} (held : GateHeld me s) (sound : GateSound me s)
    (taken : s.step me action = some s') : GateHeld me s' := by
  have notWalker (isIdle : s.ckpt = .idle) : s.threadsLock ≠ some .walker :=
    fun isLocked => by simpa [isIdle, CkptPc.walking] using held.walker isLocked
  cases action with
  | thread i action => exact held.threadAction sound (ite_none_left_eq_some.mp taken).2
  | ckpt => exact held.ckptStep taken
  | close skipBlocked =>
    obtain ⟨isIdle, taken⟩ := ite_none_right_eq_some.mp taken
    cases taken
    exact ⟨held.owned, fun isLocked => absurd isLocked (notWalker isIdle), nofun, fun _ => rfl⟩
  | allow =>
    obtain ⟨isIdle, taken⟩ := ite_none_right_eq_some.mp taken
    cases taken
    exact ⟨held.owned, fun isLocked => absurd isLocked (notWalker isIdle), nofun, nofun⟩

end Held

/-- The steps that the two threads need to end the wait. -/
def GateAction.ending : GateAction Role → Bool
  | .thread .app .step | .thread .app .leave | .ckpt => true
  | _ => false

def GateAction.plain : GateAction Role → Bool
  | .thread .app .enter | .thread .app .leave | .thread .app .step | .close _ | .allow | .ckpt => true
  | _ => false

theorem GateAction.plain_of_ending (a : GateAction Role) (isEnding : a.ending = true) : a.plain = true := by
  unfold GateAction.ending at isEnding
  split at isEnding
  · rfl
  · rfl
  · rfl
  · cases isEnding

def Gate.EndingStep (s t : Gate Role) : Prop := ∃ a : GateAction Role, a.ending = true ∧ s.step .ckpt a = some t

structure GateCalm (s : Gate Role) : Prop where
  sound : GateSound .ckpt s
  held : GateHeld .ckpt s
  unblocked : (s.thread .app).inBlockingCall = false
  noCalls : s.thread .ckpt = .initial

section Calm

variable {s t : Gate Role}

theorem Gate.threadStep_frame {ι : Type} [DecidableEq ι] {i : ι} {s t : Gate ι} (taken : s.threadStep i = some t) :
    t.ckpt = s.ckpt ∧ t.closingThread = s.closingThread ∧ t.closed = s.closed ∧
      (∀ j, j ≠ i → t.thread j = s.thread j) ∧ (t.thread i).inBlockingCall = (s.thread i).inBlockingCall := by
  unfold Gate.threadStep at taken
  have others (th : Thread) : ∀ j, j ≠ i → (s.setThread i th).thread j = s.thread j :=
    fun j differs => update_of_ne differs _ _
  have own (th : Thread) : (s.setThread i th).thread i = th := update_self ..
  cases isPc : (s.thread i).pc with
  | run =>
    simp only [isPc] at taken
    cases taken
  | lockToLink | lockToUnlink =>
    simp only [isPc, ite_none_right_eq_some, some.injEq] at taken
    obtain ⟨-, rfl⟩ := taken
    exact ⟨rfl, rfl, rfl, others _, by rw [own]⟩
  | loadClosed | slowPath | loopClosed =>
    simp only [isPc] at taken
    cases taken
    refine ⟨rfl, rfl, rfl, others _, ?_⟩
    rw [own]
    split <;> rfl
  | link | unlockLinked | storeDepth | stepOut | sleep | stepIn | unlink | unlockUnlinked =>
    simp only [isPc] at taken
    cases taken
    exact ⟨rfl, rfl, rfl, others _, by rw [own]⟩

theorem Gate.ckptStep_frame {ι : Type} [DecidableEq ι] {me : ι} {s t : Gate ι} (taken : s.ckptStep me = some t) :
    t.closingThread = s.closingThread ∧
      (t.thread = s.thread ∨ t.thread = fun i => { s.thread i with marked := (s.thread i).inBlockingCall }) := by
  cases Gate.ckptStep_closes taken with
  | close => exact ⟨rfl, .inr rfl⟩
  | _ => exact ⟨rfl, .inl rfl⟩

theorem Gate.threadAction_frame {ι : Type} [DecidableEq ι] {i : ι} {s t : Gate ι} {action : ThreadAction}
    (taken : s.threadAction i action = some t) :
    t.ckpt = s.ckpt ∧ t.closingThread = s.closingThread ∧ t.closed = s.closed ∧ ∀ j, j ≠ i → t.thread j = s.thread j := by
  cases action with
  | step =>
    obtain ⟨ckpt, closing, closed, others, -⟩ := Gate.threadStep_frame taken
    exact ⟨ckpt, closing, closed, others⟩
  | enter | leave | blockingCallBegin | blockingCallEnd | exit =>
    obtain ⟨-, taken⟩ := ite_none_right_eq_some.mp taken
    cases taken
    exact ⟨rfl, rfl, rfl, fun j differs => update_of_ne differs _ _⟩

theorem Gate.step_app (s : Gate Role) (action : ThreadAction) :
    s.step .ckpt (.thread .app action) = s.threadAction .app action := by
  simp only [Gate.step, reduceCtorEq, false_and, if_false]

theorem GateCalm.step {a : GateAction Role} (calm : GateCalm s) (plain : a.plain = true)
    (taken : s.step .ckpt a = some t) : GateCalm t := by
  have sound := calm.sound.step taken
  have held := calm.held.step calm.sound taken
  cases a with
  | thread i action =>
    cases i with
    | ckpt => cases plain
    | app =>
      have moved : s.threadAction .app action = some t := (s.step_app action).symm.trans taken
      obtain ⟨-, -, -, others⟩ := Gate.threadAction_frame moved
      refine ⟨sound, held, ?_, (others .ckpt nofun).trans calm.noCalls⟩
      cases action with
      | step => exact (Gate.threadStep_frame moved).2.2.2.2.trans calm.unblocked
      | leave | enter =>
        obtain ⟨-, moved⟩ := ite_none_right_eq_some.mp moved
        cases moved
        exact calm.unblocked
      | blockingCallBegin | blockingCallEnd | exit => cases plain
  | ckpt =>
    obtain ⟨-, same | marked⟩ := Gate.ckptStep_frame taken
    · exact ⟨sound, held, same ▸ calm.unblocked, same ▸ calm.noCalls⟩
    · refine ⟨sound, held, ?_, ?_⟩
      · rw [marked]
        exact calm.unblocked
      · rw [marked]
        dsimp only
        rw [calm.noCalls]
        rfl
  | close | allow =>
    obtain ⟨-, taken⟩ := ite_none_right_eq_some.mp taken
    cases taken
    exact ⟨sound, held, calm.unblocked, calm.noCalls⟩

theorem GateCalm.ending (calm : GateCalm s) (stepped : s.EndingStep t) : GateCalm t := by
  obtain ⟨a, isEnding, taken⟩ := stepped
  exact calm.step (a.plain_of_ending isEnding) taken

theorem Gate.EndingStep.closingThread (stepped : s.EndingStep t) : t.closingThread = s.closingThread := by
  obtain ⟨a, isEnding, taken⟩ := stepped
  cases a with
  | thread i action => exact (Gate.threadAction_frame (ite_none_left_eq_some.mp taken).2).2.1
  | ckpt => exact (Gate.ckptStep_frame taken).1
  | close | allow => cases isEnding

/-- How far the thread still has to go until it is outside: by its place in the functions, and by the sections it
is in. -/
def Thread.distance (th : Thread) : Nat :=
  12 * th.past +
    match th.pc with
    | .run | .lockToLink | .lockToUnlink | .sleep => 0
    | .link => 19
    | .unlockLinked => 18
    | .storeDepth => 17
    | .loadClosed => 16
    | .slowPath => 15
    | .stepIn => 15
    | .loopClosed => 14
    | .stepOut => 1
    | .unlink => 2
    | .unlockUnlinked => 1

def Thread.Out (th : Thread) : Prop := th.depth = 0 ∧ th.pc.holdsLock = false

theorem Gate.threadStep_closer {ι : Type} [DecidableEq ι] {i : ι} {s t : Gate ι} (taken : s.threadStep i = some t)
    (inside : ¬(s.thread i).Out) (placed : (s.thread i).Placed) : (t.thread i).distance < (s.thread i).distance := by
  have own (th : Thread) : (s.setThread i th).thread i = th := update_self ..
  unfold Gate.threadStep at taken
  unfold Thread.Placed at placed
  cases isPc : (s.thread i).pc with
  | run =>
    simp only [isPc] at taken
    cases taken
  | lockToLink | lockToUnlink | sleep =>
    simp only [isPc] at placed
    exact absurd ⟨placed.1, isPc ▸ rfl⟩ inside
  | loadClosed | slowPath | loopClosed =>
    simp only [isPc] at taken
    cases taken
    rw [own]
    split <;> simp only [Thread.distance, Thread.pass, isPc] <;> omega
  | link | unlockLinked | storeDepth | stepOut | stepIn | unlink | unlockUnlinked =>
    simp only [isPc] at taken
    cases taken
    simp only [own, Thread.distance, isPc]
    omega

theorem Gate.threadStep_exists {ι : Type} [DecidableEq ι] {i : ι} {s : Gate ι} (inside : ¬(s.thread i).Out)
    (placed : (s.thread i).Placed) (away : (s.thread i).pc ≠ .run) : ∃ t, s.threadStep i = some t := by
  unfold Thread.Placed at placed
  unfold Gate.threadStep
  cases isPc : (s.thread i).pc with
  | run => exact absurd isPc away
  | lockToLink | lockToUnlink | sleep =>
    simp only [isPc] at placed
    exact absurd ⟨placed.1, isPc ▸ rfl⟩ inside
  | loadClosed | slowPath | loopClosed | link | unlockLinked | storeDepth | stepOut | stepIn | unlink | unlockUnlinked =>
    simp only [isPc, some.injEq, exists_eq']

theorem GateCalm.app_closer (calm : GateCalm s) (inside : ¬(s.thread .app).Out) :
    ∃ t, s.EndingStep t ∧ t.ckpt = s.ckpt ∧ (t.thread .app).distance < (s.thread .app).distance := by
  have placed := calm.sound.placed .app
  by_cases isPc : (s.thread .app).pc = .run
  · have isInside : 0 < (s.thread .app).past := by
      simp only [Thread.Placed, isPc] at placed
      by_contra isOut
      exact inside ⟨by omega, isPc ▸ rfl⟩
    let th := s.thread .app
    have taken : s.step .ckpt (.thread .app .leave) =
        some (s.setThread .app { th with depth := th.depth - 1, past := th.past - 1 }) :=
      (s.step_app .leave).trans (if_pos ⟨isPc, isInside, .inr calm.unblocked⟩)
    refine ⟨_, ⟨.thread .app .leave, rfl, taken⟩, rfl, ?_⟩
    simp only [Gate.setThread, update_self, Thread.distance, th]
    omega
  · obtain ⟨t, taken⟩ := Gate.threadStep_exists inside placed isPc
    exact ⟨t, ⟨.thread .app .step, rfl, (s.step_app .step).trans taken⟩, (Gate.threadStep_frame taken).1,
      Gate.threadStep_closer taken inside placed⟩

def Gate.stepsLeft {ι : Type} (s : Gate ι) : Nat :=
  match s.ckpt with
  | .idle => 0
  | .storeOpen => 1
  | .walk _ rest => 2 * rest.length + 1
  | .testBlocked rest => 2 * rest.length + 2
  | .lock _ => 2 * s.threads.length + 2
  | .membarrier _ => 2 * s.threads.length + 3
  | .storeClosed _ => 2 * s.threads.length + 4

theorem GateCalm.ckpt_closer (calm : GateCalm s) (isOut : (s.thread .app).Out) (busy : s.ckpt ≠ .idle) :
    ∃ t, s.EndingStep t ∧ (t.thread .app).Out ∧ t.stepsLeft < s.stepsLeft := by
  have takes (t : Gate Role) (taken : s.ckptStep .ckpt = some t) (less : t.stepsLeft < s.stepsLeft) :
      ∃ t, s.EndingStep t ∧ (t.thread .app).Out ∧ t.stepsLeft < s.stepsLeft := by
    refine ⟨t, ⟨.ckpt, rfl, taken⟩, ?_, less⟩
    obtain ⟨-, same | marked⟩ := Gate.ckptStep_frame taken
    · exact same ▸ isOut
    · rw [marked]
      exact isOut
  unfold Gate.ckptStep at takes
  cases isPc : s.ckpt with
  | idle => exact absurd isPc busy
  | storeClosed skipBlocked =>
    refine takes (s.storeClosed skipBlocked) (by simp only [isPc]) ?_
    unfold Gate.storeClosed
    split <;> simp only [Gate.stepsLeft, isPc] <;> omega
  | membarrier skipBlocked =>
    refine takes { s with ckpt := .lock skipBlocked } (by simp only [isPc]) ?_
    simp only [Gate.stepsLeft, isPc]
    omega
  | lock skipBlocked =>
    have isFree : s.threadsLock = none := by
      cases lock : s.threadsLock with
      | none => rfl
      | some holder =>
        cases holder with
        | walker => exact absurd (calm.held.walker lock) (by simp [isPc, CkptPc.walking])
        | thread i =>
          have holds := calm.held.owned i lock
          cases i with
          | app => exact absurd holds (by simp [isOut.2])
          | ckpt => exact absurd holds (by simp [calm.noCalls, Thread.initial, Pc.holdsLock])
    refine takes { s with threadsLock := some .walker, ckpt := .walk skipBlocked s.threads } (by simp [isPc, isFree]) ?_
    simp only [Gate.stepsLeft, isPc]
    omega
  | storeOpen =>
    refine takes { s with closed := false, ckpt := .idle } (by simp only [isPc]) ?_
    simp only [Gate.stepsLeft, isPc]
    omega
  | walk skipBlocked rest =>
    cases rest with
    | nil =>
      refine takes _ (by simp only [isPc]; rfl) ?_
      simp only [Gate.stepsLeft, isPc]
      omega
    | cons i rest =>
      have seen : i = .ckpt ∨ (s.thread i).depth = 0 := by
        cases i with
        | app => exact .inr isOut.1
        | ckpt => exact .inl rfl
      refine takes { s with ckpt := .walk skipBlocked rest } (by simp only [isPc, if_pos seen]) ?_
      simp only [Gate.stepsLeft, isPc, List.length_cons]
      omega
  | testBlocked rest =>
    cases rest with
    | nil => exact absurd isPc calm.held.testing
    | cons i rest =>
      refine takes { s with ckpt := .walk true (if (s.thread i).inBlockingCall then rest else i :: rest) }
        (by simp only [isPc]) ?_
      simp only [Gate.stepsLeft, isPc]
      split <;> simp only [List.length_cons] <;> omega

theorem GateCalm.wait_ends (calm : GateCalm s) : ∃ t, Relation.ReflTransGen Gate.EndingStep s t ∧ t.ckpt = .idle := by
  obtain ⟨t, leaves, ⟨calmT, -⟩, isOut⟩ := leads_of_measure (fun t => GateCalm t ∧ t.ckpt = s.ckpt)
    (fun t => (t.thread .app).Out) (fun t => (t.thread .app).distance)
    (fun u ⟨calmU, same⟩ inside => by
      obtain ⟨t, stepped, sameCkpt, less⟩ := calmU.app_closer inside
      exact ⟨t, stepped, ⟨calmU.ending stepped, sameCkpt.trans same⟩, less⟩) ⟨calm, rfl⟩
  obtain ⟨u, walks, -, isIdle⟩ := leads_of_measure (fun t => GateCalm t ∧ (t.thread .app).Out) (fun t => t.ckpt = .idle)
    Gate.stepsLeft
    (fun u ⟨calmU, isOutU⟩ busy => by
      obtain ⟨t, stepped, stillOut, less⟩ := calmU.ckpt_closer isOutU busy
      exact ⟨t, stepped, ⟨calmU.ending stepped, stillOut⟩, less⟩) ⟨calmT, isOut⟩
  exact ⟨u, leaves.trans walks, isIdle⟩

end Calm

end Mana.LowerHalf
