import Mana.LowerHalf.Waiting

/-! A rank waits forever for its application thread, which is in a collective lower-half call that another member
cannot enter: the other one's lower half stays closed until the first one has passed the barrier of the drain. -/

namespace Mana.LowerHalf
open Mana.Lib Mana.Collective Option Function

/-- The checkpoint thread of `r` waits for its application thread, that is in a lower-half call which `q` has not
entered; the lower half of `q` is closed, and `q` has not passed the barrier. -/
structure Deadlocked {n : Nat} (members : Gid → Finset (Fin n)) (s : Job n) (r q : Fin n) : Prop where
  call : ∃ c g, (s.rank r).inside = some (c, g) ∧ c.waits = true ∧ s.behind members g q r = true
  inside : 0 < (s.thread r).past
  walking : ∃ skipBlocked rest, (s.rank r).gate.ckpt.walking = some (skipBlocked, rest) ∧ Role.app ∈ rest
  returned : s.ckpt r = .drained
  before : s.ckpt q = .drained ∨ s.ckpt q = .drainBarrier
  closed : (s.rank q).gate.closed = true ∧ (s.rank q).gate.ckpt ≠ .storeOpen
  outside : (s.thread q).past = 0

section Gates

variable {s t : Gate Role}

theorem Gate.walking_stays {skipBlocked : Bool} {rest : List Role} (walking : s.ckpt.walking = some (skipBlocked, rest))
    (waitsFor : Role.app ∈ rest) (inside : (s.thread .app).depth ≠ 0) (unblocked : (s.thread .app).inBlockingCall = false)
    (taken : s.ckptStep .ckpt = some t) :
    ∃ skipBlocked' rest', t.ckpt.walking = some (skipBlocked', rest') ∧ Role.app ∈ rest' := by
  cases Gate.ckptStep_closes taken with
  | again _ isPc | close _ isPc | membarrier _ isPc | lock _ isPc | storeOpen isPc =>
    rw [isPc] at walking
    cases walking
  | leave _ isPc =>
    rw [isPc] at walking
    cases walking
    cases waitsFor
  | seen skip i rest' isPc out =>
    rw [isPc] at walking
    cases walking
    refine ⟨_, rest', rfl, (List.mem_cons.mp waitsFor).resolve_left ?_⟩
    rintro rfl
    exact out.elim nofun inside
  | test i rest' isPc =>
    rw [isPc] at walking
    cases walking
    exact ⟨true, i :: rest', rfl, waitsFor⟩
  | wait => exact ⟨_, _, walking, waitsFor⟩
  | tested i rest' isPc =>
    rw [isPc] at walking
    cases walking
    refine ⟨true, _, rfl, ?_⟩
    split
    · next isBlocked =>
      refine (List.mem_cons.mp waitsFor).resolve_left ?_
      rintro rfl
      exact nomatch isBlocked.symm.trans unblocked
    · exact waitsFor

theorem Gate.stays_closed (taken : s.ckptStep .ckpt = some t) (isClosed : s.closed = true) (notOpening : s.ckpt ≠ .storeOpen) :
    t.closed = true ∧ t.ckpt ≠ .storeOpen := by
  cases Gate.ckptStep_closes taken with
  | close => exact ⟨rfl, nofun⟩
  | wait => exact ⟨isClosed, notOpening⟩
  | storeOpen isPc => exact absurd isPc notOpening
  | _ => exact ⟨isClosed, nofun⟩

theorem GateSound.stays_outside {action : ThreadAction} (sound : GateSound .ckpt s)
    (taken : s.threadAction .app action = some t) (isClosed : s.closed = true) (outside : (s.thread .app).past = 0) :
    (t.thread .app).past = 0 := by
  have own (th : Thread) : (s.setThread .app th).thread .app = th := by
    simp only [Gate.setThread, update_self]
  cases action with
  | enter | leave | blockingCallBegin | blockingCallEnd | exit =>
    obtain ⟨-, taken⟩ := ite_none_right_eq_some.mp taken
    cases taken
    rw [own]
    simp [outside]
  | step =>
    have placed := sound.placed .app
    simp only [Gate.threadAction, Gate.threadStep] at taken
    unfold Thread.Placed at placed
    cases isPc : (s.thread .app).pc with
    | run =>
      simp only [isPc] at taken
      cases taken
    | lockToLink | lockToUnlink =>
      simp only [isPc, ite_none_right_eq_some, some.injEq] at taken
      obtain ⟨-, rfl⟩ := taken
      simp only [own, outside]
    | loadClosed | loopClosed =>
      simp only [isPc, isClosed, if_true] at taken
      cases taken
      simp only [own, outside]
    | slowPath =>
      simp only [isPc] at placed taken
      have waits : ¬(1 < (s.thread .app).depth ∨ s.closingThread = some .app) := by
        rintro (nested | isClosing)
        · omega
        · cases sound.closing .app isClosing
      rw [if_neg waits, some.injEq] at taken
      cases taken
      simp only [own, outside]
    | link | unlockLinked | storeDepth | stepOut | sleep | stepIn | unlink | unlockUnlinked =>
      simp only [isPc] at taken
      cases taken
      simp only [own, outside]

end Gates

section Steps

variable {n : Nat} {members : Gid → Finset (Fin n)} {blocking : Bool} {s t : Job n} {r q : Fin n}

theorem Deadlocked.ne (dead : Deadlocked members s r q) : q ≠ r := by
  rintro rfl
  obtain ⟨c, g, -, -, isBehind⟩ := dead.call
  exact Nat.lt_irrefl _ (of_decide_eq_true isBehind).2

theorem Deadlocked.not_free (dead : Deadlocked members s r q) : s.free r = false := by
  obtain ⟨c, g, isInside, -⟩ := dead.call
  simp [Job.free, isInside]

theorem Deadlocked.not_idle (dead : Deadlocked members s r q) : (s.rank r).gate.ckpt ≠ .idle := by
  obtain ⟨skipBlocked, rest, walking, -⟩ := dead.walking
  intro idle
  rw [idle] at walking
  cases walking

theorem Deadlocked.setRank (dead : Deadlocked members s r q) {r' : Fin n} {k : Rank} (other : r' ≠ r)
    (kept : r' = q → k.entered = (s.rank q).entered ∧ k.gate.closed = true ∧ k.gate.ckpt ≠ .storeOpen ∧
      (k.gate.thread .app).past = 0) : Deadlocked members (s.setRank r' k) r q := by
  have sameR : (s.setRank r' k).rank r = s.rank r := update_of_ne other.symm _ _
  have seenQ : ((s.setRank r' k).rank q).entered = (s.rank q).entered ∧ ((s.setRank r' k).rank q).gate.closed = true ∧
      ((s.setRank r' k).rank q).gate.ckpt ≠ .storeOpen ∧ (((s.setRank r' k).rank q).gate.thread .app).past = 0 := by
    by_cases own : q = r'
    · subst own
      rw [show (s.setRank q k).rank q = k from update_self ..]
      exact kept rfl
    · rw [show (s.setRank r' k).rank q = s.rank q from update_of_ne own _ _]
      exact ⟨rfl, dead.closed.1, dead.closed.2, dead.outside⟩
  obtain ⟨sameEntered, isClosed, notOpening, outside⟩ := seenQ
  obtain ⟨c, g, isInside, waits, isBehind⟩ := dead.call
  refine ⟨⟨c, g, ?_, waits, ?_⟩, ?_, ?_, dead.returned, dead.before, ⟨isClosed, notOpening⟩, outside⟩
  · rw [sameR]
    exact isInside
  · simp only [Job.behind, sameR, sameEntered]
    exact isBehind
  · simp only [Job.thread, sameR]
    exact dead.inside
  · rw [sameR]
    exact dead.walking

theorem Deadlocked.drainStep (dead : Deadlocked members s r q) {a : Action n} {drain : State n}
    (may : s.mayDrain blocking a = true) (taken : Collective.step members s.drain a = some drain) :
    Deadlocked members { s with drain := drain } r q := by
  have returned : (s.drain.proc r).ckpt = .drained := dead.returned
  have notReleased (b : Barrier) : a ≠ .release b := by
    rintro rfl
    have all := (ite_none_right_eq_some.mp taken).1 r
    rw [Proc.waitingAt, returned] at all
    cases all
  have stays : (drain.proc r).ckpt = .drained := by
    cases step_seenFrom taken r with
    | app b isApp moved => exact moved.sameCkpt.ckpt.trans returned
    | ckpt isCkpt moved =>
      subst isCkpt
      simp only [Job.mayDrain, dead.returned, decide_eq_true_eq] at may
      exact absurd may.1 dead.not_idle
    | released b isRelease => exact absurd isRelease (notReleased b)
    | erase g isErase freed same | other same => exact same ▸ returned
  have before : (drain.proc q).ckpt = .drained ∨ (drain.proc q).ckpt = .drainBarrier := by
    have now : (s.drain.proc q).ckpt = .drained ∨ (s.drain.proc q).ckpt = .drainBarrier := dead.before
    cases step_seenFrom taken q with
    | app b isApp moved => rwa [moved.sameCkpt.ckpt]
    | ckpt isCkpt moved =>
      generalize pc : (s.drain.proc q).ckpt = at_ at moved now
      generalize drain.proc q = p', drain.kvdb = kv', s.drain.kvdb = kv at moved
      rcases now with rfl | rfl
      · cases moved
        exact .inr rfl
      · cases moved
    | released b isRelease => exact absurd isRelease (notReleased b)
    | erase g isErase freed same | other same => rwa [same]
  exact { dead with returned := stays, before := before }

theorem Deadlocked.gateStep (dead : Deadlocked members s r q) (sound : JobSound members s) {r' : Fin n}
    {a : GateAction Role} {gate : Gate Role} (may : s.mayGate blocking r' a = true)
    (taken : (s.rank r').gate.step .ckpt a = some gate) : Deadlocked members (s.setGate r' gate) r q := by
  by_cases own : r' = r
  · subst own
    have sameQ : (s.setGate r' gate).rank q = s.rank q := update_of_ne dead.ne _ _
    have notFree := dead.not_free
    cases a with
    | thread i action =>
      -- The application thread is in its call.
      exfalso
      cases i with
      | ckpt => cases may
      | app => cases action <;> simp [Job.mayGate, notFree] at may
    | close | allow => exact absurd (ite_none_right_eq_some.mp taken).1 dead.not_idle
    | ckpt =>
      obtain ⟨skipBlocked, rest, walking, waitsFor⟩ := dead.walking
      have isInside : ((s.rank r').gate.thread .app).depth ≠ 0 := by
        have le := ((sound.calm r').sound.placed .app).le
        have past : 0 < ((s.rank r').gate.thread .app).past := dead.inside
        omega
      have still := Gate.walking_stays walking waitsFor isInside (sound.calm r').unblocked taken
      have past : (gate.thread .app).past = ((s.rank r').gate.thread .app).past := by
        obtain ⟨-, same | marked⟩ := Gate.ckptStep_frame taken
        · rw [same]
        · rw [marked]
      obtain ⟨c, g, isCall, waits, isBehind⟩ := dead.call
      refine ⟨⟨c, g, ?_, waits, ?_⟩, ?_, ?_, dead.returned, dead.before, ?_, ?_⟩
      · rw [s.setGate_self]
        exact isCall
      · simp only [Job.behind, s.setGate_self, sameQ]
        exact isBehind
      · simp only [Job.thread, s.setGate_self, past]
        exact dead.inside
      · rw [s.setGate_self]
        exact still
      · rw [sameQ]
        exact dead.closed
      · simp only [Job.thread, sameQ]
        exact dead.outside
  · refine dead.setRank own ?_
    rintro rfl
    refine ⟨rfl, ?_⟩
    have outside : ((s.rank r').gate.thread .app).past = 0 := dead.outside
    cases a with
    | thread i action =>
      cases i with
      | ckpt => cases may
      | app =>
        have moved := ((s.rank r').gate.step_app action).symm.trans taken
        obtain ⟨ckpt, -, closed, -⟩ := Gate.threadAction_frame moved
        refine ⟨closed.trans dead.closed.1, ckpt ▸ dead.closed.2, ?_⟩
        exact (sound.calm r').sound.stays_outside moved dead.closed.1 outside
    | close skipBlocked =>
      obtain ⟨-, taken⟩ := ite_none_right_eq_some.mp taken
      cases taken
      exact ⟨dead.closed.1, by simp, outside⟩
    | allow =>
      simp only [Job.mayGate, decide_eq_true_eq] at may
      rcases dead.before with isPc | isPc <;> cases isPc.symm.trans may.1
    | ckpt =>
      obtain ⟨isClosed, notOpening⟩ := Gate.stays_closed taken dead.closed.1 dead.closed.2
      refine ⟨isClosed, notOpening, ?_⟩
      obtain ⟨-, same | marked⟩ := Gate.ckptStep_frame taken
      · rw [same]
        exact outside
      · rw [marked]
        exact outside

theorem Deadlocked.step {a : JobAct n} (dead : Deadlocked members s r q) (sound : JobSound members s)
    (taken : s.step members blocking a = some t) : Deadlocked members t r q := by
  cases a with
  | drain a =>
    obtain ⟨may, taken⟩ := ite_none_right_eq_some.mp taken
    obtain ⟨drain, moved, rfl⟩ := map_eq_some_iff.mp taken
    exact dead.drainStep may moved
  | gate r' a =>
    obtain ⟨may, taken⟩ := ite_none_right_eq_some.mp taken
    obtain ⟨gate, moved, rfl⟩ := map_eq_some_iff.mp taken
    exact dead.gateStep sound may moved
  | call r' c g =>
    obtain ⟨⟨isFree, -, isInside, -⟩, taken⟩ := ite_none_right_eq_some.mp taken
    cases taken
    refine dead.setRank ?_ ?_
    · rintro rfl
      exact nomatch dead.not_free.symm.trans isFree
    · rintro rfl
      exact absurd dead.outside (Nat.ne_of_gt isInside)
  | returns r' =>
    simp only [Job.step] at taken
    split at taken
    · cases taken
    · next c g isInside =>
      obtain ⟨mayReturn, taken⟩ := ite_none_left_eq_some.mp taken
      cases taken
      refine dead.setRank ?_ ?_
      · rintro rfl
        obtain ⟨c', g', isCall, waits, isBehind⟩ := dead.call
        cases isInside.symm.trans isCall
        exact mayReturn (.inr ⟨waits, q, isBehind⟩)
      · rintro rfl
        exact ⟨rfl, dead.closed.1, dead.closed.2, dead.outside⟩

/-- The wait never ends. -/
theorem Deadlocked.forever (dead : Deadlocked members s r q) (sound : JobSound members s)
    (path : Relation.ReflTransGen (fun x y => ∃ a, (Job.machine members blocking).step x a = some y) s t) :
    (t.rank r).gate.ckpt ≠ .idle := by
  have both : Deadlocked members t r q ∧ JobSound members t := by
    induction path with
    | refl => exact ⟨dead, sound⟩
    | tail _ stepped ih =>
      obtain ⟨a, taken⟩ := stepped
      exact ⟨ih.1.step ih.2 taken, ih.2.step taken⟩
  exact both.1.not_idle

end Steps

/-! Runs of one part, as runs of the job. -/

def HookStep {n : Nat} (s : State n) : Action n → Prop
  | .app _ _ => False
  | .ckpt r => (s.proc r).ckpt ≠ .drained ∧ (s.proc r).ckpt ≠ .drainedAll
  | .completeFree _ _ | .release _ => True

instance {n : Nat} (s : State n) (a : Action n) : Decidable (HookStep s a) :=
  match a with
  | .app _ _ => inferInstanceAs (Decidable False)
  | .ckpt r => inferInstanceAs (Decidable ((s.proc r).ckpt ≠ .drained ∧ (s.proc r).ckpt ≠ .drainedAll))
  | .completeFree _ _ | .release _ => inferInstanceAs (Decidable True)

section Parts

variable {n : Nat} {members : Gid → Finset (Fin n)} {blocking : Bool} {m : Machine (Job n) (JobAct n)} {s : Job n}

structure TakesGuarded (members : Gid → Finset (Fin n)) (blocking : Bool) (m : Machine (Job n) (JobAct n)) : Prop where
  taken : ∀ s a t, Guarded members a → s.step members blocking a = some t → m.step s a = some t

theorem machine_takesGuarded : TakesGuarded members blocking (Job.machine members blocking) := ⟨fun _ _ _ _ taken => taken⟩

theorem guarded_takesGuarded : TakesGuarded members blocking (Job.guarded members blocking) :=
  ⟨fun _ _ _ guarded taken => restrict_step.mpr ⟨guarded, taken⟩⟩

theorem reachable_drained (takes : TakesGuarded members blocking m) (reached : Reachable m s) {actions : List (Action n)}
    {drain : State n} (ran : ((Collective.machine members).restrict HookStep).run s.drain actions = some drain) :
    Reachable m { s with drain := drain } := by
  induction actions generalizing s with
  | nil =>
    cases ran
    exact reached
  | cons a rest ih =>
    obtain ⟨before, taken, ran⟩ := bind_eq_some_iff.mp ran
    obtain ⟨isHook, taken⟩ := restrict_step.mp taken
    have may : s.mayDrain blocking a = true := by
      cases a with
      | app => cases isHook
      | ckpt r =>
        unfold Job.mayDrain
        dsimp only
        split
        · next isPc => exact absurd isPc isHook.1
        · next isPc => exact absurd isPc isHook.2
        · rfl
      | completeFree | release => rfl
    have stepped : s.step members blocking (.drain a) = some { s with drain := before } := by
      change (if _ then _ else none) = _
      rw [if_pos may, show Collective.step members s.drain a = some before from taken]
      rfl
    exact ih (s := { s with drain := before }) (reached.next (takes.taken s (.drain a) _ trivial stepped)) ran

theorem reachable_gate (takes : TakesGuarded members blocking m) (reached : Reachable m s) {r : Fin n}
    {actions : List (GateAction Role)} {gate : Gate Role}
    (may : ∀ gate, ∀ a ∈ actions, (s.setGate r gate).mayGate blocking r a = true)
    (ran : (gateMachine Role.ckpt).run (s.rank r).gate actions = some gate) : Reachable m (s.setGate r gate) := by
  have setGate_same : s.setGate r (s.rank r).gate = s := by simp [Job.setGate, Job.setRank]
  induction actions generalizing s with
  | nil =>
    cases ran
    rwa [setGate_same]
  | cons a rest ih =>
    obtain ⟨before, taken, ran⟩ := bind_eq_some_iff.mp ran
    have now : s.mayGate blocking r a = true := setGate_same ▸ may (s.rank r).gate a List.mem_cons_self
    have stepped : s.step members blocking (.gate r a) = some (s.setGate r before) := by
      change (if _ then _ else none) = _
      rw [if_pos now, show (s.rank r).gate.step .ckpt a = some before from taken]
      rfl
    have twice (after : Gate Role) : (s.setGate r before).setGate r after = s.setGate r after := by
      simp only [Job.setGate, Job.setRank, update_idem, update_self]
    have ended := ih (s := s.setGate r before) (reached.next (takes.taken s (.gate r a) _ trivial stepped))
      (fun gate a member => by rw [twice]; exact may gate a (List.mem_cons_of_mem _ member))
      (by rw [s.setGate_self]; exact ran) (by rw [twice, s.setGate_self])
    rwa [twice] at ended

theorem reachable_close (takes : TakesGuarded members blocking m) (reached : Reachable m s) {r : Fin n}
    (atDrained : s.ckpt r = .drained) (unclosed : (s.rank r).gate.emptied = false ∧ (s.rank r).gate.parted = false)
    (idle : (s.rank r).gate.ckpt = .idle) :
    Reachable m (s.setGate r { (s.rank r).gate with closingThread := some .ckpt, ckpt := .storeClosed blocking }) := by
  refine reached.next (takes.taken s (.gate r (.close blocking)) _ trivial ?_)
  have may : s.mayGate blocking r (.close blocking) = true := by
    simp [Job.mayGate, atDrained, unclosed.1, unclosed.2]
  change (if _ then _ else none) = _
  rw [if_pos may]
  simp only [Gate.step, idle, if_true, map_some]

end Parts

/-! Two ranks on the one communicator. -/

def twoJob (drain : State 2) (first second : Rank) : Job 2 where
  drain := drain
  rank := fun r => if r.val = 0 then first else second

def Rank.initial : Rank := ⟨.initial Role, none, [], false⟩

theorem initial_twoJob : (Job.machine worldOnly false).initial (twoJob twoRanks .initial .initial) := by
  refine ⟨initial_twoRanks, fun r => ?_⟩
  simp only [twoJob, ite_self]
  rfl

theorem setGate_first (drain : State 2) (first second : Rank) (gate : Gate Role) :
    (twoJob drain first second).setGate 0 gate = twoJob drain { first with gate := gate } second := by
  simp only [twoJob, Job.setGate, Job.setRank, Job.mk.injEq, true_and]
  exact funext (Fin.forall_fin_two.mpr ⟨rfl, rfl⟩)

theorem setGate_second (drain : State 2) (first second : Rank) (gate : Gate Role) :
    (twoJob drain first second).setGate 1 gate = twoJob drain first { second with gate := gate } := by
  simp only [twoJob, Job.setGate, Job.setRank, Job.mk.injEq, true_and]
  exact funext (Fin.forall_fin_two.mpr ⟨rfl, rfl⟩)

def quietDrain (first second : Fin 2) : List (Action 2) :=
  shareActions ++ collectActions 0 ++ verdictActions first ++ verdictActions second

theorem quietDrain_run : ∃ drain, ((Collective.machine worldOnly).restrict HookStep).run twoRanks (quietDrain 0 1) = some drain ∧
    (∀ r, (drain.proc r).ckpt = .drained) ∧ ∀ r, (drain.proc r).app = .ready := by
  have ran : (((Collective.machine worldOnly).restrict HookStep).run twoRanks (quietDrain 0 1)).map (fun s =>
      ((s.proc 0).ckpt, (s.proc 1).ckpt, (s.proc 0).app, (s.proc 1).app)) = some (.drained, .drained, .ready, .ready) := by
    decide +kernel
  obtain ⟨drain, ran, ends⟩ := map_eq_some_iff.mp ran
  simp only [Prod.mk.injEq] at ends
  obtain ⟨ckpt0, ckpt1, app0, app1⟩ := ends
  exact ⟨drain, ran, Fin.forall_fin_two.mpr ⟨ckpt0, ckpt1⟩, Fin.forall_fin_two.mpr ⟨app0, app1⟩⟩

def entryActions (steps : Nat) : List (GateAction Role) :=
  .thread .app .enter :: List.replicate steps (.thread .app .step)

def Gate.closing (gate : Gate Role) : Gate Role :=
  { gate with closingThread := some .ckpt, ckpt := .storeClosed false }

theorem insideGate_run : ∃ a b, (gateMachine Role.ckpt).run (.initial Role) (entryActions 5) = some a ∧
    (gateMachine Role.ckpt).run a.closing (List.replicate 3 .ckpt) = some b ∧
    ((a.thread .app).pc = .run ∧ (a.thread .app).past = 1 ∧ a.ckpt = .idle ∧ a.emptied = false ∧ a.parted = false) ∧
    (b.thread .app).past = 1 ∧ b.ckpt = .walk false [.app] := by
  have enters : ((gateMachine Role.ckpt).run (.initial Role) (entryActions 5)).map (fun a =>
      ((a.thread .app).pc, (a.thread .app).past, a.ckpt, a.emptied || a.parted)) = some (.run, 1, .idle, false) := by
    decide +kernel
  have walks : ((gateMachine Role.ckpt).run (.initial Role) (entryActions 5)).bind (fun a =>
      ((gateMachine Role.ckpt).run a.closing (List.replicate 3 .ckpt)).map fun b => ((b.thread .app).past, b.ckpt)) =
      some (1, .walk false [.app]) := by
    decide +kernel
  obtain ⟨a, ranA, endsA⟩ := map_eq_some_iff.mp enters
  rw [ranA, bind_some] at walks
  obtain ⟨b, ranB, endsB⟩ := map_eq_some_iff.mp walks
  simp only [Prod.mk.injEq, Bool.or_eq_false_iff] at endsA endsB
  exact ⟨a, b, ranA, ranB, endsA, endsB⟩

theorem outsideGate_run : ∃ b, (gateMachine Role.ckpt).run (Gate.initial Role).closing
      (List.replicate 4 .ckpt ++ entryActions 8) = some b ∧
    (b.thread .app).pc = .sleep ∧ (b.thread .app).past = 0 ∧ b.closed = true ∧ b.ckpt = .idle := by
  have ran : ((gateMachine Role.ckpt).run (Gate.initial Role).closing (List.replicate 4 .ckpt ++ entryActions 8)).map
      (fun b => ((b.thread .app).pc, (b.thread .app).past, b.closed, b.ckpt)) = some (.sleep, 0, true, .idle) := by
    decide +kernel
  obtain ⟨b, ranB, ends⟩ := map_eq_some_iff.mp ran
  simp only [Prod.mk.injEq] at ends
  exact ⟨b, ranB, ends⟩

theorem mayGate_entry {n : Nat} {s : Job n} {r : Fin n} {steps : Nat} (atReady : (s.drain.proc r).app = .ready)
    (goesOn : s.ckpt r ≠ .drainedAll) (out : (s.rank r).inside = none) (gate : Gate Role) :
    ∀ x ∈ entryActions steps, (s.setGate r gate).mayGate false r x = true := by
  have isFree : (s.setGate r gate).free r = true := by
    have stillOn : (s.setGate r gate).ckpt r ≠ .drainedAll := goesOn
    simp [Job.free, Job.suspended, stillOn, s.setGate_self, out]
  have stillReady : ((s.setGate r gate).drain.proc r).app = .ready := atReady
  intro x member
  rcases List.mem_cons.mp member with rfl | member
  · simp [Job.mayGate, isFree, stillReady]
  · obtain rfl := List.eq_of_mem_replicate member
    exact isFree

/-- With `MPI_File_open` the wait of rank 0 never ends: the drain has returned on both ranks, and rank 1 waits in
`wait_until_lower_half_open` to enter the call. -/
theorem file_open_waits_forever : ∃ s : Job 2, Reachable (Job.machine worldOnly false) s ∧
    (∀ r, (s.ckpt r).settled = true) ∧ s.Stuck worldOnly ∧ (s.rank 0).inside = some (.fileOpen, 0) ∧
    (s.thread 1).pc = .sleep ∧ (s.rank 0).gate.ckpt.closes = true ∧
    ∀ t, Relation.ReflTransGen (fun x y => ∃ a, (Job.machine worldOnly false).step x a = some y) s t →
      (t.rank 0).gate.ckpt ≠ .idle := by
  obtain ⟨drain, drained, atDrained, atReady⟩ := quietDrain_run
  obtain ⟨a, b, entered, walked, ⟨pcA, pastA, idleA, emptiedA, partedA⟩, pastB, walkB⟩ := insideGate_run
  obtain ⟨c, kept, pcC, pastC, closedC, idleC⟩ := outsideGate_run
  have takes : TakesGuarded worldOnly false (Job.machine worldOnly false) := machine_takesGuarded
  -- Rank 0 enters the lower half, and calls MPI_File_open there.
  have enters := reachable_gate (r := 0) takes (.start initial_twoJob) (mayGate_entry rfl (by decide) rfl) entered
  rw [setGate_first] at enters
  have call : (twoJob twoRanks ⟨a, none, [], false⟩ .initial).step worldOnly false (.call 0 .fileOpen 0) =
      some (twoJob twoRanks ⟨a, some (.fileOpen, 0), [0], false⟩ .initial) := by
    have past : 0 < (a.thread .app).past := by omega
    refine (if_pos ⟨rfl, pcA, past, Finset.mem_univ 0, rfl, nofun⟩).trans ?_
    simp only [twoJob, Job.setRank, some.injEq, Job.mk.injEq, true_and]
    exact funext (Fin.forall_fin_two.mpr ⟨rfl, rfl⟩)
  have calls : Reachable (Job.machine worldOnly false) (twoJob twoRanks ⟨a, some (.fileOpen, 0), [0], false⟩ .initial) :=
    enters.next (a := .call 0 .fileOpen 0) call
  -- The drain returns on both ranks, and rank 0 comes to the thread in its walk.
  have returns : Reachable (Job.machine worldOnly false) (twoJob drain ⟨a, some (.fileOpen, 0), [0], false⟩ .initial) :=
    reachable_drained takes calls drained
  have closes := reachable_close (r := 0) takes returns (atDrained 0) ⟨emptiedA, partedA⟩ idleA
  rw [setGate_first] at closes
  have waits := reachable_gate (r := 0) takes closes
    (fun _ x member => by rw [List.eq_of_mem_replicate member]; rfl) walked
  rw [setGate_first] at waits
  -- Rank 1 closes its lower half too, and its application thread comes to it.
  have closes' := reachable_close (r := 1) takes waits (atDrained 1) ⟨rfl, rfl⟩ rfl
  rw [setGate_second] at closes'
  have reached := reachable_gate (r := 1) takes closes' (fun gate x member => by
    rcases List.mem_append.mp member with member | member
    · rw [List.eq_of_mem_replicate member]
      rfl
    · exact mayGate_entry (atReady 1) (by rw [Job.ckpt]; exact (atDrained 1) ▸ by decide) rfl gate x member) kept
  rw [setGate_second] at reached
  have isBehind : (twoJob drain ⟨b, some (.fileOpen, 0), [0], false⟩ ⟨c, none, [], false⟩).behind worldOnly 0 1 0 = true := rfl
  have dead : Deadlocked worldOnly (twoJob drain ⟨b, some (.fileOpen, 0), [0], false⟩ ⟨c, none, [], false⟩) 0 1 :=
    { call := ⟨.fileOpen, 0, rfl, rfl, isBehind⟩
      inside := Nat.lt_of_sub_eq_succ pastB
      walking := ⟨false, [.app], congrArg CkptPc.walking walkB, List.mem_singleton.mpr rfl⟩
      returned := atDrained 0
      before := .inl (atDrained 1)
      closed := ⟨closedC, fun opening => by cases idleC.symm.trans opening⟩
      outside := pastC }
  refine ⟨_, reached, fun r => congrArg Collective.CkptPc.settled (atDrained r), ?_, rfl, pcC, ?_, ?_⟩
  · exact ⟨0, 1, .fileOpen, 0, rfl, isBehind, closedC⟩
  · exact congrArg CkptPc.closes walkB
  · exact fun t path => dead.forever (jobSound_of_reachable reached) path

/-- Rank 0 waits for its application thread, which is in the lower half in no collective call, and the wait can
end. -/
theorem closing_waits_for_no_collective_two_ranks : ∃ s : Job 2, Reachable (Job.guarded worldOnly false) s ∧
    (s.thread 0).past = 1 ∧ (s.rank 0).gate.ckpt.closes = true ∧ ¬s.Stuck worldOnly ∧
    ∃ t : Job 2, (t.rank 0).gate.ckpt = .idle ∧
      Relation.ReflTransGen (fun x y => ∃ a, (Job.guarded worldOnly false).step x a = some y) s t := by
  obtain ⟨drain, drained, atDrained, -⟩ := quietDrain_run
  obtain ⟨a, b, entered, walked, ⟨-, -, idleA, emptiedA, partedA⟩, pastB, walkB⟩ := insideGate_run
  have takes : TakesGuarded worldOnly false (Job.guarded worldOnly false) := guarded_takesGuarded
  have enters := reachable_gate (r := 0) takes (.start initial_twoJob) (mayGate_entry rfl (by decide) rfl) entered
  rw [setGate_first] at enters
  have returns : Reachable (Job.guarded worldOnly false) (twoJob drain ⟨a, none, [], false⟩ .initial) :=
    reachable_drained takes enters drained
  have closes := reachable_close (r := 0) takes returns (atDrained 0) ⟨emptiedA, partedA⟩ idleA
  rw [setGate_first] at closes
  have waits := reachable_gate (r := 0) takes closes
    (fun _ x member => by rw [List.eq_of_mem_replicate member]; rfl) walked
  rw [setGate_first] at waits
  have isClosing := congrArg CkptPc.closes walkB
  exact ⟨_, waits, pastB, isClosing, (closing_waits_for_no_collective waits).1,
    (closing_waits_for_no_collective waits).2 0 isClosing⟩

theorem closed_excludes_collectives_two_ranks : ∃ s : Job 2, Reachable (Job.machine worldOnly false) s ∧
    (s.rank 0).gate.closed = true ∧ (s.drain.proc 1).app.inSection = false := by
  obtain ⟨drain, drained, atDrained, -⟩ := quietDrain_run
  have takes : TakesGuarded worldOnly false (Job.guarded worldOnly false) := guarded_takesGuarded
  have returns : Reachable (Job.guarded worldOnly false) (twoJob drain .initial .initial) :=
    reachable_drained takes (.start initial_twoJob) drained
  have closes := reachable_close (r := 0) takes returns (atDrained 0) ⟨rfl, rfl⟩ rfl
  rw [setGate_first] at closes
  have stored : (gateMachine Role.ckpt).run (Gate.initial Role).closing (List.replicate 1 .ckpt) = some _ := rfl
  have closed := reachable_gate (r := 0) takes closes
    (fun _ x member => by rw [List.eq_of_mem_replicate member]; rfl) stored
  rw [setGate_first] at closed
  exact ⟨_, closed.of_restrict, rfl, (closed_excludes_collectives closed.of_restrict (q := 0) rfl 1).1⟩

end Mana.LowerHalf
