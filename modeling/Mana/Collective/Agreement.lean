import Mana.Collective.Lockstep

/-! All ranks read the same values in a round and pass the same barriers. -/

namespace Mana.Collective
open Mana.Lib Option

/-! The database only grows. -/

structure Kvdb.Grows (kv kv' : Kvdb) : Prop where
  keep : ∀ db key, (kv db key).isSome → (kv' db key).isSome

theorem Kvdb.Grows.refl (kv : Kvdb) : kv.Grows kv := ⟨fun _ _ present => present⟩

variable {kv kv' : Kvdb} {n : Nat} {p p' : Proc} {pc : CkptPc} {a b : Event}

theorem Kvdb.Grows.trans {kv'' : Kvdb} (first : kv.Grows kv') (second : kv'.Grows kv'') : kv.Grows kv'' :=
  ⟨fun db key present => second.keep db key (first.keep db key present)⟩

theorem Kvdb.grows_set (kv : Kvdb) (db : DbName) (key : Key) (value : Nat) : kv.Grows (kv.set db key value) := by
  refine ⟨fun db' key' present => ?_⟩
  unfold Kvdb.set
  split
  · rfl
  · exact present

theorem grows_uploadSeqNum (db : DbName) (clocks : Clocks) (kv : Kvdb) : kv.Grows (uploadSeqNum db clocks kv) := by
  unfold uploadSeqNum
  induction clocks.entries generalizing kv with
  | nil => exact .refl kv
  | cons e tail ih => exact (Kvdb.grows_set ..).trans (ih _)

theorem grows_uploadRaisedLoop (db : DbName) (clocks : Clocks) (raised gids : List Gid) (kv : Kvdb) :
    kv.Grows (uploadRaisedLoop db clocks raised gids kv).2 := by
  induction raised generalizing gids kv with
  | nil => exact .refl kv
  | cons g rest ih =>
    simp only [uploadRaisedLoop]
    cases clocks.lookup g with
    | none => exact ih ..
    | some c =>
      by_cases seen : g ∈ gids
      · simp only [if_pos seen]
        exact ih ..
      · simp only [if_neg seen]
        exact (Kvdb.grows_set ..).trans (ih ..)

theorem grows_writeEntries (db : DbName) (roundNum first : Nat) (gids : List Gid) (kv : Kvdb) :
    kv.Grows (writeEntries db roundNum first gids kv) := by
  induction gids generalizing first kv with
  | nil => exact .refl kv
  | cons g rest ih => exact (Kvdb.grows_set ..).trans (ih ..)

theorem grows_uploadRaisedTargets (e : Attempt) (roundNum : Nat) (clocks : Clocks) (raised : List Gid) (kv : Kvdb) :
    kv.Grows (uploadRaisedTargets e roundNum clocks raised kv) :=
  ((grows_uploadRaisedLoop ..).trans (Kvdb.grows_set ..)).trans (grows_writeEntries ..)

theorem CkptMove.grows (moved : CkptMove n kv p pc p' kv') : kv.Grows kv' := by
  cases moved with
  | share => exact grows_uploadSeqNum ..
  | section_ => exact grows_uploadRaisedTargets ..
  | putConverge | putCs => exact Kvdb.grows_set ..
  | _ => exact .refl kv

theorem CkptMove.round_key (moved : CkptMove n kv p pc p' kv') (what : What) (notMax : what ≠ .commSeqMax) (e : Attempt)
    (r : Nat) (other : (pc = .roundTop ∨ pc = .putConverge ∨ pc = .putCs) → p.attempt = e → p.locals.roundNum ≠ r) :
    kv' ⟨what, e⟩ (.round r) = kv ⟨what, e⟩ (.round r) := by
  have apart (way : pc = .roundTop ∨ pc = .putConverge ∨ pc = .putCs) (what' : What) :
      ¬((⟨what, e⟩ : DbName) = ⟨what', p.attempt⟩ ∧ Key.round r = .round p.locals.roundNum) := by
    rintro ⟨same, key⟩
    exact other way (by simp_all) (by simp_all)
  cases moved with
  | share => exact uploadSeqNum_other _ _ _ _ _ (by simp [notMax])
  | section_ =>
    apply uploadRaisedTargets_other
    have := other (.inl rfl)
    cases what <;> simp_all
    all_goals tauto
  | putConverge => exact if_neg (apart (.inr (.inl rfl)) _)
  | putCs => exact if_neg (apart (.inr (.inr rfl)) _)
  | _ => rfl

theorem ListsComplete.uploadRaisedTargets (lists : ListsComplete kv) (e : Attempt) (roundNum : Nat) (clocks : Clocks)
    (raised : List Gid) : ListsComplete (uploadRaisedTargets e roundNum clocks raised kv) := by
  intro e' r i bound
  have grows := grows_uploadRaisedTargets e roundNum clocks raised kv
  -- An old entry stays, with its gid's maximum.
  have old (count : i < (kv ⟨.targetsRaised, e'⟩ (.round r)).getD 0)
      (entry : Mana.Collective.uploadRaisedTargets e roundNum clocks raised kv ⟨.raisedGids, e'⟩ (.entry r i) =
        kv ⟨.raisedGids, e'⟩ (.entry r i)) :
      ∃ g m, Mana.Collective.uploadRaisedTargets e roundNum clocks raised kv ⟨.raisedGids, e'⟩ (.entry r i) = some g ∧
        Mana.Collective.uploadRaisedTargets e roundNum clocks raised kv ⟨.commSeqMax, e'⟩ (.gid g) = some m := by
    obtain ⟨g, m, found, maxSeq⟩ := lists e' r i count
    obtain ⟨m', maxSeq'⟩ := isSome_iff_exists.mp (grows.keep ⟨.commSeqMax, e'⟩ (.gid g) (by rw [maxSeq]; rfl))
    exact ⟨g, m', entry.trans found, maxSeq'⟩
  by_cases own : e' = e ∧ r = roundNum
  · obtain ⟨rfl, rfl⟩ := own
    rw [uploadRaisedTargets_count, getD_some] at bound
    by_cases before : i < (kv ⟨.targetsRaised, e'⟩ (.round r)).getD 0
    · refine old before ?_
      rw [uploadRaisedTargets_entry, if_neg (by omega)]
    · set first := (kv ⟨.targetsRaised, e'⟩ (.round r)).getD 0 with firstDef
      have inside : i - first < (raisedGids clocks raised).length := by omega
      have entry := uploadRaisedTargets_entry e' r clocks raised kv r i
      rw [if_pos (by omega), ← firstDef, List.getElem?_eq_getElem inside] at entry
      obtain ⟨isRaised, held⟩ := (mem_raisedGids ..).mp (List.getElem_mem inside)
      obtain ⟨c, found⟩ := isSome_iff_exists.mp (AList.lookup_isSome.mpr held)
      have maxSeq := uploadRaisedTargets_seqMax e' r clocks raised kv (raisedGids clocks raised)[i - first]
      rw [found, elim_some, if_pos isRaised] at maxSeq
      exact ⟨_, _, entry, maxSeq⟩
  · have count : Mana.Collective.uploadRaisedTargets e roundNum clocks raised kv ⟨.targetsRaised, e'⟩ (.round r) =
        kv ⟨.targetsRaised, e'⟩ (.round r) := by
      apply uploadRaisedTargets_other
      by_cases same : e' = e
      · exact .inr (.inr (.inr (.inl ⟨rfl, by simpa using fun round => own ⟨same, round⟩⟩)))
      · exact .inl same
    rw [count] at bound
    refine old bound (uploadRaisedTargets_other _ _ _ _ _ _ _ ?_)
    by_cases same : e' = e
    · exact .inr (.inr (.inr (.inr ⟨rfl, fun j => by simpa using fun round => absurd ⟨same, round⟩ own⟩)))
    · exact .inl same

theorem ListsComplete.of_same (lists : ListsComplete kv) (grows : kv.Grows kv')
    (count : ∀ e r, kv' ⟨.targetsRaised, e⟩ (.round r) = kv ⟨.targetsRaised, e⟩ (.round r))
    (entry : ∀ e r i, kv' ⟨.raisedGids, e⟩ (.entry r i) = kv ⟨.raisedGids, e⟩ (.entry r i)) : ListsComplete kv' := by
  intro e r i bound
  rw [count] at bound
  obtain ⟨g, m, found, maxSeq⟩ := lists e r i bound
  obtain ⟨m', maxSeq'⟩ := isSome_iff_exists.mp (grows.keep ⟨.commSeqMax, e⟩ (.gid g) (by rw [maxSeq]; rfl))
  exact ⟨g, m', (entry e r i).trans found, maxSeq'⟩

theorem ListsComplete.ckptMove (lists : ListsComplete kv) (moved : CkptMove n kv p pc p' kv') : ListsComplete kv' := by
  have grows := moved.grows
  cases moved with
  | share =>
    exact lists.of_same grows (fun e r => uploadSeqNum_other _ _ _ _ _ (by simp))
      (fun e r i => uploadSeqNum_other _ _ _ _ _ (by simp))
  | section_ => exact lists.uploadRaisedTargets _ _ _ _
  | putConverge | putCs =>
    exact lists.of_same grows (fun e r => Kvdb.set_db_ne _ _ _ _ (by simp))
      (fun e r i => Kvdb.set_db_ne _ _ _ _ (by simp))
  | _ => exact lists

/-! The invariant. -/

structure Posted (kv : Kvdb) (p : Proc) : Prop where
  raised : p.ckpt = .putConverge ∨ p.ckpt = .putCs ∨ p.ckpt = .roundBarrier →
    (kv ⟨.targetsRaised, p.attempt⟩ (.round p.locals.roundNum)).isSome
  converge : p.ckpt = .putCs ∨ p.ckpt = .roundBarrier →
    (kv ⟨.converge, p.attempt⟩ (.round p.locals.roundNum)).isSome
  cs : p.ckpt = .roundBarrier → (kv ⟨.criticalSection, p.attempt⟩ (.round p.locals.roundNum)).isSome

theorem Posted.grows (posted : Posted kv p) (grows : kv.Grows kv') : Posted kv' p :=
  ⟨fun pc => grows.keep _ _ (posted.raised pc), fun pc => grows.keep _ _ (posted.converge pc),
    fun pc => grows.keep _ _ (posted.cs pc)⟩

theorem Posted.congr {q : Proc} (posted : Posted kv p) (same : SameCkpt p q) : Posted kv q := by
  constructor
  · rw [same.ckpt, same.attempt, same.locals]
    exact posted.raised
  · rw [same.ckpt, same.attempt, same.locals]
    exact posted.converge
  · rw [same.ckpt, same.attempt, same.locals]
    exact posted.cs

theorem Posted.of_pc (away : p.ckpt ≠ .putConverge ∧ p.ckpt ≠ .putCs ∧ p.ckpt ≠ .roundBarrier) : Posted kv p := by
  constructor <;> intro pc <;> simp_all

theorem Posted.ckptMove (posted : Posted kv p) (moved : CkptMove n kv p p.ckpt p' kv') : Posted kv' p' := by
  have grows := moved.grows
  generalize pc : p.ckpt = here at moved
  cases moved with
  | section_ few =>
    refine ⟨fun _ => ?_, fun pc => by simp [Proc.roundSection] at pc, fun pc => by simp [Proc.roundSection] at pc⟩
    exact isSome_iff_exists.mpr ⟨_, uploadRaisedTargets_count ..⟩
  | putConverge =>
    refine ⟨fun _ => grows.keep _ _ (posted.raised (.inl pc)), fun _ => ?_, fun pc => by simp at pc⟩
    rw [Kvdb.incrBy]
    exact isSome_iff_exists.mpr ⟨_, Kvdb.set_same ..⟩
  | putCs =>
    refine ⟨fun _ => grows.keep _ _ (posted.raised (.inr (.inl pc))),
      fun _ => grows.keep _ _ (posted.converge (.inl pc)), fun _ => ?_⟩
    rw [Kvdb.or]
    exact isSome_iff_exists.mpr ⟨_, Kvdb.set_same ..⟩
  | _ => exact .of_pc (by simp [Proc.nextRound])

def Stage.next (n : Nat) (kv : Kvdb) (stage : Stage) : Stage :=
  match stage.goal n with
  | .share e => .shared e
  | .round e r w => .round e r w
      { numConverged := (kv ⟨.converge, e⟩ (.round r)).getD 0
        inCs := (kv ⟨.criticalSection, e⟩ (.round r)).getD 0
        raised := (kv ⟨.targetsRaised, e⟩ (.round r)).getD 0 }
  | .drain e _ => .between e.generation

structure Aligned {n : Nat} (s : State n) (stage : Stage) (past : List Event) : Prop where
  reads : stage.Reads s.kvdb
  lists : ListsComplete s.kvdb
  posted : ∀ r, Posted s.kvdb (s.proc r)
  places : ∀ r, ∃ events, (s.proc r).log = past ++ events ∧ At n stage (s.proc r) (s.proc r).ckpt events

section Aligned
variable {n : Nat} {members : Gid → Finset (Fin n)} {s : State n} {stage : Stage} {past : List Event}

theorem aligned_initial (first : Initial members s) : Aligned s (.between 0) [] := by
  obtain ⟨empty, procs⟩ := first
  refine ⟨trivial, ?_, fun r => ?_, fun r => ?_⟩
  · intro e r i bound
    simp [empty, Kvdb.empty] at bound
  · obtain ⟨clocks, proc, -⟩ := procs r
    exact .of_pc (by simp [proc, Proc.initial])
  · obtain ⟨clocks, proc, -⟩ := procs r
    rw [proc]
    exact ⟨[], rfl, .early (.running rfl)⟩

theorem Aligned.setProc (aligned : Aligned s stage past) (r : Fin n) {q : Proc} (same : SameCkpt (s.proc r) q) :
    Aligned (s.setProc r q) stage past := by
  refine ⟨aligned.reads, aligned.lists, fun r' => ?_, fun r' => ?_⟩
  · by_cases own : r' = r
    · subst own
      simpa [State.setProc] using (aligned.posted r').congr same
    · simpa [State.setProc, own] using aligned.posted r'
  · obtain ⟨events, log, here⟩ := aligned.places r'
    by_cases own : r' = r
    · subst own
      refine ⟨events, ?_, ?_⟩
      · simpa [State.setProc, same.log] using log
      · simpa [State.setProc, same.ckpt] using here.congr same.locals same.generation
    · exact ⟨events, by simpa [State.setProc, own] using log, by simpa [State.setProc, own] using here⟩

/-- A rank writes no key of a round whose barrier was released. -/
theorem Stage.Reads.ckptMove {kv kv' : Kvdb} {p p' : Proc} {events : List Event} (reads : stage.Reads kv)
    (here : At n stage p p.ckpt events) (moved : CkptMove n kv p p.ckpt p' kv') : stage.Reads kv' := by
  match stage, reads with
  | .between _, _ | .shared _, _ => trivial
  | .round e r w v, reads =>
    have later : (p.ckpt = .roundTop ∨ p.ckpt = .putConverge ∨ p.ckpt = .putCs) → p.attempt = e →
        p.locals.roundNum ≠ r := by
      intro pc _ same
      rcases here.collecting pc with ⟨e', r', w', aim, inRound⟩ | ⟨e', r', w', v', round, inRound, -⟩
      · rcases Stage.goal_round aim with ⟨shared, -⟩ | ⟨r'', w'', v', round, next⟩
        · simp at shared
        · have := inRound.roundNum
          simp only [Stage.round.injEq] at round
          omega
      · have := inRound.roundNum
        simp only [Stage.round.injEq] at round
        omega
    obtain ⟨conv, cs, raised⟩ := reads
    refine ⟨?_, ?_, ?_⟩
    · rw [moved.round_key _ (by simp) _ _ later, conv]
    · rw [moved.round_key _ (by simp) _ _ later, cs]
    · rw [moved.round_key _ (by simp) _ _ later, raised]

theorem Aligned.ckpt (aligned : Aligned s stage past) (r : Fin n) {q : Proc} {kv : Kvdb}
    (moved : CkptMove n s.kvdb (s.proc r) (s.proc r).ckpt q kv) :
    Aligned { proc := Function.update s.proc r q, kvdb := kv } stage past := by
  obtain ⟨events, log, here⟩ := aligned.places r
  refine ⟨aligned.reads.ckptMove here moved, aligned.lists.ckptMove moved, fun r' => ?_, fun r' => ?_⟩
  · by_cases own : r' = r
    · subst own
      simpa using (aligned.posted r').ckptMove moved
    · simpa [own] using (aligned.posted r').grows moved.grows
  · by_cases own : r' = r
    · subst own
      obtain ⟨new, log', here'⟩ := here.ckptMove aligned.reads aligned.lists moved
      exact ⟨events ++ new, by simp [log', log], by simpa using here'⟩
    · simpa [own] using aligned.places r'

/-- The release of a barrier: all ranks are at the stage's goal, and the next stage begins. -/
theorem Aligned.release (aligned : Aligned s stage past) {b : Barrier} {t : State n} (released : Release s b t)
    (some_ : 0 < n) : Aligned t (stage.next n s.kvdb) (past ++ stage.plan n) := by
  obtain ⟨all, rfl⟩ := released
  have ways : ∀ r, OnWay (stage.goal n) (s.proc r) (s.proc r).ckpt true ∧ (s.proc r).log = past ++ stage.plan n := by
    intro r
    obtain ⟨events, log, here⟩ := aligned.places r
    obtain ⟨way, rfl, -⟩ := here.arrived_of_waiting rfl (all r)
    exact ⟨way, log⟩
  refine ⟨?_, aligned.lists, fun r => ?_, fun r => ?_⟩
  · obtain ⟨way, -⟩ := ways ⟨0, some_⟩
    have posted := aligned.posted ⟨0, some_⟩
    unfold Stage.next
    generalize pc : (s.proc ⟨0, some_⟩).ckpt = here at way
    generalize stage.goal n = goal at way
    cases way with
    | shareWait | drainWait => trivial
    | roundWait here =>
      have raised := posted.raised (.inr (.inr pc))
      have converge := posted.converge (.inr pc)
      have cs := posted.cs pc
      rw [here.attempt, here.roundNum] at raised converge cs
      obtain ⟨conv, hconv⟩ := isSome_iff_exists.mp converge
      obtain ⟨inCs, hcs⟩ := isSome_iff_exists.mp cs
      obtain ⟨count, hraised⟩ := isSome_iff_exists.mp raised
      simp [Stage.Reads, hconv, hcs, hraised]
  · obtain ⟨way, -⟩ := ways r
    apply Posted.of_pc
    simp only [Proc.released]
    generalize (s.proc r).ckpt = here at way
    generalize stage.goal n = goal at way
    cases way <;> simp [CkptPc.released]
  · obtain ⟨way, log⟩ := ways r
    refine ⟨[], log.trans (List.append_nil _).symm, ?_⟩
    unfold Stage.next
    simp only [Proc.released]
    generalize (s.proc r).ckpt = here at way
    generalize stage.goal n = goal at way
    cases way with
    | shareWait here => exact .early (.download here)
    | roundWait here => exact .early (.getConverge ⟨here.1, here.2, here.3⟩)
    | drainWait here => exact .early (.drainedAll (congrArg Attempt.generation here))

end Aligned

/-! What a rank logs for one round, one attempt or one checkpoint, it logs once. -/

/-- Two events about the same thing: the reads of one round, the count of the rounds
without a raise after one round, the end of one attempt, or that of one checkpoint. -/
def Event.SameSlot : Event → Event → Prop
  | .read e r _ _ _, .read e' r' _ _ _ => e = e' ∧ r = r'
  | .again e r _, .again e' r' _ => e = e' ∧ r = r'
  | .gaveUp e _, .gaveUp e' _ => e = e'
  | .returned e _, .returned e' _ => e.generation = e'.generation
  | _, _ => False

structure Moment where
  generation : Nat
  attemptId : Nat
  roundNum : Nat

def Moment.Le (a b : Moment) : Prop :=
  a.generation < b.generation ∨ a.generation = b.generation ∧
    (a.attemptId < b.attemptId ∨ a.attemptId = b.attemptId ∧ a.roundNum ≤ b.roundNum)

theorem Moment.Le.trans {a b c : Moment} (first : a.Le b) (second : b.Le c) : a.Le c := by
  unfold Moment.Le at *
  omega

def Event.over : Event → Moment
  | .arrive _ => ⟨0, 0, 0⟩
  | .read e r _ _ _ => ⟨e.generation, e.attemptId, r + 1⟩
  | .again e r _ => ⟨e.generation, e.attemptId, r + 1⟩
  | .gaveUp e _ => ⟨e.generation, e.attemptId + 1, 0⟩
  | .returned e _ => ⟨e.generation + 1, 0, 0⟩

def Goal.moment : Goal → Moment
  | .share e => ⟨e.generation, e.attemptId, 0⟩
  | .round e r _ => ⟨e.generation, e.attemptId, r⟩
  | .drain e _ => ⟨e.generation + 1, 0, 0⟩

def Stage.moment : Stage → Moment
  | .between gen => ⟨gen + 1, 0, 0⟩
  | .shared e => ⟨e.generation, e.attemptId, 0⟩
  | .round e r _ _ => ⟨e.generation, e.attemptId, r⟩

theorem Stage.next_moment (n : Nat) (kv : Kvdb) (stage : Stage) :
    (stage.next n kv).moment = (stage.goal n).moment := by
  unfold Stage.next
  cases stage.goal n <;> rfl

theorem Stage.moment_le_goal (n : Nat) (stage : Stage) : stage.moment.Le (stage.goal n).moment := by
  cases stage with
  | between gen | shared e => simp [Stage.moment, Stage.goal, Goal.moment, Moment.Le]
  | round e r w v =>
    simp only [Stage.goal]
    split
    · simp [Stage.moment, Goal.moment, Moment.Le]
    · split
      · simp [Stage.moment, Goal.moment, Moment.Le]
      · split <;> simp [Stage.moment, Goal.moment, Moment.Le]

theorem Stage.events_over (n : Nat) (stage : Stage) : ∀ a ∈ stage.events n, a.over.Le (stage.goal n).moment := by
  cases stage with
  | between gen | shared e => simp [Stage.events]
  | round e r w v =>
    simp only [Stage.goal, Stage.events]
    split
    · simp [Event.over, Goal.moment, Moment.Le]
    · split
      · simp [Event.over, Goal.moment, Moment.Le]
      · split <;> simp [Event.over, Goal.moment, Moment.Le]

theorem Event.SameSlot.over_eq (same : a.SameSlot b) : a.over = b.over := by
  cases a <;> cases b <;> simp_all [Event.SameSlot, Event.over]

theorem Stage.events_late (n : Nat) (stage : Stage) : ∀ a ∈ stage.events n, ¬a.over.Le stage.moment := by
  cases stage with
  | between gen | shared e => simp [Stage.events]
  | round e r w v =>
    simp only [Stage.moment, Stage.events]
    split
    · simp [Event.over, Moment.Le]
    · split
      · simp [Event.over, Moment.Le]
      · split <;> simp [Event.over, Moment.Le]

theorem Stage.events_once (n : Nat) (stage : Stage) (left : a ∈ stage.events n) (right : b ∈ stage.events n)
    (same : a.SameSlot b) : a = b := by
  cases stage with
  | between gen | shared e => simp [Stage.events] at left
  | round e r w v =>
    simp only [Stage.events] at left right
    split at left <;> rename_i done
    · rw [if_pos done] at right
      simp only [List.mem_cons, List.not_mem_nil, or_false] at left right
      rcases left with rfl | rfl <;> rcases right with rfl | rfl <;> simp_all [Event.SameSlot]
    · rw [if_neg done] at right
      split at left <;> rename_i positive
      · rw [if_pos positive] at right
        simp only [List.mem_cons, List.not_mem_nil, or_false] at left right
        rcases left with rfl | rfl <;> rcases right with rfl | rfl <;> simp_all [Event.SameSlot]
      · rw [if_neg positive] at right
        split at left <;> rename_i few
        · rw [if_pos few] at right
          simp only [List.mem_cons, List.not_mem_nil, or_false] at left right
          rcases left with rfl | rfl <;> rcases right with rfl | rfl <;> simp_all [Event.SameSlot]
        · rw [if_neg few] at right
          simp only [List.mem_cons, List.not_mem_nil, or_false] at left right
          rcases left with rfl | rfl | rfl <;> rcases right with rfl | rfl | rfl <;> simp_all [Event.SameSlot]

structure History (n : Nat) (stage : Stage) (past : List Event) : Prop where
  ends : ∀ a ∈ past, a.over.Le stage.moment
  once : ∀ a ∈ past ++ stage.events n, ∀ b ∈ past ++ stage.events n, a.SameSlot b → a = b

theorem history_initial (n : Nat) : History n (.between 0) [] :=
  ⟨by simp, by simp [Stage.events]⟩

theorem History.release {n : Nat} {stage : Stage} {past : List Event} (history : History n stage past) (kv : Kvdb) :
    History n (stage.next n kv) (past ++ stage.plan n) := by
  have ends : ∀ a ∈ past ++ stage.plan n, a.over.Le (stage.next n kv).moment := by
    intro a member
    rw [Stage.next_moment]
    simp only [Stage.plan, List.mem_append, List.mem_singleton] at member
    rcases member with old | inside | rfl
    · exact (history.ends a old).trans (stage.moment_le_goal n)
    · exact stage.events_over n a inside
    · simp only [Event.over, Moment.Le]
      omega
  refine ⟨ends, ?_⟩
  have apart {a b : Event} (old : a ∈ past ++ stage.plan n) (new : b ∈ (stage.next n kv).events n) :
      a.over ≠ b.over := by
    intro same
    exact (stage.next n kv).events_late n b new (same ▸ ends a old)
  have still {a : Event} (old : a ∈ past ++ stage.plan n) :
      a ∈ past ++ stage.events n ∨ a = .arrive (stage.goal n).barrier := by
    simpa only [Stage.plan, List.mem_append, List.mem_singleton, ← List.append_assoc] using old
  intro a left b right same
  rcases List.mem_append.mp left with left | left <;> rcases List.mem_append.mp right with right | right
  · rcases still left with left | rfl <;> rcases still right with right | rfl
    · exact history.once a left b right same
    · cases a <;> simp [Event.SameSlot] at same
    · cases b <;> simp [Event.SameSlot] at same
    · rfl
  · exact absurd same.over_eq (apart left right)
  · exact absurd same.over_eq.symm (apart right left)
  · exact (stage.next n kv).events_once n left right same

section Staged
variable {n : Nat} {members : Gid → Finset (Fin n)} {s t : State n} {stage : Stage} {past : List Event}

theorem Aligned.rankMove (aligned : Aligned s stage past) (moved : RankMove members s t) : Aligned t stage past := by
  cases moved with
  | app r moved => exact aligned.setProc r moved.sameCkpt
  | ckpt r moved => exact aligned.ckpt r moved
  | completeFree r g => exact aligned.setProc r (by constructor <;> rfl)

theorem reachable_staged (holds : State n → Stage → Prop)
    (first : ∀ s, Initial members s → holds s (.between 0))
    (kept : ∀ s stage past t, Reachable (machine members) s → Aligned s stage past → holds s stage →
      RankMove members s t → holds t stage)
    (released : ∀ s stage past b t, Aligned s stage past → holds s stage → Release s b t → 0 < n →
      holds t (stage.next n s.kvdb))
    (reached : Reachable (machine members) s) :
    ∃ stage past, Aligned s stage past ∧ History n stage past ∧ holds s stage := by
  refine reached.invariant (fun s => ∃ stage past, Aligned s stage past ∧ History n stage past ∧ holds s stage) ?_ ?_
  · intro s isFirst
    exact ⟨.between 0, [], aligned_initial isFirst, history_initial n, first s isFirst⟩
  · rintro s a t before ⟨stage, past, aligned, history, held⟩ taken
    rcases step_move taken with moved | ⟨b, release⟩
    · exact ⟨stage, past, aligned.rankMove moved, history, kept s stage past t before aligned held moved⟩
    · by_cases some_ : 0 < n
      · exact ⟨stage.next n s.kvdb, past ++ stage.plan n, aligned.release release some_, history.release s.kvdb,
          released s stage past b t aligned held release some_⟩
      · -- Without ranks the release changes nothing.
        have same : t = s := by
          rw [release.2]
          congr
          funext q
          exact absurd (Nat.zero_lt_of_lt q.isLt) some_
        rw [same]
        exact ⟨stage, past, aligned, history, held⟩

theorem reachable_aligned (reached : Reachable (machine members) s) :
    ∃ stage past, Aligned s stage past ∧ History n stage past := by
  obtain ⟨stage, past, aligned, history, -⟩ := reachable_staged (fun _ _ => True)
    (fun _ _ => trivial) (fun _ _ _ _ _ _ _ _ => trivial) (fun _ _ _ _ _ _ _ _ _ => trivial) reached
  exact ⟨stage, past, aligned, history⟩

/-- All ranks read the same values in each round, count the rounds without a raise
alike, give up an attempt in the same round, return from the drain in the same round of
the same attempt, and pass the same barriers in the same order: of two ranks' logs one is
the first part of the other. A rank that waits at a barrier is behind no other rank, and
two ranks that wait wait at the same barrier; in particular no rank waits at a barrier of
the drain while another one has returned. -/
theorem drain_agreement (reached : Reachable (machine members) s) (p q : Fin n) :
    ((s.proc p).log <+: (s.proc q).log ∨ (s.proc q).log <+: (s.proc p).log) ∧
      (∀ a ∈ (s.proc p).log, ∀ b ∈ (s.proc q).log, a.SameSlot b → a = b) ∧
      (∀ b, (s.proc p).waitingAt = some b →
        (s.proc q).log <+: (s.proc p).log ∧ ∀ b', (s.proc q).waitingAt = some b' → b' = b) ∧
      ((s.proc q).ckpt = .drained ∨ (s.proc q).ckpt = .drainBarrier →
        ∀ b, (s.proc p).waitingAt = some b → b = .drainSendRecv) ∧
      (s.proc p).ckpt ≠ .aborted := by
  obtain ⟨stage, past, aligned, history⟩ := reachable_aligned reached
  obtain ⟨eventsP, logP, hereP⟩ := aligned.places p
  obtain ⟨eventsQ, logQ, hereQ⟩ := aligned.places q
  have prefixP := hereP.events_prefix
  have prefixQ := hereQ.events_prefix
  refine ⟨?_, ?_, ?_, ?_, ?_⟩
  · rw [logP, logQ, List.prefix_append_right_inj, List.prefix_append_right_inj]
    exact List.prefix_or_prefix_of_prefix prefixP prefixQ
  · intro a left b right same
    have known {r : Fin n} {events : List Event} (log : (s.proc r).log = past ++ events)
        (first : events <+: stage.plan n) {c : Event} (member : c ∈ (s.proc r).log) :
        c ∈ past ++ stage.events n ∨ c = .arrive (stage.goal n).barrier := by
      rw [log, List.mem_append] at member
      have := List.mem_append.mpr (member.imp_right fun inside => first.subset inside)
      simpa only [Stage.plan, List.mem_append, List.mem_singleton, ← List.append_assoc] using this
    rcases known logP prefixP left with left | rfl
    · rcases known logQ prefixQ right with right | rfl
      · exact history.once a left b right same
      · cases a <;> simp [Event.SameSlot] at same
    · cases b <;> simp [Event.SameSlot] at same
  · intro b waits
    obtain ⟨way, rfl, barrier⟩ := hereP.arrived_of_waiting rfl waits
    refine ⟨?_, fun b' waits' => ?_⟩
    · rw [logP, logQ, List.prefix_append_right_inj]
      exact prefixQ
    · exact ((hereQ.arrived_of_waiting rfl waits').2.2.symm.trans barrier)
  · intro returned b waits
    obtain ⟨r, aim⟩ := hereQ.goal_of_returned returned
    obtain ⟨-, -, barrier⟩ := hereP.arrived_of_waiting rfl waits
    rw [← barrier, aim]
    rfl
  · exact hereP.not_aborted

end Staged

/-! A drain of two ranks. Rank 0 has begun a call on the one communicator when the
checkpoint starts. In round 0 it is in its critical section and rank 1 is behind its
target; then both make the call, and the drain ends in round 1. -/

def worldOnly : Gid → Finset (Fin 2) := fun g => if g = 0 then Finset.univ else ∅

def twoRanks : State 2 where
  proc := fun _ => Proc.initial ((∅ : Clocks).insert 0 ⟨0, 0⟩)
  kvdb := Kvdb.empty

def shareActions : List (Action 2) :=
  [.ckpt 0, .ckpt 0, .ckpt 1, .ckpt 1, .release (.shareSeqNum 0), .ckpt 0, .ckpt 1]

def collectActions (roundNum : Nat) : List (Action 2) :=
  [.ckpt 0, .ckpt 0, .ckpt 0, .ckpt 1, .ckpt 1, .ckpt 1, .release (.presuspend 0 roundNum)]

def verdictActions (r : Fin 2) : List (Action 2) := [.ckpt r, .ckpt r, .ckpt r, .ckpt r]

def callActions (r : Fin 2) : List (Action 2) := [.app r (.call (.counted 0 false)), .app r .lock]

def drainActions : List (Action 2) :=
  callActions 0 ++ shareActions ++ collectActions 0 ++ verdictActions 0 ++ verdictActions 1 ++
    callActions 1 ++ [.app 1 .finish, .app 0 .finish] ++ collectActions 1 ++ verdictActions 0

theorem initial_twoRanks : Initial worldOnly twoRanks := by
  refine ⟨rfl, fun r => ⟨_, rfl, fun g c found => ?_⟩⟩
  rw [Assoc.lookup_insert_eq] at found
  split at found
  · next world => simp_all [worldOnly]
  · simp at found

theorem drainActions_run : ∃ s, Reachable (machine worldOnly) s ∧ (s.proc 0).ckpt = .drained ∧
    (s.proc 1).ckpt = .getConverge ∧ (s.proc 0).log.length = 7 := by
  have ran : (((machine worldOnly).run twoRanks drainActions).map
      (fun s => ((s.proc 0).ckpt, (s.proc 1).ckpt, (s.proc 0).log.length))) = some (.drained, .getConverge, 7) := by
    decide +kernel
  obtain ⟨s, ran, ends⟩ := map_eq_some_iff.mp ran
  simp only [Prod.mk.injEq] at ends
  exact ⟨s, (Reachable.start initial_twoRanks).run ran, ends⟩

theorem drain_agreement_two_ranks : ∃ s, Reachable (machine worldOnly) s ∧ (s.proc 0).ckpt = .drained ∧
    (s.proc 0).log.length = 7 ∧ ((s.proc 0).log <+: (s.proc 1).log ∨ (s.proc 1).log <+: (s.proc 0).log) := by
  obtain ⟨s, reached, drained, -, events⟩ := drainActions_run
  exact ⟨s, reached, drained, events, (drain_agreement reached 0 1).1⟩

end Mana.Collective
