import Mana.Collective.Programs
import Mana.Collective.Targets
import Mathlib.Order.WellFoundedSet

/-! The drain makes no deadlock of its own: in an attempt whose targets all ranks know,
while a rank has to go on, the application thread of some rank can go on. -/

namespace Mana.Collective
open Mana.Lib Option

/-! Two facts about every run: a thread spins in `wait_while_targets_reached` on the
current version of the targets only if it has reached them, and the database holds only
counts of calls that were begun. -/

def AppPc.spinsOn : AppPc → Option Nat
  | .beginSpin _ version => some version
  | .finishSpin version => some version
  | _ => none

structure Spins (p : Proc) : Prop where
  old : ∀ v, p.app.spinsOn = some v → v ≤ p.targetsVersion
  reached : p.app.spinsOn = some p.targetsVersion → checkSeqNums p.clocks = true

variable {p q : Proc} {n : Nat} {kv kv' : Kvdb} {pc : CkptPc}

theorem Spins.of_none (none_ : p.app.spinsOn = none) : Spins p :=
  ⟨fun v spins => by simp [none_] at spins, fun spins => by simp [none_] at spins⟩

theorem Spins.appStep {size : Gid → Nat} {mayAdd mayErase : Gid → Bool} {a : AppAct}
    (taken : AppStep size mayAdd mayErase p a q) : Spins q := by
  have waits (app : AppPc) (on : app.spinsOn = some p.targetsVersion) (waits : p.mustWait = true) :
      Spins { p with app := app } := by
    refine ⟨fun v spins => ?_, fun _ => ?_⟩
    · rw [on, some.injEq] at spins
      exact Nat.le_of_eq spins.symm
    · simp only [Proc.mustWait, Bool.and_eq_true] at waits
      exact waits.2
  cases taken with
  | call | wake | finish | finishWake | done => exact .of_none rfl
  | wait c pc unlocked must => exact waits _ rfl must
  | enter c pc unlocked goes entered =>
    cases c with
    | uncounted =>
      simp only [Proc.enter, some.injEq] at entered
      subst entered
      exact .of_none rfl
    | counted g free =>
      obtain ⟨clock, -, rfl⟩ := Proc.enter_counted entered
      exact .of_none rfl
  | add g c pc => exact .of_none (by rw [Proc.addCommClock, pc]; rfl)
  | readPending => exact .of_none (by dsimp only; split <;> rfl)
  | finishLock pc unlocked =>
    by_cases must : p.mustWait = true
    · simp only [if_pos must]
      exact waits _ rfl must
    · simp only [if_neg must]
      exact .of_none rfl
  | erase g pc => exact .of_none (by rcases pc with pc | pc <;> simp [pc, AppPc.spinsOn])

theorem CkptMove.version_eq (moved : CkptMove n kv p pc q kv') :
    (q.targetsVersion = p.targetsVersion ∧ q.clocks = p.clocks) ∨ q.targetsVersion = p.targetsVersion + 1 := by
  cases moved with
  | section_ few =>
    simp only [Proc.roundSection]
    split
    · exact .inr rfl
    · exact .inl ⟨rfl, rfl⟩
  | download | raised => exact .inr rfl
  | _ => exact .inl ⟨rfl, rfl⟩

theorem Spins.ckptMove (spins : Spins p) (moved : CkptMove n kv p pc q kv') : Spins q := by
  obtain ⟨app, -⟩ := moved.app_eq
  rcases moved.version_eq with ⟨version, clocks⟩ | version
  · refine ⟨?_, ?_⟩
    · rw [app, version]
      exact spins.old
    · rw [app, version, clocks]
      exact spins.reached
  · refine ⟨fun v on => ?_, fun on => ?_⟩
    · rw [app] at on
      have := spins.old v on
      omega
    · rw [app, version] at on
      have := spins.old _ on
      omega

section Runs
variable {n : Nat} {members : Gid → Finset (Fin n)} {s t : State n}

theorem reachable_spins (reached : Reachable (machine members) s) (r : Fin n) : Spins (s.proc r) := by
  revert r
  refine reached.invariant (fun s => ∀ r, Spins (s.proc r)) ?_ ?_
  · rintro s ⟨-, procs⟩ r
    obtain ⟨clocks, proc, -⟩ := procs r
    rw [proc]
    exact .of_none rfl
  · intro s a t _ spins taken
    cases a with
    | app r a =>
      simp only [machine, step, map_eq_some_iff] at taken
      obtain ⟨q, moved, rfl⟩ := taken
      exact (Function.forall_update_iff s.proc (fun _ p => Spins p)).mpr
        ⟨.appStep (Proc.appStep_cases moved), fun r' _ => spins r'⟩
    | ckpt r =>
      simp only [machine, step, map_eq_some_iff] at taken
      obtain ⟨⟨q, kv⟩, moved, rfl⟩ := taken
      exact (Function.forall_update_iff s.proc (fun _ p => Spins p)).mpr
        ⟨(spins r).ckptMove (Proc.ckptStep_move moved), fun r' _ => spins r'⟩
    | completeFree r g =>
      simp only [machine, step, ite_none_right_eq_some, some.injEq] at taken
      obtain ⟨-, rfl⟩ := taken
      exact (Function.forall_update_iff s.proc (fun _ p => Spins p)).mpr
        ⟨⟨(spins r).old, fun on => checkSeqNums_erase g ((spins r).reached on)⟩, fun r' _ => spins r'⟩
    | release b =>
      simp only [machine, step, ite_none_right_eq_some, some.injEq] at taken
      obtain ⟨-, rfl⟩ := taken
      exact fun r => ⟨(spins r).old, (spins r).reached⟩

theorem reachable_maxima_begun (reached : Reachable (machine members) s) (e : Attempt) (g : Gid) (k : Nat) (first : 1 ≤ k)
    (last : k ≤ seqMax s.kvdb e g) : ∃ q ∈ members g, k ≤ (s.proc q).calls.count g := by
  obtain ⟨uploads, between⟩ := reachable_betweenSections reached
  change k ≤ (uploadedMax s.kvdb e g).getD 0 at last
  cases isMax : uploadedMax s.kvdb e g with
  | none =>
    rw [isMax, getD_none] at last
    omega
  | some v =>
    obtain ⟨q, begun⟩ := (bounded_of_reachable between).database e g v isMax
    rw [isMax, getD_some] at last
    have made : k ≤ (s.proc q).calls.count g := last.trans begun
    exact ⟨q, (reachable_clockInv reached q).called g (List.count_pos_iff.mp (by omega)), made⟩

end Runs

section Programs
variable {n : Nat} {prog : CallProgram n} {members : Gid → Finset (Fin n)} {predefined : Gid → Prop} {s t : State n}

/-! Which threads can go on. -/

/-- All ranks are in the attempt, know every uploaded target and have none to upload. -/
structure Quiet (e : Attempt) (s : State n) : Prop where
  pending : ∀ r, (s.proc r).ckptPending = true
  unlocked : ∀ r, (s.proc r).lockHeld = false
  attempt : ∀ r, (s.proc r).attempt = e
  downloaded : ∀ r g c, (s.proc r).clocks.lookup g = some c → seqMax s.kvdb e g ≤ c.target ∨ seqMax s.kvdb e g ≤ c.seq
  noRaise : ∀ r, (s.proc r).raisedClocks = []

def Unfinished (s : State n) : Prop :=
  ∃ r, (s.proc r).app.inSection = true ∨ ∃ g c, (s.proc r).clocks.lookup g = some c ∧ c.seq < c.target

/-- An application thread has a step that is inside a call or is not held in
`wait_while_targets_reached`. -/
def CallProgram.GoesOn (prog : CallProgram n) (members : Gid → Finset (Fin n)) (predefined : Gid → Prop) (s : State n) :
    Prop :=
  ∃ r a t, ((s.proc r).app.inSection = true ∨ (s.proc r).mustWait = false) ∧
    (prog.machine members predefined).step s (.app r a) = some t

variable {r : Fin n} {g : Gid} {f : Bool} {e : Attempt}

theorem CallProgram.GoesOn.of_step {a : AppAct} {q : Proc}
    (free : (s.proc r).app.inSection = true ∨ (s.proc r).mustWait = false)
    (allowed : prog.allowsApp (s.complete members) r (s.proc r) a = true)
    (taken : (s.proc r).appStep (fun g => (members g).card) (fun g => decide (r ∈ members g)) (s.allFreed members) a
      = some q) : prog.GoesOn members predefined s := by
  refine ⟨r, a, s.setProc r q, free, CallProgram.step_iff.mpr ⟨allowed, ?_⟩⟩
  rw [step, taken]
  rfl

theorem goesOn_of_creates (valid : prog.Valid members predefined) {g' : Gid} (unlocked : (s.proc r).lockHeld = false)
    (pc : (s.proc r).app = .inCs (.counted g f)) (isComplete : s.complete members g ((s.proc r).calls.count g) = true)
    (creates : prog.creates r g ((s.proc r).calls.count g) = some g') (absent : g' ∉ (s.proc r).clocks)
    (unfreed : g' ∉ (s.proc r).freed) : prog.GoesOn members predefined s := by
  refine .of_step (a := .addClock g') (q := (s.proc r).addCommClock g') (.inl (by rw [pc]; rfl)) ?_ ?_
  · simp [CallProgram.allowsApp, pc, creates, isComplete]
  · have member := (valid.createMembers r g _ g' creates).1
    simp [Proc.appStep, pc, unlocked, member, absent, unfreed]

theorem goesOn_of_complete (valid : prog.Valid members predefined)
    (reached : Reachable (prog.machine members predefined) s) (unlocked : (s.proc r).lockHeld = false)
    (pc : (s.proc r).app = .inCs (.counted g f))
    (returns : f = true ∨ s.complete members g ((s.proc r).calls.count g) = true) :
    prog.GoesOn members predefined s := by
  have inv := reachable_callInv valid reached r
  obtain ⟨g₁, same, -, unfreed⟩ := inv.inside _ pc
  obtain ⟨rfl, rfl⟩ := Call.counted.inj same
  have finish (all : (prog.creates r g ((s.proc r).calls.count g)).all (fun g' => decide (g' ∈ (s.proc r).clocks)) = true) :
      prog.GoesOn members predefined s := by
    refine .of_step (a := .finish) (q := { s.proc r with currentPhase := .isReady, app := .finishRead })
      (.inl (by rw [pc]; rfl)) ?_ ?_
    · simp only [CallProgram.allowsApp, pc, all, Bool.and_true, Bool.or_eq_true]
      exact returns
    · simp [Proc.appStep, pc]
  cases creates : prog.creates r g ((s.proc r).calls.count g) with
  | none => exact finish (by rw [creates]; rfl)
  | some g' =>
    by_cases held : g' ∈ (s.proc r).clocks
    · exact finish (by simpa [creates] using held)
    · have isComplete : s.complete members g ((s.proc r).calls.count g) = true := by
        refine returns.resolve_left (fun isFree => ?_)
        rw [valid.freeOnly r g _ isFree] at creates
        cases creates
      exact goesOn_of_creates valid unlocked pc isComplete creates held (unfreed g' creates)

/-- A rank that is not held and has further calls to make can go on, or is in a call
which other members have not begun. -/
theorem goesOn_of_next (valid : prog.Valid members predefined) (reached : Reachable (prog.machine members predefined) s)
    (unlocked : (s.proc r).lockHeld = false) (goes : (s.proc r).mustWait = false)
    (next : prog.call r (s.proc r).calls.length = some g)
    (inCall : ∀ g f, (s.proc r).app = .inCs (.counted g f) →
      s.complete members g ((s.proc r).calls.count g) = false → prog.GoesOn members predefined s) :
    prog.GoesOn members predefined s := by
  have inv := reachable_callInv valid reached r
  have spins := reachable_spins (CallProgram.reachable_drain reached) r
  -- A thread that spins has reached the targets that it knows.
  have changed (v : Nat) (on : (s.proc r).app.spinsOn = some v) :
      ¬((s.proc r).ckptPending = true ∧ (s.proc r).targetsVersion = v) := by
    rintro ⟨pending, rfl⟩
    simp [Proc.mustWait, pending, spins.reached on] at goes
  cases pc : (s.proc r).app with
  | ready =>
    obtain ⟨held, unfreed⟩ := next_call_live valid reached (by rw [pc]; rfl) next
    refine .of_step (a := .call (.counted g (prog.free g ((s.proc r).calls.count g + 1))))
      (q := { s.proc r with app := .beginLock (.counted g (prog.free g ((s.proc r).calls.count g + 1))) })
      (.inr goes) ?_ ?_
    · simp [CallProgram.allowsApp, next]
    · simp [Proc.appStep, pc, held, unfreed]
  | beginLock c =>
    obtain ⟨h, rfl, -, held, -⟩ := inv.begins c (.inl pc)
    obtain ⟨clock, found⟩ := isSome_iff_exists.mp (AList.lookup_isSome.mpr held)
    obtain ⟨q, entered⟩ : ∃ q, (s.proc r).enter (fun g => (members g).card)
        (.counted h (prog.free h ((s.proc r).calls.count h + 1))) = some q := by
      simp [Proc.enter, found]
    refine .of_step (a := .lock) (q := q) (.inr goes) rfl ?_
    simp [Proc.appStep, pc, unlocked, goes, entered]
  | beginSpin c v =>
    refine .of_step (a := .wake) (q := { s.proc r with app := .beginLock c }) (.inr goes) rfl ?_
    simp only [Proc.appStep, pc]
    rw [if_neg (changed v (by rw [pc]; rfl))]
  | inCs c =>
    obtain ⟨h, rfl, -, -⟩ := inv.inside c pc
    cases isComplete : s.complete members h ((s.proc r).calls.count h) with
    | true => exact goesOn_of_complete valid reached unlocked pc (.inr isComplete)
    | false => exact inCall h _ pc isComplete
  | finishRead =>
    refine .of_step (a := .readPending)
      (q := { s.proc r with app := if (s.proc r).ckptPending then .finishLock else .finishFrees }) (.inr goes) rfl ?_
    simp only [Proc.appStep, pc]
  | finishLock =>
    refine .of_step (a := .lock) (q := { s.proc r with app := .finishFrees }) (.inr goes) rfl ?_
    simp [Proc.appStep, pc, unlocked, goes]
  | finishSpin v =>
    refine .of_step (a := .wake) (q := { s.proc r with app := .finishLock }) (.inr goes) rfl ?_
    simp only [Proc.appStep, pc]
    rw [if_neg (changed v (by rw [pc]; rfl))]
  | finishFrees =>
    refine .of_step (a := .done) (q := { s.proc r with app := .ready }) (.inr goes) rfl ?_
    simp only [Proc.appStep, pc]

def State.incomplete (members : Gid → Finset (Fin n)) (s : State n) : Set (Gid × Nat) :=
  { call | 1 ≤ call.2 ∧ (∃ q ∈ members call.1, call.2 ≤ (s.proc q).calls.count call.1) ∧
    ∃ q ∈ members call.1, (s.proc q).calls.count call.1 < call.2 }

theorem incomplete_finite : (s.incomplete members).Finite := by
  refine Set.Finite.subset (Finset.finite_toSet (Finset.univ.biUnion (fun q : Fin n =>
    (s.proc q).calls.toFinset ×ˢ Finset.range ((s.proc q).calls.length + 1)))) ?_
  rintro ⟨g, k⟩ ⟨first, ⟨q, -, begun⟩, -⟩
  dsimp only at first begun
  have called : g ∈ (s.proc q).calls := List.count_pos_iff.mp (by omega)
  have bound : (s.proc q).calls.count g ≤ (s.proc q).calls.length := List.count_le_length
  simp only [Finset.coe_biUnion, Set.mem_iUnion, Finset.mem_coe, Finset.mem_product, List.mem_toFinset, Finset.mem_range]
  exact ⟨q, Finset.mem_univ q, called, by omega⟩

/-- A member that has not begun a call which another one has begun knows of it, unless
it is still about to get the communicator. -/
theorem behind_holds_target (valid : prog.Valid members predefined)
    (reached : Reachable (prog.machine members predefined) s) (quiet : Quiet e s) {q q' : Fin n} {k : Nat}
    (first : 1 ≤ k) (ahead : q' ∈ members g) (begun : k ≤ (s.proc q').calls.count g) (member : q ∈ members g)
    (behind : (s.proc q).calls.count g < k) : (s.proc q).mustWait = false ∨ prog.GoesOn members predefined s := by
  have base := CallProgram.reachable_drain reached
  have follows := reachable_follows valid reached
  have inv := reachable_callInv valid reached q
  have inv' := reachable_callInv valid reached q'
  obtain ⟨i, -, call'⟩ := follows.begun first begun
  obtain ⟨j, call⟩ := valid.matched q' i g k call' q member
  have unfreed : g ∉ (s.proc q).freed := not_freed_of_call valid reached call behind
  by_cases held : g ∈ (s.proc q).clocks
  · left
    have held' : g ∈ (s.proc q').clocks := by
      by_contra gone
      have isFreed := (inv'.kept g (by omega)).resolve_left gone
      exact unfreed (decide_eq_true_iff.mp (inv'.erased g gone isFreed) q member)
    obtain ⟨c, found⟩ := isSome_iff_exists.mp (AList.lookup_isSome.mpr held)
    obtain ⟨c', found'⟩ := isSome_iff_exists.mp (AList.lookup_isSome.mpr held')
    have known := (reachable_clockInv base q').known (quiet.pending q') g c' found' (by simp [Proc.unsent, quiet.noRaise])
    have wide : ¬(members g).card ≤ 1 := by
      intro narrow
      have same := Finset.card_le_one.mp narrow q member q' ahead
      subst same
      omega
    simp only [wide, or_false, quiet.attempt] at known
    have seq := (reachable_clockInv base q).counts.held g c found
    have seq' := (reachable_clockInv base q').counts.held g c' found'
    have target : c.seq < c.target := by
      rcases quiet.downloaded q g c found with low | low <;> omega
    rw [Proc.mustWait, (checkSeqNums_eq_false _).mpr ⟨g, c, found, target⟩, Bool.and_false]
  · right
    have holds' : g ∈ (s.proc q').clocks ∨ g ∈ (s.proc q').freed := inv'.kept g (by omega)
    rcases inv'.origin g holds' with isGiven | ⟨h, m, creates', firstM, -, isComplete⟩
    · exact absurd ((inv.given g isGiven member).resolve_right unfreed) held
    · obtain ⟨memberH, creates⟩ := (valid.createMembers q' h m g creates').2 q member
      have lastM := complete_iff.mp isComplete q memberH
      rcases inv.created h m g creates firstM lastM with held' | isFreed | ⟨⟨f, pc⟩, current⟩
      · exact absurd held' held
      · exact absurd isFreed unfreed
      · subst current
        exact goesOn_of_creates valid (quiet.unlocked q) pc isComplete creates held unfreed

/-- A rank that is behind on a call goes on, if the incomplete calls before it do. -/
theorem goesOn_of_incomplete (valid : prog.Valid members predefined) {before : Gid × Nat → Gid × Nat → Prop}
    (ordered : ∀ r i j g k g' k', i < j → prog.IsCall r i g k → prog.IsCall r j g' k' → before (g, k) (g', k'))
    (reached : Reachable (prog.machine members predefined) s) (quiet : Quiet e s) {call : Gid × Nat}
    (incomplete : call ∈ s.incomplete members)
    (earlier : ∀ call' ∈ s.incomplete members, before call' call → prog.GoesOn members predefined s) :
    prog.GoesOn members predefined s := by
  obtain ⟨g, k⟩ := call
  obtain ⟨first, ⟨q', ahead, begun⟩, q, member, behind⟩ := incomplete
  rcases behind_holds_target valid reached quiet first ahead begun member behind with goes | goesOn
  · have follows := reachable_follows valid reached
    obtain ⟨i, -, call'⟩ := follows.begun first begun
    obtain ⟨j, call⟩ := valid.matched q' i g k call' q member
    have coming : (s.proc q).calls.length ≤ j := by
      rw [← Nat.not_lt, follows.isCall_iff call, Nat.not_le]
      exact behind
    obtain ⟨h, next⟩ := valid.contiguous q _ j g coming call.1
    refine goesOn_of_next valid reached (quiet.unlocked q) goes next (fun g₁ f pc isIncomplete => ?_)
    -- The call in which the rank is comes before the one on which it is behind.
    obtain ⟨g₂, same, ⟨rest, calls⟩, -⟩ := (reachable_callInv valid reached q).inside _ pc
    obtain ⟨rfl, -⟩ := Call.counted.inj same
    have counted : 1 ≤ (s.proc q).calls.count g₁ := by simp [calls]
    obtain ⟨i₁, made, inside⟩ := follows.begun counted (Nat.le_refl _)
    have earlierCall := ordered q i₁ j _ _ _ _ (by omega) inside call
    refine earlier _ ⟨counted, ⟨q, (valid.made q i₁ g₁ inside.1).1, Nat.le_refl _⟩, ?_⟩ earlierCall
    by_contra all
    push Not at all
    rw [complete_iff.mpr all] at isIncomplete
    cases isIncomplete
  · exact goesOn

/-- The drain makes no deadlock of its own. -/
theorem drain_makes_no_deadlock (valid : prog.Valid members predefined) {before : Gid × Nat → Gid × Nat → Prop}
    (irrefl : ∀ call, ¬before call call)
    (trans : ∀ call call' call'', before call call' → before call' call'' → before call call'')
    (ordered : ∀ r i j g k g' k', i < j → prog.IsCall r i g k → prog.IsCall r j g' k' → before (g, k) (g', k'))
    (reached : Reachable (prog.machine members predefined) s) {e : Attempt} (quiet : Quiet e s)
    (unfinished : Unfinished s) :
    ∃ r a t, ((s.proc r).app.inSection = true ∨ (s.proc r).mustWait = false) ∧
      (prog.machine members predefined).step s (.app r a) = some t := by
  have order : IsStrictOrder (Gid × Nat) before := { irrefl := irrefl, trans := trans }
  have wellFounded : (s.incomplete members).WellFoundedOn before := incomplete_finite.wellFoundedOn
  by_cases some_ : (s.incomplete members).Nonempty
  · obtain ⟨call, incomplete⟩ := some_
    refine wellFounded.induction incomplete (P := fun _ => prog.GoesOn members predefined s) ?_
    exact fun call incomplete earlier => goesOn_of_incomplete valid ordered reached quiet incomplete earlier
  · have isComplete (g : Gid) (k : Nat) (first : 1 ≤ k) (q : Fin n) (member : q ∈ members g)
        (begun : k ≤ (s.proc q).calls.count g) : s.complete members g k = true := by
      rw [complete_iff]
      intro q' member'
      by_contra behind
      exact some_ ⟨(g, k), first, ⟨q, member, begun⟩, q', member', Nat.lt_of_not_le behind⟩
    have base := CallProgram.reachable_drain reached
    obtain ⟨r, inside | ⟨g, c, found, above⟩⟩ := unfinished
    · cases pc : (s.proc r).app with
      | inCs c =>
        obtain ⟨g, rfl, ⟨rest, calls⟩, -⟩ := (reachable_callInv valid reached r).inside c pc
        have called : g ∈ (s.proc r).calls := by simp [calls]
        have returns := isComplete g _ (List.count_pos_iff.mpr called) r ((reachable_clockInv base r).called g called) le_rfl
        exact goesOn_of_complete valid reached (quiet.unlocked r) pc (.inr returns)
      | _ => simp [pc, AppPc.inSection] at inside
    -- A target is a count that some member has reached, so all of them have.
    · have own := reachable_clockInv base r
      have bounded := (own.target_le (quiet.pending r) (quiet.unlocked r) found).resolve_right (by omega)
      obtain ⟨q, member, begun⟩ := reachable_maxima_begun base _ g c.target (by omega) bounded
      have all := complete_iff.mp (isComplete g c.target (by omega) q member begun) r
        (own.member g (Assoc.mem_of_lookup found))
      rw [← own.counts.held g c found] at all
      omega

end Programs

/-! Two ranks duplicate the world communicator and free the copy. -/

def dupAndFree : CallProgram 2 where
  call := fun _ i => if i = 0 then some 0 else if i = 1 then some 2 else none
  free := fun g k => g = 2 ∧ k = 1
  creates := fun _ g k => if g = 0 ∧ k = 1 then some 2 else none

def worldAndCopy : Gid → Finset (Fin 2) := fun g => if g = 0 ∨ g = 2 then Finset.univ else ∅

theorem dupAndFree_isCall {r : Fin 2} {i : Nat} {g : Gid} {k : Nat} :
    dupAndFree.IsCall r i g k ↔ (i = 0 ∧ g = 0 ∧ k = 1) ∨ (i = 1 ∧ g = 2 ∧ k = 1) := by
  match i with
  | 0 => simp [Program.IsCall, dupAndFree, Program.count, eq_comm]
  | 1 =>
    simp only [Program.IsCall, dupAndFree, Program.count]
    simp +contextual [eq_comm, iff_def]
  | i + 2 => simp [Program.IsCall, dupAndFree]

theorem dupAndFree_valid : dupAndFree.Valid worldAndCopy (· = 0) := by
  have call {r : Fin 2} {i : Nat} {g : Gid} (call : dupAndFree.call r i = some g) : (i = 0 ∧ g = 0) ∨ (i = 1 ∧ g = 2) := by
    have isCall : dupAndFree.IsCall r i g (dupAndFree.count r i g + 1) := ⟨call, rfl⟩
    rw [dupAndFree_isCall] at isCall
    exact isCall.imp (fun first => ⟨first.1, first.2.1⟩) (fun second => ⟨second.1, second.2.1⟩)
  have creates {r : Fin 2} {h g : Gid} {m : Nat} (makes : dupAndFree.creates r h m = some g) : h = 0 ∧ m = 1 ∧ g = 2 := by
    simp only [dupAndFree, ite_none_right_eq_some, some.injEq] at makes
    exact ⟨makes.1.1, makes.1.2, makes.2.symm⟩
  constructor
  case contiguous =>
    intro r i j g le at_
    have inside : i < 2 := by rcases call at_ with ⟨rfl, -⟩ | ⟨rfl, -⟩ <;> omega
    match i, inside with
    | 0, _ => exact ⟨0, rfl⟩
    | 1, _ => exact ⟨2, rfl⟩
  case matched =>
    intro q i g k isCall p _
    exact ⟨i, dupAndFree_isCall.mpr (dupAndFree_isCall.mp isCall)⟩
  case made =>
    intro r i g at_
    rcases call at_ with ⟨rfl, rfl⟩ | ⟨rfl, rfl⟩
    · exact ⟨by simp [worldAndCopy], .inl rfl⟩
    · exact ⟨by simp [worldAndCopy], .inr ⟨0, by omega, 0, 1, dupAndFree_isCall.mpr (by simp), rfl⟩⟩
  case freeLast =>
    intro r i j g k isCall isFree after at_
    simp only [dupAndFree, decide_eq_true_eq] at isFree
    obtain ⟨rfl, rfl⟩ := isFree
    rcases dupAndFree_isCall.mp isCall with ⟨-, zero, -⟩ | ⟨rfl, -, -⟩
    · cases zero
    · rcases call at_ with ⟨-, zero⟩ | ⟨second, -⟩
      · cases zero
      · omega
  case freeOnly =>
    intro r g k isFree
    simp only [dupAndFree, decide_eq_true_eq] at isFree
    simp [dupAndFree, isFree]
  case createMembers =>
    intro r h m g makes
    obtain ⟨rfl, rfl, rfl⟩ := creates makes
    simp [worldAndCopy, dupAndFree]
  case createOnce =>
    intro r h m h' m' g makes makes'
    obtain ⟨rfl, rfl, rfl⟩ := creates makes
    obtain ⟨rfl, rfl, -⟩ := creates makes'
    exact ⟨rfl, rfl⟩
  case createNew =>
    intro r h m g makes
    obtain ⟨rfl, rfl, rfl⟩ := creates makes
    simp

/-- Rank 0 is in the call that rank 1 has yet to begin when both have the targets. -/
theorem drain_makes_no_deadlock_two_ranks : ∃ s, Reachable (dupAndFree.machine worldAndCopy (· = 0)) s ∧
    (s.proc 0).app = .inCs (.counted 0 false) ∧ (s.proc 1).calls = [] ∧
    ∃ r a t, ((s.proc r).app.inSection = true ∨ (s.proc r).mustWait = false) ∧
      (dupAndFree.machine worldAndCopy (· = 0)).step s (.app r a) = some t := by
  have first : (dupAndFree.machine worldAndCopy (· = 0)).initial twoRanks := by
    refine ⟨⟨rfl, fun r => ⟨_, rfl, fun g c found => ?_⟩⟩, fun r g => ?_⟩
    · rw [Assoc.lookup_insert_eq] at found
      split at found
      · next world => simp_all [worldAndCopy]
      · simp at found
    · simp only [twoRanks, Proc.initial, AList.mem_insert, AList.notMem_empty, or_false]
      exact ⟨fun world => ⟨world, by simp [worldAndCopy, world]⟩, fun given => given.1⟩
  have ran : (((dupAndFree.machine worldAndCopy (· = 0)).run twoRanks (callActions 0 ++ shareActions)).map (fun s =>
      ((s.proc 0).app, (s.proc 1).calls, decide (∀ r, (s.proc r).ckptPending = true ∧ (s.proc r).lockHeld = false ∧
        (s.proc r).attempt = ⟨1, 0⟩ ∧ (s.proc r).raisedClocks = [] ∧
          (s.proc r).clocks.entries.all (fun c => decide (seqMax s.kvdb ⟨1, 0⟩ c.1 ≤ c.2.target)))))) =
        some (.inCs (.counted 0 false), [], true) := by
    decide +kernel
  obtain ⟨s, ran, ends⟩ := map_eq_some_iff.mp ran
  simp only [Prod.mk.injEq, decide_eq_true_eq] at ends
  obtain ⟨inside, calls, all⟩ := ends
  have reached := (Reachable.start first).run ran
  have quiet : Quiet ⟨1, 0⟩ s := by
    refine ⟨fun r => (all r).1, fun r => (all r).2.1, fun r => (all r).2.2.1, fun r g c found => ?_, fun r => (all r).2.2.2.1⟩
    have known := (Assoc.all_entries _ (fun g c => decide (seqMax s.kvdb ⟨1, 0⟩ g ≤ CommClock.target c))).mp
      (all r).2.2.2.2
    exact .inl (decide_eq_true_iff.mp (known g c found))
  refine ⟨s, reached, inside, calls, @drain_makes_no_deadlock _ _ _ _ _ dupAndFree_valid
    (fun call call' => call.1 < call'.1) (fun call => Nat.lt_irrefl _) (fun _ _ _ => Nat.lt_trans) ?_ reached _ quiet
    ⟨0, .inl (by rw [inside]; rfl)⟩⟩
  intro r i j g k g' k' earlier call call'
  rcases dupAndFree_isCall.mp call with ⟨rfl, rfl, -⟩ | ⟨rfl, rfl, -⟩ <;>
    rcases dupAndFree_isCall.mp call' with ⟨rfl, rfl, -⟩ | ⟨rfl, rfl, -⟩
  · omega
  · exact Nat.two_pos
  · omega
  · omega

end Mana.Collective
