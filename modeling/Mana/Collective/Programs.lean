import Mana.Collective.Needed

/-! Programs of counted blocking collective calls, run by the application threads of
the drain's machine. -/

namespace Mana.Collective
open Mana.Lib Option

/-- What the calls do, each named by its gid and its number on it: the `MPI_Comm_free`
calls, and the communicator that a call makes for a rank. -/
structure CallProgram (n : Nat) extends Program n where
  free : Gid → Nat → Bool
  creates : Fin n → Gid → Nat → Option Gid

def State.complete {n : Nat} (members : Gid → Finset (Fin n)) (s : State n) (g : Gid) (k : Nat) : Bool :=
  decide (∀ q ∈ members g, k ≤ (s.proc q).calls.count g)

namespace CallProgram
variable {n : Nat}

/-- A correct MPI program: all members make a call, a communicator is used only after
it was made and until it is freed, and one call makes it for all its members. -/
structure Valid (prog : CallProgram n) (members : Gid → Finset (Fin n)) (predefined : Gid → Prop) : Prop where
  contiguous : ∀ r i j g, i ≤ j → prog.call r j = some g → ∃ g', prog.call r i = some g'
  matched : prog.Matched members
  made : ∀ r i g, prog.call r i = some g → r ∈ members g ∧
    (predefined g ∨ ∃ j < i, ∃ h m, prog.IsCall r j h m ∧ prog.creates r h m = some g)
  freeLast : ∀ r i j g k, prog.IsCall r i g k → prog.free g k = true → i < j → prog.call r j ≠ some g
  freeOnly : ∀ r g k, prog.free g k = true → prog.creates r g k = none
  createMembers : ∀ r h m g, prog.creates r h m = some g →
    r ∈ members g ∧ ∀ q ∈ members g, q ∈ members h ∧ prog.creates q h m = some g
  createOnce : ∀ r h m h' m' g, prog.creates r h m = some g → prog.creates r h' m' = some g → h = h' ∧ m = m'
  createNew : ∀ r h m g, prog.creates r h m = some g → ¬predefined g

variable (prog : CallProgram n) (members : Gid → Finset (Fin n)) (predefined : Gid → Prop)

/-- What the program, and MPI, let the application thread of a rank do. -/
def allowsApp (complete : Gid → Nat → Bool) (r : Fin n) (p : Proc) : AppAct → Bool
  | .call (.counted g free) =>
      decide (prog.call r p.calls.length = some g) && decide (free = prog.free g (p.calls.count g + 1))
  | .call .uncounted => false
  -- A call returns once all members have begun it, MPI_Comm_free at once.
  | .finish =>
      match p.app with
      | .inCs (.counted g free) =>
          (free || complete g (p.calls.count g)) &&
            (prog.creates r g (p.calls.count g)).all (fun g' => decide (g' ∈ p.clocks))
      | _ => false
  | .addClock g' =>
      match p.app with
      | .inCs (.counted g _) => decide (prog.creates r g (p.calls.count g) = some g') && complete g (p.calls.count g)
      | _ => false
  | _ => true

def allows (s : State n) : Action n → Bool
  | .app r a => prog.allowsApp (s.complete members) r (s.proc r) a
  | _ => true

def machine : Machine (State n) (Action n) where
  initial s := Initial members s ∧ ∀ r g, g ∈ (s.proc r).clocks ↔ predefined g ∧ r ∈ members g
  step s a := if prog.allows members s a then step members s a else none

variable {prog members predefined} {s t : State n}

theorem step_iff {a : Action n} : (prog.machine members predefined).step s a = some t ↔
    prog.allows members s a = true ∧ step members s a = some t := by
  simp only [machine, ite_none_right_eq_some]

theorem reachable_drain (reached : Reachable (prog.machine members predefined) s) :
    Reachable (Mana.Collective.machine members) s := by
  induction reached with
  | start first => exact .start first.1
  | next before taken ih => exact .next ih (step_iff.mp taken).2

end CallProgram

structure CallInv {n : Nat} (prog : CallProgram n) (members : Gid → Finset (Fin n)) (predefined : Gid → Prop)
    (complete : Gid → Nat → Bool) (allFreed : Gid → Bool) (r : Fin n) (p : Proc) : Prop where
  follows : ∀ i g, p.calls[i]? = some g → prog.call r i = some g
  begins : ∀ c, (p.app = .beginLock c ∨ ∃ v, p.app = .beginSpin c v) →
    ∃ g, c = .counted g (prog.free g (p.calls.count g + 1)) ∧ prog.call r p.calls.length = some g ∧
      g ∈ p.clocks ∧ g ∉ p.freed
  inside : ∀ c, p.app = .inCs c → ∃ g, c = .counted g (prog.free g (p.calls.count g)) ∧
    (∃ before, p.calls = before ++ [g]) ∧ ∀ g', prog.creates r g (p.calls.count g) = some g' → g' ∉ p.freed
  freed : ∀ g ∈ p.freed, 1 ≤ p.calls.count g ∧ prog.free g (p.calls.count g) = true
  kept : ∀ g, 1 ≤ p.calls.count g → g ∈ p.clocks ∨ g ∈ p.freed
  created : ∀ h m g, prog.creates r h m = some g → 1 ≤ m → m ≤ p.calls.count h →
    g ∈ p.clocks ∨ g ∈ p.freed ∨ (∃ f, p.app = .inCs (.counted h f)) ∧ m = p.calls.count h
  given : ∀ g, predefined g → r ∈ members g → g ∈ p.clocks ∨ g ∈ p.freed
  origin : ∀ g, g ∈ p.clocks ∨ g ∈ p.freed →
    predefined g ∨ ∃ h m, prog.creates r h m = some g ∧ 1 ≤ m ∧ m ≤ p.calls.count h ∧ complete h m = true
  erased : ∀ g, g ∉ p.clocks → g ∈ p.freed → allFreed g = true

section CallInv
variable {n : Nat} {prog : CallProgram n} {members : Gid → Finset (Fin n)} {predefined : Gid → Prop}
  {complete complete' : Gid → Nat → Bool} {allFreed allFreed' : Gid → Bool} {r : Fin n} {p q : Proc}

theorem callInv_initial {clocks : Clocks} (given : ∀ g, g ∈ clocks ↔ predefined g ∧ r ∈ members g) :
    CallInv prog members predefined complete allFreed r (Proc.initial clocks) where
  follows := by simp [Proc.initial]
  begins := by simp [Proc.initial]
  inside := by simp [Proc.initial]
  freed := by simp [Proc.initial]
  kept := by simp [Proc.initial]
  created := fun h m g _ first last => by simp [Proc.initial] at last; omega
  given := fun g isGiven member => .inl ((given g).mpr ⟨isGiven, member⟩)
  origin := fun g held => .inl ((given g).mp (by simpa [Proc.initial] using held)).1
  erased := by simp [Proc.initial]

theorem CallInv.congr (inv : CallInv prog members predefined complete allFreed r p) (app : q.app = p.app)
    (calls : q.calls = p.calls) (freed : q.freed = p.freed) (clocks : ∀ g, g ∈ q.clocks ↔ g ∈ p.clocks)
    (more : ∀ g k, complete g k = true → complete' g k = true) (all : ∀ g, allFreed g = true → allFreed' g = true) :
    CallInv prog members predefined complete' allFreed' r q := by
  constructor
  case follows => rw [calls]; exact inv.follows
  case begins => simp only [app, calls, clocks, freed]; exact inv.begins
  case inside => simp only [app, calls, freed]; exact inv.inside
  case freed => rw [calls, freed]; exact inv.freed
  case kept => simp only [calls, clocks, freed]; exact inv.kept
  case created => simp only [app, calls, clocks, freed]; exact inv.created
  case given => simp only [clocks, freed]; exact inv.given
  case origin =>
    simp only [calls, clocks, freed]
    intro g held
    rcases inv.origin g held with isGiven | ⟨h, m, creates, first, last, isComplete⟩
    · exact .inl isGiven
    · exact .inr ⟨h, m, creates, first, last, more h m isComplete⟩
  case erased => simp only [clocks, freed]; exact fun g gone isFreed => all g (inv.erased g gone isFreed)

theorem CallInv.erase (inv : CallInv prog members predefined complete allFreed r p) {g : Gid} (isFreed : g ∈ p.freed)
    (all : allFreed g = true) :
    CallInv prog members predefined complete allFreed r { p with clocks := p.clocks.erase g } := by
  have still : ∀ g', g' ∈ p.clocks → g' ∈ p.clocks.erase g ∨ g' ∈ p.freed := by
    intro g' held
    by_cases own : g' = g
    · exact .inr (own ▸ isFreed)
    · exact .inl (AList.mem_erase.mpr ⟨own, held⟩)
  constructor
  case follows => exact inv.follows
  case begins =>
    intro c begins
    obtain ⟨g', counted, call, held, unfreed⟩ := inv.begins c begins
    exact ⟨g', counted, call, (still g' held).resolve_right unfreed, unfreed⟩
  case inside => exact inv.inside
  case freed => exact inv.freed
  case kept => exact fun g' called => (inv.kept g' called).elim (still g') .inr
  case created =>
    intro h m g' creates first last
    rcases inv.created h m g' creates first last with held | rest
    · exact (still g' held).imp_right .inl
    · exact .inr rest
  case given => exact fun g' isGiven member => (inv.given g' isGiven member).elim (still g') .inr
  case origin =>
    intro g' held
    exact inv.origin g' (held.imp_left (fun held => (AList.mem_erase.mp held).2))
  case erased =>
    intro g' gone isFreed'
    by_cases own : g' = g
    · exact own ▸ all
    · exact inv.erased g' (fun held => gone (AList.mem_erase.mpr ⟨own, held⟩)) isFreed'

theorem CallInv.relocate (inv : CallInv prog members predefined complete allFreed r p) (phase : Phase) (app : AppPc)
    (out : app.inSection = false)
    (begins : ∀ c, (app = .beginLock c ∨ ∃ v, app = .beginSpin c v) →
      ∃ g, c = .counted g (prog.free g (p.calls.count g + 1)) ∧ prog.call r p.calls.length = some g ∧
        g ∈ p.clocks ∧ g ∉ p.freed)
    (left : ∀ h f g, p.app = .inCs (.counted h f) → prog.creates r h (p.calls.count h) = some g → g ∈ p.clocks) :
    CallInv prog members predefined complete allFreed r { p with currentPhase := phase, app := app } where
  follows := inv.follows
  begins := begins
  inside := fun c inside => by
    dsimp only at inside
    rw [inside] at out
    cases out
  freed := inv.freed
  kept := inv.kept
  created := fun h m g creates first last => by
    rcases inv.created h m g creates first last with held | isFreed | ⟨⟨f, inside⟩, current⟩
    · exact .inl held
    · exact .inr (.inl isFreed)
    · exact .inl (left h f g inside (current ▸ creates))
  given := inv.given
  origin := inv.origin
  erased := inv.erased

theorem CallInv.enter (inv : CallInv prog members predefined complete allFreed r p)
    (valid : prog.Valid members predefined) {size : Gid → Nat} {c : Call} (pc : p.app = .beginLock c)
    (entered : p.enter size c = some q) : CallInv prog members predefined complete allFreed r q := by
  obtain ⟨g, rfl, call, held, unfreed⟩ := inv.begins c (.inl pc)
  obtain ⟨clock, -, rfl⟩ := Proc.enter_counted entered
  have count (h : Gid) : (p.calls ++ [g]).count h = p.calls.count h + if g = h then 1 else 0 := by
    rw [List.count_append, List.count_singleton]
    simp only [beq_iff_eq]
  have insert (h : Gid) : h ∈ p.clocks.insert g (clock.count p.ckptPending) ↔ h = g ∨ h ∈ p.clocks := AList.mem_insert _
  have freed (h : Gid) : h ∈ (if prog.free g (p.calls.count g + 1) = true then g :: p.freed else p.freed) ↔
      (h = g ∧ prog.free g (p.calls.count g + 1) = true) ∨ h ∈ p.freed := by
    split
    · next isFree => simp [isFree]
    · next isFree => simp [isFree]
  constructor
  case follows =>
    intro i h found
    rcases Nat.lt_trichotomy i p.calls.length with before | last | past
    · rw [List.getElem?_append_left before] at found
      exact inv.follows i h found
    · rw [last, List.getElem?_concat_length, some.injEq] at found
      rw [last, ← found]
      exact call
    · rw [List.getElem?_eq_none (by simpa using Nat.succ_le_of_lt past)] at found
      cases found
  case begins => simp
  case inside =>
    rintro c inside
    obtain rfl := AppPc.inCs.inj inside
    refine ⟨g, by simp, ⟨p.calls, rfl⟩, fun g' creates isFreed => ?_⟩
    rw [count, if_pos rfl] at creates
    rcases (freed g').mp isFreed with ⟨-, isFree⟩ | isFreed
    · rw [valid.freeOnly r g _ isFree] at creates
      cases creates
    -- A gid is made once, so the rank cannot have freed one that this call makes.
    · rcases inv.origin g' (.inr isFreed) with isGiven | ⟨h, m, creates', -, last, -⟩
      · exact valid.createNew r g _ g' creates isGiven
      · obtain ⟨rfl, rfl⟩ := valid.createOnce r h m g _ g' creates' creates
        omega
  case freed =>
    intro h isFreed
    rw [count]
    rcases (freed h).mp isFreed with ⟨rfl, isFree⟩ | isFreed
    · rw [if_pos rfl]
      exact ⟨by omega, isFree⟩
    · have other : g ≠ h := fun same => unfreed (same ▸ isFreed)
      rw [if_neg other]
      exact inv.freed h isFreed
  case kept =>
    intro h called
    rw [count] at called
    rw [insert, freed]
    by_cases own : g = h
    · exact .inl (.inl own.symm)
    · rw [if_neg own] at called
      exact (inv.kept h called).imp .inr .inr
  case created =>
    intro h m g' creates first last
    rw [count] at last
    rw [insert, freed, count]
    by_cases old : m ≤ p.calls.count h
    · rcases inv.created h m g' creates first old with held | isFreed | ⟨⟨f, inside⟩, -⟩
      · exact .inl (.inr held)
      · exact .inr (.inl (.inr isFreed))
      · rw [pc] at inside
        cases inside
    · by_cases own : g = h
      · subst own
        rw [if_pos rfl] at last ⊢
        exact .inr (.inr ⟨⟨_, rfl⟩, by omega⟩)
      · rw [if_neg own] at last
        omega
  case given =>
    intro h isGiven member
    rw [insert, freed]
    exact (inv.given h isGiven member).imp .inr .inr
  case origin =>
    intro h holds
    rw [insert, freed] at holds
    have old : h ∈ p.clocks ∨ h ∈ p.freed := by
      rcases holds with (rfl | held) | ⟨rfl, -⟩ | isFreed
      · exact .inl held
      · exact .inl held
      · exact .inl held
      · exact .inr isFreed
    rcases inv.origin h old with isGiven | ⟨h', m, creates, first, last, isComplete⟩
    · exact .inl isGiven
    · refine .inr ⟨h', m, creates, first, ?_, isComplete⟩
      rw [count]
      omega
  case erased =>
    intro h gone isFreed
    rw [insert] at gone
    rcases (freed h).mp isFreed with ⟨rfl, -⟩ | isFreed
    · exact absurd (.inl rfl) gone
    · exact inv.erased h (fun held => gone (.inr held)) isFreed

theorem CallInv.addCommClock (inv : CallInv prog members predefined complete allFreed r p) {g g' : Gid} {free : Bool}
    (pc : p.app = .inCs (.counted g free)) (creates : prog.creates r g (p.calls.count g) = some g')
    (isComplete : complete g (p.calls.count g) = true) :
    CallInv prog members predefined complete allFreed r (p.addCommClock g') := by
  have insert (h : Gid) : h ∈ (p.addCommClock g').clocks ↔ h = g' ∨ h ∈ p.clocks := AList.mem_insert _
  constructor
  case follows => exact inv.follows
  case begins => simp [Proc.addCommClock, pc]
  case inside => exact inv.inside
  case freed => exact inv.freed
  case kept => exact fun h called => (inv.kept h called).imp_left (fun held => (insert h).mpr (.inr held))
  case created =>
    exact fun h m k makes first last => (inv.created h m k makes first last).imp_left (fun held => (insert k).mpr (.inr held))
  case given => exact fun h isGiven member => (inv.given h isGiven member).imp_left (fun held => (insert h).mpr (.inr held))
  case origin =>
    intro h holds
    rw [insert] at holds
    rcases holds with (rfl | held) | isFreed
    · obtain ⟨g₁, same, ⟨before, calls⟩, -⟩ := inv.inside _ pc
      cases same
      exact .inr ⟨g, _, creates, by simp [calls], le_refl _, isComplete⟩
    · exact inv.origin h (.inl held)
    · exact inv.origin h (.inr isFreed)
  case erased => exact fun h gone isFreed => inv.erased h (fun held => gone ((insert h).mpr (.inr held))) isFreed

theorem CallInv.appStep (inv : CallInv prog members predefined complete allFreed r p)
    (valid : prog.Valid members predefined) (member : ∀ g ∈ p.clocks, r ∈ members g)
    (freed : ∀ g, allFreed g = true → r ∈ members g → g ∈ p.freed) {size : Gid → Nat} {mayAdd : Gid → Bool} {a : AppAct}
    (allowed : prog.allowsApp complete r p a = true) (taken : AppStep size mayAdd allFreed p a q) :
    CallInv prog members predefined complete allFreed r q := by
  have outside {app : AppPc} (out : app.inSection = false) (pc : p.app = app) (h : Gid) (f : Bool) (g : Gid)
      (inside : p.app = .inCs (.counted h f)) (_ : prog.creates r h (p.calls.count h) = some g) : g ∈ p.clocks := by
    rw [pc] at inside
    subst inside
    cases out
  cases taken with
  | call c pc live =>
    cases c with
    | uncounted => cases allowed
    | counted g free =>
      simp only [CallProgram.allowsApp, Bool.and_eq_true, decide_eq_true_eq] at allowed
      refine inv.relocate p.currentPhase _ rfl (fun c' begins => ?_) (outside rfl pc)
      simp only [AppPc.beginLock.injEq, reduceCtorEq, exists_false, or_false] at begins
      exact ⟨g, by rw [← begins, allowed.2], allowed.1, live g free rfl⟩
  | wait c pc =>
    refine inv.relocate p.currentPhase _ rfl (fun c' begins => ?_) (outside rfl pc)
    simp only [reduceCtorEq, AppPc.beginSpin.injEq, false_or] at begins
    obtain ⟨v, rfl, -⟩ := begins
    exact inv.begins c (.inl pc)
  | enter c pc unlocked goes entered => exact inv.enter valid pc entered
  | wake c v pc =>
    refine inv.relocate p.currentPhase _ rfl (fun c' begins => ?_) (outside rfl pc)
    simp only [AppPc.beginLock.injEq, reduceCtorEq, exists_false, or_false] at begins
    exact begins ▸ inv.begins c (.inr ⟨v, pc⟩)
  | add g' c pc =>
    cases c with
    | uncounted => simp [CallProgram.allowsApp, pc] at allowed
    | counted g free =>
      simp only [CallProgram.allowsApp, pc, Bool.and_eq_true, decide_eq_true_eq] at allowed
      exact inv.addCommClock pc allowed.1 allowed.2
  | finish pc =>
    refine inv.relocate .isReady _ rfl (by simp) (fun h f g inside creates => ?_)
    simp only [CallProgram.allowsApp, inside, creates, Bool.and_eq_true, all_some, decide_eq_true_eq] at allowed
    exact allowed.2
  | readPending pc | finishLock pc =>
    refine inv.relocate p.currentPhase _ ?_ ?_ (outside rfl pc)
    · split <;> rfl
    · split <;> simp
  | finishWake v pc | done pc => exact inv.relocate p.currentPhase _ rfl (by simp) (outside rfl pc)
  | erase g pc unlocked may present => exact inv.erase (freed g may (member g present)) may

end CallInv

section Programs
variable {n : Nat} {prog : CallProgram n} {members : Gid → Finset (Fin n)} {predefined : Gid → Prop} {s t : State n}

variable {a : Action n} {g : Gid} {k : Nat} {r : Fin n}

theorem complete_iff :
    s.complete members g k = true ↔ ∀ q ∈ members g, k ≤ (s.proc q).calls.count g := decide_eq_true_iff

theorem complete_step (taken : step members s a = some t) (g : Gid) (k : Nat)
    (isComplete : s.complete members g k = true) : t.complete members g k = true := by
  rw [complete_iff] at *
  exact fun q member => (isComplete q member).trans ((step_extends taken q).calls.sublist.count_le g)

theorem allFreed_step (taken : step members s a = some t) (g : Gid) (all : s.allFreed members g = true) :
    t.allFreed members g = true := by
  simp only [State.allFreed, decide_eq_true_eq] at *
  exact fun q member => (step_extends taken q).freed (all q member)

theorem reachable_callInv (valid : prog.Valid members predefined) (reached : Reachable (prog.machine members predefined) s)
    (r : Fin n) : CallInv prog members predefined (s.complete members) (s.allFreed members) r (s.proc r) := by
  revert r
  refine reached.invariant
    (fun s => ∀ r, CallInv prog members predefined (s.complete members) (s.allFreed members) r (s.proc r)) ?_ ?_
  · rintro s ⟨⟨-, procs⟩, given⟩ r
    obtain ⟨clocks, proc, -⟩ := procs r
    have held := given r
    rw [proc] at held ⊢
    exact callInv_initial held
  · intro s a t before inv taken
    obtain ⟨allowed, taken⟩ := CallProgram.step_iff.mp taken
    have member (r : Fin n) := (reachable_clockInv (CallProgram.reachable_drain before) r).member
    have freed (r : Fin n) (g : Gid) (all : s.allFreed members g = true) (isMember : r ∈ members g) :
        g ∈ (s.proc r).freed := decide_eq_true_iff.mp all r isMember
    have grow {r : Fin n} {p : Proc}
        (inv : CallInv prog members predefined (s.complete members) (s.allFreed members) r p) :
        CallInv prog members predefined (t.complete members) (t.allFreed members) r p :=
      inv.congr rfl rfl rfl (fun g => Iff.rfl) (complete_step taken) (allFreed_step taken)
    have update (r : Fin n) {p : Proc}
        (new : CallInv prog members predefined (s.complete members) (s.allFreed members) r p)
        (r' : Fin n) : CallInv prog members predefined (t.complete members) (t.allFreed members) r'
          (Function.update s.proc r p r') :=
      (Function.forall_update_iff s.proc (fun r' p =>
        CallInv prog members predefined (t.complete members) (t.allFreed members) r' p)).mpr
        ⟨grow new, fun r' _ => grow (inv r')⟩ r'
    cases a with
    | app r a =>
      simp only [step, map_eq_some_iff] at taken
      obtain ⟨q, moved, rfl⟩ := taken
      exact update r ((inv r).appStep valid (member r) (freed r · · ·) allowed (Proc.appStep_cases moved))
    | ckpt r =>
      simp only [step, map_eq_some_iff] at taken
      obtain ⟨⟨q, kv⟩, moved, rfl⟩ := taken
      have moved := Proc.ckptStep_move moved
      exact update r ((inv r).congr moved.app_eq.1 moved.app_eq.2.1 moved.app_eq.2.2 moved.mem_clocks
        (fun _ _ isComplete => isComplete) (fun _ all => all))
    | completeFree r g =>
      simp only [step, ite_none_right_eq_some, some.injEq] at taken
      obtain ⟨⟨-, all, held⟩, rfl⟩ := taken
      exact update r ((inv r).erase (freed r g all (member r g held)) all)
    | release b =>
      simp only [step, ite_none_right_eq_some, some.injEq] at taken
      obtain ⟨-, rfl⟩ := taken
      exact fun r => (inv r).congr rfl rfl rfl (fun g => Iff.rfl) (fun _ _ isComplete => isComplete) (fun _ all => all)

/-! The calls of a rank, and its place among them. -/

theorem Program.Follows.isCall_iff {prog : Program n} (follows : prog.Follows s) {i : Nat} (call : prog.IsCall r i g k) :
    i < (s.proc r).calls.length ↔ k ≤ (s.proc r).calls.count g := by
  have total := follows.count_eq r g (Nat.le_refl (s.proc r).calls.length)
  rw [List.take_length] at total
  obtain ⟨at_, number⟩ := call
  rw [← total]
  constructor
  · intro before
    have counted := prog.count_mono r g (i := i + 1) (j := (s.proc r).calls.length) before
    rw [Program.count_succ, if_pos at_] at counted
    omega
  · intro begun
    by_contra past
    have counted := prog.count_mono r g (i := (s.proc r).calls.length) (j := i) (by omega)
    omega

theorem Program.Follows.begun {prog : Program n} (follows : prog.Follows s) (first : 1 ≤ k)
    (last : k ≤ (s.proc r).calls.count g) : ∃ i < (s.proc r).calls.length, prog.IsCall r i g k := by
  obtain ⟨i, call⟩ := follows.isCall r g first last
  exact ⟨i, (follows.isCall_iff call).mpr last, call⟩

theorem reachable_follows (valid : prog.Valid members predefined)
    (reached : Reachable (prog.machine members predefined) s) : prog.Follows s :=
  fun r => (reachable_callInv valid reached r).follows

theorem not_freed_of_call (valid : prog.Valid members predefined)
    (reached : Reachable (prog.machine members predefined) s) {j : Nat} (call : prog.IsCall r j g k)
    (coming : (s.proc r).calls.count g < k) : g ∉ (s.proc r).freed := by
  intro isFreed
  have follows := reachable_follows valid reached
  obtain ⟨first, isFree⟩ := (reachable_callInv valid reached r).freed g isFreed
  obtain ⟨i, before, freeing⟩ := follows.begun first (Nat.le_refl _)
  have after : (s.proc r).calls.length ≤ j := by
    rw [← Nat.not_lt, follows.isCall_iff call]
    omega
  exact valid.freeLast r i j g _ freeing isFree (by omega) call.1

theorem next_call_live (valid : prog.Valid members predefined) (reached : Reachable (prog.machine members predefined) s)
    (out : (s.proc r).app.inSection = false) (call : prog.call r (s.proc r).calls.length = some g) :
    g ∈ (s.proc r).clocks ∧ g ∉ (s.proc r).freed := by
  have follows := reachable_follows valid reached
  have inv := reachable_callInv valid reached r
  have unfreed : g ∉ (s.proc r).freed := by
    have next : prog.IsCall r (s.proc r).calls.length g _ := ⟨call, rfl⟩
    refine not_freed_of_call valid reached next ?_
    rw [follows.count_eq r g (Nat.le_refl _), List.take_length]
    omega
  obtain ⟨member, isGiven | ⟨j, before, h, m, making, creates⟩⟩ := valid.made r _ g call
  · exact ⟨(inv.given g isGiven member).resolve_right unfreed, unfreed⟩
  · have first : 1 ≤ m := by
      rw [making.2]
      omega
    rcases inv.created h m g creates first ((follows.isCall_iff making).mp before) with held | isFreed | ⟨⟨f, inside⟩, -⟩
    · exact ⟨held, unfreed⟩
    · exact absurd isFreed unfreed
    · rw [inside] at out
      cases out

end Programs

end Mana.Collective
