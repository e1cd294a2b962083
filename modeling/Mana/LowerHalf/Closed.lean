import Mana.LowerHalf.Gate

/-! While the lower half is closed, no thread passes the entry check of an outermost section. So the
threads that the checkpoint thread has seen outside, or in a blocking call, stay so. -/

namespace Mana.LowerHalf
open Mana.Lib Option Function

def Thread.Placed (th : Thread) : Prop :=
  match th.pc with
  | .run => th.depth = th.past ∧ (0 < th.past → th.registered = true)
  | .lockToLink | .link | .unlockUnlinked => th.depth = 0 ∧ th.past = 0 ∧ th.registered = false
  | .unlockLinked | .lockToUnlink | .unlink | .sleep | .stepIn => th.depth = 0 ∧ th.past = 0 ∧ th.registered = true
  | .storeDepth => th.depth = th.past ∧ th.registered = true
  | .loadClosed | .slowPath => th.depth = th.past + 1 ∧ th.registered = true
  | .loopClosed | .stepOut => th.depth = 1 ∧ th.past = 0 ∧ th.registered = true

def Pc.holdsLock : Pc → Bool
  | .link | .unlockLinked | .unlink | .unlockUnlinked => true
  | _ => false

def CkptPc.walking {ι : Type} : CkptPc ι → Option (Bool × List ι)
  | .walk skipBlocked rest => some (skipBlocked, rest)
  | .testBlocked rest => some (true, rest)
  | _ => none

def CkptPc.afterClose {ι : Type} : CkptPc ι → Bool
  | .membarrier _ | .lock _ | .walk _ _ | .testBlocked _ => true
  | _ => false

def Thread.Clear (skipBlocked : Bool) (th : Thread) : Prop := 0 < th.past → skipBlocked = true ∧ th.marked = true

structure Thread.Later (th th' : Thread) : Prop where
  inside : 0 < th'.past → 0 < th.past ∧ th'.entered = th.entered
  marked : th.marked = true → th'.marked = true

structure GateSound {ι : Type} (me : ι) (s : Gate ι) : Prop where
  placed : ∀ t, (s.thread t).Placed
  blocking : ∀ t, (s.thread t).inBlockingCall = true → 0 < (s.thread t).past
  listed : ∀ t, t ∈ s.threads ↔ (s.thread t).registered = true
  locked : ∀ t, (s.thread t).pc.holdsLock = true → s.threadsLock = some (.thread t)
  walker : s.ckpt.walking.isSome = true → s.threadsLock = some .walker
  closing : ∀ t, s.closingThread = some t → t = me
  closed : s.ckpt.afterClose = true ∨ s.emptied = true ∨ s.parted = true → s.closed = true
  opening : s.ckpt = .storeOpen → s.emptied = false ∧ s.parted = false
  entered : ∀ t, 0 < (s.thread t).past → (s.thread t).entered ≤ s.closings
  before : s.closed = true → ∀ t, t ≠ me → 0 < (s.thread t).past → (s.thread t).entered < s.closings
  marked : s.closed = true → ∀ t, (s.thread t).inBlockingCall = true → (s.thread t).marked = true
  walked : ∀ skipBlocked rest, s.ckpt.walking = some (skipBlocked, rest) →
    ∀ t ∈ s.threads, t ≠ me → t ∉ rest → (s.thread t).Clear skipBlocked
  emptied : s.emptied = true → ∀ t, t ≠ me → (s.thread t).Clear false
  parted : s.parted = true → ∀ t, t ≠ me → (s.thread t).Clear true

section Threads

variable {ι : Type} {me : ι} {s s' : Gate ι} {i : ι} {th th' : Thread}

theorem Thread.Placed.le (placed : th.Placed) : th.past ≤ th.depth := by
  unfold Thread.Placed at placed
  split at placed <;> omega

theorem Thread.Placed.registered (placed : th.Placed) (inside : 0 < th.past) : th.registered = true := by
  unfold Thread.Placed at placed
  split at placed
  · exact placed.2 inside
  all_goals first | exact placed.2 | exact placed.2.2 | omega

theorem Thread.Later.refl (th : Thread) : th.Later th := ⟨fun inside => ⟨inside, rfl⟩, fun marked => marked⟩

theorem Thread.Clear.later {skipBlocked : Bool} (clear : th.Clear skipBlocked) (later : th.Later th') :
    th'.Clear skipBlocked := by
  intro inside
  obtain ⟨isSkip, marked⟩ := clear (later.inside inside).1
  exact ⟨isSkip, later.marked marked⟩

theorem CkptPc.afterClose_of_walking {pc : CkptPc ι} (walking : pc.walking.isSome = true) : pc.afterClose = true := by
  cases pc <;> first | rfl | cases walking

theorem GateSound.initial : GateSound me (.initial ι) where
  placed := fun _ => ⟨rfl, fun _ => by contradiction⟩
  blocking := nofun
  listed := fun _ => iff_of_false List.not_mem_nil Bool.false_ne_true
  locked := nofun
  walker := nofun
  closing := nofun
  closed := by rintro (h | h | h) <;> cases h
  opening := nofun
  entered := fun _ inside => absurd inside (Nat.lt_irrefl 0)
  before := nofun
  marked := nofun
  walked := nofun
  emptied := nofun
  parted := nofun

theorem GateSound.not_walking (sound : GateSound me s) (lock : s.threadsLock ≠ some .walker) : s.ckpt.walking = none := by
  cases walking : s.ckpt.walking with
  | none => rfl
  | some rest => exact absurd (sound.walker (walking ▸ rfl)) lock

theorem Gate.free_of_locked (isLocked : s.threadsLock = some (.thread i)) (t : ι) (differs : t ≠ i) :
    s.threadsLock ≠ some (.thread t) := by
  rw [isLocked]
  rintro ⟨⟩
  exact differs rfl

variable [DecidableEq ι]

theorem GateSound.change (sound : GateSound me s) (thread : s'.thread = update s.thread i th')
    (same : s'.closed = s.closed ∧ s'.closingThread = s.closingThread ∧ s'.ckpt = s.ckpt ∧ s'.closings = s.closings ∧
      s'.emptied = s.emptied ∧ s'.parted = s.parted)
    (placed : th'.Placed) (blocking : th'.inBlockingCall = true → 0 < th'.past)
    (listed : ∀ t, t ∈ s'.threads ↔ (s'.thread t).registered = true)
    (locked : ∀ t, (s'.thread t).pc.holdsLock = true → s'.threadsLock = some (.thread t))
    (walker : s.ckpt.walking.isSome = true → s'.threadsLock = some .walker ∧ s'.threads = s.threads)
    (entered : 0 < th'.past → th'.entered ≤ s.closings)
    (later : s.closed = true → i ≠ me → (s.thread i).Later th')
    (marked : s.closed = true → th'.inBlockingCall = true → th'.marked = true) : GateSound me s' := by
  obtain ⟨sameClosed, sameClosing, sameCkpt, sameClosings, sameEmptied, sameParted⟩ := same
  have laterAll : s.closed = true → ∀ t, t ≠ me → (s.thread t).Later (s'.thread t) := by
    intro isClosed
    rw [thread]
    exact (forall_update_iff s.thread fun t th => t ≠ me → (s.thread t).Later th).mpr
      ⟨later isClosed, fun t _ _ => .refl _⟩
  have each : ∀ (holds : Thread → Prop), holds th' → (∀ t, holds (s.thread t)) → ∀ t, holds (s'.thread t) := by
    intro holds new old
    rw [thread]
    exact (forall_update_iff s.thread fun _ => holds).mpr ⟨new, fun t _ => old t⟩
  refine
    { placed := each _ placed sound.placed
      blocking := each (fun th => th.inBlockingCall = true → 0 < th.past) blocking sound.blocking
      listed := listed
      locked := locked
      walker := fun walking => (walker (sameCkpt ▸ walking)).1
      closing := sameClosing ▸ sound.closing
      closed := ?_
      opening := ?_
      entered := ?_
      before := ?_
      marked := ?_
      walked := ?_
      emptied := ?_
      parted := ?_ }
  · rw [sameCkpt, sameEmptied, sameParted, sameClosed]
    exact sound.closed
  · rw [sameCkpt, sameEmptied, sameParted]
    exact sound.opening
  · rw [sameClosings]
    exact each (fun th => 0 < th.past → th.entered ≤ s.closings) entered sound.entered
  · intro isClosed t notMe inside
    rw [sameClosed] at isClosed
    obtain ⟨wasInside, sameEntered⟩ := (laterAll isClosed t notMe).inside inside
    rw [sameEntered, sameClosings]
    exact sound.before isClosed t notMe wasInside
  · intro isClosed
    rw [sameClosed] at isClosed
    exact each (fun th => th.inBlockingCall = true → th.marked = true) (marked isClosed) (sound.marked isClosed)
  · intro skipBlocked rest walking t member notMe seen
    rw [sameCkpt] at walking
    have isClosed := sound.closed (.inl (CkptPc.afterClose_of_walking (walking ▸ rfl)))
    rw [(walker (walking ▸ rfl)).2] at member
    exact (sound.walked skipBlocked rest walking t member notMe seen).later (laterAll isClosed t notMe)
  · intro isEmptied t notMe
    rw [sameEmptied] at isEmptied
    exact (sound.emptied isEmptied t notMe).later (laterAll (sound.closed (.inr (.inl isEmptied))) t notMe)
  · intro isParted t notMe
    rw [sameParted] at isParted
    exact (sound.parted isParted t notMe).later (laterAll (sound.closed (.inr (.inr isParted))) t notMe)

theorem GateSound.others_locked (sound : GateSound me s) {lock : Option (Holder ι)}
    (free : ∀ t, t ≠ i → s.threadsLock ≠ some (.thread t)) (own : th'.pc.holdsLock = true → lock = some (.thread i)) :
    ∀ t, (update s.thread i th' t).pc.holdsLock = true → lock = some (.thread t) :=
  (forall_update_iff s.thread fun t th => th.pc.holdsLock = true → lock = some (.thread t)).mpr
    ⟨own, fun t differs holds => absurd (sound.locked t holds) (free t differs)⟩

theorem GateSound.same_listed (sound : GateSound me s) (registered : th'.registered = (s.thread i).registered) :
    ∀ t, t ∈ s.threads ↔ (update s.thread i th' t).registered = true :=
  (forall_update_iff s.thread fun t th => t ∈ s.threads ↔ th.registered = true).mpr
    ⟨registered ▸ sound.listed i, fun t _ => sound.listed t⟩

theorem GateSound.setThread (sound : GateSound me s) (placed : th'.Placed)
    (blocking : th'.inBlockingCall = true → 0 < th'.past) (registered : th'.registered = (s.thread i).registered)
    (locked : th'.pc.holdsLock = false) (entered : 0 < th'.past → th'.entered ≤ s.closings)
    (later : s.closed = true → i ≠ me → (s.thread i).Later th')
    (marked : s.closed = true → th'.inBlockingCall = true → th'.marked = true) : GateSound me (s.setThread i th') := by
  refine sound.change rfl ⟨rfl, rfl, rfl, rfl, rfl, rfl⟩ placed blocking (sound.same_listed registered) ?_
    (fun walking => ⟨sound.walker walking, rfl⟩) entered later marked
  exact (forall_update_iff s.thread fun t th => th.pc.holdsLock = true → s.threadsLock = some (.thread t)).mpr
    ⟨fun holds => (nomatch locked.symm.trans holds), fun t _ => sound.locked t⟩

theorem GateSound.withLock (sound : GateSound me s) {threads : List ι} {lock : Option (Holder ι)} (placed : th'.Placed)
    (outside : th'.past = 0) (sameBlocking : th'.inBlockingCall = (s.thread i).inBlockingCall)
    (sameMarked : th'.marked = (s.thread i).marked) (wasOutside : (s.thread i).past = 0)
    (notWalking : s.ckpt.walking = none)
    (listed : ∀ t, t ∈ threads ↔ (update s.thread i th' t).registered = true)
    (locked : ∀ t, (update s.thread i th' t).pc.holdsLock = true → lock = some (.thread t)) :
    GateSound me { s.setThread i th' with threads := threads, threadsLock := lock } := by
  have notBlocking : th'.inBlockingCall ≠ true := by
    intro isBlocking
    have inside := sound.blocking i (sameBlocking.symm.trans isBlocking)
    omega
  refine sound.change rfl ⟨rfl, rfl, rfl, rfl, rfl, rfl⟩ placed ?_ listed locked ?_ ?_ ?_ ?_
  · exact fun isBlocking => absurd isBlocking notBlocking
  · intro walking
    rw [notWalking] at walking
    cases walking
  · intro inside
    omega
  · exact fun _ _ => ⟨fun inside => by omega, fun isMarked => sameMarked.trans isMarked⟩
  · exact fun _ isBlocking => absurd isBlocking notBlocking

/-- The thread passes an entry check: the lower half is open, or the thread is in a section already, or is the
checkpoint thread. -/
theorem GateSound.pass (sound : GateSound me s) (placed : (s.thread i).depth = (s.thread i).past + 1)
    (registered : (s.thread i).registered = true)
    (mayPass : s.closed = true → i ≠ me → 0 < (s.thread i).past) :
    GateSound me (s.setThread i ((s.thread i).pass s.closings)) := by
  refine sound.setThread ⟨placed, fun _ => registered⟩ ?_ rfl rfl ?_ ?_ ?_
  · exact fun _ => Nat.succ_pos _
  · intro _
    simp only [Thread.pass]
    split
    · exact Nat.le_refl _
    · next inside => exact sound.entered i (Nat.pos_of_ne_zero inside)
  · intro isClosed notMe
    have inside := mayPass isClosed notMe
    refine ⟨fun _ => ⟨inside, ?_⟩, fun isMarked => isMarked⟩
    simp only [Thread.pass, Nat.ne_of_gt inside, if_false]
  · exact fun isClosed isBlocking => sound.marked isClosed i isBlocking

theorem GateSound.move (sound : GateSound me s) {pc : Pc} {depth : Nat}
    (placed : { s.thread i with pc := pc, depth := depth }.Placed) (locked : pc.holdsLock = false) :
    GateSound me (s.setThread i { s.thread i with pc := pc, depth := depth }) := by
  refine sound.setThread placed (sound.blocking i) rfl locked (sound.entered i) ?_ ?_
  · exact fun _ _ => ⟨fun inside => ⟨inside, rfl⟩, fun isMarked => isMarked⟩
  · exact fun isClosed isBlocking => sound.marked isClosed i isBlocking

theorem GateSound.threadStep (sound : GateSound me s) (taken : s.threadStep i = some s') : GateSound me s' := by
  have placed := sound.placed i
  unfold Thread.Placed at placed
  unfold Gate.threadStep at taken
  cases isPc : (s.thread i).pc with
  | run =>
    simp only [isPc] at taken
    cases taken
  | lockToLink | lockToUnlink =>
    simp only [isPc, ite_none_right_eq_some, isNone_iff_eq_none, some.injEq] at taken placed
    obtain ⟨isFree, rfl⟩ := taken
    refine sound.withLock placed placed.2.1 rfl rfl placed.2.1 (sound.not_walking (isFree ▸ nofun)) ?_ ?_
    · exact sound.same_listed rfl
    · exact sound.others_locked (fun t _ => isFree ▸ nofun) fun _ => rfl
  | link =>
    simp only [isPc] at taken placed
    cases taken
    have isLocked := sound.locked i (isPc ▸ rfl)
    refine sound.withLock ⟨placed.1, placed.2.1, rfl⟩ placed.2.1 rfl rfl placed.2.1
      (sound.not_walking (isLocked ▸ nofun)) ?_ ?_
    · refine (forall_update_iff s.thread fun t th => t ∈ i :: s.threads ↔ th.registered = true).mpr
        ⟨iff_of_true List.mem_cons_self rfl, fun t differs => ?_⟩
      rw [List.mem_cons, or_iff_right differs]
      exact sound.listed t
    · exact sound.others_locked (Gate.free_of_locked isLocked) fun _ => isLocked
  | unlockLinked | unlockUnlinked =>
    simp only [isPc] at taken placed
    cases taken
    have isLocked := sound.locked i (isPc ▸ rfl)
    have outside : ¬0 < (s.thread i).past := by omega
    refine sound.withLock ⟨placed.1.trans placed.2.1.symm, ?_⟩ placed.2.1 rfl rfl placed.2.1
      (sound.not_walking (isLocked ▸ nofun)) (sound.same_listed rfl)
      (sound.others_locked (Gate.free_of_locked isLocked) nofun)
    first
    | exact placed.2.2
    | exact fun inside => absurd inside outside
  | storeDepth =>
    simp only [isPc] at taken placed
    cases taken
    exact sound.move ⟨congrArg (· + 1) placed.1, placed.2⟩ rfl
  | loadClosed =>
    simp only [isPc] at taken placed
    cases taken
    split
    · exact sound.move placed rfl
    · next isOpen => exact sound.pass placed.1 placed.2 fun isClosed => absurd isClosed isOpen
  | slowPath =>
    simp only [isPc] at taken placed
    cases taken
    split
    · next mayPass =>
      refine sound.pass placed.1 placed.2 fun _ notMe => ?_
      rcases mayPass with nested | isClosing
      · omega
      · exact absurd (sound.closing i isClosing) notMe
    · next notNested =>
      rw [not_or] at notNested
      have depthOne : (s.thread i).depth = 1 := by omega
      have outside : (s.thread i).past = 0 := by omega
      exact sound.move ⟨depthOne, outside, placed.2⟩ rfl
  | loopClosed =>
    simp only [isPc] at taken placed
    cases taken
    split
    · exact sound.move placed rfl
    · next isOpen => exact sound.pass (by omega) placed.2.2 fun isClosed => absurd isClosed isOpen
  | stepOut | stepIn =>
    simp only [isPc] at taken placed
    cases taken
    exact sound.move ⟨rfl, placed.2.1, placed.2.2⟩ rfl
  | sleep =>
    simp only [isPc] at taken placed
    cases taken
    cases s.closed with
    | true | false => exact sound.move placed rfl
  | unlink =>
    simp only [isPc] at taken placed
    cases taken
    have isLocked := sound.locked i (isPc ▸ rfl)
    refine sound.withLock ⟨placed.1, placed.2.1, rfl⟩ placed.2.1 rfl rfl placed.2.1
      (sound.not_walking (isLocked ▸ nofun)) ?_ ?_
    · refine (forall_update_iff s.thread fun t th => t ∈ s.threads.filter (fun j => j ≠ i) ↔ th.registered = true).mpr
        ⟨by simp, fun t differs => ?_⟩
      rw [List.mem_filter, and_iff_left (decide_eq_true differs)]
      exact sound.listed t
    · exact sound.others_locked (Gate.free_of_locked isLocked) fun _ => isLocked

theorem GateSound.threadAction {action : ThreadAction} (sound : GateSound me s)
    (taken : s.threadAction i action = some s') : GateSound me s' := by
  have placed := sound.placed i
  unfold Thread.Placed at placed
  cases action with
  | step => exact sound.threadStep taken
  | enter =>
    obtain ⟨isPc, taken⟩ := ite_none_right_eq_some.mp taken
    cases taken
    simp only [isPc] at placed
    by_cases isRegistered : (s.thread i).registered = true
    · rw [if_pos isRegistered]
      exact sound.move ⟨placed.1, isRegistered⟩ rfl
    · rw [if_neg isRegistered]
      have outside : (s.thread i).past = 0 := by
        by_contra inside
        exact isRegistered (placed.2 (Nat.pos_of_ne_zero inside))
      exact sound.move ⟨placed.1.trans outside, outside, Bool.eq_false_iff.mpr isRegistered⟩ rfl
  | leave =>
    obtain ⟨⟨isPc, inside, mayLeave⟩, taken⟩ := ite_none_right_eq_some.mp taken
    cases taken
    simp only [isPc] at placed
    have registered := placed.2 inside
    refine sound.setThread ?_ ?_ rfl (isPc ▸ rfl) ?_ ?_ ?_
    · simp only [Thread.Placed, isPc]
      exact ⟨congrArg (· - 1) placed.1, fun _ => registered⟩
    · intro isBlocking
      rcases mayLeave with nested | notBlocking
      · exact Nat.sub_pos_of_lt nested
      · exact nomatch notBlocking.symm.trans isBlocking
    · exact fun _ => sound.entered i inside
    · exact fun _ _ => ⟨fun _ => ⟨inside, rfl⟩, fun isMarked => isMarked⟩
    · exact fun isClosed isBlocking => sound.marked isClosed i isBlocking
  | blockingCallBegin =>
    obtain ⟨⟨isPc, inside⟩, taken⟩ := ite_none_right_eq_some.mp taken
    cases taken
    refine sound.setThread (sound.placed i) (fun _ => inside) rfl (isPc ▸ rfl) (sound.entered i) ?_ fun _ _ => rfl
    exact fun _ _ => ⟨fun inside => ⟨inside, rfl⟩, fun _ => rfl⟩
  | blockingCallEnd =>
    obtain ⟨⟨isPc, -⟩, taken⟩ := ite_none_right_eq_some.mp taken
    cases taken
    refine sound.setThread (sound.placed i) nofun rfl (isPc ▸ rfl) (sound.entered i) ?_ fun _ => nofun
    exact fun _ _ => ⟨fun inside => ⟨inside, rfl⟩, fun isMarked => isMarked⟩
  | exit =>
    obtain ⟨⟨isPc, outside⟩, taken⟩ := ite_none_right_eq_some.mp taken
    cases taken
    simp only [isPc] at placed
    by_cases isRegistered : (s.thread i).registered = true
    · rw [if_pos isRegistered]
      exact sound.move ⟨placed.1.trans outside, outside, isRegistered⟩ rfl
    · rw [if_neg isRegistered]
      exact sound.move ⟨placed.1, placed.2⟩ rfl

end Threads

section Checkpoint

variable {ι : Type} {me : ι} {s s' : Gate ι}

theorem GateSound.walkOn {skipBlocked : Bool} {rest : List ι} {pc before : CkptPc ι} (sound : GateSound me s)
    (isPc : s.ckpt = before) (wasWalking : before.walking.isSome = true) (walking : pc.walking = some (skipBlocked, rest))
    (walked : ∀ t ∈ s.threads, t ≠ me → t ∉ rest → (s.thread t).Clear skipBlocked) :
    GateSound me { s with ckpt := pc } :=
  { sound with
    walker := fun _ => sound.walker (isPc ▸ wasWalking)
    closed := fun _ => sound.closed (.inl (CkptPc.afterClose_of_walking (isPc ▸ wasWalking)))
    opening := by
      rintro rfl
      cases walking
    walked := by
      intro skipBlocked' rest' walking'
      cases walking.symm.trans walking'
      exact walked }

theorem GateSound.clear_unlisted {skipBlocked : Bool} {t : ι} (sound : GateSound me s) (notListed : t ∉ s.threads) :
    (s.thread t).Clear skipBlocked :=
  fun inside => absurd ((sound.listed t).mpr ((sound.placed t).registered inside)) notListed

variable [DecidableEq ι]

/-- What a step of the checkpoint thread can do, by where it is. -/
inductive Gate.Closes (me : ι) (s : Gate ι) : Gate ι → Prop where
  | again (skipBlocked : Bool) (isPc : s.ckpt = .storeClosed skipBlocked) (isClosed : s.closed = true) :
      Closes me s { s with ckpt := .membarrier skipBlocked }
  | close (skipBlocked : Bool) (isPc : s.ckpt = .storeClosed skipBlocked) (isOpen : s.closed = false) :
      Closes me s
        { s with
          closed := true
          ckpt := .membarrier skipBlocked
          thread := fun i => { s.thread i with marked := (s.thread i).inBlockingCall }
          closings := s.closings + 1 }
  | membarrier (skipBlocked : Bool) (isPc : s.ckpt = .membarrier skipBlocked) :
      Closes me s { s with ckpt := .lock skipBlocked }
  | lock (skipBlocked : Bool) (isPc : s.ckpt = .lock skipBlocked) (isFree : s.threadsLock = none) :
      Closes me s { s with threadsLock := some .walker, ckpt := .walk skipBlocked s.threads }
  | seen (skipBlocked : Bool) (t : ι) (rest : List ι) (isPc : s.ckpt = .walk skipBlocked (t :: rest))
      (out : t = me ∨ (s.thread t).depth = 0) : Closes me s { s with ckpt := .walk skipBlocked rest }
  | test (t : ι) (rest : List ι) (isPc : s.ckpt = .walk true (t :: rest)) :
      Closes me s { s with ckpt := .testBlocked (t :: rest) }
  | wait (t : ι) (rest : List ι) (isPc : s.ckpt = .walk false (t :: rest)) : Closes me s s
  | tested (t : ι) (rest : List ι) (isPc : s.ckpt = .testBlocked (t :: rest)) :
      Closes me s { s with ckpt := .walk true (if (s.thread t).inBlockingCall then rest else t :: rest) }
  | leave (skipBlocked : Bool) (isPc : s.ckpt = .walk skipBlocked []) :
      Closes me s
        { s with
          threadsLock := none
          ckpt := .idle
          emptied := s.emptied || !skipBlocked
          parted := s.parted || skipBlocked }
  | storeOpen (isPc : s.ckpt = .storeOpen) : Closes me s { s with closed := false, ckpt := .idle }

theorem Gate.ckptStep_closes (taken : s.ckptStep me = some s') : s.Closes me s' := by
  unfold Gate.ckptStep at taken
  split at taken
  · cases taken
  · next skipBlocked isPc =>
    cases taken
    unfold Gate.storeClosed
    split
    · next isClosed => exact .again skipBlocked isPc isClosed
    · next isOpen => exact .close skipBlocked isPc (Bool.eq_false_iff.mpr isOpen)
  · next skipBlocked isPc =>
    cases taken
    exact .membarrier skipBlocked isPc
  · next skipBlocked isPc =>
    simp only [ite_none_right_eq_some, isNone_iff_eq_none, some.injEq] at taken
    obtain ⟨isFree, rfl⟩ := taken
    exact .lock skipBlocked isPc isFree
  · next skipBlocked t rest isPc =>
    split at taken
    · next out =>
      cases taken
      exact .seen skipBlocked t rest isPc out
    · cases skipBlocked with
      | true =>
        cases taken
        exact .test t rest isPc
      | false =>
        cases taken
        exact .wait t rest isPc
  · next t rest isPc =>
    cases taken
    exact .tested t rest isPc
  · next skipBlocked isPc =>
    cases taken
    exact .leave skipBlocked isPc
  · cases taken
  · next isPc =>
    cases taken
    exact .storeOpen isPc

theorem GateSound.ckptStep (sound : GateSound me s) (taken : s.ckptStep me = some s') : GateSound me s' := by
  cases Gate.ckptStep_closes taken with
  | again skipBlocked isPc isClosed =>
    exact
      { sound with
        walker := nofun
        closed := fun _ => isClosed
        opening := nofun
        walked := nofun }
  | close skipBlocked isPc isOpen =>
    have noWait : s.emptied ≠ true ∧ s.parted ≠ true :=
      ⟨fun isEmptied => (nomatch isOpen.symm.trans (sound.closed (.inr (.inl isEmptied)))),
        fun isParted => (nomatch isOpen.symm.trans (sound.closed (.inr (.inr isParted))))⟩
    exact
      { placed := sound.placed
        blocking := sound.blocking
        listed := sound.listed
        locked := sound.locked
        walker := nofun
        closing := sound.closing
        closed := fun _ => rfl
        opening := nofun
        entered := fun t inside => Nat.le_succ_of_le (sound.entered t inside)
        before := fun _ t _ inside => Nat.lt_succ_of_le (sound.entered t inside)
        marked := fun _ t isBlocking => isBlocking
        walked := nofun
        emptied := fun isEmptied => absurd isEmptied noWait.1
        parted := fun isParted => absurd isParted noWait.2 }
  | membarrier skipBlocked isPc =>
    exact
      { sound with
        walker := nofun
        closed := fun _ => sound.closed (.inl (isPc ▸ rfl))
        opening := nofun
        walked := nofun }
  | lock skipBlocked isPc isFree =>
    exact
      { sound with
        locked := fun t holds => nomatch isFree.symm.trans (sound.locked t holds)
        walker := fun _ => rfl
        closed := fun _ => sound.closed (.inl (isPc ▸ rfl))
        opening := nofun
        walked := by
          intro skipBlocked' rest' walking t member notMe seen
          cases walking
          exact absurd member seen }
  | storeOpen isPc =>
    obtain ⟨notEmptied, notParted⟩ := sound.opening isPc
    have noWait : ¬(s.emptied = true ∨ s.parted = true) := by simp [notEmptied, notParted]
    exact
      { sound with
        walker := nofun
        closed := fun holds => absurd (holds.resolve_left nofun) noWait
        opening := nofun
        before := nofun
        marked := nofun
        walked := nofun }
  | leave skipBlocked isPc =>
    have lock := sound.walker (isPc ▸ rfl)
    have clear : ∀ t, t ≠ me → (s.thread t).Clear skipBlocked := by
      intro t notMe
      by_cases listed : t ∈ s.threads
      · exact sound.walked skipBlocked [] (isPc ▸ rfl) t listed notMe List.not_mem_nil
      · exact sound.clear_unlisted listed
    exact
      { sound with
        locked := fun t holds => nomatch lock.symm.trans (sound.locked t holds)
        walker := nofun
        closed := fun _ => sound.closed (.inl (isPc ▸ rfl))
        opening := nofun
        walked := nofun
        emptied := by
          intro isEmptied t notMe
          rcases (Bool.or_eq_true _ _).mp isEmptied with before | now
          · exact sound.emptied before t notMe
          · rw [Bool.not_eq_true'] at now
            exact now ▸ clear t notMe
        parted := by
          intro isParted t notMe
          rcases (Bool.or_eq_true _ _).mp isParted with before | now
          · exact sound.parted before t notMe
          · exact now ▸ clear t notMe }
  | seen skipBlocked t rest isPc out =>
    refine sound.walkOn isPc rfl rfl fun t' member notMe notRest => ?_
    by_cases same : t' = t
    · subst same
      have outside := out.resolve_left notMe
      have le := (sound.placed t').le
      exact fun inside => absurd inside (by omega)
    · exact sound.walked skipBlocked (t :: rest) (isPc ▸ rfl) t' member notMe
        (List.not_mem_cons_of_ne_of_not_mem same notRest)
  | test t rest isPc => exact sound.walkOn isPc rfl rfl (sound.walked true (t :: rest) (isPc ▸ rfl))
  | wait t rest isPc => exact sound
  | tested t rest isPc =>
    refine sound.walkOn isPc rfl rfl fun t' member notMe notRest => ?_
    have walked := sound.walked true (t :: rest) (isPc ▸ rfl) t' member notMe
    split at notRest
    · next isBlocking =>
      by_cases same : t' = t
      · subst same
        exact fun _ => ⟨rfl, sound.marked (sound.closed (.inl (isPc ▸ rfl))) t' isBlocking⟩
      · exact walked (List.not_mem_cons_of_ne_of_not_mem same notRest)
    · exact walked notRest

theorem GateSound.step {action : GateAction ι} (sound : GateSound me s) (taken : s.step me action = some s') :
    GateSound me s' := by
  cases action with
  | thread i action => exact sound.threadAction (ite_none_left_eq_some.mp taken).2
  | ckpt => exact sound.ckptStep taken
  | close skipBlocked =>
    obtain ⟨isIdle, taken⟩ := ite_none_right_eq_some.mp taken
    cases taken
    exact
      { sound with
        walker := nofun
        closing := fun t isClosing => (some.inj isClosing).symm
        closed := fun holds => sound.closed (.inr (holds.resolve_left nofun))
        opening := nofun
        walked := nofun }
  | allow =>
    obtain ⟨isIdle, taken⟩ := ite_none_right_eq_some.mp taken
    cases taken
    exact
      { sound with
        walker := nofun
        closing := nofun
        closed := by rintro (h | h | h) <;> cases h
        opening := fun _ => ⟨rfl, rfl⟩
        walked := nofun
        emptied := nofun
        parted := nofun }

theorem reachable_gateSound (reached : Reachable (gateMachine me) s) : GateSound me s := by
  refine reached.invariant (GateSound me) ?_ ?_
  · rintro _ rfl
    exact .initial
  · intro _ _ _ _ sound taken
    exact sound.step taken

/-- From the return of `wait_for_threads_to_leave_lower_half` until `allow_threads_to_enter_lower_half`, no
thread other than the checkpoint thread is in a section past its entry check. After
`wait_for_unblocked_threads_to_leave_lower_half`, a thread that is in one entered its outermost section
before the lower half was closed, and was inside a marked blocking call at some moment since. -/
theorem lower_half_stays_closed (reached : Reachable (gateMachine me) s) (t : ι) (notMe : t ≠ me) :
    (s.emptied = true → (s.thread t).past = 0) ∧
      (s.parted = true → 0 < (s.thread t).past → (s.thread t).entered < s.closings ∧ (s.thread t).marked = true) := by
  have sound := reachable_gateSound reached
  constructor
  · intro isEmptied
    by_contra inside
    exact Bool.false_ne_true (sound.emptied isEmptied t notMe (Nat.pos_of_ne_zero inside)).1
  · intro isParted inside
    have isClosed := sound.closed (.inr (.inr isParted))
    exact ⟨sound.before isClosed t notMe inside, (sound.parted isParted t notMe inside).2⟩

end Checkpoint

/-- A thread in a marked blocking call while the lower half is closed around it; the call ends, the thread
enters a nested section and leaves both, and the lower half is closed once more to wait for it. -/
def closedAround (t : Fin 2) : List (GateAction (Fin 2)) :=
  [.thread t .enter, .thread t .step, .thread t .step, .thread t .step, .thread t .step, .thread t .step,
    .thread t .blockingCallBegin, .close true, .ckpt, .ckpt, .ckpt, .ckpt, .ckpt, .ckpt, .thread t .blockingCallEnd]

def closedAgain (t : Fin 2) : List (GateAction (Fin 2)) :=
  [.close false, .ckpt, .ckpt, .ckpt, .ckpt, .thread t .enter, .thread t .step, .thread t .step, .thread t .step,
    .thread t .leave, .thread t .leave, .ckpt, .thread t .enter, .thread t .step, .ckpt]

theorem lower_half_stays_closed_around :
    ∃ parted emptied, (gateMachine 0).run (.initial (Fin 2)) (closedAround 1) = some parted ∧
      (gateMachine 0).run parted (closedAgain 1) = some emptied ∧
      (parted.parted = true ∧ (parted.thread 1).past = 1 ∧ (parted.thread 1).entered < parted.closings ∧
        (parted.thread 1).marked = true) ∧
      (emptied.emptied = true ∧ (emptied.thread 1).depth = 1 ∧ (emptied.thread 1).past = 0) := by
  have both : (((gateMachine 0).run (.initial (Fin 2)) (closedAround 1)).bind fun parted =>
      ((gateMachine 0).run parted (closedAgain 1)).map fun emptied =>
        decide (parted.parted = true ∧ (parted.thread 1).past = 1 ∧ emptied.emptied = true ∧
          (emptied.thread 1).depth = 1)) = some true := by decide +kernel
  obtain ⟨parted, ranParted, both⟩ := bind_eq_some_iff.mp both
  obtain ⟨emptied, ranEmptied, both⟩ := map_eq_some_iff.mp both
  obtain ⟨isParted, inside, isEmptied, depth⟩ := of_decide_eq_true both
  have reachedParted : Reachable (gateMachine 0) parted := (Reachable.start rfl).run ranParted
  have reachedEmptied := reachedParted.run ranEmptied
  have afterParted := (lower_half_stays_closed reachedParted 1 (by decide)).2 isParted (by omega)
  have afterEmptied := (lower_half_stays_closed reachedEmptied 1 (by decide)).1 isEmptied
  exact ⟨parted, emptied, ranParted, ranEmptied, ⟨isParted, inside, afterParted⟩, isEmptied, depth, afterEmptied⟩

end Mana.LowerHalf
