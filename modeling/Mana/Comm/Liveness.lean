import Mana.Comm.Invariant

/-! Communicator liveness agreement. The job refines the machine of the drain, and what
the drain guarantees carries over to handles and to deferred frees. -/

namespace Mana.Comm
open Mana.Lib Mana.Collective Option Function

section Start
variable {n : Nat} {job : Job n} {s t : JobState n}

/-- A process while `MPI_Init` makes the predefined communicators. -/
structure StartRank (job : Job n) (gidOf : CommId → Option Gid) (r : Fin n) (p : Proc) (cp : CommProc) : Prop where
  proc : ∃ clocks, p = Proc.initial clocks ∧ ∀ g c, clocks.lookup g = some c → c = ⟨0, 0⟩
  idle : cp.op = none ∧ cp.pendingFrees = [] ∧ cp.started = []
  live : ∀ c g, cp.descs.lookup c = some g → gidOf c = some g ∧ c ∈ cp.entered ∧ g ∈ p.clocks
  clock : ∀ g ∈ p.clocks, ∃ c, gidOf c = some g ∧ c ∈ cp.entered ∧ c ∈ cp.descs
  mine : ∀ c ∈ cp.entered, r ∈ job.members c ∧ ∃ g, gidOf c = some g ∧ c ∈ cp.descs

/-- The job then; `installed` has the communicators that it has made. -/
structure Start (job : Job n) (installed : List CommId) (s : JobState n) : Prop where
  gids : Gids job s
  only : ∀ c g, s.gidOf c = some g → c ∈ installed
  kvdb : s.drain.kvdb = Kvdb.empty
  ranks : ∀ r, StartRank job s.gidOf r (s.drain.proc r) (s.procs r)
  entered : ∀ c g, s.gidOf c = some g → ∀ q ∈ job.members c, c ∈ (s.procs q).entered

theorem start_blank : Start job [] JobState.blank where
  gids := ⟨by simp [JobState.blank], by simp [JobState.blank]⟩
  only := by simp [JobState.blank]
  kvdb := rfl
  ranks _ :=
    { proc := ⟨∅, rfl, by simp⟩
      idle := ⟨rfl, rfl, rfl⟩
      live := by simp [JobState.blank, CommProc.blank]
      clock := by simp [JobState.blank, Proc.initial]
      mine := by simp [JobState.blank, CommProc.blank] }
  entered := by simp [JobState.blank]

theorem install_cases (job : Job n) (s : JobState n) (c : CommId) : ∃ gid,
    (∀ c', (s.install job c).gidOf c' = if c' = c then some gid else s.gidOf c') ∧
    (∀ r ∈ job.members c, (∃ made, (s.install job c).procs r = { s.procs r with
          gidsMade := made
          descs := (s.procs r).descs.insert c gid
          entered := c :: (s.procs r).entered }) ∧
        (s.install job c).drain.proc r =
          { s.drain.proc r with clocks := (s.drain.proc r).clocks.insert gid { seq := 0, target := 0 } }) ∧
    (∀ r, r ∉ job.members c → (∃ made, (s.install job c).procs r = { s.procs r with gidsMade := made }) ∧
        (s.install job c).drain.proc r = s.drain.proc r) := by
  refine ⟨_, assignGid_gidOf s c, fun r member => ?_, fun r member => ?_⟩
  · obtain ⟨made, proc, -⟩ := assignGid_procs job s c r
    refine ⟨⟨made, ?_⟩, if_pos member⟩
    rw [JobState.install]
    simp only [if_pos member, proc]
  · obtain ⟨made, proc, -⟩ := assignGid_procs job s c r
    refine ⟨⟨made, ?_⟩, if_neg member⟩
    rw [JobState.install]
    simp only [if_neg member, proc]

section Rank
variable {gidOf gidOf' : CommId → Option Gid} {r : Fin n} {p : Proc} {cp : CommProc}

theorem StartRank.grow (start : StartRank job gidOf r p cp) (more : ∀ c g, gidOf c = some g → gidOf' c = some g)
    (made : Nat) : StartRank job gidOf' r p { cp with gidsMade := made } where
  proc := start.proc
  idle := start.idle
  live c g found := (start.live c g found).imp_left (more c g)
  clock g held := (start.clock g held).imp fun c => And.imp_left (more c g)
  mine c entered := (start.mine c entered).imp_right (Exists.imp fun g => And.imp_left (more c g))

theorem StartRank.install (start : StartRank job gidOf r p cp) {c : CommId} {gid : Gid} (member : r ∈ job.members c)
    (own : gidOf c = some gid) :
    StartRank job gidOf r { p with clocks := p.clocks.insert gid ⟨0, 0⟩ }
      { cp with descs := cp.descs.insert c gid, entered := c :: cp.entered } := by
  constructor
  case proc =>
    obtain ⟨clocks, rfl, zero⟩ := start.proc
    refine ⟨clocks.insert gid ⟨0, 0⟩, rfl, fun g value found => ?_⟩
    exact (Assoc.lookup_insert_cases found).elim And.right fun old => zero g value old.2
  case idle => exact start.idle
  case live =>
    intro c' g found
    rcases Assoc.lookup_insert_cases found with ⟨rfl, rfl⟩ | ⟨-, found⟩
    · exact ⟨own, List.mem_cons_self, (AList.mem_insert _).mpr (.inl rfl)⟩
    · obtain ⟨made, entered, clock⟩ := start.live c' g found
      exact ⟨made, List.mem_cons_of_mem _ entered, (AList.mem_insert _).mpr (.inr clock)⟩
  case clock =>
    intro g held
    rcases (AList.mem_insert _).mp held with rfl | held
    · exact ⟨c, own, List.mem_cons_self, (AList.mem_insert _).mpr (.inl rfl)⟩
    · obtain ⟨c', made, entered, desc⟩ := start.clock g held
      exact ⟨c', made, List.mem_cons_of_mem _ entered, (AList.mem_insert _).mpr (.inr desc)⟩
  case mine =>
    intro c' entered
    rcases List.mem_cons.mp entered with rfl | entered
    · exact ⟨member, gid, own, (AList.mem_insert _).mpr (.inl rfl)⟩
    · obtain ⟨member', g, made, desc⟩ := start.mine c' entered
      exact ⟨member', g, made, (AList.mem_insert _).mpr (.inr desc)⟩

end Rank

theorem Start.install {installed : List CommId} (start : Start job installed s) {c : CommId} (new : c ∉ installed) :
    Start job (c :: installed) (s.install job c) := by
  have unmade : s.gidOf c = none := by
    cases gid : s.gidOf c with
    | none => rfl
    | some g => exact absurd (start.only c g gid) new
  have gids := start.gids.assignGid unmade
  obtain ⟨gid, gidOf, members, others⟩ := install_cases job s c
  have more (c' : CommId) (g : Gid) (made : s.gidOf c' = some g) : (s.install job c).gidOf c' = some g :=
    gidOf_assignGid unmade made
  have own : (s.install job c).gidOf c = some gid := by rw [gidOf, if_pos rfl]
  constructor
  case gids =>
    refine ⟨gids.owned, fun c' g made => ?_⟩
    obtain ⟨i, before, same⟩ := gids.made c' g made
    refine ⟨i, Nat.lt_of_lt_of_le before ?_, same⟩
    simp only [JobState.install]
    split <;> exact Nat.le_refl _
  case only =>
    intro c' g made
    rw [gidOf] at made
    split at made
    · next same => exact same ▸ List.mem_cons_self
    · exact List.mem_cons_of_mem _ (start.only c' g made)
  case kvdb => exact start.kvdb
  case ranks =>
    intro r
    by_cases member : r ∈ job.members c
    · obtain ⟨⟨made, procs⟩, drain⟩ := members r member
      rw [procs, drain]
      exact ((start.ranks r).grow more made).install member own
    · obtain ⟨⟨made, procs⟩, drain⟩ := others r member
      rw [procs, drain]
      exact (start.ranks r).grow more made
  case entered =>
    intro c' g made q member'
    by_cases member : q ∈ job.members c
    · obtain ⟨⟨made', procs⟩, -⟩ := members q member
      rw [procs]
      rw [gidOf] at made
      split at made
      · next same => exact same ▸ List.mem_cons_self
      · exact List.mem_cons_of_mem _ (start.entered c' g made q member')
    · obtain ⟨⟨made', procs⟩, -⟩ := others q member
      have differs : c' ≠ c := fun same => member (same ▸ member')
      rw [gidOf, if_neg differs] at made
      rw [procs]
      exact start.entered c' g made q member'

theorem Start.installAll {installed comms : List CommId} (start : Start job installed s)
    (new : ∀ c ∈ comms, c ∉ installed) (nodup : comms.Nodup) :
    ∃ all, Start job all (comms.foldl (JobState.install job) s) := by
  induction comms generalizing installed s with
  | nil => exact ⟨installed, start⟩
  | cons c rest ih =>
    obtain ⟨fresh, nodup⟩ := List.nodup_cons.mp nodup
    refine ih (start.install (new c List.mem_cons_self)) (fun c' later => ?_) nodup
    rw [List.mem_cons, not_or]
    exact ⟨fun same => fresh (same ▸ later), new c' (List.mem_cons_of_mem _ later)⟩

theorem start_start (job : Job n) : ∃ all, Start job all job.start :=
  start_blank.installAll (by simp) job.distinct

theorem Start.jobInv {installed : List CommId} (start : Start job installed s) : JobInv job s := by
  refine ⟨start.gids, start.entered, fun r => ?_⟩
  obtain ⟨⟨clocks, proc, -⟩, ⟨op, pending, started⟩, live, clock, mine⟩ := start.ranks r
  rw [proc] at live clock ⊢
  constructor
  case idle => exact fun _ _ => op
  case begins => simp [Proc.initial, beginning]
  case creating => simp [CommProc.creating, op]
  case freeing => simp [CommProc.freeing, op]
  case live =>
    intro c g found
    obtain ⟨gid, entered, held⟩ := live c g found
    exact ⟨gid, entered, held, by simp [Proc.initial]⟩
  case clock =>
    intro g held
    obtain ⟨c, gid, entered, desc⟩ := clock g held
    exact ⟨c, gid, entered, .inl desc⟩
  case entered =>
    intro c entered
    obtain ⟨member, g, gid, desc⟩ := mine c entered
    exact ⟨member, .inr ⟨g, gid, .inl desc⟩⟩
  case freed => simp [Proc.initial]
  case called => simp [Proc.initial]
  case started => simp [started]
  case pending => simp [pending]
  case nodup => simp [pending]
  case erased => simp [Proc.initial]

theorem reachable_jobInv (reached : Reachable (jobMachine job) s) : JobInv job s := by
  refine reached.invariant (JobInv job) ?_ ?_
  · rintro s rfl
    obtain ⟨all, start⟩ := start_start job
    exact start.jobInv
  · intro s a t _ inv taken
    exact inv.move (jobStep_move taken)

end Start

/-! The job refines the machine of the drain, once the gids name communicators. -/

section Refine
variable {n : Nat} {job : Job n} {s t : JobState n} {members : Gid → Finset (Fin n)}

def Names (job : Job n) (s : JobState n) (members : Gid → Finset (Fin n)) : Prop :=
  ∀ g c, s.gidOf c = some g → members g = job.members c

theorem JobInv.names (inv : JobInv job s) : Names job s (s.members job) := by
  intro g c gid
  rw [JobState.members, (inv.gids.owned g c).mpr gid]

theorem JobMove.gidOf (moved : JobMove job s t) {c : CommId} {g : Gid} (gid : s.gidOf c = some g) :
    t.gidOf c = some g := by
  cases moved with
  | rank | drain => exact gid
  | makeGid c' unmade => exact gidOf_assignGid unmade gid

theorem enter_size {p : Proc} {size size' : Gid → Nat} (same : ∀ g ∈ p.clocks, size g = size' g) (call : Call) :
    p.enter size call = p.enter size' call := by
  cases call with
  | uncounted => rfl
  | counted g free =>
    simp only [Proc.enter]
    cases found : p.clocks.lookup g with
    | none => rfl
    | some clock => simp only [same g (Assoc.mem_of_lookup found)]

theorem JobInv.clock_name (inv : JobInv job s) (names : Names job s members) {r : Fin n} {g : Gid}
    (held : g ∈ (s.drain.proc r).clocks) : ∃ c, s.gidOf c = some g ∧ r ∈ job.members c ∧ members g = job.members c := by
  obtain ⟨c, gid, entered, -⟩ := (inv.ranks r).clock g held
  exact ⟨c, gid, ((inv.ranks r).entered c entered).1, names g c gid⟩

theorem JobInv.allFreed (inv : JobInv job s) (names : Names job s members) {c : CommId} {g : Gid}
    (gid : s.gidOf c = some g) (all : s.allStarted job c = true) : s.drain.allFreed members g = true := by
  rw [State.allFreed, decide_eq_true_eq, names g c gid]
  intro q member
  obtain ⟨-, g', isFreed, gid'⟩ := (inv.ranks q).started c (allStarted_iff.mp all q member)
  obtain rfl := mem_unique gid gid'
  exact isFreed

/-- A step of a process is a step of the drain's machine, or none. -/
theorem CommMove.refines (inv : JobInv job s) (names : Names job s members) (r : Fin n) {q : Proc} {cq : CommProc}
    (moved : CommMove job s r (s.drain.proc r) (s.procs r) q cq) :
    s.drain.setProc r q = s.drain ∨ ∃ a, step members s.drain a = some (s.drain.setProc r q) := by
  have ranks := inv.ranks r
  have app {a : AppAct} {q : Proc} (taken : (s.drain.proc r).appStep (fun g => (members g).card)
      (fun g => decide (r ∈ members g)) (s.drain.allFreed members) a = some q) :
      ∃ a, step members s.drain a = some (s.drain.setProc r q) :=
    ⟨.app r a, by rw [step, taken]; rfl⟩
  cases moved with
  | begin_ op call pc begins =>
    refine .inr (app (a := .call call) ?_)
    rcases begins.counts with ⟨-, rfl⟩ | ⟨c, g, -, found, rfl, -⟩
    · simp only [Proc.appStep, pc]
    · obtain ⟨-, -, held, frees⟩ := ranks.live c g found
      have unfreed : g ∉ (s.drain.proc r).freed := by
        intro isFreed
        have freeing := frees isFreed
        rw [freeing_of_out (by rw [pc]; rfl)] at freeing
        cases freeing
      simp [Proc.appStep, pc, held, unfreed]
  | enter call pc unlocked goes entered =>
    refine .inr (app (a := .lock) ?_)
    have size (g : Gid) (held : g ∈ (s.drain.proc r).clocks) : (members g).card = (s.members job g).card := by
      obtain ⟨c, gid, -, same⟩ := inv.clock_name names held
      rw [same, inv.names g c gid]
    simp only [Proc.appStep, pc, unlocked, goes, Bool.false_eq_true, if_false]
    rw [enter_size size, entered]
  | move app' act was out same taken => exact .inr (app (taken _ _ _))
  | addClock c g creating gid unlocked absent =>
    refine .inr (app (a := .addClock g) ?_)
    obtain ⟨entered, unfreed⟩ := ranks.creating c creating
    have member : r ∈ members g := by
      rw [names g c gid]
      exact (ranks.entered c entered).1
    have notFreed : g ∉ (s.drain.proc r).freed := fun isFreed => unfreed g isFreed gid
    have inside : ∃ call, (s.drain.proc r).app = .inCs call := by
      cases pc : (s.drain.proc r).app with
      | inCs call => exact ⟨call, rfl⟩
      | _ => simp [CommProc.creating, pc, AppPc.inSection] at creating
    obtain ⟨call, pc⟩ := inside
    simp [Proc.appStep, pc, unlocked, member, absent, notFreed]
  | addVirtId | startFree => exact .inl (by rw [State.setProc, update_eq_self])
  | finish created freed pc =>
    refine .inr (app (a := .finish) ?_)
    rcases pc with ⟨call, pc⟩ | pc <;> simp only [Proc.appStep, pc]
  | finishFree g c where_ pending all =>
    obtain ⟨gid, -, held⟩ := ranks.pending g c pending
    have freed := inv.allFreed names gid all
    rcases where_ with ⟨pc | pc, unlocked⟩ | pc
    · exact .inr (app (a := .eraseClock g) (by simp [Proc.appStep, pc, unlocked, freed, held]))
    · exact .inr (app (a := .eraseClock g) (by simp [Proc.appStep, pc, unlocked, freed, held]))
    · exact .inr ⟨.completeFree r g, by simp [step, pc, freed, held]⟩

theorem JobMove.refines (inv : JobInv job s) (names : Names job s members) (moved : JobMove job s t) :
    t.drain = s.drain ∨ ∃ a, step members s.drain a = some t.drain := by
  cases moved with
  | rank r moved => exact moved.refines inv names
  | makeGid => exact .inl rfl
  | drain a thread erases taken => exact .inr ⟨a, taken members⟩

theorem reachable_refines (reached : Reachable (jobMachine job) s) (names : Names job s members) :
    Reachable (machine members) s.drain := by
  revert names
  refine reached.invariant (fun s => Names job s members → Reachable (machine members) s.drain) ?_ ?_
  · rintro s rfl names
    obtain ⟨all, start⟩ := start_start job
    refine .start ⟨start.kvdb, fun r => ?_⟩
    obtain ⟨clocks, proc, zero⟩ := (start.ranks r).proc
    refine ⟨clocks, proc, fun g c found => ⟨zero g c found, ?_⟩⟩
    have held : g ∈ (job.start.drain.proc r).clocks := by
      rw [proc]
      exact Assoc.mem_of_lookup found
    obtain ⟨c, -, member, same⟩ := start.jobInv.clock_name names held
    exact same ▸ member
  · intro s a t before ih taken names
    have moved := jobStep_move taken
    have namesBefore : Names job s members := fun g c gid => names g c (moved.gidOf gid)
    rcases moved.refines (reachable_jobInv before) namesBefore with same | ⟨b, stepped⟩
    · rw [same]
      exact ih namesBefore
    · exact .next (ih namesBefore) stepped

end Refine

/-! What the drain guarantees, for handles. -/

section Agree
variable {n : Nat} {job : Job n} {s t : JobState n}
variable {q p : Fin n} {c : CommId} {g : Gid} {members : Gid → Finset (Fin n)} {a : Action n} {d d' : State n}

/-- A process outside its calls has a communicator's handle, or has started its
`MPI_Comm_free` barrier, once the communicator has a gid. -/
theorem JobInv.live_or_started (inv : JobInv job s) (out : (s.drain.proc q).app.inSection = false)
    (gid : s.gidOf c = some g) (member : q ∈ job.members c) :
    ((s.procs q).descs.lookup c = some g ∧ g ∉ (s.drain.proc q).freed) ∨
      c ∈ (s.procs q).started ∧ c ∉ (s.procs q).descs ∧ g ∈ (s.drain.proc q).freed := by
  have ranks := inv.ranks q
  by_cases live : c ∈ (s.procs q).descs
  · obtain ⟨g', found⟩ := isSome_iff_exists.mp (AList.lookup_isSome.mpr live)
    obtain ⟨gid', -, -, frees⟩ := ranks.live c g' found
    obtain rfl := mem_unique gid gid'
    refine .inl ⟨found, fun isFreed => ?_⟩
    have freeing := frees isFreed
    rw [freeing_of_out out] at freeing
    cases freeing
  · obtain ⟨-, making | ⟨g', gid', live' | isFreed⟩⟩ := ranks.entered c (inv.entered c g gid q member)
    · rw [creating_of_out out] at making
      cases making
    · exact absurd live' live
    · obtain rfl := mem_unique gid gid'
      obtain ⟨c', gid', -, live' | started, -⟩ := ranks.freed g isFreed
      · exact absurd (inv.gids.distinct c c' g gid gid' ▸ live') live
      · exact .inr ⟨inv.gids.distinct c c' g gid gid' ▸ started, live, isFreed⟩

/-- Two members outside their calls that have counted as many calls on a communicator
have both its handle, or neither. -/
theorem JobInv.live_of_live (inv : JobInv job s) {q' : Fin n} (out : (s.drain.proc q).app.inSection = false)
    (out' : (s.drain.proc q').app.inSection = false)
    (counts : ∀ g, g ∈ (s.drain.proc q).clocks → g ∈ (s.drain.proc q').clocks →
      (s.drain.proc q).calls.count g = (s.drain.proc q').calls.count g)
    (member : q ∈ job.members c) (member' : q' ∈ job.members c) (live : c ∈ (s.procs q).descs) :
    c ∈ (s.procs q').descs := by
  obtain ⟨g, found⟩ := isSome_iff_exists.mp (AList.lookup_isSome.mpr live)
  obtain ⟨gid, -, held, -⟩ := (inv.ranks q).live c g found
  have unfreed : g ∉ (s.drain.proc q).freed := by
    rcases inv.live_or_started out gid member with ⟨-, unfreed⟩ | ⟨-, gone, -⟩
    · exact unfreed
    · exact absurd live gone
  rcases inv.live_or_started out' gid member' with ⟨found', -⟩ | ⟨-, -, isFreed⟩
  · exact Assoc.mem_of_lookup found'
  · exfalso
    by_cases held' : g ∈ (s.drain.proc q').clocks
    -- The last call that both have counted is the MPI_Comm_free.
    · obtain ⟨c', gid', -, -, first, last⟩ := (inv.ranks q').freed g isFreed
      rw [← counts g held held'] at first last
      obtain ⟨c'', gid'', frees⟩ := (inv.ranks q).called g first
      rw [inv.gids.distinct c' c'' g gid' gid''] at last
      exact unfreed (frees last)
    · obtain ⟨c', gid', all⟩ := (inv.ranks q').erased g isFreed held'
      rw [inv.gids.distinct c' c g gid' gid] at all
      exact (inv.ranks q).started c (allStarted_iff.mp all q member) |>.1 live

theorem returned_agree (reached : Reachable (jobMachine job) s) (returned : (s.drain.proc p).ckpt = .drained) :
    (∀ c, ∀ q ∈ job.members c, ∀ q' ∈ job.members c, c ∈ (s.procs q).descs → c ∈ (s.procs q').descs) ∧
      ∀ q g c, (g, c) ∈ (s.procs q).pendingFrees → ∀ q' ∈ job.members c, c ∈ (s.procs q').started := by
  have inv := reachable_jobInv reached
  have drain := reachable_refines reached inv.names
  obtain ⟨held, agree⟩ := returned_held drain returned
  have out (q : Fin n) : (s.drain.proc q).app.inSection = false := (held q).frozen.2.out
  have counts (q q' : Fin n) (g : Gid) (clock : g ∈ (s.drain.proc q).clocks) (clock' : g ∈ (s.drain.proc q').clocks) :
      (s.drain.proc q).calls.count g = (s.drain.proc q').calls.count g := by
    obtain ⟨c, found⟩ := isSome_iff_exists.mp (AList.lookup_isSome.mpr clock)
    obtain ⟨c', found'⟩ := isSome_iff_exists.mp (AList.lookup_isSome.mpr clock')
    rw [← (reachable_clockInv drain q).counts.held g c found, ← (reachable_clockInv drain q').counts.held g c' found',
      agree g q q' c c' found found']
  have handles (c : CommId) (q : Fin n) (member : q ∈ job.members c) (q' : Fin n) (member' : q' ∈ job.members c)
      (live : c ∈ (s.procs q).descs) : c ∈ (s.procs q').descs :=
    inv.live_of_live (out q) (out q') (counts q q') member member' live
  refine ⟨handles, fun q g c pending q' member' => ?_⟩
  obtain ⟨gid, started, -⟩ := (inv.ranks q).pending g c pending
  obtain ⟨gone, g', isFreed, gid'⟩ := (inv.ranks q).started c started
  obtain ⟨c', gid'', entered, -⟩ := (inv.ranks q).freed g' isFreed
  rw [inv.gids.distinct c' c g' gid'' gid'] at entered
  have member := ((inv.ranks q).entered c entered).1
  rcases inv.live_or_started (out q') gid member' with ⟨found, -⟩ | ⟨started', -⟩
  · exact absurd (handles c q' member' q member (Assoc.mem_of_lookup found)) gone
  · exact started'

/-! Processes stay as they are until `ckpt_pending` is reset. -/

theorem step_settled (taken : step members d a = some d') (p : Fin n) (settled : (d'.proc p).ckpt.settled = true) :
    (d.proc p).ckpt.settled = true ∨ (d'.proc p).ckpt = .drained := by
  cases step_seenFrom taken p with
  | app b isApp moved => exact .inl (moved.sameCkpt.ckpt ▸ settled)
  | ckpt isCkpt moved =>
    generalize (d.proc p).ckpt = pc at moved
    generalize d'.proc p = q, d'.kvdb = kv', d.kvdb = kv at moved settled
    cases moved with
    | returned => exact .inr rfl
    | drained => exact .inl rfl
    | _ => cases settled
  | released b isRelease same => exact .inl (by rwa [same, Proc.released, CkptPc.settled_released] at settled)
  | erase g isErase freed same | other same => exact .inl (by rwa [same] at settled)

theorem JobMove.kept (moved : JobMove job s t) (out : (s.drain.proc p).app.inSection = false) :
    (t.procs p).descs = (s.procs p).descs ∧ (t.procs p).pendingFrees ⊆ (s.procs p).pendingFrees := by
  cases moved with
  | rank r moved =>
    by_cases own : p = r
    · subst own
      simp only [update_self]
      cases moved with
      | addVirtId c g creating =>
        rw [creating_of_out out] at creating
        cases creating
      | startFree c g freeing =>
        rw [freeing_of_out out] at freeing
        cases freeing
      | finishFree g c => exact ⟨rfl, List.erase_subset⟩
      | _ => exact ⟨rfl, List.Subset.refl _⟩
    · simp [update_of_ne own]
  | makeGid c =>
    obtain ⟨made, proc, -⟩ := assignGid_procs job s c p
    rw [proc]
    exact ⟨rfl, List.Subset.refl _⟩
  | drain => exact ⟨rfl, List.Subset.refl _⟩

theorem JobMove.started (moved : JobMove job s t) (q : Fin n) : (s.procs q).started ⊆ (t.procs q).started := by
  cases moved with
  | rank r moved =>
    by_cases own : q = r
    · subst own
      simpa using moved.commProc.2.2
    · simp [own]
  | makeGid c =>
    obtain ⟨made, proc, -⟩ := assignGid_procs job s c q
    rw [proc]
    exact List.Subset.refl _
  | drain => exact List.Subset.refl _

theorem reachable_settled_out (reached : Reachable (jobMachine job) s) (settled : (s.drain.proc p).ckpt.settled = true) :
    (s.drain.proc p).app.inSection = false := by
  obtain ⟨stage, past, -, -, inv⟩ := reachable_stageInv (reachable_refines reached (reachable_jobInv reached).names)
  exact ((inv.ranks p).settled settled).out

structure Agreed (job : Job n) (s : JobState n) : Prop where
  handles : ∀ p q, (s.drain.proc p).ckpt.settled = true → (s.drain.proc q).ckpt.settled = true →
    ∀ c, p ∈ job.members c → q ∈ job.members c → c ∈ (s.procs q).descs → c ∈ (s.procs p).descs
  frees : ∀ p, (s.drain.proc p).ckpt.settled = true → ∀ g c, (g, c) ∈ (s.procs p).pendingFrees →
    ∀ q ∈ job.members c, c ∈ (s.procs q).started

theorem reachable_agreed (reached : Reachable (jobMachine job) s) : Agreed job s := by
  induction reached with
  | start first =>
    cases first
    obtain ⟨all, start⟩ := start_start job
    have running (p : Fin n) : (job.start.drain.proc p).ckpt.settled = false := by
      obtain ⟨clocks, proc, -⟩ := (start.ranks p).proc
      rw [proc]
      rfl
    exact ⟨fun p q settled => by simp [running] at settled, fun p settled => by simp [running] at settled⟩
  | @next s t a before taken ih =>
    have reached : Reachable (jobMachine job) t := .next before taken
    have moved := jobStep_move taken
    have inv := reachable_jobInv before
    -- A process that has just returned agrees with all; the others keep what they have.
    have settledBefore (p : Fin n) (settled : (t.drain.proc p).ckpt.settled = true) :
        (s.drain.proc p).ckpt.settled = true ∨ (t.drain.proc p).ckpt = .drained := by
      rcases moved.refines inv inv.names with same | ⟨b, stepped⟩
      · exact .inl (same ▸ settled)
      · exact step_settled stepped p settled
    have kept (p : Fin n) (settled : (s.drain.proc p).ckpt.settled = true) :=
      moved.kept (reachable_settled_out before settled)
    constructor
    · intro p q settledP settledQ c memberP memberQ live
      rcases settledBefore p settledP with beforeP | returned
      · rcases settledBefore q settledQ with beforeQ | returned
        · rw [(kept q beforeQ).1] at live
          rw [(kept p beforeP).1]
          exact ih.handles p q beforeP beforeQ c memberP memberQ live
        · exact (returned_agree reached returned).1 c q memberQ p memberP live
      · exact (returned_agree reached returned).1 c q memberQ p memberP live
    · intro p settled g c pending q member
      rcases settledBefore p settled with settledP | returned
      · exact moved.started q (ih.frees p settledP g c ((kept p settledP).2 pending) q member)
      · exact (returned_agree reached returned).2 p g c pending q member

/-- A clock that a step erases belongs to a communicator that all members have freed. -/
theorem step_erases (taken : step members d a = some d') {r : Fin n} (held : g ∈ (d.proc r).clocks)
    (gone : g ∉ (d'.proc r).clocks) : d.allFreed members g = true := by
  have erased {g' : Gid} (freed : d.allFreed members g' = true)
      (isNext : (d'.proc r).clocks = (d.proc r).clocks.erase g') : d.allFreed members g = true := by
    by_cases same : g = g'
    · exact same ▸ freed
    · exact absurd (isNext ▸ AList.mem_erase.mpr ⟨same, held⟩) gone
  cases step_seenFrom taken r with
  | app b isApp moved =>
    generalize d'.proc r = q at moved gone erased
    cases moved with
    | move => exact absurd held gone
    | enter c pc unlocked goes entered =>
      cases c with
      | uncounted =>
        cases entered
        exact absurd held gone
      | counted g' free =>
        obtain ⟨clock, -, rfl⟩ := Proc.enter_counted entered
        exact absurd ((AList.mem_insert _).mpr (.inr held)) gone
    | add g' => exact absurd ((AList.mem_insert _).mpr (.inr held)) gone
    | erase g' out unlocked may => exact erased may rfl
  | ckpt isCkpt moved => exact absurd ((moved.mem_clocks g).mpr held) gone
  | erase g' isErase freed same => exact erased freed (by rw [same])
  | released b isRelease same | other same => exact absurd (same ▸ held) gone

theorem JobInv.findVirtComm (inv : JobInv job s) (found : (s.procs p).descs.lookup c = some g) :
    findVirtComm job s p g = some c := by
  have unique (c' : CommId) (found' : (s.procs p).descs.lookup c' = some g) : c' = c :=
    inv.gids.distinct c' c g ((inv.ranks p).live c' g found').1 ((inv.ranks p).live c g found).1
  unfold Mana.Comm.findVirtComm
  split
  · next world => exact congrArg some (unique _ world)
  · split
    · next self => exact congrArg some (unique _ self)
    · cases search : (s.procs p).descs.entries.find? (fun desc => desc.2 == g) with
      | none =>
        have none_ := List.find?_eq_none.mp search ⟨c, g⟩ (Assoc.mem_entries_of_lookup found)
        simp at none_
      | some desc =>
        obtain ⟨c', g'⟩ := desc
        have same : g' = g := by simpa using List.find?_some search
        subst same
        exact congrArg some (unique c' (Assoc.lookup_of_mem_entries (List.mem_of_find?_eq_some search)))

/-- The communicators of the job. No two have the same gid. A process erases a clock only
after every member has counted its `MPI_Comm_free`. When the drain returns on a process,
a communicator's handle is live on all members or on none, and all of them have started
the barriers that are pending. So `complete_comm_free_barriers` waits for no barrier that
a member has not started, and `find_virt_comm` finds the gid that another member, after
the drain, posted for a live handle. -/
theorem comm_liveness_agreement (reached : Reachable (jobMachine job) s) :
    (∀ c c' g, s.gidOf c = some g → s.gidOf c' = some g → c = c') ∧
      (∀ a t r g, (jobMachine job).step s a = some t → g ∈ (s.drain.proc r).clocks → g ∉ (t.drain.proc r).clocks →
        ∃ c, s.gidOf c = some g ∧ ∀ q ∈ job.members c, g ∈ (s.drain.proc q).freed) ∧
      (∀ p, (s.drain.proc p).ckpt = .drained →
        (∀ c, (∀ q ∈ job.members c, c ∈ (s.procs q).descs) ∨ ∀ q ∈ job.members c, c ∉ (s.procs q).descs) ∧
        ∀ q g c, (g, c) ∈ (s.procs q).pendingFrees → ∀ q' ∈ job.members c, c ∈ (s.procs q').started) ∧
      (∀ p, (s.drain.proc p).ckpt = .drainedAll → ∀ g c, (g, c) ∈ (s.procs p).pendingFrees →
        s.allStarted job c = true) ∧
      ∀ q c g t p, (s.procs q).descs.lookup c = some g →
        Within (jobMachine job) (fun x => (x.drain.proc q).ckpt.settled = true) s t →
        (t.drain.proc p).ckpt.settled = true → p ∈ job.members c → findVirtComm job t p g = some c := by
  have inv := reachable_jobInv reached
  refine ⟨inv.gids.distinct, fun a t r g taken held gone => ?_, fun p returned => ?_, fun p ends g c pending => ?_,
    fun q c g t p found path settled member => ?_⟩
  · obtain ⟨c, gid, -, same⟩ := inv.clock_name inv.names held
    rcases (jobStep_move taken).refines inv inv.names with unchanged | ⟨b, stepped⟩
    · rw [unchanged] at gone
      exact absurd held gone
    · have freed := step_erases stepped held gone
      rw [State.allFreed, decide_eq_true_eq, same] at freed
      exact ⟨c, gid, freed⟩
  · obtain ⟨handles, frees⟩ := returned_agree reached returned
    refine ⟨fun c => ?_, frees⟩
    by_cases some_ : ∃ q ∈ job.members c, c ∈ (s.procs q).descs
    · obtain ⟨q, member, live⟩ := some_
      exact .inl (fun q' member' => handles c q member q' member' live)
    · push Not at some_
      exact .inr some_
  · rw [allStarted_iff]
    exact (reachable_agreed reached).frees p (by rw [ends]; rfl) g c pending
  · have reachedT := path.reachable reached
    have invT := reachable_jobInv reachedT
    -- The poster has still the handle.
    have posted : (t.procs q).descs.lookup c = some g := by
      refine path.invariant (fun x => (x.procs q).descs.lookup c = some g) reached found ?_
      intro x a y reachedX settledX _ posted taken
      rw [((jobStep_move taken).kept (reachable_settled_out reachedX settledX)).1]
      exact posted
    obtain ⟨gid, entered, -⟩ := (invT.ranks q).live c g posted
    have live := (reachable_agreed reachedT).handles p q settled path.target c member
      ((invT.ranks q).entered c entered).1 (Assoc.mem_of_lookup posted)
    obtain ⟨g', found'⟩ := isSome_iff_exists.mp (AList.lookup_isSome.mpr live)
    obtain rfl := some.inj (gid.symm.trans ((invT.ranks p).live c g' found').1)
    exact invT.findVirtComm found'

/-- The safety of the drain, for a job that makes and frees communicators. When the drain returns on a process, no
process is in a critical section, and all that have a handle of a communicator have counted the same calls on it. -/
theorem job_drain_safety (reached : Reachable (jobMachine job) s) (returned : (s.drain.proc p).ckpt = .drained) :
    (∀ q, (s.drain.proc q).app.inSection = false) ∧
      ∀ c q q' g g', (s.procs q).descs.lookup c = some g → (s.procs q').descs.lookup c = some g' →
        g = g' ∧ (s.drain.proc q).calls.count g = (s.drain.proc q').calls.count g := by
  have inv := reachable_jobInv reached
  have refined := reachable_refines reached inv.names
  obtain ⟨held, agree⟩ := returned_held refined returned
  refine ⟨fun q => (held q).frozen.2.out, fun c q q' g g' found found' => ?_⟩
  obtain ⟨gid, -, present, -⟩ := (inv.ranks q).live c g found
  obtain ⟨gid', -, present', -⟩ := (inv.ranks q').live c g' found'
  obtain rfl := mem_unique gid gid'
  obtain ⟨clock, isClock⟩ := isSome_iff_exists.mp (AList.lookup_isSome.mpr present)
  obtain ⟨clock', isClock'⟩ := isSome_iff_exists.mp (AList.lookup_isSome.mpr present')
  refine ⟨rfl, ?_⟩
  calc (s.drain.proc q).calls.count g
      = clock.seq := ((reachable_clockInv refined q).counts.held g clock isClock).symm
    _ = clock'.seq := agree g q q' clock clock' isClock isClock'
    _ = (s.drain.proc q').calls.count g := (reachable_clockInv refined q').counts.held g clock' isClock'

end Agree

/-! Two processes duplicate the world communicator; one frees the copy before the
checkpoint, the other in the drain. -/

def dupJob (first second : Fin 2) : Job 2 where
  members := fun c => if c = 1 then {first} else if c = 2 then {second} else Finset.univ
  root := fun c => if c = 2 then second else first
  root_mem := by
    intro c
    by_cases isFirst : c = 1
    · simp [isFirst]
    · by_cases isSecond : c = 2
      · simp [isSecond]
      · simp [isFirst, isSecond]
  free := fun c k => c = 4 ∧ k = 1
  world := 0
  self := fun r => 1 + r
  ssendAck := 3
  distinct := by decide

def dupActions (first second : Fin 2) : List (JobAction 2) :=
  [.begin_ first (.create 0 4), .lock first, .begin_ second (.create 0 4), .lock second, .makeGid first, .addClock first,
    .addVirtId first, .finish first, .thread first .readPending, .thread first .done, .addClock second,
    .addVirtId second, .finish second, .thread second .readPending, .thread second .done]

def freeActions (r : Fin 2) : List (JobAction 2) := [.begin_ r (.free 4), .lock r, .startFree r, .finish r]

def checkpointActions (first second : Fin 2) : List (JobAction 2) :=
  List.replicate 2 (.ckpt first) ++ List.replicate 2 (.ckpt second) ++
    [.release (.shareSeqNum 0), .ckpt first, .ckpt second] ++ freeActions second ++ List.replicate 3 (.ckpt first) ++
    List.replicate 3 (.ckpt second) ++ [.release (.presuspend 0 0)] ++ List.replicate 4 (.ckpt first)

theorem comm_liveness_agreement_two_ranks : ∃ s, Reachable (jobMachine (dupJob 0 1)) s ∧ (s.drain.proc 0).ckpt = .drained ∧
    (s.procs 0).pendingFrees = [(6, 4)] ∧ 4 ∈ (s.procs 1).started := by
  have ran : (((jobMachine (dupJob 0 1)).run (dupJob 0 1).start (dupActions 0 1 ++ freeActions 0 ++ checkpointActions 0 1)).map
      (fun s => ((s.drain.proc 0).ckpt, (s.procs 0).pendingFrees))) = some (.drained, [(6, 4)]) := by
    decide +kernel
  obtain ⟨s, ran, ends⟩ := map_eq_some_iff.mp ran
  simp only [Prod.mk.injEq] at ends
  have reached : Reachable (jobMachine (dupJob 0 1)) s := (Reachable.start rfl).run ran
  obtain ⟨-, -, returned, -⟩ := comm_liveness_agreement reached
  refine ⟨s, reached, ends.1, ends.2, (returned 0 ends.1).2 0 6 4 ?_ 1 ?_⟩
  · rw [ends.2]
    exact List.mem_singleton_self _
  · simp [dupJob]

theorem job_drain_safety_two_ranks : ∃ s, Reachable (jobMachine (dupJob 0 1)) s ∧ (s.drain.proc 0).ckpt = .drained ∧
    ∀ q, (s.drain.proc q).app.inSection = false := by
  have ran : (((jobMachine (dupJob 0 1)).run (dupJob 0 1).start (dupActions 0 1 ++ freeActions 0 ++ checkpointActions 0 1)).map
      (fun s => (s.drain.proc 0).ckpt)) = some .drained := by
    decide +kernel
  obtain ⟨s, ran, returned⟩ := map_eq_some_iff.mp ran
  have reached : Reachable (jobMachine (dupJob 0 1)) s := (Reachable.start rfl).run ran
  exact ⟨s, reached, returned, (job_drain_safety reached returned).1⟩

end Mana.Comm
