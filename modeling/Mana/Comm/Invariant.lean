import Mana.Comm.Moves

/-! The invariant of the communicators: which handles are live, whose clocks a process
holds, and which gids are whose. -/

namespace Mana.Comm
open Mana.Lib Mana.Collective Option Function

structure CommInv {n : Nat} (job : Job n) (gidOf : CommId → Option Gid) (allStarted : CommId → Bool) (r : Fin n)
    (p : Proc) (cp : CommProc) : Prop where
  idle : beginning p.app = none → p.app.inSection = false → cp.op = none
  begins : ∀ call, beginning p.app = some call → ∃ op, cp.op = some op ∧ Begins job r p cp op call
  creating : ∀ c, cp.creating p = some c → c ∈ cp.entered ∧ ∀ g ∈ p.freed, gidOf c ≠ some g
  freeing : ∀ c, cp.freeing p = some c → ∃ g ∈ p.freed, gidOf c = some g
  live : ∀ c g, cp.descs.lookup c = some g → gidOf c = some g ∧ c ∈ cp.entered ∧ g ∈ p.clocks ∧
    (g ∈ p.freed → cp.freeing p = some c)
  clock : ∀ g ∈ p.clocks, ∃ c, gidOf c = some g ∧ c ∈ cp.entered ∧
    (c ∈ cp.descs ∨ g ∈ p.freed ∨ cp.creating p = some c)
  entered : ∀ c ∈ cp.entered, r ∈ job.members c ∧
    (cp.creating p = some c ∨ ∃ g, gidOf c = some g ∧ (c ∈ cp.descs ∨ g ∈ p.freed))
  freed : ∀ g ∈ p.freed, ∃ c, gidOf c = some g ∧ c ∈ cp.entered ∧ (c ∈ cp.descs ∨ c ∈ cp.started) ∧
    1 ≤ p.calls.count g ∧ job.free c (p.calls.count g) = true
  called : ∀ g, 1 ≤ p.calls.count g → ∃ c, gidOf c = some g ∧
    (job.free c (p.calls.count g) = true → g ∈ p.freed)
  started : ∀ c ∈ cp.started, c ∉ cp.descs ∧ ∃ g ∈ p.freed, gidOf c = some g
  pending : ∀ g c, (g, c) ∈ cp.pendingFrees → gidOf c = some g ∧ c ∈ cp.started ∧ g ∈ p.clocks
  nodup : cp.pendingFrees.Nodup
  erased : ∀ g ∈ p.freed, g ∉ p.clocks → ∃ c, gidOf c = some g ∧ allStarted c = true

def Distinct (gidOf : CommId → Option Gid) : Prop := ∀ c c' g, gidOf c = some g → gidOf c' = some g → c = c'

section Out
variable {p : Proc} {cp : CommProc}

theorem creating_of_out (out : p.app.inSection = false) : cp.creating p = none := by simp [CommProc.creating, out]

theorem freeing_of_out (out : p.app.inSection = false) : cp.freeing p = none := by simp [CommProc.freeing, out]

theorem beginning_out {app : AppPc} {call : Call} (begins : beginning app = some call) : app.inSection = false := by
  cases app <;> first | rfl | cases begins

end Out

section Process
variable {n : Nat} {job : Job n} {gidOf gidOf' : CommId → Option Gid} {allStarted allStarted' : CommId → Bool} {r : Fin n}
  {p q : Proc} {cp : CommProc}

theorem CommInv.grow (inv : CommInv job gidOf allStarted r p cp) (app : q.app = p.app) (calls : q.calls = p.calls)
    (freed : q.freed = p.freed) (clocks : ∀ g, g ∈ q.clocks ↔ g ∈ p.clocks)
    (more : ∀ c g, gidOf c = some g → gidOf' c = some g) (distinct : Distinct gidOf')
    (all : ∀ c, allStarted c = true → allStarted' c = true) (made : Nat) :
    CommInv job gidOf' allStarted' r q { cp with gidsMade := made } := by
  have creating : CommProc.creating { cp with gidsMade := made } q = cp.creating p := by
    simp only [CommProc.creating, app]
  have freeing : CommProc.freeing { cp with gidsMade := made } q = cp.freeing p := by
    simp only [CommProc.freeing, app]
  constructor
  case idle => rw [app]; exact inv.idle
  case begins =>
    intro call begins
    rw [app] at begins
    obtain ⟨op, current, begins⟩ := inv.begins call begins
    exact ⟨op, current, begins.new, by rw [calls]; exact begins.counts⟩
  case creating =>
    intro c making
    rw [creating] at making
    obtain ⟨entered, unfreed⟩ := inv.creating c making
    refine ⟨entered, fun g isFreed gid => ?_⟩
    rw [freed] at isFreed
    obtain ⟨c', gid', -⟩ := inv.freed g isFreed
    obtain rfl := distinct c c' g gid (more c' g gid')
    exact unfreed g isFreed gid'
  case freeing =>
    intro c frees
    rw [freeing] at frees
    obtain ⟨g, isFreed, gid⟩ := inv.freeing c frees
    exact ⟨g, freed ▸ isFreed, more c g gid⟩
  case live =>
    intro c g found
    obtain ⟨gid, entered, clock, frees⟩ := inv.live c g found
    rw [freed, freeing]
    exact ⟨more c g gid, entered, (clocks g).mpr clock, frees⟩
  case clock =>
    intro g clock
    obtain ⟨c, gid, entered, holds⟩ := inv.clock g ((clocks g).mp clock)
    rw [freed, creating]
    exact ⟨c, more c g gid, entered, holds⟩
  case entered =>
    intro c entered
    obtain ⟨member, making | ⟨g, gid, holds⟩⟩ := inv.entered c entered
    · exact ⟨member, .inl (creating.trans making)⟩
    · exact ⟨member, .inr ⟨g, more c g gid, by rw [freed]; exact holds⟩⟩
  case freed =>
    rw [freed, calls]
    intro g isFreed
    obtain ⟨c, gid, rest⟩ := inv.freed g isFreed
    exact ⟨c, more c g gid, rest⟩
  case called =>
    rw [freed, calls]
    intro g called
    obtain ⟨c, gid, last⟩ := inv.called g called
    exact ⟨c, more c g gid, last⟩
  case started =>
    intro c started
    obtain ⟨gone, g, isFreed, gid⟩ := inv.started c started
    exact ⟨gone, g, freed ▸ isFreed, more c g gid⟩
  case pending =>
    intro g c pending
    obtain ⟨gid, started, clock⟩ := inv.pending g c pending
    exact ⟨more c g gid, started, (clocks g).mpr clock⟩
  case nodup => exact inv.nodup
  case erased =>
    rw [freed]
    intro g isFreed gone
    obtain ⟨c, gid, complete⟩ := inv.erased g isFreed (fun clock => gone ((clocks g).mpr clock))
    exact ⟨c, more c g gid, all c complete⟩

theorem CommInv.relocate (inv : CommInv job gidOf allStarted r p cp) (phase : Phase) (app : AppPc) (op : Option Op)
    (out : app.inSection = false) (idle : beginning app = none → op = none)
    (begins : ∀ call, beginning app = some call → ∃ op', op = some op' ∧ Begins job r p cp op' call)
    (created : ∀ c, cp.creating p = some c → c ∈ cp.descs) (freed : ∀ c, cp.freeing p = some c → c ∉ cp.descs) :
    CommInv job gidOf allStarted r { p with currentPhase := phase, app := app } { cp with op := op } := by
  have creating : CommProc.creating { cp with op := op } { p with currentPhase := phase, app := app } = none :=
    creating_of_out out
  have freeing : CommProc.freeing { cp with op := op } { p with currentPhase := phase, app := app } = none :=
    freeing_of_out out
  refine { inv with idle := ?idle, begins := ?begins, creating := ?creating, freeing := ?freeing, live := ?live, clock := ?clock, entered := ?entered }
  case idle => exact fun none_ _ => idle none_
  case begins =>
    intro call begins'
    obtain ⟨op', current, begins'⟩ := begins call begins'
    exact ⟨op', current, begins'.new, begins'.counts⟩
  case creating => simp [creating]
  case freeing => simp [freeing]
  case live =>
    intro c g found
    obtain ⟨gid, entered, clock, frees⟩ := inv.live c g found
    exact ⟨gid, entered, clock, fun isFreed => absurd (Assoc.mem_of_lookup found) (freed c (frees isFreed))⟩
  case clock =>
    intro g clock
    obtain ⟨c, gid, entered, live | isFreed | making⟩ := inv.clock g clock
    · exact ⟨c, gid, entered, .inl live⟩
    · exact ⟨c, gid, entered, .inr (.inl isFreed)⟩
    · exact ⟨c, gid, entered, .inl (created c making)⟩
  case entered =>
    intro c entered
    obtain ⟨member, making | holds⟩ := inv.entered c entered
    · have live := created c making
      obtain ⟨g, found⟩ := isSome_iff_exists.mp (AList.lookup_isSome.mpr live)
      exact ⟨member, .inr ⟨g, (inv.live c g found).1, .inl live⟩⟩
    · exact ⟨member, .inr holds⟩

structure Entered (job : Job n) (gidOf : CommId → Option Gid) (p q : Proc) (op : Op) : Prop where
  inside : q.app.inSection = true
  clocks : ∀ g, g ∈ q.clocks ↔ g ∈ p.clocks
  freed : ∀ g, g ∈ q.freed ↔ g ∈ p.freed ∨ op.frees = true ∧ ∃ c, op.counts = some c ∧ gidOf c = some g
  count : ∀ g, (∃ c, op.counts = some c ∧ gidOf c = some g ∧ g ∉ p.freed ∧ q.calls.count g = p.calls.count g + 1 ∧
      job.free c (q.calls.count g) = op.frees) ∨
    (∀ c, op.counts = some c → gidOf c ≠ some g) ∧ q.calls.count g = p.calls.count g

variable {size : Gid → Nat} {call : Call} {c : CommId} {g : Gid}

theorem CommInv.entered_of_enter (inv : CommInv job gidOf allStarted r p cp) {op : Op} (pc : p.app = .beginLock call)
    (begins : Begins job r p cp op call) (entered : p.enter size call = some q) : Entered job gidOf p q op := by
  rcases begins.counts with ⟨counts, rfl⟩ | ⟨c, g, counts, found, rfl, free⟩
  · simp only [Proc.enter, some.injEq] at entered
    subst entered
    exact ⟨rfl, fun g => Iff.rfl, fun g => by simp [counts], fun g => .inr ⟨by simp [counts], rfl⟩⟩
  · obtain ⟨gid, -, clock, frees⟩ := inv.live c g found
    have unfreed : g ∉ p.freed := by
      intro isFreed
      have freeing := frees isFreed
      rw [freeing_of_out (by rw [pc]; rfl)] at freeing
      cases freeing
    obtain ⟨value, -, rfl⟩ := Proc.enter_counted entered
    refine ⟨rfl, fun g' => ?_, fun g' => ?_, fun g' => ?_⟩
    · rw [AList.mem_insert]
      exact ⟨fun held => held.elim (fun own => own ▸ clock) id, .inr⟩
    · simp only [counts, some.injEq, exists_eq_left', gid]
      split
      · next isFree => simp [isFree, or_comm, eq_comm]
      · next isFree => simp [isFree]
    · by_cases own : g = g'
      · subst own
        left
        refine ⟨c, counts, gid, unfreed, by simp, ?_⟩
        rw [show List.count g (p.calls ++ [g]) = p.calls.count g + 1 by simp, free]
      · right
        refine ⟨fun c' counts' gid' => ?_, by simp [own]⟩
        obtain rfl := mem_unique counts counts'
        exact own (mem_unique gid gid')

theorem CommInv.enter (inv : CommInv job gidOf allStarted r p cp) (distinct : Distinct gidOf)
    (pc : p.app = .beginLock call) (entered : p.enter size call = some q) :
    CommInv job gidOf allStarted r q { cp with entered := (cp.op.bind Op.new).toList ++ cp.entered } := by
  obtain ⟨op, current, begins⟩ := inv.begins call (by rw [pc]; rfl)
  have enters := inv.entered_of_enter pc begins entered
  have out : p.app.inSection = false := by rw [pc]; rfl
  have creatingOld (c : CommId) : cp.creating p ≠ some c := by simp [creating_of_out out]
  have freeingOld (c : CommId) : cp.freeing p ≠ some c := by simp [freeing_of_out out]
  have creating (c : CommId) :
      CommProc.creating { cp with entered := (cp.op.bind Op.new).toList ++ cp.entered } q = some c ↔ op.new = some c := by
    simp [CommProc.creating, enters.inside, current]
  have freeing (c : CommId) :
      CommProc.freeing { cp with entered := (cp.op.bind Op.new).toList ++ cp.entered } q = some c ↔ op = .free c := by
    simp only [CommProc.freeing, enters.inside, current, if_true]
    split
    · next same =>
      cases same
      simp
    · next other => simpa using fun same => other c (congrArg some same)
  have isFree (c : CommId) (frees : op.frees = true) (counts : op.counts = some c) : op = .free c := by
    cases op with
    | free c' => exact congrArg Op.free (some.inj counts)
    | collective | create | createGroup => cases frees
  have more (c : CommId) (old : c ∈ cp.entered) : c ∈ (cp.op.bind Op.new).toList ++ cp.entered :=
    List.mem_append_right _ old
  have freedMore (g : Gid) (old : g ∈ p.freed) : g ∈ q.freed := (enters.freed g).mpr (.inl old)
  constructor
  case idle => simp [enters.inside]
  case begins =>
    intro call' begins'
    have out' := beginning_out begins'
    rw [enters.inside] at out'
    cases out'
  case creating =>
    intro c making
    rw [creating] at making
    refine ⟨by simp [current, making], fun g isFreed gid => ?_⟩
    rcases (enters.freed g).mp isFreed with old | ⟨frees, c', counts, -⟩
    -- The communicator is new, so the process cannot have freed it.
    · obtain ⟨c', gid', entered', -⟩ := inv.freed g old
      obtain rfl := distinct c c' g gid gid'
      exact (begins.new c making).2 entered'
    · rw [isFree c' frees counts] at making
      cases making
  case freeing =>
    intro c frees
    rw [freeing] at frees
    subst frees
    rcases begins.counts with ⟨counts, -⟩ | ⟨c', g, counts, found, -⟩
    · cases counts
    · cases counts
      obtain ⟨gid, -⟩ := inv.live _ g found
      exact ⟨g, (enters.freed g).mpr (.inr ⟨rfl, _, rfl, gid⟩), gid⟩
  case live =>
    intro c g found
    obtain ⟨gid, entered', clock, frees⟩ := inv.live c g found
    refine ⟨gid, more c entered', (enters.clocks g).mpr clock, fun isFreed => ?_⟩
    rcases (enters.freed g).mp isFreed with old | ⟨frees', c', counts, gid'⟩
    · exact absurd (frees old) (freeingOld c)
    · obtain rfl := distinct c c' g gid gid'
      exact (freeing c).mpr (isFree c frees' counts)
  case clock =>
    intro g clock
    obtain ⟨c, gid, entered', live | isFreed | making⟩ := inv.clock g ((enters.clocks g).mp clock)
    · exact ⟨c, gid, more c entered', .inl live⟩
    · exact ⟨c, gid, more c entered', .inr (.inl (freedMore g isFreed))⟩
    · exact absurd making (creatingOld c)
  case entered =>
    intro c entered'
    rcases List.mem_append.mp entered' with new | old
    · have making : op.new = some c := by simpa [current] using new
      exact ⟨(begins.new c making).1, .inl ((creating c).mpr making)⟩
    · obtain ⟨member, making | ⟨g, gid, holds⟩⟩ := inv.entered c old
      · exact absurd making (creatingOld c)
      · exact ⟨member, .inr ⟨g, gid, holds.imp_right (freedMore g)⟩⟩
  case freed =>
    intro g isFreed
    rcases (enters.freed g).mp isFreed with old | ⟨frees, c, counts, gid⟩
    · obtain ⟨c, gid, entered', holds, rest⟩ := inv.freed g old
      rcases enters.count g with ⟨_, _, _, unfreed, _⟩ | ⟨-, same⟩
      · exact absurd old unfreed
      · exact ⟨c, gid, more c entered', holds, by rw [same]; exact rest⟩
    · rcases enters.count g with ⟨c', counts', gid', -, count, free⟩ | ⟨other, -⟩
      · obtain rfl := mem_unique counts counts'
        obtain rfl := isFree c frees counts
        rcases begins.counts with ⟨none_, -⟩ | ⟨c', g', same, found, -⟩
        · cases none_
        · cases same
          exact ⟨_, gid, more _ (inv.live _ g' found).2.1, .inl (Assoc.mem_of_lookup found), by omega, free⟩
      · exact absurd gid (other c counts)
  case called =>
    intro g called
    rcases enters.count g with ⟨c, counts, gid, -, -, free⟩ | ⟨-, same⟩
    · refine ⟨c, gid, fun last => ?_⟩
      rw [free] at last
      exact (enters.freed g).mpr (.inr ⟨last, c, counts, gid⟩)
    · rw [same] at called ⊢
      obtain ⟨c, gid, last⟩ := inv.called g called
      exact ⟨c, gid, fun free => freedMore g (last free)⟩
  case started =>
    intro c started
    obtain ⟨gone, g, isFreed, gid⟩ := inv.started c started
    exact ⟨gone, g, freedMore g isFreed, gid⟩
  case pending =>
    intro g c pending
    obtain ⟨gid, started, clock⟩ := inv.pending g c pending
    exact ⟨gid, started, (enters.clocks g).mpr clock⟩
  case nodup => exact inv.nodup
  case erased =>
    intro g isFreed gone
    rw [enters.clocks] at gone
    rcases (enters.freed g).mp isFreed with old | ⟨-, c, counts, gid⟩
    · exact inv.erased g old gone
    · rcases begins.counts with ⟨none_, -⟩ | ⟨c', g', counts', found, -⟩
      · rw [none_] at counts
        cases counts
      · obtain rfl := mem_unique counts counts'
        obtain ⟨gid', -, clock, -⟩ := inv.live c g' found
        obtain rfl := mem_unique gid gid'
        exact absurd clock gone

theorem CommInv.addClock (inv : CommInv job gidOf allStarted r p cp) (creating : cp.creating p = some c)
    (gid : gidOf c = some g) : CommInv job gidOf allStarted r (p.addCommClock g) cp := by
  have insert (g' : Gid) : g' ∈ (p.addCommClock g).clocks ↔ g' = g ∨ g' ∈ p.clocks := AList.mem_insert _
  refine { inv with begins := ?begins, live := ?live, clock := ?clock, pending := ?pending, erased := ?erased }
  case begins =>
    intro call begins
    obtain ⟨op, current, begins⟩ := inv.begins call begins
    exact ⟨op, current, begins.new, begins.counts⟩
  case live =>
    intro c' g' found
    obtain ⟨gid', entered, clock, frees⟩ := inv.live c' g' found
    exact ⟨gid', entered, (insert g').mpr (.inr clock), frees⟩
  case clock =>
    intro g' clock
    rcases (insert g').mp clock with rfl | clock
    · exact ⟨c, gid, (inv.creating c creating).1, .inr (.inr creating)⟩
    · exact inv.clock g' clock
  case pending =>
    intro g' c' pending
    obtain ⟨gid', started, clock⟩ := inv.pending g' c' pending
    exact ⟨gid', started, (insert g').mpr (.inr clock)⟩
  case erased => exact fun g' isFreed gone => inv.erased g' isFreed (fun clock => gone ((insert g').mpr (.inr clock)))

theorem CommInv.addVirtId (inv : CommInv job gidOf allStarted r p cp) (creating : cp.creating p = some c)
    (gid : gidOf c = some g) (clock : g ∈ p.clocks) :
    CommInv job gidOf allStarted r p { cp with descs := cp.descs.insert c g } := by
  have insert (c' : CommId) : c' ∈ cp.descs.insert c g ↔ c' = c ∨ c' ∈ cp.descs := AList.mem_insert _
  obtain ⟨entered, unfreed⟩ := inv.creating c creating
  refine { inv with begins := ?begins, live := ?live, clock := ?clock, entered := ?entered, freed := ?freed, started := ?started }
  case begins =>
    intro call begins
    have out := beginning_out begins
    rw [creating_of_out out] at creating
    cases creating
  case live =>
    intro c' g' found
    rcases Assoc.lookup_insert_cases found with ⟨rfl, rfl⟩ | ⟨-, found⟩
    · exact ⟨gid, entered, clock, fun isFreed => absurd gid (unfreed g' isFreed)⟩
    · exact inv.live c' g' found
  case clock =>
    intro g' clock'
    obtain ⟨c', gid', entered', holds⟩ := inv.clock g' clock'
    exact ⟨c', gid', entered', holds.imp_left (fun live => (insert c').mpr (.inr live))⟩
  case entered =>
    intro c' entered'
    obtain ⟨member, making | ⟨g', gid', holds⟩⟩ := inv.entered c' entered'
    · exact ⟨member, .inl making⟩
    · exact ⟨member, .inr ⟨g', gid', holds.imp_left (fun live => (insert c').mpr (.inr live))⟩⟩
  case freed =>
    intro g' isFreed
    obtain ⟨c', gid', entered', holds, rest⟩ := inv.freed g' isFreed
    exact ⟨c', gid', entered', holds.imp_left (fun live => (insert c').mpr (.inr live)), rest⟩
  case started =>
    intro c' started
    obtain ⟨gone, g', isFreed, gid'⟩ := inv.started c' started
    refine ⟨fun live => ?_, g', isFreed, gid'⟩
    rcases (insert c').mp live with rfl | live
    · exact unfreed g' isFreed gid'
    · exact gone live

theorem CommInv.startFree (inv : CommInv job gidOf allStarted r p cp) (freeing : cp.freeing p = some c)
    (found : cp.descs.lookup c = some g) :
    CommInv job gidOf allStarted r p
      { cp with descs := cp.descs.erase c, pendingFrees := cp.pendingFrees ++ [(g, c)], started := c :: cp.started } := by
  obtain ⟨gid, entered, clock, -⟩ := inv.live c g found
  have isFreed : g ∈ p.freed := by
    obtain ⟨g', isFreed, gid'⟩ := inv.freeing c freeing
    obtain rfl := mem_unique gid gid'
    exact isFreed
  have fresh : c ∉ cp.started := fun started => (inv.started c started).1 (Assoc.mem_of_lookup found)
  have still (c' : CommId) (live : c' ∈ cp.descs) (other : c' ≠ c) : c' ∈ cp.descs.erase c :=
    AList.mem_erase.mpr ⟨other, live⟩
  refine { inv with begins := ?begins, live := ?live, clock := ?clock, entered := ?entered, freed := ?freed, started := ?started, pending := ?pending, nodup := ?nodup }
  case begins =>
    intro call begins
    have out := beginning_out begins
    rw [freeing_of_out out] at freeing
    cases freeing
  case live =>
    exact fun c' g' found' => inv.live c' g' (Assoc.lookup_of_erase found').2
  case clock =>
    intro g' clock'
    obtain ⟨c', gid', entered', live | rest⟩ := inv.clock g' clock'
    · by_cases own : c' = c
      · subst own
        obtain rfl := mem_unique gid gid'
        exact ⟨c', gid', entered', .inr (.inl isFreed)⟩
      · exact ⟨c', gid', entered', .inl (still c' live own)⟩
    · exact ⟨c', gid', entered', .inr rest⟩
  case entered =>
    intro c' entered'
    obtain ⟨member, making | ⟨g', gid', live | isFreed'⟩⟩ := inv.entered c' entered'
    · exact ⟨member, .inl making⟩
    · by_cases own : c' = c
      · subst own
        exact ⟨member, .inr ⟨g, gid, .inr isFreed⟩⟩
      · exact ⟨member, .inr ⟨g', gid', .inl (still c' live own)⟩⟩
    · exact ⟨member, .inr ⟨g', gid', .inr isFreed'⟩⟩
  case freed =>
    intro g' isFreed'
    obtain ⟨c', gid', entered', live | started, rest⟩ := inv.freed g' isFreed'
    · by_cases own : c' = c
      · exact ⟨c', gid', entered', .inr (own ▸ List.mem_cons_self), rest⟩
      · exact ⟨c', gid', entered', .inl (still c' live own), rest⟩
    · exact ⟨c', gid', entered', .inr (List.mem_cons_of_mem _ started), rest⟩
  case started =>
    intro c' started
    rcases List.mem_cons.mp started with rfl | started
    · exact ⟨fun live => (AList.mem_erase.mp live).1 rfl, g, isFreed, gid⟩
    · obtain ⟨gone, rest⟩ := inv.started c' started
      exact ⟨fun live => gone (AList.mem_erase.mp live).2, rest⟩
  case pending =>
    intro g' c' pending
    rcases List.mem_append.mp pending with old | new
    · obtain ⟨gid', started, clock'⟩ := inv.pending g' c' old
      exact ⟨gid', List.mem_cons_of_mem _ started, clock'⟩
    · obtain ⟨rfl, rfl⟩ := Prod.mk.inj (List.mem_singleton.mp new)
      exact ⟨gid, List.mem_cons_self, clock⟩
  case nodup =>
    refine List.Nodup.append inv.nodup (List.nodup_singleton _) ?_
    rw [List.disjoint_singleton]
    exact fun pending => fresh (inv.pending g c pending).2.1

theorem CommInv.finishFree (inv : CommInv job gidOf allStarted r p cp) (distinct : Distinct gidOf)
    (pending : (g, c) ∈ cp.pendingFrees) (all : allStarted c = true) :
    CommInv job gidOf allStarted r { p with clocks := p.clocks.erase g }
      { cp with pendingFrees := cp.pendingFrees.erase (g, c) } := by
  obtain ⟨gid, started, -⟩ := inv.pending g c pending
  obtain ⟨gone, -⟩ := inv.started c started
  have still (g' : Gid) (clock : g' ∈ p.clocks) (other : g' ≠ g) : g' ∈ p.clocks.erase g :=
    AList.mem_erase.mpr ⟨other, clock⟩
  refine { inv with begins := ?begins, live := ?live, clock := ?clock, pending := ?pending, nodup := ?nodup, erased := ?erased }
  case begins =>
    intro call begins
    obtain ⟨op, current, begins⟩ := inv.begins call begins
    exact ⟨op, current, begins.new, begins.counts⟩
  case live =>
    intro c' g' found
    obtain ⟨gid', entered, clock, frees⟩ := inv.live c' g' found
    refine ⟨gid', entered, still g' clock (fun same => ?_), frees⟩
    subst same
    obtain rfl := distinct c c' g' gid gid'
    exact gone (Assoc.mem_of_lookup found)
  case clock => exact fun g' clock => inv.clock g' (AList.mem_erase.mp clock).2
  case pending =>
    intro g' c' pending'
    obtain ⟨other, pending'⟩ := (inv.nodup.mem_erase_iff).mp pending'
    obtain ⟨gid', started', clock⟩ := inv.pending g' c' pending'
    refine ⟨gid', started', still g' clock (fun same => ?_)⟩
    subst same
    obtain rfl := distinct c c' g' gid gid'
    exact other rfl
  case nodup => exact inv.nodup.erase _
  case erased =>
    intro g' isFreed gone'
    by_cases own : g' = g
    · subst own
      exact ⟨c, gid, all⟩
    · exact inv.erased g' isFreed (fun clock => gone' (still g' clock own))

end Process

/-! All processes. -/

section Job
variable {n : Nat} {job : Job n} {s t : JobState n}
variable {r : Fin n} {c : CommId} {p q : Proc} {cp cq : CommProc}

theorem makeGid_inj {r' : Fin n} {i j : Nat} (same : makeGid n r i = makeGid n r' j) : r = r' ∧ i = j := by
  unfold makeGid at same
  have ranks : (r : Nat) = r' := by
    have mods := congrArg (· % n) same
    simpa [Nat.mul_add_mod_self_right, Nat.mod_eq_of_lt r.isLt, Nat.mod_eq_of_lt r'.isLt] using mods
  refine ⟨Fin.ext ranks, ?_⟩
  rw [ranks, Nat.add_right_cancel_iff] at same
  exact Nat.eq_of_mul_eq_mul_right (Nat.zero_lt_of_lt r.isLt) same

structure Gids (job : Job n) (s : JobState n) : Prop where
  owned : ∀ g c, s.owner g = some c ↔ s.gidOf c = some g
  made : ∀ c g, s.gidOf c = some g → ∃ i < (s.procs (job.root c)).gidsMade, g = makeGid n (job.root c) i

theorem Gids.distinct (gids : Gids job s) : Distinct s.gidOf := by
  intro c c' g gid gid'
  rw [← gids.owned] at gid gid'
  exact mem_unique gid gid'

theorem Gids.fresh (gids : Gids job s) (r : Fin n) (c : CommId) : s.gidOf c ≠ some (makeGid n r (s.procs r).gidsMade) := by
  intro gid
  obtain ⟨i, before, same⟩ := gids.made c _ gid
  obtain ⟨rfl, rfl⟩ := makeGid_inj same
  exact Nat.lt_irrefl _ before

theorem assignGid_gidOf (s : JobState n) (c c' : CommId) : (s.assignGid job c).gidOf c' =
    if c' = c then some (makeGid n (job.root c) (s.procs (job.root c)).gidsMade) else s.gidOf c' :=
  update_apply ..

theorem assignGid_procs (job : Job n) (s : JobState n) (c : CommId) (r : Fin n) : ∃ made,
    (s.assignGid job c).procs r = { s.procs r with gidsMade := made } ∧ (s.procs r).gidsMade ≤ made ∧
      (r = job.root c → made = (s.procs r).gidsMade + 1) := by
  by_cases own : r = job.root c
  · subst own
    exact ⟨_, update_self .., Nat.le_succ _, fun _ => rfl⟩
  · exact ⟨_, update_of_ne own .., Nat.le_refl _, fun same => absurd same own⟩

theorem gidOf_assignGid {c' : CommId} {g : Gid} (unmade : s.gidOf c = none) (gid : s.gidOf c' = some g) :
    (s.assignGid job c).gidOf c' = some g := by
  rw [assignGid_gidOf, if_neg]
  · exact gid
  · rintro rfl
    rw [unmade] at gid
    cases gid

theorem Gids.assignGid (gids : Gids job s) (unmade : s.gidOf c = none) : Gids job (s.assignGid job c) := by
  have fresh := gids.fresh (job.root c)
  have owner (g : Gid) : (s.assignGid job c).owner g =
      if g = makeGid n (job.root c) (s.procs (job.root c)).gidsMade then some c else s.owner g := update_apply ..
  refine ⟨fun g c' => ?_, fun c' g made => ?_⟩
  · rw [assignGid_gidOf, owner]
    generalize makeGid n (job.root c) (s.procs (job.root c)).gidsMade = gid at fresh
    by_cases new : g = gid <;> by_cases own : c' = c
    · simp [new, own]
    · rw [if_pos new, if_neg own, new]
      exact ⟨fun same => absurd (some.inj same).symm own, fun gid' => absurd gid' (fresh c')⟩
    · rw [if_neg new, if_pos own, own, gids.owned, unmade]
      simpa using Ne.symm new
    · rw [if_neg new, if_neg own, gids.owned]
  · obtain ⟨count, proc, more, next⟩ := assignGid_procs job s c (job.root c')
    rw [proc]
    rw [assignGid_gidOf] at made
    split at made
    · next own =>
      subst own
      exact ⟨(s.procs (job.root c')).gidsMade, by rw [next rfl]; exact Nat.lt_succ_self _, (some.inj made).symm⟩
    · obtain ⟨i, before, same⟩ := gids.made c' g made
      exact ⟨i, Nat.lt_of_lt_of_le before more, same⟩

structure JobInv (job : Job n) (s : JobState n) : Prop where
  gids : Gids job s
  entered : ∀ c g, s.gidOf c = some g → ∀ q ∈ job.members c, c ∈ (s.procs q).entered
  ranks : ∀ r, CommInv job s.gidOf (s.allStarted job) r (s.drain.proc r) (s.procs r)

theorem allStarted_iff : s.allStarted job c = true ↔ ∀ q ∈ job.members c, c ∈ (s.procs q).started :=
  decide_eq_true_iff

theorem CommMove.commProc (moved : CommMove job s r p cp q cq) :
    cq.gidsMade = cp.gidsMade ∧ cp.entered ⊆ cq.entered ∧ cp.started ⊆ cq.started := by
  cases moved with
  | enter => exact ⟨rfl, List.subset_append_right _ _, List.Subset.refl _⟩
  | startFree => exact ⟨rfl, List.Subset.refl _, List.subset_cons_self _ _⟩
  | _ => exact ⟨rfl, List.Subset.refl _, List.Subset.refl _⟩

theorem CommInv.move (inv : CommInv job s.gidOf (s.allStarted job) r p cp) (distinct : Distinct s.gidOf)
    (moved : CommMove job s r p cp q cq) : CommInv job s.gidOf (s.allStarted job) r q cq := by
  have outside (app : AppPc) (out : app.inSection = false) (pc : p.app = app) :
      (∀ c, cp.creating p = some c → c ∈ cp.descs) ∧ ∀ c, cp.freeing p = some c → c ∉ cp.descs := by
    have out : p.app.inSection = false := pc ▸ out
    simp [creating_of_out out, freeing_of_out out]
  cases moved with
  | begin_ op call pc begins =>
    refine inv.relocate p.currentPhase _ (some op) rfl (by simp [beginning]) (fun call' begins' => ?_)
      (outside _ rfl pc).1 (outside _ rfl pc).2
    cases begins'
    exact ⟨op, rfl, begins⟩
  | enter call pc unlocked goes entered => exact inv.enter distinct pc entered
  | move app act was out same =>
    refine inv.relocate p.currentPhase app cp.op out ?_ ?_ (outside _ was rfl).1 (outside _ was rfl).2
    · exact fun none_ => inv.idle (same ▸ none_) was
    · exact fun call begins => inv.begins call (same ▸ begins)
  | addClock c g creating gid => exact inv.addClock creating gid
  | addVirtId c g creating gid clock => exact inv.addVirtId creating gid clock
  | startFree c g freeing found => exact inv.startFree freeing found
  | finish created freed => exact inv.relocate .isReady _ none rfl (fun _ => rfl) (by simp [beginning]) created freed
  | finishFree g c where_ pending all => exact inv.finishFree distinct pending all

theorem step_same {members : Gid → Finset (Fin n)} {a : Action n} {d d' : State n} (thread : ∀ r b, a ≠ .app r b)
    (erases : ∀ r g, a ≠ .completeFree r g) (taken : step members d a = some d') (r : Fin n) :
    (d'.proc r).app = (d.proc r).app ∧ (d'.proc r).calls = (d.proc r).calls ∧ (d'.proc r).freed = (d.proc r).freed ∧
      ∀ g, g ∈ (d'.proc r).clocks ↔ g ∈ (d.proc r).clocks := by
  cases step_seenFrom taken r with
  | app b isApp => exact absurd isApp (thread r b)
  | ckpt isCkpt moved => exact ⟨moved.app_eq.1, moved.app_eq.2.1, moved.app_eq.2.2, moved.mem_clocks⟩
  | erase g isErase => exact absurd isErase (erases r g)
  | released b isRelease same | other same =>
    rw [same]
    exact ⟨rfl, rfl, rfl, fun _ => Iff.rfl⟩

theorem JobInv.assignGid (inv : JobInv job s) (unmade : s.gidOf c = none)
    (entered : ∀ q ∈ job.members c, c ∈ (s.procs q).entered) : JobInv job (s.assignGid job c) := by
  have gids := inv.gids.assignGid unmade
  refine ⟨gids, fun c' g made q member => ?_, fun r => ?_⟩
  · obtain ⟨count, proc, -⟩ := assignGid_procs job s c q
    rw [proc]
    rw [assignGid_gidOf] at made
    split at made
    · next own => exact own ▸ entered q (own ▸ member)
    · exact inv.entered c' g made q member
  · obtain ⟨count, proc, -⟩ := assignGid_procs job s c r
    rw [proc]
    refine (inv.ranks r).grow rfl rfl rfl (fun g => Iff.rfl) (fun c' g => gidOf_assignGid unmade) gids.distinct
      (fun c' all => ?_) count
    rw [allStarted_iff] at *
    intro q member
    obtain ⟨count', proc', -⟩ := assignGid_procs job s c q
    rw [proc']
    exact all q member

theorem JobInv.move (inv : JobInv job s) (moved : JobMove job s t) : JobInv job t := by
  cases moved with
  | @rank r q cq moved =>
    obtain ⟨made, entered, started⟩ := moved.commProc
    have all (c : CommId) (complete : s.allStarted job c = true) :
        JobState.allStarted job { s with drain := s.drain.setProc r q, procs := update s.procs r cq } c = true := by
      rw [allStarted_iff] at *
      intro q member
      by_cases own : q = r
      · subst own
        simpa using started (complete q member)
      · simpa [own] using complete q member
    refine ⟨⟨inv.gids.owned, fun c g gid => ?_⟩, fun c g gid q member => ?_, ?_⟩
    · obtain ⟨i, before, same⟩ := inv.gids.made c g gid
      refine ⟨i, ?_, same⟩
      by_cases own : job.root c = r
      · simpa [own, made] using own ▸ before
      · simpa [own] using before
    · by_cases own : q = r
      · subst own
        simpa using entered (inv.entered c g gid q member)
      · simpa [own] using inv.entered c g gid q member
    · intro r'
      by_cases own : r' = r
      · subst own
        have new := (inv.ranks r').move inv.gids.distinct moved
        simpa [State.setProc] using new.grow rfl rfl rfl (fun g => Iff.rfl) (fun c g gid => gid) inv.gids.distinct all _
      · simpa [State.setProc, own] using
          (inv.ranks r').grow rfl rfl rfl (fun g => Iff.rfl) (fun c g gid => gid) inv.gids.distinct all _
  | makeGid c unmade entered => exact inv.assignGid unmade entered
  | drain a thread erases taken =>
    refine ⟨⟨inv.gids.owned, inv.gids.made⟩, inv.entered, fun r => ?_⟩
    obtain ⟨app, calls, freed, clocks⟩ := step_same thread erases (taken (s.members job)) r
    exact (inv.ranks r).grow app calls freed clocks (fun c g gid => gid) inv.gids.distinct (fun c all => all) _

end Job

end Mana.Comm
