import Mana.P2p.Stage

/-! The guard of the lower half and the slot `g_pending_recv`: where an application thread can be
while its rank drains. -/

namespace Mana.P2p
open Mana.Lib Mana.Collective

variable {n : Nat}

def CkptPc.closes : CkptPc → Bool
  | .running | .collective | .resumePhase | .resumeSlot | .acks => false
  | _ => true

def CkptPc.early : CkptPc → Bool
  | .running | .collective | .closing => true
  | _ => false

def CkptPc.settled : CkptPc → Bool
  | .suspendBarrier | .suspended | .resumePhase | .resumeSlot | .acks => true
  | _ => false

def AppPc.entering : AppPc n → Bool
  | .recvIn _ | .recvLooked _ | .recvActive _ => true
  | _ => false

structure Proc.Guarded (p : Proc n) : Prop where
  closed : p.closed = p.ckpt.closes
  entering : p.app.entering = true → p.ckpt.early = true
  outside : p.ckpt.settled = true → p.app.outside = true
  slot : p.slot = .active ↔ p.app.published.isSome = true
  pending : ∀ r ∈ p.app.published, p.pending = r
  known : ∀ r ∈ p.app.receive, r.source ≠ .procNull
  unpublished : p.ckpt = .buffer → ∀ env ∈ p.status, p.pendingRecvMatches env = false

theorem AppPc.published_of_outside {pc : AppPc n} (outside : pc.outside = true) : pc.published = none := by
  cases pc <;> first | rfl | cases outside

theorem Proc.Guarded.not_active {p : Proc n} (guarded : p.Guarded) (settled : p.ckpt.settled = true) :
    p.slot ≠ .active := by
  intro active
  have published := guarded.slot.mp active
  rw [AppPc.published_of_outside (guarded.outside settled)] at published
  cases published

section Guard
variable {cfg : Config n} {db : Db n} {p q : Proc n}

theorem Proc.Guarded.open_of_mayEnter (guarded : p.Guarded) (enters : p.mayEnter = true) :
    p.app = .out ∧ p.ckpt.closes = false ∧ p.ckpt.suspends = false := by
  simp only [Proc.mayEnter, Bool.and_eq_true, Bool.not_eq_true', beq_iff_eq] at enters
  exact ⟨enters.1.1, guarded.closed ▸ enters.1.2, enters.2⟩

theorem Proc.Guarded.of_ckpt (guarded : p.Guarded) (closed : q.closed = p.closed)
    (slot : q.slot = .active ↔ p.slot = .active) (pending : q.pending = p.pending) (app : q.app = p.app)
    (buffer : q.ckpt = .buffer → p.ckpt = .buffer ∧ q.status = p.status) (closes : q.ckpt.closes = p.ckpt.closes)
    (early : p.ckpt.early = true → q.ckpt.early = true) (settled : q.ckpt.settled = true → p.ckpt.settled = true) :
    q.Guarded := by
  refine ⟨?_, fun enters => early (guarded.entering (app ▸ enters)), fun isSettled => ?_, ?_, ?_, ?_,
    fun pc env probed => ?_⟩
  · rw [closed, closes, guarded.closed]
  · rw [app]
    exact guarded.outside (settled isSettled)
  · rw [slot, app]
    exact guarded.slot
  · rw [pending, app]
    exact guarded.pending
  · rw [app]
    exact guarded.known
  · have free := guarded.unpublished (buffer pc).1 env ((buffer pc).2 ▸ probed)
    simp only [Proc.pendingRecvMatches, Bool.and_eq_false_iff, beq_eq_false_iff_ne, ne_eq, slot, pending] at free ⊢
    exact free

theorem Proc.Guarded.congr (guarded : p.Guarded) (closed : q.closed = p.closed) (slot : q.slot = p.slot)
    (pending : q.pending = p.pending) (app : q.app = p.app) (ckpt : q.ckpt = p.ckpt) (status : q.status = p.status) :
    q.Guarded :=
  guarded.of_ckpt closed (by rw [slot]) pending app (fun pc => ⟨ckpt ▸ pc, status⟩) (by rw [ckpt])
    (by rw [ckpt]; exact id) (by rw [ckpt]; exact id)

theorem RecvMove.guarded (moved : RecvMove p q) (awake : p.ckpt.suspends = false) (guarded : p.Guarded) : q.Guarded := by
  obtain ⟨closed, entering, outside, slot, pending, known, unpublished⟩ := guarded
  cases moved with
  | enter r here opened =>
    -- The lower half is open, so the checkpoint thread has not begun to wait.
    have early : p.ckpt.early = true ∧ p.ckpt.settled = false := by
      rw [closed] at opened
      cases pc : p.ckpt <;> simp_all [CkptPc.closes, CkptPc.suspends, CkptPc.early, CkptPc.settled]
    simp only [here, AppPc.published, AppPc.receive] at slot pending known
    exact ⟨closed, fun _ => early.1, fun settled => by simp [early.2] at settled, slot, pending, known, unpublished⟩
  | count r m here =>
    simp only [here, AppPc.published, AppPc.receive, AppPc.outside] at slot pending known outside
    exact ⟨closed, by simp [AppPc.entering], outside, slot, by simp [AppPc.published], by simp [AppPc.receive],
      unpublished⟩
  | publish r here | refuse r here =>
    -- A thread that is about to publish has entered before the drain began.
    have early := entering (by rw [here]; rfl)
    simp only [here, AppPc.outside, AppPc.published, AppPc.receive] at outside slot known
    refine ⟨closed, fun _ => early, outside, ?_, ?_, known, fun pc => ?_⟩
    · simp_all [AppPc.published]
    · simp [AppPc.published]
    · rw [show p.ckpt = .buffer from pc] at early
      cases early
  | _ =>
    simp_all only [AppPc.entering, AppPc.outside, AppPc.published, AppPc.receive]
    constructor <;> simp_all [AppPc.entering, AppPc.outside, AppPc.published, AppPc.receive, Proc.pendingRecvMatches]

variable {me : Fin n} {o : Option (Post n)}

theorem AppMove.guarded (moved : AppMove me p q o) (guarded : p.Guarded) : q.Guarded := by
  cases moved with
  | send comm dest tag enters known =>
    obtain ⟨out, opened, awake⟩ := guarded.open_of_mayEnter enters
    refine ⟨guarded.closed, by simp [AppPc.entering], fun settled => ?_, ?_, by simp [AppPc.published],
      by simp [AppPc.receive], guarded.unpublished⟩
    · -- A rank whose threads have left the lower half is closed or suspended.
      simp only [Proc.countSent] at settled
      cases pc : p.ckpt <;> simp_all [CkptPc.closes, CkptPc.suspends, CkptPc.settled]
    · simpa only [Proc.countSent, out, AppPc.published] using guarded.slot
  | recv r here known =>
    obtain ⟨closed, entering, outside, slot, pending, -, unpublished⟩ := guarded
    refine ⟨closed, by simp [AppPc.entering], by simp [AppPc.outside], ?_, by simp [AppPc.published], ?_, unpublished⟩
    · simpa only [here, AppPc.published] using slot
    · rintro r' isReceive
      cases isReceive
      exact known
  | next awake moved => exact moved.guarded awake guarded
  | _ => exact guarded.congr rfl rfl rfl rfl rfl rfl

theorem LowerMove.guarded {a : LowerAct} (moved : LowerMove p a q) (guarded : p.Guarded) : q.Guarded := by
  cases moved with
  | takeRecv k m r posted message here accepts =>
    obtain ⟨closed, entering, outside, slot, pending, known, unpublished⟩ := guarded
    simp only [here, AppPc.outside, AppPc.published, AppPc.receive] at outside slot pending known
    exact ⟨closed, by simp [AppPc.entering], outside, slot, pending, known, unpublished⟩
  | _ => exact guarded.congr rfl rfl rfl rfl rfl rfl

theorem SlotState.closeIdle_active {slot : SlotState} : slot.closeIdle = .active ↔ slot = .active := by
  cases slot <;> simp [SlotState.closeIdle]

theorem Completes.guarded {i : Nat} {r : Req n} (completes : Completes p i r q) (guarded : p.Guarded) :
    q.Guarded := by
  cases completes <;> exact guarded.congr rfl rfl rfl rfl rfl rfl

theorem CkptMove.guarded (moved : CkptMove cfg p q) (guarded : p.Guarded) : q.Guarded := by
  cases moved with
  | close here =>
    exact ⟨rfl, fun _ => rfl, by simp [Proc.goto, CkptPc.settled], guarded.slot, guarded.pending, guarded.known,
      by simp [Proc.goto]⟩
  | wait here left =>
    have closed := guarded.closed
    rw [here] at closed
    refine ⟨closed, fun enters => ?_, by simp [Proc.goto, CkptPc.settled], guarded.slot, guarded.pending, guarded.known,
      by simp [Proc.goto]⟩
    simp only [Proc.goto] at enters
    cases pc : p.app <;> simp_all [AppPc.entering, AppPc.outside, AppPc.inBlockingCall]
  | closeSlot here | casSlot here =>
    refine guarded.of_ckpt rfl SlotState.closeIdle_active rfl rfl ?_ ?_ ?_ ?_ <;>
      simp [here, Proc.goto, CkptPc.closes, CkptPc.early, CkptPc.settled]
  | notices here | probed here | setPhase here =>
    refine guarded.of_ckpt rfl .rfl rfl rfl ?_ ?_ ?_ ?_ <;> cases noBarrier : cfg.drainHasNoBarrier <;>
      simp [here, noBarrier, Proc.goto, Proc.endPass, CkptPc.closes, CkptPc.early, CkptPc.settled]
  | pass here =>
    refine guarded.of_ckpt rfl .rfl rfl rfl ?_ ?_ ?_ ?_ <;>
      rcases p.locals.dummyPass with _ | _ | _ | _ | d <;>
      simp [here, Proc.goto, Proc.passTurn, CkptPc.closes, CkptPc.early, CkptPc.settled]
  | test here i r entry flag completes => exact completes.guarded guarded
  | unpublished here env status free =>
    obtain ⟨closed, entering, outside, slot, pending, known, -⟩ := guarded
    rw [here] at closed entering outside
    refine ⟨closed, entering, outside, slot, pending, known, fun _ env' probed => ?_⟩
    cases (Option.some.inj (status.symm.trans probed))
    exact free
  | await id here =>
    refine guarded.of_ckpt rfl .rfl rfl rfl ?_ ?_ ?_ ?_ <;>
      simp [here, Proc.goto, CkptPc.closes, CkptPc.early, CkptPc.settled]
  | drained here outside =>
    obtain ⟨closed, entering, -, slot, pending, known, -⟩ := guarded
    rw [here] at closed entering
    exact ⟨closed, entering, fun _ => outside, slot, pending, known, by simp [Proc.goto]⟩
  | allow here =>
    obtain ⟨closed, entering, outside, slot, pending, known, -⟩ := guarded
    rw [here] at entering outside
    exact ⟨rfl, entering, fun _ => outside rfl, slot, pending, known, by simp [Proc.goto]⟩
  | resetSlot here =>
    have inactive : p.slot ≠ .active := guarded.not_active (by rw [here]; rfl)
    refine guarded.of_ckpt rfl ?_ rfl rfl ?_ ?_ ?_ ?_
    · simp [inactive, Proc.goto]
    all_goals simp [here, Proc.goto, CkptPc.closes, CkptPc.early, CkptPc.settled]
  | resume here =>
    have closed := guarded.closed
    rw [here] at closed
    exact ⟨closed, fun _ => rfl, by simp [Proc.goto, CkptPc.settled], guarded.slot, guarded.pending, guarded.known,
      by simp [Proc.goto]⟩
  | _ here =>
    refine guarded.of_ckpt rfl .rfl rfl rfl ?_ ?_ ?_ ?_ <;>
      simp [here, Proc.goto, CkptPc.closes, CkptPc.early, CkptPc.settled]

theorem DbMove.guarded {db' : Db n} (moved : DbMove cfg me db p q db') (guarded : p.Guarded) : q.Guarded := by
  cases moved with
  | post here | noPost here =>
    refine guarded.of_ckpt rfl .rfl rfl rfl ?_ ?_ ?_ ?_ <;> cases noBarrier : cfg.drainHasNoBarrier <;>
      simp [here, noBarrier, Proc.endPass, CkptPc.closes, CkptPc.early, CkptPc.settled]
  | _ here =>
    refine guarded.of_ckpt rfl .rfl rfl rfl ?_ ?_ ?_ ?_ <;>
      simp [here, Proc.goto, CkptPc.closes, CkptPc.early, CkptPc.settled]

theorem SendMove.guarded (moved : SendMove cfg me db p q o) (guarded : p.Guarded) : q.Guarded := by
  cases moved with
  | sent here all =>
    refine guarded.of_ckpt rfl .rfl rfl rfl ?_ ?_ ?_ ?_ <;> cases noBarrier : cfg.drainHasNoBarrier <;>
      simp [here, noBarrier, Proc.endPass, CkptPc.closes, CkptPc.early, CkptPc.settled]
  | _ => exact guarded.congr rfl rfl rfl rfl rfl rfl

theorem Proc.Guarded.released (guarded : p.Guarded) (sums : Counters) {sync : Sync}
    (waits : p.ckpt.waitsAt = some sync) : (p.released sums sync).Guarded := by
  cases pc : p.ckpt <;> rw [pc] at waits <;> cases waits <;>
    refine guarded.of_ckpt rfl .rfl rfl rfl ?_ ?_ ?_ ?_ <;>
    simp [pc, Proc.released, Proc.goto, CkptPc.closes, CkptPc.early, CkptPc.settled]

end Guard

section Ranks
variable {cfg : Config n} {s t : State n}

theorem forall_setProc {holds : Proc n → Prop} (each : ∀ r, holds (s.proc r)) {r : Fin n} {q : Proc n} (own : holds q) :
    ∀ r', holds ((s.setProc r q).proc r') := by
  rw [State.setProc, Function.forall_update_iff s.proc fun _ p => holds p]
  exact ⟨own, fun r' _ => each r'⟩

theorem forall_deliver {holds : Proc n → Prop} (each : ∀ r, holds (s.proc r)) {o : Option (Post n)}
    (arrives : ∀ p o, holds p → holds (p.arrive o)) : ∀ r, holds ((s.deliver o).proc r) := by
  cases o with
  | none => exact each
  | some o => exact forall_setProc each (arrives _ _ (each o.dest))

end Ranks

end Mana.P2p
