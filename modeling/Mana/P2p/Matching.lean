import Mana.P2p.Outcome

/-! Which receive gets a dummy. A dummy is an ordinary message: a pending `MPI_Irecv` that was
posted before the blocked `MPI_Recv` and accepts the envelope of its dummy takes the dummy. -/

namespace Mana.P2p
open Mana.Lib Mana.Collective

variable {n : Nat}

def AppPc.blockedRecv : AppPc n → Option (PendingRecv n × Nat)
  | .recvBlocked recv posted => some (recv, posted)
  | _ => none

def Proc.postingsFor (p : Proc n) (m : Msg n) : List Nat :=
  (p.log.filter fun q => q.type == .irecv && q.real == .active && q.pattern.accepts m.env).map Req.posted ++
    (p.app.blockedRecv.toList.filter fun recv => recv.1.accepts m.env).map Prod.snd

def earliestPosted (s : State n) : Action n → Prop
  | .lower r (.take k i) =>
      ∀ m ∈ (s.proc r).inbox[k]?, ∀ q ∈ (s.proc r).log[i]?, ∀ j ∈ (s.proc r).postingsFor m, q.posted ≤ j
  | .lower r (.takeRecv k) =>
      ∀ m ∈ (s.proc r).inbox[k]?, ∀ recv ∈ (s.proc r).app.blockedRecv, ∀ j ∈ (s.proc r).postingsFor m, recv.2 ≤ j
  | _ => True

instance (s : State n) : (a : Action n) → Decidable (earliestPosted s a)
  | .lower r (.take k i) => inferInstanceAs (Decidable
      (∀ m ∈ (s.proc r).inbox[k]?, ∀ q ∈ (s.proc r).log[i]?, ∀ j ∈ (s.proc r).postingsFor m, q.posted ≤ j))
  | .lower r (.takeRecv k) => inferInstanceAs (Decidable
      (∀ m ∈ (s.proc r).inbox[k]?, ∀ recv ∈ (s.proc r).app.blockedRecv, ∀ j ∈ (s.proc r).postingsFor m, recv.2 ≤ j))
  | .lower _ (.finish _) | .app .. | .ckpt .. | .ckptDb .. | .ckptSend .. | .release .. => .isTrue trivial

def Proc.recvBefore (p : Proc n) (posted : Nat) : Bool := p.app.blockedRecv.any fun recv => recv.2 < posted

/-- No `MPI_Irecv` that is pending where a dummy is accepts it, unless the `MPI_Recv` that the
dummy answers was posted before. -/
def dummiesUnmatched (s : State n) : Prop :=
  ∀ r, ∀ m ∈ (s.proc r).inbox, m.dummy = true → ∀ q ∈ (s.proc r).log, q.type = .irecv → q.real = .active →
    q.pattern.accepts m.env = true → (s.proc r).recvBefore q.posted = true

instance (s : State n) : Decidable (dummiesUnmatched s) :=
  inferInstanceAs (Decidable (∀ r, ∀ m ∈ (s.proc r).inbox, m.dummy = true → ∀ q ∈ (s.proc r).log, q.type = .irecv →
    q.real = .active → q.pattern.accepts m.env = true → (s.proc r).recvBefore q.posted = true))

/-- A lower half that matches in posting order, and dummies that meet no earlier receive. -/
def matchesRecv (s : State n) (a : Action n) : Prop := earliestPosted s a ∧ dummiesUnmatched s

instance (s : State n) (a : Action n) : Decidable (matchesRecv s a) :=
  inferInstanceAs (Decidable (earliestPosted s a ∧ dummiesUnmatched s))

theorem AppPc.published_of_blockedRecv {pc : AppPc n} {recv : PendingRecv n} {posted : Nat}
    (blocked : (recv, posted) ∈ pc.blockedRecv) : recv ∈ pc.published := by
  cases pc with
  | recvBlocked recv' posted' =>
    cases blocked
    rfl
  | _ => cases blocked

section Matching
variable {cfg : Config n} {s t : State n} {stage : Stage}

/-- Then the blocked `MPI_Recv` is the first receive that accepts its dummy. -/
theorem Drains.keeps_of_matches (drains : Drains cfg s stage) {a : Action n} (first : matchesRecv s a)
    (moved : Move cfg s a t) : keepsDummies s a := by
  cases moved with
  | lower r a moved =>
    cases moved with
    | take k i m q message entry irecv active accepts =>
      intro m' isMessage
      rw [message] at isMessage
      cases isMessage
      cases dummy : m.dummy with
      | false => rfl
      | true =>
        obtain ⟨earliest, unmatched⟩ := first
        have member := List.mem_of_getElem? message
        have before := unmatched r m member dummy q (List.mem_of_getElem? entry) irecv active accepts
        cases blocked : (s.proc r).app.blockedRecv with
        | none =>
          rw [Proc.recvBefore, blocked] at before
          cases before
        | some recv =>
          have pending : (s.proc r).pending = recv.1 :=
            (drains.sound r).guarded.pending recv.1 (AppPc.published_of_blockedRecv blocked)
          have accepted : recv.1.accepts m.env = true := pending ▸ drains.answered.inbox r m member dummy
          have candidate : recv.2 ∈ (s.proc r).postingsFor m := by
            refine List.mem_append_right _ ?_
            simp [blocked, accepted]
          have late := earliest m message q entry recv.2 candidate
          have early : recv.2 < q.posted := by simpa [Proc.recvBefore, blocked] using before
          omega
    | takeRecv => trivial
    | finish => trivial
  | _ => trivial

theorem reachable_keeps [NeZero n] (reached : Reachable ((machine cfg).restrict matchesRecv) s) :
    Reachable ((machine cfg).restrict keepsDummies) s := by
  induction reached with
  | start first => exact .start first
  | next before taken ih =>
    obtain ⟨first, taken⟩ := restrict_step.mp taken
    obtain ⟨stage, drains⟩ := reachable_drains ih
    exact ih.next (restrict_step.mpr ⟨drains.keeps_of_matches first (step_move taken), taken⟩)

theorem State.Answered.arrived {r : Fin n} (answered : s.Answered cfg) (all : ∀ q, (s.proc q).pastSend cfg)
    (recorded : s.records r ≠ 0) (active : (s.proc r).slot = .active) :
    ∃ m ∈ (s.proc r).held ++ (s.proc r).inbox, m.dummy = true := by
  have unsent : s.unsent r = 0 := by
    refine Finset.sum_eq_zero fun q _ => ?_
    rw [State.unsentBy, answered.all q (all q), List.drop_length]
    rfl
  have due : (s.proc r).due = 1 := by
    rw [answered.recorded] at recorded
    simp [Proc.due, active, Nat.one_le_iff_ne_zero.mpr recorded]
  have one := answered.one r
  rw [unsent, due, Proc.outstanding, ← List.countP_append] at one
  exact List.countP_pos_iff.mp (by omega)

theorem dummy_reaches_recv (reached : Reachable ((machine cfg).restrict matchesRecv) s) (r : Fin n) :
    (∀ q ∈ (s.proc r).log, ∀ m ∈ q.real.message, m.dummy = false) ∧ (∀ m ∈ (s.proc r).queue, m.dummy = false) ∧
    (∀ m ∈ (s.proc r).counted, m.dummy = false) ∧
    (∀ m ∈ (s.proc r).inbox, m.dummy = true → (s.proc r).slot = .active ∧ (s.proc r).pending.accepts m.env = true) ∧
    (s.records r ≠ 0 → (s.proc r).slot = .active → s.unsent r + (s.proc r).outstanding Msg.dummy = 1 ∧
      ((∀ q, (s.proc q).pastSend cfg) → ∃ m ∈ (s.proc r).held ++ (s.proc r).inbox, m.dummy = true)) ∧
    (cfg.drainHasNoBarrier = true → (s.proc r).ckpt = .doneWait ∨ (s.proc r).ckpt = .drained →
      (s.proc r).slot ≠ .active) ∧
    ((s.proc r).ckpt = .suspendBarrier → (s.proc r).app.outside = true ∧
      ∀ m ∈ (s.proc r).addressed, m.dummy = true → m ∈ (s.proc r).discarded) := by
  have := neZero_of_rank r
  obtain ⟨stage, drains⟩ := reachable_drains (reachable_keeps reached)
  obtain ⟨guarded, handled, conserves⟩ := drains.sound r
  have classified := drains.classified r
  refine ⟨classified.requests, classified.queued, classified.counted, drains.answers, fun recorded active => ⟨?_, fun all => ?_⟩,
    fun noBarrier ends => ?_, fun settled => ⟨?_, fun m member dummy => ?_⟩⟩
  · rw [drains.answered.one r]
    rw [drains.answered.recorded] at recorded
    simp [Proc.due, active, Nat.one_le_iff_ne_zero.mpr recorded]
  · exact drains.answered.arrived all recorded active
  · refine (drains.finished r).slot noBarrier ?_
    rw [← drains.inStage.same r]
    rcases ends with pc | pc <;> simp [Proc.stage, pc]
  · exact guarded.outside (by rw [settled]; rfl)
  · have inactive := guarded.not_active (by rw [settled]; rfl)
    have somewhere := conserves.perm.mem_iff.mpr member
    simp only [List.mem_append] at somewhere
    rcases somewhere with ((counted | discarded) | held) | inbox
    · rw [classified.counted m counted] at dummy
      cases dummy
    · exact discarded
    · have some : 1 ≤ (s.proc r).outstanding Msg.dummy := by
        have : 0 < (s.proc r).held.countP Msg.dummy := List.countP_pos_iff.mpr ⟨m, held, dummy⟩
        unfold Proc.outstanding
        omega
      exact absurd (drains.answered.of_outstanding some).2 inactive
    · exact absurd (drains.answers m inbox dummy).1 inactive

end Matching

theorem dummy_reaches_recv_two_ranks : ∃ s, Reachable ((machine pairConfig).restrict matchesRecv) s ∧
    (s.proc 1).slot = .active ∧ ∃ m ∈ (s.proc 1).held ++ (s.proc 1).inbox, m.dummy = true := by
  have ran : ((((machine pairConfig).restrict matchesRecv).run (firstState 2) (blockActions 1 ++ toCas ++ dummyStep 0 1)).map
      fun s => ((s.proc 1).slot, s.records 1, decide ((s.proc 0).locals.dummyPass = 4 ∧ (s.proc 1).locals.dummyPass = 4))) =
      some (.active, 1, true) := by
    decide +kernel
  obtain ⟨s, ran, ends⟩ := Option.map_eq_some_iff.mp ran
  simp only [Prod.mk.injEq, decide_eq_true_eq] at ends
  obtain ⟨active, recorded, passes⟩ := ends
  have reached : Reachable ((machine pairConfig).restrict matchesRecv) s := (Reachable.start rfl).run ran
  obtain ⟨-, -, -, -, answered, -⟩ := dummy_reaches_recv reached 1
  refine ⟨s, reached, active, (answered (by omega) active).2 fun q => .inl ⟨rfl, ?_⟩⟩
  match q with
  | 0 => exact passes.1.ge
  | 1 => exact passes.2.ge

/-- Rank 1 has a pending `MPI_Irecv` from any source with any tag when it blocks in `MPI_Recv`:
the dummy for the `MPI_Recv` completes the `MPI_Irecv` and is counted, and the `MPI_Recv` waits on. -/
theorem dummy_completes_irecv : ∃ s, Reachable ((machine pairConfig).restrict earliestPosted) s ∧
    (∃ m ∈ (s.proc 1).counted, m.dummy = true) ∧ (s.proc 1).recv = 1 ∧ (s.proc 1).completed = [0] ∧
      (s.proc 1).app = .recvBlocked blockedRecv 1 ∧ (s.proc 1).inbox = [] ∧ s.unsent 1 = 0 := by
  have ran : ((((machine pairConfig).restrict earliestPosted).run (firstState 2)
      (.app 1 (.irecv { comm := 0, source := .any, tag := none }) :: blockActions 1 ++ toCas ++ dummyStep 0 1 ++
        [.lower 1 (.take 0 0), .ckpt 1 (.test 0)])).map
      fun s => decide ((∃ m ∈ (s.proc 1).counted, m.dummy = true) ∧ (s.proc 1).recv = 1 ∧ (s.proc 1).completed = [0] ∧
        (s.proc 1).app = .recvBlocked blockedRecv 1 ∧ (s.proc 1).inbox = [] ∧ s.unsent 1 = 0)) = some true := by
    decide +kernel
  obtain ⟨s, ran, ends⟩ := Option.map_eq_some_iff.mp ran
  exact ⟨s, (Reachable.start rfl).run ran, of_decide_eq_true ends⟩

end Mana.P2p
