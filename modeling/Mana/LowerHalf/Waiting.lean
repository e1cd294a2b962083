import Mana.LowerHalf.Leaving
import Mana.Collective.Safety

/-! Whether the checkpoint thread that closes the lower half can wait for a collective call forever. While the
lower half is closed on a rank, no rank is in a critical section: so a lower-half call inside one keeps nobody
waiting, and one outside of them may. -/

namespace Mana.LowerHalf
open Mana.Lib Mana.Collective Option Function

/-- The rank's application thread may enter the lower-half call only at this point of its wrapper. -/
def Job.CallPlaced {n : Nat} (members : Gid → Finset (Fin n)) (s : Job n) (r : Fin n) : Prop :=
  ∀ c g, (s.rank r).inside = some (c, g) → c.madeAt g (s.drain.proc r).app = true ∧ r ∈ members g

structure JobSound {n : Nat} (members : Gid → Finset (Fin n)) (s : Job n) : Prop where
  drain : Reachable (Collective.machine members) s.drain
  calm : ∀ r, GateCalm (s.rank r).gate
  /-- Before the drain has returned, the lower half is open. -/
  opened : ∀ r, (s.ckpt r).settled = false → (s.rank r).gate.ckpt = .idle ∧ (s.rank r).gate.closed = false
  closes : ∀ r skipBlocked, (s.rank r).gate.ckpt = .storeClosed skipBlocked → (s.rank r).gate.closed = false →
    s.ckpt r = .drained
  held : ∀ q, (s.rank q).gate.closed = true → ∀ r, Held members r s.drain
  placed : ∀ r, s.CallPlaced members r

section Gates

variable {s t : Gate Role}

theorem Gate.closed_of_ckptStep (taken : s.ckptStep .ckpt = some t) (isClosed : t.closed = true) :
    s.closed = true ∨ ∃ skipBlocked, s.ckpt = .storeClosed skipBlocked := by
  cases Gate.ckptStep_closes taken with
  | close skipBlocked isPc => exact .inr ⟨skipBlocked, isPc⟩
  | storeOpen => cases isClosed
  | _ => exact .inl isClosed

theorem Gate.ckptStep_ne_storeClosed (taken : s.ckptStep .ckpt = some t) (skipBlocked : Bool) :
    t.ckpt ≠ .storeClosed skipBlocked := by
  cases Gate.ckptStep_closes taken with
  | wait _ _ isPc => exact isPc ▸ nofun
  | _ => exact nofun

end Gates

section Steps

variable {n : Nat} {members : Gid → Finset (Fin n)} {blocking : Bool} {s t : Job n}

theorem JobSound.initial (first : (Job.machine members blocking).initial s) : JobSound members s := by
  obtain ⟨drain, ranks⟩ := first
  refine ⟨.start drain, fun r => ?_, fun r _ => ?_, fun r _ isPc => ?_, fun q isClosed => ?_, fun r c g isInside => ?_⟩
  · rw [ranks r]
    exact ⟨.initial, .initial, rfl, rfl⟩
  · rw [ranks r]
    exact ⟨rfl, rfl⟩
  · rw [ranks r] at isPc
    cases isPc
  · rw [ranks q] at isClosed
    cases isClosed
  · rw [ranks r] at isInside
    cases isInside

theorem JobSound.drainStep (sound : JobSound members s) {a : Action n} {drain : State n}
    (may : s.mayDrain blocking a = true) (taken : Collective.step members s.drain a = some drain) :
    JobSound members { s with drain := drain } where
  drain := sound.drain.next taken
  calm := sound.calm
  opened := by
    intro r unsettled
    by_cases settled : (s.ckpt r).settled = true
    · rcases (step_seenFrom taken r).settled settled with still | ⟨rfl, isPc, -⟩
      · exact nomatch still.symm.trans unsettled
      · simp only [Job.mayDrain, Job.ckpt, isPc, decide_eq_true_eq] at may
        exact ⟨may.1, may.2 r⟩
    · exact sound.opened r (Bool.eq_false_iff.mpr settled)
  closes := by
    intro r skipBlocked isPc isOpen
    have atDrained : (s.drain.proc r).ckpt = .drained := sound.closes r skipBlocked isPc isOpen
    change (drain.proc r).ckpt = .drained
    cases step_seenFrom taken r with
    | app b isApp moved => exact moved.sameCkpt.ckpt.trans atDrained
    | ckpt isCkpt moved =>
      -- The hook goes on to the barrier only after the wait.
      subst isCkpt
      simp only [Job.mayDrain, Job.ckpt, atDrained, decide_eq_true_eq] at may
      exact nomatch isPc.symm.trans may.1
    | released b isRelease same =>
      rw [same, Proc.released, atDrained]
      rfl
    | erase g isErase freed same | other same => exact same ▸ atDrained
  held := by
    intro q isClosed r
    refine (sound.held q isClosed r).step taken ?_
    rintro ⟨rfl, isPc⟩
    simp only [Job.mayDrain, Job.ckpt, isPc, decide_eq_true_eq] at may
    exact nomatch isClosed.symm.trans (may.2 q)
  placed := by
    intro r c g isInside
    obtain ⟨made, member⟩ := sound.placed r c g isInside
    refine ⟨?_, member⟩
    have sameApp : (drain.proc r).app = (s.drain.proc r).app := by
      cases step_seenFrom taken r with
      | app b isApp =>
        subst isApp
        have isFree := ((Bool.and_eq_true _ _).mp may).1
        simp [Job.free, show (s.rank r).inside = some (c, g) from isInside] at isFree
      | ckpt isCkpt moved => exact moved.app_eq.1
      | erase g isErase freed same | other same => rw [same]
      | released b isRelease same =>
        rw [same]
        rfl
    change c.madeAt g (drain.proc r).app = true
    rw [sameApp]
    exact made

theorem JobSound.gateStep (sound : JobSound members s) {r : Fin n} {a : GateAction Role} {gate : Gate Role}
    (may : s.mayGate blocking r a = true) (taken : (s.rank r).gate.step .ckpt a = some gate) :
    JobSound members (s.setGate r gate) := by
  have each : ∀ holds : Fin n → Rank → Prop, (∀ q, q ≠ r → holds q (s.rank q)) → holds r { s.rank r with gate := gate } →
      ∀ q, holds q ((s.setGate r gate).rank q) := by
    intro holds others own q
    by_cases isRank : q = r
    · subst isRank
      simpa only [Job.setGate_self] using own
    · simpa only [Job.setGate, Job.setRank, update_of_ne isRank] using others q isRank
  have plain : a.plain = true := by
    unfold Job.mayGate at may
    split at may <;> first | rfl | cases may
  -- What the step does to the variables that the invariant speaks of.
  have frame : ((s.ckpt r).settled = false → gate.ckpt = .idle ∧ gate.closed = false) ∧
      (∀ skipBlocked, gate.ckpt = .storeClosed skipBlocked → gate.closed = false → s.ckpt r = .drained) ∧
      (gate.closed = true → (s.rank r).gate.closed = true ∨ s.ckpt r = .drained) := by
    cases a with
    | thread i action =>
      obtain ⟨ckpt, -, closed, -⟩ := Gate.threadAction_frame (ite_none_left_eq_some.mp taken).2
      rw [ckpt, closed]
      exact ⟨sound.opened r, sound.closes r, .inl⟩
    | ckpt =>
      refine ⟨fun unsettled => ?_, fun skipBlocked isPc => absurd isPc (Gate.ckptStep_ne_storeClosed taken skipBlocked),
        fun isClosed => ?_⟩
      · rw [Gate.step, Gate.ckptStep, (sound.opened r unsettled).1] at taken
        cases taken
      · by_cases wasClosed : (s.rank r).gate.closed = true
        · exact .inl wasClosed
        · obtain ⟨skipBlocked, isPc⟩ := (Gate.closed_of_ckptStep taken isClosed).resolve_left wasClosed
          exact .inr (sound.closes r skipBlocked isPc (Bool.eq_false_iff.mpr wasClosed))
    | close skipBlocked =>
      obtain ⟨-, taken⟩ := ite_none_right_eq_some.mp taken
      cases taken
      simp only [Job.mayGate, Bool.or_eq_true, decide_eq_true_eq] at may
      refine ⟨fun unsettled => ?_, fun _ _ isOpen => ?_, .inl⟩
      · rcases may with ⟨isPc, -⟩ | ⟨isPc, -⟩ <;> simp [isPc, CkptPc.settled] at unsettled
      · rcases may with ⟨isPc, -⟩ | ⟨-, -, -, parted⟩
        · exact isPc
        · cases isOpen.symm.trans ((sound.calm r).sound.closed (.inr (.inr parted)))
    | allow =>
      obtain ⟨-, taken⟩ := ite_none_right_eq_some.mp taken
      cases taken
      simp only [Job.mayGate, decide_eq_true_eq] at may
      exact ⟨fun unsettled => by simp [may.1, CkptPc.settled] at unsettled, by simp, .inl⟩
  refine ⟨sound.drain, ?_, ?_, ?_, ?_, ?_⟩
  · exact each (fun _ k => GateCalm k.gate) (fun q _ => sound.calm q) ((sound.calm r).step plain taken)
  · exact each (fun q k => (s.ckpt q).settled = false → k.gate.ckpt = .idle ∧ k.gate.closed = false)
      (fun q _ => sound.opened q) frame.1
  · exact each (fun q k => ∀ skipBlocked, k.gate.ckpt = .storeClosed skipBlocked → k.gate.closed = false →
      s.ckpt q = .drained) (fun q _ => sound.closes q) frame.2.1
  · refine each (fun _ k => k.gate.closed = true → ∀ p, Held members p s.drain) (fun q _ => sound.held q) ?_
    intro isClosed
    rcases frame.2.2 isClosed with wasClosed | isPc
    · exact sound.held r wasClosed
    · exact (returned_held sound.drain isPc).1
  · exact each (fun q k => ∀ c g, k.inside = some (c, g) → c.madeAt g (s.drain.proc q).app = true ∧ q ∈ members g)
      (fun q _ => sound.placed q) (sound.placed r)

theorem JobSound.setInside (sound : JobSound members s) {r : Fin n} {k : Rank} (sameGate : k.gate = (s.rank r).gate)
    (placed : ∀ c g, k.inside = some (c, g) → c.madeAt g (s.drain.proc r).app = true ∧ r ∈ members g) :
    JobSound members (s.setRank r k) := by
  have gates : ∀ q, ((s.setRank r k).rank q).gate = (s.rank q).gate :=
    (forall_update_iff s.rank fun q k => k.gate = (s.rank q).gate).mpr ⟨sameGate, fun _ _ => rfl⟩
  refine ⟨sound.drain, ?_, ?_, ?_, ?_, ?_⟩
  · exact fun q => gates q ▸ sound.calm q
  · exact fun q => gates q ▸ sound.opened q
  · exact fun q => gates q ▸ sound.closes q
  · exact fun q => gates q ▸ sound.held q
  · exact (forall_update_iff s.rank fun q k => ∀ c g, k.inside = some (c, g) →
      c.madeAt g (s.drain.proc q).app = true ∧ q ∈ members g).mpr ⟨placed, fun q _ => sound.placed q⟩

theorem JobSound.step {a : JobAct n} (sound : JobSound members s) (taken : s.step members blocking a = some t) :
    JobSound members t := by
  cases a with
  | drain a =>
    obtain ⟨may, taken⟩ := ite_none_right_eq_some.mp taken
    obtain ⟨drain, moved, rfl⟩ := map_eq_some_iff.mp taken
    exact sound.drainStep may moved
  | gate r a =>
    obtain ⟨may, taken⟩ := ite_none_right_eq_some.mp taken
    obtain ⟨gate, moved, rfl⟩ := map_eq_some_iff.mp taken
    exact sound.gateStep may moved
  | call r c g =>
    obtain ⟨⟨-, -, -, member, made, -⟩, taken⟩ := ite_none_right_eq_some.mp taken
    cases taken
    refine sound.setInside rfl ?_
    rintro c' g' isInside
    cases isInside
    exact ⟨made, member⟩
  | returns r =>
    simp only [Job.step] at taken
    split at taken
    · cases taken
    · obtain ⟨-, taken⟩ := ite_none_left_eq_some.mp taken
      cases taken
      exact sound.setInside rfl nofun

theorem jobSound_of_reachable (reached : Reachable (Job.machine members blocking) s) : JobSound members s :=
  reached.invariant (JobSound members) (fun _ first => .initial first) fun _ _ _ _ sound taken => sound.step taken

end Steps

/-! Every collective lower-half call is made in a critical section, or on a communicator of one process. -/

/-- The step makes no lower-half call outside of the critical sections that other processes take part in, and is
no `MPI_Finalize`, which never leaves the lower half. -/
def Guarded {n : Nat} (members : Gid → Finset (Fin n)) : JobAct n → Prop
  | .call _ c g => c.guard ≠ .bare ∨ (members g).card ≤ 1 ∧ c ≠ .finalize
  | _ => True

instance {n : Nat} (members : Gid → Finset (Fin n)) (a : JobAct n) : Decidable (Guarded members a) :=
  match a with
  | .call _ c g => inferInstanceAs (Decidable (c.guard ≠ .bare ∨ (members g).card ≤ 1 ∧ c ≠ .finalize))
  | .drain _ | .gate _ _ | .returns _ => inferInstanceAs (Decidable True)

def Job.guarded {n : Nat} (members : Gid → Finset (Fin n)) (blocking : Bool) : Machine (Job n) (JobAct n) :=
  (Job.machine members blocking).restrict fun _ a => Guarded members a

/-- A thread is inside a collective lower-half call, and another member has not entered it and is kept out by the
closed lower half. -/
def Job.Stuck {n : Nat} (members : Gid → Finset (Fin n)) (s : Job n) : Prop :=
  ∃ r q c g, (s.rank r).inside = some (c, g) ∧ s.behind members g q r = true ∧ (s.rank q).gate.closed = true

def Rank.Guarded {n : Nat} (members : Gid → Finset (Fin n)) (k : Rank) : Prop :=
  k.finalized = false ∧ ∀ c g, k.inside = some (c, g) → c.guard ≠ .bare ∨ (members g).card ≤ 1

section Guarded

variable {n : Nat} {members : Gid → Finset (Fin n)} {blocking : Bool} {s t : Job n}

theorem rank_guarded (reached : Reachable (Job.guarded members blocking) s) (r : Fin n) : (s.rank r).Guarded members := by
  revert r
  refine reached.invariant (fun s => ∀ r, (s.rank r).Guarded members) ?_ ?_
  · rintro s ⟨-, ranks⟩ r
    rw [ranks r]
    exact ⟨rfl, nofun⟩
  · intro s a t _ guarded taken r
    obtain ⟨allowed, taken⟩ := restrict_step.mp taken
    have update (r' : Fin n) (k : Rank) (keeps : k.Guarded members) : ((s.setRank r' k).rank r).Guarded members :=
      (forall_update_iff s.rank fun _ k => k.Guarded members).mpr ⟨keeps, fun r _ => guarded r⟩ r
    cases a with
    | drain a =>
      obtain ⟨-, taken⟩ := ite_none_right_eq_some.mp taken
      obtain ⟨drain, -, rfl⟩ := map_eq_some_iff.mp taken
      exact guarded r
    | gate r' a =>
      obtain ⟨-, taken⟩ := ite_none_right_eq_some.mp taken
      obtain ⟨gate, -, rfl⟩ := map_eq_some_iff.mp taken
      exact update r' _ (guarded r')
    | call r' c g =>
      obtain ⟨-, taken⟩ := ite_none_right_eq_some.mp taken
      cases taken
      refine update r' _ ⟨?_, fun c' g' isInside => ?_⟩
      · have notFinalize : c ≠ .finalize := by
          rintro rfl
          rcases allowed with counted | ⟨-, notFinalize⟩
          · exact counted rfl
          · exact notFinalize rfl
        simp [(guarded r').1, notFinalize]
      · cases isInside
        exact allowed.imp_right And.left
    | returns r' =>
      simp only [Job.machine, Job.step] at taken
      split at taken
      · cases taken
      · obtain ⟨-, taken⟩ := ite_none_left_eq_some.mp taken
        cases taken
        exact update r' _ ⟨(guarded r').1, nofun⟩

variable {r : Fin n} {c : LowerCall} {g : Gid}

theorem not_behind_of_held (sound : JobSound members s) {q : Fin n} (keeps : (s.rank r).Guarded members)
    (held : Held members r s.drain) (isInside : (s.rank r).inside = some (c, g)) :
    s.behind members g q r = false := by
  obtain ⟨made, member⟩ := sound.placed r c g isInside
  have bare : ¬c.guard ≠ .bare := by
    intro guarded
    exact nomatch (LowerCall.inSection_of_madeAt made guarded).symm.trans held.frozen.2.out
  have single := (keeps.2 c g isInside).resolve_left bare
  simp only [Job.behind, decide_eq_false_iff_not]
  rintro ⟨memberQ, less⟩
  rw [Finset.card_le_one.mp single q memberQ r member] at less
  exact Nat.lt_irrefl _ less

theorem leads_of_ending {gate : Gate Role} (ends : Relation.ReflTransGen Gate.EndingStep (s.rank r).gate gate)
    (isFree : s.free r = true) (notFinal : (s.rank r).finalized = false) :
    Relation.ReflTransGen (fun x y => ∃ a, (Job.guarded members blocking).step x a = some y) s (s.setGate r gate) := by
  suffices goal : Relation.ReflTransGen (fun x y => ∃ a, (Job.guarded members blocking).step x a = some y) s
      (s.setGate r gate) ∧ gate.closingThread = (s.rank r).gate.closingThread from goal.1
  induction ends with
  | refl =>
    refine ⟨?_, rfl⟩
    rw [show s.setGate r (s.rank r).gate = s by simp [Job.setGate, Job.setRank]]
  | @tail before after _ stepped ih =>
    obtain ⟨path, same⟩ := ih
    refine ⟨path.tail ?_, stepped.closingThread.trans same⟩
    have own := s.setGate_self r before
    have stillFree : (s.setGate r before).free r = true := by
      simp only [Job.free, Job.suspended, Job.ckpt, own, same]
      exact isFree
    obtain ⟨a, isEnding, taken⟩ := stepped
    refine ⟨.gate r a, restrict_step.mpr ⟨trivial, ?_⟩⟩
    have may : (s.setGate r before).mayGate blocking r a = true := by
      unfold GateAction.ending at isEnding
      split at isEnding
      · exact stillFree
      · simp only [Job.mayGate, stillFree, own, notFinal, Bool.not_false, Bool.and_self]
      · rfl
      · cases isEnding
    change (if _ then _ else none) = _
    rw [if_pos may, own, taken, map_some, some.injEq]
    simp only [Job.setGate, Job.setRank, update_idem, update_self]

/-- The wait of the checkpoint thread can end, once its application thread is in no lower-half call. -/
theorem wait_ends_of_free (blocking : Bool) (sound : JobSound members s) (closes : (s.rank r).gate.ckpt.closes = true)
    (out : (s.rank r).inside = none) (notFinal : (s.rank r).finalized = false) :
    ∃ t : Job n, (t.rank r).gate.ckpt = .idle ∧
      Relation.ReflTransGen (fun x y => ∃ a, (Job.guarded members blocking).step x a = some y) s t := by
  obtain ⟨gate, ends, idle⟩ := (sound.calm r).wait_ends
  have isFree : s.free r = true := by
    simp [Job.free, Job.suspended, out, (sound.calm r).held.closing closes]
  refine ⟨s.setGate r gate, ?_, leads_of_ending ends isFree notFinal⟩
  rw [s.setGate_self]
  exact idle

theorem guarded_returns (blocking : Bool) (isInside : (s.rank r).inside = some (c, g)) (running : s.suspended r = false)
    (upToDate : ∀ q, s.behind members g q r = false) :
    (Job.guarded members blocking).step s (.returns r) = some (s.setRank r { s.rank r with inside := none }) := by
  refine restrict_step.mpr ⟨trivial, ?_⟩
  simp only [Job.machine, Job.step, isInside]
  refine if_neg ?_
  rintro (suspended | ⟨-, q, isBehind⟩)
  · exact nomatch suspended.symm.trans running
  · exact nomatch isBehind.symm.trans (upToDate q)

/-- In every run that keeps to the condition: no thread is inside a collective lower-half call while another member
has not entered it and is kept out by the closed lower half; and wherever the checkpoint thread of a rank is in
`close_lower_half_and_wait`, its wait can end. -/
theorem closing_waits_for_no_collective (reached : Reachable (Job.guarded members blocking) s) :
    ¬s.Stuck members ∧ ∀ r, (s.rank r).gate.ckpt.closes = true → ∃ t : Job n, (t.rank r).gate.ckpt = .idle ∧
      Relation.ReflTransGen (fun x y => ∃ a, (Job.guarded members blocking).step x a = some y) s t := by
  have sound := jobSound_of_reachable reached.of_restrict
  refine ⟨?_, fun r closes => ?_⟩
  · rintro ⟨r, q, c, g, isInside, isBehind, isClosed⟩
    have upToDate := not_behind_of_held sound (q := q) (rank_guarded reached r) (sound.held q isClosed r) isInside
    exact nomatch isBehind.symm.trans upToDate
  · have keeps := rank_guarded reached r
    cases isInside : (s.rank r).inside with
    | none => exact wait_ends_of_free blocking sound closes isInside keeps.1
    | some call =>
      obtain ⟨c, g⟩ := call
      -- The drain has returned, so the call is on a communicator of one process.
      have settled : (s.ckpt r).settled = true := by
        by_contra unsettled
        rw [(sound.opened r (Bool.eq_false_iff.mpr unsettled)).1] at closes
        cases closes
      have held := held_of_settled sound.drain settled
      have running : s.suspended r = false := by
        simp [Job.suspended, (sound.calm r).held.closing closes]
      have taken := guarded_returns blocking isInside running fun q => not_behind_of_held sound keeps held isInside
      have stepped : s.step members blocking (.returns r) = some _ := (restrict_step.mp taken).2
      have own : (s.setRank r { s.rank r with inside := none }).rank r = { s.rank r with inside := none } :=
        update_self ..
      obtain ⟨t, idle, path⟩ := wait_ends_of_free blocking (sound.step stepped) (r := r) (by rwa [own]) (by rw [own])
        (by rw [own]; exact keeps.1)
      exact ⟨t, idle, path.head ⟨_, taken⟩⟩

/-- While the lower half is closed on one rank, no rank is in a critical section; a collective lower-half call that a
rank is in then is one whose wrapper has none around it. -/
theorem closed_excludes_collectives (reached : Reachable (Job.machine members blocking) s) {q : Fin n}
    (closed : (s.rank q).gate.closed = true) (r : Fin n) :
    (s.drain.proc r).app.inSection = false ∧ ∀ c g, (s.rank r).inside = some (c, g) → c.guard = .bare := by
  have sound := jobSound_of_reachable reached
  have out := (sound.held q closed r).frozen.2.out
  refine ⟨out, fun c g isInside => ?_⟩
  by_contra guarded
  have inside := LowerCall.inSection_of_madeAt (sound.placed r c g isInside).1 guarded
  rw [out] at inside
  cases inside

end Guarded

end Mana.LowerHalf
