import Mana.Lib.Sum
import Mana.P2p.Conserve

/-! The counters of messages and what the drain samples of them. -/

namespace Mana.P2p
open Mana.Lib Mana.Collective Function

variable {n : Nat}

def Msg.isReal (m : Msg n) : Bool := !m.dummy

def Proc.outstanding (p : Proc n) (holds : Msg n → Bool) : Nat := p.held.countP holds + p.inbox.countP holds

/-- A step of a rank by itself: messages are counted or discarded, never given back. -/
structure Grows (p q : Proc n) : Prop where
  addressed : q.addressed = p.addressed
  counted : p.counted <+: q.counted
  discarded : p.discarded <+: q.discarded

section Grows
variable {cfg : Config n} {db : Db n} {p q : Proc n}

theorem AppMove.grows {me : Fin n} {o : Option (Post n)} (moved : AppMove me p q o) : Grows p q := by
  cases moved with
  | testCounted => exact ⟨rfl, List.prefix_append .., List.prefix_rfl⟩
  | next awake moved =>
    cases moved with
    | discard => exact ⟨rfl, List.prefix_rfl, List.prefix_append ..⟩
    | count => exact ⟨rfl, List.prefix_append .., List.prefix_rfl⟩
    | _ => exact ⟨rfl, List.prefix_rfl, List.prefix_rfl⟩
  | _ => exact ⟨rfl, List.prefix_rfl, List.prefix_rfl⟩

theorem LowerMove.grows {a : LowerAct} (moved : LowerMove p a q) : Grows p q := by
  cases moved <;> exact ⟨rfl, List.prefix_rfl, List.prefix_rfl⟩

theorem CkptMove.grows (moved : CkptMove cfg p q) : Grows p q := by
  cases moved with
  | test here i r entry flag completes =>
    cases completes with
    | received irecv real => exact ⟨rfl, List.prefix_append .., List.prefix_rfl⟩
    | _ => exact ⟨rfl, List.prefix_rfl, List.prefix_rfl⟩
  | buffer | await => exact ⟨rfl, List.prefix_append .., List.prefix_rfl⟩
  | _ => exact ⟨rfl, List.prefix_rfl, List.prefix_rfl⟩

theorem DbMove.grows {me : Fin n} {db' : Db n} (moved : DbMove cfg me db p q db') : Grows p q := by
  cases moved <;> exact ⟨rfl, List.prefix_rfl, List.prefix_rfl⟩

theorem SendMove.grows {me : Fin n} {o : Option (Post n)} (moved : SendMove cfg me db p q o) : Grows p q := by
  cases moved <;> exact ⟨rfl, List.prefix_rfl, List.prefix_rfl⟩

theorem Grows.outstanding (grows : Grows p q) (before : p.Conserves) (after : q.Conserves) (holds : Msg n → Bool) :
    q.outstanding holds ≤ p.outstanding holds := by
  have first := before.messages holds
  have second := after.messages holds
  have counted := grows.counted.sublist.countP_le (p := holds)
  have discarded := grows.discarded.sublist.countP_le (p := holds)
  rw [grows.addressed] at second
  unfold Proc.outstanding
  omega

theorem Grows.recv (grows : Grows p q) (before : p.Conserves) (after : q.Conserves) : p.recv ≤ q.recv := by
  rw [before.recv, after.recv]
  exact grows.counted.length_le

end Grows

/-! Sends are counted by the sender when the lower half gets the message. -/

def Msg.isFrom (r : Fin n) (m : Msg n) : Bool := m.isReal && m.env.source == r

inductive Posts (me : Fin n) (p q : Proc n) : Option (Post n) → Prop where
  | nothing (same : q.sent = p.sent) : Posts me p q none
  | dummy (post : Post n) (isDummy : post.dummy = true) (same : q.sent = p.sent) : Posts me p q (some post)
  | message (post : Post n) (isReal : post.dummy = false) (source : post.env.source = me)
      (counted : q.sent = p.sent + 1) : Posts me p q (some post)

section Posts
variable {cfg : Config n} {db : Db n} {p q : Proc n} {me : Fin n} {o : Option (Post n)}

theorem AppMove.posts (moved : AppMove me p q o) : Posts me p q o := by
  cases moved with
  | isend _ _ dest _ _ _ known | send _ dest _ _ known =>
    cases dest with
    | any => exact absurd rfl known
    | procNull => exact .nothing rfl
    | rank d => exact .message _ rfl rfl rfl
  | next awake moved => cases moved <;> exact .nothing rfl
  | _ => exact .nothing rfl

theorem SendMove.posts (moved : SendMove cfg me db p q o) : Posts me p q o := by
  cases moved with
  | send here d record => exact .dummy _ rfl rfl
  | sent here all => exact .nothing rfl
  | ack here dest tag => exact .message _ rfl rfl rfl

theorem CkptMove.sent (moved : CkptMove cfg p q) : q.sent = p.sent := by
  cases moved with
  | test here i r entry flag completes => cases completes <;> rfl
  | _ => rfl

theorem DbMove.sent {db' : Db n} (moved : DbMove cfg me db p q db') : q.sent = p.sent := by
  cases moved <;> rfl

theorem LowerMove.sent {a : LowerAct} (moved : LowerMove p a q) : q.sent = p.sent := by
  cases moved <;> rfl

end Posts

namespace State

def sentCount (s : State n) (holds : Msg n → Bool) : Nat := ∑ r, (s.proc r).addressed.countP holds

def Balanced (s : State n) : Prop := ∀ r, (s.proc r).sent = s.sentCount (Msg.isFrom r)

end State

section Balance
variable {cfg : Config n} {s t : State n}
variable {r : Fin n} {q : Proc n}

theorem State.sentCount_setProc (s : State n) (same : q.addressed = (s.proc r).addressed) (holds : Msg n → Bool) :
    (s.setProc r q).sentCount holds = s.sentCount holds := by
  refine sum_update_eq (f := fun p : Proc n => p.addressed.countP holds) ?_
  rw [same]

theorem State.sentCount_deliver (s : State n) (o : Post n) (holds : Msg n → Bool) :
    (s.deliver (some o)).sentCount holds =
      s.sentCount holds + if holds ⟨(s.proc o.dest).addressed.length, o.env, o.dummy⟩ then 1 else 0 := by
  have sum := sum_update_add (fun p : Proc n => p.addressed.countP holds) s.proc o.dest ((s.proc o.dest).arrive o)
  simp only [Proc.arrive, List.countP_append, List.countP_singleton] at sum
  simp only [State.sentCount, State.deliver, State.setProc, Proc.arrive]
  omega

theorem State.deliver_sent (s : State n) (o : Option (Post n)) (r : Fin n) :
    ((s.deliver o).proc r).sent = (s.proc r).sent := by
  cases o with
  | none => rfl
  | some o =>
    by_cases own : r = o.dest
    · subst own
      simp [State.deliver, State.setProc, Proc.arrive]
    · simp [State.deliver, State.setProc, update_of_ne own]

theorem State.Balanced.setProc (balanced : s.Balanced) (addressed : q.addressed = (s.proc r).addressed)
    (sent : q.sent = (s.proc r).sent) : (s.setProc r q).Balanced := by
  intro r'
  rw [State.sentCount_setProc s addressed, ← balanced r']
  by_cases own : r' = r
  · subst own
    simpa [State.setProc] using sent
  · simp [State.setProc, update_of_ne own]

theorem State.Balanced.post (balanced : s.Balanced) {o : Option (Post n)}
    (addressed : q.addressed = (s.proc r).addressed) (posts : Posts r (s.proc r) q o) :
    ((s.setProc r q).deliver o).Balanced := by
  cases posts with
  | nothing same => exact balanced.setProc addressed same
  | dummy post isDummy same =>
    intro r'
    have before := balanced.setProc addressed same r'
    rw [State.deliver_sent, State.sentCount_deliver, before]
    simp [Msg.isFrom, Msg.isReal, isDummy]
  | message post isReal source counted =>
    intro r'
    rw [State.deliver_sent, State.sentCount_deliver, State.sentCount_setProc s addressed, ← balanced r']
    by_cases own : r' = r
    · subst own
      simp [State.setProc, Msg.isFrom, Msg.isReal, isReal, source, counted]
    · have other : post.env.source ≠ r' := by
        rw [source]
        exact Ne.symm own
      simp [State.setProc, update_of_ne own, Msg.isFrom, Msg.isReal, isReal, other]

theorem Move.balanced {a : Action n} (moved : Move cfg s a t) (balanced : s.Balanced) : t.Balanced := by
  cases moved with
  | app r a moved | send r a moved => exact balanced.post moved.grows.addressed moved.posts
  | ckpt r a moved | db r moved | lower r a moved => exact balanced.setProc moved.grows.addressed moved.sent
  | release sync all =>
    intro r
    have before := balanced r
    cases sync <;> exact before

theorem reachable_balanced (reached : Reachable (machine cfg) s) : s.Balanced := by
  refine Reachable.invariant State.Balanced ?_ (fun s a t _ balanced taken => (step_move taken).balanced balanced) reached
  rintro _ rfl r
  simp [State.sentCount, Proc.initial]

theorem sum_countP_isFrom (l : List (Msg n)) : ∑ r, l.countP (Msg.isFrom r) = l.countP Msg.isReal := by
  induction l with
  | nil => simp
  | cons m rest ih =>
    simp only [List.countP_cons, Finset.sum_add_distrib, ih]
    congr 1
    cases real : m.isReal <;> simp [Msg.isFrom, real]

theorem State.Balanced.total (balanced : s.Balanced) :
    ∑ r, (s.proc r).sent = ∑ r, (s.proc r).addressed.countP Msg.isReal := by
  calc ∑ r, (s.proc r).sent
      = ∑ r, ∑ q, (s.proc q).addressed.countP (Msg.isFrom r) := Finset.sum_congr rfl fun r _ => balanced r
    _ = ∑ q, ∑ r, (s.proc q).addressed.countP (Msg.isFrom r) := Finset.sum_comm
    _ = ∑ q, (s.proc q).addressed.countP Msg.isReal := Finset.sum_congr rfl fun q _ => sum_countP_isFrom _

end Balance

/-! What a rank gives to the reduction of `drainWithoutBarriers`. -/

structure Proc.Sampled (p : Proc n) : Prop where
  read : p.ckpt = .sampleSlot ∨ p.ckpt = .contribute → p.locals.recv ≤ p.recv
  sent : p.ckpt = .reduce → p.locals.contribution.sent = p.sent
  recv : p.ckpt = .reduce → p.locals.contribution.recv ≤ p.recv
  isends : p.ckpt = .reduce → p.pendingIsends ≤ p.locals.contribution.isends
  slot : p.ckpt = .contribute → p.locals.inRecv = false → p.slot ≠ .active
  inRecv : p.ckpt = .reduce → p.locals.contribution.inRecv = 0 → p.slot ≠ .active

section Sampled
variable {cfg : Config n} {db : Db n} {p q : Proc n}
variable {me : Fin n} {o : Option (Post n)} {a : LowerAct}

theorem AppMove.closed (moved : AppMove me p q o) (guarded : p.Guarded) (closes : p.ckpt.closes = true) :
    o = none ∧ q.log = p.log := by
  have shut : p.mayEnter ≠ true := fun enters => by
    rw [(guarded.open_of_mayEnter enters).2.1] at closes
    cases closes
  cases moved with
  | recv r here known => exact ⟨rfl, rfl⟩
  | next awake moved =>
    cases moved <;> exact ⟨rfl, rfl⟩
  | isend type comm dest tag enters | fromQueue k enters | irecv pattern enters | forget id enters
  | test i r enters | testCounted i r enters | free comm enters | send comm dest tag enters => exact absurd enters shut

theorem AppMove.closed_sent (moved : AppMove me p q o) (guarded : p.Guarded) (closes : p.ckpt.closes = true) :
    q.sent = p.sent := by
  obtain ⟨rfl, -⟩ := moved.closed guarded closes
  cases moved.posts with
  | nothing same => exact same

theorem AppMove.inactive (moved : AppMove me p q o) (guarded : p.Guarded) (late : p.ckpt.early = false)
    (active : q.slot = .active) : p.slot = .active := by
  cases moved with
  | next awake moved =>
    cases moved with
    | publish r here idle =>
      have early := guarded.entering (by rw [here]; rfl)
      rw [late] at early
      cases early
    | discard | reopen => cases active
    | _ => exact active
  | _ => exact active

theorem Proc.Sampled.of_step (sampled : p.Sampled) (ckpt : q.ckpt = p.ckpt) (locals : q.locals = p.locals)
    (sent : p.ckpt = .reduce → q.sent = p.sent) (recv : p.recv ≤ q.recv)
    (isends : p.ckpt = .reduce → q.pendingIsends ≤ p.pendingIsends)
    (slot : p.ckpt.early = false → q.slot = .active → p.slot = .active) : q.Sampled := by
  have late : p.ckpt = .contribute ∨ p.ckpt = .reduce → p.ckpt.early = false := by
    rintro (pc | pc) <;> rw [pc] <;> rfl
  refine ⟨?_, ?_, ?_, ?_, ?_, ?_⟩ <;> rw [ckpt, locals]
  · exact fun pc => (sampled.read pc).trans recv
  · exact fun pc => (sampled.sent pc).trans (sent pc).symm
  · exact fun pc => (sampled.recv pc).trans recv
  · exact fun pc => (isends pc).trans (sampled.isends pc)
  · exact fun pc none active => sampled.slot pc none (slot (late (.inl pc)) active)
  · exact fun pc none active => sampled.inRecv pc none (slot (late (.inr pc)) active)

theorem Proc.Sampled.elsewhere (away : ∀ pc ∈ [CkptPc.sampleSlot, .contribute, .reduce], q.ckpt ≠ pc) : q.Sampled := by
  simp only [List.mem_cons, List.not_mem_nil, or_false, forall_eq_or_imp, forall_eq] at away
  obtain ⟨first, second, third⟩ := away
  refine ⟨fun pc => ?_, fun pc => absurd pc third, fun pc => absurd pc third, fun pc => absurd pc third,
    fun pc => absurd pc second, fun pc => absurd pc third⟩
  rcases pc with pc | pc
  · exact absurd pc first
  · exact absurd pc second

theorem Completes.pendingIsends {i : Nat} {r : Req n} (completes : Completes p i r q) (entry : p.log[i]? = some r) :
    q.pendingIsends ≤ p.pendingIsends := by
  have before := countP_eraseIdx entry Req.isSend
  cases completes with
  | received irecv real =>
    simp only [Proc.pendingIsends, Proc.completeRequest, Proc.clear, Proc.countReceived]
    omega
  | done unread =>
    simp only [Proc.pendingIsends, Proc.completeRequest, Proc.clear]
    omega
  | ack issend pattern real =>
    have after := countP_set entry (⟨r.id, .irecv, pattern, .active, p.postings⟩ : Req n) Req.isSend
    simp only [Req.isSend, bne_self_eq_false, Bool.false_eq_true, if_false] at after
    simp only [Proc.pendingIsends, Req.isSend] at before ⊢
    omega

theorem LowerMove.pendingIsends (moved : LowerMove p a q) : q.pendingIsends = p.pendingIsends := by
  cases moved with
  | take k i m r message entry irecv active accepts =>
    have before := countP_eraseIdx entry Req.isSend
    have after := countP_set entry { r with real := .got m } Req.isSend
    exact after.trans before.symm
  | takeRecv k m r posted message here accepts => rfl
  | finish i r entry active free =>
    have before := countP_eraseIdx entry Req.isSend
    have after := countP_set entry { r with real := .complete } Req.isSend
    exact after.trans before.symm

theorem LowerMove.slot (moved : LowerMove p a q) : q.slot = p.slot := by
  cases moved <;> rfl

theorem CkptMove.sampled (moved : CkptMove cfg p q) (sound : p.Sound) (sampled : p.Sampled) : q.Sampled := by
  have recv := moved.grows.recv sound.conserves (moved.conserves sound.handled sound.conserves)
  cases moved with
  | notices here | probed here | setPhase here =>
    refine .elsewhere ?_
    cases noBarrier : cfg.drainHasNoBarrier <;> simp [noBarrier, Proc.goto, Proc.endPass]
  | pass here =>
    refine .elsewhere ?_
    rcases p.locals.dummyPass with _ | _ | _ | _ | d <;> simp [Proc.goto, Proc.passTurn]
  | test here i r entry flag completes =>
    have same := completes.control
    have sent : q.sent = p.sent := by cases completes <;> rfl
    have slot : q.slot = p.slot := by cases completes <;> rfl
    exact sampled.of_step same.1 same.2 (fun _ => sent) recv (fun _ => completes.pendingIsends entry) fun _ => slot.symm.trans
  | sampleRecv here =>
    refine ⟨fun _ => Nat.le_refl _, ?_, ?_, ?_, ?_, ?_⟩ <;> simp [Proc.goto]
  | sampleSlot here =>
    refine ⟨fun _ => sampled.read (.inl here), ?_, ?_, ?_, ?_, ?_⟩ <;> simp [Proc.goto, Proc.setLocals]
  | contribute here =>
    refine ⟨by simp [Proc.goto], fun _ => rfl, fun _ => sampled.read (.inr here), fun _ => Nat.le_refl _,
      by simp [Proc.goto], fun _ none => sampled.slot here (by simpa [Proc.goto, Proc.setLocals] using none)⟩
  | _ => exact .elsewhere (by simp [Proc.goto])

theorem DbMove.sampled {db' : Db n} (moved : DbMove cfg me db p q db') : q.Sampled := by
  cases moved with
  | post | noPost =>
    refine .elsewhere ?_
    cases noBarrier : cfg.drainHasNoBarrier <;> simp [noBarrier, Proc.endPass]
  | _ => exact .elsewhere (by simp [Proc.goto])

theorem SendMove.sampled (moved : SendMove cfg me db p q o) : q.Sampled := by
  refine .elsewhere ?_
  cases moved with
  | send here d record => simp [Proc.setLocals, here]
  | sent here all => cases noBarrier : cfg.drainHasNoBarrier <;> simp [noBarrier, Proc.endPass]
  | ack here dest tag => simp [here]

end Sampled

section Ranks
variable {cfg : Config n} {s t : State n}

theorem Move.sampled {a : Action n} (moved : Move cfg s a t) (sound : ∀ r, (s.proc r).Sound)
    (sampled : ∀ r, (s.proc r).Sampled) : ∀ r, (t.proc r).Sampled := by
  have arrives : ∀ (p : Proc n) (o : Post n), p.Sampled → (p.arrive o).Sampled := fun p o sampled =>
    sampled.of_step rfl rfl (fun _ => rfl) (Nat.le_refl _) (fun _ => Nat.le_refl _) fun _ => id
  cases moved with
  | app r a moved =>
    obtain ⟨guarded, handled, conserves⟩ := sound r
    have same := moved.control
    have closed : (s.proc r).ckpt = .reduce → (s.proc r).ckpt.closes = true := fun pc => by rw [pc]; rfl
    refine forall_deliver (forall_setProc sampled ?_) arrives
    refine (sampled r).of_step same.1 same.2 (fun pc => moved.closed_sent guarded (closed pc)) ?_ (fun pc => ?_)
      (moved.inactive guarded)
    · exact moved.grows.recv conserves (moved.conserves guarded conserves)
    · rw [Proc.pendingIsends, (moved.closed guarded (closed pc)).2]
      exact Nat.le_refl _
  | ckpt r a moved => exact forall_setProc sampled (moved.sampled (sound r) (sampled r))
  | db r moved => exact forall_setProc sampled moved.sampled
  | send r a moved => exact forall_deliver (forall_setProc sampled moved.sampled) arrives
  | lower r a moved =>
    have conserves := (sound r).conserves
    have same := moved.control
    have slot := moved.slot
    refine forall_setProc sampled ((sampled r).of_step same.1 same.2 (fun _ => moved.sent) ?_ (fun _ => ?_)
      fun _ => slot.symm.trans)
    · exact moved.grows.recv conserves (moved.conserves conserves)
    · exact moved.pendingIsends.le
  | release sync all =>
    intro r
    refine .elsewhere ?_
    cases sync <;> simp [Proc.released, Proc.goto]

theorem reachable_sampled (reached : Reachable (machine cfg) s) : ∀ r, (s.proc r).Sampled := by
  refine Reachable.invariant (fun s => ∀ r, (s.proc r).Sampled) ?_ ?_ reached
  · rintro _ rfl r
    exact .elsewhere (by simp [Proc.initial])
  · intro s a t before sampled taken
    exact (step_move taken).sampled (reachable_sound before) sampled

end Ranks

/-! What the ranks add to the keys of a round. -/

def Proc.registeredSent (p : Proc n) : Nat :=
  if p.ckpt = .regRecv ∨ p.ckpt = .regBarrier then p.sent else 0

def Proc.registeredRecv (p : Proc n) : Nat := if p.ckpt = .regBarrier then p.recv else 0

structure Registers (s : State n) (round : Nat) : Prop where
  sent : s.db.sent round = ∑ r, (s.proc r).registeredSent
  recv : s.db.recv round ≤ ∑ r, (s.proc r).registeredRecv
  later : ∀ k, round < k → s.db.sent k = 0 ∧ s.db.recv k = 0

section Registers
variable {cfg : Config n} {s t : State n} {k : Nat}

theorem Registers.update (registers : Registers s k) {r : Fin n} {q : Proc n} {db : Db n} (sent : db.sent = s.db.sent)
    (recv : db.recv = s.db.recv) (same : q.registeredSent = (s.proc r).registeredSent)
    (more : (s.proc r).registeredRecv ≤ q.registeredRecv) :
    Registers { (s.setProc r q) with db := db } k := by
  refine ⟨?_, ?_, ?_⟩
  · rw [show ∑ x, ((s.setProc r q).proc x).registeredSent = ∑ x, (s.proc x).registeredSent from sum_update_eq same]
    simp only [sent]
    exact registers.sent
  · refine le_trans (by simpa only [recv] using registers.recv) ?_
    exact sum_update_le (f := Proc.registeredRecv) more
  · simp only [sent, recv]
    exact registers.later

theorem Proc.registered_eq_zero {p : Proc n} (first : p.ckpt ≠ .regRecv) (second : p.ckpt ≠ .regBarrier) :
    p.registeredSent = 0 ∧ p.registeredRecv = 0 := by
  simp [Proc.registeredSent, Proc.registeredRecv, first, second]

theorem CkptMove.unregistered {p q : Proc n} (moved : CkptMove cfg p q) :
    (p.registeredSent = 0 ∧ p.registeredRecv = 0) ∧ q.registeredSent = 0 ∧ q.registeredRecv = 0 := by
  have away : (p.ckpt ≠ .regRecv ∧ p.ckpt ≠ .regBarrier) ∧ q.ckpt ≠ .regRecv ∧ q.ckpt ≠ .regBarrier := by
    cases moved with
    | notices here | probed here | setPhase here =>
      cases noBarrier : cfg.drainHasNoBarrier <;> simp [noBarrier, Proc.goto, Proc.endPass, here]
    | pass here =>
      rcases p.locals.dummyPass with _ | _ | _ | _ | d <;> simp [Proc.goto, Proc.passTurn, here]
    | test here i r entry flag completes =>
      rw [completes.control.1]
      rcases here with here | here | here <;> simp [here]
    | await id here i r entry named flag => simp [Proc.goto, here]
    | _ here => simp [Proc.goto, here]
  exact ⟨Proc.registered_eq_zero away.1.1 away.1.2, Proc.registered_eq_zero away.2.1 away.2.2⟩

theorem Proc.closes_of_stage (cfg : Config n) (db : Db n) {p : Proc n} (drains : p.stage cfg db ≠ .free) : p.ckpt.closes = true := by
  cases pc : p.ckpt <;> simp [Proc.stage, pc] at drains <;> rfl

theorem Registers.move {a : Action n} (registers : Registers s k) (moved : Move cfg s a t)
    (inStage : InStage cfg s (.rounds k)) (sound : ∀ r, (s.proc r).Sound) (inside : ∀ sync, a ≠ .release sync) :
    Registers t k := by
  have closes : ∀ r, (s.proc r).ckpt.closes = true := fun r =>
    Proc.closes_of_stage cfg s.db (by simp [inStage.same r])
  cases moved with
  | app r a moved =>
    obtain ⟨guarded, handled, conserves⟩ := sound r
    obtain ⟨rfl, -⟩ := moved.closed guarded (closes r)
    have sent := moved.closed_sent guarded (closes r)
    have recv := moved.grows.recv conserves (moved.conserves guarded conserves)
    have pc := moved.control.1
    refine registers.update rfl rfl ?_ ?_
    · simp only [Proc.registeredSent, pc, sent]
    · simp only [Proc.registeredRecv, pc]
      split
      · exact recv
      · exact Nat.le_refl _
  | ckpt r a moved =>
    have zero := moved.unregistered
    refine registers.update rfl rfl ?_ ?_
    · rw [zero.1.1, zero.2.1]
    · rw [zero.1.2]
      exact Nat.zero_le _
  | db r moved =>
    have round : (s.proc r).stage cfg s.db = .rounds k := inStage.same r
    cases moved with
    | regSent here =>
      simp only [Proc.stage, here, Stage.rounds.injEq] at round
      subst round
      have sum := sum_update_add Proc.registeredSent s.proc r ((s.proc r).goto .regRecv)
      have zero : (s.proc r).registeredSent = 0 := (Proc.registered_eq_zero (by simp [here]) (by simp [here])).1
      have own : ((s.proc r).goto .regRecv).registeredSent = (s.proc r).sent := by simp [Proc.registeredSent, Proc.goto]
      refine ⟨?_, ?_, fun j later => ?_⟩
      · have before := registers.sent
        simp only [State.setProc, update_self]
        omega
      · refine registers.recv.trans (sum_update_le (f := Proc.registeredRecv) ?_)
        rw [(Proc.registered_eq_zero (by simp [here]) (by simp [here])).2]
        exact Nat.zero_le _
      · simpa only [update_of_ne (Nat.ne_of_gt later)] using registers.later j later
    | regRecv here =>
      simp only [Proc.stage, here, Stage.rounds.injEq] at round
      subst round
      have sum := sum_update_add Proc.registeredRecv s.proc r ((s.proc r).goto .regBarrier)
      have zero : (s.proc r).registeredRecv = 0 := by simp [Proc.registeredRecv, here]
      have own : ((s.proc r).goto .regBarrier).registeredRecv = (s.proc r).recv := by
        simp [Proc.registeredRecv, Proc.goto]
      refine ⟨?_, ?_, fun j later => ?_⟩
      · rw [registers.sent]
        refine (sum_update_eq (f := Proc.registeredSent) ?_).symm
        simp [Proc.registeredSent, Proc.goto, here]
      · have before := registers.recv
        simp only [State.setProc, update_self]
        omega
      · simpa only [update_of_ne (Nat.ne_of_gt later)] using registers.later j later
    | getSent here | getRecv here | publish here =>
      refine registers.update rfl rfl ?_ ?_ <;> simp [Proc.registeredSent, Proc.registeredRecv, Proc.goto, here]
    | post here | noPost here =>
      simp only [Proc.stage, here] at round
      split at round <;> cases round
  | send r a moved =>
    have round : (s.proc r).stage cfg s.db = .rounds k := inStage.same r
    cases moved with
    | send here | sent here =>
      simp only [Proc.stage, here] at round
      split at round <;> cases round
    | ack here =>
      simp only [Proc.stage, here] at round
      cases round
  | lower r a moved =>
    have conserves := (sound r).conserves
    have recv := moved.grows.recv conserves (moved.conserves conserves)
    refine registers.update rfl rfl ?_ ?_
    · simp only [Proc.registeredSent, moved.control.1, moved.sent]
    · simp only [Proc.registeredRecv, moved.control.1]
      split
      · exact recv
      · exact Nat.le_refl _
  | release sync all => exact absurd rfl (inside sync)

/-- When all ranks are at the barrier of a round, its keys hold the sums of their counters. -/
theorem Registers.complete (registers : Registers s k) (all : ∀ r, (s.proc r).ckpt = .regBarrier) :
    s.db.sent k = ∑ r, (s.proc r).sent ∧ s.db.recv k ≤ ∑ r, (s.proc r).recv := by
  have sent := registers.sent
  have recv := registers.recv
  simp only [Proc.registeredSent, Proc.registeredRecv, all, or_true, if_true] at sent recv
  exact ⟨sent, recv⟩

end Registers

end Mana.P2p
