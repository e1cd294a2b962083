import Mana.P2p.Classify

/-! Each posted dummy is on its way to the `MPI_Recv` that it answers, as long as no pending
`MPI_Irecv` takes it. -/

namespace Mana.P2p
open Mana.Lib Mana.Collective Function

variable {n : Nat}

def State.unsentBy (s : State n) (q : Fin n) : List (PostedDummy n) :=
  (s.db.dummies q).drop (s.proc q).locals.dispatched

def State.unsent (s : State n) (r : Fin n) : Nat := ∑ q, (s.unsentBy q).countP fun d => d.dest == r

def State.records (s : State n) (r : Fin n) : Nat := ∑ q, (s.db.dummies q).countP fun d => d.dest == r

def Proc.pastSend (cfg : Config n) (p : Proc n) : Prop :=
  (cfg.drainHasNoBarrier = true ∧ 4 ≤ p.locals.dummyPass) ∨ p.ckpt = .sentBarrier ∨
    cfg.drainHasNoBarrier = false ∧ (p.ckpt = .drained ∨ p.ckpt = .suspendBarrier)

def Proc.due (p : Proc n) : Nat := if 1 ≤ p.posted ∧ p.slot = .active then 1 else 0

structure State.Answered (cfg : Config n) (s : State n) : Prop where
  one : ∀ r, s.unsent r + (s.proc r).outstanding Msg.dummy = (s.proc r).due
  recorded : ∀ r, s.records r = (s.proc r).posted
  accepted : ∀ q, ∀ d ∈ s.unsentBy q, (s.proc d.dest).pending.accepts (d.envelope q) = true
  inbox : ∀ r, ∀ m ∈ (s.proc r).inbox, m.dummy = true → (s.proc r).pending.accepts m.env = true
  phase : ∀ q r, 1 ≤ (s.proc q).posted → (s.proc r).dummyPhase = true
  sent : ∀ r, (s.proc r).locals.dispatched ≤ (s.db.dummies r).length
  all : ∀ r, (s.proc r).pastSend cfg → (s.proc r).locals.dispatched = (s.db.dummies r).length

section Outstanding
variable {p : Proc n}

theorem Proc.outstanding_of_held {m : Msg n} (held : p.app.held = some m) {holds : Msg n → Bool} (isHeld : holds m = true) :
    1 ≤ p.outstanding holds := by
  simp only [Proc.outstanding, Proc.countP_held, held, Option.toList_some, List.countP_singleton, isHeld, if_true]
  omega

theorem Proc.outstanding_of_inbox {m : Msg n} (member : m ∈ p.inbox) {holds : Msg n → Bool} (isIn : holds m = true) :
    1 ≤ p.outstanding holds := by
  have : 0 < p.inbox.countP holds := List.countP_pos_iff.mpr ⟨m, member, isIn⟩
  unfold Proc.outstanding
  omega

theorem Proc.outstanding_arrive (p : Proc n) (o : Post n) (holds : Msg n → Bool) :
    (p.arrive o).outstanding holds =
      p.outstanding holds + if holds ⟨p.addressed.length, o.env, o.dummy⟩ then 1 else 0 := by
  simp only [Proc.outstanding, Proc.held, Proc.arrive, List.countP_append, List.countP_singleton]
  omega

theorem Proc.due_eq_one {p : Proc n} (waits : 1 ≤ p.due) : 1 ≤ p.posted ∧ p.slot = .active := by
  unfold Proc.due at waits
  split at waits
  · assumption
  · omega

end Outstanding

theorem sum_dest_add {d : PostedDummy n} {f g : Fin n → List (PostedDummy n)} (q : Fin n) (own : (f q).Perm (d :: g q))
    (other : ∀ x, x ≠ q → f x = g x) (r : Fin n) :
    ∑ x, (f x).countP (fun d => d.dest == r) =
      (∑ x, (g x).countP fun d => d.dest == r) + if d.dest = r then 1 else 0 := by
  have sum := sum_add_of_eq_elsewhere (f := fun x => (f x).countP fun d => d.dest == r)
    (g := fun x => (g x).countP fun d => d.dest == r) q fun x elsewhere => by simp only [other x elsewhere]
  simp only [own.countP_eq, List.countP_cons, beq_iff_eq] at sum
  omega

section Fields
variable {s : State n} {β : Type}

theorem State.setProc_same {f : Proc n → β} {r : Fin n} {q : Proc n} (same : f q = f (s.proc r)) (r' : Fin n) :
    f ((s.setProc r q).proc r') = f (s.proc r') := by
  by_cases own : r' = r
  · subst own
    simpa [State.setProc] using same
  · simp [State.setProc, update_of_ne own]

theorem State.deliver_same {f : Proc n → β} (arrives : ∀ p o, f (Proc.arrive p o) = f p) (o : Option (Post n))
    (r' : Fin n) : f ((s.deliver o).proc r') = f (s.proc r') := by
  cases o with
  | none => rfl
  | some o => exact State.setProc_same (arrives _ o) r'

theorem State.setProc_own (s : State n) (r : Fin n) (q : Proc n) : (s.setProc r q).proc r = q := by
  simp [State.setProc]

theorem State.setProc_other (s : State n) {r r' : Fin n} (q : Proc n) (other : r' ≠ r) :
    (s.setProc r q).proc r' = s.proc r' := by
  simp [State.setProc, update_of_ne other]

end Fields

section Answered
variable {cfg : Config n} {s t : State n}
variable {r : Fin n} {d : PostedDummy n} {q : Proc n}

theorem State.Answered.of_outstanding (answered : s.Answered cfg) (some : 1 ≤ (s.proc r).outstanding Msg.dummy) :
    1 ≤ (s.proc r).posted ∧ (s.proc r).slot = .active := by
  have := answered.one r
  exact Proc.due_eq_one (by omega)

theorem State.Answered.dest_ne (answered : s.Answered cfg) {q : Fin n} (unsent : d ∈ s.unsentBy q)
    (none : (s.proc r).due = 0) : d.dest ≠ r := by
  rintro rfl
  have zero : s.unsent d.dest = 0 := by
    have := answered.one d.dest
    omega
  have := (Finset.sum_eq_zero_iff.mp zero) q (Finset.mem_univ q)
  exact List.countP_eq_zero.mp this d unsent (by simp)

/-- A step of the rank that leaves the dummies due to it as they are. -/
structure State.KeepsDue (cfg : Config n) (s : State n) (r : Fin n) (q : Proc n) : Prop where
  dispatched : q.locals.dispatched = (s.proc r).locals.dispatched
  posted : q.posted = (s.proc r).posted
  one : q.outstanding Msg.dummy + (s.proc r).due = (s.proc r).outstanding Msg.dummy + q.due
  pending : q.pending = (s.proc r).pending ∨ (s.proc r).due = 0
  inbox : ∀ m ∈ q.inbox, m.dummy = true → m ∈ (s.proc r).inbox
  phase : ∀ q', 1 ≤ (s.proc q').posted → q.dummyPhase = true
  past : q.pastSend cfg → (s.proc r).pastSend cfg ∨ (s.db.dummies r).length ≤ q.locals.dispatched

theorem State.Answered.of_keepsDue (answered : s.Answered cfg) (same : t.db.dummies = s.db.dummies)
    (keeps : ∀ r, s.KeepsDue cfg r (t.proc r)) : t.Answered cfg := by
  have unsentBy : ∀ q, t.unsentBy q = s.unsentBy q := fun q => by
    simp only [State.unsentBy, same, (keeps q).dispatched]
  refine ⟨fun r => ?_, fun r => ?_, fun q d isUnsent => ?_, fun r m member isDummy => ?_, fun q r isPosted => ?_,
    fun r => ?_, fun r isPast => ?_⟩
  · have before := answered.one r
    have step := (keeps r).one
    simp only [State.unsent, unsentBy] at before ⊢
    omega
  · simp only [State.records, same, (keeps r).posted]
    exact answered.recorded r
  · rw [unsentBy] at isUnsent
    rcases (keeps d.dest).pending with pending | none
    · rw [pending]
      exact answered.accepted q d isUnsent
    · exact absurd rfl (answered.dest_ne isUnsent none)
  · have old := (keeps r).inbox m member isDummy
    rcases (keeps r).pending with pending | none
    · rw [pending]
      exact answered.inbox r m old isDummy
    · have due := answered.of_outstanding (Proc.outstanding_of_inbox old isDummy)
      simp [Proc.due, due.1, due.2] at none
  · exact (keeps r).phase q ((keeps q).posted ▸ isPosted)
  · rw [same, (keeps r).dispatched]
    exact answered.sent r
  · rw [same]
    rcases (keeps r).past isPast with before | enough
    · exact (keeps r).dispatched.trans (answered.all r before)
    · exact Nat.le_antisymm ((keeps r).dispatched ▸ answered.sent r) enough

theorem State.Answered.setProc (answered : s.Answered cfg) {db : Db n} (same : db.dummies = s.db.dummies)
    (keeps : s.KeepsDue cfg r q) : State.Answered cfg { (s.setProc r q) with db := db } := by
  refine answered.of_keepsDue same fun r' => ?_
  by_cases own : r' = r
  · subst own
    simpa only [State.setProc_own] using keeps
  · simp only [State.setProc_other s q own]
    exact ⟨rfl, rfl, rfl, .inl rfl, fun _ member _ => member, (answered.phase · r'), .inl⟩

theorem State.Answered.deliver_real (answered : s.Answered cfg) {o : Option (Post n)}
    (real : ∀ x ∈ o, x.dummy = false) : (s.deliver o).Answered cfg := by
  cases o with
  | none => exact answered
  | some o =>
    have isReal := real o rfl
    refine answered.setProc rfl
      ⟨rfl, rfl, ?_, .inl rfl, fun m member isDummy => ?_, (answered.phase · o.dest), .inl⟩
    · rw [Proc.outstanding_arrive, isReal]
      rfl
    · rcases List.mem_append.mp member with old | new
      · exact old
      · rw [List.mem_singleton.mp new, isReal] at isDummy
        cases isDummy

theorem State.Answered.post (answered : s.Answered cfg) {sender : Fin n} {blocked : Fin n → Bool}
    (made : postDummy cfg.members blocked r (s.proc r).pending = some (sender, d)) (none : (s.proc r).posted = 0)
    (active : (s.proc r).slot = .active) (dispatched : q.locals.dispatched = (s.proc r).locals.dispatched)
    (posted : q.posted = 1) (outstanding : q.outstanding Msg.dummy = (s.proc r).outstanding Msg.dummy)
    (slot : q.slot = (s.proc r).slot) (pending : q.pending = (s.proc r).pending) (inbox : q.inbox = (s.proc r).inbox)
    (phase : ∀ r', ((s.setProc r q).proc r').dummyPhase = true) (before : ∀ r', ¬((s.setProc r q).proc r').pastSend cfg) :
    State.Answered cfg
      { (s.setProc r q) with
        db := { s.db with dummies := update s.db.dummies sender (s.db.dummies sender ++ [d]) } } := by
  have accepts := postDummy_accepts made
  have dest : d.dest = r := by
    obtain ⟨_, -, same⟩ := Option.map_eq_some_iff.mp made
    cases same
    rfl
  have same := State.setProc_same (f := fun p => p.locals.dispatched) dispatched
  let db : Db n := { s.db with dummies := update s.db.dummies sender (s.db.dummies sender ++ [d]) }
  let t : State n := { (s.setProc r q) with db := db }
  have free : (s.proc r).due = 0 := by simp [Proc.due, none]
  have unsentOwn : t.unsentBy sender = s.unsentBy sender ++ [d] := by
    simp only [State.unsentBy, t, db, update_self, same]
    exact List.drop_append_of_le_length (answered.sent sender)
  have unsentOther : ∀ q', q' ≠ sender → t.unsentBy q' = s.unsentBy q' := fun q' other => by
    simp only [State.unsentBy, t, db, update_of_ne other, same]
  have unsent : ∀ r', t.unsent r' = s.unsent r' + if d.dest = r' then 1 else 0 :=
    sum_dest_add sender (unsentOwn ▸ List.perm_append_singleton ..) unsentOther
  have records : ∀ r', t.records r' = s.records r' + if d.dest = r' then 1 else 0 := by
    refine sum_dest_add sender ?_ fun x other => update_of_ne other ..
    simp only [t, db, update_self]
    exact List.perm_append_singleton ..
  show t.Answered cfg
  refine ⟨fun r' => ?_, fun r' => ?_, fun q' d' isUnsent => ?_, fun r' m member isDummy => ?_, fun _ r' _ => phase r',
    fun r' => ?_, fun r' isPast => absurd isPast (before r')⟩
  · have one := answered.one r'
    rw [unsent, dest]
    by_cases own : r' = r
    · subst own
      have due : q.due = 1 := by simp [Proc.due, posted, slot, active]
      simp only [t, State.setProc_own, due, if_true, outstanding]
      omega
    · simp only [t, State.setProc_other s q own, if_neg (Ne.symm own)]
      omega
  · rw [records, answered.recorded, dest]
    by_cases own : r' = r
    · subst own
      simp only [t, State.setProc_own, posted, none, if_true]
    · simp only [t, State.setProc_other s q own, if_neg (Ne.symm own), Nat.add_zero]
  · have cases_ : d' ∈ s.unsentBy q' ∨ q' = sender ∧ d' = d := by
      by_cases own : q' = sender
      · subst own
        rw [unsentOwn] at isUnsent
        exact (List.mem_append.mp isUnsent).imp_right fun new => ⟨rfl, List.mem_singleton.mp new⟩
      · exact .inl (unsentOther q' own ▸ isUnsent)
    rcases cases_ with old | ⟨rfl, rfl⟩
    · have other := answered.dest_ne old free
      simp only [t, State.setProc_other s q other]
      exact answered.accepted q' d' old
    · simp only [t, dest, State.setProc_own, pending]
      exact accepts
  · by_cases own : r' = r
    · subst own
      simp only [t, State.setProc_own, pending, inbox] at member ⊢
      exact answered.inbox r' m member isDummy
    · simp only [t, State.setProc_other s q own] at member ⊢
      exact answered.inbox r' m member isDummy
  · simp only [t, same]
    refine (answered.sent r').trans ?_
    by_cases own : r' = sender
    · subst own
      simp [db]
    · simp [db, update_of_ne own]

theorem State.Answered.dispatch (answered : s.Answered cfg)
    (record : (s.db.dummies r)[(s.proc r).locals.dispatched]? = some d) (before : ¬(s.proc r).pastSend cfg) :
    State.Answered cfg
      ((s.setProc r ((s.proc r).setLocals fun l => { l with dispatched := l.dispatched + 1 })).deliver
        (some { dest := d.dest, env := d.envelope r, dummy := true })) := by
  let q : Proc n := (s.proc r).setLocals fun l => { l with dispatched := l.dispatched + 1 }
  let o : Post n := { dest := d.dest, env := d.envelope r, dummy := true }
  let t : State n := (s.setProc r q).deliver (some o)
  have same : ∀ {β : Type} (f : Proc n → β), (∀ p o, f (Proc.arrive p o) = f p) → f q = f (s.proc r) →
      ∀ r', f (t.proc r') = f (s.proc r') := fun f arrives own r' =>
    (State.deliver_same arrives (some o) r').trans (State.setProc_same own r')
  have posted := same Proc.posted (fun _ _ => rfl) rfl
  have slot := same Proc.slot (fun _ _ => rfl) rfl
  have pending := same Proc.pending (fun _ _ => rfl) rfl
  have phase := same Proc.dummyPhase (fun _ _ => rfl) rfl
  have pass := same (fun p => p.locals.dummyPass) (fun _ _ => rfl) rfl
  have pc := same Proc.ckpt (fun _ _ => rfl) rfl
  have due : ∀ r', (t.proc r').due = (s.proc r').due := fun r' => by simp only [Proc.due, posted, slot]
  have past : ∀ r', (t.proc r').pastSend cfg → (s.proc r').pastSend cfg := fun r' => by
    simp only [Proc.pastSend, pass, pc]
    exact id
  have dispatchedOwn : (t.proc r).locals.dispatched = (s.proc r).locals.dispatched + 1 := by
    have delivered := State.deliver_same (s := s.setProc r q) (f := fun p => p.locals.dispatched) (fun _ _ => rfl) (some o) r
    rw [delivered, State.setProc_own]
    rfl
  have dispatchedOther : ∀ q', q' ≠ r → (t.proc q').locals.dispatched = (s.proc q').locals.dispatched := fun q' other => by
    have delivered := State.deliver_same (s := s.setProc r q) (f := fun p => p.locals.dispatched) (fun _ _ => rfl) (some o) q'
    rw [delivered, State.setProc_other s q other]
  have db : t.db = s.db := rfl
  obtain ⟨inside, isRecord⟩ := List.getElem?_eq_some_iff.mp record
  have unsentOwn : s.unsentBy r = d :: t.unsentBy r := by
    simp only [State.unsentBy, db, dispatchedOwn]
    rw [List.drop_eq_getElem_cons inside, isRecord]
  have unsentOther : ∀ q', q' ≠ r → t.unsentBy q' = s.unsentBy q' := fun q' other => by
    simp only [State.unsentBy, db, dispatchedOther q' other]
  have unsent : ∀ r', s.unsent r' = t.unsent r' + if d.dest = r' then 1 else 0 :=
    sum_dest_add r (unsentOwn ▸ .rfl) fun x other => (unsentOther x other).symm
  have arrived : ∀ r', (t.proc r').outstanding Msg.dummy =
      (s.proc r').outstanding Msg.dummy + if d.dest = r' then 1 else 0 := fun r' => by
    have before := State.setProc_same (s := s) (f := fun p => p.outstanding Msg.dummy) (r := r) (q := q) rfl r'
    by_cases own : r' = d.dest
    · subst own
      rw [if_pos rfl, ← before]
      simp only [t, State.deliver]
      rw [State.setProc_own, Proc.outstanding_arrive]
      rfl
    · rw [if_neg (Ne.symm own), ← before]
      simp only [t, State.deliver]
      rw [State.setProc_other _ _ own]
      rfl
  show t.Answered cfg
  refine ⟨fun r' => ?_, fun r' => ?_, fun q' d' isUnsent => ?_, fun r' m member isDummy => ?_, fun q' r' isPosted => ?_,
    fun r' => ?_, fun r' isPast => ?_⟩
  · have one := answered.one r'
    have one' := unsent r'
    rw [arrived, due]
    omega
  · rw [posted]
    exact answered.recorded r'
  · rw [pending]
    refine answered.accepted q' d' ?_
    by_cases own : q' = r
    · subst own
      rw [unsentOwn]
      exact List.mem_cons_of_mem d isUnsent
    · exact unsentOther q' own ▸ isUnsent
  · rw [pending]
    have inbox := State.setProc_same (s := s) (f := Proc.inbox) (r := r) (q := q) rfl r'
    by_cases own : r' = d.dest
    · subst own
      simp only [t, State.deliver, State.setProc_own, Proc.arrive, o, inbox] at member
      rcases List.mem_append.mp member with old | new
      · exact answered.inbox d.dest m old isDummy
      · rw [List.mem_singleton.mp new]
        exact answered.accepted r d (unsentOwn ▸ List.mem_cons_self)
    · simp only [t, State.deliver, o, State.setProc_other _ _ own, inbox] at member
      exact answered.inbox r' m member isDummy
  · rw [phase]
    rw [posted] at isPosted
    exact answered.phase q' r' isPosted
  · by_cases own : r' = r
    · subst own
      rw [dispatchedOwn]
      exact inside
    · rw [dispatchedOther r' own]
      exact answered.sent r'
  · have old := past r' isPast
    have other : r' ≠ r := by
      rintro rfl
      exact before old
    rw [dispatchedOther r' other]
    exact answered.all r' old

end Answered

end Mana.P2p
