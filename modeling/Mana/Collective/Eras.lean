import Mana.Collective.Requests

/-! Where the ranks can be between two barriers, what their steps do to the targets in the database, and the lists of
the clocks whose targets the ranks raise in a round. -/

namespace Mana.Collective
open Mana.Lib Function

section Places

inductive Era where
  | between (generation : Nat)
  | shared (e : Attempt)
  | round (e : Attempt) (roundNum : Nat)
  deriving DecidableEq, Repr

inductive Part where
  | rest | sharing | downloading | collecting | reading | returned | leaving | aborted
  deriving DecidableEq, Repr

def CkptPc.part : CkptPc → Part
  | .running | .drainedAll => .rest
  | .share | .shareBarrier => .sharing
  | .shareDownload => .downloading
  | .roundTop | .putConverge | .putCs | .roundBarrier => .collecting
  | .getConverge | .getCs | .getRaised | .verdict => .reading
  | .drained | .drainBarrier => .returned
  | .giveUp | .sleep => .leaving
  | .aborted => .aborted

def Attempt.next (e : Attempt) : Attempt := ⟨e.generation, e.attemptId + 1⟩

def Era.AtPart (era : Era) (part : Part) (p : Proc) : Prop :=
  match part, era with
  | .rest, .between gen => p.generation = gen
  | .sharing, .between gen => p.attempt = ⟨gen + 1, 0⟩
  | .sharing, .shared e | .sharing, .round e _ => p.attempt = e.next
  | .downloading, .shared e => p.attempt = e
  | .collecting, .shared e => p.attempt = e ∧ p.locals.roundNum = 0
  | .collecting, .round e k => p.attempt = e ∧ p.locals.roundNum = k + 1
  | .reading, .round e k | .returned, .round e k => p.attempt = e ∧ p.locals.roundNum = k
  | .leaving, .shared e | .leaving, .round e _ => p.attempt = e
  | .aborted, _ => True
  | _, _ => False

def Era.At (era : Era) (p : Proc) : Prop := era.AtPart p.ckpt.part p

def Work.fits : Work → CkptPc → Prop
  | .idle, _ => True
  | .upload _, pc => pc = .share
  | .download _, pc => pc = .shareDownload ∨ pc = .roundTop ∨ pc = .verdict
  | .uploadRaised _ _, pc | .count _, pc | .write _ _, pc | .check, pc | .readPhase, pc => pc = .roundTop
  | .readEntry _ _, pc | .readTarget _ _ _, pc => pc = .verdict

variable {n : Nat} {kv : Kvdb} {p q : Proc} {work : Work} {effect : Effect} {era : Era}

theorem RequestMove.fits (moved : RequestMove n kv p work effect) (fits : work.fits p.ckpt) :
    effect.work.fits effect.proc.ckpt := by
  cases moved with
  | beginShare pc | beginUpload pc | beginEntries pc | topDownloaded pc => exact pc
  | beginDownload pc => exact pc.imp id (Or.imp And.left id)
  | plain | exhausted | returned | again | endUpload | shareDownloaded | allDownloaded | readPhase | endEntries
  | noEntry | noTarget => exact trivial
  | upload | download | noDownload | uploadRaised | skipRaised | endRaised | count | write | endWrite | check
  | findEntry | skipEntry | readTarget => exact fits

theorem Era.At.congr (here : era.At p) (ckpt : q.ckpt = p.ckpt) (locals : q.locals = p.locals)
    (generation : q.generation = p.generation) : era.At q := by
  have attempt : q.attempt = p.attempt := by rw [Proc.attempt, locals, generation]; rfl
  unfold Era.At Era.AtPart at *
  rwa [ckpt, attempt, locals, generation]

theorem CkptMove.stays {kv' : Kvdb} {pc : CkptPc} (moved : CkptMove n kv p pc q kv') (at_ : p.ckpt = pc)
    (here : era.At p) (outside : p.ckpt ≠ .share ∧ p.ckpt ≠ .shareDownload ∧ p.ckpt ≠ .roundTop ∧ p.ckpt ≠ .verdict) :
    era.At q := by
  cases moved with
  | share | download | section_ | exhausted | returned | raised | again | noTarget => simp [at_] at outside
  | sleep =>
    unfold Era.At Era.AtPart at *
    rw [at_] at here
    cases era <;> simp only [CkptPc.part] at here ⊢ <;> subst here <;> rfl
  | _ =>
    unfold Era.At Era.AtPart at *
    rw [at_] at here
    cases era <;> simp_all [CkptPc.part, Proc.attempt]

theorem RequestMove.stays (moved : RequestMove n kv p work effect) (fits : work.fits p.ckpt) (here : era.At p) :
    era.At effect.proc := by
  cases moved with
  | plain outside moved => exact moved.stays rfl here outside
  | beginDownload | beginUpload | beginEntries | upload | noDownload | uploadRaised | skipRaised | count | write
  | endWrite | findEntry | skipEntry => exact here
  | beginShare | download | topDownloaded | endRaised | readTarget => exact here.congr rfl rfl rfl
  | check =>
    unfold Era.At Era.AtPart at *
    exact here
  | exhausted pc | returned pc | again pc | shareDownloaded pc | allDownloaded pc =>
    unfold Era.At Era.AtPart at *
    rw [pc] at here
    cases era <;> simp_all [CkptPc.part, Proc.attempt, Proc.nextRound]
  | endUpload | readPhase | endEntries =>
    unfold Era.At Era.AtPart at *
    rw [show p.ckpt = _ from fits] at here
    cases era <;> simp_all [CkptPc.part, Proc.attempt, Proc.nextRound]
  | noEntry | noTarget => exact trivial

def Barrier.pc : Barrier → CkptPc
  | .shareSeqNum _ => .shareBarrier
  | .presuspend _ _ => .roundBarrier
  | .drainSendRecv => .drainBarrier

def Era.after : Era → Barrier → Era
  | .between gen, .shareSeqNum _ => .shared ⟨gen + 1, 0⟩
  | .shared e, .shareSeqNum _ | .round e _, .shareSeqNum _ => .shared e.next
  | .shared e, .presuspend _ _ => .round e 0
  | .round e k, .presuspend _ _ => .round e (k + 1)
  | .shared e, .drainSendRecv | .round e _, .drainSendRecv => .between e.generation
  | .between gen, .presuspend _ _ | .between gen, .drainSendRecv => .between gen

theorem Proc.ckpt_of_waitingAt {b : Barrier} (waits : p.waitingAt = some b) : p.ckpt = b.pc := by
  unfold Proc.waitingAt at waits
  split at waits
  all_goals first
    | cases waits
      done
    | obtain rfl := Option.some.inj waits
      assumption

theorem Era.At.released {b : Barrier} (here : era.At p) (waits : p.waitingAt = some b) :
    (era.after b).At p.released := by
  have pc := Proc.ckpt_of_waitingAt waits
  unfold Era.At at here
  rw [pc] at here
  change (era.after b).AtPart p.ckpt.released.part p
  rw [pc]
  cases b <;> cases era <;> simp_all [Era.AtPart, CkptPc.released, CkptPc.part, Barrier.pc, Era.after]
  rw [← here.1]
  rfl

end Places

section Database

def uploadedMax (kv : Kvdb) (e : Attempt) (g : Gid) : Option Nat := kv ⟨.commSeqMax, e⟩ (.gid g)

def listLength (kv : Kvdb) (e : Attempt) (k : Nat) : Nat := (kv ⟨.targetsRaised, e⟩ (.round k)).getD 0

def listEntry (kv : Kvdb) (e : Attempt) (k i : Nat) : Option Gid := kv ⟨.raisedGids, e⟩ (.entry k i)

def Work.unlisted : Work → List Gid
  | .uploadRaised _ gids | .count gids => gids
  | .write _ left => left
  | _ => []

def Work.owns : Work → Nat → Prop
  | .write i left, j => i ≤ j ∧ j < i + left.length
  | _, _ => False

inductive DbMove (kv : Kvdb) (p : Proc) (work : Work) (effect : Effect) : Prop where
  | same (uploadedMax : ∀ e g, uploadedMax effect.kvdb e g = uploadedMax kv e g)
      (length : ∀ e k, listLength effect.kvdb e k = listLength kv e k)
      (entry : ∀ e k i, listEntry effect.kvdb e k i = listEntry kv e k i)
      (noUpload : effect.upload = none) (ownsNothing : ∀ j, ¬effect.work.owns j)
      (keeps : ∀ g ∈ work.unlisted, g ∈ effect.work.unlisted ∧ effect.proc.attempt = p.attempt ∧
        effect.proc.locals.roundNum = p.locals.roundNum)
  | upload (occasion : Occasion) (g : Gid) (c : CommClock) (found : p.clocks.lookup g = some c)
      (proc : effect.proc = p) (kvdb : effect.kvdb = uploadSeq ⟨.commSeqMax, p.attempt⟩ g c.seq kv)
      (upload : effect.upload = some ⟨p.attempt, occasion, g, c.seq⟩) (ownsNothing : ∀ j, ¬effect.work.owns j)
      (keeps : ∀ g ∈ work.unlisted, g ∈ effect.work.unlisted)
      (place : occasion = .share ∧ p.ckpt = .share ∨
        occasion = .round p.locals.roundNum ∧ p.ckpt = .roundTop ∧ g ∈ effect.work.unlisted)
  | count (gids : List Gid) (was : work = .count gids)
      (is : effect = ⟨p, .write (listLength kv p.attempt p.locals.roundNum) gids,
        kv.incrBy ⟨.targetsRaised, p.attempt⟩ (.round p.locals.roundNum) gids.length, none⟩)
  | write (i : Nat) (g : Gid) (left : List Gid) (was : work = .write i (g :: left))
      (is : effect = ⟨p, .write (i + 1) left,
        kv.set ⟨.raisedGids, p.attempt⟩ (.entry p.locals.roundNum i) g, none⟩)

variable {n : Nat} {kv kv' : Kvdb} {p q : Proc} {work : Work} {effect : Effect}

theorem DbMove.of_same {proc : Proc} {next : Work} (ownsNothing : ∀ j, ¬next.owns j)
    (keeps : ∀ g ∈ work.unlisted, g ∈ next.unlisted ∧ proc.attempt = p.attempt ∧
      proc.locals.roundNum = p.locals.roundNum) : DbMove kv p work ⟨proc, next, kv, none⟩ :=
  .same (fun _ _ => rfl) (fun _ _ => rfl) (fun _ _ _ => rfl) rfl ownsNothing keeps

theorem CkptMove.targets_eq {pc : CkptPc} (moved : CkptMove n kv p pc q kv')
    (outside : pc ≠ .share ∧ pc ≠ .roundTop) (db : DbName) (key : Key)
    (what : db.what = .commSeqMax ∨ db.what = .targetsRaised ∨ db.what = .raisedGids) : kv' db key = kv db key := by
  cases moved with
  | share | section_ => simp at outside
  | putConverge | putCs =>
    refine Kvdb.set_db_ne _ _ _ _ ?_
    rintro rfl
    simp at what
  | _ => rfl

theorem RequestMove.db (moved : RequestMove n kv p work effect) (fits : work.fits p.ckpt) :
    DbMove kv p work effect := by
  cases moved with
  | plain outside moved =>
    have same := moved.targets_eq ⟨outside.1, outside.2.2.1⟩
    refine .same (fun _ _ => same _ _ (.inl rfl)) (fun _ _ => ?_) (fun _ _ _ => same _ _ (.inr (.inr rfl))) rfl
      (fun _ => id) nofun
    exact congrArg (Option.getD · 0) (same _ _ (.inr (.inl rfl)))
  | upload g left c found =>
    exact .upload .share g c found rfl rfl rfl (fun _ => id) nofun (.inl ⟨rfl, fits⟩)
  | uploadRaised g left gids c found =>
    refine .upload _ g c found rfl rfl rfl (fun _ => id) (fun _ member => List.mem_append_left _ member)
      (.inr ⟨rfl, fits, List.mem_append_right _ List.mem_cons_self⟩)
  | count gids => exact .count gids rfl rfl
  | write i g left => exact .write i g left rfl rfl
  | skipRaised | endRaised => exact .of_same (fun _ => id) fun g member => ⟨member, rfl, rfl⟩
  | _ => exact .of_same (fun _ => id) nofun

end Database

section Lists

variable {n : Nat} {s t : Requests n}

def Requests.Unlisted (s : Requests n) (e : Attempt) (k : Nat) (g : Gid) : Prop :=
  ∃ r, (s.base.proc r).attempt = e ∧ (s.base.proc r).locals.roundNum = k ∧ g ∈ (s.work r).unlisted

/-- The lists of the rounds: every upload of a round is on the round's list, or its rank is about to write it there.
No entry is written twice. -/
structure Lists (s : Requests n) : Prop where
  listed : ∀ u ∈ s.uploads, ∀ k, u.occasion = .round k →
    (∃ i < listLength s.base.kvdb u.attempt k, listEntry s.base.kvdb u.attempt k i = some u.gid) ∨
      s.Unlisted u.attempt k u.gid
  beyond : ∀ e k i, listLength s.base.kvdb e k ≤ i → listEntry s.base.kvdb e k i = none
  owned : ∀ r i, (s.work r).owns i →
    i < listLength s.base.kvdb (s.base.proc r).attempt (s.base.proc r).locals.roundNum ∧
      listEntry s.base.kvdb (s.base.proc r).attempt (s.base.proc r).locals.roundNum i = none
  apart : ∀ q r i, q ≠ r → (s.base.proc q).attempt = (s.base.proc r).attempt →
    (s.base.proc q).locals.roundNum = (s.base.proc r).locals.roundNum → (s.work q).owns i → ¬(s.work r).owns i

theorem Lists.congr (lists : Lists s) (kvdb : t.base.kvdb = s.base.kvdb) (work : t.work = s.work)
    (uploads : t.uploads = s.uploads) (attempt : ∀ r, (t.base.proc r).attempt = (s.base.proc r).attempt)
    (roundNum : ∀ r, (t.base.proc r).locals.roundNum = (s.base.proc r).locals.roundNum) : Lists t := by
  obtain ⟨listed, beyond, owned, apart⟩ := lists
  constructor
  · intro u member k isRound
    rw [uploads] at member
    rw [kvdb]
    refine (listed u member k isRound).imp id ?_
    rintro ⟨r, sameAttempt, sameRound, waits⟩
    exact ⟨r, by rw [attempt, sameAttempt], by rw [roundNum, sameRound], by rwa [work]⟩
  · rwa [kvdb]
  · intro r i owns
    rw [work] at owns
    rw [kvdb, attempt, roundNum]
    exact owned r i owns
  · intro q r i differ sameAttempt sameRound
    rw [attempt, attempt] at sameAttempt
    rw [roundNum, roundNum] at sameRound
    rw [work]
    exact apart q r i differ sameAttempt sameRound

variable {r : Fin n} {effect : Effect}

theorem Requests.apply_proc_self : (s.apply r effect).base.proc r = effect.proc := update_self ..

theorem Requests.apply_work_self : (s.apply r effect).work r = effect.work := update_self ..

theorem Requests.apply_proc_of_ne {q : Fin n} (other : q ≠ r) : (s.apply r effect).base.proc q = s.base.proc q :=
  update_of_ne other ..

theorem Requests.apply_work_of_ne {q : Fin n} (other : q ≠ r) : (s.apply r effect).work q = s.work q :=
  update_of_ne other ..

theorem Requests.forall_apply (holds : Fin n → Proc → Work → Prop) (own : holds r effect.proc effect.work)
    (others : ∀ q, q ≠ r → holds q (s.base.proc q) (s.work q)) (q : Fin n) :
    holds q ((s.apply r effect).base.proc q) ((s.apply r effect).work q) := by
  by_cases same : q = r
  · subst same
    rwa [apply_proc_self, apply_work_self]
  · rw [apply_proc_of_ne same, apply_work_of_ne same]
    exact others q same

theorem Requests.apply_proc_of_eq (same : effect.proc = s.base.proc r) (q : Fin n) :
    (s.apply r effect).base.proc q = s.base.proc q := by
  by_cases own : q = r
  · subst own
    rw [apply_proc_self, same]
  · exact apply_proc_of_ne own

theorem Requests.Unlisted.apply {e : Attempt} {k : Nat} {g : Gid} (unlisted : s.Unlisted e k g)
    (keeps : g ∈ (s.work r).unlisted → g ∈ effect.work.unlisted ∧
      effect.proc.attempt = (s.base.proc r).attempt ∧
      effect.proc.locals.roundNum = (s.base.proc r).locals.roundNum) : (s.apply r effect).Unlisted e k g := by
  obtain ⟨q, sameAttempt, sameRound, waits⟩ := unlisted
  by_cases own : q = r
  · subst own
    obtain ⟨still, attempt, roundNum⟩ := keeps waits
    refine ⟨q, ?_, ?_, ?_⟩
    · rw [apply_proc_self, attempt, sameAttempt]
    · rw [apply_proc_self, roundNum, sameRound]
    · rwa [apply_work_self]
  · refine ⟨q, ?_, ?_, ?_⟩
    · rwa [apply_proc_of_ne own]
    · rwa [apply_proc_of_ne own]
    · rwa [apply_work_of_ne own]

theorem Lists.apply_same (lists : Lists s) (length : ∀ e k, listLength effect.kvdb e k = listLength s.base.kvdb e k)
    (entry : ∀ e k i, listEntry effect.kvdb e k i = listEntry s.base.kvdb e k i)
    (ownsNothing : ∀ i, ¬effect.work.owns i)
    (keeps : ∀ g ∈ (s.work r).unlisted, g ∈ effect.work.unlisted ∧
      effect.proc.attempt = (s.base.proc r).attempt ∧ effect.proc.locals.roundNum = (s.base.proc r).locals.roundNum)
    (new : ∀ u, effect.upload = some u → ∀ k, u.occasion = .round k →
      effect.proc.attempt = u.attempt ∧ effect.proc.locals.roundNum = k ∧ u.gid ∈ effect.work.unlisted) :
    Lists (s.apply r effect) := by
  have owner {q : Fin n} {i : Nat} (owns : ((s.apply r effect).work q).owns i) : q ≠ r := by
    rintro rfl
    rw [Requests.apply_work_self] at owns
    exact ownsNothing i owns
  constructor
  · intro u member k isRound
    change (∃ i < listLength effect.kvdb u.attempt k, listEntry effect.kvdb u.attempt k i = some u.gid) ∨ _
    rcases List.mem_append.mp member with old | isNew
    · rw [length]
      simp only [entry]
      exact (lists.listed u old k isRound).imp id fun unlisted => unlisted.apply (keeps u.gid)
    · obtain ⟨sameAttempt, sameRound, waits⟩ := new u (Option.mem_toList.mp isNew) k isRound
      refine .inr ⟨r, ?_, ?_, ?_⟩
      · rwa [Requests.apply_proc_self]
      · rwa [Requests.apply_proc_self]
      · rwa [Requests.apply_work_self]
  · intro e k i isBeyond
    change listLength effect.kvdb e k ≤ i at isBeyond
    change listEntry effect.kvdb e k i = none
    rw [length] at isBeyond
    rw [entry]
    exact lists.beyond e k i isBeyond
  · intro q i owns
    have other := owner owns
    rw [Requests.apply_work_of_ne other] at owns
    rw [Requests.apply_proc_of_ne other]
    change i < listLength effect.kvdb _ _ ∧ listEntry effect.kvdb _ _ i = none
    rw [length, entry]
    exact lists.owned q i owns
  · intro q q' i differ sameAttempt sameRound owns owns'
    have other := owner owns
    have other' := owner owns'
    rw [Requests.apply_proc_of_ne other, Requests.apply_proc_of_ne other'] at sameAttempt sameRound
    rw [Requests.apply_work_of_ne other] at owns
    rw [Requests.apply_work_of_ne other'] at owns'
    exact lists.apart q q' i differ sameAttempt sameRound owns owns'

theorem listLength_incrBy (kv : Kvdb) (e e' : Attempt) (k k' value : Nat) :
    listLength (kv.incrBy ⟨.targetsRaised, e⟩ (.round k) value) e' k' =
      if e' = e ∧ k' = k then listLength kv e k + value else listLength kv e' k' := by
  simp only [listLength, Kvdb.incrBy, Kvdb.set, DbName.mk.injEq, true_and, Key.round.injEq]
  split_ifs <;> rfl

theorem listEntry_incrBy (kv : Kvdb) (e e' : Attempt) (k k' i value : Nat) :
    listEntry (kv.incrBy ⟨.targetsRaised, e⟩ (.round k) value) e' k' i = listEntry kv e' k' i := by
  rw [listEntry, Kvdb.incrBy, Kvdb.set_db_ne _ _ _ _ (by simp), listEntry]

theorem listLength_set (kv : Kvdb) (e e' : Attempt) (k k' i : Nat) (g : Gid) :
    listLength (kv.set ⟨.raisedGids, e⟩ (.entry k i) g) e' k' = listLength kv e' k' := by
  rw [listLength, Kvdb.set_db_ne _ _ _ _ (by simp), listLength]

theorem listEntry_set (kv : Kvdb) (e e' : Attempt) (k k' i i' : Nat) (g : Gid) :
    listEntry (kv.set ⟨.raisedGids, e⟩ (.entry k i) g) e' k' i' =
      if e' = e ∧ k' = k ∧ i' = i then some g else listEntry kv e' k' i' := by
  simp only [listEntry, Kvdb.set, DbName.mk.injEq, true_and, Key.entry.injEq]

theorem Lists.apply_count (lists : Lists s) {gids : List Gid} (was : s.work r = .count gids) :
    Lists (s.apply r ⟨s.base.proc r,
      .write (listLength s.base.kvdb (s.base.proc r).attempt (s.base.proc r).locals.roundNum) gids,
      s.base.kvdb.incrBy ⟨.targetsRaised, (s.base.proc r).attempt⟩ (.round (s.base.proc r).locals.roundNum)
        gids.length, none⟩) := by
  set p := s.base.proc r with isProc
  set effect : Effect := ⟨p, .write (listLength s.base.kvdb p.attempt p.locals.roundNum) gids,
    s.base.kvdb.incrBy ⟨.targetsRaised, p.attempt⟩ (.round p.locals.roundNum) gids.length, none⟩ with isEffect
  have procs : ∀ q, (s.apply r effect).base.proc q = s.base.proc q := Requests.apply_proc_of_eq rfl
  have grows (e : Attempt) (k : Nat) : listLength s.base.kvdb e k ≤ listLength effect.kvdb e k := by
    rw [isEffect, listLength_incrBy]
    split_ifs with here
    · rw [here.1, here.2]
      exact Nat.le_add_right _ _
    · exact Nat.le_refl _
  have entry (e : Attempt) (k i : Nat) : listEntry effect.kvdb e k i = listEntry s.base.kvdb e k i :=
    listEntry_incrBy ..
  -- The new entries lie behind the ones that other ranks may still write.
  have new {i : Nat} (owns : effect.work.owns i) : listLength s.base.kvdb p.attempt p.locals.roundNum ≤ i ∧
      i < listLength effect.kvdb p.attempt p.locals.roundNum := by
    rw [isEffect, listLength_incrBy, if_pos ⟨rfl, rfl⟩]
    exact owns
  constructor
  · intro u member k isRound
    rw [show (s.apply r effect).uploads = s.uploads from List.append_nil _] at member
    rcases lists.listed u member k isRound with ⟨i, inside, isEntry⟩ | unlisted
    · exact .inl ⟨i, inside.trans_le (grows _ _), (entry _ _ _).trans isEntry⟩
    · refine .inr (unlisted.apply fun waits => ⟨?_, rfl, rfl⟩)
      rw [was] at waits
      exact waits
  · intro e k i isBeyond
    exact (entry e k i).trans (lists.beyond e k i ((grows e k).trans isBeyond))
  · intro q i owns
    rw [procs]
    change i < listLength effect.kvdb _ _ ∧ listEntry effect.kvdb _ _ i = none
    rw [entry]
    by_cases own : q = r
    · subst own
      rw [Requests.apply_work_self] at owns
      exact ⟨(new owns).2, lists.beyond _ _ i (new owns).1⟩
    · rw [Requests.apply_work_of_ne own] at owns
      obtain ⟨inside, unwritten⟩ := lists.owned q i owns
      exact ⟨inside.trans_le (grows _ _), unwritten⟩
  · intro q q' i differ sameAttempt sameRound owns owns'
    rw [procs, procs] at sameAttempt sameRound
    by_cases own : q = r
    · subst own
      rw [Requests.apply_work_self] at owns
      rw [Requests.apply_work_of_ne differ.symm] at owns'
      have before := (lists.owned q' i owns').1
      rw [← sameAttempt, ← sameRound] at before
      exact absurd (new owns).1 (Nat.not_le_of_lt before)
    · rw [Requests.apply_work_of_ne own] at owns
      by_cases own' : q' = r
      · subst own'
        rw [Requests.apply_work_self] at owns'
        have before := (lists.owned q i owns).1
        rw [sameAttempt, sameRound] at before
        exact absurd (new owns').1 (Nat.not_le_of_lt before)
      · rw [Requests.apply_work_of_ne own'] at owns'
        exact lists.apart q q' i differ sameAttempt sameRound owns owns'

theorem Lists.apply_write (lists : Lists s) {i : Nat} {g : Gid} {left : List Gid} (was : s.work r = .write i (g :: left)) :
    Lists (s.apply r ⟨s.base.proc r, .write (i + 1) left,
      s.base.kvdb.set ⟨.raisedGids, (s.base.proc r).attempt⟩ (.entry (s.base.proc r).locals.roundNum i) g, none⟩) := by
  set p := s.base.proc r with isProc
  set effect : Effect := ⟨p, .write (i + 1) left,
    s.base.kvdb.set ⟨.raisedGids, p.attempt⟩ (.entry p.locals.roundNum i) g, none⟩ with isEffect
  have procs : ∀ q, (s.apply r effect).base.proc q = s.base.proc q := Requests.apply_proc_of_eq rfl
  have length (e : Attempt) (k : Nat) : listLength effect.kvdb e k = listLength s.base.kvdb e k :=
    listLength_set ..
  have owned : (s.work r).owns i := by
    rw [was]
    exact ⟨Nat.le_refl i, by simp⟩
  have shrinks {q : Fin n} {j : Nat} (owns : ((s.apply r effect).work q).owns j) :
      (s.work q).owns j ∧ (q = r → j ≠ i) := by
    by_cases own : q = r
    · subst own
      rw [Requests.apply_work_self] at owns
      rw [was]
      simp only [isEffect, Work.owns, List.length_cons] at owns ⊢
      omega
    · rw [Requests.apply_work_of_ne own] at owns
      exact ⟨owns, fun same => absurd same own⟩
  obtain ⟨inside, unwritten⟩ := lists.owned r i owned
  constructor
  · intro u member k isRound
    rw [show (s.apply r effect).uploads = s.uploads from List.append_nil _] at member
    change (∃ i < listLength effect.kvdb u.attempt k, listEntry effect.kvdb u.attempt k i = some u.gid) ∨ _
    rw [length]
    rcases lists.listed u member k isRound with ⟨j, isInside, isEntry⟩ | ⟨q, sameAttempt, sameRound, waits⟩
    · refine .inl ⟨j, isInside, ?_⟩
      rw [isEffect, listEntry_set, if_neg, isEntry]
      rintro ⟨sameAttempt, rfl, rfl⟩
      rw [sameAttempt, unwritten] at isEntry
      cases isEntry
    · by_cases own : q = r
      · subst own
        rw [was] at waits
        rcases List.mem_cons.mp waits with rfl | later
        · refine .inl ⟨i, by rwa [← sameAttempt, ← sameRound], ?_⟩
          rw [isEffect, listEntry_set, if_pos ⟨sameAttempt.symm, sameRound.symm, rfl⟩]
        · refine .inr ⟨q, by rwa [procs], by rwa [procs], ?_⟩
          rw [Requests.apply_work_self]
          exact later
      · refine .inr ⟨q, by rwa [procs], by rwa [procs], ?_⟩
        rwa [Requests.apply_work_of_ne own]
  · intro e k j isBeyond
    change listLength effect.kvdb e k ≤ j at isBeyond
    rw [length] at isBeyond
    change listEntry effect.kvdb e k j = none
    rw [isEffect, listEntry_set, if_neg, lists.beyond e k j isBeyond]
    rintro ⟨rfl, rfl, rfl⟩
    exact absurd inside (Nat.not_lt_of_le isBeyond)
  · intro q j owns
    obtain ⟨owned', notWritten⟩ := shrinks owns
    rw [procs]
    change j < listLength effect.kvdb _ _ ∧ listEntry effect.kvdb _ _ j = none
    rw [length, isEffect, listEntry_set, if_neg]
    · exact lists.owned q j owned'
    · rintro ⟨sameAttempt, sameRound, rfl⟩
      by_cases own : q = r
      · exact notWritten own rfl
      · exact lists.apart q r j own sameAttempt sameRound owned' owned
  · intro q q' j differ sameAttempt sameRound owns owns'
    rw [procs, procs] at sameAttempt sameRound
    exact lists.apart q q' j differ sameAttempt sameRound (shrinks owns).1 (shrinks owns').1

theorem Lists.apply (lists : Lists s) (db : DbMove s.base.kvdb (s.base.proc r) (s.work r) effect) :
    Lists (s.apply r effect) := by
  cases db with
  | same _ length entry noUpload ownsNothing keeps =>
    refine lists.apply_same length entry ownsNothing keeps fun u isUpload => ?_
    rw [noUpload] at isUpload
    cases isUpload
  | upload occasion g c found proc kvdb upload ownsNothing keeps place =>
    refine lists.apply_same (fun e k => ?_) (fun e k i => ?_) ownsNothing
      (fun g member => ⟨keeps g member, by rw [proc], by rw [proc]⟩) ?_
    · rw [kvdb, listLength, uploadSeq_other _ _ _ _ _ _ (by simp), listLength]
    · rw [kvdb]
      exact uploadSeq_other _ _ _ _ _ _ (by simp)
    · intro u isUpload k isRound
      rw [upload] at isUpload
      cases isUpload
      rcases place with ⟨rfl, -⟩ | ⟨rfl, -, waits⟩
      · cases isRound
      · cases isRound
        rw [proc]
        exact ⟨rfl, rfl, waits⟩
  | count gids was is =>
    subst is
    exact lists.apply_count was
  | write i g left was is =>
    subst is
    exact lists.apply_write was

end Lists

end Mana.Collective
