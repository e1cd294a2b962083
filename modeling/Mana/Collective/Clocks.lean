import Mana.Collective.Eras

/-! What each rank knows of its own clocks, request by request. The sequence number of a clock is the number of the
calls that were counted on it. A target that the rank has downloaded in the attempt is one that the database holds or
one that the rank has reached. -/

namespace Mana.Collective
open Mana.Lib Option Function

section Maxima

def seqMax (kv : Kvdb) (e : Attempt) (g : Gid) : Nat := (kv ⟨.commSeqMax, e⟩ (.gid g)).getD 0

variable {kv : Kvdb} {p : Proc} {work : Work} {effect : Effect}

theorem uploadedMax_uploadSeq (kv : Kvdb) (e e' : Attempt) (g g' : Gid) (seq : Nat) :
    uploadedMax (uploadSeq ⟨.commSeqMax, e⟩ g seq kv) e' g' =
      if e' = e ∧ g' = g then some (max ((uploadedMax kv e g).getD 0) seq) else uploadedMax kv e' g' := by
  unfold uploadedMax
  by_cases same : e' = e
  · subst same
    rw [uploadSeq_gid]
    simp only [true_and]
  · rw [uploadSeq_other _ _ _ _ _ _ (by simp [same]), if_neg (fun both => same both.1)]

theorem uploadedMax_set (kv : Kvdb) (db : DbName) (key : Key) (value : Nat) (e : Attempt) (g : Gid)
    (other : db.what ≠ .commSeqMax) : uploadedMax (kv.set db key value) e g = uploadedMax kv e g := by
  rw [uploadedMax, Kvdb.set_db_ne _ _ _ _ (by rintro rfl; exact other rfl), uploadedMax]

theorem DbMove.uploadedMax_cases (db : DbMove kv p work effect) :
    (effect.upload = none ∧ ∀ e g, uploadedMax effect.kvdb e g = uploadedMax kv e g) ∨
      ∃ occasion g c, p.clocks.lookup g = some c ∧ effect.upload = some ⟨p.attempt, occasion, g, c.seq⟩ ∧
        ∀ e' g', uploadedMax effect.kvdb e' g' =
          if e' = p.attempt ∧ g' = g then some (max ((uploadedMax kv p.attempt g).getD 0) c.seq) else uploadedMax kv e' g' := by
  cases db with
  | same uploadedMax _ _ noUpload => exact .inl ⟨noUpload, uploadedMax⟩
  | upload occasion g c found proc kvdb upload =>
    refine .inr ⟨occasion, g, c, found, upload, fun e' g' => ?_⟩
    rw [kvdb, uploadedMax_uploadSeq]
  | count gids was is | write i g left was is =>
    subst is
    exact .inl ⟨rfl, fun e g => uploadedMax_set _ _ _ _ _ _ (by simp)⟩

/-- The maxima stay and only grow. -/
def MaximaGrow (kv kv' : Kvdb) : Prop :=
  ∀ e g v, uploadedMax kv e g = some v → ∃ v', uploadedMax kv' e g = some v' ∧ v ≤ v'

theorem DbMove.maximaGrow (db : DbMove kv p work effect) : MaximaGrow kv effect.kvdb := by
  intro e g v isMax
  rcases db.uploadedMax_cases with ⟨-, same⟩ | ⟨occasion, g', c, -, -, raised⟩
  · exact ⟨v, (same e g).trans isMax, Nat.le_refl v⟩
  · rw [raised]
    split_ifs with here
    · rw [← here.1, ← here.2, isMax]
      exact ⟨_, rfl, Nat.le_max_left ..⟩
    · exact ⟨v, isMax, Nat.le_refl v⟩

theorem MaximaGrow.seqMax_le {kv' : Kvdb} (grow : MaximaGrow kv kv') (e : Attempt) (g : Gid) :
    seqMax kv e g ≤ seqMax kv' e g := by
  change (uploadedMax kv e g).getD 0 ≤ (uploadedMax kv' e g).getD 0
  cases isMax : uploadedMax kv e g with
  | none => exact Nat.zero_le _
  | some v =>
    obtain ⟨v', isMax', le⟩ := grow e g v isMax
    rwa [isMax']

end Maxima

/-! The sequence number of a clock is the number of the calls that were counted on it. -/

section Counts

structure Counts (p : Proc) : Prop where
  held : ∀ g c, p.clocks.lookup g = some c → c.seq = p.calls.count g
  absent : ∀ g, g ∉ p.clocks → g ∉ p.freed → p.calls.count g = 0

variable {p q : Proc} {size : Gid → Nat} {mayAdd mayErase : Gid → Bool}

theorem Counts.erase (counts : Counts p) {g : Gid} (freed : g ∈ p.freed) :
    Counts { p with clocks := p.clocks.erase g } := by
  refine ⟨fun g' c held => ?_, fun g' gone unfreed => ?_⟩
  · exact counts.held g' c (Assoc.lookup_of_erase held).2
  · refine counts.absent g' (fun held => ?_) unfreed
    rw [AList.mem_erase, not_and] at gone
    by_cases own : g' = g
    · exact unfreed (own ▸ freed)
    · exact gone own held

theorem Counts.appMove (counts : Counts p) (moved : AppMove size mayAdd mayErase p q)
    (freed : ∀ g, mayErase g = true → g ∈ p.clocks → g ∈ p.freed) : Counts q := by
  cases moved with
  | move => exact ⟨counts.held, counts.absent⟩
  | enter c pc unlocked goes entered =>
    cases c with
    | uncounted =>
      simp only [Proc.enter, some.injEq] at entered
      subst entered
      exact ⟨counts.held, counts.absent⟩
    | counted g free =>
      obtain ⟨clock, found, rfl⟩ := Proc.enter_counted entered
      refine ⟨fun g' c held => ?_, fun g' gone unfreed => ?_⟩
      · dsimp only at held ⊢
        rw [List.count_append, List.count_singleton]
        rcases Assoc.lookup_insert_cases held with ⟨rfl, rfl⟩ | ⟨other, old⟩
        · simp [CommClock.count, counts.held g' clock found]
        · simp [counts.held g' c old, Ne.symm other]
      · dsimp only at gone unfreed ⊢
        rw [AList.mem_insert, not_or] at gone
        have unfreed' : g' ∉ p.freed := by
          split at unfreed
          · exact fun member => unfreed (List.mem_cons_of_mem _ member)
          · exact unfreed
        rw [List.count_append, List.count_singleton, counts.absent g' gone.2 unfreed']
        simp [Ne.symm gone.1]
  | add g inside unlocked may absent unfreed =>
    refine ⟨fun g' c held => ?_, fun g' gone unfreed' => ?_⟩
    · rcases Assoc.lookup_insert_cases held with ⟨rfl, rfl⟩ | ⟨-, old⟩
      · exact (counts.absent g' absent unfreed).symm
      · exact counts.held g' c old
    · simp only [Proc.addCommClock, AList.mem_insert, not_or] at gone
      exact counts.absent g' gone.2 unfreed'
  | erase g out unlocked may present =>
    exact counts.erase (freed g may present)

end Counts

def CkptPc.pending : CkptPc → Bool
  | .running | .share | .sleep | .aborted => false
  | _ => true

@[simp] theorem CkptPc.pending_released (pc : CkptPc) : pc.released.pending = pc.pending := by cases pc <;> rfl

/-- The rank has uploaded the clock in `share_seq_nums`, and has not yet ended the download. -/
def CkptPc.shares (pc : CkptPc) (work : Work) (g : Gid) : Bool :=
  match pc, work with
  | .share, .upload left => decide (g ∉ left)
  | .shareBarrier, _ | .shareDownload, _ => true
  | _, _ => false

/-- The target of the clock is from before the attempt. -/
def CkptPc.stale (pc : CkptPc) (work : Work) (g : Gid) : Bool :=
  match pc, work with
  | .shareDownload, .download left => decide (g ∈ left)
  | .share, _ | .shareBarrier, _ | .shareDownload, _ => true
  | _, _ => false

/-- The rank has yet to upload the clock, in the section in which it is or in the next one. -/
def Proc.unsent (p : Proc) (work : Work) (g : Gid) : Prop :=
  match work with
  | .upload left => g ∈ left
  | .uploadRaised left gids => g ∈ left ∧ g ∉ gids
  | _ => g ∈ p.raisedClocks

structure ClockInv {n : Nat} (members : Gid → Finset (Fin n)) (kv : Kvdb) (r : Fin n) (p : Proc) (work : Work) :
    Prop where
  fits : work.fits p.ckpt
  member : ∀ g ∈ p.clocks, r ∈ members g
  called : ∀ g ∈ p.calls, r ∈ members g
  counts : Counts p
  pending : p.ckpt ≠ .aborted → p.ckptPending = (p.ckpt.pending || decide (work ≠ .idle))
  uploaded : ∀ g ∈ p.clocks, p.ckpt.shares work g = true → (uploadedMax kv p.attempt g).isSome
  bounded : p.ckptPending = true → ∀ g c, p.clocks.lookup g = some c → p.ckpt.stale work g = false →
    c.target ≤ seqMax kv p.attempt g ∨ c.target ≤ c.seq
  known : p.ckptPending = true → ∀ g c, p.clocks.lookup g = some c → ¬p.unsent work g →
    c.seq ≤ seqMax kv p.attempt g ∨ (members g).card ≤ 1

section ClockInv

variable {n : Nat} {members : Gid → Finset (Fin n)} {kv kv' : Kvdb} {r : Fin n} {p q : Proc} {work : Work}
    {effect : Effect} {pc : CkptPc} {g : Gid} {c : CommClock}

theorem CkptMove.same_of_outside (moved : CkptMove n kv p pc q kv')
    (outside : pc ≠ .share ∧ pc ≠ .shareDownload ∧ pc ≠ .roundTop ∧ pc ≠ .verdict) :
    q.clocks = p.clocks ∧ q.shared = p.shared ∧ q.raisedClocks = p.raisedClocks := by
  cases moved with
  | share | download | section_ | exhausted | returned | raised | again | noTarget => simp at outside
  | _ => exact ⟨rfl, rfl, rfl⟩

/-- A request leaves a clock alone, or sets its target to the maximum in the database. -/
theorem RequestMove.lookup (moved : RequestMove n kv p work effect) (g : Gid) :
    effect.proc.clocks.lookup g = p.clocks.lookup g ∨
      ∃ c v, p.clocks.lookup g = some c ∧ uploadedMax kv p.attempt g = some v ∧ effect.proc.attempt = p.attempt ∧
        effect.proc.clocks.lookup g = some { c with target := v } := by
  cases moved with
  | plain outside moved => exact .inl (by rw [(moved.same_of_outside outside).1])
  | download g' left maxSeq got =>
    rw [lookup_setTarget]
    cases held : p.clocks.lookup g with
    | none => exact .inl rfl
    | some c =>
      by_cases same : g = g'
      · subst same
        exact .inr ⟨c, maxSeq, rfl, got, rfl, by rw [map_some, if_pos rfl]⟩
      · exact .inl (by rw [map_some, if_neg same])
  | readTarget i g' downloaded c maxSeq held got =>
    rw [Assoc.lookup_insert_eq]
    split_ifs with same
    · subst same
      exact .inr ⟨c, maxSeq, held, got, rfl, rfl⟩
    · exact .inl rfl
  | _ => exact .inl rfl

theorem RequestMove.seq_eq (moved : RequestMove n kv p work effect) (g : Gid) :
    (effect.proc.clocks.lookup g).map CommClock.seq = (p.clocks.lookup g).map CommClock.seq := by
  rcases moved.lookup g with same | ⟨c, v, held, -, -, now⟩
  · rw [same]
  · rw [held, now, map_some, map_some]

theorem RequestMove.mem_clocks (moved : RequestMove n kv p work effect) (g : Gid) :
    g ∈ effect.proc.clocks ↔ g ∈ p.clocks := by
  have same := congrArg Option.isSome (moved.seq_eq g)
  rw [isSome_map, isSome_map] at same
  rw [← AList.lookup_isSome, ← AList.lookup_isSome, same]

theorem Counts.requestMove (counts : Counts p) (moved : RequestMove n kv p work effect) : Counts effect.proc := by
  obtain ⟨calls, freed⟩ := moved.app_eq
  refine ⟨fun g c found => ?_, fun g gone unfreed => ?_⟩
  · have same := moved.seq_eq g
    rw [found, map_some, eq_comm, map_eq_some_iff] at same
    obtain ⟨c', held, seq⟩ := same
    rw [calls, ← seq, counts.held g c' held]
  · rw [calls]
    exact counts.absent g (fun held => gone ((moved.mem_clocks g).mpr held)) (freed ▸ unfreed)

theorem CkptMove.pending_eq (moved : CkptMove n kv p pc q kv')
    (outside : pc ≠ .share ∧ pc ≠ .shareDownload ∧ pc ≠ .roundTop ∧ pc ≠ .verdict)
    (was : p.ckptPending = pc.pending) (alive : q.ckpt ≠ .aborted) : q.ckptPending = q.ckpt.pending := by
  cases moved with
  | share | download | section_ | exhausted | returned | raised | again | noTarget => simp at outside
  | noConverge | noCs | noRaised => exact absurd rfl alive
  | giveUp | resume => rfl
  | _ => exact was

theorem CkptMove.flag_eq (moved : CkptMove n kv p p.ckpt q kv')
    (was : p.ckpt ≠ .aborted → p.ckptPending = (p.ckpt.pending || decide (Work.idle ≠ .idle))) :
    p.ckptPending = p.ckpt.pending := by
  have alive : p.ckpt ≠ .aborted := by
    intro pc
    rw [pc] at moved
    cases moved
  simpa using was alive

theorem RequestMove.pending (moved : RequestMove n kv p work effect) (fits : work.fits p.ckpt)
    (was : p.ckpt ≠ .aborted → p.ckptPending = (p.ckpt.pending || decide (work ≠ .idle)))
    (alive : effect.proc.ckpt ≠ .aborted) :
    effect.proc.ckptPending = (effect.proc.ckpt.pending || decide (effect.work ≠ .idle)) := by
  cases moved with
  | plain outside moved =>
    rw [moved.pending_eq outside (moved.flag_eq was) alive]
    simp
  | beginShare => simp
  | noEntry | noTarget => exact absurd rfl alive
  | beginDownload pc => rcases pc with pc | ⟨pc, -⟩ | pc <;> simp [was, pc, CkptPc.pending]
  | exhausted pc | returned pc | beginUpload pc | beginEntries pc | again pc | shareDownloaded pc | topDownloaded pc
  | allDownloaded pc => simp [was, pc, CkptPc.pending, Proc.nextRound]
  | upload | endUpload => simp [was, show p.ckpt = .share from fits, CkptPc.pending]
  | download | noDownload => rcases fits with pc | pc | pc <;> simp [was, pc, CkptPc.pending]
  | uploadRaised | skipRaised | endRaised | count | write | endWrite | check | readPhase =>
    simp [was, show p.ckpt = .roundTop from fits, CkptPc.pending]
  | findEntry | skipEntry | endEntries | readTarget =>
    simp [was, show p.ckpt = .verdict from fits, CkptPc.pending, Proc.nextRound]

theorem RequestMove.uploaded (moved : RequestMove n kv p work effect) (own : ClockInv members kv r p work)
    (held : g ∈ p.clocks) (shares : effect.proc.ckpt.shares effect.work g = true) :
    (uploadedMax effect.kvdb effect.proc.attempt g).isSome := by
  have fits := own.fits
  cases moved with
  | plain outside moved =>
    generalize p.ckpt = pc at moved outside
    cases moved with
    | share | download | section_ | exhausted | returned | raised | again | noTarget => simp at outside
    | _ => cases shares
  | beginShare pc =>
    have isKey : g ∈ p.clocks.keys := held
    simp [CkptPc.shares, pc, isKey] at shares
  | beginDownload pc =>
    refine own.uploaded g held ?_
    rcases pc with pc | ⟨pc, -⟩ | pc <;> simp_all [CkptPc.shares]
  | upload g' left c found =>
    rw [uploadedMax_uploadSeq]
    split_ifs with here
    · rfl
    · refine own.uploaded g held ?_
      simp_all [CkptPc.shares, show p.ckpt = .share from fits]
  | endUpload => exact own.uploaded g held (by simp [CkptPc.shares, show p.ckpt = .share from fits])
  | download | noDownload =>
    refine own.uploaded g held ?_
    rcases fits with pc | pc | pc <;> simp_all [CkptPc.shares]
  | beginUpload pc | beginEntries pc | topDownloaded pc => simp [CkptPc.shares, pc] at shares
  | uploadRaised | skipRaised | endRaised | count | write | endWrite | check =>
    simp [CkptPc.shares, show p.ckpt = .roundTop from fits] at shares
  | findEntry | skipEntry | readTarget => simp [CkptPc.shares, show p.ckpt = .verdict from fits] at shares
  | exhausted | returned | again | shareDownloaded | allDownloaded | readPhase | endEntries | noEntry | noTarget =>
    cases shares

theorem CkptMove.fresh_of_outside (moved : CkptMove n kv p pc q kv')
    (outside : pc ≠ .share ∧ pc ≠ .shareDownload ∧ pc ≠ .roundTop ∧ pc ≠ .verdict) (at_ : p.ckpt = pc)
    (was : p.ckptPending = pc.pending) (pending : q.ckptPending = true) :
    q.attempt = p.attempt ∧ p.ckptPending = true ∧ ∀ g, p.ckpt.stale .idle g = false := by
  cases moved with
  | share | download | section_ | exhausted | returned | raised | again | noTarget => simp at outside
  | start | sleep => cases was.symm.trans pending
  | giveUp | resume => cases pending
  | _ => exact ⟨rfl, was, fun g => by simp [CkptPc.stale, at_]⟩

theorem RequestMove.bounded (moved : RequestMove n kv p work effect) (own : ClockInv members kv r p work)
    (pending : effect.proc.ckptPending = true) (found : effect.proc.clocks.lookup g = some c)
    (fresh : effect.proc.ckpt.stale effect.work g = false) :
    c.target ≤ seqMax effect.kvdb effect.proc.attempt g ∨ c.target ≤ c.seq := by
  have fits := own.fits
  have grow := (moved.db fits).maximaGrow
  have old {c : CommClock} (wasPending : p.ckptPending = true) (held : p.clocks.lookup g = some c)
      (wasFresh : p.ckpt.stale work g = false) : c.target ≤ seqMax effect.kvdb p.attempt g ∨ c.target ≤ c.seq :=
    (own.bounded wasPending g c held wasFresh).imp_left fun le => le.trans (grow.seqMax_le _ _)
  cases moved with
  | plain outside moved =>
    obtain ⟨attempt, wasPending, wasFresh⟩ := moved.fresh_of_outside outside rfl (moved.flag_eq own.pending) pending
    rw [(moved.same_of_outside outside).1] at found
    rw [attempt]
    exact old wasPending found (wasFresh g)
  | download g' left maxSeq got =>
    rw [lookup_setTarget] at found
    obtain ⟨c, held, rfl⟩ := map_eq_some_iff.mp found
    by_cases same : g = g'
    · subst same
      rw [if_pos rfl]
      exact .inl (Nat.le_of_eq (congrArg (Option.getD · 0) got).symm)
    · rw [if_neg same]
      refine old pending held ?_
      rcases fits with pc | pc | pc <;> simp_all [CkptPc.stale]
  | noDownload g' left missing =>
    by_cases same : g = g'
    · subst same
      refine old pending found ?_
      rcases fits with pc | pc | pc
      · have uploaded := own.uploaded g (Assoc.mem_of_lookup found) (by simp [CkptPc.shares, pc])
        rw [uploadedMax, missing] at uploaded
        cases uploaded
      · simp [CkptPc.stale, pc]
      · simp [CkptPc.stale, pc]
    · refine old pending found ?_
      rcases fits with pc | pc | pc <;> simp_all [CkptPc.stale]
  | readTarget i g' downloaded c' maxSeq held got =>
    rcases Assoc.lookup_insert_cases found with ⟨rfl, rfl⟩ | ⟨-, found⟩
    · exact .inl (Nat.le_of_eq (congrArg (Option.getD · 0) got).symm)
    · exact old pending found (by simp [CkptPc.stale, show p.ckpt = .verdict from fits])
  | beginShare pc => simp [CkptPc.stale, pc] at fresh
  | beginDownload pc =>
    refine old pending found ?_
    have isKey : g ∈ p.clocks.keys := Assoc.mem_of_lookup found
    rcases pc with pc | ⟨pc, -⟩ | pc <;> simp_all [CkptPc.stale]
  | upload | endUpload => simp [CkptPc.stale, show p.ckpt = .share from fits] at fresh
  | exhausted pc | returned pc | beginUpload pc | beginEntries pc | again pc | shareDownloaded pc | topDownloaded pc
  | allDownloaded pc => exact old pending found (by simp [CkptPc.stale, pc])
  | uploadRaised | skipRaised | endRaised | count | write | endWrite | check | readPhase =>
    exact old pending found (by simp [CkptPc.stale, show p.ckpt = .roundTop from fits])
  | findEntry | skipEntry | endEntries | noEntry | noTarget =>
    exact old pending found (by simp [CkptPc.stale, show p.ckpt = .verdict from fits])

theorem RequestMove.known (moved : RequestMove n kv p work effect) (own : ClockInv members kv r p work)
    (pending : effect.proc.ckptPending = true) (found : effect.proc.clocks.lookup g = some c)
    (sent : ¬effect.proc.unsent effect.work g) :
    c.seq ≤ seqMax effect.kvdb effect.proc.attempt g ∨ (members g).card ≤ 1 := by
  have same := moved.seq_eq g
  rw [found, map_some, eq_comm, map_eq_some_iff] at same
  obtain ⟨old, held, seq⟩ := same
  rw [← seq]
  have was (wasPending : p.ckptPending = true) (wasSent : ¬p.unsent work g) :
      old.seq ≤ seqMax effect.kvdb p.attempt g ∨ (members g).card ≤ 1 :=
    (own.known wasPending g old held wasSent).imp_left fun le => le.trans ((moved.db own.fits).maximaGrow.seqMax_le _ _)
  cases moved with
  | @plain q kv' outside moved =>
    obtain ⟨attempt, wasPending, -⟩ := moved.fresh_of_outside outside rfl (moved.flag_eq own.pending) pending
    change g ∉ q.raisedClocks at sent
    rw [(moved.same_of_outside outside).2.2] at sent
    rw [attempt]
    exact was wasPending sent
  | beginShare => exact absurd (Assoc.mem_of_lookup held) sent
  | upload g' left c' found' | uploadRaised g' left gids c' found' =>
    by_cases here : g = g'
    · subst here
      obtain rfl := mem_unique held found'
      left
      change _ ≤ (uploadedMax _ p.attempt g).getD 0
      rw [uploadedMax_uploadSeq, if_pos ⟨rfl, rfl⟩]
      exact Nat.le_max_right ..
    · refine was pending ?_
      simpa [Proc.unsent, here] using sent
  | skipRaised g' left gids skip =>
    refine was pending ?_
    rintro ⟨coming, new⟩
    rcases List.mem_cons.mp coming with rfl | later
    · exact new (skip (Assoc.mem_of_lookup held))
    · exact sent ⟨later, new⟩
  | endUpload => exact was pending List.not_mem_nil
  | endRaised => exact was pending fun coming => List.not_mem_nil coming.1
  | beginUpload | topDownloaded => exact was pending fun raised => sent ⟨raised, List.not_mem_nil⟩
  | _ => exact was pending sent

theorem ClockInv.request (own : ClockInv members kv r p work) (moved : RequestMove n kv p work effect) :
    ClockInv members effect.kvdb r effect.proc effect.work where
  fits := moved.fits own.fits
  member := fun g held => own.member g ((moved.mem_clocks g).mp held)
  called := by
    rw [moved.app_eq.1]
    exact own.called
  counts := own.counts.requestMove moved
  pending := moved.pending own.fits own.pending
  uploaded := fun g held => moved.uploaded own ((moved.mem_clocks g).mp held)
  bounded := fun pending g c => moved.bounded own pending
  known := fun pending g c => moved.known own pending

theorem ClockInv.grow (own : ClockInv members kv r p work) (grow : MaximaGrow kv kv') :
    ClockInv members kv' r p work :=
  { own with
    uploaded := fun g held shares => by
      obtain ⟨v, isMax⟩ := isSome_iff_exists.mp (own.uploaded g held shares)
      obtain ⟨v', isMax', -⟩ := grow _ g v isMax
      exact isSome_iff_exists.mpr ⟨v', isMax'⟩
    bounded := fun pending g c found fresh =>
      (own.bounded pending g c found fresh).imp_left fun le => le.trans (grow.seqMax_le _ g)
    known := fun pending g c found sent =>
      (own.known pending g c found sent).imp_left fun le => le.trans (grow.seqMax_le _ g) }

theorem ClockInv.erase (own : ClockInv members kv r p work) (freed : g ∈ p.freed) :
    ClockInv members kv r { p with clocks := p.clocks.erase g } work :=
  { own with
    member := fun g' held => own.member g' (AList.mem_erase.mp held).2
    counts := own.counts.erase freed
    uploaded := fun g' held => own.uploaded g' (AList.mem_erase.mp held).2
    bounded := fun pending g' c found => own.bounded pending g' c (Assoc.lookup_of_erase found).2
    known := fun pending g' c found => own.known pending g' c (Assoc.lookup_of_erase found).2 }

theorem ClockInv.flag (own : ClockInv members kv r p work) (pending : p.ckpt.pending = true) : p.ckptPending = true := by
  rw [own.pending (by rintro pc; simp [pc, CkptPc.pending] at pending), pending, Bool.true_or]

/-- The targets that a rank compares with in `wait_while_targets_reached`. -/
theorem ClockInv.target_le (own : ClockInv members kv r p .idle) (pending : p.ckptPending = true)
    (unlocked : p.lockHeld = false) (found : p.clocks.lookup g = some c) :
    c.target ≤ seqMax kv p.attempt g ∨ c.target ≤ c.seq := by
  refine own.bounded pending g c found ?_
  have flag := own.pending
  cases pc : p.ckpt <;> simp_all [CkptPc.stale, Proc.lockHeld, CkptPc.pending]

theorem ClockInv.app {mayErase : Gid → Bool} (own : ClockInv members kv r p .idle)
    (moved : AppMove (fun g => (members g).card) (fun g => decide (r ∈ members g)) mayErase p q)
    (freed : ∀ g, mayErase g = true → r ∈ members g → g ∈ p.freed) : ClockInv members kv r q .idle := by
  have counts := own.counts.appMove moved fun g may held => freed g may (own.member g held)
  have notShared (unlocked : p.lockHeld = false) (g : Gid) : ¬p.ckpt.shares .idle g = true := by
    cases pc : p.ckpt <;> simp_all [CkptPc.shares, Proc.lockHeld]
  cases moved with
  | move => exact { own with counts := counts }
  | enter c pc unlocked goes entered =>
    cases c with
    | uncounted =>
      cases entered
      exact { own with counts := counts }
    | counted g free =>
      obtain ⟨clock, held, rfl⟩ := Proc.enter_counted entered
      have member := own.member g (Assoc.mem_of_lookup held)
      refine ⟨own.fits, fun g' held' => ?_, fun g' isCall => ?_, counts, own.pending,
        fun g' _ shares => absurd shares (notShared unlocked g'), fun pending g' c found fresh => ?_,
        fun pending g' c found sent => ?_⟩
      · rcases (AList.mem_insert _).mp held' with rfl | old
        · exact member
        · exact own.member g' old
      · rcases List.mem_append.mp isCall with old | new
        · exact own.called g' old
        · rw [List.mem_singleton.mp new]
          exact member
      · rcases Assoc.lookup_insert_cases found with ⟨rfl, rfl⟩ | ⟨-, found⟩
        · by_cases passes : clock.passes p.ckptPending = true
          · exact .inr (Nat.le_of_eq (if_pos passes))
          · rw [show (clock.count p.ckptPending).target = clock.target from if_neg passes]
            exact (own.bounded pending g' clock held fresh).imp_right fun le => le.trans (Nat.le_succ _)
        · exact own.bounded pending g' c found fresh
      · rcases Assoc.lookup_insert_cases found with ⟨rfl, rfl⟩ | ⟨-, found⟩
        · by_cases passes : clock.passes p.ckptPending = true
          · by_cases big : (members g').card > 1
            · exact absurd (by simp [Proc.unsent, passes, big]) sent
            · exact .inr (Nat.le_of_not_lt big)
          · -- A call that does not pass its target stays below a maximum that the rank downloaded.
            have below : clock.seq + 1 ≤ clock.target := by
              rw [show p.ckptPending = true from pending] at passes
              simpa [CommClock.passes] using passes
            exact .inl (below.trans ((own.target_le pending unlocked held).resolve_right (by omega)))
        · refine own.known pending g' c found fun raised => sent ?_
          change g' ∈ if _ then p.raisedClocks ++ [g] else p.raisedClocks
          split
          · exact List.mem_append_left _ raised
          · exact raised
  | add g inside unlocked may absent unfreed =>
    refine ⟨own.fits, fun g' held => ?_, own.called, counts, own.pending,
      fun g' _ shares => absurd shares (notShared unlocked g'), fun pending g' c found fresh => ?_,
      fun pending g' c found sent => ?_⟩
    · rcases (AList.mem_insert _).mp held with rfl | old
      · exact of_decide_eq_true may
      · exact own.member g' old
    · rcases Assoc.lookup_insert_cases found with ⟨-, rfl⟩ | ⟨-, found⟩
      · exact .inl (Nat.zero_le _)
      · exact own.bounded pending g' c found fresh
    · rcases Assoc.lookup_insert_cases found with ⟨-, rfl⟩ | ⟨-, found⟩
      · exact .inl (Nat.zero_le _)
      · exact own.known pending g' c found sent
  | erase g out unlocked may present => exact own.erase (freed g may (own.member g present))

theorem Work.idle_of_barrier {b : Barrier} (fits : work.fits b.pc) : work = .idle := by
  cases b <;> cases work <;> simp_all [Work.fits, Barrier.pc]

theorem ClockInv.released {b : Barrier} (own : ClockInv members kv r p work) (waits : p.waitingAt = some b) :
    ClockInv members kv r p.released work := by
  have pc := Proc.ckpt_of_waitingAt waits
  have idle : work = .idle := Work.idle_of_barrier (pc ▸ own.fits)
  subst idle
  refine ⟨trivial, own.member, own.called, ⟨own.counts.held, own.counts.absent⟩, fun _ => ?_, fun g held shares => own.uploaded g held ?_,
    fun pending g c found fresh => own.bounded pending g c found ?_, own.known⟩
  · change p.ckptPending = (p.ckpt.released.pending || _)
    rw [CkptPc.pending_released]
    exact own.pending (by rw [pc]; cases b <;> nofun)
  · change p.ckpt.released.shares .idle g = true at shares
    rw [pc] at shares ⊢
    cases b <;> simp_all [CkptPc.shares, CkptPc.released, Barrier.pc]
  · change p.ckpt.released.stale .idle g = false at fresh
    rw [pc] at fresh ⊢
    cases b <;> simp_all [CkptPc.stale, CkptPc.released, Barrier.pc]

theorem ClockInv.initial {clocks : Clocks}
    (zero : ∀ g c, clocks.lookup g = some c → c = ⟨0, 0⟩ ∧ r ∈ members g) :
    ClockInv members kv r (Proc.initial clocks) .idle where
  fits := trivial
  member := fun g held => by
    obtain ⟨c, found⟩ := isSome_iff_exists.mp (AList.lookup_isSome.mpr held)
    exact (zero g c found).2
  called := List.forall_mem_nil _
  counts := ⟨fun g c found => by simp [Proc.initial, (zero g c found).1], fun g _ _ => by simp [Proc.initial]⟩
  pending := fun _ => rfl
  uploaded := fun g _ shares => by cases shares
  bounded := fun pending => by cases pending
  known := fun pending => by cases pending

end ClockInv

section AllRanks

variable {n : Nat} {members : Gid → Finset (Fin n)} {s t : Requests n} {r : Fin n}

def Requests.ClocksSound (members : Gid → Finset (Fin n)) (s : Requests n) : Prop :=
  ∀ r, ClockInv members s.base.kvdb r (s.base.proc r) (s.work r)

theorem Requests.setProc_eq (s : Requests n) (r : Fin n) (q : Proc) :
    ({ s with base := s.base.setProc r q } : Requests n) = s.apply r ⟨q, s.work r, s.base.kvdb, none⟩ := by
  simp only [Requests.apply, State.setProc, update_eq_self, toList_none, List.append_nil]

theorem Requests.ClocksSound.setProc (own : s.ClocksSound members) {q : Proc}
    (new : ClockInv members s.base.kvdb r q (s.work r)) :
    ({ s with base := s.base.setProc r q } : Requests n).ClocksSound members := by
  rw [Requests.setProc_eq]
  exact Requests.forall_apply (ClockInv members s.base.kvdb) new fun q _ => own q

theorem Requests.ClocksSound.move (own : s.ClocksSound members) (moved : Requests.Move members s t) :
    t.ClocksSound members := by
  have freed {r : Fin n} {g : Gid} (all : s.base.allFreed members g = true) (member : r ∈ members g) :
      g ∈ (s.base.proc r).freed := of_decide_eq_true all r member
  cases moved with
  | @ckpt r effect moved =>
    exact Requests.forall_apply (ClockInv members effect.kvdb) ((own r).request moved)
      fun q _ => (own q).grow (moved.db (own r).fits).maximaGrow
  | appPc r phase app =>
    obtain ⟨fits, member, called, counts, pending, uploaded, bounded, known⟩ := own r
    exact own.setProc ⟨fits, member, called, ⟨counts.held, counts.absent⟩, pending, uploaded, bounded, known⟩
  | @app r q idle moved =>
    have before := own r
    rw [idle] at before
    refine own.setProc ?_
    rw [idle]
    exact before.app moved fun g all member => freed all member
  | completeFree r g pc all held => exact own.setProc ((own r).erase (freed all ((own r).member g held)))
  | release released =>
    obtain ⟨waits, rfl⟩ := released
    exact fun r => (own r).released (waits r)

theorem clocksSound_of_reachable (reached : Reachable (Requests.machine members) s) : s.ClocksSound members := by
  refine reached.invariant (fun s => s.ClocksSound members) ?_ ?_
  · rintro s ⟨⟨-, procs⟩, work, -⟩ r
    obtain ⟨clocks, proc, zero⟩ := procs r
    rw [proc, work]
    exact .initial zero
  · exact fun s a t _ own taken => own.move (Requests.step_move taken)

end AllRanks

end Mana.Collective
