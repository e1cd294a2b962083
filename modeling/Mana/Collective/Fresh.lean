import Mana.Collective.Clocks

/-! A target is fresh for a round if it is at least every sequence number that was uploaded for its clock before the
round. The downloads make the targets fresh for the next round: a full one all of them, the one over a round's list
those on the list, and of the others nothing was uploaded in the round. -/

namespace Mana.Collective
open Mana.Lib Option Function

section Fresh

def Occasion.before (k : Nat) : Occasion → Bool
  | .share => true
  | .round i => decide (i < k)

def Fresh (uploads : List Upload) (e : Attempt) (k : Nat) (g : Gid) (target : Nat) : Prop :=
  ∀ u ∈ uploads, u.attempt = e → u.gid = g → u.occasion.before k = true → u.seq ≤ target

variable {uploads : List Upload} {e : Attempt} {k : Nat} {g : Gid} {target : Nat}

theorem Fresh.mono {more : Nat} (fresh : Fresh uploads e k g target) (le : target ≤ more) :
    Fresh uploads e k g more :=
  fun u member sameAttempt sameGid before => (fresh u member sameAttempt sameGid before).trans le

theorem Fresh.append {u : Upload} (fresh : Fresh uploads e k g target)
    (late : u.attempt = e → u.occasion.before k = false) : Fresh (uploads ++ [u]) e k g target := by
  intro v member sameAttempt sameGid before
  rcases List.mem_append.mp member with old | isNew
  · exact fresh v old sameAttempt sameGid before
  · obtain rfl := List.mem_singleton.mp isNew
    rw [late sameAttempt] at before
    cases before

theorem Fresh.next (fresh : Fresh uploads e k g target)
    (quiet : ∀ u ∈ uploads, u.attempt = e → u.gid = g → u.occasion ≠ .round k) : Fresh uploads e (k + 1) g target := by
  intro u member sameAttempt sameGid before
  refine fresh u member sameAttempt sameGid ?_
  cases isRound : u.occasion with
  | share => rfl
  | round i =>
    rw [isRound] at before
    have early : i < k + 1 := of_decide_eq_true before
    have other : i ≠ k := by
      rintro rfl
      exact quiet u member sameAttempt sameGid isRound
    exact decide_eq_true (by omega)

def Below (kv : Kvdb) (uploads : List Upload) : Prop :=
  ∀ u ∈ uploads, ∃ v, uploadedMax kv u.attempt u.gid = some v ∧ u.seq ≤ v

def Attained (kv : Kvdb) (uploads : List Upload) : Prop :=
  ∀ e g v, uploadedMax kv e g = some v → ∃ u ∈ uploads, u.attempt = e ∧ u.gid = g ∧ u.seq = v

variable {kv : Kvdb}

theorem Below.fresh (below : Below kv uploads) (got : uploadedMax kv e g = some target) : Fresh uploads e k g target := by
  rintro u member rfl rfl -
  obtain ⟨v, isMax, le⟩ := below u member
  rw [isMax] at got
  exact some.inj got ▸ le

theorem Below.fresh_of_missing (below : Below kv uploads) (missing : uploadedMax kv e g = none) :
    Fresh uploads e k g target := by
  rintro u member rfl rfl -
  obtain ⟨v, isMax, -⟩ := below u member
  rw [isMax] at missing
  cases missing

theorem DbMove.below {p : Proc} {work : Work} {effect : Effect} (db : DbMove kv p work effect)
    (below : Below kv uploads) : Below effect.kvdb (uploads ++ effect.upload.toList) := by
  rcases db.uploadedMax_cases with ⟨noUpload, same⟩ | ⟨occasion, g, c, -, upload, raised⟩
  · rw [noUpload, toList_none, List.append_nil]
    intro u member
    rw [same]
    exact below u member
  · rw [upload]
    intro u member
    rw [raised]
    rcases List.mem_append.mp member with old | isNew
    · obtain ⟨v, isMax, le⟩ := below u old
      split_ifs with here
      · rw [← here.1, ← here.2, isMax]
        exact ⟨_, rfl, le.trans (Nat.le_max_left _ _)⟩
      · exact ⟨v, isMax, le⟩
    · obtain rfl := List.mem_singleton.mp isNew
      rw [if_pos ⟨rfl, rfl⟩]
      exact ⟨_, rfl, Nat.le_max_right _ _⟩

theorem DbMove.attained {p : Proc} {work : Work} {effect : Effect} (db : DbMove kv p work effect)
    (attained : Attained kv uploads) : Attained effect.kvdb (uploads ++ effect.upload.toList) := by
  intro e g v isMax
  rcases db.uploadedMax_cases with ⟨noUpload, same⟩ | ⟨occasion, g', c, -, upload, raised⟩
  · rw [noUpload, toList_none, List.append_nil]
    exact attained e g v ((same e g).symm.trans isMax)
  · have old {v : Nat} (isMax : uploadedMax kv e g = some v) :
        ∃ u ∈ uploads ++ effect.upload.toList, u.attempt = e ∧ u.gid = g ∧ u.seq = v := by
      obtain ⟨u, member, is⟩ := attained e g v isMax
      exact ⟨u, List.mem_append_left _ member, is⟩
    rw [raised] at isMax
    split_ifs at isMax with here
    · obtain ⟨rfl, rfl⟩ := here
      have new : ∃ u ∈ uploads ++ effect.upload.toList, u.attempt = p.attempt ∧ u.gid = g ∧ u.seq = c.seq :=
        ⟨_, List.mem_append_right _ (mem_toList.mpr upload), rfl, rfl, rfl⟩
      cases isMax
      cases before : uploadedMax kv p.attempt g with
      | none => simpa using new
      | some most =>
        rcases Nat.le_total most c.seq with le | le
        · rwa [getD_some, Nat.max_eq_right le]
        · rw [getD_some, Nat.max_eq_left le]
          exact old before
    · exact old isMax

end Fresh

section Rank

/-- The round for which the target of a clock is fresh. A clock that was added in the attempt is downloaded with all
others at the start of the next round. -/
def Proc.freshRound (p : Proc) (work : Work) (g : Gid) : Option Nat :=
  let k := p.locals.roundNum
  let unlessAdded (k : Nat) : Option Nat := if p.addedClock then none else some k
  match p.ckpt, work with
  | .shareDownload, .download left => if g ∈ left then none else some 0
  | .roundTop, .idle => unlessAdded k
  | .roundTop, .download left => if g ∈ left then none else some k
  | .roundTop, _ => some k
  | .verdict, .download left => if g ∈ left then none else unlessAdded (k + 1)
  | .verdict, .readEntry _ downloaded | .verdict, .readTarget _ _ downloaded =>
      unlessAdded (if g ∈ downloaded then k + 1 else k)
  | .putConverge, _ | .putCs, _ | .roundBarrier, _ | .getConverge, _ | .getCs, _ | .getRaised, _ | .verdict, _
  | .drained, _ | .drainBarrier, _ => unlessAdded k
  | _, _ => none

def FreshTargets (uploads : List Upload) (p : Proc) (work : Work) : Prop :=
  ∀ g c k, p.clocks.lookup g = some c → p.freshRound work g = some k → Fresh uploads p.attempt k g c.target

def Scanned (kv : Kvdb) (p : Proc) : Work → Prop
  | .readEntry i downloaded => ∀ j < i, ∀ g ∈ p.clocks,
      listEntry kv p.attempt p.locals.roundNum j = some g → g ∈ downloaded
  | .readTarget i g downloaded => listEntry kv p.attempt p.locals.roundNum i = some g ∧ ∀ j < i, ∀ g ∈ p.clocks,
      listEntry kv p.attempt p.locals.roundNum j = some g → g ∈ downloaded
  | _ => True

def Complete (kv : Kvdb) (uploads : List Upload) (p : Proc) : Prop :=
  ∀ u ∈ uploads, u.attempt = p.attempt → u.occasion = .round p.locals.roundNum →
    ∃ i < p.locals.raised, listEntry kv p.attempt p.locals.roundNum i = some u.gid

variable {n : Nat} {kv : Kvdb} {p : Proc} {work : Work} {effect : Effect} {uploads : List Upload}

theorem RequestMove.scanned (moved : RequestMove n kv p work effect) (scanned : Scanned kv p work) :
    Scanned effect.kvdb effect.proc effect.work := by
  cases moved with
  | beginEntries pc => exact fun j early => absurd early (Nat.not_lt_zero j)
  | findEntry i g downloaded entry => exact ⟨entry, scanned⟩
  | skipEntry i g downloaded entry skip =>
    intro j early g' held isEntry
    rcases Nat.lt_succ_iff_lt_or_eq.mp early with earlier | rfl
    · exact scanned j earlier g' held isEntry
    · have same : g = g' := mem_unique entry isEntry
      subst same
      exact skip held
  | readTarget i g downloaded c maxSeq found got =>
    intro j early g' held isEntry
    have held' : g' ∈ p.clocks := by
      rcases AList.mem_insert p.clocks |>.mp held with rfl | held
      · exact Assoc.mem_of_lookup found
      · exact held
    rcases Nat.lt_succ_iff_lt_or_eq.mp early with earlier | rfl
    · exact List.mem_cons_of_mem _ (scanned.2 j earlier g' held' isEntry)
    · have same : g = g' := mem_unique scanned.1 isEntry
      subst same
      exact List.mem_cons_self
  | _ => exact trivial

variable {q : Proc} {next : Work} {kv' : Kvdb} {pc : CkptPc} {k : Nat} {g : Gid}

theorem FreshTargets.of_le (fresh : FreshTargets uploads p work) (clocks : q.clocks = p.clocks)
    (attempt : q.attempt = p.attempt)
    (le : ∀ g ∈ p.clocks, ∀ k, q.freshRound next g = some k → p.freshRound work g = some k) :
    FreshTargets uploads q next := by
  intro g c k found isFresh
  rw [clocks] at found
  rw [attempt]
  exact fresh g c k found (le g (Assoc.mem_of_lookup found) k isFresh)

theorem FreshTargets.of_none (none : ∀ g, q.freshRound next g = none) : FreshTargets uploads q next := by
  intro g c k found isFresh
  rw [none] at isFresh
  cases isFresh

theorem CkptMove.freshRound_le (moved : CkptMove n kv p pc q kv') (at_ : p.ckpt = pc)
    (outside : pc ≠ .share ∧ pc ≠ .shareDownload ∧ pc ≠ .roundTop ∧ pc ≠ .verdict) (g : Gid) (k : Nat)
    (isFresh : q.freshRound .idle g = some k) :
    q.clocks = p.clocks ∧ q.attempt = p.attempt ∧ p.freshRound .idle g = some k := by
  cases moved with
  | share | download | section_ | exhausted | returned | raised | again | noTarget => simp at outside
  | start | giveUp | sleep | resume | noConverge | noCs | noRaised =>
    simp [Proc.freshRound] at isFresh
  | putConverge | putCs | getConverge | getCs | getRaised | drained =>
    refine ⟨rfl, rfl, ?_⟩
    simpa [Proc.freshRound, at_] using isFresh

theorem Proc.freshRound_nextRound {w : Nat} (isFresh : (p.nextRound w).freshRound .idle g = some k) :
    p.addedClock = false ∧ k = p.locals.roundNum + 1 := by
  change (if p.addedClock = true then none else some (p.locals.roundNum + 1)) = some k at isFresh
  split_ifs at isFresh with added
  exact ⟨by simpa using added, (some.inj isFresh).symm⟩

theorem Proc.freshRound_download {g' : Gid} {left : List Gid} (fits : (Work.download (g :: left)).fits p.ckpt)
    (other : g' ≠ g) : p.freshRound (.download left) g' = p.freshRound (.download (g :: left)) g' := by
  rcases fits with pc | pc | pc <;> simp [Proc.freshRound, pc, other]

theorem RequestMove.freshTargets (moved : RequestMove n kv p work effect) (fits : work.fits p.ckpt)
    (below : Below kv uploads) (complete : p.ckpt = .verdict → Complete kv uploads p) (scanned : Scanned kv p work)
    (fresh : FreshTargets uploads p work) : FreshTargets uploads effect.proc effect.work := by
  cases moved with
  | plain outside moved =>
    intro g c k found isFresh
    obtain ⟨clocks, attempt, wasFresh⟩ := moved.freshRound_le rfl outside g k isFresh
    rw [clocks] at found
    rw [attempt]
    exact fresh g c k found wasFresh
  | beginShare pc => exact .of_none fun g => by simp [Proc.freshRound, pc]
  | exhausted | endUpload | noEntry | noTarget => exact .of_none fun g => rfl
  | beginDownload pc =>
    refine fresh.of_le rfl rfl fun g held k isFresh => ?_
    have isKey : g ∈ p.clocks.keys := held
    rcases pc with pc | ⟨pc, -⟩ | pc <;> simp [Proc.freshRound, pc, isKey] at isFresh
  | beginUpload pc noneAdded =>
    refine fresh.of_le rfl rfl fun g held k isFresh => ?_
    simpa [Proc.freshRound, pc, noneAdded] using isFresh
  | beginEntries pc | returned pc | topDownloaded pc =>
    refine fresh.of_le rfl rfl fun g held k isFresh => ?_
    simpa [Proc.freshRound, pc] using isFresh
  | again pc quiet =>
    intro g c k found isFresh
    obtain ⟨notAdded, rfl⟩ := Proc.freshRound_nextRound isFresh
    have wasFresh : p.freshRound .idle g = some p.locals.roundNum := by simp [Proc.freshRound, pc, notAdded]
    refine (fresh g c _ found wasFresh).next fun u member sameAttempt sameGid isRound => ?_
    obtain ⟨i, early, -⟩ := complete pc u member sameAttempt isRound
    omega
  | upload g left c found => exact .of_none fun g => by simp [Proc.freshRound, show p.ckpt = .share from fits]
  | download g left maxSeq got =>
    intro g' c' k found isFresh
    rw [lookup_setTarget] at found
    obtain ⟨c, held, rfl⟩ := map_eq_some_iff.mp found
    split_ifs with same
    · subst same
      exact below.fresh got
    · exact fresh g' c k held ((Proc.freshRound_download fits same).symm.trans isFresh)
  | noDownload g left missing =>
    intro g' c k found isFresh
    by_cases same : g' = g
    · subst same
      exact below.fresh_of_missing missing
    · exact fresh g' c k found ((Proc.freshRound_download fits same).symm.trans isFresh)
  | shareDownloaded pc =>
    refine fresh.of_le rfl rfl fun g held k isFresh => ?_
    simp [Proc.freshRound, pc] at isFresh ⊢
    exact isFresh.2
  | allDownloaded pc =>
    refine fresh.of_le rfl rfl fun g held k isFresh => ?_
    simpa [Proc.freshRound, pc, Proc.nextRound] using isFresh
  | uploadRaised | skipRaised | endRaised | count | write | endWrite | check =>
    refine fresh.of_le rfl rfl fun g held k isFresh => ?_
    simpa [Proc.freshRound, show p.ckpt = .roundTop from fits] using isFresh
  | readPhase =>
    refine fresh.of_le rfl rfl fun g held k isFresh => ?_
    simp [Proc.freshRound, show p.ckpt = .roundTop from fits] at isFresh ⊢
    exact isFresh.2
  | findEntry | skipEntry =>
    refine fresh.of_le rfl rfl fun g held k isFresh => ?_
    simpa [Proc.freshRound, show p.ckpt = .verdict from fits] using isFresh
  | endEntries i downloaded all =>
    have pc : p.ckpt = .verdict := fits
    intro g c k found isFresh
    obtain ⟨added, rfl⟩ := Proc.freshRound_nextRound isFresh
    have notAdded : p.addedClock = false := added
    by_cases isDownloaded : g ∈ downloaded
    · exact fresh g c _ found (by simp [Proc.freshRound, pc, notAdded, isDownloaded])
    · -- A clock that is not on the list was uploaded by no rank in this round.
      have wasFresh : p.freshRound (.readEntry i downloaded) g = some p.locals.roundNum := by
        simp [Proc.freshRound, pc, notAdded, isDownloaded]
      refine (fresh g c _ found wasFresh).next fun u member sameAttempt sameGid isRound => ?_
      obtain ⟨j, early, isEntry⟩ := complete pc u member sameAttempt isRound
      rw [sameGid] at isEntry
      exact isDownloaded (scanned j (early.trans_le all) g (Assoc.mem_of_lookup found) isEntry)
  | readTarget i g downloaded c maxSeq found got =>
    intro g' c' k found' isFresh
    rcases Assoc.lookup_insert_cases found' with ⟨rfl, rfl⟩ | ⟨other, old⟩
    · exact below.fresh got
    · refine fresh g' c' k old ?_
      simpa [Proc.freshRound, show p.ckpt = .verdict from fits, other] using isFresh

theorem Proc.pending_of_freshRound (isFresh : p.freshRound .idle g = some k) : p.ckpt.pending = true := by
  cases pc : p.ckpt <;> simp_all [Proc.freshRound, CkptPc.pending]

theorem CommClock.target_le_count (c : CommClock) (ckptPending : Bool) : c.target ≤ (c.count ckptPending).target := by
  change c.target ≤ if c.passes ckptPending = true then c.seq + 1 else c.target
  split_ifs with passes
  · simp only [CommClock.passes, Bool.and_eq_true, decide_eq_true_eq] at passes
    exact Nat.le_of_lt passes.2
  · exact Nat.le_refl _

theorem Proc.freshRound_of_added (g : Gid) (added : p.addedClock = true) : p.freshRound .idle g = none := by
  unfold Proc.freshRound
  rw [added]
  cases p.ckpt <;> rfl

theorem AppMove.freshTargets {size : Gid → Nat} {mayAdd mayErase : Gid → Bool}
    (moved : AppMove size mayAdd mayErase p q) (flag : p.ckpt.pending = true → p.ckptPending = true)
    (fresh : FreshTargets uploads p .idle) : FreshTargets uploads q .idle := by
  cases moved with
  | move phase app out ready => exact fresh.of_le rfl rfl fun g held k isFresh => isFresh
  | enter c pc unlocked goes entered =>
    cases c with
    | uncounted =>
      cases entered
      exact fresh.of_le rfl rfl fun g held k isFresh => isFresh
    | counted g free =>
      obtain ⟨clock, found, rfl⟩ := Proc.enter_counted entered
      intro g' c' k found' isFresh
      rcases Assoc.lookup_insert_cases found' with ⟨rfl, rfl⟩ | ⟨-, old⟩
      · exact (fresh g' clock k found isFresh).mono (clock.target_le_count p.ckptPending)
      · exact fresh g' c' k old isFresh
  | add g inside unlocked may absent unfreed =>
    intro g' c' k found' isFresh
    have pending := Proc.pending_of_freshRound isFresh
    have added : (p.addCommClock g).addedClock = true := by
      change (p.addedClock || p.ckptPending) = true
      rw [flag pending, Bool.or_true]
    rw [Proc.freshRound_of_added g' added] at isFresh
    cases isFresh
  | erase g out unlocked may present =>
    exact fun g' c' k found' isFresh => fresh g' c' k (Assoc.lookup_of_erase found').2 isFresh

end Rank

section AllRanks

variable {n : Nat} {kv : Kvdb} {p q : Proc} {work : Work} {effect : Effect} {era : Era}

/-- While a rank reads what a round has collected, the others collect for the next one. -/
theorem Era.At.roundNum_eq (reads : era.At p) (atVerdict : p.ckpt = .verdict) (collects : era.At q)
    (atTop : q.ckpt = .roundTop) : q.locals.roundNum = p.locals.roundNum + 1 := by
  unfold Era.At Era.AtPart at *
  rw [atVerdict] at reads
  rw [atTop] at collects
  cases era with
  | between | shared => exact reads.elim
  | round e k => rw [collects.2, reads.2]

variable {g : Gid} {k : Nat} {b : Barrier} {members : Gid → Finset (Fin n)}

theorem Proc.freshRound_cases (isFresh : p.freshRound work g = some k) :
    p.ckpt.part = .downloading ∧ k = 0 ∨ p.ckpt.part = .collecting ∧ k = p.locals.roundNum ∨
      (p.ckpt.part = .reading ∨ p.ckpt.part = .returned) ∧ k ≤ p.locals.roundNum + 1 := by
  unfold Proc.freshRound at isFresh
  cases pc : p.ckpt
  all_goals
    rw [pc] at isFresh
    cases work
  all_goals
    simp only [ite_none_left_eq_some, some.injEq, reduceCtorEq] at isFresh
  all_goals
    simp only [CkptPc.part, reduceCtorEq, false_and, true_and, false_or, or_false, or_true]
    first
      | omega
      | split_ifs at isFresh <;> omega

theorem Attempt.next_ne (e : Attempt) : e.next ≠ e := by
  intro same
  have := congrArg Attempt.attemptId same
  simp [Attempt.next] at this

theorem Era.At.attempt_ne (here : era.At p) (inRounds : p.ckpt.part = .downloading ∨ p.ckpt.part = .collecting ∨
    p.ckpt.part = .reading ∨ p.ckpt.part = .returned) (shares : era.At q) (atShare : q.ckpt = .share) : q.attempt ≠ p.attempt := by
  unfold Era.At at here shares
  rw [atShare] at shares
  cases era with
  | between => rcases inRounds with part | part | part | part <;> rw [part] at here <;> exact here.elim
  | shared e | round e k =>
    have own : p.attempt = e := by
      rcases inRounds with part | part | part | part <;> rw [part] at here <;> first | exact here.elim | exact here.1 | exact here
    rw [show q.attempt = e.next from shares, own]
    exact e.next_ne

/-- What a rank uploads now is for a round that no rank has yet downloaded. -/
theorem Era.At.late {occasion : Occasion} (here : era.At p) (isFresh : p.freshRound work g = some k)
    (uploads : era.At q)
    (place : occasion = .share ∧ q.ckpt = .share ∨
      occasion = .round q.locals.roundNum ∧ q.ckpt = .roundTop)
    (sameAttempt : q.attempt = p.attempt) : occasion.before k = false := by
  have parts := Proc.freshRound_cases isFresh
  rcases place with ⟨rfl, pc⟩ | ⟨rfl, pc⟩
  · exact absurd sameAttempt (here.attempt_ne (parts.imp And.left (Or.imp And.left And.left)) uploads pc)
  · refine decide_eq_false ?_
    unfold Era.At Era.AtPart at *
    rw [pc] at uploads
    rcases parts with ⟨part, rfl⟩ | ⟨part, rfl⟩ | ⟨part | part, le⟩
    all_goals
      rw [part] at here
      cases era <;> simp_all [CkptPc.part]

variable {s t : Requests n} {r : Fin n}

structure Sound (era : Era) (s : Requests n) : Prop where
  placed : ∀ r, era.At (s.base.proc r)
  below : Below s.base.kvdb s.uploads
  attained : Attained s.base.kvdb s.uploads
  lists : Lists s
  raised : ∀ r, (s.base.proc r).ckpt = .verdict → (s.base.proc r).locals.raised =
    listLength s.base.kvdb (s.base.proc r).attempt (s.base.proc r).locals.roundNum
  scanned : ∀ r, Scanned s.base.kvdb (s.base.proc r) (s.work r)
  fresh : ∀ r, FreshTargets s.uploads (s.base.proc r) (s.work r)

theorem Work.fits_of_unlisted {pc : CkptPc} (fits : work.fits pc) (waits : g ∈ work.unlisted) : pc = .roundTop := by
  cases work with
  | uploadRaised | count | write => exact fits
  | _ => cases waits

theorem Sound.complete (sound : Sound era s) (own : s.ClocksSound members) (pc : (s.base.proc r).ckpt = .verdict) :
    Complete s.base.kvdb s.uploads (s.base.proc r) := by
  intro u member sameAttempt isRound
  rw [sound.raised r pc, ← sameAttempt]
  refine (sound.lists.listed u member _ isRound).resolve_right ?_
  rintro ⟨q, -, sameRound, waits⟩
  have later := (sound.placed r).roundNum_eq pc (sound.placed q) (Work.fits_of_unlisted (own q).fits waits)
  omega

theorem RequestMove.raised (moved : RequestMove n kv p work effect) (fits : work.fits p.ckpt)
    (raised : p.ckpt = .verdict → p.locals.raised = listLength kv p.attempt p.locals.roundNum)
    (pc : effect.proc.ckpt = .verdict) :
    effect.proc.locals.raised = listLength effect.kvdb effect.proc.attempt effect.proc.locals.roundNum := by
  cases moved with
  | plain outside moved =>
    generalize at_ : p.ckpt = before at moved
    cases moved with
    | getRaised value got =>
      change value = (kv ⟨.targetsRaised, p.attempt⟩ (.round p.locals.roundNum)).getD 0
      rw [got]
      rfl
    | _ => cases pc
  | beginShare | beginDownload | beginUpload | beginEntries | download | noDownload | topDownloaded | skipRaised
  | endRaised | endWrite | check | findEntry | skipEntry | readTarget => exact raised pc
  | upload | uploadRaised | count | write => exact nomatch pc.symm.trans fits
  | _ => cases pc

theorem DbMove.list_eq (db : DbMove kv p work effect) (fits : work.fits p.ckpt) (here : era.At p) (reads : era.At q)
    (atVerdict : q.ckpt = .verdict) :
    listLength effect.kvdb q.attempt q.locals.roundNum = listLength kv q.attempt q.locals.roundNum ∧
      ∀ i, listEntry effect.kvdb q.attempt q.locals.roundNum i = listEntry kv q.attempt q.locals.roundNum i := by
  cases db with
  | same _ length entry => exact ⟨length _ _, entry _ _⟩
  | upload occasion g c found proc kvdb =>
    rw [kvdb]
    refine ⟨?_, fun i => uploadSeq_other _ _ _ _ _ _ (by simp)⟩
    rw [listLength, uploadSeq_other _ _ _ _ _ _ (by simp), listLength]
  | count gids was is =>
    subst was is
    have later := reads.roundNum_eq atVerdict here fits
    refine ⟨?_, fun i => listEntry_incrBy ..⟩
    rw [listLength_incrBy, if_neg (by omega)]
  | write i g left was is =>
    subst was is
    have later := reads.roundNum_eq atVerdict here fits
    refine ⟨listLength_set .., fun j => ?_⟩
    rw [listEntry_set, if_neg (by omega)]

theorem Scanned.congr {kv' : Kvdb} (scanned : Scanned kv p work)
    (entry : work ≠ .idle → p.ckpt = .verdict → ∀ i, listEntry kv' p.attempt p.locals.roundNum i =
      listEntry kv p.attempt p.locals.roundNum i) (fits : work.fits p.ckpt) : Scanned kv' p work := by
  cases work with
  | readEntry i downloaded =>
    have same := entry nofun fits
    intro j early g held isEntry
    exact scanned j early g held (same j ▸ isEntry)
  | readTarget i g downloaded =>
    have same := entry nofun fits
    refine ⟨(same i).trans scanned.1, fun j early g' held isEntry => ?_⟩
    exact scanned.2 j early g' held (same j ▸ isEntry)
  | _ => exact trivial

theorem FreshTargets.append (fresh : FreshTargets s.uploads p work) (here : era.At p) {moving : Work}
    (db : DbMove kv q moving effect) (uploads : era.At q) :
    FreshTargets (s.uploads ++ effect.upload.toList) p work := by
  intro g c k found isFresh
  have wasFresh := fresh g c k found isFresh
  cases upload : effect.upload with
  | none => rwa [toList_none, List.append_nil]
  | some u =>
    refine wasFresh.append fun sameAttempt => ?_
    cases db with
    | same _ _ _ noUpload => exact nomatch noUpload.symm.trans upload
    | upload occasion g c found proc kvdb isUpload ownsNothing keeps place =>
      obtain rfl := mem_unique isUpload upload
      exact here.late isFresh uploads (place.imp id fun ⟨isRound, pc, _⟩ => ⟨isRound, pc⟩) sameAttempt
    | count gids was is | write i g left was is => exact nomatch (congrArg Effect.upload is).symm.trans upload

theorem Sound.ckpt (sound : Sound era s) (own : s.ClocksSound members)
    (moved : RequestMove n s.base.kvdb (s.base.proc r) (s.work r) effect) :
    Sound era (s.apply r effect) := by
  have fits := (own r).fits
  have db := moved.db fits
  have here := moved.stays fits (sound.placed r)
  have listEq (q : Fin n) := fun pc => db.list_eq fits (sound.placed r) (sound.placed q) pc
  constructor
  · exact Requests.forall_apply (fun _ p _ => era.At p) here fun q _ => sound.placed q
  · exact db.below sound.below
  · exact db.attained sound.attained
  · exact sound.lists.apply db
  · refine Requests.forall_apply (fun _ p _ => p.ckpt = .verdict → p.locals.raised =
      listLength effect.kvdb p.attempt p.locals.roundNum) (moved.raised fits (sound.raised r)) fun q _ pc => ?_
    exact (sound.raised q pc).trans (listEq q pc).1.symm
  · refine Requests.forall_apply (fun _ => Scanned effect.kvdb) (moved.scanned (sound.scanned r)) fun q _ => ?_
    exact (sound.scanned q).congr (fun _ pc => (listEq q pc).2) (own q).fits
  · refine Requests.forall_apply (fun _ => FreshTargets (s.uploads ++ effect.upload.toList)) ?_ fun q _ => ?_
    · refine FreshTargets.append ?_ here db (sound.placed r)
      exact moved.freshTargets fits sound.below (sound.complete own) (sound.scanned r) (sound.fresh r)
    · exact (sound.fresh q).append (sound.placed q) db (sound.placed r)

theorem State.setProc_read {β : Type} (read : Proc → β) {s : State n} (same : read q = read (s.proc r)) (q' : Fin n) :
    read ((s.setProc r q).proc q') = read (s.proc q') := by
  by_cases own : q' = r
  · subst own
    rw [← same]
    exact congrArg read (update_self ..)
  · exact congrArg read (update_of_ne own ..)

theorem Sound.setProc (sound : Sound era s) (ckpt : q.ckpt = (s.base.proc r).ckpt)
    (locals : q.locals = (s.base.proc r).locals) (generation : q.generation = (s.base.proc r).generation)
    (scanned : Scanned s.base.kvdb q (s.work r))
    (fresh : FreshTargets s.uploads q (s.work r)) : Sound era { s with base := s.base.setProc r q } := by
  have attempt : q.attempt = (s.base.proc r).attempt := by rw [Proc.attempt, locals, generation]; rfl
  have lists : Lists { s with base := s.base.setProc r q } := by
    refine sound.lists.congr rfl rfl rfl (State.setProc_read Proc.attempt attempt) ?_
    exact State.setProc_read (fun p => p.locals.roundNum) (by rw [locals])
  rw [Requests.setProc_eq] at lists ⊢
  constructor
  · exact Requests.forall_apply (fun _ p _ => era.At p) ((sound.placed r).congr ckpt locals generation)
      fun q _ => sound.placed q
  · rw [← Requests.setProc_eq]
    exact sound.below
  · rw [← Requests.setProc_eq]
    exact sound.attained
  · exact lists
  · refine Requests.forall_apply (fun _ p _ => p.ckpt = .verdict → p.locals.raised =
      listLength s.base.kvdb p.attempt p.locals.roundNum) ?_ fun q _ => sound.raised q
    rw [ckpt, locals, attempt]
    exact sound.raised r
  · exact Requests.forall_apply (fun _ => Scanned s.base.kvdb) scanned fun q _ => sound.scanned q
  · rw [show (s.apply r ⟨q, s.work r, s.base.kvdb, none⟩).uploads = s.uploads from List.append_nil _]
    exact Requests.forall_apply (fun _ => FreshTargets s.uploads) fresh fun q _ => sound.fresh q

theorem Sound.app {size : Gid → Nat} {mayAdd mayErase : Gid → Bool} (sound : Sound era s)
    (own : s.ClocksSound members) (idle : s.work r = .idle)
    (moved : AppMove size mayAdd mayErase (s.base.proc r) q) : Sound era { s with base := s.base.setProc r q } := by
  have same := moved.sameCkpt
  have fresh := sound.fresh r
  rw [idle] at fresh
  refine sound.setProc same.ckpt same.locals same.generation ?_ ?_
  · rw [idle]
    exact trivial
  · rw [idle]
    exact moved.freshTargets (own r).flag fresh

theorem Proc.freshRound_released (pc : p.ckpt = b.pc) (isFresh : p.released.freshRound .idle g = some k) :
    p.freshRound .idle g = some k := by
  cases b <;> simp_all [Proc.freshRound, Proc.released, CkptPc.released, Barrier.pc]

theorem Sound.release {b : Barrier} {base : State n} (sound : Sound era s) (own : s.ClocksSound members)
    (released : Release s.base b base) :
    Sound (era.after b) { s with base } := by
  obtain ⟨waits, rfl⟩ := released
  have pcs (r : Fin n) : (s.base.proc r).ckpt = b.pc := Proc.ckpt_of_waitingAt (waits r)
  have idle (r : Fin n) : s.work r = .idle := Work.idle_of_barrier (pcs r ▸ (own r).fits)
  have pc (r : Fin n) : (s.base.proc r).released.ckpt = b.pc.released := congrArg CkptPc.released (pcs r)
  constructor
  · exact fun r => (sound.placed r).released (waits r)
  · exact sound.below
  · exact sound.attained
  · exact sound.lists.congr rfl rfl rfl (fun _ => rfl) fun _ => rfl
  · intro r atVerdict
    have atReleased := (pc r).symm.trans atVerdict
    cases b <;> cases atReleased
  · intro r
    change Scanned _ _ (s.work r)
    rw [idle]
    exact trivial
  · intro r
    have fresh := sound.fresh r
    change FreshTargets s.uploads (s.base.proc r).released (s.work r)
    rw [idle] at fresh ⊢
    exact fresh.of_le rfl rfl fun g _ k isFresh => Proc.freshRound_released (pcs r) isFresh

theorem Sound.initial (first : (Requests.machine members).initial s) : Sound (.between 0) s := by
  obtain ⟨⟨kvdb, procs⟩, work, uploads⟩ := first
  have idle (r : Fin n) : s.work r = .idle := congrFun work r
  have running (r : Fin n) : (s.base.proc r).ckpt = .running ∧ (s.base.proc r).generation = 0 := by
    obtain ⟨clocks, isInitial, -⟩ := procs r
    rw [isInitial]
    exact ⟨rfl, rfl⟩
  constructor
  · intro r
    unfold Era.At
    rw [(running r).1]
    exact (running r).2
  · rw [uploads]
    exact List.forall_mem_nil _
  · intro e g v isMax
    rw [kvdb] at isMax
    cases isMax
  · refine ⟨?_, fun e k i _ => ?_, fun r i owns => ?_, fun q r i _ _ _ owns => ?_⟩
    · rw [uploads]
      exact List.forall_mem_nil _
    · rw [kvdb]
      rfl
    · rw [idle] at owns
      exact owns.elim
    · rw [idle] at owns
      exact owns.elim
  · intro r atVerdict
    rw [(running r).1] at atVerdict
    cases atVerdict
  · intro r
    rw [idle]
    exact trivial
  · rw [uploads]
    exact fun r g c k _ _ => List.forall_mem_nil _

theorem Sound.step {a : Action n} (sound : Sound era s) (own : s.ClocksSound members)
    (taken : (Requests.machine members).step s a = some t) :
    ∃ era, Sound era t := by
  cases Requests.step_move taken with
  | ckpt r moved => exact ⟨era, sound.ckpt own moved⟩
  | appPc r phase app =>
    refine ⟨era, sound.setProc rfl rfl rfl ?_ ((sound.fresh r).of_le rfl rfl fun g _ k isFresh => isFresh)⟩
    exact sound.scanned r
  | app r idle moved => exact ⟨era, sound.app own idle moved⟩
  | completeFree r g pc =>
    have idle : s.work r = .idle := by
      have fits := (own r).fits
      rw [pc] at fits
      generalize s.work r = work at fits
      cases work <;> simp_all [Work.fits]
    refine ⟨era, sound.setProc rfl rfl rfl ?_ (.of_none fun g => ?_)⟩
    · rw [idle]
      exact trivial
    · simp [Proc.freshRound, pc]
  | release released => exact ⟨_, sound.release own released⟩

theorem sound_of_reachable (reached : Reachable (Requests.machine members) s) : ∃ era, Sound era s := by
  refine reached.invariant (fun s => ∃ era, Sound era s) (fun s first => ⟨_, Sound.initial first⟩) ?_
  rintro s a t before ⟨era, sound⟩ taken
  exact sound.step (clocksSound_of_reachable before) taken

/-- If nothing was uploaded from the round on for which a target is fresh, the target is at least the maximum. -/
theorem Sound.seqMax_le_target (sound : Sound era s) (idle : ∀ r, s.work r = .idle) {c : CommClock}
    (found : (s.base.proc r).clocks.lookup g = some c) (isFresh : (s.base.proc r).freshRound .idle g = some k)
    (quiet : ∀ j, k ≤ j → listLength s.base.kvdb (s.base.proc r).attempt j = 0) :
    seqMax s.base.kvdb (s.base.proc r).attempt g ≤ c.target := by
  change (uploadedMax s.base.kvdb (s.base.proc r).attempt g).getD 0 ≤ c.target
  cases isMax : uploadedMax s.base.kvdb (s.base.proc r).attempt g with
  | none => exact Nat.zero_le _
  | some v =>
    obtain ⟨u, member, sameAttempt, sameGid, rfl⟩ := sound.attained _ g v isMax
    refine sound.fresh r g c k found ((idle r).symm ▸ isFresh) u member sameAttempt sameGid ?_
    cases isRound : u.occasion with
    | share => rfl
    | round j =>
      by_contra late
      rcases sound.lists.listed u member j isRound with ⟨i, inside, -⟩ | ⟨q, -, -, waits⟩
      · rw [sameAttempt, quiet j (by simpa [Occasion.before] using late)] at inside
        exact absurd inside (Nat.not_lt_zero i)
      · rw [idle] at waits
        cases waits

end AllRanks

end Mana.Collective
