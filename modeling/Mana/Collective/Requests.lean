import Mana.Collective.Steps

/-! The drain, request by request. In `Drain` a section under `seq_num_lock` is one step. Here each request to the
database is a step of its own, so that the requests of other ranks come between those of one section. The lock is
held from the first to the last of them. The machine also keeps every upload of a sequence number. -/

namespace Mana.Collective
open Mana.Lib Option

inductive Occasion where
  | share
  | round (roundNum : Nat)
  deriving DecidableEq, Repr

structure Upload where
  attempt : Attempt
  occasion : Occasion
  gid : Gid
  seq : Nat
  deriving DecidableEq, Repr

/-- The section in which a checkpoint thread is, with what is left of its loop; it holds `seq_num_lock`.
`upload`: `upload_seq_num`. `download`: `download_targets`. `uploadRaised` to `write`: `upload_raised_targets`, with
the gids that it has pushed on its list. `check` and `readPhase`: the end of a round's section. `readEntry` and
`readTarget`: the loop of `download_raised_targets`. -/
inductive Work where
  | idle
  | upload (left : List Gid)
  | download (left : List Gid)
  | uploadRaised (left gids : List Gid)
  | count (gids : List Gid)
  | write (i : Nat) (left : List Gid)
  | check
  | readPhase
  | readEntry (i : Nat) (downloaded : List Gid)
  | readTarget (i : Nat) (g : Gid) (downloaded : List Gid)
  deriving DecidableEq, Repr

def setTarget (clocks : Clocks) (g : Gid) (target : Nat) : Clocks :=
  clocks.mapVal fun g' c => if g' = g then { c with target } else c

theorem lookup_setTarget (clocks : Clocks) (g g' : Gid) (target : Nat) :
    (setTarget clocks g target).lookup g' =
      (clocks.lookup g').map fun c => if g' = g then { c with target } else c :=
  Assoc.lookup_mapVal _ _ _

structure Effect where
  proc : Proc
  work : Work
  kvdb : Kvdb
  upload : Option Upload

def Proc.startSection (worldSize : Nat) (kv : Kvdb) (p : Proc) : Option Effect :=
  match p.ckpt with
  | .share =>
      some ⟨{ p with
          ckptPending := true
          raisedClocks := []
          addedClock := false
          shared := fun e => if e = p.attempt then some p.calls else p.shared e },
        .upload p.clocks.keys, kv, none⟩
  | .shareDownload => some ⟨p, .download p.clocks.keys, kv, none⟩
  | .roundTop =>
      if p.locals.roundsWithoutRaise < MAX_DRAIN_ROUNDS then
        some ⟨p, if p.addedClock then .download p.clocks.keys else .uploadRaised p.raisedClocks [], kv, none⟩
      else some ⟨{ p with ckpt := .giveUp, log := p.log ++ [.gaveUp p.attempt p.locals.roundNum] }, .idle, kv, none⟩
  | .verdict =>
      let l := p.locals
      if l.inCs = 0 ∧ l.numConverged = worldSize ∧ l.raised = 0 then
        some ⟨{ p with ckpt := .drained, log := p.log ++ [.returned p.attempt l.roundNum] }, .idle, kv, none⟩
      else if l.raised > 0 then
        some ⟨p, if l.raised ≥ p.clocks.entries.length then .download p.clocks.keys else .readEntry 0 [], kv, none⟩
      else some ⟨p.nextRound (l.roundsWithoutRaise + 1), .idle, kv, none⟩
  | _ => (p.ckptStep worldSize kv).map fun next => ⟨next.1, .idle, next.2, none⟩

def Proc.endDownload (kv : Kvdb) (p : Proc) : Option Effect :=
  let p := { p with targetsVersion := p.targetsVersion + 1 }
  match p.ckpt with
  | .shareDownload =>
      some ⟨{ p with ckpt := .roundTop, locals := { p.locals with roundNum := 0, roundsWithoutRaise := 0 } },
        .idle, kv, none⟩
  | .roundTop => some ⟨{ p with addedClock := false }, .uploadRaised p.raisedClocks [], kv, none⟩
  | .verdict => some ⟨p.nextRound 0, .idle, kv, none⟩
  | _ => none

def Proc.sectionStep (kv : Kvdb) (p : Proc) : Work → Option Effect
  | .idle => none
  | .upload [] =>
      some ⟨{ p with ckpt := .shareBarrier, log := p.log ++ [.arrive (.shareSeqNum p.locals.attemptId)] },
        .idle, kv, none⟩
  | .upload (g :: left) =>
      (p.clocks.lookup g).map fun c =>
        ⟨p, .upload left, uploadSeq ⟨.commSeqMax, p.attempt⟩ g c.seq kv, some ⟨p.attempt, .share, g, c.seq⟩⟩
  | .download [] => p.endDownload kv
  | .download (g :: left) =>
      match kv ⟨.commSeqMax, p.attempt⟩ (.gid g) with
      | some maxSeq => some ⟨{ p with clocks := setTarget p.clocks g maxSeq }, .download left, kv, none⟩
      | none => some ⟨p, .download left, kv, none⟩
  | .uploadRaised [] gids => some ⟨{ p with raisedClocks := [] }, .count gids, kv, none⟩
  | .uploadRaised (g :: left) gids =>
      match p.clocks.lookup g with
      | none => some ⟨p, .uploadRaised left gids, kv, none⟩
      | some c =>
          if g ∈ gids then some ⟨p, .uploadRaised left gids, kv, none⟩
          else some ⟨p, .uploadRaised left (gids ++ [g]), uploadSeq ⟨.commSeqMax, p.attempt⟩ g c.seq kv,
            some ⟨p.attempt, .round p.locals.roundNum, g, c.seq⟩⟩
  | .count gids =>
      let key := Key.round p.locals.roundNum
      some ⟨p, .write ((kv ⟨.targetsRaised, p.attempt⟩ key).getD 0) gids,
        kv.incrBy ⟨.targetsRaised, p.attempt⟩ key gids.length, none⟩
  | .write _ [] => some ⟨p, .check, kv, none⟩
  | .write i (g :: left) =>
      some ⟨p, .write (i + 1) left, kv.set ⟨.raisedGids, p.attempt⟩ (.entry p.locals.roundNum i) g, none⟩
  | .check => some ⟨{ p with locals := { p.locals with targetReached := checkSeqNums p.clocks } }, .readPhase, kv, none⟩
  | .readPhase =>
      some ⟨{ p with locals := { p.locals with cs := decide (p.currentPhase = .inCs) }, ckpt := .putConverge },
        .idle, kv, none⟩
  | .readEntry i downloaded =>
      if i < p.locals.raised then
        match kv ⟨.raisedGids, p.attempt⟩ (.entry p.locals.roundNum i) with
        | none => some ⟨{ p with ckpt := .aborted }, .idle, kv, none⟩
        | some g =>
            if g ∈ p.clocks ∧ g ∉ downloaded then some ⟨p, .readTarget i g downloaded, kv, none⟩
            else some ⟨p, .readEntry (i + 1) downloaded, kv, none⟩
      else some ⟨{ p with targetsVersion := p.targetsVersion + 1 }.nextRound 0, .idle, kv, none⟩
  | .readTarget i g downloaded =>
      match kv ⟨.commSeqMax, p.attempt⟩ (.gid g) with
      | none => some ⟨{ p with ckpt := .aborted }, .idle, kv, none⟩
      | some maxSeq => (p.clocks.lookup g).map fun c =>
          ⟨{ p with clocks := p.clocks.insert g { c with target := maxSeq } },
            .readEntry (i + 1) (g :: downloaded), kv, none⟩

def Proc.requestStep (worldSize : Nat) (kv : Kvdb) (p : Proc) (work : Work) : Option Effect :=
  if work = .idle then p.startSection worldSize kv else p.sectionStep kv work

def AppAct.locks : AppAct → Bool
  | .lock | .addClock _ | .eraseClock _ => true
  | _ => false

structure Requests (n : Nat) where
  base : State n
  work : Fin n → Work
  uploads : List Upload

namespace Requests

variable {n : Nat} (members : Gid → Finset (Fin n))

def apply (s : Requests n) (r : Fin n) (e : Effect) : Requests n where
  base := { proc := Function.update s.base.proc r e.proc, kvdb := e.kvdb }
  work := Function.update s.work r e.work
  uploads := s.uploads ++ e.upload.toList

def step (s : Requests n) : Action n → Option (Requests n)
  | .ckpt r => ((s.base.proc r).requestStep n s.base.kvdb (s.work r)).map (s.apply r)
  | .app r a =>
      if a.locks = true ∧ s.work r ≠ .idle then none
      else (Collective.step members s.base (.app r a)).map fun base => { s with base }
  | .completeFree r g => (Collective.step members s.base (.completeFree r g)).map fun base => { s with base }
  | .release b => (Collective.step members s.base (.release b)).map fun base => { s with base }

def machine : Machine (Requests n) (Action n) where
  initial s := Initial members s.base ∧ s.work = (fun _ => .idle) ∧ s.uploads = []
  step := step members

end Requests

inductive RequestMove (worldSize : Nat) (kv : Kvdb) (p : Proc) : Work → Effect → Prop where
  | plain {q : Proc} {kv' : Kvdb} (outside : p.ckpt ≠ .share ∧ p.ckpt ≠ .shareDownload ∧ p.ckpt ≠ .roundTop ∧
      p.ckpt ≠ .verdict) (moved : CkptMove worldSize kv p p.ckpt q kv') :
      RequestMove worldSize kv p .idle ⟨q, .idle, kv', none⟩
  | beginShare (pc : p.ckpt = .share) :
      RequestMove worldSize kv p .idle
        ⟨{ p with
            ckptPending := true
            raisedClocks := []
            addedClock := false
            shared := fun e => if e = p.attempt then some p.calls else p.shared e },
          .upload p.clocks.keys, kv, none⟩
  | beginDownload (pc : p.ckpt = .shareDownload ∨ p.ckpt = .roundTop ∧ p.addedClock = true ∨ p.ckpt = .verdict) :
      RequestMove worldSize kv p .idle ⟨p, .download p.clocks.keys, kv, none⟩
  | beginUpload (pc : p.ckpt = .roundTop) (noneAdded : p.addedClock = false) :
      RequestMove worldSize kv p .idle ⟨p, .uploadRaised p.raisedClocks [], kv, none⟩
  | exhausted (pc : p.ckpt = .roundTop) :
      RequestMove worldSize kv p .idle
        ⟨{ p with ckpt := .giveUp, log := p.log ++ [.gaveUp p.attempt p.locals.roundNum] }, .idle, kv, none⟩
  | returned (pc : p.ckpt = .verdict) :
      RequestMove worldSize kv p .idle
        ⟨{ p with ckpt := .drained, log := p.log ++ [.returned p.attempt p.locals.roundNum] }, .idle, kv, none⟩
  | beginEntries (pc : p.ckpt = .verdict) : RequestMove worldSize kv p .idle ⟨p, .readEntry 0 [], kv, none⟩
  | again (pc : p.ckpt = .verdict) (quiet : p.locals.raised = 0) :
      RequestMove worldSize kv p .idle ⟨p.nextRound (p.locals.roundsWithoutRaise + 1), .idle, kv, none⟩
  | upload (g : Gid) (left : List Gid) (c : CommClock) (found : p.clocks.lookup g = some c) :
      RequestMove worldSize kv p (.upload (g :: left))
        ⟨p, .upload left, uploadSeq ⟨.commSeqMax, p.attempt⟩ g c.seq kv, some ⟨p.attempt, .share, g, c.seq⟩⟩
  | endUpload :
      RequestMove worldSize kv p (.upload [])
        ⟨{ p with ckpt := .shareBarrier, log := p.log ++ [.arrive (.shareSeqNum p.locals.attemptId)] },
          .idle, kv, none⟩
  | download (g : Gid) (left : List Gid) (maxSeq : Nat) (got : kv ⟨.commSeqMax, p.attempt⟩ (.gid g) = some maxSeq) :
      RequestMove worldSize kv p (.download (g :: left))
        ⟨{ p with clocks := setTarget p.clocks g maxSeq }, .download left, kv, none⟩
  | noDownload (g : Gid) (left : List Gid) (missing : kv ⟨.commSeqMax, p.attempt⟩ (.gid g) = none) :
      RequestMove worldSize kv p (.download (g :: left)) ⟨p, .download left, kv, none⟩
  | shareDownloaded (pc : p.ckpt = .shareDownload) :
      RequestMove worldSize kv p (.download [])
        ⟨{ p with
            targetsVersion := p.targetsVersion + 1
            ckpt := .roundTop
            locals := { p.locals with roundNum := 0, roundsWithoutRaise := 0 } }, .idle, kv, none⟩
  | topDownloaded (pc : p.ckpt = .roundTop) :
      RequestMove worldSize kv p (.download [])
        ⟨{ p with targetsVersion := p.targetsVersion + 1, addedClock := false },
          .uploadRaised p.raisedClocks [], kv, none⟩
  | allDownloaded (pc : p.ckpt = .verdict) :
      RequestMove worldSize kv p (.download [])
        ⟨{ p with targetsVersion := p.targetsVersion + 1 }.nextRound 0, .idle, kv, none⟩
  | uploadRaised (g : Gid) (left gids : List Gid) (c : CommClock) (found : p.clocks.lookup g = some c) :
      RequestMove worldSize kv p (.uploadRaised (g :: left) gids)
        ⟨p, .uploadRaised left (gids ++ [g]), uploadSeq ⟨.commSeqMax, p.attempt⟩ g c.seq kv,
          some ⟨p.attempt, .round p.locals.roundNum, g, c.seq⟩⟩
  | skipRaised (g : Gid) (left gids : List Gid) (skip : g ∈ p.clocks → g ∈ gids) :
      RequestMove worldSize kv p (.uploadRaised (g :: left) gids) ⟨p, .uploadRaised left gids, kv, none⟩
  | endRaised (gids : List Gid) :
      RequestMove worldSize kv p (.uploadRaised [] gids) ⟨{ p with raisedClocks := [] }, .count gids, kv, none⟩
  | count (gids : List Gid) :
      RequestMove worldSize kv p (.count gids)
        ⟨p, .write ((kv ⟨.targetsRaised, p.attempt⟩ (.round p.locals.roundNum)).getD 0) gids,
          kv.incrBy ⟨.targetsRaised, p.attempt⟩ (.round p.locals.roundNum) gids.length, none⟩
  | write (i : Nat) (g : Gid) (left : List Gid) :
      RequestMove worldSize kv p (.write i (g :: left))
        ⟨p, .write (i + 1) left, kv.set ⟨.raisedGids, p.attempt⟩ (.entry p.locals.roundNum i) g, none⟩
  | endWrite (i : Nat) : RequestMove worldSize kv p (.write i []) ⟨p, .check, kv, none⟩
  | check :
      RequestMove worldSize kv p .check
        ⟨{ p with locals := { p.locals with targetReached := checkSeqNums p.clocks } }, .readPhase, kv, none⟩
  | readPhase :
      RequestMove worldSize kv p .readPhase
        ⟨{ p with locals := { p.locals with cs := decide (p.currentPhase = .inCs) }, ckpt := .putConverge },
          .idle, kv, none⟩
  | findEntry (i : Nat) (g : Gid) (downloaded : List Gid)
      (entry : kv ⟨.raisedGids, p.attempt⟩ (.entry p.locals.roundNum i) = some g) :
      RequestMove worldSize kv p (.readEntry i downloaded) ⟨p, .readTarget i g downloaded, kv, none⟩
  | skipEntry (i : Nat) (g : Gid) (downloaded : List Gid)
      (entry : kv ⟨.raisedGids, p.attempt⟩ (.entry p.locals.roundNum i) = some g)
      (skip : g ∈ p.clocks → g ∈ downloaded) :
      RequestMove worldSize kv p (.readEntry i downloaded) ⟨p, .readEntry (i + 1) downloaded, kv, none⟩
  | endEntries (i : Nat) (downloaded : List Gid) (all : p.locals.raised ≤ i) :
      RequestMove worldSize kv p (.readEntry i downloaded)
        ⟨{ p with targetsVersion := p.targetsVersion + 1 }.nextRound 0, .idle, kv, none⟩
  | readTarget (i : Nat) (g : Gid) (downloaded : List Gid) (c : CommClock) (maxSeq : Nat)
      (found : p.clocks.lookup g = some c) (got : kv ⟨.commSeqMax, p.attempt⟩ (.gid g) = some maxSeq) :
      RequestMove worldSize kv p (.readTarget i g downloaded)
        ⟨{ p with clocks := p.clocks.insert g { c with target := maxSeq } },
          .readEntry (i + 1) (g :: downloaded), kv, none⟩
  | noEntry (i : Nat) (downloaded : List Gid) :
      RequestMove worldSize kv p (.readEntry i downloaded) ⟨{ p with ckpt := .aborted }, .idle, kv, none⟩
  | noTarget (i : Nat) (g : Gid) (downloaded : List Gid) :
      RequestMove worldSize kv p (.readTarget i g downloaded) ⟨{ p with ckpt := .aborted }, .idle, kv, none⟩

section Moves

variable {worldSize : Nat} {kv : Kvdb} {p : Proc} {work : Work} {e : Effect}

theorem Proc.startSection_move (taken : p.startSection worldSize kv = some e) : RequestMove worldSize kv p .idle e := by
  unfold Proc.startSection at taken
  split at taken
  case h_1 pc =>
    cases taken
    exact .beginShare pc
  case h_2 pc =>
    cases taken
    exact .beginDownload (.inl pc)
  case h_3 pc =>
    split_ifs at taken with few added
    · cases taken
      exact .beginDownload (.inr (.inl ⟨pc, added⟩))
    · cases taken
      exact .beginUpload pc (by simpa using added)
    · cases taken
      exact .exhausted pc
  case h_4 pc =>
    dsimp only at taken
    split_ifs at taken with done raised all
    · cases taken
      exact .returned pc
    · cases taken
      exact .beginDownload (.inr (.inr pc))
    · cases taken
      exact .beginEntries pc
    · cases taken
      exact .again pc (by omega)
  case h_5 notShare notDownload notTop notVerdict =>
    obtain ⟨⟨q, kv'⟩, moved, rfl⟩ := map_eq_some_iff.mp taken
    exact .plain ⟨notShare, notDownload, notTop, notVerdict⟩ (Proc.ckptStep_move moved)

theorem Proc.endDownload_move (taken : p.endDownload kv = some e) : RequestMove worldSize kv p (.download []) e := by
  unfold Proc.endDownload at taken
  dsimp only at taken
  split at taken
  case h_1 pc | h_2 pc | h_3 pc =>
    cases taken
    constructor
    exact pc
  case h_4 => cases taken

theorem Proc.sectionStep_move (taken : p.sectionStep kv work = some e) : RequestMove worldSize kv p work e := by
  unfold Proc.sectionStep at taken
  split at taken
  case h_1 => cases taken
  case h_3 g left =>
    obtain ⟨c, found, rfl⟩ := map_eq_some_iff.mp taken
    exact .upload g left c found
  case h_4 => exact Proc.endDownload_move taken
  case h_5 g left =>
    split at taken
    next maxSeq got =>
      cases taken
      exact .download g left maxSeq got
    next missing =>
      cases taken
      exact .noDownload g left missing
  case h_7 g left gids =>
    split at taken
    next missing =>
      cases taken
      exact .skipRaised g left gids fun held => absurd held (AList.lookup_eq_none.mp missing)
    next c found =>
      split_ifs at taken with seen
      · cases taken
        exact .skipRaised g left gids fun _ => seen
      · cases taken
        exact .uploadRaised g left gids c found
  case h_13 i downloaded =>
    split_ifs at taken with more
    · split at taken
      next =>
        cases taken
        exact .noEntry i downloaded
      next g entry =>
        split_ifs at taken with wanted
        · cases taken
          exact .findEntry i g downloaded entry
        · cases taken
          refine .skipEntry i g downloaded entry fun held => ?_
          by_contra fresh
          exact wanted ⟨held, fresh⟩
    · cases taken
      exact .endEntries i downloaded (Nat.le_of_not_lt more)
  case h_14 i g downloaded =>
    split at taken
    next =>
      cases taken
      exact .noTarget i g downloaded
    next maxSeq got =>
      obtain ⟨c, found, rfl⟩ := map_eq_some_iff.mp taken
      exact .readTarget i g downloaded c maxSeq found got
  case h_2 | h_6 | h_8 | h_9 | h_10 | h_11 | h_12 =>
    cases taken
    constructor

theorem Proc.requestStep_move (taken : p.requestStep worldSize kv work = some e) :
    RequestMove worldSize kv p work e := by
  unfold Proc.requestStep at taken
  split_ifs at taken with idle
  · subst idle
    exact Proc.startSection_move taken
  · exact Proc.sectionStep_move taken

theorem RequestMove.app_eq (moved : RequestMove worldSize kv p work e) :
    e.proc.calls = p.calls ∧ e.proc.freed = p.freed := by
  cases moved with
  | plain outside moved => exact moved.app_eq.2
  | _ => exact ⟨rfl, rfl⟩

theorem AppStep.eq_of_not_locks {size : Gid → Nat} {mayAdd mayErase : Gid → Bool} {q : Proc} {a : AppAct}
    (taken : AppStep size mayAdd mayErase p a q) (notLocks : a.locks = false) :
    ∃ phase app, q = { p with currentPhase := phase, app := app } := by
  cases taken with
  | call c | wake c v | finish | readPending | finishWake v | done => exact ⟨_, _, rfl⟩
  | wait | enter | add | finishLock | erase => cases notLocks

variable {n : Nat} {members : Gid → Finset (Fin n)} {s t : Requests n}

/-- The steps of all ranks by cases. While a checkpoint thread is in a section, the application thread of the rank does
not touch the clocks. -/
inductive Requests.Move (members : Gid → Finset (Fin n)) (s : Requests n) : Requests n → Prop where
  | ckpt (r : Fin n) {e : Effect} (moved : RequestMove n s.base.kvdb (s.base.proc r) (s.work r) e) :
      Requests.Move members s (s.apply r e)
  | appPc (r : Fin n) (phase : Phase) (app : AppPc) :
      Requests.Move members s
        { s with base := s.base.setProc r { s.base.proc r with currentPhase := phase, app := app } }
  | app (r : Fin n) {q : Proc} (idle : s.work r = .idle)
      (moved : AppMove (fun g => (members g).card) (fun g => decide (r ∈ members g)) (s.base.allFreed members)
        (s.base.proc r) q) : Requests.Move members s { s with base := s.base.setProc r q }
  | completeFree (r : Fin n) (g : Gid) (pc : (s.base.proc r).ckpt = .drainedAll)
      (freed : s.base.allFreed members g = true) (held : g ∈ (s.base.proc r).clocks) :
      Requests.Move members s
        { s with base := s.base.setProc r { s.base.proc r with clocks := (s.base.proc r).clocks.erase g } }
  | release {b : Barrier} {base : State n} (released : Release s.base b base) :
      Requests.Move members s { s with base }

theorem Requests.step_move {a : Action n} (taken : Requests.step members s a = some t) : Requests.Move members s t := by
  cases a with
  | ckpt r =>
    obtain ⟨e, moved, rfl⟩ := map_eq_some_iff.mp taken
    exact .ckpt r (Proc.requestStep_move moved)
  | app r a =>
    simp only [Requests.step] at taken
    split_ifs at taken with blocked
    obtain ⟨base, moved, rfl⟩ := map_eq_some_iff.mp taken
    obtain ⟨q, stepped, rfl⟩ := map_eq_some_iff.mp moved
    have byCase := Proc.appStep_cases stepped
    by_cases idle : s.work r = .idle
    · exact .app r idle byCase.move
    · have notLocks : a.locks = false := by
        cases locks : a.locks
        · rfl
        · exact absurd ⟨locks, idle⟩ blocked
      obtain ⟨phase, app, rfl⟩ := byCase.eq_of_not_locks notLocks
      exact .appPc r phase app
  | completeFree r g =>
    obtain ⟨base, moved, rfl⟩ := map_eq_some_iff.mp taken
    simp only [Collective.step] at moved
    split_ifs at moved with may
    cases moved
    exact .completeFree r g may.1 may.2.1 may.2.2
  | release b =>
    obtain ⟨base, moved, rfl⟩ := map_eq_some_iff.mp taken
    simp only [Collective.step] at moved
    split_ifs at moved with all
    cases moved
    exact .release ⟨all, rfl⟩

theorem Requests.Move.extends (moved : Requests.Move members s t) (r : Fin n) :
    (s.base.proc r).Extends (t.base.proc r) := by
  revert r
  cases moved with
  | ckpt r moved =>
    obtain ⟨calls, freed⟩ := moved.app_eq
    refine (Function.forall_update_iff s.base.proc fun r' => (s.base.proc r').Extends).mpr
      ⟨⟨?_, ?_⟩, fun _ _ => .refl _⟩
    · rw [calls]
    · rw [freed]
      exact List.Subset.refl _
  | app r idle moved =>
    exact (Function.forall_update_iff s.base.proc fun r' => (s.base.proc r').Extends).mpr
      ⟨moved.extends, fun _ _ => .refl _⟩
  | appPc r | completeFree r =>
    exact (Function.forall_update_iff s.base.proc fun r' => (s.base.proc r').Extends).mpr
      ⟨⟨List.prefix_rfl, List.Subset.refl _⟩, fun _ _ => .refl _⟩
  | release released =>
    obtain ⟨-, rfl⟩ := released
    exact fun r => ⟨List.prefix_rfl, List.Subset.refl _⟩

end Moves

end Mana.Collective
