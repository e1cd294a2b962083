import Mana.Collective.Agreement
import Mana.Collective.Clocks

/-! The drain of `Drain` is the drain request by request, in the runs where no other step comes between the requests of
a section. -/

namespace Mana.Collective
open Mana.Lib

/-- What a checkpoint thread sees and changes. -/
structure Solo where
  proc : Proc
  work : Work
  kvdb : Kvdb
  uploads : List Upload

/-- A step of a checkpoint thread, with the uploads so far. -/
def Solo.Step (worldSize : Nat) (s t : Solo) : Prop :=
  ∃ upload, s.proc.requestStep worldSize s.kvdb s.work = some ⟨t.proc, t.work, t.kvdb, upload⟩ ∧
    t.uploads = s.uploads ++ upload.toList

/-- Steps of a checkpoint thread alone, up to the uploads. -/
def Solo.Runs (worldSize : Nat) (p : Proc) (work : Work) (kv : Kvdb) (q : Proc) (work' : Work) (kv' : Kvdb) : Prop :=
  ∀ uploads, ∃ uploads', Relation.ReflTransGen (Solo.Step worldSize) ⟨p, work, kv, uploads⟩ ⟨q, work', kv', uploads'⟩

namespace Solo

variable {worldSize : Nat} {p q q' : Proc} {work work' work'' : Work} {kv kv' kv'' : Kvdb}

theorem Runs.refl : Runs worldSize p work kv p work kv := fun uploads => ⟨uploads, .refl⟩

theorem Runs.trans (first : Runs worldSize p work kv q work' kv') (second : Runs worldSize q work' kv' q' work'' kv'') :
    Runs worldSize p work kv q' work'' kv'' := by
  intro uploads
  obtain ⟨between, ran⟩ := first uploads
  obtain ⟨uploads', ran'⟩ := second between
  exact ⟨uploads', ran.trans ran'⟩

theorem Runs.head (upload : Option Upload) (taken : p.requestStep worldSize kv work = some ⟨q, work', kv', upload⟩)
    (rest : Runs worldSize q work' kv' q' work'' kv'') : Runs worldSize p work kv q' work'' kv'' := by
  intro uploads
  obtain ⟨uploads', ran⟩ := rest (uploads ++ upload.toList)
  exact ⟨uploads', .head ⟨upload, taken, rfl⟩ ran⟩

theorem Runs.single (upload : Option Upload) (taken : p.requestStep worldSize kv work = some ⟨q, work', kv', upload⟩) :
    Runs worldSize p work kv q work' kv' := .head upload taken .refl

/-! The loops. -/

theorem runs_upload {entries : List (Sigma fun _ : Gid => CommClock)} (sub : entries ⊆ p.clocks.entries) :
    Runs worldSize p (.upload entries.keys) kv p (.upload [])
      (entries.foldl (fun kv e => uploadSeq ⟨.commSeqMax, p.attempt⟩ e.1 e.2.seq kv) kv) := by
  induction entries generalizing kv with
  | nil => exact .refl
  | cons e rest ih =>
    obtain ⟨member, subRest⟩ := List.cons_subset.mp sub
    have found : p.clocks.lookup e.1 = some e.2 := Assoc.lookup_of_mem_entries member
    refine .head (some ⟨p.attempt, .share, e.1, e.2.seq⟩) ?_ (ih subRest)
    simp [Proc.requestStep, Proc.sectionStep, found]

theorem runs_uploadRaised (raised gids : List Gid) :
    Runs worldSize p (.uploadRaised raised gids) kv p
      (.uploadRaised [] (uploadRaisedLoop ⟨.commSeqMax, p.attempt⟩ p.clocks raised gids kv).1)
      (uploadRaisedLoop ⟨.commSeqMax, p.attempt⟩ p.clocks raised gids kv).2 := by
  induction raised generalizing gids kv with
  | nil => exact .refl
  | cons g rest ih =>
    unfold uploadRaisedLoop
    cases found : p.clocks.lookup g with
    | none =>
      refine .head none ?_ (ih gids)
      simp [Proc.requestStep, Proc.sectionStep, found]
    | some c =>
      by_cases seen : g ∈ gids
      · simp only [if_pos seen]
        refine .head none ?_ (ih gids)
        simp [Proc.requestStep, Proc.sectionStep, found, seen]
      · simp only [if_neg seen]
        refine .head (some ⟨p.attempt, .round p.locals.roundNum, g, c.seq⟩) ?_ (ih (gids ++ [g]))
        simp [Proc.requestStep, Proc.sectionStep, found, seen]

theorem runs_write (i : Nat) (gids : List Gid) :
    Runs worldSize p (.write i gids) kv p .check
      (writeEntries ⟨.raisedGids, p.attempt⟩ p.locals.roundNum i gids kv) := by
  induction gids generalizing i kv with
  | nil =>
    refine .single none ?_
    simp [Proc.requestStep, Proc.sectionStep, writeEntries]
  | cons g rest ih =>
    refine .head none ?_ (ih (i + 1))
    simp [Proc.requestStep, Proc.sectionStep]

/-- The targets of the clocks on the list, downloaded one after the other. -/
def downloadEach (db : DbName) (kv : Kvdb) (left : List Gid) (clocks : Clocks) : Clocks :=
  left.foldl (fun clocks g =>
    match kv db (.gid g) with
    | some maxSeq => setTarget clocks g maxSeq
    | none => clocks) clocks

theorem runs_download (left : List Gid) :
    Runs worldSize p (.download left) kv
      { p with clocks := downloadEach ⟨.commSeqMax, p.attempt⟩ kv left p.clocks } (.download []) kv := by
  induction left generalizing p with
  | nil => exact .refl
  | cons g rest ih =>
    cases got : kv ⟨.commSeqMax, p.attempt⟩ (.gid g) with
    | none =>
      have same : downloadEach ⟨.commSeqMax, p.attempt⟩ kv (g :: rest) p.clocks =
          downloadEach ⟨.commSeqMax, p.attempt⟩ kv rest p.clocks := by
        simp [downloadEach, got]
      rw [same]
      refine .head none ?_ ih
      simp [Proc.requestStep, Proc.sectionStep, got]
    | some maxSeq =>
      have next : downloadEach ⟨.commSeqMax, p.attempt⟩ kv (g :: rest) p.clocks =
          downloadEach ⟨.commSeqMax, p.attempt⟩ kv rest (setTarget p.clocks g maxSeq) := by
        simp [downloadEach, got]
      rw [next]
      refine .head none ?_ (@ih { p with clocks := setTarget p.clocks g maxSeq })
      simp [Proc.requestStep, Proc.sectionStep, got]

theorem entries_downloadEach (db : DbName) (left : List Gid) (clocks : Clocks) :
    (downloadEach db kv left clocks).entries = clocks.entries.map fun e =>
      ⟨e.1, if e.1 ∈ left then { e.2 with target := (kv db (.gid e.1)).getD e.2.target } else e.2⟩ := by
  induction left generalizing clocks with
  | nil => simp [downloadEach]
  | cons g rest ih =>
    cases got : kv db (.gid g) with
    | none =>
      rw [show downloadEach db kv (g :: rest) clocks = downloadEach db kv rest clocks by simp [downloadEach, got], ih]
      refine List.map_congr_left fun e _ => ?_
      by_cases same : e.1 = g
      · simp [same, got]
      · simp [same]
    | some maxSeq =>
      rw [show downloadEach db kv (g :: rest) clocks = downloadEach db kv rest (setTarget clocks g maxSeq) by
        simp [downloadEach, got], ih]
      simp only [setTarget, Assoc.mapVal, List.map_map]
      refine List.map_congr_left fun e _ => ?_
      by_cases same : e.1 = g
      · simp [same, got]
      · simp [same]

theorem downloadEach_keys (db : DbName) (clocks : Clocks) :
    downloadEach db kv clocks.keys clocks = downloadTargets db kv clocks := by
  refine AList.ext ?_
  rw [entries_downloadEach]
  refine List.map_congr_left fun e member => ?_
  have isKey : e.1 ∈ clocks.keys := List.mem_keys_of_mem member
  rw [if_pos isKey]
  dsimp only
  cases kv db (.gid e.1) <;> rfl

theorem runs_readEntry {i m : Nat} {downloaded : List Gid} {after : Clocks} (all : i + m = p.locals.raised)
    (done : downloadRaisedLoop p.attempt p.locals.roundNum kv (List.range' i m) downloaded p.clocks = some after) :
    Runs worldSize p (.readEntry i downloaded) kv
      ({ p with clocks := after, targetsVersion := p.targetsVersion + 1 }.nextRound 0) .idle kv := by
  induction m generalizing i downloaded p with
  | zero =>
    obtain rfl := Option.some.inj done
    refine .single none ?_
    simp [Proc.requestStep, Proc.sectionStep, show ¬i < p.locals.raised by omega]
  | succ m ih =>
    have more : i < p.locals.raised := by omega
    rw [List.range'_succ, downloadRaisedLoop] at done
    cases entry : kv ⟨.raisedGids, p.attempt⟩ (.entry p.locals.roundNum i) with
    | none => simp [entry] at done
    | some g =>
      simp only [entry] at done
      cases found : p.clocks.lookup g with
      | none =>
        have absent : g ∉ p.clocks := AList.lookup_eq_none.mp found
        simp only [found] at done
        refine .head none ?_ (ih (by omega) done)
        simp [Proc.requestStep, Proc.sectionStep, more, entry, absent]
      | some c =>
        have held : g ∈ p.clocks := Assoc.mem_of_lookup found
        simp only [found] at done
        by_cases seen : g ∈ downloaded
        · rw [if_pos seen] at done
          refine .head none ?_ (ih (by omega) done)
          simp [Proc.requestStep, Proc.sectionStep, more, entry, seen]
        · rw [if_neg seen] at done
          cases got : kv ⟨.commSeqMax, p.attempt⟩ (.gid g) with
          | none => simp [got] at done
          | some maxSeq =>
            simp only [got] at done
            have reads : p.requestStep worldSize kv (.readEntry i downloaded) =
                some ⟨p, .readTarget i g downloaded, kv, none⟩ := by
              simp [Proc.requestStep, Proc.sectionStep, more, entry, held, seen]
            have writes : p.requestStep worldSize kv (.readTarget i g downloaded) =
                some ⟨{ p with clocks := p.clocks.insert g { c with target := maxSeq } },
                  .readEntry (i + 1) (g :: downloaded), kv, none⟩ := by
              simp [Proc.requestStep, Proc.sectionStep, got, found]
            exact .head none reads (.head none writes (ih (by dsimp only; omega) done))

/-! The sections. -/

theorem runs_share (pc : p.ckpt = .share) :
    Runs worldSize p .idle kv
      { p with
        ckptPending := true
        raisedClocks := []
        addedClock := false
        ckpt := .shareBarrier
        shared := fun e => if e = p.attempt then some p.calls else p.shared e
        log := p.log ++ [.arrive (.shareSeqNum p.locals.attemptId)] } .idle
      (uploadSeqNum ⟨.commSeqMax, p.attempt⟩ p.clocks kv) := by
  have starts : p.requestStep worldSize kv .idle = some ⟨{ p with
      ckptPending := true
      raisedClocks := []
      addedClock := false
      shared := fun e => if e = p.attempt then some p.calls else p.shared e }, .upload p.clocks.keys, kv, none⟩ := by
    simp [Proc.requestStep, Proc.startSection, pc]
  exact .head none starts (.trans (runs_upload fun _ member => member) (.single none rfl))

/-- `download_targets`, up to its last line. -/
theorem runs_downloadTargets :
    Runs worldSize p (.download p.clocks.keys) kv
      { p with clocks := downloadTargets ⟨.commSeqMax, p.attempt⟩ kv p.clocks } (.download []) kv := by
  rw [← downloadEach_keys]
  exact runs_download p.clocks.keys

theorem runs_shareDownload (pc : p.ckpt = .shareDownload) :
    Runs worldSize p .idle kv
      { p with
        clocks := downloadTargets ⟨.commSeqMax, p.attempt⟩ kv p.clocks
        targetsVersion := p.targetsVersion + 1
        ckpt := .roundTop
        locals := { p.locals with roundNum := 0, roundsWithoutRaise := 0 } } .idle kv := by
  have starts : p.requestStep worldSize kv .idle = some ⟨p, .download p.clocks.keys, kv, none⟩ := by
    simp [Proc.requestStep, Proc.startSection, pc]
  refine .head none starts (runs_downloadTargets.trans (.single none ?_))
  simp [Proc.requestStep, Proc.sectionStep, Proc.endDownload, pc]

/-- The round's section from `upload_raised_targets` on. -/
theorem runs_uploadTargets :
    Runs worldSize p (.uploadRaised p.raisedClocks []) kv
      { p with
        raisedClocks := []
        locals := { p.locals with
          targetReached := checkSeqNums p.clocks
          cs := decide (p.currentPhase = .inCs) }
        ckpt := .putConverge } .idle
      (uploadRaisedTargets p.attempt p.locals.roundNum p.clocks p.raisedClocks kv) := by
  have count (gids : List Gid) (kv : Kvdb) : ({ p with raisedClocks := [] } : Proc).requestStep worldSize kv (.count gids) =
      some ⟨{ p with raisedClocks := [] },
        .write ((kv ⟨.targetsRaised, p.attempt⟩ (.round p.locals.roundNum)).getD 0) gids,
        kv.incrBy ⟨.targetsRaised, p.attempt⟩ (.round p.locals.roundNum) gids.length, none⟩ := rfl
  exact (runs_uploadRaised p.raisedClocks []).trans
    (.head none rfl (.head none (count _ _) ((runs_write _ _).trans (.head none rfl (.single none rfl)))))

theorem runs_roundSection (pc : p.ckpt = .roundTop) (few : p.locals.roundsWithoutRaise < MAX_DRAIN_ROUNDS) :
    Runs worldSize p .idle kv (p.roundSection kv).1 .idle (p.roundSection kv).2 := by
  cases added : p.addedClock with
  | true =>
    have starts : p.requestStep worldSize kv .idle = some ⟨p, .download p.clocks.keys, kv, none⟩ := by
      simp [Proc.requestStep, Proc.startSection, pc, few, added]
    have ends : ({ p with clocks := downloadTargets ⟨.commSeqMax, p.attempt⟩ kv p.clocks } : Proc).requestStep
        worldSize kv (.download []) = some ⟨{ p with
          clocks := downloadTargets ⟨.commSeqMax, p.attempt⟩ kv p.clocks
          targetsVersion := p.targetsVersion + 1
          addedClock := false }, .uploadRaised p.raisedClocks [], kv, none⟩ := by
      simp [Proc.requestStep, Proc.sectionStep, Proc.endDownload, pc]
    simp only [Proc.roundSection, added, if_true]
    exact .head none starts (runs_downloadTargets.trans (.head none ends runs_uploadTargets))
  | false =>
    have starts : p.requestStep worldSize kv .idle = some ⟨p, .uploadRaised p.raisedClocks [], kv, none⟩ := by
      simp [Proc.requestStep, Proc.startSection, pc, few, added]
    simp only [Proc.roundSection, added, Bool.false_eq_true, if_false]
    rw [← added]
    exact .head none starts runs_uploadTargets

/-- `download_raised_targets` by either of its paths. -/
theorem runs_downloadRaised {clocks : Clocks} (pc : p.ckpt = .verdict)
    (done : downloadRaisedTargets p.attempt p.locals.roundNum p.locals.raised kv p.clocks = some clocks) :
    Runs worldSize p (if p.locals.raised ≥ p.clocks.entries.length then .download p.clocks.keys else .readEntry 0 []) kv
      ({ p with clocks := clocks, targetsVersion := p.targetsVersion + 1 }.nextRound 0) .idle kv := by
  unfold downloadRaisedTargets at done
  split_ifs at done ⊢ with all
  · obtain rfl := Option.some.inj done
    refine runs_downloadTargets.trans (.single none ?_)
    simp [Proc.requestStep, Proc.sectionStep, Proc.endDownload, pc]
  · rw [List.range_eq_range'] at done
    exact runs_readEntry (Nat.zero_add _) done

theorem runs_decideRound (pc : p.ckpt = .verdict) (alive : (p.decideRound worldSize kv).ckpt ≠ .aborted) :
    Runs worldSize p .idle kv (p.decideRound worldSize kv) .idle kv := by
  unfold Proc.decideRound at alive ⊢
  dsimp only at alive ⊢
  split_ifs at alive ⊢ with finished raised
  · refine .single none ?_
    simp [Proc.requestStep, Proc.startSection, pc, finished]
  · cases done : downloadRaisedTargets p.attempt p.locals.roundNum p.locals.raised kv p.clocks with
    | none => simp [done] at alive
    | some clocks =>
      refine .head none ?_ (runs_downloadRaised pc done)
      simp only [Proc.requestStep, Proc.startSection, pc, if_true, if_neg finished, if_pos raised]
  · refine .single none ?_
    simp only [Proc.requestStep, Proc.startSection, pc, if_true, if_neg finished, if_neg raised]

theorem runs_ckptStep (taken : p.ckptStep worldSize kv = some (q, kv')) (alive : q.ckpt ≠ .aborted) :
    Runs worldSize p .idle kv q .idle kv' := by
  by_cases section_ : p.ckpt = .share ∨ p.ckpt = .shareDownload ∨ p.ckpt = .roundTop ∨ p.ckpt = .verdict
  · unfold Proc.ckptStep at taken
    rcases section_ with pc | pc | pc | pc
    · simp only [pc, Option.some.injEq, Prod.mk.injEq] at taken
      obtain ⟨rfl, rfl⟩ := taken
      exact runs_share pc
    · simp only [pc, Option.some.injEq, Prod.mk.injEq] at taken
      obtain ⟨rfl, rfl⟩ := taken
      exact runs_shareDownload pc
    · simp only [pc] at taken
      split_ifs at taken with few
      · simp only [Option.some.injEq] at taken
        obtain ⟨rfl, rfl⟩ := Prod.mk.injEq .. ▸ taken
        exact runs_roundSection pc few
      · simp only [Option.some.injEq, Prod.mk.injEq] at taken
        obtain ⟨rfl, rfl⟩ := taken
        refine .single none ?_
        simp only [Proc.requestStep, Proc.startSection, pc, if_true, if_neg few]
    · simp only [pc, Option.some.injEq, Prod.mk.injEq] at taken
      obtain ⟨rfl, rfl⟩ := taken
      exact runs_decideRound pc alive
  · refine .single none ?_
    have steps : p.startSection worldSize kv = (p.ckptStep worldSize kv).map fun next => ⟨next.1, .idle, next.2, none⟩ := by
      unfold Proc.startSection
      split <;> simp_all
    rw [Proc.requestStep, if_pos rfl, steps, taken]
    rfl

end Solo

section Follows

variable {n : Nat} {members : Gid → Finset (Fin n)}

/-- The state between two sections. -/
def State.betweenSections (s : State n) (uploads : List Upload) : Requests n := ⟨s, fun _ => .idle, uploads⟩

/-- The rank's steps alone, as steps of the machine. -/
def Requests.withSolo (s : Requests n) (r : Fin n) (b : Solo) : Requests n :=
  ⟨⟨Function.update s.base.proc r b.proc, b.kvdb⟩, Function.update s.work r b.work, b.uploads⟩

theorem Requests.withSolo_self (s : Requests n) (r : Fin n) :
    s.withSolo r ⟨s.base.proc r, s.work r, s.base.kvdb, s.uploads⟩ = s := by
  simp only [withSolo, Function.update_eq_self]

theorem Requests.step_withSolo {s : Requests n} {r : Fin n} {b c : Solo} (stepped : Solo.Step n b c) :
    (Requests.machine members).step (s.withSolo r b) (.ckpt r) = some (s.withSolo r c) := by
  obtain ⟨upload, taken, uploads⟩ := stepped
  have proc : (s.withSolo r b).base.proc r = b.proc := Function.update_self ..
  have work : (s.withSolo r b).work r = b.work := Function.update_self ..
  change (((s.withSolo r b).base.proc r).requestStep n b.kvdb ((s.withSolo r b).work r)).map _ = _
  rw [proc, work, taken]
  simp only [Option.map_some, Requests.apply, withSolo, Function.update_idem, uploads]

theorem reachable_withSolo {s : Requests n} {r : Fin n} {a b : Solo} (ran : Relation.ReflTransGen (Solo.Step n) a b)
    (reached : Reachable (Requests.machine members) (s.withSolo r a)) :
    Reachable (Requests.machine members) (s.withSolo r b) := by
  induction ran with
  | refl => exact reached
  | tail _ stepped ih => exact ih.next (Requests.step_withSolo stepped)

/-- Every state of the drain with whole sections is one of the drain request by request. -/
theorem reachable_betweenSections {s : State n} (reached : Reachable (machine members) s) :
    ∃ uploads, Reachable (Requests.machine members) (s.betweenSections uploads) := by
  induction reached with
  | start first => exact ⟨[], .start ⟨first, rfl, rfl⟩⟩
  | @next s t a before taken ih =>
    obtain ⟨uploads, reached⟩ := ih
    cases a with
    | ckpt r =>
      obtain ⟨⟨q, kv'⟩, moved, rfl⟩ := Option.map_eq_some_iff.mp taken
      have alive : q.ckpt ≠ .aborted := by
        obtain ⟨stage, past, aligned, -⟩ := reachable_aligned (before.next taken)
        obtain ⟨events, -, here⟩ := aligned.places r
        have notAborted := here.not_aborted
        change (Function.update s.proc r q r).ckpt ≠ .aborted at notAborted
        rwa [Function.update_self] at notAborted
      obtain ⟨uploads', ran⟩ := Solo.runs_ckptStep moved alive uploads
      refine ⟨uploads', ?_⟩
      rw [← Requests.withSolo_self (s.betweenSections uploads) r] at reached
      have ended := reachable_withSolo ran reached
      have same : (s.betweenSections uploads).withSolo r ⟨q, .idle, kv', uploads'⟩ =
          State.betweenSections { s.setProc r q with kvdb := kv' } uploads' := by
        have idle : Function.update (fun _ : Fin n => Work.idle) r .idle = fun _ => .idle :=
          Function.update_eq_self r fun _ => Work.idle
        simp only [Requests.withSolo, State.betweenSections, State.setProc, idle]
      rwa [same] at ended
    | app r a =>
      refine ⟨uploads, reached.next (a := .app r a) ?_⟩
      change (if _ then none else (step members s (.app r a)).map _) = _
      rw [if_neg (fun both => both.2 rfl), show step members s (.app r a) = some t from taken]
      rfl
    | completeFree r g =>
      refine ⟨uploads, reached.next (a := .completeFree r g) ?_⟩
      exact congrArg (Option.map _) taken
    | release b =>
      refine ⟨uploads, reached.next (a := .release b) ?_⟩
      exact congrArg (Option.map _) taken

theorem reachable_clockInv {s : State n} (reached : Reachable (machine members) s) (r : Fin n) :
    ClockInv members s.kvdb r (s.proc r) .idle := by
  obtain ⟨uploads, reached⟩ := reachable_betweenSections reached
  exact clocksSound_of_reachable reached r

end Follows

end Mana.Collective
