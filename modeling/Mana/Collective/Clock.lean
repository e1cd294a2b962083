import Mana.Lib.Assoc
import Mana.Collective.Kvdb

/-! The clocks of one process and the loops of `seq_num.cpp` over them. Each loop
has one lemma that says what it does to a lookup; the drain's proofs use only those. -/

namespace Mana.Collective
open Mana.Lib

structure CommClock where
  seq : Nat
  target : Nat
  deriving DecidableEq, Repr

abbrev Clocks := Assoc Gid CommClock

/-- `check_seq_nums`: no clock has a target above its sequence number. -/
def checkSeqNums (clocks : Clocks) : Bool :=
  clocks.entries.all (fun e => !decide (e.2.target > e.2.seq))

theorem checkSeqNums_eq_true (clocks : Clocks) :
    checkSeqNums clocks = true ↔ ∀ g c, clocks.lookup g = some c → c.target ≤ c.seq := by
  rw [checkSeqNums, Assoc.all_entries clocks (fun _ c => !decide (c.target > c.seq))]
  simp only [gt_iff_lt, Bool.not_eq_true', decide_eq_false_iff_not, Nat.not_lt]

theorem checkSeqNums_erase {clocks : Clocks} (g : Gid) (reached : checkSeqNums clocks = true) :
    checkSeqNums (clocks.erase g) = true := by
  rw [checkSeqNums_eq_true] at *
  exact fun g' c found => reached g' c (Assoc.lookup_of_erase found).2

theorem checkSeqNums_eq_false (clocks : Clocks) :
    checkSeqNums clocks = false ↔ ∃ g c, clocks.lookup g = some c ∧ c.seq < c.target := by
  rw [← Bool.not_eq_true, checkSeqNums_eq_true]
  push Not
  rfl

def uploadSeq (db : DbName) (g : Gid) (seq : Nat) (kv : Kvdb) : Kvdb :=
  kv.max db (.gid g) seq

def uploadSeqNum (db : DbName) (clocks : Clocks) (kv : Kvdb) : Kvdb :=
  clocks.entries.foldl (fun kv e => uploadSeq db e.1 e.2.seq kv) kv

/-- `download_targets`, less the step of `targets_version`. -/
def downloadTargets (db : DbName) (kv : Kvdb) (clocks : Clocks) : Clocks :=
  clocks.mapVal (fun g c =>
    match kv db (.gid g) with
    | some maxSeq => { c with target := maxSeq }
    | none => c)

/-- The first loop of `upload_raised_targets`. The set `uploaded` holds exactly the
gids that the loop has pushed on `gids`. -/
def uploadRaisedLoop (db : DbName) (clocks : Clocks) : List Gid → List Gid → Kvdb → List Gid × Kvdb
  | [], gids, kv => (gids, kv)
  | g :: rest, gids, kv =>
      match clocks.lookup g with
      | none => uploadRaisedLoop db clocks rest gids kv
      | some c =>
          if g ∈ gids then uploadRaisedLoop db clocks rest gids kv
          else uploadRaisedLoop db clocks rest (gids ++ [g]) (uploadSeq db g c.seq kv)

/-- The last loop of `upload_raised_targets`: the round's list from entry `first` on. -/
def writeEntries (listDb : DbName) (roundNum : Nat) : Nat → List Gid → Kvdb → Kvdb
  | _, [], kv => kv
  | first, g :: rest, kv =>
      writeEntries listDb roundNum (first + 1) rest (kv.set listDb (.entry roundNum first) g)

/-- `upload_raised_targets`. The caller empties `raised_clocks`. -/
def uploadRaisedTargets (e : Attempt) (roundNum : Nat) (clocks : Clocks) (raised : List Gid) (kv : Kvdb) : Kvdb :=
  let (gids, kv) := uploadRaisedLoop ⟨.commSeqMax, e⟩ clocks raised [] kv
  let first := (kv ⟨.targetsRaised, e⟩ (.round roundNum)).getD 0
  let kv := kv.incrBy ⟨.targetsRaised, e⟩ (.round roundNum) gids.length
  writeEntries ⟨.raisedGids, e⟩ roundNum first gids kv

/-- The loop of `download_raised_targets` over the entries of the round's list.
`none`: an `ASSERT` on a request fails. -/
def downloadRaisedLoop (e : Attempt) (roundNum : Nat) (kv : Kvdb) :
    List Nat → List Gid → Clocks → Option Clocks
  | [], _, clocks => some clocks
  | i :: rest, downloaded, clocks =>
      match kv ⟨.raisedGids, e⟩ (.entry roundNum i) with
      | none => none
      | some g =>
          match clocks.lookup g with
          | none => downloadRaisedLoop e roundNum kv rest downloaded clocks
          | some c =>
              if g ∈ downloaded then downloadRaisedLoop e roundNum kv rest downloaded clocks
              else
                match kv ⟨.commSeqMax, e⟩ (.gid g) with
                | none => none
                | some maxSeq =>
                    downloadRaisedLoop e roundNum kv rest (g :: downloaded)
                      (clocks.insert g { c with target := maxSeq })

/-- `download_raised_targets`, less the step of `targets_version`. -/
def downloadRaisedTargets (e : Attempt) (roundNum raised : Nat) (kv : Kvdb) (clocks : Clocks) : Option Clocks :=
  if raised ≥ clocks.entries.length then some (downloadTargets ⟨.commSeqMax, e⟩ kv clocks)
  else downloadRaisedLoop e roundNum kv (List.range raised) [] clocks

/-! What the loops do to a lookup. -/

theorem uploadSeq_gid (db : DbName) (g g' : Gid) (seq : Nat) (kv : Kvdb) :
    uploadSeq db g seq kv db (.gid g') =
      if g' = g then some (max ((kv db (.gid g)).getD 0) seq) else kv db (.gid g') := by
  simp only [uploadSeq, Kvdb.max, Kvdb.set, true_and, Key.gid.injEq]

theorem uploadSeq_other (db db' : DbName) (g : Gid) (seq : Nat) (kv : Kvdb) (key : Key)
    (other : db' ≠ db) : uploadSeq db g seq kv db' key = kv db' key := by
  exact Kvdb.set_db_ne _ _ _ _ other

theorem uploadSeqNum_other (db db' : DbName) (clocks : Clocks) (kv : Kvdb) (key : Key)
    (other : db' ≠ db) : uploadSeqNum db clocks kv db' key = kv db' key := by
  unfold uploadSeqNum
  induction clocks.entries generalizing kv with
  | nil => rfl
  | cons e tail ih => rw [List.foldl_cons, ih, uploadSeq_other _ _ _ _ _ _ other]

def raisedGids (clocks : Clocks) (raised : List Gid) : List Gid :=
  (uploadRaisedLoop ⟨.commSeqMax, ⟨0, 0⟩⟩ clocks raised [] Kvdb.empty).1

theorem uploadRaisedLoop_fst (db db' : DbName) (clocks : Clocks) (raised gids : List Gid) (kv kv' : Kvdb) :
    (uploadRaisedLoop db clocks raised gids kv).1 = (uploadRaisedLoop db' clocks raised gids kv').1 := by
  induction raised generalizing gids kv kv' with
  | nil => rfl
  | cons g rest ih =>
    simp only [uploadRaisedLoop]
    cases clocks.lookup g with
    | none => exact ih ..
    | some c =>
      by_cases seen : g ∈ gids
      · simp only [if_pos seen]
        exact ih ..
      · simp only [if_neg seen]
        exact ih ..

theorem mem_uploadRaisedLoop (db : DbName) (clocks : Clocks) (raised gids : List Gid) (kv : Kvdb) (g : Gid) :
    g ∈ (uploadRaisedLoop db clocks raised gids kv).1 ↔ g ∈ gids ∨ (g ∈ raised ∧ g ∈ clocks) := by
  induction raised generalizing gids kv with
  | nil => simp [uploadRaisedLoop]
  | cons g' rest ih =>
    simp only [uploadRaisedLoop, List.mem_cons]
    cases found : clocks.lookup g' with
    | none =>
      have absent : g' ∉ clocks := AList.lookup_eq_none.mp found
      simp only [ih]
      grind
    | some c =>
      have present : g' ∈ clocks := Assoc.mem_of_lookup found
      by_cases seen : g' ∈ gids
      · simp only [if_pos seen, ih]
        grind
      · simp only [if_neg seen, ih, List.mem_append, List.mem_singleton]
        grind

theorem mem_raisedGids (clocks : Clocks) (raised : List Gid) (g : Gid) :
    g ∈ raisedGids clocks raised ↔ g ∈ raised ∧ g ∈ clocks := by
  simp [raisedGids, mem_uploadRaisedLoop]

theorem uploadRaisedLoop_gid (db : DbName) (clocks : Clocks) (raised gids : List Gid) (kv : Kvdb) (g : Gid) :
    (uploadRaisedLoop db clocks raised gids kv).2 db (.gid g) =
      match clocks.lookup g with
      | some c => if g ∈ raised ∧ g ∉ gids then some (max ((kv db (.gid g)).getD 0) c.seq) else kv db (.gid g)
      | none => kv db (.gid g) := by
  induction raised generalizing gids kv with
  | nil => cases clocks.lookup g <;> simp [uploadRaisedLoop]
  | cons g' rest ih =>
    simp only [uploadRaisedLoop]
    cases found : clocks.lookup g' with
    | none =>
      simp only [ih]
      cases own : clocks.lookup g with
      | none => rfl
      | some c =>
        have different : g ≠ g' := by
          rintro rfl
          simp [own] at found
        simp only [List.mem_cons, different, false_or]
    | some c' =>
      by_cases seen : g' ∈ gids
      · simp only [if_pos seen, ih]
        cases own : clocks.lookup g with
        | none => rfl
        | some c =>
          by_cases same : g = g'
          · subst same
            simp [seen]
          · simp only [List.mem_cons, same, false_or]
      · simp only [if_neg seen, ih, uploadSeq_gid]
        by_cases same : g = g'
        · subst same
          simp [found, seen]
        · cases own : clocks.lookup g with
          | none => simp [same]
          | some c => simp [same]

theorem uploadRaisedLoop_other (db db' : DbName) (clocks : Clocks) (raised gids : List Gid) (kv : Kvdb)
    (key : Key) (other : db' ≠ db) :
    (uploadRaisedLoop db clocks raised gids kv).2 db' key = kv db' key := by
  induction raised generalizing gids kv with
  | nil => rfl
  | cons g rest ih =>
    simp only [uploadRaisedLoop]
    cases clocks.lookup g with
    | none => exact ih ..
    | some c =>
      by_cases seen : g ∈ gids
      · simp only [if_pos seen]
        exact ih ..
      · simp only [if_neg seen, ih]
        exact uploadSeq_other _ _ _ _ _ _ other

theorem writeEntries_other (listDb db : DbName) (roundNum first : Nat) (gids : List Gid) (kv : Kvdb)
    (key : Key) (other : db ≠ listDb ∨ ∀ i, key ≠ .entry roundNum i) :
    writeEntries listDb roundNum first gids kv db key = kv db key := by
  induction gids generalizing first kv with
  | nil => rfl
  | cons g rest ih =>
    rw [writeEntries, ih]
    rcases other with otherDb | otherKey
    · exact Kvdb.set_db_ne _ _ _ _ otherDb
    · exact Kvdb.set_key_ne _ _ _ _ (otherKey first)

theorem writeEntries_entry (listDb : DbName) (roundNum roundNum' first i : Nat) (gids : List Gid) (kv : Kvdb) :
    writeEntries listDb roundNum first gids kv listDb (.entry roundNum' i) =
      if roundNum' = roundNum ∧ first ≤ i ∧ i < first + gids.length then gids[i - first]?
      else kv listDb (.entry roundNum' i) := by
  induction gids generalizing first kv with
  | nil =>
    simp only [writeEntries, List.length_nil]
    rw [if_neg (by omega)]
  | cons g rest ih =>
    rw [writeEntries, ih, List.length_cons]
    by_cases own : roundNum' = roundNum ∧ i = first
    · obtain ⟨rfl, rfl⟩ := own
      rw [if_neg (by omega), if_pos (by omega), Kvdb.set_same]
      simp
    · by_cases later : roundNum' = roundNum ∧ first + 1 ≤ i ∧ i < first + 1 + rest.length
      · rw [if_pos later, if_pos (by omega)]
        have split : i - first = (i - (first + 1)) + 1 := by omega
        rw [split, List.getElem?_cons_succ]
      · rw [if_neg later, if_neg (by omega), Kvdb.set_key_ne]
        simp only [ne_eq, Key.entry.injEq]
        exact own

section UploadRaised
variable (e : Attempt) (roundNum : Nat) (clocks : Clocks) (raised : List Gid) (kv : Kvdb)

theorem uploadRaisedTargets_seqMax (g : Gid) :
    uploadRaisedTargets e roundNum clocks raised kv ⟨.commSeqMax, e⟩ (.gid g) =
      (clocks.lookup g).elim (kv ⟨.commSeqMax, e⟩ (.gid g)) (fun c =>
        if g ∈ raised then some (max ((kv ⟨.commSeqMax, e⟩ (.gid g)).getD 0) c.seq)
        else kv ⟨.commSeqMax, e⟩ (.gid g)) := by
  simp only [uploadRaisedTargets, Kvdb.incrBy]
  rw [writeEntries_other _ _ _ _ _ _ _ (.inl (by simp)), Kvdb.set_db_ne _ _ _ _ (by simp), uploadRaisedLoop_gid]
  cases clocks.lookup g with
  | none => rfl
  | some c => simp

theorem uploadRaisedTargets_count :
    uploadRaisedTargets e roundNum clocks raised kv ⟨.targetsRaised, e⟩ (.round roundNum) =
      some ((kv ⟨.targetsRaised, e⟩ (.round roundNum)).getD 0 + (raisedGids clocks raised).length) := by
  simp only [uploadRaisedTargets, Kvdb.incrBy]
  rw [writeEntries_other _ _ _ _ _ _ _ (.inl (by simp)), Kvdb.set_same,
    uploadRaisedLoop_other _ _ _ _ _ _ _ (by simp), raisedGids, uploadRaisedLoop_fst]

theorem uploadRaisedTargets_entry (roundNum' i : Nat) :
    uploadRaisedTargets e roundNum clocks raised kv ⟨.raisedGids, e⟩ (.entry roundNum' i) =
      if roundNum' = roundNum ∧ (kv ⟨.targetsRaised, e⟩ (.round roundNum)).getD 0 ≤ i ∧
          i < (kv ⟨.targetsRaised, e⟩ (.round roundNum)).getD 0 + (raisedGids clocks raised).length then
        (raisedGids clocks raised)[i - (kv ⟨.targetsRaised, e⟩ (.round roundNum)).getD 0]?
      else kv ⟨.raisedGids, e⟩ (.entry roundNum' i) := by
  have gids := uploadRaisedLoop_fst ⟨.commSeqMax, e⟩ ⟨.commSeqMax, ⟨0, 0⟩⟩ clocks raised [] kv Kvdb.empty
  simp only [uploadRaisedTargets, Kvdb.incrBy]
  rw [writeEntries_entry, uploadRaisedLoop_other _ _ _ _ _ _ _ (by simp), gids,
    Kvdb.set_db_ne _ _ _ _ (by simp), uploadRaisedLoop_other _ _ _ _ _ _ _ (by simp)]
  rfl

theorem uploadRaisedTargets_other (db : DbName) (key : Key)
    (other : db.attempt ≠ e ∨ db.what = .converge ∨ db.what = .criticalSection ∨
      (db.what = .targetsRaised ∧ key ≠ .round roundNum) ∨
      (db.what = .raisedGids ∧ ∀ i, key ≠ .entry roundNum i)) :
    uploadRaisedTargets e roundNum clocks raised kv db key = kv db key := by
  have notList : db ≠ ⟨.raisedGids, e⟩ ∨ ∀ i, key ≠ .entry roundNum i := by grind
  have notMax : db ≠ ⟨.commSeqMax, e⟩ := by grind
  have notCount : db ≠ ⟨.targetsRaised, e⟩ ∨ key ≠ .round roundNum := by grind
  simp only [uploadRaisedTargets, Kvdb.incrBy]
  rw [writeEntries_other _ _ _ _ _ _ _ notList]
  rcases notCount with otherDb | otherKey
  · rw [Kvdb.set_db_ne _ _ _ _ otherDb, uploadRaisedLoop_other _ _ _ _ _ _ _ notMax]
  · rw [Kvdb.set_key_ne _ _ _ _ otherKey, uploadRaisedLoop_other _ _ _ _ _ _ _ notMax]

end UploadRaised

section DownloadRaised
variable (e : Attempt) (roundNum : Nat) (kv : Kvdb)

theorem mem_downloadRaisedLoop (entries : List Nat) (downloaded : List Gid) (clocks after : Clocks)
    (done : downloadRaisedLoop e roundNum kv entries downloaded clocks = some after) (g : Gid) :
    g ∈ after ↔ g ∈ clocks := by
  fun_induction downloadRaisedLoop e roundNum kv entries downloaded clocks with
  | case1 =>
    cases done
    rfl
  | case2 | case5 => cases done
  | case3 _ _ _ _ _ _ _ ih | case4 _ _ _ _ _ _ _ _ _ ih => exact ih done
  | case6 _ _ _ _ _ _ c held _ _ _ ih =>
    rw [ih done, AList.mem_insert, or_iff_right_of_imp]
    rintro rfl
    exact Assoc.mem_of_lookup held

theorem downloadRaisedLoop_isSome (entries : List Nat) (downloaded : List Gid) (clocks : Clocks)
    (complete : ∀ i ∈ entries, ∃ g m, kv ⟨.raisedGids, e⟩ (.entry roundNum i) = some g ∧
      kv ⟨.commSeqMax, e⟩ (.gid g) = some m) :
    (downloadRaisedLoop e roundNum kv entries downloaded clocks).isSome := by
  induction entries generalizing downloaded clocks with
  | nil => rfl
  | cons i rest ih =>
    obtain ⟨g, m, entry, maxSeq⟩ := complete i (List.mem_cons_self ..)
    have tail := fun j member => complete j (List.mem_cons_of_mem i member)
    simp only [downloadRaisedLoop, entry]
    cases clocks.lookup g with
    | none => exact ih _ _ tail
    | some c =>
      by_cases seen : g ∈ downloaded
      · simp only [if_pos seen]
        exact ih _ _ tail
      · simp only [if_neg seen, maxSeq]
        exact ih _ _ tail

variable {e roundNum kv}

theorem downloadRaisedTargets_isSome {raised : Nat} (clocks : Clocks)
    (complete : ∀ i < raised, ∃ g m, kv ⟨.raisedGids, e⟩ (.entry roundNum i) = some g ∧
      kv ⟨.commSeqMax, e⟩ (.gid g) = some m) :
    (downloadRaisedTargets e roundNum raised kv clocks).isSome := by
  unfold downloadRaisedTargets
  split
  · rfl
  · apply downloadRaisedLoop_isSome
    intro i member
    exact complete i (List.mem_range.mp member)

theorem mem_downloadRaisedTargets {raised : Nat} {clocks after : Clocks}
    (done : downloadRaisedTargets e roundNum raised kv clocks = some after) (g : Gid) : g ∈ after ↔ g ∈ clocks := by
  unfold downloadRaisedTargets at done
  split at done
  · cases done
    exact Assoc.mem_mapVal ..
  · exact mem_downloadRaisedLoop _ _ _ _ _ _ _ done g

end DownloadRaised

end Mana.Collective
