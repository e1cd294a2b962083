import Mana.Attr.Values
import Mana.Collective.Drain
import Mana.VirtId.Rank

/-! `PMPI_Comm_free` on a predefined communicator, which the lower half refuses: what the wrapper has done to
the attributes and the Collective Clocks by then. -/

namespace Mana.VirtId
open Mana.Lib Mana.Collective Option

/-- The predefined communicators of a rank; the two that are not null have a descriptor. -/
structure PredefinedComms extends Attr.Config where
  worldGid : Gid
  selfGid : Gid
  size : Gid → Nat
  worldNotNull : world ≠ null

def PredefinedComms.gid (comms : PredefinedComms) (comm : Handle) : Option Gid :=
  if comm = comms.self then some comms.selfGid
  else if comm = comms.world then some comms.worldGid
  else none

/-- What the calls read and write: the variables of the attributes, and the process with its clocks. -/
structure CommCaller where
  keyvals : Attr.Store Nat
  proc : Proc

/-- What a call returns: the error of a callback, or the one of the lower half. -/
inductive CommCode where
  | callback (code : Int)
  | lowerHalf (code : Int)
  deriving DecidableEq, Repr

namespace CommCaller

variable (comms : PredefinedComms) (s : CommCaller)

/-- `commit_begin`. `none`: the caller waits in `wait_while_targets_reached`. -/
def commitBegin (comm : Handle) : Option CommCaller :=
  if comm = comms.null then some s
  else if s.proc.mustWait then none
  else
    (s.proc.enter comms.size (((comms.gid comm).map fun g => .counted g false).getD .uncounted)).map fun proc =>
      { s with proc := proc }

def commitFinish : CommCaller := { s with proc := { s.proc with currentPhase := .isReady, app := .finishRead } }

/-- `PMPI_Comm_free` on a predefined communicator, whose handle has no entry in the table; `deletes` is what the
delete callbacks do, and the lower half's `MPI_Comm_free` returns the error `code`. -/
def pmpiCommFree (comm : Handle) (deletes : Int → Attr.Answer Nat) (code : Int) : Option (CommCaller × CommCode) :=
  let (error, keyvals) :=
    Attr.Store.deleteAttributes comms.toConfig comm deletes (s.keyvals.keyvalsOf comm) s.keyvals
  if error ≠ 0 then some ({ s with keyvals := keyvals }, .callback error)
  else (commitBegin comms { s with keyvals := keyvals } comm).map fun s => (s.commitFinish, .lowerHalf code)

end CommCaller

/-- What a failed call should leave: the keyvals with their attributes, `selfKeyvals` and the sequence numbers as
they were. -/
structure SameComms (s s' : CommCaller) : Prop where
  tupleMap : s'.keyvals.tupleMap = s.keyvals.tupleMap
  keyvalVec : s'.keyvals.keyvalVec = s.keyvals.keyvalVec
  selfKeyvals : s'.keyvals.selfKeyvals = s.keyvals.selfKeyvals
  seqs : ∀ g, (s'.proc.clocks.lookup g).map (·.seq) = (s.proc.clocks.lookup g).map (·.seq)

/-- The loop of `PMPI_Comm_free` over all the attributes leaves them as they were only if there are none. -/
theorem keyvalsOf_eq_nil {cfg : Attr.Config} {comm : Handle} {deletes : Int → Attr.Answer Nat} {keyvals : Attr.Store Nat}
    (succeeded : (Attr.Store.deleteAttributes cfg comm deletes (keyvals.keyvalsOf comm) keyvals).1 = 0)
    (same : (Attr.Store.deleteAttributes cfg comm deletes (keyvals.keyvalsOf comm) keyvals).2.tupleMap =
      keyvals.tupleMap) : keyvals.keyvalsOf comm = [] := by
  obtain ⟨done, -, all, attr⟩ :=
    Attr.Store.deleteAttributes_attr deletes (keyvals.keyvalsOf comm) keyvals
  refine List.eq_nil_iff_forall_not_mem.mpr fun keyval listed => ?_
  have gone := attr comm keyval
  rw [if_pos ⟨rfl, all succeeded ▸ listed⟩, Attr.Store.attr, same] at gone
  obtain ⟨-, isSome⟩ := List.mem_filter.mp listed
  rw [Attr.Store.stored_eq_attr, isSome_map, Attr.Store.attr, gone] at isSome
  cases isSome

section Failed

variable {comms : PredefinedComms} {s s' : CommCaller} {comm : Handle} {code : Int}
  {deletes : Int → Attr.Answer Nat}

theorem CommCaller.commitBegin_counted {g : Gid} (notNull : comm ≠ comms.null) (isGid : comms.gid comm = some g)
    (begun : s.commitBegin comms comm = some s') : ∃ clock, s.proc.clocks.lookup g = some clock ∧
      (s'.proc.clocks.lookup g).map (·.seq) = some (clock.seq + 1) := by
  simp only [CommCaller.commitBegin, notNull, if_false, isGid, map_some, getD_some] at begun
  obtain ⟨-, begun⟩ := ite_none_left_eq_some.mp begun
  obtain ⟨proc, entered, rfl⟩ := map_eq_some_iff.mp begun
  unfold Proc.enter at entered
  split at entered
  · next isUncounted => cases isUncounted
  · next isCounted =>
    cases isCounted
    split at entered
    · cases entered
    · next clock found =>
      cases entered
      refine ⟨clock, found, ?_⟩
      rw [AList.lookup_insert, map_some, CommClock.count]

/-- `MPI_Comm_free` of a predefined communicator, which the lower half refuses, leaves everything as it was exactly if
the communicator is the null one and has no attribute. -/
theorem failed_comm_free_changes_nothing_iff
    (predefined : comm = comms.world ∨ comm = comms.self ∨ comm = comms.null)
    (failed : s.pmpiCommFree comms comm deletes code = some (s', .lowerHalf code)) :
    SameComms s s' ↔ comm = comms.null ∧ s.keyvals.keyvalsOf comm = [] := by
  obtain ⟨succeeded, failed⟩ : (Attr.Store.deleteAttributes comms.toConfig comm deletes (s.keyvals.keyvalsOf comm)
      s.keyvals).1 = 0 ∧ _ := by
    unfold CommCaller.pmpiCommFree at failed
    dsimp only at failed
    split_ifs at failed with errs
    · exact nomatch congrArg Prod.snd (some.inj failed)
    · exact ⟨not_not.mp errs, failed⟩
  obtain ⟨begun, isBegun, same⟩ := map_eq_some_iff.mp failed
  obtain rfl : begun.commitFinish = s' := congrArg Prod.fst same
  by_cases isNull : comm = comms.null
  · rw [CommCaller.commitBegin, if_pos isNull] at isBegun
    cases isBegun
    refine ⟨fun same => ⟨isNull, keyvalsOf_eq_nil succeeded same.tupleMap⟩, fun ⟨_, isNil⟩ => ?_⟩
    refine ⟨?_, ?_, ?_, fun _ => rfl⟩ <;> simp only [CommCaller.commitFinish, isNil, Attr.Store.deleteAttributes]
  · refine iff_of_false (fun same => ?_) fun isNull' => isNull isNull'.1
    obtain ⟨g, isGid⟩ : ∃ g, comms.gid comm = some g := by
      unfold PredefinedComms.gid
      split_ifs with isSelf isWorld
      · exact ⟨_, rfl⟩
      · exact ⟨_, rfl⟩
      · exact absurd predefined (by simp [isWorld, isSelf, isNull])
    obtain ⟨clock, found, counted⟩ := CommCaller.commitBegin_counted isNull isGid isBegun
    have kept := same.seqs g
    rw [show begun.commitFinish.proc.clocks = begun.proc.clocks from rfl, counted,
      show s.proc.clocks.lookup g = some clock from found, map_some, some.injEq] at kept
    omega

end Failed

def twoRankComms : PredefinedComms where
  toConfig := mpichComms
  worldGid := 1
  selfGid := 2
  size := fun g => if g = 1 then 2 else 1
  worldNotNull := by decide

/-- After a keyval is created, set on `MPI_COMM_SELF` and freed. -/
def selfAttribute : CommCaller where
  keyvals :=
    let keyvals := Attr.Store.empty.keyvalOp mpichComms (.create none none 0)
    (keyvals.setAttr mpichComms 0x44000001 0 5 ⟨[], 0, 0, false⟩).2.keyvalOp mpichComms (.free 0)
  proc := .initial (AList.insert 1 ⟨0, 0⟩ (AList.insert 2 ⟨0, 0⟩ ∅))

/-- The call of the program, without delete callbacks; the lower half returns `MPI_ERR_COMM`. -/
def selfAttributeFree (comm : Handle) : Option (CommCaller × CommCode) :=
  selfAttribute.pmpiCommFree twoRankComms comm (fun _ => ⟨[], 0, 0, false⟩) 5

theorem failed_comm_free_changes_nothing_iff_null :
    ∃ s', selfAttributeFree 0x04000000 = some (s', .lowerHalf 5) ∧
      (SameComms selfAttribute s' ↔
        0x04000000 = twoRankComms.null ∧ selfAttribute.keyvals.keyvalsOf 0x04000000 = []) := by
  have ran : (selfAttributeFree 0x04000000).map Prod.snd = some (.lowerHalf 5) := by decide +kernel
  obtain ⟨⟨s', outcome⟩, ran, rfl⟩ := map_eq_some_iff.mp ran
  exact ⟨s', ran, failed_comm_free_changes_nothing_iff (.inr (.inr rfl)) ran⟩

/-- The call on `MPI_COMM_WORLD` counts a collective. The one on `MPI_COMM_SELF` counts one too and deletes the
attribute with its keyval, which `selfKeyvals` still names: `MPI_Finalize` succeeds before it and fails after it. -/
theorem failed_comm_free_counted :
    (selfAttributeFree 0x44000000).map (fun p => ((p.1.proc.clocks.lookup 1).map (·.seq), p.2)) =
        some (some 1, .lowerHalf 5) ∧
      (selfAttribute.proc.clocks.lookup 1).map (·.seq) = some 0 ∧
      (selfAttributeFree 0x44000001).map (fun p =>
          ((p.1.keyvals.stored 0x44000001 0).map (·.value), p.1.keyvals.selfKeyvals,
            (p.1.keyvals.deleteSelfAttributes mpichComms (fun _ => ⟨[], 0, 0, false⟩) 1).1)) =
        some (none, [0], 48) ∧
      (selfAttribute.keyvals.stored 0x44000001 0).map (·.value) = some 5 ∧
      (selfAttribute.keyvals.deleteSelfAttributes mpichComms (fun _ => ⟨[], 0, 0, false⟩) 1).1 = 0 := by
  decide +kernel

end Mana.VirtId
