import Mana.Lib.Assoc
import Mana.Lib.Machine
import Mana.VirtId.Shape
import Mana.VirtId.Desc

/-! The files of MPI-IO on one rank: the wrappers with `g_params_map`, what `save_mpi_files` writes at a
checkpoint, and what `restore_mpi_files` makes of it. -/

namespace Mana.VirtId
open Mana.Lib Option Function

structure FileView where
  disp : Int
  etype : Handle
  filetype : Handle
  datarep : String
  info : Handle
  deriving DecidableEq, Repr

structure RealFile where
  path : String
  mode : Int
  view : Option FileView
  atomicity : Bool
  position : Int
  deriving DecidableEq, Repr

def RealFile.fresh (path : String) (mode : Int) : RealFile where
  path := path
  mode := mode
  view := none
  atomicity := false
  position := 0

structure OpenFileParameters where
  comm : Handle
  mode : Int
  info : Handle
  filepath : String
  atomicity : Bool
  size : Int
  viewDisp : Int
  viewEType : Handle
  viewFType : Handle
  viewInfo : Handle
  viewSet : Bool
  datarep : String
  offset : Int
  deriving DecidableEq, Repr

namespace OpenFileParameters

def zero : OpenFileParameters where
  comm := 0
  mode := 0
  info := 0
  filepath := ""
  atomicity := false
  size := 0
  viewDisp := 0
  viewEType := 0
  viewFType := 0
  viewInfo := 0
  viewSet := false
  datarep := ""
  offset := 0

def view (p : OpenFileParameters) : Option FileView :=
  if p.viewSet then some ⟨p.viewDisp, p.viewEType, p.viewFType, p.datarep, p.viewInfo⟩ else none

end OpenFileParameters

/-- The state of a rank. `params` is `g_params_map`, `lower` has the open files of the lower half, `sizes` the sizes of
the files on the disk, and `saved` is the file that `save_mpi_files` writes. No wrapper reads `opened`: the
handles that `MPI_File_open` has returned and the application has not closed. -/
structure Files where
  table : Table Desc
  params : Assoc Handle OpenFileParameters
  lower : Handle → Option RealFile
  sizes : String → Int
  saved : Option (List (Sigma fun _ : Handle => OpenFileParameters))
  opened : List Handle

namespace Files

variable (up : UpperHalf) (s : Files)

/-- `get_real_id` on a file; `none`: it hangs on a handle that is none of MANA's. -/
def realFile (fh : Handle) : Option Handle := (s.table.lookupVirtIdEntry up.wide fh).map (·.real)

def file (fh : Handle) : Option RealFile := (s.realFile up fh).bind s.lower

def onFile (fh : Handle) (change : RealFile → RealFile) : Option Files :=
  (s.realFile up fh).bind fun real =>
    (s.lower real).map fun f => { s with lower := update s.lower real (some (change f)) }

/-- `PMPI_File_open`, when the lower half returns `real`; `params` is the local variable before its assignments. -/
def fileOpen (comm : Handle) (path : String) (mode : Int) (info real : Handle) (params : OpenFileParameters) :
    Option Files :=
  if s.lower real = none then
    -- Both calls of new_virt_file() are in the source.
    (s.table.addVirtId .file real none).bind fun (virtFile, t) =>
      (t.addVirtId .file real none).map fun (fh, t) =>
        { s with
          table := t
          lower := update s.lower real (some (.fresh path mode))
          params := s.params.insert virtFile
            { params with mode := mode, comm := comm, info := info, filepath := path, viewSet := false }
          opened := fh :: s.opened }
  else none

def fileSetView (fh : Handle) (view : FileView) : Option Files :=
  (s.onFile up fh fun f => { f with view := some view, position := 0 }).map fun s =>
    let params := (s.params.lookup fh).getD .zero
    { s with params := s.params.insert fh { params with viewSet := true, viewInfo := view.info } }

def fileSeek (fh : Handle) (position : Int) : Option Files := s.onFile up fh fun f => { f with position := position }

def fileSetAtomicity (fh : Handle) (flag : Bool) : Option Files := s.onFile up fh fun f => { f with atomicity := flag }

def fileSetSize (fh : Handle) (size : Int) : Option Files :=
  (s.file up fh).map fun f => { s with sizes := update s.sizes f.path size }

/-- `PMPI_File_write`, with the position and the size of the file after it. -/
def fileWrite (fh : Handle) (position size : Int) : Option Files :=
  (s.fileSetSize up fh size).bind fun s => s.fileSeek up fh position

/-- `PMPI_File_close`. The virtual handle is not freed. -/
def fileClose (fh : Handle) : Option Files :=
  (s.realFile up fh).bind fun real =>
    (s.lower real).map fun _ =>
      { s with
        lower := update s.lower real none
        params := s.params.erase fh
        opened := s.opened.erase fh }

/-- The body of the loop in `save_mpi_files`, up to its writes. The calls write nothing if the file is closed, and
`PMPI_File_get_view` writes nothing at all. -/
def saveEntry (fh : Handle) (p : OpenFileParameters) : OpenFileParameters :=
  match s.file up fh with
  | some f => { p with offset := f.position, atomicity := f.atomicity, size := s.sizes f.path }
  | none => p

def saveMpiFiles : Files :=
  if s.params.entries.isEmpty then s
  else
    let params := s.params.mapVal (s.saveEntry up)
    { s with params := params, saved := some params.entries }

/-- The body of the second loop in `restore_mpi_files`. The calls after the open get the real handle. -/
def restoreFile (reals : Handle → Handle) (s : Files) (e : Sigma fun _ : Handle => OpenFileParameters) : Option Files :=
  let real := reals e.1
  (s.table.updateVirtId up.wide e.1 real).bind fun t =>
    (fileSetAtomicity up { s with
        table := t, lower := update s.lower real (some (.fresh e.2.filepath e.2.mode)) } real e.2.atomicity).bind
      fun s => (s.fileSetSize up real e.2.size).bind fun s =>
        (match e.2.view with
          | some view => s.fileSetView up real view
          | none => some s).bind fun s => s.fileSeek up real e.2.offset

/-- A restart into a lower half that has no open files and returns `reals` for the files it opens, with
`restore_mpi_files`. The first loop inserts the last entry twice. -/
def restart (reals : Handle → Handle) (sizes : String → Int) : Option Files :=
  let s := { s with lower := fun _ => none, sizes := sizes }
  match s.saved with
  | none => some s
  | some entries =>
    let params := entries.foldl (fun m e => m.insert e.1 e.2) (∅ : Assoc Handle OpenFileParameters)
    params.entries.foldlM (restoreFile up reals) { s with params := params }

end Files

/-- The calls of the application that succeed, checkpoints, and restarts from a checkpoint at that point; the disk
may have changed since the checkpoint. -/
inductive FileAction where
  | openFile (comm : Handle) (path : String) (mode : Int) (info real : Handle) (params : OpenFileParameters)
  | setView (fh : Handle) (view : FileView)
  | seek (fh : Handle) (position : Int)
  | setSize (fh : Handle) (size : Int)
  | setAtomicity (fh : Handle) (flag : Bool)
  | write (fh : Handle) (position size : Int)
  | close (fh : Handle)
  | checkpoint
  | restart (reals : Handle → Handle) (sizes : String → Int)

def FileAction.isOpen : FileAction → Bool
  | .openFile _ _ _ _ _ _ => true
  | _ => false

def Files.step (up : UpperHalf) (s : Files) : FileAction → Option Files
  | .openFile comm path mode info real params => s.fileOpen comm path mode info real params
  | .setView fh view => if fh ∈ s.opened then s.fileSetView up fh view else none
  | .seek fh position => if fh ∈ s.opened then s.fileSeek up fh position else none
  | .setSize fh size => if fh ∈ s.opened then s.fileSetSize up fh size else none
  | .setAtomicity fh flag => if fh ∈ s.opened then s.fileSetAtomicity up fh flag else none
  | .write fh position size => if fh ∈ s.opened then s.fileWrite up fh position size else none
  | .close fh => if fh ∈ s.opened then s.fileClose up fh else none
  | .checkpoint => some (s.saveMpiFiles up)
  | .restart reals sizes => (s.saveMpiFiles up).restart up reals sizes

def Files.initial (up : UpperHalf) (sizes : String → Int) : Files where
  table := .initial up.wide up.constants
  params := ∅
  lower := fun _ => none
  sizes := sizes
  saved := none
  opened := []

def fileMachine (up : UpperHalf) : Machine Files FileAction where
  initial s := ∃ sizes, s = .initial up sizes
  step := Files.step up

/-- What `g_params_map` and the restart should give. -/
structure FilesKept (up : UpperHalf) (s : Files) : Prop where
  keys : ∀ fh, fh ∈ s.params ↔ fh ∈ s.opened
  entries : ∀ fh ∈ s.opened, ∀ f, s.file up fh = some f →
    ∃ p, s.params.lookup fh = some p ∧ p.filepath = f.path ∧ p.mode = f.mode ∧ p.view = f.view
  restarts : ∀ reals sizes, Injective reals → ∃ s', (s.saveMpiFiles up).restart up reals sizes = some s' ∧
    (∀ fh ∈ s.opened, s'.file up fh = s.file up fh) ∧
    ∀ real f, s'.lower real = some f → ∃ fh ∈ s.opened, s'.realFile up fh = some real

section Runs

variable {up : UpperHalf} {s s' : Files}

structure NoFiles (up : UpperHalf) (s : Files) : Prop where
  table : s.table = .initial up.wide up.constants
  params : s.params = ∅
  lower : s.lower = fun _ => none
  saved : s.saved = none
  opened : s.opened = []

theorem NoFiles.save (noFiles : NoFiles up s) : s.saveMpiFiles up = s := by
  rw [Files.saveMpiFiles, noFiles.params]
  rfl

theorem NoFiles.restart (noFiles : NoFiles up s) (reals : Handle → Handle) (sizes : String → Int) :
    s.restart up reals sizes = some { s with lower := fun _ => none, sizes := sizes } := by
  simp only [Files.restart, noFiles.saved]

theorem NoFiles.kept (noFiles : NoFiles up s) : FilesKept up s where
  keys := by simp [noFiles.params, noFiles.opened]
  entries := by simp [noFiles.opened]
  restarts := by
    intro reals sizes _
    refine ⟨{ s with lower := fun _ => none, sizes := sizes }, ?_, ?_, ?_⟩
    · rw [noFiles.save]
      exact noFiles.restart reals sizes
    · simp [noFiles.opened]
    · intro real f isFile
      cases isFile

variable {action : FileAction} {actions : List FileAction}

theorem NoFiles.step (noFiles : NoFiles up s) (notOpen : action.isOpen = false) (taken : s.step up action = some s') :
    NoFiles up s' := by
  cases action with
  | openFile comm path mode info real params => cases notOpen
  | checkpoint =>
    cases taken
    rw [noFiles.save]
    exact noFiles
  | restart reals sizes =>
    rw [Files.step, noFiles.save, noFiles.restart] at taken
    cases taken
    exact ⟨noFiles.table, noFiles.params, rfl, noFiles.saved, noFiles.opened⟩
  | setView | seek | setSize | setAtomicity | write | close => simp [Files.step, noFiles.opened] at taken

theorem NoFiles.run (noFiles : NoFiles up s) (notOpen : ∀ a ∈ actions, a.isOpen = false)
    (ran : (fileMachine up).run s actions = some s') : NoFiles up s' := by
  induction actions generalizing s with
  | nil =>
    cases ran
    exact noFiles
  | cons a rest ih =>
    obtain ⟨s₁, taken, ran⟩ := bind_eq_some_iff.mp ran
    exact ih (noFiles.step (notOpen a List.mem_cons_self) taken)
      (fun b member => notOpen b (List.mem_cons_of_mem _ member)) ran

/-- The first open puts one virtual handle into the map and returns another. -/
theorem NoFiles.open_not_kept (noFiles : NoFiles up s) (isOpen : action.isOpen = true)
    (taken : s.step up action = some s') : ¬ FilesKept up s' := by
  cases action with
  | openFile comm path mode info real params =>
    obtain ⟨-, taken⟩ := ite_none_right_eq_some.mp taken
    obtain ⟨⟨virtFile, t₁⟩, first, taken⟩ := bind_eq_some_iff.mp taken
    obtain ⟨⟨fh, t₂⟩, second, rfl⟩ := map_eq_some_iff.mp taken
    have wellFormed : s.table.WellFormed := by
      rw [noFiles.table]
      exact .initial up.wide up.constants
    have firstAdds := wellFormed.addVirtId first
    have secondAdds := firstAdds.wellFormed.addVirtId second
    intro kept
    have isKey : virtFile ∈ s.params.insert virtFile
        { params with mode := mode, comm := comm, info := info, filepath := path, viewSet := false } :=
      AList.mem_insert _ |>.mpr (.inl rfl)
    have isOpened := (kept.keys virtFile).mp isKey
    rw [noFiles.opened, List.mem_singleton] at isOpened
    obtain ⟨e, found, -⟩ := firstAdds.entry
    exact nomatch (isOpened ▸ secondAdds.fresh).symm.trans found
  | _ => cases isOpen

theorem NoFiles.run_not_kept (noFiles : NoFiles up s) (ran : ((fileMachine up).run s actions).isSome = true)
    {a : FileAction} (member : a ∈ actions) (isOpen : a.isOpen = true) :
    ∃ k s', (fileMachine up).run s (actions.take k) = some s' ∧ ¬ FilesKept up s' := by
  induction actions generalizing s with
  | nil => cases member
  | cons b rest ih =>
    obtain ⟨last, ran⟩ := isSome_iff_exists.mp ran
    obtain ⟨s₁, taken, ran⟩ := bind_eq_some_iff.mp ran
    by_cases opens : b.isOpen = true
    · refine ⟨1, s₁, ?_, noFiles.open_not_kept opens taken⟩
      simp only [List.take_succ_cons, List.take_zero, Machine.run, taken, bind_some]
    · have later : a ∈ rest := (List.mem_cons.mp member).resolve_left fun same => opens (same ▸ isOpen)
      obtain ⟨k, s', ran', notKept⟩ := ih (noFiles.step (by simpa using opens) taken) (ran ▸ rfl) later
      refine ⟨k + 1, s', ?_, notKept⟩
      simp only [List.take_succ_cons, Machine.run, taken, bind_some, ran']

/-- The files are kept in every state of a run exactly if it opens no file. -/
theorem files_kept_iff_no_open (sizes : String → Int) (actions : List FileAction)
    (ran : ((fileMachine up).run (.initial up sizes) actions).isSome = true) :
    (∀ k s, (fileMachine up).run (.initial up sizes) (actions.take k) = some s → FilesKept up s) ↔
      ∀ a ∈ actions, a.isOpen = false := by
  have first : NoFiles up (.initial up sizes) := ⟨rfl, rfl, rfl, rfl, rfl⟩
  constructor
  · intro kept a member
    by_contra opens
    obtain ⟨k, s, ran', notKept⟩ := first.run_not_kept ran member (by simpa using opens)
    exact notKept (kept k s ran')
  · intro notOpen k s ran
    exact (first.run (fun a member => notOpen a (List.mem_of_mem_take member)) ran).kept

end Runs

def wideUpper : UpperHalf where
  wide := true
  constants := []
  fits := nofun

/-- A run without files, and one that opens a file and closes it. -/
theorem files_kept_iff_no_open_checkpoint :
    (∀ k s, (fileMachine wideUpper).run (.initial wideUpper fun _ => 0) ([FileAction.checkpoint].take k) = some s →
        FilesKept wideUpper s) ∧
      ¬ ∀ k s, (fileMachine wideUpper).run (.initial wideUpper fun _ => 0)
          ([FileAction.openFile 0x44000000 "data" 2 0 0x7f0000001000 .zero, .close 0x60000001].take k) = some s →
        FilesKept wideUpper s := by
  refine ⟨(files_kept_iff_no_open (fun _ => 0) [.checkpoint] rfl).mpr (by decide), fun kept => ?_⟩
  have noOpen := (files_kept_iff_no_open (fun _ => 0) _ (by decide +kernel)).mp kept
  exact Bool.false_ne_true (noOpen _ List.mem_cons_self).symm

/-- A file is opened: the map has a handle that the application does not know, and the restart from a checkpoint hangs
on the real handle of the file. The file is closed before the checkpoint: the map still has the entry. -/
theorem opened_file_not_kept :
    ((fileMachine wideUpper).run (.initial wideUpper fun _ => 0)
        [.openFile 0x44000000 "data" 2 0 0x7f0000001000 .zero]).map (fun s =>
          (s.params.keys, s.opened, ((s.saveMpiFiles wideUpper).restart wideUpper (fun _ => 0x7f0000002000) s.sizes).isSome)) =
        some ([0x60000000], [0x60000001], false) ∧
      ((fileMachine wideUpper).run (.initial wideUpper fun _ => 0)
        [.openFile 0x44000000 "data" 2 0 0x7f0000001000 .zero, .close 0x60000001]).map (fun s =>
          (s.params.keys, s.opened)) = some ([0x60000000], []) := by
  decide +kernel

end Mana.VirtId
