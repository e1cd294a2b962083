import Mana.Lib.Machine
import Mathlib.Logic.Function.Basic

/-! The gate of the lower half: the threads that enter and leave it, and the checkpoint thread that
closes it and waits until no thread is inside. Each access to a variable that another thread writes
is one step; the steps of all threads interleave in any order. -/

namespace Mana.LowerHalf
open Mana.Lib

/-- Where a thread is: in its program (in a section or not), in `register_lower_half_thread`, in
`lower_half_disable_ckpt`, in `wait_until_lower_half_open`, or in `unregister_lower_half_thread`. -/
inductive Pc where
  | run
  | lockToLink | link | unlockLinked
  | storeDepth | loadClosed
  | slowPath | loopClosed | stepOut | sleep | stepIn
  | lockToUnlink | unlink | unlockUnlinked
  deriving DecidableEq, Repr

/-- A `LowerHalfThread` and where the thread is. The code does not have the last three: the number of
sections that the thread is in past their entry checks; how often the lower half had been closed when the
thread passed the entry check of the outermost one; whether the thread was inside a marked blocking call
at some moment since the lower half was closed last. -/
structure Thread where
  depth : Nat
  inBlockingCall : Bool
  registered : Bool
  pc : Pc
  past : Nat
  entered : Nat
  marked : Bool
  deriving DecidableEq, Repr

inductive Holder (ι : Type) where
  | thread (i : ι)
  | walker
  deriving DecidableEq

/-- Where the checkpoint thread is in `close_lower_half_and_wait` or
`allow_threads_to_enter_lower_half`. `walk` holds the threads that it has still to look at; the list does
not change under the lock. In `testBlocked` it has read a `depth` above 0 and goes on to read
`in_blocking_call`. -/
inductive CkptPc (ι : Type) where
  | idle
  | storeClosed (skipBlocked : Bool)
  | membarrier (skipBlocked : Bool)
  | lock (skipBlocked : Bool)
  | walk (skipBlocked : Bool) (rest : List ι)
  | testBlocked (rest : List ι)
  | storeOpen
  deriving DecidableEq

/-- The variables. The code does not have the last three: how often the lower half has been closed,
and whether `wait_for_threads_to_leave_lower_half` or `wait_for_unblocked_threads_to_leave_lower_half` has
returned since the last `allow_threads_to_enter_lower_half`. -/
structure Gate (ι : Type) where
  thread : ι → Thread
  threads : List ι
  threadsLock : Option (Holder ι)
  closed : Bool
  closingThread : Option ι
  ckpt : CkptPc ι
  closings : Nat
  emptied : Bool
  parted : Bool

/-- What a thread does next in its program; `step` is the next access of the function that it is in. -/
inductive ThreadAction where
  | enter | leave | blockingCallBegin | blockingCallEnd | exit | step
  deriving DecidableEq, Repr

inductive GateAction (ι : Type) where
  | thread (i : ι) (action : ThreadAction)
  | close (skipBlocked : Bool)
  | allow
  | ckpt

section Steps

variable {ι : Type}

def Gate.setThread [DecidableEq ι] (s : Gate ι) (i : ι) (th : Thread) : Gate ι :=
  { s with thread := Function.update s.thread i th }

def Thread.pass (th : Thread) (closings : Nat) : Thread :=
  { th with pc := .run, past := th.past + 1, entered := if th.past = 0 then closings else th.entered }

variable [DecidableEq ι] (s : Gate ι) (i : ι)

def Gate.threadStep : Option (Gate ι) :=
  let th := s.thread i
  match th.pc with
  | .run => none
  -- register_lower_half_thread
  | .lockToLink =>
    if s.threadsLock.isNone then some { s.setThread i { th with pc := .link } with threadsLock := some (.thread i) }
    else none
  | .link =>
    some { s.setThread i { th with registered := true, pc := .unlockLinked } with threads := i :: s.threads }
  | .unlockLinked => some { s.setThread i { th with pc := .storeDepth } with threadsLock := none }
  -- lower_half_disable_ckpt
  | .storeDepth => some (s.setThread i { th with depth := th.depth + 1, pc := .loadClosed })
  | .loadClosed =>
    some (s.setThread i (if s.closed then { th with pc := .slowPath } else th.pass s.closings))
  -- wait_until_lower_half_open
  | .slowPath =>
    some (s.setThread i
      (if 1 < th.depth ∨ s.closingThread = some i then th.pass s.closings else { th with pc := .loopClosed }))
  | .loopClosed =>
    some (s.setThread i (if s.closed then { th with pc := .stepOut } else th.pass s.closings))
  | .stepOut => some (s.setThread i { th with depth := 0, pc := .sleep })
  | .sleep => some (s.setThread i { th with pc := if s.closed then .sleep else .stepIn })
  | .stepIn => some (s.setThread i { th with depth := 1, pc := .loopClosed })
  -- unregister_lower_half_thread
  | .lockToUnlink =>
    if s.threadsLock.isNone then some { s.setThread i { th with pc := .unlink } with threadsLock := some (.thread i) }
    else none
  | .unlink =>
    some { s.setThread i { th with registered := false, pc := .unlockUnlinked } with
      threads := s.threads.filter fun j => j ≠ i }
  | .unlockUnlinked => some { s.setThread i { th with pc := .run } with threadsLock := none }

/-- A step of a thread. Sections nest, a blocking call is marked inside a section and ends there, and
a thread that exits is in no section. -/
def Gate.threadAction (action : ThreadAction) : Option (Gate ι) :=
  let th := s.thread i
  match action with
  | .step => s.threadStep i
  | .enter =>
    if th.pc = .run then some (s.setThread i { th with pc := if th.registered then .storeDepth else .lockToLink })
    else none
  | .leave =>
    if th.pc = .run ∧ 0 < th.past ∧ (1 < th.past ∨ th.inBlockingCall = false) then
      some (s.setThread i { th with depth := th.depth - 1, past := th.past - 1 })
    else none
  | .blockingCallBegin =>
    if th.pc = .run ∧ 0 < th.past then some (s.setThread i { th with inBlockingCall := true, marked := true }) else none
  | .blockingCallEnd =>
    if th.pc = .run ∧ th.inBlockingCall = true then some (s.setThread i { th with inBlockingCall := false }) else none
  | .exit =>
    if th.pc = .run ∧ th.past = 0 then
      some (s.setThread i { th with pc := if th.registered then .lockToUnlink else .run })
    else none

/-- `lower_half_closed = true`. The lower half is closed by the first such store after it was open. -/
def Gate.storeClosed (skipBlocked : Bool) : Gate ι :=
  if s.closed then { s with ckpt := .membarrier skipBlocked }
  else
    { s with
      closed := true
      ckpt := .membarrier skipBlocked
      thread := fun i => { s.thread i with marked := (s.thread i).inBlockingCall }
      closings := s.closings + 1 }

def Gate.ckptStep (me : ι) : Option (Gate ι) :=
  match s.ckpt with
  | .idle => none
  | .storeClosed skipBlocked => some (s.storeClosed skipBlocked)
  | .membarrier skipBlocked => some { s with ckpt := .lock skipBlocked }
  | .lock skipBlocked =>
    if s.threadsLock.isNone then some { s with threadsLock := some .walker, ckpt := .walk skipBlocked s.threads } else none
  | .walk skipBlocked (t :: rest) =>
    if t = me ∨ (s.thread t).depth = 0 then some { s with ckpt := .walk skipBlocked rest }
    else if skipBlocked then some { s with ckpt := .testBlocked (t :: rest) }
    else some s
  | .testBlocked (t :: rest) =>
    some { s with ckpt := .walk true (if (s.thread t).inBlockingCall then rest else t :: rest) }
  | .walk skipBlocked [] =>
    some { s with
      threadsLock := none
      ckpt := .idle
      emptied := s.emptied || !skipBlocked
      parted := s.parted || skipBlocked }
  | .testBlocked [] => none
  | .storeOpen => some { s with closed := false, ckpt := .idle }

def Gate.step (me : ι) : GateAction ι → Option (Gate ι)
  -- The checkpoint thread may call the wrappers itself, outside of the functions.
  | .thread i action => if i = me ∧ s.ckpt ≠ .idle then none else s.threadAction i action
  | .close skipBlocked =>
    if s.ckpt = .idle then some { s with closingThread := some me, ckpt := .storeClosed skipBlocked } else none
  | .allow =>
    if s.ckpt = .idle then
      some { s with closingThread := none, ckpt := .storeOpen, emptied := false, parted := false }
    else none
  | .ckpt => s.ckptStep me

end Steps

def Thread.initial : Thread where
  depth := 0
  inBlockingCall := false
  registered := false
  pc := .run
  past := 0
  entered := 0
  marked := false

def Gate.initial (ι : Type) : Gate ι where
  thread := fun _ => .initial
  threads := []
  threadsLock := none
  closed := false
  closingThread := none
  ckpt := .idle
  closings := 0
  emptied := false
  parted := false

def gateMachine {ι : Type} [DecidableEq ι] (me : ι) : Machine (Gate ι) (GateAction ι) where
  initial s := s = .initial ι
  step s := s.step me

end Mana.LowerHalf
