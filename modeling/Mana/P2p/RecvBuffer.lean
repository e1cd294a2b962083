import Mana.Lib.Scatter
import Mana.P2p.Envelope
import Mathlib.Algebra.Order.Group.Unbundled.Int

/-! What `PMPI_Recv` with `MANA_P2P_WAIT=blocking` does to the application's memory: each
checkpoint that finds it blocked lets it receive a dummy before it tries again. -/

namespace Mana.P2p
open Mana.Lib Mana.Collective Option

variable {n : Nat}

abbrev Memory := Int → UInt8

/-- A datatype of MPI: the extent of an element and the displacements of its bytes, in the
order in which MPI packs them. -/
structure Datatype where
  extent : Int
  displacements : List Int
  deriving DecidableEq, Repr

def Datatype.size (t : Datatype) : Nat := t.displacements.length

def Datatype.positions (t : Datatype) (buf : Int) (count : Nat) : List Int :=
  (List.range count).flatMap fun k => t.displacements.map fun d => buf + k * t.extent + d

/-- The arguments of an `MPI_Recv` whose source is not `MPI_PROC_NULL`. MPI forbids a receive
buffer in which two bytes of the data have the same address. -/
structure RecvCall (n : Nat) where
  buf : Int
  count : Nat
  datatype : Datatype
  pattern : Pattern n
  distinct : (datatype.positions buf count).Nodup

namespace RecvCall

def positions (call : RecvCall n) : List Int := call.datatype.positions call.buf call.count

def pendingRecv (call : RecvCall n) : PendingRecv n :=
  { call.pattern with count := call.count, typeSize := call.datatype.size }

end RecvCall

/-- The conversion of an `int64_t` to `int`, modulo 2^32. -/
def toInt32 (value : Int) : Int := value.bmod 4294967296

/-- The bytes that `sendPostedDummies` sends for a record: `(int)bytes` bytes of a buffer
from `calloc`. MPI refuses a negative count, and the assertion on its result fails. -/
def PostedDummy.data (d : PostedDummy n) : Option (List UInt8) :=
  if toInt32 d.bytes < 0 then none else some (List.replicate (toInt32 d.bytes).toNat 0)

/-- Why a pass through the retry loop of `PMPI_Recv` ends without a message: the slot was
`CLOSED`, or a dummy came, whose sender is chosen with the bitmap of that checkpoint. -/
inductive Retry (n : Nat) where
  | closed
  | dummy (blocked : Fin n → Bool)

def Retry.isDummy : Retry n → Bool
  | .closed => false
  | .dummy _ => true

/-- The real message, from the lower half or, drained by a checkpoint, from MANA's buffer. -/
inductive Message where
  | lowerHalf (data : List UInt8)
  | buffered (data : List UInt8)
  deriving DecidableEq, Repr

def Message.data : Message → List UInt8
  | .lowerHalf data | .buffered data => data

/-- The elements that `consumeMatchingMsgBuffer` unpacks. The caller computes
`msg_size = type_size * count` in `int`. -/
def unpackedElements (call : RecvCall n) (size : Nat) : Nat :=
  let msgSize := toInt32 (call.datatype.size * call.count)
  let typeSize := if call.count > 0 then msgSize.tdiv call.count else 0
  let elements := if typeSize > 0 then (size : Int).tdiv typeSize else 0
  (min elements call.count).toNat

/-- The last pass through `PMPI_Recv`. `MPI_Unpack` fails if the elements are more than the
message holds, and the assertion on its result fails. -/
def receive (call : RecvCall n) (mem : Memory) : Message → Option Memory
  | .lowerHalf data => some (scatter call.positions data mem)
  | .buffered data =>
    let bytes := unpackedElements call data.length * call.datatype.size
    if data.length < bytes then none else some (scatter call.positions (data.take bytes) mem)

/-- `PMPI_Recv` on rank `me` with the retries that checkpoints make it do. `none`: an
assertion failed. -/
def pmpiRecv (members : Gid → List (Fin n)) (me : Fin n) (call : RecvCall n) (message : Message) :
    List (Retry n) → Memory → Option Memory
  | [], mem => receive call mem message
  | .closed :: retries, mem => pmpiRecv members me call message retries mem
  | .dummy blocked :: retries, mem => do
    let (_, posted) ← postDummy members blocked me call.pendingRecv
    let data ← posted.data
    -- The lower half writes the dummy to the application's buffer.
    pmpiRecv members me call message retries (scatter call.positions data mem)

def RecvCall.dummyLength (call : RecvCall n) : Nat :=
  (toInt32 (call.datatype.size * call.count : Nat)).toNat

def RecvCall.zeroed (call : RecvCall n) (dummies : Bool) (mem : Memory) : Memory :=
  fun a => if dummies = true ∧ a ∈ call.positions.take call.dummyLength then 0 else mem a

@[simp] theorem zeroed_false (call : RecvCall n) (mem : Memory) : call.zeroed false mem = mem := by
  funext a
  simp [RecvCall.zeroed]

variable {members : Gid → List (Fin n)} {me : Fin n} {call : RecvCall n} {message : Message} {mem after : Memory}

theorem dummy_data {blocked : Fin n → Bool} {sender : Fin n} {posted : PostedDummy n} {data : List UInt8}
    (made : postDummy members blocked me call.pendingRecv = some (sender, posted)) (sent : posted.data = some data) :
    data = List.replicate call.dummyLength 0 := by
  obtain ⟨chosen, isChosen, same⟩ := map_eq_some_iff.mp made
  cases same
  simp only [PostedDummy.data, ite_none_left_eq_some, some.injEq] at sent
  exact sent.2.symm

theorem scatter_dummy (call : RecvCall n) (mem : Memory) :
    scatter call.positions (List.replicate call.dummyLength 0) mem = call.zeroed true mem := by
  funext a
  by_cases covered : a ∈ call.positions.take call.dummyLength
  · simp [RecvCall.zeroed, covered, scatter_replicate_of_mem covered]
  · rw [scatter_of_notMem (by rwa [List.length_replicate])]
    simp [RecvCall.zeroed, covered]

theorem zeroed_zeroed (call : RecvCall n) (later : Bool) (mem : Memory) :
    call.zeroed later (call.zeroed true mem) = call.zeroed true mem := by
  funext a
  by_cases covered : a ∈ call.positions.take call.dummyLength <;> simp [RecvCall.zeroed, covered]

theorem pmpiRecv_eq {retries : List (Retry n)} (returned : pmpiRecv members me call message retries mem = some after) :
    receive call (call.zeroed (retries.any Retry.isDummy) mem) message = some after := by
  induction retries generalizing mem with
  | nil => simpa [pmpiRecv] using returned
  | cons retry rest ih =>
    cases retry with
    | closed => exact ih returned
    | dummy blocked =>
      obtain ⟨⟨sender, posted⟩, made, returned⟩ := bind_eq_some_iff.mp returned
      obtain ⟨data, sent, returned⟩ := bind_eq_some_iff.mp returned
      rw [dummy_data made sent, scatter_dummy] at returned
      have later := ih returned
      rw [zeroed_zeroed] at later
      simpa [Retry.isDummy] using later

theorem receive_of_notMem {a : Int} (received : receive call mem message = some after)
    (outside : a ∉ call.positions.take message.data.length) : after a = mem a := by
  cases message with
  | lowerHalf data =>
    cases received
    exact scatter_of_notMem outside
  | buffered data =>
    simp only [receive, ite_none_left_eq_some, some.injEq] at received
    rw [← received.2]
    refine scatter_of_notMem fun covered => outside ?_
    exact List.take_subset_take_left _ (by simp [Message.data]) covered

/-- When `PMPI_Recv` returns, the bytes that the message does not cover are as they were when
the application called it exactly if no dummy came or the dummy's part of them was zero. -/
theorem recv_keeps_rest_iff (members : Gid → List (Fin n)) (me : Fin n) (call : RecvCall n)
    (message : Message) (retries : List (Retry n)) (mem after : Memory)
    (returned : pmpiRecv members me call message retries mem = some after) :
    (∀ a, a ∉ call.positions.take message.data.length → after a = mem a) ↔
      (∀ retry ∈ retries, retry.isDummy = false) ∨
      ∀ j a, message.data.length ≤ j → j < call.dummyLength → call.positions[j]? = some a → mem a = 0 := by
  have received := pmpiRecv_eq returned
  cases dummies : retries.any Retry.isDummy with
  | false =>
    rw [dummies] at received
    have none : ∀ retry ∈ retries, retry.isDummy = false := by simpa using dummies
    refine iff_of_true (fun a outside => ?_) (.inl none)
    simpa using receive_of_notMem received outside
  | true =>
    rw [dummies] at received
    have some : ¬ ∀ retry ∈ retries, retry.isDummy = false := by simpa using dummies
    simp only [some, false_or]
    constructor
    · intro kept j a late below entry
      have part := (mem_take_and_notMem_take call.distinct).mpr ⟨j, late, below, entry⟩
      have zero := receive_of_notMem received part.2
      rw [kept a part.2] at zero
      rw [zero, RecvCall.zeroed, if_pos ⟨rfl, part.1⟩]
    · intro zeros a outside
      rw [receive_of_notMem received outside, RecvCall.zeroed]
      split_ifs with covered
      · obtain ⟨j, late, below, entry⟩ := (mem_take_and_notMem_take call.distinct).mp ⟨covered.2, outside⟩
        exact (zeros j a late below entry).symm
      · rfl

def twoBytes : RecvCall 2 where
  buf := 0
  count := 2
  datatype := { extent := 1, displacements := [0] }
  pattern := { comm := 0, source := .any, tag := some 0 }
  distinct := by decide

def afterDummy : Memory :=
  scatter twoBytes.positions [5] (scatter twoBytes.positions [0, 0] (fun _ => 7))

theorem pmpiRecv_afterDummy :
    pmpiRecv (fun _ => [0, 1]) 1 twoBytes (.lowerHalf [5]) [.dummy (fun r => r == 1)] (fun _ => 7) =
      some afterDummy := by
  have posted : postDummy (fun _ => [0, 1]) (fun r => r == 1) 1 twoBytes.pendingRecv =
      some (0, { commGid := 0, dest := 1, tag := 0, bytes := 2 }) := by decide
  have sent : ({ commGid := 0, dest := 1, tag := 0, bytes := 2 } : PostedDummy 2).data = some [0, 0] := by
    decide +kernel
  simp only [pmpiRecv, posted, sent, bind_eq_bind, bind_some, receive, afterDummy]

theorem recv_keeps_rest_iff_two_bytes :
    (∀ a, a ∉ twoBytes.positions.take 1 → afterDummy a = 7) ↔
      (∀ retry ∈ [Retry.dummy (fun r : Fin 2 => r == 1)], retry.isDummy = false) ∨
      ∀ j a, 1 ≤ j → j < twoBytes.dummyLength → twoBytes.positions[j]? = some a → (7 : UInt8) = 0 :=
  recv_keeps_rest_iff (fun _ => [0, 1]) 1 twoBytes (.lowerHalf [5]) [.dummy (fun r => r == 1)] (fun _ => 7)
    afterDummy pmpiRecv_afterDummy

/-- One checkpoint while rank 1 is blocked, then a message of one byte: the second byte of the
buffer was 7 and is 0. -/
theorem recv_loses_rest :
    pmpiRecv (fun _ => [0, 1]) 1 twoBytes (.lowerHalf [5]) [.dummy (fun r => r == 1)] (fun _ => 7) =
        some afterDummy ∧
      (1 : Int) ∉ twoBytes.positions.take 1 ∧ afterDummy 1 = 0 := by
  exact ⟨pmpiRecv_afterDummy, by decide, by decide⟩

end Mana.P2p
