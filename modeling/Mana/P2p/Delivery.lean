import Mana.P2p.RecvBuffer

/-! A receive that MANA serves from its buffer, next to the one that the lower half serves: the
size arithmetic in `int`, and what the application gets from either. -/

namespace Mana.P2p
open Mana.Lib Option

variable {n : Nat}

section Elements

def msgSize (typeSize count : Nat) : Int := toInt32 (typeSize * count)

/-- The elements that `consumeMatchingMsgBuffer` unpacks from a message of `found` bytes. -/
def elementsToUnpack (count : Nat) (size : Int) (found : Nat) : Nat :=
  let typeSize := if count > 0 then size.tdiv count else 0
  let elements := if typeSize > 0 then (found : Int).tdiv typeSize else 0
  (min elements count).toNat

theorem unpackedElements_eq (call : RecvCall n) (found : Nat) :
    unpackedElements call found = elementsToUnpack call.count (msgSize call.datatype.size call.count) found := rfl

theorem toInt32_of_lt {value : Nat} (fits : value < 2147483648) : toInt32 value = value :=
  Int.bmod_eq_of_le (by omega) (by omega)

theorem toInt32_le_of_ge {value : Nat} (large : 2147483648 ≤ value) : toInt32 value ≤ value - 4294967296 := by
  have upper : toInt32 value < 2147483648 := by
    have := Int.bmod_lt (x := value) (m := 4294967296) (by decide)
    simpa [toInt32] using this
  obtain ⟨k, multiple⟩ : (4294967296 : Int) ∣ value - toInt32 value := Int.dvd_self_sub_bmod
  omega

theorem elementsToUnpack_of_fits {count typeSize : Nat} (fits : count * typeSize < 2147483648) (found : Nat) :
    elementsToUnpack count (msgSize typeSize count) found =
      if typeSize = 0 then 0 else min count (found / typeSize) := by
  have product : msgSize typeSize count = (typeSize * count : Nat) := by
    rw [msgSize, ← Int.natCast_mul]
    exact toInt32_of_lt (by rwa [Nat.mul_comm])
  rcases Nat.eq_zero_or_pos count with rfl | positive
  · simp [elementsToUnpack]
  · have quotient : (msgSize typeSize count).tdiv count = typeSize := by
      rw [product, Int.natCast_mul, Int.mul_tdiv_cancel _ (by omega)]
    simp only [elementsToUnpack, quotient, positive, if_true]
    rcases Nat.eq_zero_or_pos typeSize with rfl | sized
    · simp
    · have whole : (found : Int).tdiv typeSize = (found / typeSize : Nat) := by
        rw [Int.tdiv_eq_ediv_of_nonneg (by omega)]
        rfl
      rw [if_pos (by omega), whole, if_neg (by omega)]
      rcases Nat.le_total count (found / typeSize) with less | more
      · rw [min_eq_right (by omega), Int.toNat_natCast, Nat.min_eq_left less]
      · rw [min_eq_left (by omega), Int.toNat_natCast, Nat.min_eq_right more]

/-- With a product past the range of an `int`, some message is unpacked wrongly: one of one element
gets lost, or a shorter one counts as an element. -/
theorem exists_elementsToUnpack_ne {count typeSize : Nat} (sizeFits : typeSize < 2147483648)
    (large : 2147483648 ≤ count * typeSize) :
    ∃ found < 2147483648, elementsToUnpack count (msgSize typeSize count) found ≠ min count (found / typeSize) := by
  have positive : 0 < count := Nat.pos_of_ne_zero fun none => by simp [none] at large
  have sized : 0 < typeSize := Nat.pos_of_ne_zero fun none => by simp [none] at large
  have lost : msgSize typeSize count ≤ typeSize * count - 4294967296 := by
    rw [Nat.mul_comm] at large
    simpa [msgSize] using toInt32_le_of_ge large
  by_cases sign : (msgSize typeSize count).tdiv count ≤ 0
  · refine ⟨typeSize, sizeFits, ?_⟩
    simp only [elementsToUnpack, positive, if_true, if_neg (Int.not_lt.mpr sign), Nat.div_self sized]
    rw [min_eq_left (by omega), Nat.min_eq_right positive]
    decide
  · obtain ⟨part, isPart⟩ := Int.eq_ofNat_of_zero_le (show 0 ≤ (msgSize typeSize count).tdiv count by omega)
    have below : part < typeSize := by
      have rounded := Int.tdiv_mul_le (msgSize typeSize count) (b := count) (by omega)
      have oneEach : count ≤ typeSize * count := Nat.le_mul_of_pos_left count sized
      have short : (part : Int) * count < typeSize * count := by
        rw [isPart] at rounded
        split_ifs at rounded <;> omega
      exact Int.ofNat_lt.mp (Int.lt_of_mul_lt_mul_right short (by omega))
    refine ⟨part, by omega, ?_⟩
    have one : (part : Int).tdiv part = 1 := Int.tdiv_self (by omega)
    simp only [elementsToUnpack, positive, if_true, isPart, one, if_pos (show (part : Int) > 0 by omega),
      Nat.div_eq_of_lt below]
    rw [min_eq_left (by omega), Nat.min_eq_right (Nat.zero_le _)]
    decide

/-- The arithmetic unpacks the whole elements of every message, up to `count`, exactly if the size of
the receive is in the range of an `int`. -/
theorem unpacks_whole_elements_iff (count : Nat) {typeSize : Nat} (sizeFits : typeSize < 2147483648) :
    (∀ found < 2147483648, elementsToUnpack count (msgSize typeSize count) found =
        if typeSize = 0 then 0 else min count (found / typeSize)) ↔
      count * typeSize < 2147483648 := by
  constructor
  · intro unpacked
    by_contra large
    have sized : typeSize ≠ 0 := fun none => by simp [none] at large
    obtain ⟨found, inRange, wrong⟩ := exists_elementsToUnpack_ne sizeFits (Nat.le_of_not_lt large)
    exact wrong (by rw [unpacked found inRange, if_neg sized])
  · intro fits found _
    exact elementsToUnpack_of_fits fits found

theorem unpacks_whole_elements_iff_small :
    (∀ found < 2147483648, elementsToUnpack 3 (msgSize 4 3) found = if 4 = 0 then 0 else min 3 (found / 4)) ↔
      3 * 4 < 2147483648 :=
  unpacks_whole_elements_iff 3 (by decide)

/-- A receive of 2^16 elements of 2^15 bytes: the product is -2^31, and a message of one element leaves
MANA's buffer with nothing unpacked. -/
theorem unpacks_nothing_of_overflow :
    elementsToUnpack 65536 (msgSize 32768 65536) 32768 = 0 ∧ min 65536 (32768 / 32768) = 1 := by
  decide +kernel

end Elements

structure RecvStatus where
  source : Int
  tag : Int
  bytes : Nat
  deriving DecidableEq, Repr

structure Incoming where
  source : Int
  tag : Int
  data : List UInt8
  deriving DecidableEq, Repr

def Incoming.status (m : Incoming) : RecvStatus := ⟨m.source, m.tag, m.data.length⟩

inductive RecvCode where
  | success
  | truncate
  deriving DecidableEq, Repr

structure Delivered where
  memory : Memory
  status : RecvStatus
  code : RecvCode

/-- A receive in the lower half. MPI does not say what a truncated one writes: `cut`. -/
def lowerHalfRecv (cut : Memory × RecvStatus) (call : RecvCall n) (mem : Memory) (m : Incoming) : Delivered :=
  if m.data.length ≤ call.count * call.datatype.size then
    { memory := scatter call.positions m.data mem, status := m.status, code := .success }
  else { memory := cut.1, status := cut.2, code := .truncate }

/-- `mpi_message_t`, after the fields that only find it. -/
structure BufferedMessage where
  status : RecvStatus
  buf : List UInt8
  deriving DecidableEq, Repr

/-- `recvMsgIntoInternalBuffer`. Past the range of an `int`, `MPI_Get_count` gives `MPI_UNDEFINED`,
which is negative; the lower half refuses it, and the assertion on its result fails. -/
def recvMsgIntoInternalBuffer (m : Incoming) : Option BufferedMessage :=
  if m.data.length < 2147483648 then some { status := m.status, buf := m.data } else none

def consumeMatchingMsgBuffer (call : RecvCall n) (mem : Memory) (found : BufferedMessage) :
    Option (Memory × RecvStatus) :=
  (receive call mem (.buffered found.buf)).map fun mem => (mem, found.status)

inductive Origin where
  | lowerHalf (m : Incoming)
  | buffer (found : BufferedMessage)
  deriving DecidableEq, Repr

section Receives

variable (cut : Memory × RecvStatus) (call : RecvCall n) (mem : Memory)

def recvBlocking : Origin → Option Delivered
  | .lowerHalf m => some (lowerHalfRecv cut call mem m)
  | .buffer found => (consumeMatchingMsgBuffer call mem found).map fun (mem, status) => ⟨mem, status, .success⟩

inductive RecvRequest where
  | completed (status : RecvStatus)
  | posted (m : Incoming)
  deriving DecidableEq, Repr

def mpiIrecvInternal : Origin → Option (Memory × RecvRequest)
  | .lowerHalf m => some (mem, .posted m)
  | .buffer found => (consumeMatchingMsgBuffer call mem found).map fun (mem, status) => (mem, .completed status)

def pmpiWait : RecvRequest → Delivered
  | .completed status => ⟨mem, status, .success⟩
  | .posted m => lowerHalfRecv cut call mem m

/-- `PMPI_Irecv` and then `PMPI_Wait`; also `recv_by_polling`, which is `PMPI_Recv` with
`MANA_P2P_WAIT=polling`. -/
def irecvThenWait (origin : Origin) : Option Delivered :=
  (mpiIrecvInternal call mem origin).map fun (mem, request) => pmpiWait cut call mem request

end Receives

/-- The receives give the application the same from MANA's buffer, after a checkpoint drained the
message, as from the lower half. -/
def SameDelivery (call : RecvCall n) (m : Incoming) : Prop :=
  ∀ cut mem,
    ((recvMsgIntoInternalBuffer m).bind fun found => recvBlocking cut call mem (.buffer found)) =
        recvBlocking cut call mem (.lowerHalf m) ∧
      ((recvMsgIntoInternalBuffer m).bind fun found => irecvThenWait cut call mem (.buffer found)) =
        irecvThenWait cut call mem (.lowerHalf m)

theorem length_positions (call : RecvCall n) : call.positions.length = call.count * call.datatype.size := by
  simp [RecvCall.positions, Datatype.positions, Datatype.size, List.length_flatMap]

def RecvCall.wholeBytes (call : RecvCall n) (found : Nat) : Nat :=
  min call.count (found / call.datatype.size) * call.datatype.size

theorem wholeBytes_le (call : RecvCall n) (found : Nat) : call.wholeBytes found ≤ found :=
  calc call.wholeBytes found
    _ ≤ found / call.datatype.size * call.datatype.size := Nat.mul_le_mul_right _ (Nat.min_le_right ..)
    _ ≤ found := Nat.div_mul_le_self ..

theorem wholeBytes_eq_iff (call : RecvCall n) (found : Nat) :
    call.wholeBytes found = found ↔ call.datatype.size ∣ found ∧ found ≤ call.count * call.datatype.size := by
  constructor
  · intro whole
    constructor
    · exact ⟨_, by rw [Nat.mul_comm]; exact whole.symm⟩
    · rw [← whole]
      exact Nat.mul_le_mul_right _ (Nat.min_le_left ..)
  · rintro ⟨⟨k, rfl⟩, bounded⟩
    rcases Nat.eq_zero_or_pos call.datatype.size with none | sized
    · simp [RecvCall.wholeBytes, none]
    · rw [Nat.mul_comm call.count, Nat.mul_le_mul_left_iff sized] at bounded
      rw [RecvCall.wholeBytes, Nat.mul_div_cancel_left _ sized, Nat.min_eq_right bounded, Nat.mul_comm]

theorem consume_eq {call : RecvCall n} (fits : call.count * call.datatype.size < 2147483648) (mem : Memory)
    (found : BufferedMessage) :
    consumeMatchingMsgBuffer call mem found =
      some (scatter call.positions (found.buf.take (call.wholeBytes found.buf.length)) mem, found.status) := by
  have bytes : unpackedElements call found.buf.length * call.datatype.size = call.wholeBytes found.buf.length := by
    rw [unpackedElements_eq, elementsToUnpack_of_fits fits]
    split_ifs with none
    · simp [RecvCall.wholeBytes, none]
    · rfl
  rw [consumeMatchingMsgBuffer, receive]
  simp only [bytes, if_neg (Nat.not_lt.mpr (wholeBytes_le call _)), map_some]

/-- Bytes 1 that arrive on a memory of zeros show how far the buffered message was unpacked. -/
theorem wholeBytes_of_scatter_eq {call : RecvCall n} {bytes : Nat} (bounded : bytes ≤ call.positions.length)
    (same : scatter call.positions (List.replicate (call.wholeBytes bytes) 1) (fun _ => 0) =
      scatter call.positions (List.replicate bytes (1 : UInt8)) (fun _ => 0)) :
    call.wholeBytes bytes = bytes := by
  by_contra partly
  have short : call.wholeBytes bytes < bytes := lt_of_le_of_ne (wholeBytes_le call bytes) partly
  have inside : call.wholeBytes bytes < call.positions.length := by omega
  have distinct : call.positions.Nodup := call.distinct
  have part := (mem_take_and_notMem_take distinct).mpr
    ⟨call.wholeBytes bytes, le_rfl, short, List.getElem?_eq_getElem inside⟩
  have there := congrFun same call.positions[call.wholeBytes bytes]
  rw [scatter_replicate_of_mem part.1, scatter_of_notMem (by rw [List.length_replicate]; exact part.2)] at there
  exact absurd there (by decide)

/-- A message of `bytes` bytes always gives the same exactly if it is a whole number of elements and
not longer than the receive. -/
theorem sameDelivery_iff (call : RecvCall n) (fits : call.count * call.datatype.size < 2147483648) (bytes : Nat) :
    (∀ m : Incoming, m.data.length = bytes → SameDelivery call m) ↔
      call.datatype.size ∣ bytes ∧ bytes ≤ call.count * call.datatype.size := by
  rw [← wholeBytes_eq_iff]
  constructor
  · intro same
    let m : Incoming := { source := 0, tag := 0, data := List.replicate bytes 1 }
    have blocking := (same m (by simp [m]) (fun _ => 0, m.status) fun _ => 0).1
    simp only [recvMsgIntoInternalBuffer, recvBlocking, lowerHalfRecv, m, List.length_replicate] at blocking
    by_cases small : bytes < 2147483648
    · rw [if_pos small, bind_some, consume_eq fits, map_some] at blocking
      by_cases bounded : bytes ≤ call.count * call.datatype.size
      · rw [if_pos bounded] at blocking
        have memories := congrArg Delivered.memory (some.inj blocking)
        rw [← length_positions] at bounded
        apply wholeBytes_of_scatter_eq bounded
        simpa [List.take_replicate, Nat.min_eq_left (wholeBytes_le call bytes)] using memories
      · rw [if_neg bounded] at blocking
        cases congrArg Delivered.code (some.inj blocking)
    · rw [if_neg small] at blocking
      exact absurd blocking (by simp)
  · rintro whole m rfl cut mem
    obtain ⟨-, bounded⟩ := (wholeBytes_eq_iff call _).mp whole
    have small : m.data.length < 2147483648 := by omega
    simp [recvMsgIntoInternalBuffer, small, recvBlocking, irecvThenWait, mpiIrecvInternal, pmpiWait, lowerHalfRecv,
      consume_eq fits, bounded, whole]

/-- `twoBytes` is a receive of two elements of one byte. -/
theorem sameDelivery_iff_two_bytes :
    twoBytes.count * twoBytes.datatype.size < 2147483648 ∧
      ((∀ m : Incoming, m.data.length = 1 → SameDelivery twoBytes m) ↔
        twoBytes.datatype.size ∣ 1 ∧ 1 ≤ twoBytes.count * twoBytes.datatype.size) :=
  ⟨by decide, sameDelivery_iff twoBytes (by decide) 1⟩

def oneShort : RecvCall 2 where
  buf := 0
  count := 1
  datatype := { extent := 2, displacements := [0, 1] }
  pattern := { comm := 0, source := .any, tag := some 0 }
  distinct := by decide

/-- One byte for a receive of one element of two bytes: the lower half writes it, MANA's buffer drops it.
Three bytes: the lower half reports the truncation, MANA's buffer returns success. -/
theorem buffered_delivery_differs :
    (((recvMsgIntoInternalBuffer ⟨0, 0, [5]⟩).bind fun found =>
          recvBlocking (fun _ => 0, ⟨0, 0, 2⟩) oneShort (fun _ => 0) (.buffer found)).map fun d => d.memory 0) = some 0 ∧
      ((recvBlocking (fun _ => 0, ⟨0, 0, 2⟩) oneShort (fun _ => 0) (.lowerHalf ⟨0, 0, [5]⟩)).map fun d => d.memory 0) =
        some 5 ∧
      (((recvMsgIntoInternalBuffer ⟨0, 0, [5, 6, 7]⟩).bind fun found =>
          irecvThenWait (fun _ => 0, ⟨0, 0, 2⟩) oneShort (fun _ => 0) (.buffer found)).map fun d => d.code) =
        some .success ∧
      ((irecvThenWait (fun _ => 0, ⟨0, 0, 2⟩) oneShort (fun _ => 0) (.lowerHalf ⟨0, 0, [5, 6, 7]⟩)).map fun d => d.code) =
        some .truncate := by
  decide +kernel

end Mana.P2p
