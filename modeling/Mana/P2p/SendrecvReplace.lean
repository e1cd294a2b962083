import Mana.P2p.Delivery
import Mathlib.Data.Finset.Order
import Mathlib.Data.Int.Interval
import Mathlib.Order.Interval.Finset.Basic

/-! `PMPI_Sendrecv_replace` receives to a temporary buffer and copies that buffer, byte by byte, over the
application's. -/

namespace Mana.P2p
open Mana.Lib Option Function

variable {n : Nat}

section Replace

def Incoming.procNull : Incoming := ⟨-1, -1, []⟩

def Origin.data : Origin → List UInt8
  | .lowerHalf m => m.data
  | .buffer found => found.buf

def Origin.status : Origin → RecvStatus
  | .lowerHalf m => m.status
  | .buffer found => found.status

def RecvCall.offsets (call : RecvCall n) : List Int := call.datatype.positions 0 call.count

theorem Datatype.positions_eq (t : Datatype) (buf : Int) (count : Nat) :
    t.positions buf count = (t.positions 0 count).map (buf + ·) := by
  simp only [Datatype.positions, List.map_flatMap, List.map_map]
  congr 1
  funext k
  congr 1
  funext d
  simp only [Function.comp_apply]
  omega

theorem RecvCall.positions_eq (call : RecvCall n) : call.positions = call.offsets.map (call.buf + ·) :=
  call.datatype.positions_eq call.buf call.count

theorem RecvCall.offsets_nodup (call : RecvCall n) : call.offsets.Nodup := by
  have distinct := call.distinct
  rw [Datatype.positions_eq] at distinct
  exact distinct.of_map

def RecvCall.moved (call : RecvCall n) (buf : Int) : RecvCall n :=
  { call with
    buf
    distinct := by
      rw [Datatype.positions_eq]
      exact call.offsets_nodup.map fun _ _ same => Int.add_left_cancel same }

def RecvCall.tmpSize (call : RecvCall n) : Int := msgSize call.datatype.size call.count

def memcpy (mem : Memory) (dest src size : Int) : Memory :=
  fun a => if dest ≤ a ∧ a < dest + size then mem (src + (a - dest)) else mem a

/-- What the call returns: the error of `MPI_Irecv_internal` or `MPI_Isend_internal`, or what the receive delivered. -/
inductive Replaced where
  | refused
  | done (delivered : Delivered)

def receiveToTmp (cut : Memory × RecvStatus) (call : RecvCall n) (tmp : Int) (mem : Memory) (origin : Origin) :
    Option Delivered :=
  irecvThenWait cut (call.moved tmp) mem origin

/-- `malloc` gives a buffer at `tmp`; it has none of a size that is negative as an `int`, and then the copy ends the
process. -/
def pmpiSendrecvReplace (cut : Memory × RecvStatus) (accepted : Bool) (call : RecvCall n) (tmp : Int) (mem : Memory)
    (origin : Origin) : Option Replaced :=
  if accepted then
    if 0 ≤ call.tmpSize then
      (receiveToTmp cut call tmp mem origin).map fun received =>
        .done { received with memory := memcpy received.memory call.buf tmp call.tmpSize }
    else none
  else some .refused

/-- The temporary buffer is not part of the application's. -/
def RecvCall.Fresh (call : RecvCall n) (tmp : Int) : Prop :=
  ∀ a ∈ call.positions, ¬(tmp ≤ a ∧ a < tmp + call.tmpSize)

/-- Only what is received changes: the bytes to which the message maps have its data, all others outside the temporary
buffer are as before, and the receive has not written outside the temporary buffer. -/
structure ReplacesOnly (call : RecvCall n) (tmp : Int) (data : List UInt8) (mem received after : Memory) : Prop where
  mapped : ∀ (i : Nat) (a : Int) (b : UInt8), call.positions[i]? = some a → data[i]? = some b → after a = b
  others : ∀ a, ¬(tmp ≤ a ∧ a < tmp + call.tmpSize) → a ∉ call.positions.take data.length → after a = mem a
  inside : ∀ a, ¬(tmp ≤ a ∧ a < tmp + call.tmpSize) → received a = mem a

def RecvCall.Replaces (call : RecvCall n) (origin : Origin) : Prop :=
  ∀ cut tmp mem received after, call.Fresh tmp → receiveToTmp cut call tmp mem origin = some received →
    pmpiSendrecvReplace cut true call tmp mem origin = some (.done after) → after.code = .success →
      ReplacesOnly call tmp origin.data mem received.memory after.memory

/-- The message's bytes lie exactly on the bytes of the temporary buffer. A message from MANA's buffer is then unpacked
if the size is not beyond an `int`. -/
structure RecvCall.Covers (call : RecvCall n) (origin : Origin) : Prop where
  length : (origin.data.length : Int) = call.tmpSize
  inside : ∀ x ∈ call.offsets.take origin.data.length, 0 ≤ x ∧ x < call.tmpSize
  unpacked : ∀ found, origin = .buffer found →
    found.buf.length = 0 ∨ found.buf.length = call.count * call.datatype.size

end Replace

section Received

variable {cut : Memory × RecvStatus} {call : RecvCall n} {tmp : Int} {mem : Memory} {origin : Origin}

def Origin.delivered (call : RecvCall n) : Origin → Nat
  | .lowerHalf m => m.data.length
  | .buffer found => unpackedElements call found.buf.length * call.datatype.size

theorem irecvThenWait_eq (cut : Memory × RecvStatus) (call : RecvCall n) (mem : Memory)
    (short : origin.data.length ≤ call.count * call.datatype.size)
    (enough : origin.delivered call ≤ origin.data.length) :
    irecvThenWait cut call mem origin =
      some ⟨scatter call.positions (origin.data.take (origin.delivered call)) mem, origin.status, .success⟩ := by
  cases origin with
  | lowerHalf m =>
    change some (lowerHalfRecv cut call mem m) =
      some ⟨scatter call.positions (m.data.take m.data.length) mem, m.status, .success⟩
    rw [lowerHalfRecv, if_pos (show m.data.length ≤ _ from short), List.take_length]
  | buffer found =>
    have enough : ¬found.buf.length < unpackedElements call found.buf.length * call.datatype.size := Nat.not_lt.mpr enough
    simp only [irecvThenWait, mpiIrecvInternal, consumeMatchingMsgBuffer, receive]
    rw [if_neg enough]
    rfl

theorem delivered_le {received : Delivered} (returned : irecvThenWait cut call mem origin = some received) :
    origin.delivered call ≤ origin.data.length := by
  cases origin with
  | lowerHalf m => exact Nat.le_refl _
  | buffer found =>
    obtain ⟨_, consumed, _⟩ := map_eq_some_iff.mp returned
    obtain ⟨_, consumed, _⟩ := map_eq_some_iff.mp consumed
    obtain ⟨_, unpacked, _⟩ := map_eq_some_iff.mp consumed
    exact Nat.not_lt.mp (ite_none_left_eq_some.mp unpacked).1

theorem elementsToUnpack_self (count length : Nat) :
    elementsToUnpack count length length = if length / count = 0 then 0 else count := by
  have quotient : (if count > 0 then (length : Int).tdiv count else 0) = (length / count : Nat) := by
    split
    · rw [Int.tdiv_eq_ediv_of_nonneg (by omega)]
      rfl
    · next zero =>
      obtain rfl : count = 0 := by omega
      simp
  simp only [elementsToUnpack, quotient]
  by_cases none : length / count = 0
  · rw [if_pos none, none]
    exact Int.toNat_of_nonpos (Int.min_le_left ..)
  · have positive : 0 < length / count := Nat.pos_of_ne_zero none
    have all : count ≤ length / (length / count) := (Nat.le_div_iff_mul_le positive).mpr (Nat.mul_div_le length count)
    have whole : (length : Int).tdiv (length / count : Nat) = (length / (length / count) : Nat) := by
      rw [Int.tdiv_eq_ediv_of_nonneg (by omega)]
      rfl
    rw [if_pos (by omega), whole, Int.min_eq_right (by omega), Int.toNat_natCast, if_neg none]

/-- A message from MANA's buffer of as many bytes as the temporary buffer has is unpacked as a whole exactly if it is
empty or the product is not beyond an `int`. -/
theorem delivered_whole_iff {found : BufferedMessage} (length : (found.buf.length : Int) = call.tmpSize) :
    Origin.delivered call (.buffer found) = found.buf.length ↔
      found.buf.length = 0 ∨ found.buf.length = call.count * call.datatype.size := by
  rw [Origin.delivered, unpackedElements_eq, ← RecvCall.tmpSize, ← length, elementsToUnpack_self]
  split
  · next none =>
    rw [Nat.zero_mul]
    constructor
    · exact fun empty => .inl empty.symm
    · rintro (empty | all)
      · exact empty.symm
      · rw [all] at none ⊢
        rcases Nat.eq_zero_or_pos call.count with zero | positive
        · rw [zero, Nat.zero_mul]
        · rw [Nat.mul_div_cancel_left _ positive] at none
          rw [none, Nat.mul_zero]
  · next some =>
    constructor
    · exact fun all => .inr all.symm
    · rintro (empty | all)
      · exact absurd (by rw [empty, Nat.zero_div]) some
      · exact all.symm

def RecvCall.tmpMemory (call : RecvCall n) (tmp : Int) (data : List UInt8) (k : Nat) (mem : Memory) : Memory :=
  scatter (call.offsets.map (tmp + ·)) (data.take k) mem

variable {data : List UInt8} {k i : Nat} {x : Int}

theorem tmpMemory_of_notMem {a : Int} (outside : a - tmp ∉ call.offsets.take k) :
    call.tmpMemory tmp data k mem a = mem a := by
  refine scatter_of_notMem fun covered => outside ?_
  rw [← List.map_take, List.length_take] at covered
  obtain ⟨x, member, rfl⟩ := List.mem_map.mp covered
  rw [show tmp + x - tmp = x by omega]
  exact List.take_subset_take_left _ (Nat.min_le_left ..) member

theorem tmpMemory_getElem? {b : UInt8} (early : i < k) (offset : call.offsets[i]? = some x) (value : data[i]? = some b) :
    call.tmpMemory tmp data k mem (tmp + x) = b := by
  have distinct : (call.offsets.map (tmp + ·)).Nodup := call.offsets_nodup.map fun _ _ same => Int.add_left_cancel same
  refine scatter_getElem? distinct ?_ (by rwa [List.getElem?_take_of_lt early]) (i := i)
  rw [List.getElem?_map, offset]
  rfl

theorem sendrecvReplace_eq (cut : Memory × RecvStatus) (tmp : Int) (mem : Memory)
    (short : origin.data.length ≤ call.count * call.datatype.size)
    (enough : origin.delivered call ≤ origin.data.length) (allocated : 0 ≤ call.tmpSize) :
    receiveToTmp cut call tmp mem origin =
        some ⟨call.tmpMemory tmp origin.data (origin.delivered call) mem, origin.status, .success⟩ ∧
      pmpiSendrecvReplace cut true call tmp mem origin =
        some (.done ⟨memcpy (call.tmpMemory tmp origin.data (origin.delivered call) mem) call.buf tmp call.tmpSize,
          origin.status, .success⟩) := by
  have received : receiveToTmp cut call tmp mem origin =
      some ⟨call.tmpMemory tmp origin.data (origin.delivered call) mem, origin.status, .success⟩ := by
    have moved := irecvThenWait_eq cut (call.moved tmp) mem short (by cases origin <;> exact enough)
    rw [RecvCall.positions_eq] at moved
    cases origin <;> exact moved
  refine ⟨received, ?_⟩
  rw [pmpiSendrecvReplace, if_pos rfl, if_pos allocated, received]
  rfl

theorem replaces_iff (short : origin.data.length ≤ call.count * call.datatype.size)
    (enough : origin.delivered call ≤ origin.data.length) (allocated : 0 ≤ call.tmpSize) :
    call.Replaces origin ↔ ∀ tmp mem, call.Fresh tmp →
      ReplacesOnly call tmp origin.data mem (call.tmpMemory tmp origin.data (origin.delivered call) mem)
        (memcpy (call.tmpMemory tmp origin.data (origin.delivered call) mem) call.buf tmp call.tmpSize) := by
  constructor
  · intro replaces tmp mem fresh
    obtain ⟨received, returned⟩ := sendrecvReplace_eq (mem, origin.status) tmp mem short enough allocated
    exact replaces _ tmp mem _ _ fresh received returned rfl
  · intro only cut tmp mem received after fresh isReceived returned _
    obtain ⟨received', returned'⟩ := sendrecvReplace_eq cut tmp mem short enough allocated
    cases received'.symm.trans isReceived
    cases returned'.symm.trans returned
    exact only tmp mem fresh

theorem exists_fresh (call : RecvCall n) : ∃ tmp, call.Fresh tmp ∧ call.buf < tmp ∧ call.buf + call.tmpSize < tmp := by
  obtain ⟨last, bound⟩ := (insert call.buf (insert (call.buf + call.tmpSize) call.positions.toFinset)).exists_le
  refine ⟨last + 1, fun a member inside => ?_, ?_, ?_⟩
  · have := bound a (by simp [member])
    omega
  · have := bound call.buf (by simp)
    omega
  · have := bound (call.buf + call.tmpSize) (by simp)
    omega

theorem mem_take_of_getElem? {l : List Int} (found : l[i]? = some x) (early : i < k) : x ∈ l.take k :=
  List.mem_of_getElem? ((List.getElem?_take_of_lt early).trans found)

end Received

section Main

variable {call : RecvCall n} {tmp : Int} {data : List UInt8} {k : Nat}

def RecvCall.ReplacesAll (call : RecvCall n) (data : List UInt8) (k : Nat) : Prop :=
  ∀ tmp mem, call.Fresh tmp → ReplacesOnly call tmp data mem (call.tmpMemory tmp data k mem)
    (memcpy (call.tmpMemory tmp data k mem) call.buf tmp call.tmpSize)

theorem exists_ne (b : UInt8) : ∃ other : UInt8, other ≠ b := by
  by_cases zero : b = 0
  · exact ⟨1, by rw [zero]; decide⟩
  · exact ⟨0, fun same => zero same.symm⟩

theorem RecvCall.ReplacesAll.inside (replaces : call.ReplacesAll data k) (enough : k ≤ data.length) {x : Int}
    (written : x ∈ call.offsets.take k) : 0 ≤ x ∧ x < call.tmpSize := by
  obtain ⟨tmp, fresh, -⟩ := exists_fresh call
  obtain ⟨i, early, rfl⟩ := List.mem_take_iff_getElem.mp written
  have short : i < data.length := by omega
  obtain ⟨other, different⟩ := exists_ne data[i]
  by_contra outside
  have kept := (replaces tmp (fun _ => other) fresh).inside (tmp + call.offsets[i]) (by omega)
  have offset : call.offsets[i]? = some call.offsets[i] := List.getElem?_eq_getElem _
  rw [tmpMemory_getElem? (by omega) offset (List.getElem?_eq_getElem short)] at kept
  exact different kept.symm

theorem RecvCall.ReplacesAll.delivered (replaces : call.ReplacesAll data k) (enough : k ≤ data.length)
    (short : data.length ≤ call.offsets.length) : k = data.length := by
  obtain ⟨tmp, fresh, -⟩ := exists_fresh call
  by_contra partly
  have late : k < data.length := by omega
  have inRange : k < call.offsets.length := by omega
  obtain ⟨other, different⟩ := exists_ne data[k]
  have offset : call.offsets[k]? = some call.offsets[k] := List.getElem?_eq_getElem _
  have position : call.positions[k]? = some (call.buf + call.offsets[k]) := by
    rw [RecvCall.positions_eq, List.getElem?_map, offset]
    rfl
  have notYet : call.offsets[k] ∉ call.offsets.take k := fun early => by
    obtain ⟨i, before, same⟩ := List.mem_take_iff_getElem.mp early
    have := call.offsets_nodup.getElem_inj_iff.mp same
    omega
  have arrived := (replaces tmp (fun _ => other) fresh).mapped k _ _ position (List.getElem?_eq_getElem late)
  rw [memcpy] at arrived
  split at arrived
  · rw [tmpMemory_of_notMem (by rwa [show tmp + (call.buf + call.offsets[k] - call.buf) - tmp = call.offsets[k] by omega])]
      at arrived
    exact different arrived
  · have untouched := fresh _ (List.mem_of_getElem? position)
    rw [(replaces tmp (fun _ => other) fresh).inside _ untouched] at arrived
    exact different arrived

/-- A byte of the temporary buffer that is not received is copied as `malloc` left it. -/
theorem RecvCall.ReplacesAll.covered (replaces : call.ReplacesAll data data.length) {x : Int} (low : 0 ≤ x)
    (high : x < call.tmpSize) : x ∈ call.offsets.take data.length := by
  obtain ⟨tmp, fresh, behind, far⟩ := exists_fresh call
  by_contra free
  have elsewhere : call.buf + x ∉ call.positions.take data.length := fun member => by
    rw [RecvCall.positions_eq, ← List.map_take] at member
    obtain ⟨y, member, same⟩ := List.mem_map.mp member
    exact free (by rwa [show x = y by omega])
  have kept := (replaces tmp (update (fun _ => 0) (tmp + x) 1) fresh).others (call.buf + x) (by omega) elsewhere
  rw [memcpy, if_pos (by omega), tmpMemory_of_notMem (by rwa [show tmp + (call.buf + x - call.buf) - tmp = x by omega]),
    show tmp + (call.buf + x - call.buf) = tmp + x by omega, update_self,
    update_of_ne (show call.buf + x ≠ tmp + x by omega)] at kept
  exact absurd kept (by decide)

theorem length_take_eq_iff (call : RecvCall n) (short : k ≤ call.offsets.length)
    (inside : ∀ x ∈ call.offsets.take k, 0 ≤ x ∧ x < call.tmpSize) (allocated : 0 ≤ call.tmpSize) :
    (k : Int) = call.tmpSize ↔ ∀ x, 0 ≤ x → x < call.tmpSize → x ∈ call.offsets.take k := by
  have card : (call.offsets.take k).toFinset.card = k := by
    rw [List.toFinset_card_of_nodup (call.offsets_nodup.sublist (List.take_sublist ..)), List.length_take_of_le short]
  have whole : (Finset.Ico 0 call.tmpSize).card = call.tmpSize.toNat := by simp
  have subset : (call.offsets.take k).toFinset ⊆ Finset.Ico 0 call.tmpSize := fun x member =>
    Finset.mem_Ico.mpr (inside x (List.mem_toFinset.mp member))
  constructor
  · intro same x low high
    have equal := Finset.eq_of_subset_of_card_le subset (by omega)
    rw [← List.mem_toFinset, equal]
    exact Finset.mem_Ico.mpr ⟨low, high⟩
  · intro covered
    have equal : (call.offsets.take k).toFinset = Finset.Ico 0 call.tmpSize := by
      refine Finset.Subset.antisymm subset fun x member => List.mem_toFinset.mpr ?_
      exact covered x (Finset.mem_Ico.mp member).1 (Finset.mem_Ico.mp member).2
    rw [equal, whole] at card
    omega

theorem replacesAll_of_covers (length : (data.length : Int) = call.tmpSize)
    (inside : ∀ x ∈ call.offsets.take data.length, 0 ≤ x ∧ x < call.tmpSize) (short : data.length ≤ call.offsets.length) :
    call.ReplacesAll data data.length := by
  have covered := (length_take_eq_iff call short inside (by omega)).mp length
  intro tmp mem fresh
  have outside : ∀ a, ¬(tmp ≤ a ∧ a < tmp + call.tmpSize) → call.tmpMemory tmp data data.length mem a = mem a := by
    intro a out
    refine tmpMemory_of_notMem fun member => out ?_
    have := inside _ member
    omega
  refine ⟨fun i a b position value => ?_, fun a out elsewhere => ?_, outside⟩
  · have early : i < data.length := (List.getElem?_eq_some_iff.mp value).1
    rw [RecvCall.positions_eq, List.getElem?_map] at position
    obtain ⟨x, offset, rfl⟩ := map_eq_some_iff.mp position
    have between := inside x (mem_take_of_getElem? offset early)
    rw [memcpy, if_pos (by omega), show tmp + (call.buf + x - call.buf) = tmp + x by omega]
    exact tmpMemory_getElem? early offset value
  · rw [memcpy, if_neg, outside a out]
    intro copied
    refine elsewhere ?_
    rw [RecvCall.positions_eq, ← List.map_take]
    exact List.mem_map.mpr ⟨a - call.buf, covered _ (by omega) (by omega), by omega⟩

end Main

/-- A call that returns changes only what it receives, whatever the memory holds, exactly if the bytes of the message lie
exactly on the bytes of the temporary buffer. -/
theorem sendrecv_replaces_iff_covers (call : RecvCall n) (origin : Origin)
    (short : origin.data.length ≤ call.count * call.datatype.size)
    (returns : ∃ cut tmp mem after, pmpiSendrecvReplace cut true call tmp mem origin = some (.done after)) :
    call.Replaces origin ↔ call.Covers origin := by
  obtain ⟨cut, tmp, mem, after, returned⟩ := returns
  rw [pmpiSendrecvReplace, if_pos rfl] at returned
  obtain ⟨allocated, returned⟩ := ite_none_right_eq_some.mp returned
  obtain ⟨received, isReceived, -⟩ := map_eq_some_iff.mp returned
  have enough : origin.delivered call ≤ origin.data.length := by
    have := delivered_le isReceived
    cases origin <;> exact this
  have fits : origin.data.length ≤ call.offsets.length := by
    rw [← length_positions, RecvCall.positions_eq, List.length_map] at short
    exact short
  rw [replaces_iff short enough allocated]
  constructor
  · intro replaces
    have replaces : call.ReplacesAll origin.data (origin.delivered call) := replaces
    have whole := replaces.delivered enough fits
    have inside := fun x => replaces.inside enough (x := x)
    rw [whole] at replaces inside
    have length := (length_take_eq_iff call fits inside allocated).mpr fun x => replaces.covered
    refine ⟨length, inside, ?_⟩
    rintro found rfl
    exact (delivered_whole_iff length).mp whole
  · intro covers
    have whole : origin.delivered call = origin.data.length := by
      cases origin with
      | lowerHalf m => rfl
      | buffer found => exact (delivered_whole_iff covers.length).mpr (covers.unpacked found rfl)
    rw [whole]
    exact replacesAll_of_covers covers.length covers.inside fits

/-- `twoBytes` is a receive of two elements of one byte. -/
theorem sendrecv_replaces_iff_covers_two_bytes :
    twoBytes.Replaces (.lowerHalf ⟨0, 0, [5, 6]⟩) ↔ twoBytes.Covers (.lowerHalf ⟨0, 0, [5, 6]⟩) :=
  sendrecv_replaces_iff_covers twoBytes _ (by decide)
    ⟨(fun _ => 0, ⟨0, 0, 0⟩), 100, fun _ => 7, _,
      (sendrecvReplace_eq _ _ _ (by decide) (Nat.le_refl _) (by decide +kernel)).2⟩

def gapBytes : RecvCall 2 where
  buf := 0
  count := 1
  datatype := { extent := 3, displacements := [0, 2] }
  pattern := { comm := 0, source := .any, tag := some 0 }
  distinct := by decide

def sevensAndNines : Memory := fun a => if a < 100 then 7 else 9

theorem fresh_100 : twoBytes.Fresh 100 ∧ gapBytes.Fresh 100 := by
  have sizes : twoBytes.tmpSize = 2 ∧ gapBytes.tmpSize = 2 := by decide +kernel
  have two : ∀ a ∈ twoBytes.positions, a < 100 := by decide
  have gap : ∀ a ∈ gapBytes.positions, a < 100 := by decide
  refine ⟨fun a member inside => ?_, fun a member inside => ?_⟩
  · have := two a member
    omega
  · have := gap a member
    omega

theorem not_replaces_short : ¬twoBytes.Replaces (.lowerHalf ⟨0, 0, [5]⟩) := by
  intro replaces
  obtain ⟨received, returned⟩ := @sendrecvReplace_eq _ twoBytes (.lowerHalf ⟨0, 0, [5]⟩) (sevensAndNines, ⟨0, 0, 0⟩)
    100 sevensAndNines (by decide) (Nat.le_refl _) (by decide +kernel)
  have only := replaces _ 100 _ _ _ fresh_100.1 received returned rfl
  have kept := only.others 1 (fun inside => absurd inside.1 (by decide)) (by decide)
  exact absurd kept (by decide +kernel)

/-- A message of one byte for a buffer of two, a receive from `MPI_PROC_NULL`, and a message whose datatype has a gap:
bytes of the buffer become those that `malloc` left, and the last receive writes behind the temporary buffer. -/
theorem sendrecv_copies_garbage :
    ¬twoBytes.Replaces (.lowerHalf ⟨0, 0, [5]⟩) ∧ twoBytes.Fresh 100 ∧ gapBytes.Fresh 100 ∧
      (∃ after, pmpiSendrecvReplace (sevensAndNines, ⟨0, 0, 0⟩) true twoBytes 100 sevensAndNines
          (.lowerHalf ⟨0, 0, [5]⟩) = some (.done after) ∧
        after.code = .success ∧ sevensAndNines 1 = 7 ∧ after.memory 1 = 9) ∧
      (∃ after, pmpiSendrecvReplace (sevensAndNines, ⟨0, 0, 0⟩) true twoBytes 100 sevensAndNines
          (.lowerHalf .procNull) = some (.done after) ∧ after.code = .success ∧ after.memory 0 = 9) ∧
      ∃ received, receiveToTmp (sevensAndNines, ⟨0, 0, 0⟩) gapBytes 100 sevensAndNines
          (.lowerHalf ⟨0, 0, [5, 6]⟩) = some received ∧ gapBytes.tmpSize = 2 ∧ received.memory 102 = 6 :=
  ⟨not_replaces_short, fresh_100.1, fresh_100.2,
    ⟨_, (sendrecvReplace_eq _ _ _ (by decide) (Nat.le_refl _) (by decide +kernel)).2, rfl, by decide, by decide +kernel⟩,
    ⟨_, (sendrecvReplace_eq _ _ _ (by decide) (Nat.le_refl _) (by decide +kernel)).2, rfl, by decide +kernel⟩,
    ⟨_, (sendrecvReplace_eq _ _ _ (by decide) (Nat.le_refl _) (by decide +kernel)).1, by decide +kernel, by decide⟩⟩

end Mana.P2p
