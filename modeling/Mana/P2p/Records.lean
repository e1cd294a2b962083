import Mana.Lib.Format
import Mana.P2p.Delivery

/-! The records that ranks post to each other in the KVDB during the drain, as text: the dummies of
`postDummy` and the notices of `publishSsendNotices`. -/

namespace Mana.P2p
open Mana.Lib Mana.Collective

/-- The fields of a dummy's record, in the types of C. -/
structure DummyRecord where
  commGid : UInt64
  rank : Int32
  tag : Int32
  bytes : Int64
  deriving DecidableEq, Repr

namespace DummyRecord

def format : List Conv := [.unsigned 64, .signed 32, .signed 32, .signed 64]

def values (d : DummyRecord) : List Int := [d.commGid.toNat, d.rank.toInt, d.tag.toInt, d.bytes.toInt]

def text (d : DummyRecord) : List Char := snprintf 128 (printRecord d.values)

/-- The `sscanf` in `sendPostedDummies`, with the assertion on its result. -/
def parse (text : List Char) : Option DummyRecord :=
  match sscanf format text with
  | [commGid, rank, tag, bytes] => some ⟨.ofNat commGid.toNat, .ofInt rank, .ofInt tag, .ofInt bytes⟩
  | _ => none

/-- `postDummy` on a blocked receive of `count` elements; the product is one of `int64_t`. -/
def post (commGid : UInt64) (rank tag typeSize count : Int32) : DummyRecord :=
  ⟨commGid, rank, tag, typeSize.toInt64 * count.toInt64⟩

def sendCount (d : DummyRecord) : Int32 := d.bytes.toInt32

end DummyRecord

/-- The fields of a notice, in the types of C. -/
structure NoticeRecord where
  commGid : UInt64
  rank : Int32
  tag : Int32
  laterSends : Int32
  worldRank : Int32
  ackTag : Int32
  deriving DecidableEq, Repr

namespace NoticeRecord

def format : List Conv := [.unsigned 64, .signed 32, .signed 32, .signed 32, .signed 32, .signed 32]

def values (d : NoticeRecord) : List Int :=
  [d.commGid.toNat, d.rank.toInt, d.tag.toInt, d.laterSends.toInt, d.worldRank.toInt, d.ackTag.toInt]

/-- The record that `publishSsendNotices` posts, with `char notice[160]`. -/
def text (d : NoticeRecord) : List Char := snprintf 160 (printRecord d.values)

def parse (text : List Char) : Option NoticeRecord :=
  match sscanf format text with
  | [commGid, rank, tag, laterSends, worldRank, ackTag] =>
    some ⟨.ofNat commGid.toNat, .ofInt rank, .ofInt tag, .ofInt laterSends, .ofInt worldRank, .ofInt ackTag⟩
  | _ => none

end NoticeRecord

section RoundTrip

theorem holds_uint64 (x : UInt64) : (Conv.unsigned 64).Holds x.toNat :=
  ⟨by simp [Conv.low], by have := x.toNat_lt; simp only [Conv.high]; omega⟩

theorem holds_int32 (x : Int32) : (Conv.signed 32).Holds x.toInt := ⟨x.le_toInt, x.toInt_lt⟩

theorem holds_int64 (x : Int64) : (Conv.signed 64).Holds x.toInt := ⟨x.le_toInt, x.toInt_lt⟩

theorem DummyRecord.round_trip (d : DummyRecord) : (printRecord d.values).length < 128 ∧ parse d.text = some d := by
  have holds : List.Forall₂ Conv.Holds format d.values :=
    .cons (holds_uint64 _) (.cons (holds_int32 _) (.cons (holds_int32 _) (.cons (holds_int64 _) .nil)))
  obtain ⟨fits, read⟩ := sscanf_snprintf 128 holds (by decide +kernel)
  refine ⟨fits, ?_⟩
  rw [parse, text, read]
  simp [values]

theorem NoticeRecord.round_trip (d : NoticeRecord) :
    (printRecord d.values).length < 160 ∧ parse d.text = some d := by
  have holds : List.Forall₂ Conv.Holds format d.values :=
    .cons (holds_uint64 _) (.cons (holds_int32 _) (.cons (holds_int32 _) (.cons (holds_int32 _)
      (.cons (holds_int32 _) (.cons (holds_int32 _) .nil)))))
  obtain ⟨fits, read⟩ := sscanf_snprintf 160 holds (by decide +kernel)
  refine ⟨fits, ?_⟩
  rw [parse, text, read]
  simp [values]

end RoundTrip

section SendCount

variable {typeSize count : Int32}

theorem DummyRecord.post_bytes (commGid : UInt64) (rank tag : Int32) (size : 0 ≤ typeSize.toInt)
    (number : 0 ≤ count.toInt) :
    (post commGid rank tag typeSize count).bytes.toInt = count.toInt * typeSize.toInt := by
  have bound : count.toInt * typeSize.toInt ≤ 2147483647 * 2147483647 :=
    Int.mul_le_mul (Int.le_of_lt_add_one count.toInt_lt) (Int.le_of_lt_add_one typeSize.toInt_lt) size (by decide)
  have nonneg : 0 ≤ count.toInt * typeSize.toInt := Int.mul_nonneg number size
  rw [post, Int64.toInt_mul, Int32.toInt_toInt64, Int32.toInt_toInt64, Int.mul_comm]
  exact Int.bmod_eq_of_le (by omega) (by omega)

theorem DummyRecord.sendCount_toInt (d : DummyRecord) : d.sendCount.toInt = toInt32 d.bytes.toInt :=
  Int64.toInt_toInt32 _

theorem postDummy_data {n : Nat} {members : Gid → List (Fin n)} {blocked : Fin n → Bool} {me sender : Fin n}
    {recv : PendingRecv n} {posted : PostedDummy n} (made : postDummy members blocked me recv = some (sender, posted))
    (size : typeSize.toInt = recv.typeSize) (number : count.toInt = recv.count) (commGid : UInt64) (rank tag : Int32) :
    posted.data = (let sent := (DummyRecord.post commGid rank tag typeSize count).sendCount
      if sent.toInt < 0 then none else some (List.replicate sent.toInt.toNat 0)) := by
  obtain ⟨chosen, -, same⟩ := Option.map_eq_some_iff.mp made
  cases same
  have bytes : (DummyRecord.post commGid rank tag typeSize count).bytes.toInt = (recv.typeSize * recv.count : Nat) := by
    rw [DummyRecord.post_bytes _ _ _ (by omega) (by omega), size, number, Int.mul_comm, Int.natCast_mul]
  simp only [PostedDummy.data, DummyRecord.sendCount_toInt, bytes]

theorem DummyRecord.sendCount_eq_iff (commGid : UInt64) (rank tag : Int32) (size : 0 ≤ typeSize.toInt)
    (number : 0 ≤ count.toInt) :
    (post commGid rank tag typeSize count).sendCount.toInt = count.toInt * typeSize.toInt ↔
      count.toInt * typeSize.toInt < 2147483648 := by
  constructor
  · intro isExact
    rw [← isExact]
    exact Int32.toInt_lt _
  · intro fits
    have nonneg : 0 ≤ count.toInt * typeSize.toInt := Int.mul_nonneg number size
    rw [sendCount_toInt, post_bytes _ _ _ size number]
    exact Int.bmod_eq_of_le (by omega) (by omega)

end SendCount

/-- The records fit their buffers and are read back as they were written, and the dummy of a blocked
receive is sent with its size as the count, exactly if that size is in the range of an `int`. -/
theorem records_round_trip_iff (typeSize count : Int32) (size : 0 ≤ typeSize.toInt) (number : 0 ≤ count.toInt) :
    ((∀ commGid rank tag, let d := DummyRecord.post commGid rank tag typeSize count
        (printRecord d.values).length < 128 ∧ DummyRecord.parse d.text = some d ∧
          0 ≤ d.sendCount.toInt ∧ d.sendCount.toInt = count.toInt * typeSize.toInt) ∧
      ∀ d : NoticeRecord, (printRecord d.values).length < 160 ∧ NoticeRecord.parse d.text = some d) ↔
      count.toInt * typeSize.toInt < 2147483648 := by
  constructor
  · rintro ⟨dummies, -⟩
    exact (DummyRecord.sendCount_eq_iff 0 0 0 size number).mp (dummies 0 0 0).2.2.2
  · intro fits
    refine ⟨fun commGid rank tag => ?_, NoticeRecord.round_trip⟩
    have sent := (DummyRecord.sendCount_eq_iff commGid rank tag size number).mpr fits
    obtain ⟨short, read⟩ := (DummyRecord.post commGid rank tag typeSize count).round_trip
    exact ⟨short, read, by rw [sent]; exact Int.mul_nonneg number size, sent⟩

theorem records_round_trip_iff_small :
    (0 ≤ (4 : Int32).toInt ∧ 0 ≤ (3 : Int32).toInt) ∧
      (((∀ commGid rank tag, let d := DummyRecord.post commGid rank tag 4 3
          (printRecord d.values).length < 128 ∧ DummyRecord.parse d.text = some d ∧
            0 ≤ d.sendCount.toInt ∧ d.sendCount.toInt = (3 : Int32).toInt * (4 : Int32).toInt) ∧
        ∀ d : NoticeRecord, (printRecord d.values).length < 160 ∧ NoticeRecord.parse d.text = some d) ↔
        (3 : Int32).toInt * (4 : Int32).toInt < 2147483648) :=
  ⟨by decide, records_round_trip_iff 4 3 (by decide) (by decide)⟩

/-- A blocked receive of 2^16 elements of 2^15 bytes: the record says 2^31 bytes, and the count of the
send is -2^31. -/
theorem dummy_sent_with_negative_count :
    DummyRecord.parse (DummyRecord.post 7 1 0 32768 65536).text = some ⟨7, 1, 0, 2147483648⟩ ∧
      (DummyRecord.post 7 1 0 32768 65536).sendCount.toInt = -2147483648 := by
  decide +kernel

end Mana.P2p
