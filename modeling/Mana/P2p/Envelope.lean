import Mana.Lib.Machine
import Mana.Collective.Kvdb

/-! The envelopes of point-to-point messages, the receives that accept them, and the
dummy that answers a blocked `MPI_Recv`.

Virtual communicators differ between ranks, so a communicator is named by its gid here,
and its members by their world ranks. -/

namespace Mana.P2p
open Mana.Collective Option

variable {n : Nat}

inductive Source (n : Nat) where
  | any
  | procNull
  | rank (r : Fin n)
  deriving DecidableEq, Repr

structure Envelope (n : Nat) where
  comm : Gid
  source : Fin n
  tag : Nat
  deriving DecidableEq, Repr

structure Pattern (n : Nat) where
  comm : Gid
  source : Source n
  tag : Option Nat
  deriving DecidableEq, Repr

def Source.accepts : Source n → Fin n → Bool
  | .any, _ => true
  | .procNull, _ => false
  | .rank r, r' => r' == r

def Pattern.accepts (p : Pattern n) (e : Envelope n) : Bool :=
  p.comm == e.comm && p.source.accepts e.source && p.tag.all (· == e.tag)

theorem Pattern.accepts_iff {p : Pattern n} {e : Envelope n} :
    p.accepts e = true ↔ p.comm = e.comm ∧ p.source.accepts e.source = true ∧ ∀ t ∈ p.tag, t = e.tag := by
  simp only [Pattern.accepts, Bool.and_eq_true, beq_iff_eq, all_eq_true, and_assoc, mem_def]

/-- The fields of `g_pending_recv` next to its state. The datatype is there for its size. -/
structure PendingRecv (n : Nat) extends Pattern n where
  count : Nat
  typeSize : Nat
  deriving DecidableEq, Repr

structure PostedDummy (n : Nat) where
  commGid : Gid
  dest : Fin n
  tag : Nat
  bytes : Nat
  deriving DecidableEq, Repr

/-- The sender: the source of the `MPI_Recv`, or for `MPI_ANY_SOURCE` the first member that
is not blocked itself. The assertions of `postDummy` fail otherwise. -/
def dummySender (members : List (Fin n)) (blocked : Fin n → Bool) : Source n → Option (Fin n)
  | .rank r => if r ∈ members then some r else none
  | .any => members.find? (fun r => !blocked r)
  | .procNull => none

/-- `postDummy` on the blocked rank `me`: the record and the rank it is posted to. -/
def postDummy (members : Gid → List (Fin n)) (blocked : Fin n → Bool) (me : Fin n)
    (recv : PendingRecv n) : Option (Fin n × PostedDummy n) :=
  (dummySender (members recv.comm) blocked recv.source).map fun sender =>
    (sender, { commGid := recv.comm, dest := me, tag := recv.tag.getD 0,
               bytes := recv.typeSize * recv.count })

def PostedDummy.envelope (d : PostedDummy n) (sender : Fin n) : Envelope n :=
  { comm := d.commGid, source := sender, tag := d.tag }

theorem dummySender_accepts {members : List (Fin n)} {blocked : Fin n → Bool} {source : Source n}
    {sender : Fin n} (chosen : dummySender members blocked source = some sender) :
    source.accepts sender = true := by
  cases source with
  | any => rfl
  | procNull => cases chosen
  | rank r =>
    simp only [dummySender, ite_none_right_eq_some, some.injEq] at chosen
    simp [Source.accepts, chosen.2]

theorem postDummy_accepts {members : Gid → List (Fin n)} {blocked : Fin n → Bool} {me sender : Fin n}
    {recv : PendingRecv n} {d : PostedDummy n}
    (posted : postDummy members blocked me recv = some (sender, d)) :
    recv.accepts (d.envelope sender) = true := by
  obtain ⟨chosen, isChosen, made⟩ := map_eq_some_iff.mp posted
  cases made
  refine Pattern.accepts_iff.mpr ⟨rfl, dummySender_accepts isChosen, ?_⟩
  intro t isTag
  simp [PostedDummy.envelope, mem_def.mp isTag]

end Mana.P2p
