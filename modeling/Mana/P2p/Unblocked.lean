import Mana.Lib.Machine
import Mana.P2p.Envelope
import Mathlib.Data.BitVec
import Mathlib.Logic.Function.Basic

/-! The search of `postDummy` for a sender that is not blocked. The blocked ranks set their bits in the
words of a bitmap, and a rank blocked in an `MPI_Recv` from `MPI_ANY_SOURCE` looks for a member of its
communicator whose bit is clear. A deadlock concerns all communicators, the search only one. -/

namespace Mana.P2p
open Mana.Lib Mana.Collective Option Function

variable {n : Nat}

/-! ## The bitmap -/

abbrev BlockedWords := Nat → Option (BitVec 64)

def blockedBit (rank : Nat) : BitVec 64 := 1#64 <<< (rank % 64)

def BlockedWords.publish (db : BlockedWords) (rank : Nat) : BlockedWords :=
  update db (rank / 64) (some ((db (rank / 64)).getD 0 ||| blockedBit rank))

/-- The bit of a rank; a missing word is 0. -/
def BlockedWords.isSet (db : BlockedWords) (rank : Nat) : Bool := ((db (rank / 64)).getD 0).getLsbD (rank % 64)

theorem getLsbD_blockedBit (rank i : Nat) : (blockedBit rank).getLsbD i = decide (i = rank % 64) := by
  have bound : rank % 64 < 64 := Nat.mod_lt rank (by decide)
  simp only [blockedBit, BitVec.getLsbD_shiftLeft, BitVec.getLsbD_one]
  by_cases same : i = rank % 64
  · simp [same, bound]
  · simp only [same, decide_false]
    by_cases below : i < rank % 64
    · simp [below]
    · have above : i - rank % 64 ≠ 0 := by omega
      simp [above]

theorem and_blockedBit_eq_zero_iff (word : BitVec 64) (rank : Nat) :
    word &&& blockedBit rank = 0 ↔ word.getLsbD (rank % 64) = false := by
  constructor
  · intro isZero
    have bit := congrArg (BitVec.getLsbD · (rank % 64)) isZero
    simpa [getLsbD_blockedBit] using bit
  · intro isClear
    apply BitVec.eq_of_getLsbD_eq
    intro i _
    rw [BitVec.getLsbD_and, getLsbD_blockedBit]
    by_cases same : i = rank % 64
    · simp [same, isClear]
    · simp [same]

theorem BlockedWords.isSet_publish (db : BlockedWords) (rank r : Nat) :
    (db.publish rank).isSet r = (db.isSet r || decide (r = rank)) := by
  by_cases sameWord : r / 64 = rank / 64
  · have sameBit : r % 64 = rank % 64 ↔ r = rank := by omega
    simp [BlockedWords.isSet, BlockedWords.publish, sameWord, getLsbD_blockedBit, sameBit]
  · have other : r ≠ rank := fun same => sameWord (same ▸ rfl)
    simp [BlockedWords.isSet, BlockedWords.publish, sameWord, other]

/-- What each rank does when the dummy step begins: it runs, or it waits in an `MPI_Recv`. -/
abbrev Standing (n : Nat) := Fin n → Option (PendingRecv n)

def Standing.publish (standing : Standing n) (db : BlockedWords) : List (Fin n) → BlockedWords
  | [] => db
  | r :: order => standing.publish (if (standing r).isSome then db.publish r else db) order

theorem Standing.isSet_publish (standing : Standing n) (order : List (Fin n)) (db : BlockedWords) (r : Fin n) :
    (standing.publish db order).isSet r = (db.isSet r || decide (r ∈ order) && (standing r).isSome) := by
  induction order generalizing db with
  | nil => simp [Standing.publish]
  | cons first order ih =>
    rw [Standing.publish, ih]
    by_cases same : r = first
    · subst same
      cases isBlocked : standing r <;> simp [BlockedWords.isSet_publish]
    · have other : (r : Nat) ≠ first := fun equal => same (Fin.ext equal)
      cases isBlocked : standing first <;> simp [BlockedWords.isSet_publish, same, other]

/-! ## The search -/

def BlockedWords.fetch (db words : BlockedWords) (word : Nat) : BlockedWords :=
  if (words word).isSome then words else update words word (some ((db word).getD 0))

/-- The loop of `postDummy` over the members from index `i` on; `words` are the words read so far. -/
def searchSender (db : BlockedWords) : Nat → BlockedWords → List (Fin n) → Option Nat
  | _, _, [] => none
  | i, words, rank :: rest =>
    let words := db.fetch words (rank / 64)
    if (words (rank / 64)).getD 0 &&& blockedBit rank = 0 then some i else searchSender db (i + 1) words rest

def BlockedWords.Fetched (db words : BlockedWords) : Prop := ∀ word bits, words word = some bits → bits = (db word).getD 0

theorem BlockedWords.Fetched.fetch {db words : BlockedWords} (fetched : db.Fetched words) (word : Nat) :
    db.Fetched (db.fetch words word) ∧ ((db.fetch words word) word).getD 0 = (db word).getD 0 := by
  unfold BlockedWords.fetch
  cases read : words word with
  | some bits => exact ⟨fetched, by simp [read, fetched word bits read]⟩
  | none =>
    refine ⟨fun word' bits isBits => ?_, by simp⟩
    by_cases same : word' = word
    · subst same
      simpa using isBits.symm
    · simp only [isSome_none, Bool.false_eq_true, reduceIte, update_of_ne same] at isBits
      exact fetched word' bits isBits

theorem searchSender_eq {db : BlockedWords} (members : List (Fin n)) (i : Nat) {words : BlockedWords}
    (fetched : db.Fetched words) :
    searchSender db i words members = (members.findIdx? fun r : Fin n => !db.isSet r).map (· + i) := by
  induction members generalizing i words with
  | nil => rfl
  | cons rank rest ih =>
    obtain ⟨fetched', isWord⟩ := fetched.fetch (rank / 64)
    simp only [searchSender, isWord, and_blockedBit_eq_zero_iff, List.findIdx?_cons]
    change (if db.isSet rank = false then _ else _) = _
    cases bit : db.isSet rank with
    | false => simp
    | true =>
      rw [if_neg (by decide), ih (i + 1) fetched']
      simp [map_map, comp_def, Nat.add_assoc, Nat.add_comm 1]

def dummySenderIn (db : BlockedWords) (members : List (Fin n)) : Source n → Option (Fin n)
  | .rank r => if members.contains r then some r else none
  | .any => (searchSender db 0 (fun _ => none) members).bind fun i => members[i]?
  | .procNull => none

/-- The search over the words is the search over the set of blocked ranks that the words stand for. -/
theorem dummySenderIn_eq (db : BlockedWords) (members : List (Fin n)) (source : Source n) :
    dummySenderIn db members source = dummySender members (fun r => db.isSet r) source := by
  cases source with
  | rank r => simp only [dummySenderIn, dummySender, List.contains_iff_mem]
  | procNull => rfl
  | any =>
    have nothing : db.Fetched fun _ => none := by
      rintro _ _ ⟨⟩
    simp only [dummySenderIn, dummySender, searchSender_eq members 0 nothing]
    simp only [Nat.add_zero, map_id_fun', id_eq]
    exact List.find?_eq_bind_findIdx?_getElem?.symm

def postDummyIn (db : BlockedWords) (members : Gid → List (Fin n)) (me : Fin n) (recv : PendingRecv n) :
    Option (Fin n × PostedDummy n) :=
  (dummySenderIn db (members recv.comm) recv.source).map fun sender =>
    (sender, { commGid := recv.comm, dest := me, tag := recv.tag.getD 0,
               bytes := recv.typeSize * recv.count })

theorem postDummyIn_eq (db : BlockedWords) (members : Gid → List (Fin n)) (me : Fin n) (recv : PendingRecv n) :
    postDummyIn db members me recv = postDummy members (fun r => db.isSet r) me recv := by
  rw [postDummyIn, dummySenderIn_eq, postDummy]

/-! ## Deadlock -/

/-- A message that a running rank sends. -/
structure Sent (n : Nat) where
  sender : Fin n
  dest : Fin n
  comm : Gid
  tag : Nat
  deriving DecidableEq, Repr

def Sent.envelope (m : Sent n) : Envelope n := ⟨m.comm, m.sender, m.tag⟩

/-- A running rank sends a message to a member of one of its communicators. A blocked `MPI_Recv` that
accepts it completes, and its rank runs on. -/
def Standing.send (members : Gid → List (Fin n)) (standing : Standing n) (m : Sent n) : Option (Standing n) :=
  if standing m.sender = none ∧ (members m.comm).contains m.sender ∧ (members m.comm).contains m.dest then
    some (if (standing m.dest).any fun recv => recv.accepts m.envelope then update standing m.dest none
      else standing)
  else none

def continuation (members : Gid → List (Fin n)) (standing : Standing n) : Machine (Standing n) (Sent n) where
  initial s := s = standing
  step := Standing.send members

/-- Some continuation completes every blocked `MPI_Recv`. -/
def NotDeadlocked (members : Gid → List (Fin n)) (standing : Standing n) : Prop :=
  ∃ later, Reachable (continuation members standing) later ∧ ∀ r, later r = none

section Sender

variable {members : Gid → List (Fin n)} {standing : Standing n} {comm : Gid}

/-- The wait chains of the communicator's members do not leave it. -/
def WaitsInside (members : Gid → List (Fin n)) (standing : Standing n) (comm : Gid) : Prop :=
  ∀ r ∈ members comm, ∀ recv, standing r = some recv → recv.comm = comm

/-- When all members are blocked, and wait for each other, no message reaches any of them. -/
theorem members_stay_blocked (inside : WaitsInside members standing comm)
    (allBlocked : ∀ r ∈ members comm, standing r ≠ none) {later : Standing n}
    (reached : Reachable (continuation members standing) later) : ∀ r ∈ members comm, later r = standing r := by
  refine reached.invariant (fun later => ∀ r ∈ members comm, later r = standing r) ?_ ?_
  · rintro _ rfl _ _
    rfl
  · intro s m t _ same taken r isMember
    obtain ⟨⟨running, senderMember, -⟩, taken⟩ := ite_none_right_eq_some.mp taken
    cases taken
    split
    · next accepted =>
      obtain ⟨recv, isRecv, accepts⟩ := (any_eq_true _ _).mp accepted
      by_cases isDest : r = m.dest
      · subst isDest
        rw [same m.dest isMember] at isRecv
        have sameComm : recv.comm = m.comm := (Pattern.accepts_iff.mp accepts).1
        have onComm : m.comm = comm := sameComm.symm.trans (inside m.dest isMember recv isRecv)
        rw [onComm, List.contains_iff_mem] at senderMember
        exact absurd ((same m.sender senderMember).symm.trans running) (allBlocked m.sender senderMember)
      · rw [update_of_ne isDest]
        exact same r isMember
    · exact same r isMember

theorem exists_running_member (notDeadlocked : NotDeadlocked members standing)
    (inside : WaitsInside members standing comm) {me : Fin n} (isMember : me ∈ members comm) :
    ∃ r ∈ members comm, standing r = none := by
  by_contra none
  have allBlocked : ∀ r ∈ members comm, standing r ≠ Option.none := fun r isMember running => none ⟨r, isMember, running⟩
  obtain ⟨later, reached, completed⟩ := notDeadlocked
  have same := members_stay_blocked inside allBlocked reached me isMember
  exact allBlocked me isMember (same.symm.trans (completed me))

/-- After every rank has published, `postDummy` finds a sender for an `MPI_Recv` from `MPI_ANY_SOURCE` exactly
when a member of its communicator is running. A program that is not deadlocked has one if the members of the
communicator wait for each other only. -/
theorem postDummy_finds_sender_iff {order : List (Fin n)} (published : ∀ r, r ∈ order) (me : Fin n)
    (recv : PendingRecv n) (isAny : recv.source = .any) :
    ((postDummyIn (standing.publish (fun _ => none) order) members me recv).isSome = true ↔
        ∃ r ∈ members recv.comm, standing r = none) ∧
      (NotDeadlocked members standing → me ∈ members recv.comm → WaitsInside members standing recv.comm →
        (postDummyIn (standing.publish (fun _ => none) order) members me recv).isSome = true) := by
  have found : (postDummyIn (standing.publish (fun _ => none) order) members me recv).isSome = true ↔
      ∃ r ∈ members recv.comm, standing r = none := by
    have bits : ∀ r : Fin n, (standing.publish (fun _ => none) order).isSet r = (standing r).isSome := by
      intro r
      rw [Standing.isSet_publish]
      simp [BlockedWords.isSet, published r]
    simp [postDummyIn_eq, postDummy, isAny, dummySender, bits]
  refine ⟨found, fun notDeadlocked isMember inside => ?_⟩
  exact found.mpr (exists_running_member notDeadlocked inside isMember)

end Sender

/-- Rank 0 waits in the communicator 1 for any rank; rank 1 runs. -/
theorem postDummy_finds_sender_running :
    ∃ recv : PendingRecv 3, recv.source = .any ∧
      (postDummyIn (Standing.publish (fun r => if r = 0 then some recv else none) (fun _ => none) [0, 1, 2])
        (fun _ => [0, 1]) 0 recv).isSome = true :=
  let recv : PendingRecv 3 := { comm := 1, source := .any, tag := none, count := 1, typeSize := 4 }
  ⟨recv, rfl, (postDummy_finds_sender_iff (by decide) 0 recv rfl).1.mpr ⟨1, by decide, by decide⟩⟩

/-- A wait chain that leaves the communicator `1` of the ranks 0 and 1: rank 0 waits in it for any rank, rank 1
waits in the world communicator for rank 2, which runs. -/
def chainMembers : Gid → List (Fin 3)
  | 0 => [0, 1, 2]
  | 1 => [0, 1]
  | _ => []

def chainStanding : Standing 3
  | 0 => some { comm := 1, source := .any, tag := none, count := 1, typeSize := 4 }
  | 1 => some { comm := 0, source := .rank 2, tag := none, count := 1, typeSize := 4 }
  | 2 => none

theorem chain_not_deadlocked : NotDeadlocked chainMembers chainStanding := by
  have ran : (((continuation chainMembers chainStanding).run chainStanding [⟨2, 1, 0, 7⟩, ⟨1, 0, 1, 7⟩]).map
      fun later => decide (∀ r, later r = none)) = some true := by decide
  obtain ⟨later, ran, completed⟩ := map_eq_some_iff.mp ran
  exact ⟨later, (Reachable.start rfl).run ran, of_decide_eq_true completed⟩

theorem any_source_without_sender :
    NotDeadlocked chainMembers chainStanding ∧
      ∃ recv, chainStanding 0 = some recv ∧ recv.source = .any ∧
        postDummyIn (chainStanding.publish (fun _ => none) [0, 1, 2]) chainMembers 0 recv = none :=
  ⟨chain_not_deadlocked, _, rfl, rfl, by decide⟩

end Mana.P2p
