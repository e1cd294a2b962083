import Mana.Lib.Meeting
import Mana.VirtId.TypeRestart

/-! All ranks of a job make their communicators again, each with blocking calls in the order of its
own table. The sequence numbers of a rank follow the order in which the communicators came to be, so
the calls for one communicator meet on all its members. -/

namespace Mana.VirtId
open Mana.Lib Option Function

/-- The creation of a communicator: its members in rank order, and its topology. -/
structure CommEvent where
  members : List Nat
  cart : Option (List (Nat × Bool))
  deriving DecidableEq, Repr

/-- The tables of all ranks. No wrapper reads the other fields: the communicators that have been
created, in order, and which of them a handle of a rank stands for. -/
structure Ranks where
  tables : Nat → Table Desc
  events : List CommEvent
  owner : Nat → Handle → Option Nat

/-- An assignment to an entry in use that leaves alone where the entry stands, its sequence number, and
the descriptor of a communicator. -/
structure EntryChange where
  assign : Entry Desc → Entry Desc
  place : ∀ e, (assign e).place = e.place
  seq : ∀ e, (assign e).seq = e.seq
  comm : ∀ e, (assign e).desc.bind Desc.comm? = e.desc.bind Desc.comm?

/-- What happens to the tables. A communicator gets its handles on all its members in one event; other
handles come, and all handles go, on each rank by itself. -/
inductive RanksAction where
  | create (event : CommEvent) (reals : Nat → Handle) (gid : Nat)
  | add (rank : Nat) (kind : Kind) (real : Handle) (desc : Option Desc)
  | free (rank : Nat) (handle : Handle)
  | assign (rank : Nat) (handle : Handle) (change : EntryChange)

/-- The blocking calls of `reconstruct_comm_desc`: `MPI_Comm_create_group` forms a communicator, and
`MPI_Cart_create` uses it. -/
def CommDesc.calls (d : CommDesc) : List (Lib.Call Nat (List (Nat × Bool))) :=
  .form (d.globalRanks.take d.size) :: d.cart.elim [] fun dims => [.use dims]

def Entry.calls (e : Entry Desc) : List (Lib.Call Nat (List (Nat × Bool))) :=
  ((e.desc.bind Desc.comm?).map CommDesc.calls).getD []

namespace Ranks

variable (jobs : Nat → Job) (s : Ranks)

def newVirtComm (event : CommEvent) (reals : Nat → Handle) (gid : Nat) (rank : Nat) : Option (Handle × Table Desc) :=
  (s.tables rank).addVirtId .comm (reals rank)
    (some (.comm (Rank.commDescOf (jobs rank) ⟨event.members, event.cart, .errorsAreFatal⟩ gid)))

def joined (event : CommEvent) (reals : Nat → Handle) (gid : Nat) (rank : Nat) : Table Desc × (Handle → Option Nat) :=
  if rank ∈ event.members then
    match s.newVirtComm jobs event reals gid rank with
    | some (handle, t) => (t, update (s.owner rank) handle (some s.events.length))
    | none => (s.tables rank, s.owner rank)
  else (s.tables rank, s.owner rank)

def setTable (rank : Nat) (t : Table Desc) : Ranks := { s with tables := update s.tables rank t }

def step (size : Nat) : RanksAction → Option Ranks
  | .create event reals gid =>
    if event.members.Nodup ∧ event.members ≠ [] ∧ (∀ rank ∈ event.members, rank < size) ∧
        ∀ rank ∈ event.members, (s.newVirtComm jobs event reals gid rank).isSome = true then
      some
        { tables := fun rank => (s.joined jobs event reals gid rank).1
          events := s.events ++ [event]
          owner := fun rank => (s.joined jobs event reals gid rank).2 }
    else none
  | .add rank kind real desc =>
    if kind ≠ .comm ∧ desc.bind Desc.comm? = none then
      ((s.tables rank).addVirtId kind real desc).map fun (_, t) => s.setTable rank t
    else none
  | .free rank handle => ((s.tables rank).freeVirtId (jobs rank).up.wide handle).map (s.setTable rank)
  | .assign rank handle change =>
    ((s.tables rank).modifyEntry (jobs rank).up.wide handle change.assign).map (s.setTable rank)

def initial : Ranks where
  tables := fun rank => .initial (jobs rank).up.wide (jobs rank).up.constants
  events := []
  owner := fun _ _ => none

def Live (rank k : Nat) : Prop := ∃ h d, commDesc (s.tables rank) h = some d ∧ s.owner rank h = some k

/-- Each communicator is live on all its members, or on none. -/
def Uniform : Prop :=
  ∀ k event, s.events[k]? = some event → ∀ rank ∈ event.members, ∀ other ∈ event.members,
    s.Live rank k → s.Live other k

/-- The blocking calls of `reconstruct_descriptors` on a rank, tagged with the communicators that they are
for. -/
def program (rank : Nat) : List (Nat × Lib.Call Nat (List (Nat × Bool))) :=
  (s.tables rank).reconstructOrder.flatMap fun e => e.calls.map fun call => ((s.owner rank e.virt).getD 0, call)

def rebuilding : Meeting Nat Nat (List (Nat × Bool)) where
  todo := s.program
  last := fun _ => none
  objects := []

end Ranks

def ranksMachine (size : Nat) (jobs : Nat → Job) : Machine Ranks RanksAction where
  initial s := s = .initial jobs
  step s := s.step jobs size

/-- All interleavings of the calls that make the communicators again. -/
def rebuildMachine (s : Ranks) : Machine (Meeting Nat Nat (List (Nat × Bool))) (Meet Nat) where
  initial c := c = s.rebuilding
  step c := c.step

/-- One rank's handles: the sequence numbers of its communicators follow the events. -/
structure RankOrder (events : List CommEvent) (rank : Nat) (t : Table Desc) (owner : Handle → Option Nat) : Prop where
  wellFormed : t.WellFormed
  seqs : ∀ h e, t.find h = some e → e.seq ≤ t.nextSeq
  distinct : ∀ h e h' e', t.find h = some e → t.find h' = some e' → e.seq = e'.seq → h = h'
  comm : ∀ h e d, t.find h = some e → e.desc.bind Desc.comm? = some d → kindOf h = Kind.comm.code ∧
    ∃ k event, owner h = some k ∧ events[k]? = some event ∧ rank ∈ event.members ∧ d.globalRanks = event.members ∧
      d.size = event.members.length ∧ d.cart = event.cart
  order : ∀ h e d h' e' d' k k', t.find h = some e → e.desc.bind Desc.comm? = some d → owner h = some k →
    t.find h' = some e' → e'.desc.bind Desc.comm? = some d' → owner h' = some k' → e.seq < e'.seq → k < k'

section Order

variable {events events' : List CommEvent} {rank : Nat} {t t' : Table Desc} {owner owner' : Handle → Option Nat}

theorem RankOrder.initial (wide : Bool) (constants : List Handle) :
    RankOrder [] rank (.initial wide constants) fun _ => none := by
  exact
    { wellFormed := .initial wide constants
      seqs := fun h e found => absurd found Table.find_initial_ne
      distinct := fun h e h' e' found => absurd found Table.find_initial_ne
      comm := fun h e d found => absurd found Table.find_initial_ne
      order := fun h e d h' e' d' k k' found => absurd found Table.find_initial_ne }

theorem RankOrder.grow (order : RankOrder events rank t owner)
    (grown : ∀ (k : Nat) event, events[k]? = some event → events'[k]? = some event) : RankOrder events' rank t owner :=
  { order with
    comm := by
      intro h e d found isComm
      obtain ⟨isKind, k, event, isOwner, isEvent, rest⟩ := order.comm h e d found isComm
      exact ⟨isKind, k, event, isOwner, grown k event isEvent, rest⟩ }

theorem RankOrder.keep (order : RankOrder events rank t owner) (wellFormed : t'.WellFormed)
    (nextSeq : t'.nextSeq = t.nextSeq)
    (kept : ∀ h e', t'.find h = some e' → ∃ e, t.find h = some e ∧ e'.seq = e.seq ∧
      e'.desc.bind Desc.comm? = e.desc.bind Desc.comm?) : RankOrder events rank t' owner where
  wellFormed := wellFormed
  seqs := by
    intro h e' found'
    obtain ⟨e, found, seq, -⟩ := kept h e' found'
    rw [seq, nextSeq]
    exact order.seqs h e found
  distinct := by
    intro h e' h₂ e₂' found' found₂' same
    obtain ⟨e, found, seq, -⟩ := kept h e' found'
    obtain ⟨e₂, found₂, seq₂, -⟩ := kept h₂ e₂' found₂'
    exact order.distinct h e h₂ e₂ found found₂ (seq.symm.trans (same.trans seq₂))
  comm := by
    intro h e' d found' isComm
    obtain ⟨e, found, -, desc⟩ := kept h e' found'
    exact order.comm h e d found (desc.symm.trans isComm)
  order := by
    intro h e' d h₂ e₂' d₂ k k₂ found' isComm isOwner found₂' isComm₂ isOwner₂ older
    obtain ⟨e, found, seq, desc⟩ := kept h e' found'
    obtain ⟨e₂, found₂, seq₂, desc₂⟩ := kept h₂ e₂' found₂'
    rw [seq, seq₂] at older
    exact order.order h e d h₂ e₂ d₂ k k₂ found (desc.symm.trans isComm) isOwner found₂ (desc₂.symm.trans isComm₂) isOwner₂
      older

theorem RankOrder.bound (order : RankOrder events rank t owner) {h : Handle} {e : Entry Desc} {d : CommDesc} {k : Nat}
    (found : t.find h = some e) (isComm : e.desc.bind Desc.comm? = some d) (isOwner : owner h = some k) :
    k < events.length := by
  obtain ⟨-, k', event, isOwner', isEvent, -⟩ := order.comm h e d found isComm
  obtain rfl := mem_unique isOwner' isOwner
  exact (List.getElem?_eq_some_iff.mp isEvent).1

/-- A new handle is younger than all others. A communicator's stands for the event that is just added. -/
theorem RankOrder.add {kind : Kind} {real handle : Handle} {desc : Option Desc} (order : RankOrder events rank t owner)
    (adds : t.Adds kind real desc handle t')
    (grown : ∀ (k : Nat) event, events[k]? = some event → events'[k]? = some event)
    (others : ∀ h, h ≠ handle → owner' h = owner h)
    (new : ∀ d, desc.bind Desc.comm? = some d → kind = .comm ∧ owner' handle = some events.length ∧
      ∃ event, events'[events.length]? = some event ∧ rank ∈ event.members ∧ d.globalRanks = event.members ∧
        d.size = event.members.length ∧ d.cart = event.cart) : RankOrder events' rank t' owner' := by
  obtain ⟨e, found, -, rfl, isSeq, -⟩ := adds.entry
  have entryCases : ∀ h f, t'.find h = some f → h = handle ∧ e = f ∨
      h ≠ handle ∧ t.find h = some f ∧ f.seq < e.seq := by
    intro h f isEntry
    refine ((adds.puts found).cases isEntry).imp (And.imp_right some.inj) fun ⟨differs, before⟩ => ?_
    exact ⟨differs, before, isSeq ▸ Nat.lt_succ_of_le (order.seqs h f before)⟩
  refine ⟨adds.wellFormed, ?_, ?_, ?_, ?_⟩
  · intro h f isEntry
    rw [adds.nextSeq]
    rcases entryCases h f isEntry with ⟨-, rfl⟩ | ⟨-, before, -⟩
    · exact le_of_eq isSeq
    · exact Nat.le_succ_of_le (order.seqs h f before)
  · intro h f h₂ f₂ isEntry isEntry₂ same
    rcases entryCases h f isEntry with ⟨rfl, rfl⟩ | ⟨-, before, older⟩
    · rcases entryCases h₂ f₂ isEntry₂ with ⟨rfl, -⟩ | ⟨-, -, older₂⟩
      · rfl
      · exact absurd same.symm (Nat.ne_of_lt older₂)
    · rcases entryCases h₂ f₂ isEntry₂ with ⟨rfl, rfl⟩ | ⟨-, before₂, -⟩
      · exact absurd same (Nat.ne_of_lt older)
      · exact order.distinct h f h₂ f₂ before before₂ same
  · intro h f d isEntry isComm
    rcases entryCases h f isEntry with ⟨rfl, rfl⟩ | ⟨differs, before, -⟩
    · obtain ⟨rfl, isOwner, event, rest⟩ := new d isComm
      exact ⟨adds.ofKind, events.length, event, isOwner, rest⟩
    · obtain ⟨isKind, k, event, isOwner, isEvent, rest⟩ := order.comm h f d before isComm
      exact ⟨isKind, k, event, (others h differs).trans isOwner, grown k event isEvent, rest⟩
  · intro h f d h₂ f₂ d₂ k k₂ isEntry isComm isOwner isEntry₂ isComm₂ isOwner₂ older
    rcases entryCases h f isEntry with ⟨rfl, rfl⟩ | ⟨differs, before, -⟩
    · rcases entryCases h₂ f₂ isEntry₂ with ⟨-, rfl⟩ | ⟨-, -, older₂⟩
      · exact absurd older (Nat.lt_irrefl _)
      · exact absurd older (Nat.lt_asymm older₂)
    · rw [others h differs] at isOwner
      rcases entryCases h₂ f₂ isEntry₂ with ⟨rfl, rfl⟩ | ⟨differs₂, before₂, -⟩
      · obtain ⟨-, isNew, -⟩ := new d₂ isComm₂
        obtain rfl := mem_unique isNew isOwner₂
        exact order.bound before isComm isOwner
      · rw [others h₂ differs₂] at isOwner₂
        exact order.order h f d h₂ f₂ d₂ k k₂ before isComm isOwner before₂ isComm₂ isOwner₂ older

end Order

structure RanksSound (size : Nat) (s : Ranks) : Prop where
  ranks : ∀ rank, RankOrder s.events rank (s.tables rank) (s.owner rank)
  members : ∀ event ∈ s.events, event.members ≠ [] ∧ ∀ rank ∈ event.members, rank < size

section Sound

variable {size : Nat} {jobs : Nat → Job} {s s' : Ranks}

theorem RanksSound.initial : RanksSound size (.initial jobs) where
  ranks := fun rank => .initial (jobs rank).up.wide (jobs rank).up.constants
  members := fun _ member => absurd member List.not_mem_nil

theorem RanksSound.setTable {rank : Nat} {t : Table Desc} (sound : RanksSound size s)
    (order : RankOrder s.events rank t (s.owner rank)) : RanksSound size (s.setTable rank t) where
  ranks := (forall_update_iff s.tables fun rank t => RankOrder s.events rank t (s.owner rank)).mpr
    ⟨order, fun other _ => sound.ranks other⟩
  members := sound.members

theorem RanksSound.create {event : CommEvent} {reals : Nat → Handle} {gid : Nat} (sound : RanksSound size s)
    (taken : s.step jobs size (.create event reals gid) = some s') : RanksSound size s' := by
  obtain ⟨⟨-, notEmpty, below, added⟩, taken⟩ := ite_none_right_eq_some.mp taken
  cases taken
  have grown : ∀ (k : Nat) old, s.events[k]? = some old → (s.events ++ [event])[k]? = some old := fun k old isEvent =>
    (List.getElem?_append_left (List.getElem?_eq_some_iff.mp isEvent).1).trans isEvent
  refine ⟨fun rank => ?_, ?_⟩
  · by_cases isMember : rank ∈ event.members
    · obtain ⟨⟨handle, t⟩, isAdded⟩ := isSome_iff_exists.mp (added rank isMember)
      simp only [Ranks.joined, isMember, if_true, isAdded]
      have adds := (sound.ranks rank).wellFormed.addVirtId isAdded
      refine (sound.ranks rank).add adds grown (fun h differs => update_of_ne differs _ _) fun d isComm => ?_
      cases isComm
      exact ⟨rfl, update_self _ _ _, event, List.getElem?_concat_length, isMember, rfl, rfl, rfl⟩
    · simp only [Ranks.joined, isMember, if_false]
      exact (sound.ranks rank).grow grown
  · intro old member
    rcases List.mem_append.mp member with before | isNew
    · exact sound.members old before
    · rw [List.mem_singleton.mp isNew]
      exact ⟨notEmpty, below⟩

theorem RanksSound.step {action : RanksAction} (sound : RanksSound size s) (taken : s.step jobs size action = some s') :
    RanksSound size s' := by
  cases action with
  | create event reals gid => exact sound.create taken
  | add rank kind real desc =>
    obtain ⟨⟨-, notComm⟩, taken⟩ := ite_none_right_eq_some.mp taken
    obtain ⟨⟨handle, t⟩, added, rfl⟩ := map_eq_some_iff.mp taken
    have adds := (sound.ranks rank).wellFormed.addVirtId added
    refine sound.setTable ((sound.ranks rank).add adds (fun _ _ isEvent => isEvent) (fun _ _ => rfl) fun d isComm => ?_)
    exact nomatch notComm.symm.trans isComm
  | free rank handle =>
    obtain ⟨t, freed, rfl⟩ := map_eq_some_iff.mp taken
    have frees := (sound.ranks rank).wellFormed.freeVirtId freed
    refine sound.setTable ((sound.ranks rank).keep frees.wellFormed frees.nextSeq fun h e' found' => ?_)
    exact ⟨e', (frees.before found').2, rfl, rfl⟩
  | assign rank handle change =>
    obtain ⟨t, modified, rfl⟩ := map_eq_some_iff.mp taken
    have modifies := (sound.ranks rank).wellFormed.modifyEntry change.place modified
    obtain ⟨e, found, -⟩ := modifies.entry
    refine sound.setTable ((sound.ranks rank).keep modifies.wellFormed modifies.nextSeq fun h e' found' => ?_)
    rcases (modifies.puts found).cases found' with ⟨rfl, isNew⟩ | ⟨-, before⟩
    · exact some.inj isNew ▸ ⟨e, found, change.seq e, change.comm e⟩
    · exact ⟨e', before, rfl, rfl⟩

theorem reachable_ranksSound (reached : Reachable (ranksMachine size jobs) s) : RanksSound size s := by
  refine reached.invariant (RanksSound size) ?_ ?_
  · rintro _ rfl
    exact .initial
  · exact fun s action s' _ sound taken => sound.step taken

end Sound

def Ranks.plan (s : Ranks) : Plan Nat Nat (List (Nat × Bool)) where
  parties k := (s.events[k]?).elim [] (·.members)
  arg k := (s.events[k]?).bind (·.cart)

/-- The communicators of a rank, in the order of `reconstruct_descriptors`. -/
def Ranks.tags (s : Ranks) (rank : Nat) : List Nat :=
  ((s.tables rank).reconstructOrder.filter fun e => (e.desc.bind Desc.comm?).isSome).map
    fun e => (s.owner rank e.virt).getD 0

section Tags

variable {size : Nat} {jobs : Nat → Job} {s : Ranks} {rank : Nat}

theorem Ranks.plan_eq {k : Nat} {event : CommEvent} (isEvent : s.events[k]? = some event) :
    s.plan.parties k = event.members ∧ s.plan.arg k = event.cart := by
  simp only [Ranks.plan, isEvent, elim_some, bind_some, and_self]

theorem RanksSound.entry (sound : RanksSound size s) {e : Entry Desc} {d : CommDesc}
    (member : e ∈ (s.tables rank).reconstructOrder) (isComm : e.desc.bind Desc.comm? = some d) :
    (s.tables rank).find e.virt = some e ∧ kindOf e.virt = Kind.comm.code ∧
      ∃ k event, s.owner rank e.virt = some k ∧ s.events[k]? = some event ∧ rank ∈ event.members ∧
        d.globalRanks = event.members ∧ d.size = event.members.length ∧ d.cart = event.cart := by
  have found := (sound.ranks rank).wellFormed.shape.mem_reconstructOrder.mp member
  exact ⟨found, (sound.ranks rank).comm e.virt e d found isComm⟩

theorem RanksSound.program_eq (sound : RanksSound size s) (rank : Nat) :
    s.program rank = (s.tags rank).flatMap s.plan.calls := by
  have each : ∀ e ∈ (s.tables rank).reconstructOrder,
      e.calls.map (fun call => ((s.owner rank e.virt).getD 0, call)) =
        if (e.desc.bind Desc.comm?).isSome then s.plan.calls ((s.owner rank e.virt).getD 0) else [] := by
    intro e member
    cases isComm : e.desc.bind Desc.comm? with
    | none => simp only [Entry.calls, isComm, map_none, getD_none, List.map_nil, isSome_none,
        Bool.false_eq_true, if_false]
    | some d =>
      obtain ⟨-, -, k, event, isOwner, isEvent, -, ranks, isSize, cart⟩ := sound.entry member isComm
      obtain ⟨isParties, isArg⟩ := Ranks.plan_eq isEvent
      simp only [Entry.calls, isComm, map_some, getD_some, isOwner, isSome_some, if_true,
        CommDesc.calls, ranks, isSize, List.take_length, cart, Plan.calls, Plan.uses, isParties, isArg, List.map_cons]
      cases event.cart <;> rfl
  unfold Ranks.program Ranks.tags
  generalize (s.tables rank).reconstructOrder = entries at each
  induction entries with
  | nil => rfl
  | cons e rest ih =>
    rw [List.flatMap_cons, each e List.mem_cons_self, ih fun f member => each f (List.mem_cons_of_mem _ member)]
    cases isComm : (e.desc.bind Desc.comm?).isSome with
    | true => simp only [if_true, List.filter_cons, isComm, List.map_cons, List.flatMap_cons]
    | false => simp only [Bool.false_eq_true, if_false, List.filter_cons, isComm, List.nil_append]

theorem RanksSound.mem_tags (sound : RanksSound size s) {k : Nat} : k ∈ s.tags rank ↔ s.Live rank k := by
  have shape := (sound.ranks rank).wellFormed.shape
  simp only [Ranks.tags, List.mem_map, List.mem_filter, isSome_iff_exists]
  constructor
  · rintro ⟨e, ⟨member, d, isComm⟩, isTag⟩
    obtain ⟨found, -, k', event, isOwner, -⟩ := sound.entry member isComm
    rw [isOwner, getD_some] at isTag
    subst isTag
    exact ⟨e.virt, d, by rw [commDesc, found, bind_some, isComm], isOwner⟩
  · rintro ⟨h, d, isDesc, isOwner⟩
    obtain ⟨e, found, isComm⟩ := bind_eq_some_iff.mp isDesc
    obtain rfl := Table.find_virt found
    exact ⟨e, ⟨shape.mem_reconstructOrder.mpr found, d, isComm⟩, by rw [isOwner, getD_some]⟩

theorem RanksSound.tags_sorted (sound : RanksSound size s) (rank : Nat) : (s.tags rank).Pairwise (· < ·) := by
  have shape := (sound.ranks rank).wellFormed.shape
  have sorted : (s.tables rank).reconstructOrder.Pairwise precedes := List.pairwise_insertionSort _ _
  have distinct : (s.tables rank).reconstructOrder.Pairwise fun e f => e.virt ≠ f.virt :=
    List.pairwise_map.mp shape.reconstructOrder_nodup
  rw [Ranks.tags, List.pairwise_map]
  refine ((sorted.and distinct).filter _).imp_of_mem fun {e f} member member' => ?_
  rintro ⟨before, differs⟩
  obtain ⟨member, isSome⟩ := List.mem_filter.mp member
  obtain ⟨member', isSome'⟩ := List.mem_filter.mp member'
  obtain ⟨d, isComm⟩ := isSome_iff_exists.mp isSome
  obtain ⟨d', isComm'⟩ := isSome_iff_exists.mp isSome'
  obtain ⟨found, isKind, k, -, isOwner, -⟩ := sound.entry member isComm
  obtain ⟨found', isKind', k', -, isOwner', -⟩ := sound.entry member' isComm'
  have older : e.seq < f.seq := by
    refine lt_of_le_of_ne ?_ fun same => differs ((sound.ranks rank).distinct _ e _ f found found' same)
    simp only [precedes, isKind, isKind'] at before
    omega
  rw [isOwner, isOwner']
  exact (sound.ranks rank).order _ e d _ f d' k k' found isComm isOwner found' isComm' isOwner' older

theorem RanksSound.live_member (sound : RanksSound size s) {k : Nat} (live : s.Live rank k) :
    ∃ event, s.events[k]? = some event ∧ rank ∈ event.members := by
  obtain ⟨h, d, isDesc, isOwner⟩ := live
  obtain ⟨e, found, isComm⟩ := bind_eq_some_iff.mp isDesc
  obtain ⟨-, k', event, isOwner', isEvent, isMember, -⟩ := (sound.ranks rank).comm h e d found isComm
  obtain rfl := mem_unique isOwner' isOwner
  exact ⟨event, isEvent, isMember⟩

/-- All ranks at the start of `reconstruct_descriptors` go by the plan. -/
theorem RanksSound.rebuilding (sound : RanksSound size s) (uniform : s.Uniform) :
    InOrder s.plan s.rebuilding (fun _ => none) s.tags := by
  have isProgram : s.rebuilding = ⟨fun rank => (s.tags rank).flatMap s.plan.calls, fun _ => none, []⟩ := by
    rw [Ranks.rebuilding, funext sound.program_eq]
  rw [isProgram]
  refine InOrder.initial sound.tags_sorted ?_ ?_
  · intro rank k member
    obtain ⟨event, isEvent, isMember⟩ := sound.live_member (sound.mem_tags.mp member)
    rw [(Ranks.plan_eq isEvent).1]
    exact isMember
  · intro rank k member other isParty
    have live := sound.mem_tags.mp member
    obtain ⟨event, isEvent, isMember⟩ := sound.live_member live
    rw [(Ranks.plan_eq isEvent).1] at isParty
    exact sound.mem_tags.mpr (uniform k event isEvent rank isMember other isParty live)

structure MeetsFor (s : Ranks) (c : Meeting Nat Nat (List (Nat × Bool))) (m : Meet Nat) (k : Nat) (event : CommEvent)
    (call : Lib.Call Nat (List (Nat × Bool))) : Prop where
  isEvent : s.events[k]? = some event
  members : c.parties m = event.members
  blocked : ∀ rank ∈ event.members, (c.todo rank).head? = some (k, call)
  call : call = .form event.members ∨ ∃ dims, event.cart = some dims ∧ call = .use dims

theorem comms_rebuilt_in_order (reached : Reachable (ranksMachine size jobs) s) (uniform : s.Uniform) :
    (∀ rank k, s.Live rank k ↔ ∃ call, (k, call) ∈ s.rebuilding.todo rank) ∧
    (∀ rank k event, s.Live rank k → s.events[k]? = some event → (s.rebuilding.todo rank).filter (·.1 = k) =
      (k, .form event.members) :: event.cart.elim [] fun dims => [(k, .use dims)]) ∧
    ∀ c, Reachable (rebuildMachine s) c → (c.Finished ∨ ∃ m c', c.step m = some c') ∧
      ∀ m c', c.step m = some c' → c'.remaining (Finset.range size) < c.remaining (Finset.range size) ∧
        ∃ k event call, MeetsFor s c m k event call := by
  have sound := reachable_ranksSound reached
  refine ⟨fun rank k => ?_, fun rank k event live isEvent => ?_, fun c ran => ?_⟩
  · show _ ↔ ∃ call, (k, call) ∈ s.program rank
    rw [← sound.mem_tags, sound.program_eq]
    simp only [List.mem_flatMap]
    constructor
    · exact fun member => ⟨_, k, member, List.mem_cons_self⟩
    · rintro ⟨call, k', member, isCall⟩
      obtain rfl : k = k' := Plan.calls_tag isCall
      exact member
  · obtain ⟨isParties, isArg⟩ := Ranks.plan_eq isEvent
    have distinct : (s.tags rank).Nodup := (sound.tags_sorted rank).imp Nat.ne_of_lt
    show (s.program rank).filter _ = _
    rw [sound.program_eq, Plan.filter_calls _ distinct (sound.mem_tags.mpr live), Plan.calls, Plan.uses, isParties, isArg]
  · obtain ⟨opened, rest, inOrder⟩ : ∃ opened rest, InOrder s.plan c opened rest := by
      refine ran.invariant (fun c => ∃ opened rest, InOrder s.plan c opened rest) ?_ ?_
      · rintro _ rfl
        exact ⟨_, _, sound.rebuilding uniform⟩
      · rintro c m c' - ⟨opened, rest, inOrder⟩ taken
        obtain ⟨k, call, opened', rest', after, -⟩ := inOrder.step taken
        exact ⟨opened', rest', after⟩
    refine ⟨?_, fun m c' taken => ?_⟩
    · by_cases finished : c.Finished
      · exact .inl finished
      · exact .inr (inOrder.progress finished)
    · obtain ⟨k, call, -, -, -, together⟩ := inOrder.step taken
      cases isEvent : s.events[k]? with
      | none =>
        refine absurd ?_ together.nonempty
        simp only [Ranks.plan, isEvent, elim_none]
      | some event =>
        obtain ⟨isParties, isArg⟩ := Ranks.plan_eq isEvent
        refine ⟨together.remaining taken fun rank isParty => ?_, k, event, call, isEvent, ?_, ?_, ?_⟩
        · rw [isParties] at isParty
          exact Finset.mem_range.mpr ((sound.members event (List.mem_of_getElem? isEvent)).2 rank isParty)
        · exact together.parties.trans isParties
        · exact isParties ▸ together.blocked
        · exact isParties ▸ isArg ▸ together.planned

/-- The condition on the live communicators, as a test. -/
def Ranks.uniform (s : Ranks) : Bool :=
  (List.range s.events.length).all fun k => (s.plan.parties k).all fun rank =>
    (s.plan.parties k).all fun other => !(s.tags rank).contains k || (s.tags other).contains k

theorem RanksSound.uniform_of_test (sound : RanksSound size s) (tested : s.uniform = true) : s.Uniform := by
  intro k event isEvent rank isMember other isMember' live
  simp only [Ranks.uniform, List.all_eq_true, List.mem_range, Bool.or_eq_true, Bool.not_eq_true',
    List.contains_eq_mem, decide_eq_false_iff_not, decide_eq_true_eq] at tested
  have isParties := (Ranks.plan_eq isEvent).1
  have member := sound.mem_tags.mpr live
  rcases tested k (List.getElem?_eq_some_iff.mp isEvent).1 rank (isParties ▸ isMember) other (isParties ▸ isMember') with
    notLive | isLive
  · exact absurd member notLive
  · exact sound.mem_tags.mp isLive

end Tags

def threeRankJobs (rank : Nat) : Job := { twoRankJob with size := 3, me := rank }

/-- Two communicators of the same two ranks, the second in the slot of a freed one, and a Cartesian one of all ranks. -/
theorem comms_rebuilt_in_order_same_groups :
    ∃ s : Ranks, Reachable (ranksMachine 3 threeRankJobs) s ∧ s.Uniform ∧
      s.program 0 = [(1, .form [1, 0]), (2, .form [0, 1, 2]), (2, .use [(3, true)]), (3, .form [1, 0])] ∧
      s.program 2 = [(2, .form [0, 1, 2]), (2, .use [(3, true)])] ∧
      ∀ c, Reachable (rebuildMachine s) c → c.Finished ∨ ∃ m c', c.step m = some c' := by
  have ran : ((ranksMachine 3 threeRankJobs).run (.initial threeRankJobs)
      [.create ⟨[1, 0], none⟩ (fun rank => rank + 10) 1, .create ⟨[1, 0], none⟩ (fun rank => rank + 20) 2,
        .create ⟨[0, 1, 2], some [(3, true)]⟩ (fun rank => rank + 30) 3, .free 1 0x10000002, .free 0 0x10000002,
        .create ⟨[1, 0], none⟩ (fun rank => rank + 40) 4]).map
        (fun s => (s.uniform, decide (s.program 0 =
            [(1, .form [1, 0]), (2, .form [0, 1, 2]), (2, .use [(3, true)]), (3, .form [1, 0])]),
          decide (s.program 2 = [(2, .form [0, 1, 2]), (2, .use [(3, true)])]))) =
      some (true, true, true) := by decide +kernel
  obtain ⟨s, ran, ends⟩ := map_eq_some_iff.mp ran
  simp only [Prod.mk.injEq, decide_eq_true_eq] at ends
  obtain ⟨tested, first, third⟩ := ends
  have start : (ranksMachine 3 threeRankJobs).initial (.initial threeRankJobs) := rfl
  have reached := (Reachable.start start).run ran
  have uniform := (reachable_ranksSound reached).uniform_of_test tested
  exact ⟨s, reached, uniform, first, third, fun c ran => ((comms_rebuilt_in_order reached uniform).2.2 c ran).1⟩

end Mana.VirtId
