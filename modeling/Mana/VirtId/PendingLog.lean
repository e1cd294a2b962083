import Mana.Lib.Links
import Mana.Lib.Machine
import Mana.VirtId.Shape
import Mathlib.Data.List.InsertIdx
import Mathlib.Data.List.Perm.Subperm

/-! The log of pending point-to-point calls: the calls are kept in the entries of their
requests, and the entries are linked in the order in which the calls were posted. -/

namespace Mana.VirtId
open Mana.Lib Option Function

variable {δ : Type}

/-- The table with the links through its entries, by slot, and `pendingIssends`. -/
structure PendingLog (δ : Type) where
  table : Table δ
  links : Links Nat
  issends : Int

def Table.setCall (t : Table δ) (e : Entry δ) (call : Option NonblockingCall) : Table δ :=
  t.setEntry (slotOf e.virt) { e with call := call }

def CallType.issends : CallType → Nat
  | .issend => 1
  | _ => 0

def PendingLog.addPendingRequestToLog (wide : Bool) (s : PendingLog δ) (call : NonblockingCall) (request : Handle) :
    Option (PendingLog δ) :=
  (s.table.lookupVirtIdEntry wide request).map fun e =>
    { table := s.table.setCall e (some { call with laterSends := 0 })
      links := s.links.append (slotOf e.virt)
      issends := s.issends + call.type.issends }

def PendingLog.clearPendingRequestFromLog (wide : Bool) (s : PendingLog δ) (request : Handle) : PendingLog δ :=
  match s.table.lookupVirtIdEntry wide request with
  | none => s
  | some e =>
    match e.call with
    | none => s
    | some call =>
      { table := s.table.setCall e none
        links := s.links.unlink (slotOf e.virt)
        issends := s.issends - call.type.issends }

/-- The counter only ever goes down here. -/
def PendingLog.replacePendingCall (wide : Bool) (s : PendingLog δ) (request : Handle) (call : NonblockingCall) :
    Option (PendingLog δ) :=
  (s.table.lookupVirtIdEntry wide request).bind fun e =>
    e.call.map fun old =>
      { s with
        table := s.table.setCall e (some call)
        issends := if old.type = .issend ∧ call.type ≠ .issend then s.issends - 1 else s.issends }

/-- The slots that a loop over the list visits. -/
def PendingLog.walk (s : PendingLog δ) : Option (List Nat) := s.links.walk s.table.highWater s.links.head

def NonblockingCall.countLater (call : NonblockingCall) (comm : Handle) (dest tag : Int) : NonblockingCall :=
  if call.type = .issend ∧ call.comm = comm ∧ call.remoteNode = dest ∧ call.tag = tag then
    { call with laterSends := call.laterSends + 1 }
  else call

def Table.countLater (comm : Handle) (dest tag : Int) (t : Table δ) (slot : Nat) : Table δ :=
  match t.entries slot with
  | none => t
  | some e => t.setCall e (e.call.map (·.countLater comm dest tag))

def PendingLog.countSendAfterIssends (s : PendingLog δ) (comm : Handle) (dest tag : Int) : Option (PendingLog δ) :=
  if s.issends = 0 then some s
  else s.walk.map fun slots => { s with table := slots.foldl (Table.countLater comm dest tag) s.table }

def PendingLog.pendingRequestsInPostingOrder (s : PendingLog δ) : Option (List Handle) :=
  s.walk.map fun slots => slots.filterMap fun slot => (s.table.entries slot).map (·.virt)

/-- What the log depends on: under each handle, the request with a pending call and the type of the call. -/
def Table.pendingAt (t : Table δ) (handle : Nat) : Option (Nat × CallType) :=
  (t.find handle).bind fun e => e.call.map fun call => (e.seq, call.type)

/-- The log is that of the requests with the given handles and numbers, in this order: these are the
ones with a pending call, and the counter is that of the synchronous ones among them. -/
structure PendingLog.Represents (s : PendingLog δ) (order : List (Nat × Nat)) : Prop where
  wellFormed : s.table.WellFormed
  linked : Linked s.links (order.map fun ref => slotOf ref.1)
  exact : ∀ ref : Nat × Nat, ref ∈ order ↔ ∃ type, s.table.pendingAt ref.1 = some (ref.2, type)
  issends : s.issends = order.countP fun ref => s.table.pendingAt ref.1 = some (ref.2, .issend)

section Table

variable {t : Table δ} {handle other : Nat} {e : Entry δ}

theorem Table.pendingAt_of_find (found : t.find handle = some e) :
    t.pendingAt handle = e.call.map fun call => (e.seq, call.type) := by
  rw [Table.pendingAt, found, bind_some]

theorem Table.find_of_pendingAt {seq : Nat} {type : CallType} (pending : t.pendingAt handle = some (seq, type)) :
    ∃ e call, t.find handle = some e ∧ e.call = some call ∧ e.seq = seq ∧ call.type = type := by
  obtain ⟨e, found, pending⟩ := bind_eq_some_iff.mp pending
  obtain ⟨call, isCall, same⟩ := map_eq_some_iff.mp pending
  cases same
  exact ⟨e, call, found, isCall, rfl, rfl⟩

theorem Table.handle_eq_of_slot {e' : Entry δ} (one : t.find handle = some e) (two : t.find other = some e')
    (sameSlot : slotOf handle = slotOf other) : handle = other := by
  have inSlot := (Table.find_eq_some.mp one).2.1
  rw [sameSlot, (Table.find_eq_some.mp two).2.1] at inSlot
  rw [← Table.find_virt one, ← Table.find_virt two, some.inj inSlot]

theorem Table.modifyEntry_find {wide : Bool} (found : t.find handle = some e) (assign : Entry δ → Entry δ) :
    t.modifyEntry wide handle assign = some (t.setEntry (slotOf e.virt) (assign e)) := by
  have small := Table.find_small found
  rw [Table.modifyEntry, Table.lookup_find, handleValue_of_lt small, found, map_some, Nat.mod_eq_of_lt small,
    Table.find_virt found]

theorem Table.WellFormed.setCall (wf : t.WellFormed) (found : t.find handle = some e) (call : Option NonblockingCall) :
    (t.setCall e call).WellFormed ∧ (t.setCall e call).pendingAt =
      update t.pendingAt handle (call.map fun call => (e.seq, call.type)) := by
  have modified : t.modifyEntry false handle (fun e => { e with call := call }) = some (t.setCall e call) :=
    Table.modifyEntry_find found _
  have modifies := wf.modifies (handleValue_of_lt (Table.find_small found)) modified fun _ => rfl
  obtain ⟨old, foundOld, foundNew, -⟩ := modifies.entry
  obtain rfl := mem_unique found foundOld
  refine ⟨modifies.wellFormed, funext fun other => ?_⟩
  by_cases same : other = handle
  · subst same
    rw [update_self, Table.pendingAt_of_find foundNew]
  · rw [update_of_ne same, Table.pendingAt, modifies.others other same, ← Table.pendingAt]

end Table

section Represents

variable {s : PendingLog δ} {order : List (Nat × Nat)} {handle : Nat} {e : Entry δ}

theorem PendingLog.Represents.nodup (rep : s.Represents order) : order.Nodup := .of_map _ rep.linked.nodup

variable {call : NonblockingCall}

theorem PendingLog.Represents.mem_of_find (rep : s.Represents order) (found : s.table.find handle = some e)
    (pending : e.call = some call) : (handle, e.seq) ∈ order :=
  (rep.exact _).mpr ⟨call.type, by rw [Table.pendingAt_of_find found, pending, map_some]⟩

theorem PendingLog.Represents.congr {t : Table δ} (rep : s.Represents order) (wf : t.WellFormed)
    (same : t.pendingAt = s.table.pendingAt) : { s with table := t : PendingLog δ }.Represents order where
  wellFormed := wf
  linked := rep.linked
  exact := same ▸ rep.exact
  issends := same ▸ rep.issends

theorem PendingLog.Represents.ne_of_mem (rep : s.Represents order) (found : s.table.find handle = some e)
    {ref : Nat × Nat} (member : ref ∈ order) (differs : ref ≠ (handle, e.seq)) : ref.1 ≠ handle := by
  rintro rfl
  obtain ⟨type, pending⟩ := (rep.exact ref).mp member
  obtain ⟨e', -, found', -, isSeq, -⟩ := Table.find_of_pendingAt pending
  obtain rfl := mem_unique found found'
  exact differs (Prod.ext rfl isSeq.symm)

theorem CallType.issends_eq (type : CallType) : type.issends = if type = .issend then 1 else 0 := by
  cases type <;> rfl

theorem PendingLog.Represents.count_erase (rep : s.Represents order) (found : s.table.find handle = some e)
    (pending : e.call = some call) (after : Option CallType) :
    (((order.erase (handle, e.seq)).countP fun ref =>
      update s.table.pendingAt handle (after.map fun type => (e.seq, type)) ref.1 =
        some (ref.2, .issend) : Nat) : Int) = s.issends - call.type.issends := by
  have member := rep.mem_of_find found pending
  have rest : (order.erase (handle, e.seq)).countP (fun ref =>
      update s.table.pendingAt handle (after.map fun type => (e.seq, type)) ref.1 = some (ref.2, .issend)) =
      (order.erase (handle, e.seq)).countP fun ref => s.table.pendingAt ref.1 = some (ref.2, .issend) := by
    refine List.countP_congr fun ref inRest => ?_
    obtain ⟨differs, inOrder⟩ := rep.nodup.mem_erase_iff.mp inRest
    rw [update_of_ne (rep.ne_of_mem found inOrder differs)]
  have whole := (List.perm_cons_erase member).countP_eq fun ref => s.table.pendingAt ref.1 = some (ref.2, .issend)
  rw [rest, rep.issends, whole, List.countP_cons, Table.pendingAt_of_find found, pending, CallType.issends_eq]
  simp

theorem PendingLog.Represents.add (rep : s.Represents order) (found : s.table.find handle = some e)
    (fresh : e.call = none) (call : NonblockingCall) :
    PendingLog.Represents { table := s.table.setCall e (some call), links := s.links.append (slotOf e.virt),
                            issends := s.issends + call.type.issends : PendingLog δ }
      (order ++ [(handle, e.seq)]) := by
  obtain ⟨wf, pendingAt⟩ := rep.wellFormed.setCall found (some call)
  have notPending : s.table.pendingAt handle = none := by rw [Table.pendingAt_of_find found, fresh, map_none]
  have apart (ref : Nat × Nat) (member : ref ∈ order) : ref.1 ≠ handle := by
    rintro rfl
    obtain ⟨type, pending⟩ := (rep.exact ref).mp member
    exact nomatch notPending.symm.trans pending
  refine ⟨wf, ?_, fun ref => ?_, ?_⟩
  · rw [List.map_append, Table.find_virt found]
    refine rep.linked.append fun member => ?_
    obtain ⟨ref, inOrder, sameSlot⟩ := List.mem_map.mp member
    obtain ⟨type, pending⟩ := (rep.exact ref).mp inOrder
    obtain ⟨e', -, found', -⟩ := Table.find_of_pendingAt pending
    exact apart ref inOrder (Table.handle_eq_of_slot found' found sameSlot)
  · dsimp only
    rw [pendingAt, List.mem_append, List.mem_singleton, rep.exact]
    by_cases same : ref.1 = handle
    · rw [same, update_self, notPending]
      simp [Prod.ext_iff, same, eq_comm]
    · rw [update_of_ne same]
      exact ⟨fun known => known.resolve_right fun isNew => same (congrArg Prod.fst isNew), .inl⟩
  · dsimp only
    have rest : order.countP (fun ref => (s.table.setCall e (some call)).pendingAt ref.1 = some (ref.2, .issend)) =
        order.countP fun ref => s.table.pendingAt ref.1 = some (ref.2, .issend) :=
      List.countP_congr fun ref member => by rw [pendingAt, update_of_ne (apart ref member)]
    rw [List.countP_append, rest, rep.issends, pendingAt, CallType.issends_eq, List.countP_singleton,
      update_self]
    simp

theorem PendingLog.Represents.clear (rep : s.Represents order) (found : s.table.find handle = some e)
    (pending : e.call = some call) :
    PendingLog.Represents { table := s.table.setCall e none, links := s.links.unlink (slotOf e.virt),
                            issends := s.issends - call.type.issends : PendingLog δ }
      (order.erase (handle, e.seq)) := by
  obtain ⟨wf, pendingAt⟩ := rep.wellFormed.setCall found none
  have member := rep.mem_of_find found pending
  refine ⟨wf, ?_, fun ref => ?_, ?_⟩
  · rw [List.erase_eq_eraseIdx_of_idxOf rfl, ← List.eraseIdx_map, Table.find_virt found]
    refine rep.linked.unlink ?_
    rw [List.getElem?_map, List.getElem?_idxOf member, map_some]
  · dsimp only
    rw [pendingAt, rep.nodup.mem_erase_iff]
    by_cases same : ref.1 = handle
    · rw [same, update_self]
      refine iff_of_false (fun ⟨differs, inOrder⟩ => rep.ne_of_mem found inOrder differs same) ?_
      exact fun ⟨type, isPending⟩ => nomatch isPending
    · rw [update_of_ne same, rep.exact, and_iff_right fun isRef => same (congrArg Prod.fst isRef)]
  · dsimp only
    rw [pendingAt]
    exact (rep.count_erase found pending none).symm

/-- A replaced call keeps its place; the counter is then right unless the call becomes synchronous. -/
theorem PendingLog.Represents.replace_iff (rep : s.Represents order) {old : NonblockingCall}
    (found : s.table.find handle = some e) (pending : e.call = some old) (call : NonblockingCall) :
    PendingLog.Represents
      { s with
        table := s.table.setCall e (some call)
        issends := if old.type = .issend ∧ call.type ≠ .issend then s.issends - 1 else s.issends : PendingLog δ }
      order ↔ (call.type = .issend → old.type = .issend) := by
  obtain ⟨wf, pendingAt⟩ := rep.wellFormed.setCall found (some call)
  have member := rep.mem_of_find found pending
  have count : ((order.countP fun ref =>
      (s.table.setCall e (some call)).pendingAt ref.1 = some (ref.2, .issend) : Nat) : Int) =
        s.issends - old.type.issends + call.type.issends := by
    have whole := (List.perm_cons_erase member).countP_eq fun ref =>
      (s.table.setCall e (some call)).pendingAt ref.1 = some (ref.2, .issend)
    rw [whole, List.countP_cons, pendingAt, Int.natCast_add]
    have rest := rep.count_erase found pending (some call.type)
    rw [map_some] at rest
    rw [map_some, rest, update_self, CallType.issends_eq call.type]
    simp
  have counted : (if old.type = .issend ∧ call.type ≠ .issend then s.issends - 1 else s.issends) =
      s.issends - old.type.issends + call.type.issends ↔ (call.type = .issend → old.type = .issend) := by
    rw [CallType.issends_eq, CallType.issends_eq]
    by_cases was : old.type = .issend <;> by_cases becomes : call.type = .issend <;> simp [was, becomes]
  rw [← counted, ← count]
  refine ⟨fun after => after.issends, fun issends => ⟨wf, rep.linked, fun ref => ?_, issends⟩⟩
  rw [rep.exact]
  dsimp only
  rw [pendingAt]
  by_cases same : ref.1 = handle
  · rw [same, update_self, Table.pendingAt_of_find found, pending]
    simp
  · rw [update_of_ne same]

theorem PendingLog.Represents.walk (rep : s.Represents order) : s.walk = some (order.map fun ref => slotOf ref.1) := by
  refine rep.linked.walk ?_
  have inside : (order.map fun ref => slotOf ref.1) ⊆ List.range s.table.highWater := by
    intro slot member
    obtain ⟨ref, inOrder, rfl⟩ := List.mem_map.mp member
    obtain ⟨type, pending⟩ := (rep.exact ref).mp inOrder
    obtain ⟨e, -, found, -⟩ := Table.find_of_pendingAt pending
    exact List.mem_range.mpr (rep.wellFormed.shape.find_highWater found)
  have bound := (List.subperm_of_subset rep.linked.nodup inside).length_le
  rwa [List.length_range] at bound

theorem PendingLog.Represents.inPostingOrder (rep : s.Represents order) :
    s.pendingRequestsInPostingOrder = some (order.map (·.1)) := by
  have virt (ref : Nat × Nat) (member : ref ∈ order) :
      (s.table.entries (slotOf ref.1)).map (·.virt) = some ref.1 := by
    obtain ⟨type, pending⟩ := (rep.exact ref).mp member
    obtain ⟨e, -, found, -⟩ := Table.find_of_pendingAt pending
    rw [(Table.find_eq_some.mp found).2.1, map_some, Table.find_virt found]
  rw [PendingLog.pendingRequestsInPostingOrder, rep.walk, map_some, List.filterMap_map]
  exact congrArg some ((List.filterMap_congr virt).trans (congrFun List.filterMap_eq_map' order))

theorem NonblockingCall.countLater_type (call : NonblockingCall) (comm : Handle) (dest tag : Int) :
    (call.countLater comm dest tag).type = call.type := by
  unfold NonblockingCall.countLater
  split <;> rfl

section Count

variable {comm : Handle} {dest tag : Int}

theorem Table.WellFormed.countLater {t : Table δ} (wf : t.WellFormed) {pending : Nat × CallType}
    (isPending : t.pendingAt handle = some pending) :
    (t.countLater comm dest tag (slotOf handle)).WellFormed ∧
      (t.countLater comm dest tag (slotOf handle)).pendingAt = t.pendingAt := by
  obtain ⟨e, call, found, isCall, -⟩ := Table.find_of_pendingAt isPending
  obtain ⟨wf', pendingAt⟩ := wf.setCall found (e.call.map (·.countLater comm dest tag))
  rw [Table.countLater, (Table.find_eq_some.mp found).2.1]
  refine ⟨wf', pendingAt.trans (update_eq_self_iff.mpr ?_)⟩
  rw [Table.pendingAt_of_find found, isCall, map_some, map_some, map_some,
    NonblockingCall.countLater_type]

theorem Table.WellFormed.countLater_fold {t : Table δ} (wf : t.WellFormed) (refs : List (Nat × Nat))
    (pending : ∀ ref ∈ refs, ∃ type, t.pendingAt ref.1 = some (ref.2, type)) :
    ((refs.map fun ref => slotOf ref.1).foldl (Table.countLater comm dest tag) t).WellFormed ∧
      ((refs.map fun ref => slotOf ref.1).foldl (Table.countLater comm dest tag) t).pendingAt = t.pendingAt := by
  induction refs generalizing t with
  | nil => exact ⟨wf, rfl⟩
  | cons ref refs ih =>
    obtain ⟨type, isPending⟩ := pending ref List.mem_cons_self
    obtain ⟨wf', same⟩ := @Table.WellFormed.countLater _ _ comm dest tag _ wf _ isPending
    obtain ⟨wellFormed, kept⟩ := ih wf' fun other member => same ▸ pending other (List.mem_cons_of_mem _ member)
    exact ⟨wellFormed, kept.trans same⟩

theorem PendingLog.Represents.count {s' : PendingLog δ} (rep : s.Represents order)
    (counted : s.countSendAfterIssends comm dest tag = some s') : s'.Represents order := by
  rw [PendingLog.countSendAfterIssends, rep.walk] at counted
  split at counted
  · cases counted
    exact rep
  · cases counted
    obtain ⟨wf, same⟩ := rep.wellFormed.countLater_fold order fun ref member => (rep.exact ref).mp member
    exact rep.congr wf same

end Count

end Represents

/-- The log next to the requests that it should hold, in posting order. -/
structure OrderedLog (δ : Type) where
  log : PendingLog δ
  order : List (Nat × Nat)

/-- What the ranks do with the log; `clear` names the request that the caller means by its number, since
its handle may be stale. -/
inductive LogAct (δ : Type) where
  | issue (kind : Kind) (real : Handle) (desc : Option δ)
  | free (request : Handle)
  | add (call : NonblockingCall) (request : Handle)
  | clear (request : Handle) (seq : Nat)
  | replace (request : Handle) (call : NonblockingCall)
  | count (comm : Handle) (dest tag : Int)

def OrderedLog.step (wide : Bool) (s : OrderedLog δ) : LogAct δ → Option (OrderedLog δ)
  | .issue kind real desc =>
    (s.log.table.addVirtId kind real desc).map fun (_, table) => { s with log := { s.log with table := table } }
  | .free request =>
    (s.log.table.freeVirtId wide request).map fun table => { s with log := { s.log with table := table } }
  | .add call request =>
    (s.log.table.lookupVirtIdEntry wide request).bind fun e =>
      if e.call.isSome then none
      else (s.log.addPendingRequestToLog wide call request).map fun log =>
        { log := log, order := s.order ++ [(handleValue wide request, e.seq)] }
  | .clear request seq =>
    some { log := s.log.clearPendingRequestFromLog wide request
           order := s.order.erase (handleValue wide request, seq) }
  | .replace request call => (s.log.replacePendingCall wide request call).map fun log => { s with log := log }
  | .count comm dest tag => (s.log.countSendAfterIssends comm dest tag).map fun log => { s with log := log }

def OrderedLog.machine (wide : Bool) : Machine (OrderedLog δ) (LogAct δ) where
  initial s := ∃ constants, s = ⟨⟨Table.initial wide constants, .empty, 0⟩, []⟩
  step := OrderedLog.step wide

/-- No request but the one meant is pending under a cleared handle, and only a synchronous call is replaced
by a synchronous one. -/
def OrderedLog.Means (wide : Bool) (s : OrderedLog δ) : LogAct δ → Prop
  | .clear request seq => ∀ ref ∈ s.log.table.pendingAt (handleValue wide request), ref.1 = seq
  | .replace request call =>
    ∀ ref ∈ s.log.table.pendingAt (handleValue wide request), call.type = .issend → ref.2 = .issend
  | _ => True

instance (wide : Bool) (s : OrderedLog δ) (a : LogAct δ) : Decidable (s.Means wide a) :=
  match a with
  | .clear request seq =>
    inferInstanceAs (Decidable (∀ ref ∈ s.log.table.pendingAt (handleValue wide request), ref.1 = seq))
  | .replace request call =>
    inferInstanceAs (Decidable (∀ ref ∈ s.log.table.pendingAt (handleValue wide request),
      call.type = .issend → ref.2 = .issend))
  | .issue _ _ _ | .free _ | .add _ _ | .count _ _ _ => .isTrue trivial

section Steps

variable {wide : Bool} {s s' : OrderedLog δ}

theorem OrderedLog.issue_kept {kind : Kind} {real handle : Handle} {desc : Option δ} {table : Table δ}
    (rep : s.log.Represents s.order) (added : s.log.table.addVirtId kind real desc = some (handle, table)) :
    { s.log with table := table : PendingLog δ }.Represents s.order := by
  have adds := rep.wellFormed.addVirtId added
  refine rep.congr adds.wellFormed (funext fun other => ?_)
  by_cases same : other = handle
  · subst same
    obtain ⟨e, found, -, -, -, noCall, -⟩ := adds.entry
    rw [Table.pendingAt_of_find found, noCall, Table.pendingAt, adds.fresh, map_none, bind_none]
  · rw [Table.pendingAt, adds.others other same, ← Table.pendingAt]

theorem OrderedLog.free_kept {request : Handle} {table : Table δ} (rep : s.log.Represents s.order)
    (freed : s.log.table.freeVirtId wide request = some table) :
    { s.log with table := table : PendingLog δ }.Represents s.order := by
  have frees := rep.wellFormed.freeVirtId freed
  refine rep.congr frees.wellFormed (funext fun other => ?_)
  by_cases same : other = handleValue wide request
  · subst same
    obtain ⟨e, found, noCall, -⟩ := frees.entry
    rw [Table.pendingAt_of_find found, noCall, Table.pendingAt, frees.here, map_none, bind_none]
  · rw [Table.pendingAt, frees.others other same, ← Table.pendingAt]

/-- Clearing takes out the request that is pending under the handle, whichever one is meant. -/
theorem OrderedLog.clear_iff (request : Handle) (seq : Nat) (rep : s.log.Represents s.order) :
    (s.log.clearPendingRequestFromLog wide request).Represents (s.order.erase (handleValue wide request, seq)) ↔
      s.Means wide (.clear request seq) := by
  simp only [OrderedLog.Means]
  have absent (notPending : s.log.table.pendingAt (handleValue wide request) = none) :
      s.order.erase (handleValue wide request, seq) = s.order :=
    List.erase_of_not_mem fun member => by
      obtain ⟨type, pending⟩ := (rep.exact _).mp member
      exact nomatch notPending.symm.trans pending
  rw [PendingLog.clearPendingRequestFromLog, Table.lookup_find]
  cases found : s.log.table.find (handleValue wide request) with
  | none =>
    have notPending : s.log.table.pendingAt (handleValue wide request) = none := by
      rw [Table.pendingAt, found, bind_none]
    rw [absent notPending, notPending]
    exact iff_of_true rep nofun
  | some e =>
    dsimp only
    rw [Table.pendingAt_of_find found]
    cases isCall : e.call with
    | none =>
      rw [absent (by rw [Table.pendingAt_of_find found, isCall, map_none])]
      exact iff_of_true rep nofun
    | some call =>
      have cleared := rep.clear found isCall
      rw [map_some]
      constructor
      · rintro after ref ⟨⟩
        -- The request is out of the log, and so it is the one that left the list.
        by_contra differs
        have kept : (handleValue wide request, e.seq) ∈ s.order.erase (handleValue wide request, seq) :=
          rep.nodup.mem_erase_iff.mpr ⟨fun same => differs (congrArg Prod.snd same), rep.mem_of_find found isCall⟩
        have gone := (cleared.exact _).mpr ((after.exact _).mp kept)
        exact (rep.nodup.mem_erase_iff.mp gone).1 rfl
      · intro means
        obtain rfl := means _ rfl
        exact cleared

theorem OrderedLog.replace_iff {request : Handle} {call : NonblockingCall} {log : PendingLog δ}
    (rep : s.log.Represents s.order) (replaced : s.log.replacePendingCall wide request call = some log) :
    log.Represents s.order ↔ s.Means wide (.replace request call) := by
  obtain ⟨e, looked, replaced⟩ := bind_eq_some_iff.mp replaced
  obtain ⟨old, isCall, rfl⟩ := map_eq_some_iff.mp replaced
  rw [Table.lookup_find] at looked
  rw [rep.replace_iff looked isCall call, OrderedLog.Means, Table.pendingAt_of_find looked, isCall, map_some]
  simp

/-- A step keeps the log right exactly when it means what it names. -/
theorem OrderedLog.step_iff {a : LogAct δ} (rep : s.log.Represents s.order) (taken : s.step wide a = some s') :
    s'.log.Represents s'.order ↔ s.Means wide a := by
  cases a with
  | issue kind real desc =>
    obtain ⟨⟨handle, table⟩, added, rfl⟩ := map_eq_some_iff.mp taken
    exact iff_of_true (OrderedLog.issue_kept rep added) trivial
  | free request =>
    obtain ⟨table, freed, rfl⟩ := map_eq_some_iff.mp taken
    exact iff_of_true (OrderedLog.free_kept rep freed) trivial
  | add call request =>
    obtain ⟨e, looked, taken⟩ := bind_eq_some_iff.mp taken
    obtain ⟨fresh, taken⟩ := ite_none_left_eq_some.mp taken
    rw [PendingLog.addPendingRequestToLog, looked] at taken
    cases taken
    rw [Table.lookup_find] at looked
    exact iff_of_true (rep.add looked (not_isSome_iff_eq_none.mp fresh) { call with laterSends := 0 }) trivial
  | clear request seq =>
    cases taken
    exact OrderedLog.clear_iff request seq rep
  | replace request call =>
    obtain ⟨log, replaced, rfl⟩ := map_eq_some_iff.mp taken
    exact OrderedLog.replace_iff rep replaced
  | count comm dest tag =>
    obtain ⟨log, counted, rfl⟩ := map_eq_some_iff.mp taken
    exact iff_of_true (rep.count counted) trivial

theorem OrderedLog.represents (reached : Reachable ((OrderedLog.machine wide).restrict fun s a => s.Means wide a) s) :
    s.log.Represents s.order := by
  refine reached.invariant (fun s => s.log.Represents s.order) ?_ ?_
  · rintro _ ⟨constants, rfl⟩
    exact ⟨.initial wide constants, .empty, fun ref => iff_of_false List.not_mem_nil (by
      rintro ⟨type, pending⟩
      obtain ⟨e, -, found, -⟩ := Table.find_of_pendingAt pending
      exact nomatch (Table.find_eq_some.mp found).2.1), rfl⟩
  · intro s a s' _ rep taken
    obtain ⟨means, taken⟩ := restrict_step.mp taken
    exact (OrderedLog.step_iff rep taken).mpr means

end Steps

def OrderedLog.reuse : Nat → List (LogAct Unit)
  | 0 => [.issue .request 7 none]
  | rounds + 1 => OrderedLog.reuse rounds ++ [.free (makeHandle 5 rounds 0), .issue .request 7 none]

/-- Sixteen rounds later the request in the slot has the handle of the first one, and its call is pending. -/
def OrderedLog.reused : Option (OrderedLog Unit) :=
  ((OrderedLog.machine true).restrict fun s a => s.Means true a).run ⟨⟨Table.initial true [], .empty, 0⟩, []⟩
    (OrderedLog.reuse 16 ++ [.add ⟨.isend, 0, 0, 1, 2, 3, 4, 5, 0⟩ (makeHandle 5 16 0)])

theorem OrderedLog.reachable_reused {s : OrderedLog Unit} (isReused : OrderedLog.reused = some s) :
    Reachable ((OrderedLog.machine true).restrict fun s a => s.Means true a) s :=
  Reachable.run (.start ⟨[], rfl⟩) isReused

/-- The log of pending calls. In every run whose steps mean what they name it holds the pending requests in
posting order; and in each state of such a run a step keeps that exactly if it means what it names. -/
theorem pending_log_kept_iff {wide : Bool} {s : OrderedLog δ}
    (reached : Reachable ((OrderedLog.machine wide).restrict fun s a => s.Means wide a) s) :
    s.log.Represents s.order ∧ s.log.pendingRequestsInPostingOrder = some (s.order.map (·.1)) ∧
      ∀ a s', s.step wide a = some s' → (s'.log.Represents s'.order ↔ s.Means wide a) :=
  have rep := OrderedLog.represents reached
  ⟨rep, rep.inPostingOrder, fun _ _ taken => OrderedLog.step_iff rep taken⟩

/-- A state with a pending call, after a slot was reused. -/
theorem pending_log_kept_iff_reused :
    ∃ s, OrderedLog.reused = some s ∧ s.log.pendingRequestsInPostingOrder = some (s.order.map (·.1)) ∧
      s.order = [(makeHandle 5 0 0, 17)] := by
  obtain ⟨s, isReused⟩ := isSome_iff_exists.mp (show OrderedLog.reused.isSome = true by decide +kernel)
  have order : OrderedLog.reused.map (·.order) = some [(makeHandle 5 0 0, 17)] := by decide +kernel
  rw [isReused] at order
  exact ⟨s, isReused, (pending_log_kept_iff (OrderedLog.reachable_reused isReused)).2.1, some.inj order⟩

/-- A generation has four bits: to clear the first request of the slot is to unlink its seventeenth. -/
theorem stale_clear_unlinks :
    ∃ s s', OrderedLog.reused = some s ∧ s.step true (.clear (makeHandle 5 0 0) 1) = some s' ∧
      s.log.Represents s.order ∧ s'.order = [(makeHandle 5 0 0, 17)] ∧ s'.log.links.head = none ∧
      ¬ s'.log.Represents s'.order := by
  obtain ⟨s, isReused⟩ := isSome_iff_exists.mp (show OrderedLog.reused.isSome = true by decide +kernel)
  have after : (OrderedLog.reused.bind (·.step true (.clear (makeHandle 5 0 0) 1))).map
      (fun s' => (s'.order, s'.log.links.head)) = some ([(makeHandle 5 0 0, 17)], none) := by decide +kernel
  have other : OrderedLog.reused.map (fun s => decide (s.Means true (.clear (makeHandle 5 0 0) 1))) = some false := by
    decide +kernel
  rw [isReused] at after other
  have rep := OrderedLog.represents (OrderedLog.reachable_reused isReused)
  obtain ⟨order, head⟩ := Prod.mk.inj (some.inj after)
  refine ⟨s, _, isReused, rfl, rep, order, head, ?_⟩
  rw [OrderedLog.clear_iff (makeHandle 5 0 0) 1 rep]
  exact of_decide_eq_false (some.inj other)

end Mana.VirtId
