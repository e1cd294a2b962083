import Mana.VirtId.Sends

/-! The list of pending requests, as the datatypes and the sends see it, stands for the log that is linked through the
entries of the requests. -/

namespace Mana.VirtId
open Mana.Lib Option Function

structure PendingLog.Refines (s : PendingLog Desc) (types : TypeState) : Prop where
  table : types.table = s.table
  pending : ∃ order, s.Represents order ∧ types.pending = order.map (·.1)

section Refines

variable {wide : Bool} {s : PendingLog Desc} {types : TypeState} {request : Handle} {e : Entry Desc}

theorem PendingLog.Refines.add (refines : s.Refines types) (found : s.table.find request = some e)
    (fresh : e.call = none) (call : NonblockingCall) :
    ∃ s' types', s.addPendingRequestToLog wide call request = some s' ∧
      VirtId.addPendingRequestToLog wide types request call = some types' ∧ s'.Refines types' := by
  obtain ⟨table, order, rep, pending⟩ := refines
  have looked : s.table.lookupVirtIdEntry wide request = some e := by
    rw [Table.lookup_find, handleValue_of_lt (Table.find_small found), found]
  rw [PendingLog.addPendingRequestToLog, looked, VirtId.addPendingRequestToLog, table, Table.modifyEntry_find found]
  refine ⟨_, _, rfl, rfl, rfl, _, rep.add found fresh { call with laterSends := 0 }, ?_⟩
  rw [pending, List.map_append, List.map_singleton]

theorem PendingLog.Represents.map_erase {order : List (Nat × Nat)} (rep : s.Represents order)
    (found : s.table.find request = some e) :
    (order.erase (request, e.seq)).map (·.1) = (order.map (·.1)).erase request := by
  have handles : (order.map (·.1)).Nodup := by
    refine .of_map slotOf ?_
    rw [List.map_map]
    exact rep.linked.nodup
  rw [rep.nodup.erase_eq_filter, handles.erase_eq_filter, List.filter_map]
  refine congrArg _ (List.filter_congr fun ref member => ?_)
  by_cases same : ref = (request, e.seq)
  · simp [same]
  · exact (bne_iff_ne.mpr same).trans (bne_iff_ne.mpr (rep.ne_of_mem found member same)).symm

theorem PendingLog.Refines.clear (refines : s.Refines types) (fits : handleValue wide request = request) :
    (s.clearPendingRequestFromLog wide request).Refines (VirtId.clearPendingRequestFromLog wide types request) := by
  obtain ⟨table, order, rep, pending⟩ := refines
  rw [PendingLog.clearPendingRequestFromLog, VirtId.clearPendingRequestFromLog, table, Table.lookup_find, fits]
  cases found : s.table.find request with
  | none => exact ⟨table, order, rep, pending⟩
  | some e =>
    dsimp only
    cases isCall : e.call with
    | none => exact ⟨table, order, rep, pending⟩
    | some call =>
      rw [Table.modifyEntry_find found, isSome_some, if_pos rfl]
      exact ⟨rfl, _, rep.clear found isCall, by rw [rep.map_erase found, pending]⟩

variable {comm : Handle} {dest tag : Int} {t : Table Desc} {refs : List (Nat × Nat)}

/-- The loop over the list of requests is the loop over the linked entries. -/
theorem countSendAfter_fold (wf : t.WellFormed) (pending : ∀ ref ∈ refs, ∃ type, t.pendingAt ref.1 = some (ref.2, type)) :
    (refs.map (·.1)).foldl (fun t request => (t.modifyEntry wide request (countSendAfter comm dest tag)).getD t) t =
      (refs.map fun ref => slotOf ref.1).foldl (Table.countLater comm dest tag) t := by
  induction refs generalizing t with
  | nil => rfl
  | cons ref refs ih =>
    obtain ⟨type, isPending⟩ := pending ref List.mem_cons_self
    obtain ⟨e, call, found, -⟩ := Table.find_of_pendingAt isPending
    obtain ⟨wf', same⟩ := @Table.WellFormed.countLater _ _ comm dest tag _ wf _ isPending
    have step : (t.modifyEntry wide ref.1 (countSendAfter comm dest tag)).getD t =
        t.countLater comm dest tag (slotOf ref.1) := by
      rw [Table.modifyEntry_find found, Table.countLater, (Table.find_eq_some.mp found).2.1]
      rfl
    rw [List.map_cons, List.map_cons, List.foldl_cons, List.foldl_cons, step]
    exact ih wf' fun other member => same ▸ pending other (List.mem_cons_of_mem _ member)

theorem Table.countLater_of_ne (found : t.find request = some e) (other : ∀ call ∈ e.call, call.type ≠ .issend) :
    t.countLater comm dest tag (slotOf request) = t := by
  obtain ⟨-, inSlot, rfl⟩ := Table.find_eq_some.mp found
  have sameCall : e.call.map (·.countLater comm dest tag) = e.call := by
    cases isCall : e.call with
    | none => rfl
    | some call => rw [map_some, NonblockingCall.countLater, if_neg fun sync => other call isCall sync.1]
  rw [Table.countLater, inSlot]
  dsimp only
  rw [sameCall, Table.setCall, Table.setEntry, ← inSlot, update_eq_self]

theorem PendingLog.Refines.count (refines : s.Refines types) :
    ∃ s', s.countSendAfterIssends comm dest tag = some s' ∧
      s'.Refines (VirtId.countSendAfterIssends wide comm dest tag types) := by
  obtain ⟨table, order, rep, pending⟩ := refines
  have isPending := fun ref (member : ref ∈ order) => (rep.exact ref).mp member
  have loop := @countSendAfter_fold wide comm dest tag _ _ rep.wellFormed isPending
  have counts : ∃ s', s.countSendAfterIssends comm dest tag = some s' ∧
      s'.table = (order.map fun ref => slotOf ref.1).foldl (Table.countLater comm dest tag) s.table := by
    rw [PendingLog.countSendAfterIssends, rep.walk]
    split
    · next noIssend =>
      -- The loop that is not run would change nothing.
      refine ⟨s, rfl, (List.foldlRecOn (motive := fun t => t = s.table) _ _ rfl ?_).symm⟩
      rintro _ rfl slot member
      obtain ⟨ref, inOrder, rfl⟩ := List.mem_map.mp member
      obtain ⟨type, isPending⟩ := isPending ref inOrder
      obtain ⟨e, call, found, isCall, -, isType⟩ := Table.find_of_pendingAt isPending
      refine Table.countLater_of_ne found fun other isOther sync => ?_
      obtain rfl := mem_unique isCall isOther
      have notSync := List.countP_eq_zero.mp (Int.ofNat_eq_zero.mp (rep.issends.symm.trans noIssend)) ref inOrder
      rw [isPending, ← isType, sync, decide_eq_true_eq] at notSync
      exact notSync rfl
    · exact ⟨_, rfl, rfl⟩
  obtain ⟨s', counted, table'⟩ := counts
  refine ⟨s', counted, ?_, order, rep.count counted, pending⟩
  rw [table', ← loop, ← table, ← pending]
  rfl

end Refines

end Mana.VirtId
