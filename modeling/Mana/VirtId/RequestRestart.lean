import Mana.VirtId.RequestSound

/-! Requests over a restart. A pending receive is posted again; a request that MANA has completed
keeps the null request of the lower half that it was completed in. -/

namespace Mana.VirtId
open Mana.Lib Option

section Replay

variable {job : RequestJob} {r : Rank} {reposts : Nat → Handle} {earlier later : List Nat}
  {p p' : Table Desc × List (Handle × LowerCall)}

theorem getRealId_congr {up : UpperHalf} {lh : LowerHalf} {t t' : Table Desc} {handle : Handle}
    (same : t'.find (handleValue up.wide handle) = t.find (handleValue up.wide handle)) :
    getRealId up lh t' handle = getRealId up lh t handle := by
  simp only [getRealId, Table.lookup_find, same]

/-- What the replay finds: the pending calls are those of requests, on communicators. -/
structure Replayable (job : RequestJob) (r : Rank) : Prop where
  types : TypesSound job.toJob r
  kinds : ∀ h ∈ r.types.pending, kindOf h = Kind.request.code
  comms : ∀ h e call, r.types.table.find h = some e → e.call = some call →
    call.comm ∈ job.up.constants ∨ kindOf call.comm = Kind.comm.code

theorem Replayable.not_pending {handle : Handle} (replayable : Replayable job r)
    (known : handle ∈ job.up.constants ∨ kindOf handle = Kind.comm.code ∨ kindOf handle = Kind.datatype.code) :
    handleValue job.up.wide handle ∉ r.types.pending := by
  intro member
  rcases known with isConstant | isKind
  · rw [job.up.fits handle isConstant] at member
    obtain ⟨e, found, -⟩ := (replayable.types.accounts.pending handle).mp member
    exact nomatch found.symm.trans (replayable.types.accounts.wellFormed.shape.find_constant
      replayable.types.accounts.reserved isConstant)
  · have small : kindOf handle ≤ 6 := by
      rcases isKind with isKind | isKind <;> rw [isKind] <;> decide
    rw [handleValue_of_lt (lt_of_kindOf small)] at member
    have isRequest := replayable.kinds handle member
    rcases isKind with isKind | isKind <;> exact absurd (isKind.symm.trans isRequest) (by decide)

theorem Replayable.datatype {h : Nat} {e : Entry Desc} {call : NonblockingCall} (replayable : Replayable job r)
    (found : r.types.table.find h = some e) (isCall : e.call = some call) :
    (call.datatype ∈ job.up.constants ∨ kindOf call.datatype = Kind.datatype.code) ∧
      ∃ q, getRealId job.up r.lower r.types.table call.datatype = some q := by
  have types := replayable.types
  rcases (types.accounts.entries h e found).inUse call isCall with isConstant | held
  · exact ⟨.inl isConstant, _, getRealId_of_constant types.accounts.wellFormed.shape types.accounts.reserved isConstant⟩
  · obtain ⟨f, d, foundType, isDesc⟩ := nodeOf_isSome.mp (types.accounts.held _ held)
    have described := types.described _ f foundType
    rw [Entry.Described, isDesc, Table.find_virt foundType] at described
    exact ⟨.inr described, _, getRealId_of_find foundType⟩

/-- The state of the replay after the requests in `earlier`. -/
structure Replayed (job : RequestJob) (r : Rank) (reposts : Nat → Handle) (earlier : List Nat)
    (p : Table Desc × List (Handle × LowerCall)) : Prop where
  types : TypesSound job.toJob (r.setTable p.1)
  waiting : ∀ h, h ∉ earlier → p.1.find h = r.types.table.find h
  replayed : ∀ h ∈ earlier, ∃ e call lowered, r.types.table.find h = some e ∧ e.call = some call ∧
    p.1.find h = some { e with real := reposts h } ∧
    call.lower (getRealId job.up r.lower r.types.table) = some lowered ∧ (reposts h, .p2p lowered) ∈ p.2
  posted : p.2.map (·.1) = earlier.map reposts

theorem Replayed.initial (replayable : Replayable job r) : Replayed job r reposts [] (r.types.table, []) where
  types := replayable.types
  waiting := fun _ _ => rfl
  replayed := fun _ member => absurd member List.not_mem_nil
  posted := rfl

/-- The replay of other requests does not change what the library gets for a call. -/
theorem Replayed.lower {h : Nat} {e : Entry Desc} {call : NonblockingCall} (replayable : Replayable job r)
    (replayed : Replayed job r reposts earlier p) (within : ∀ h ∈ earlier, h ∈ r.types.pending)
    (found : r.types.table.find h = some e) (isCall : e.call = some call) :
    call.lower (getRealId job.up r.lower p.1) = call.lower (getRealId job.up r.lower r.types.table) := by
  have steady : ∀ {handle : Handle}, handleValue job.up.wide handle ∉ r.types.pending →
      getRealId job.up r.lower p.1 handle = getRealId job.up r.lower r.types.table handle :=
    fun notPending => getRealId_congr (replayed.waiting _ fun member => notPending (within _ member))
  have comm := steady (replayable.not_pending ((replayable.comms h e call found isCall).imp_right .inl))
  have datatype := steady (replayable.not_pending ((replayable.datatype found isCall).1.imp_right .inr))
  simp only [NonblockingCall.lower, comm, datatype]

theorem Replayed.turn (replayable : Replayable job r) (split : r.types.pending = earlier ++ request :: later)
    (replayed : Replayed job r reposts earlier p) :
    request ∉ earlier ∧ ∃ e call, r.types.table.find request = some e ∧ e.call = some call ∧
      p.1.find request = some e ∧
      call.lower (getRealId job.up r.lower p.1) = call.lower (getRealId job.up r.lower r.types.table) := by
  have distinct := replayable.types.accounts.distinct
  rw [split] at distinct
  have notEarlier : request ∉ earlier := fun member =>
    (List.nodup_append.mp distinct).2.2 _ member _ List.mem_cons_self rfl
  have isPending : request ∈ r.types.pending := split ▸ List.mem_append_right _ List.mem_cons_self
  obtain ⟨e, found, logged⟩ := (replayable.types.accounts.pending request).mp isPending
  obtain ⟨call, isCall⟩ := isSome_iff_exists.mp logged
  refine ⟨notEarlier, e, call, found, isCall, (replayed.waiting request notEarlier).trans found, ?_⟩
  exact replayed.lower replayable (fun h member => split ▸ List.mem_append_left _ member) found isCall

theorem Replayed.step (replayable : Replayable job r) (split : r.types.pending = earlier ++ request :: later)
    (replayed : Replayed job r reposts earlier p)
    (ran : Requests.replayCall job reposts r.lower p request = some p') :
    Replayed job r reposts (earlier ++ [request]) p' := by
  obtain ⟨notEarlier, e, call, found, isCall, current, sameLower⟩ := replayed.turn replayable split
  simp only [Requests.replayCall, current, bind_some, isCall, sameLower] at ran
  obtain ⟨lowered, isLowered, ran⟩ := bind_eq_some_iff.mp ran
  split at ran
  · next isRecv =>
    obtain ⟨t, updated, rfl⟩ := map_eq_some_iff.mp ran
    have isKind := replayable.kinds request (split ▸ List.mem_append_right _ List.mem_cons_self)
    obtain rfl := Table.find_virt current
    have modifies := replayed.types.accounts.wellFormed.updateVirtId current updated
    have after := (modifies.puts current).here
    refine ⟨?_, ?_, ?_, ?_⟩
    · exact replayed.types.assignRequest current isKind modifies fun _ => ⟨rfl, rfl, rfl⟩
    · intro h notMember
      rw [List.mem_append, not_or] at notMember
      have differs : h ≠ e.virt := fun same => notMember.2 (same ▸ List.mem_singleton.mpr rfl)
      exact (modifies.others h differs).trans (replayed.waiting h notMember.1)
    · intro h member
      rcases List.mem_append.mp member with isEarlier | isLast
      · obtain ⟨f, call', lowered', found', isCall', after', isLowered', isPosted⟩ := replayed.replayed h isEarlier
        have differs : h ≠ e.virt := fun same => notEarlier (same ▸ isEarlier)
        exact ⟨f, call', lowered', found', isCall', (modifies.others h differs).trans after', isLowered',
          List.mem_append_left _ isPosted⟩
      · obtain rfl := List.mem_singleton.mp isLast
        exact ⟨e, call, lowered, found, isCall, after, isLowered, List.mem_append_right _ List.mem_cons_self⟩
    · rw [List.map_append, List.map_append, replayed.posted]
      rfl
  · cases ran
  · cases ran

/-- A receive is posted again if its communicator has a real handle. -/
theorem Replayed.goesOn (replayable : Replayable job r) (split : r.types.pending = earlier ++ request :: later)
    (replayed : Replayed job r reposts earlier p)
    (isRecv : ∀ e call, r.types.table.find request = some e → e.call = some call → call.type = .irecv ∧
      ∃ q, getRealId job.up r.lower r.types.table call.comm = some q) :
    ∃ p', Requests.replayCall job reposts r.lower p request = some p' := by
  obtain ⟨-, e, call, found, isCall, current, sameLower⟩ := replayed.turn replayable split
  obtain ⟨isType, comm, isComm⟩ := isRecv e call found isCall
  obtain ⟨-, datatype, isDatatype⟩ := replayable.datatype found isCall
  obtain rfl := Table.find_virt current
  obtain ⟨t, updated⟩ := @Table.updateVirtId_returns e p.1 job.up.wide (reposts e.virt) current
  have isLowered : call.lower (getRealId job.up r.lower p.1) = some { call with comm := comm, datatype := datatype } := by
    rw [sameLower]
    simp only [NonblockingCall.lower, isComm, isDatatype, bind_some, map_some]
  simp only [Requests.replayCall, current, bind_some, isCall, isLowered, isType, updated, map_some]
  exact ⟨_, rfl⟩

end Replay

def Requests.commLive (s : Requests) (request comm : Handle) : Bool :=
  (s.commSeq request).all fun seq => (s.table.find comm).any fun e => e.seq == seq

/-- A lower half that the requests survive: its null request is the one of the lower half before, unless
MANA has completed none of the live requests. The communicators of the pending receives are live. -/
def Requests.Restartable (job : RequestJob) (s : Requests) (new : LowerHalf) : Prop :=
  (∀ e ∈ s.table.inUse, kindOf e.virt = Kind.request.code → (s.served e.virt).isSome = true →
    new.constant job.requestNull = s.null job) ∧
  ∀ e ∈ s.table.inUse, (e.call.all fun call => s.commLive e.virt call.comm) = true

instance (job : RequestJob) (s : Requests) (new : LowerHalf) : Decidable (s.Restartable job new) :=
  inferInstanceAs (Decidable (_ ∧ _))

/-- All restarts are into such lower halves. -/
def RequestAction.restartable {job : RequestJob} (s : Requests) : RequestAction job → Prop
  | .restart new _ _ => s.Restartable job new.1
  | _ => True

instance {job : RequestJob} (s : Requests) : (action : RequestAction job) → Decidable (action.restartable s)
  | .restart new _ _ => inferInstanceAs (Decidable (s.Restartable job new.1))
  | .rank _ | .post _ _ | .serve _ | .startCollective _ | .test _ _ | .wait _ _ | .drainRecv _ _ | .drainSend _
  | .awaitSsendAck _ _ _ _ _ | .dropNotice _ | .finishCollective _ => inferInstanceAs (Decidable True)

section Restart

variable {job : RequestJob} {s s' : Requests} {new : LowerHalf} {picks : Picks} {reposts : Nat → Handle}
variable {rank : Rank} {t : Table Desc} {posted : List (Handle × LowerCall)} {h : Handle} {e : Entry Desc}
    {call : NonblockingCall}

/-- The rank before the replay. -/
structure Rebuilt (job : RequestJob) (s : Requests) (new : LowerHalf) (picks : Picks) (rank : Rank) : Prop where
  replayable : Replayable job rank
  pending : rank.types.pending = s.rank.types.pending
  constant : rank.lower.constant = new.constant
  find : ∀ h, rank.types.table.find h = (s.table.find h).map fun e => e.rebuilt (picks.object h)

theorem RequestsSound.rebuilt (sound : RequestsSound job s) (hosts : Hosts job.toJob new)
    (rebuilt : s.rank.restart job.toJob new picks = some rank) : Rebuilt job s new picks rank := by
  have types := sound.types.restart hosts rebuilt
  obtain ⟨⟨t, lower⟩, ran, rfl⟩ := map_eq_some_iff.mp rebuilt
  have rebuilding := reconstructDescriptors_rebuilt sound.types hosts ran
  have finds := rebuilding.table.find sound.types.accounts.wellFormed.shape
  have calls : ∀ h e call, t.find h = some e → e.call = some call → ∃ e₀, s.table.find h = some e₀ ∧ e₀.call = some call := by
    intro h e call found isCall
    rw [finds] at found
    obtain ⟨e₀, before, rfl⟩ := map_eq_some_iff.mp found
    exact ⟨e₀, before, (e₀.rebuilt_call _).symm.trans isCall⟩
  refine ⟨⟨types, ?_, ?_⟩, rfl, rebuilding.comms.constant, finds⟩
  · intro h member
    obtain ⟨e, found, logged⟩ := (types.accounts.pending h).mp member
    obtain ⟨call, isCall⟩ := isSome_iff_exists.mp logged
    obtain ⟨e₀, before, isCall₀⟩ := calls h e call found isCall
    exact sound.kinds h e₀ before (isCall₀ ▸ rfl)
  · intro h e call found isCall
    obtain ⟨e₀, before, isCall₀⟩ := calls h e call found isCall
    obtain ⟨-, -, -, -, comm⟩ := sound.logged before isCall₀
    split at comm
    · exact .inl comm
    · exact .inr comm

theorem Rebuilt.find_request (rebuilt : Rebuilt job s new picks rank) (sound : RequestsSound job s)
    (found : s.table.find h = some e) (isKind : kindOf h = Kind.request.code) : rank.types.table.find h = some e := by
  rw [rebuilt.find, found, map_some, Entry.rebuilt, (sound.types.accounts.entries h e found).request isKind]
  rfl

theorem Rebuilt.mem_pending (rebuilt : Rebuilt job s new picks rank) (sound : RequestsSound job s)
    (found : s.table.find h = some e) : h ∈ rank.types.pending ↔ e.call.isSome = true := by
  rw [rebuilt.pending, sound.types.accounts.pending h]
  constructor
  · rintro ⟨e', found', logged⟩
    obtain rfl := mem_unique found' found
    exact logged
  · exact fun logged => ⟨e, found, logged⟩

theorem Rebuilt.find_restart (rebuilt : Rebuilt job s new picks rank) (sound : RequestsSound job s)
    (replayed : Replayed job rank reposts rank.types.pending (t, posted)) (found : s.table.find h = some e)
    (isKind : kindOf h = Kind.request.code) :
    t.find h = some (if e.call.isSome then { e with real := reposts h } else e) := by
  have kept := rebuilt.find_request sound found isKind
  have isPending := rebuilt.mem_pending sound found
  by_cases logged : e.call.isSome = true
  · obtain ⟨e', call, lowered, found', -, after, -⟩ := replayed.replayed h (isPending.mpr logged)
    obtain rfl := mem_unique found' kept
    rw [if_pos logged]
    exact after
  · rw [if_neg logged]
    exact (replayed.waiting h fun member => logged (isPending.mp member)).trans kept

/-- At a checkpoint a live request is a pending receive, or MANA has completed it. -/
theorem RequestsSound.at_checkpoint (sound : RequestsSound job s) (drained : s.drained job = true)
    (found : s.table.find h = some e) (isKind : kindOf h = Kind.request.code) :
    (∃ call, e.call = some call ∧ call.type = .irecv ∧ s.served h = none) ∨
      ∃ saved, s.served h = some saved ∧ e.call = none ∧ e.real = s.null job ∧ e.savedStatus = saved := by
  simp only [Requests.drained, Bool.and_eq_true, List.all_eq_true, decide_eq_true_eq, List.isEmpty_iff] at drained
  have entry := sound.entries h e found isKind
  unfold Requests.EntrySound at entry
  split at entry
  · next saved isServed noCall => exact .inr ⟨saved, isServed, noCall, entry⟩
  · exact entry.elim
  · next call isServed isCall =>
    have member := (sound.types.accounts.pending h).mpr ⟨e, found, isCall ▸ rfl⟩
    obtain ⟨e', call', found', isCall', isType⟩ := Requests.pendingRequestType_eq.mp (drained.1 h member)
    obtain rfl := mem_unique found' found
    obtain rfl := mem_unique isCall' isCall
    exact .inl ⟨call', isCall, isType, isServed⟩
  · obtain rfl := Table.find_virt found
    have member := sound.mem_pendingCollectives.mpr ⟨found, isKind, entry.2.1, entry.2.2.1⟩
    rw [drained.2] at member
    cases member

theorem RequestsSound.restart_eq (sound : RequestsSound job s) (hosts : Hosts job.toJob new)
    (taken : s.restart job new picks reposts = some s') :
    ∃ rank t posted, s' = { s with rank := rank.setTable t, posted := posted } ∧ Rebuilt job s new picks rank ∧
      Replayed job rank reposts rank.types.pending (t, posted) := by
  obtain ⟨rank, remade, taken⟩ := bind_eq_some_iff.mp taken
  obtain ⟨⟨t, posted⟩, ran, rfl⟩ := map_eq_some_iff.mp taken
  have rebuilt := sound.rebuilt hosts remade
  refine ⟨rank, t, posted, rfl, rebuilt, ?_⟩
  refine @foldlM_holds _ _ _ (Replayed job rank reposts) _ _ [] _ (.initial rebuilt.replayable) ?_ ran
  exact fun before a after p p' split replayed taken => replayed.step rebuilt.replayable split taken

theorem RequestsSound.commLive_iff (sound : RequestsSound job s) (found : s.table.find h = some e)
    (isCall : e.call = some call) :
    s.commLive h call.comm = true ↔ (s.commSeq h = none ∧ call.comm ∈ job.up.constants) ∨
      ∃ f, s.commSeq h = some f.seq ∧ s.table.find call.comm = some f := by
  obtain ⟨-, -, -, -, comm⟩ := sound.logged found isCall
  unfold Requests.commLive
  cases isSeq : s.commSeq h with
  | none =>
    rw [isSeq] at comm
    simp only [all_none, true_and, comm, true_or]
  | some seq =>
    simp only [all_some, reduceCtorEq, false_and, false_or, some.injEq]
    cases isEntry : s.table.find call.comm with
    | none => simp only [any_none, Bool.false_eq_true, reduceCtorEq, and_false, exists_false]
    | some f =>
      simp only [any_some, beq_iff_eq, some.injEq]
      constructor
      · exact fun same => ⟨f, same.symm, rfl⟩
      · rintro ⟨f', same, rfl⟩
        exact same.symm

theorem Requests.Restartable.commLive (restartable : s.Restartable job new) (sound : RequestsSound job s)
    (found : s.table.find h = some e) (isCall : e.call = some call) : s.commLive h call.comm = true := by
  obtain rfl := Table.find_virt found
  have live := restartable.2 e (sound.types.accounts.wellFormed.shape.mem_inUse.mpr found)
  rw [isCall] at live
  exact live

theorem Requests.Restartable.null {saved : Option Status} (restartable : s.Restartable job new)
    (sound : RequestsSound job s) (found : s.table.find h = some e) (isKind : kindOf h = Kind.request.code)
    (isServed : s.served h = some saved) : new.constant job.requestNull = s.null job := by
  obtain rfl := Table.find_virt found
  exact restartable.1 e (sound.types.accounts.wellFormed.shape.mem_inUse.mpr found) isKind (isServed ▸ rfl)

theorem RequestsSound.restart_returns (sound : RequestsSound job s) (hosts : Hosts job.toJob new)
    (fresh : picks.Fresh s.table new) (drained : s.drained job = true) (restartable : s.Restartable job new) :
    ∃ s', s.restart job new picks reposts = some s' := by
  obtain ⟨⟨t, lower⟩, ran⟩ := reconstructDescriptors_returns sound.types hosts fresh
  obtain ⟨rank, remade⟩ : ∃ rank, s.rank.restart job.toJob new picks = some rank := by
    rw [Rank.restart, ran, map_some]
    exact ⟨_, rfl⟩
  obtain ⟨replayable, -, -, finds⟩ := sound.rebuilt hosts remade
  obtain ⟨⟨t, posted⟩, ran⟩ : ∃ p, rank.types.pending.foldlM (Requests.replayCall job reposts rank.lower)
      (rank.types.table, []) = some p := by
    refine @foldlM_returns _ _ _ (Replayed job rank reposts) _ [] _ (.initial replayable) ?_ ?_
    · exact fun before a after p p' split replayed taken => replayed.step replayable split taken
    · intro before h after p split replayed
      refine replayed.goesOn replayable split fun e' call found' isCall' => ?_
      rw [finds] at found'
      obtain ⟨e, found, rfl⟩ := map_eq_some_iff.mp found'
      have isCall := (e.rebuilt_call _).symm.trans isCall'
      obtain ⟨isKind, -⟩ := sound.logged found isCall
      refine ⟨?_, ?_⟩
      · rcases sound.at_checkpoint drained found isKind with ⟨call', isSame, isType, -⟩ | ⟨-, -, noCall, -⟩
        · obtain rfl := mem_unique isSame isCall
          exact isType
        · cases noCall.symm.trans isCall
      · rcases (sound.commLive_iff found isCall).mp (restartable.commLive sound found isCall) with
          ⟨-, isConstant⟩ | ⟨f, -, isComm⟩
        · have accounts := replayable.types.accounts
          exact ⟨_, getRealId_of_constant accounts.wellFormed.shape accounts.reserved isConstant⟩
        · have isComm' := finds call.comm
          rw [isComm] at isComm'
          exact ⟨_, getRealId_of_find isComm'⟩
  refine ⟨{ s with rank := rank.setTable t, posted := posted }, ?_⟩
  simp only [Requests.restart, remade, bind_some, ran, map_some]

theorem RequestsSound.restart (sound : RequestsSound job s) (hosts : Hosts job.toJob new)
    (drained : s.drained job = true) (restartable : s.Restartable job new)
    (taken : s.restart job new picks reposts = some s') : RequestsSound job s' := by
  obtain ⟨rank, t, posted, rfl, rebuilt, replayed⟩ := sound.restart_eq hosts taken
  have null : ({ s with rank := rank.setTable t, posted := posted } : Requests).null job = new.constant job.requestNull :=
    congrFun rebuilt.constant _
  have before : ∀ h e', t.find h = some e' → (kindOf h = Kind.request.code ∨ e'.call.isSome = true) →
      ∃ e, s.table.find h = some e ∧ kindOf h = Kind.request.code ∧
        e' = if e.call.isSome then { e with real := reposts h } else e := by
    intro h e' found' isRequest
    have isKind : kindOf h = Kind.request.code := by
      by_cases member : h ∈ rank.types.pending
      · exact rebuilt.replayable.kinds h member
      · have unchanged := (replayed.waiting h member).symm.trans found'
        rcases isRequest with isKind | logged
        · exact isKind
        · exact absurd ((rebuilt.replayable.types.accounts.pending h).mpr ⟨e', unchanged, logged⟩) member
    cases found : s.table.find h with
    | none =>
      by_cases member : h ∈ rank.types.pending
      · obtain ⟨e, -, -, isEntry, -⟩ := replayed.replayed h member
        rw [rebuilt.find, found] at isEntry
        cases isEntry
      · have unchanged := (replayed.waiting h member).symm.trans found'
        rw [rebuilt.find, found] at unchanged
        cases unchanged
    | some e =>
      exact ⟨e, rfl, isKind, mem_unique found' (rebuilt.find_restart sound replayed found isKind)⟩
  refine ⟨replayed.types, ?_, ?_⟩
  · intro h e' found' logged
    obtain ⟨-, -, isKind, -⟩ := before h e' found' (.inr logged)
    exact isKind
  · intro h e' found' isKind
    obtain ⟨e, found, -, rfl⟩ := before h e' found' (.inl isKind)
    rcases sound.at_checkpoint drained found isKind with ⟨call, isCall, -, notServed⟩ | ⟨saved, isServed, noCall, isNull, isSaved⟩
    · have member := (rebuilt.mem_pending sound found).mpr (isCall ▸ rfl)
      obtain ⟨f, call', lowered, -, -, -, -, isPosted⟩ := replayed.replayed h member
      obtain ⟨-, -, notCompleted, notCollective, comm⟩ := sound.logged found isCall
      simp only [Requests.EntrySound, isCall, isSome_some, if_true, notServed]
      exact ⟨notCompleted, notCollective, comm, lowered, isPosted⟩
    · simp only [Requests.EntrySound, noCall, isSome_none, Bool.false_eq_true, if_false, isServed]
      exact ⟨isNull.trans ((restartable.null sound found isKind isServed).symm.trans null.symm), isSaved⟩

theorem RequestsSound.step {action : RequestAction job} (sound : RequestsSound job s)
    (restartable : action.restartable s) (taken : s.step job action = some s') : RequestsSound job s' := by
  cases action with
  | rank action =>
    obtain ⟨other, taken⟩ := ite_none_left_eq_some.mp taken
    obtain ⟨rank, stepped, rfl⟩ := map_eq_some_iff.mp taken
    obtain ⟨keeps, constant⟩ := Rank.step_requests sound.types stepped (Bool.eq_false_iff.mpr other)
    exact sound.keep (sound.types.step stepped) keeps constant
  | post call real => exact sound.post taken
  | serve status => exact sound.serve taken
  | startCollective real => exact sound.startCollective taken
  | test reply request => exact sound.finish taken
  | wait reply request => exact sound.finish taken
  | drainRecv request status => exact sound.drainRecv taken
  | drainSend request => exact sound.drainSend taken
  | awaitSsendAck request ackComm receiver ackTag real => exact sound.awaitSsendAck taken
  | dropNotice request => exact sound.dropNotice taken
  | finishCollective request => exact sound.finishCollective taken
  | restart new picks reposts =>
    obtain ⟨drained, taken⟩ := ite_none_right_eq_some.mp taken
    exact sound.restart new.2 drained restartable taken

theorem reachable_requestsSound (reached : Reachable ((requestMachine job).restrict RequestAction.restartable) s) :
    RequestsSound job s := by
  refine reached.invariant (RequestsSound job) ?_ ?_
  · rintro _ ⟨lh, hosts, rfl⟩
    exact .initial hosts
  · intro s action s' _ sound taken
    obtain ⟨restartable, taken⟩ := restrict_step.mp taken
    exact sound.step restartable taken

theorem Rebuilt.seq_restart (rebuilt : Rebuilt job s new picks rank)
    (replayed : Replayed job rank reposts rank.types.pending (t, posted)) (h : Nat) :
    (t.find h).map (·.seq) = (s.table.find h).map (·.seq) := by
  have kept : (rank.types.table.find h).map (·.seq) = (s.table.find h).map (·.seq) := by
    rw [rebuilt.find, map_map]
    exact congrFun (congrArg Option.map (funext fun e => e.rebuilt_seq _)) _
  by_cases member : h ∈ rank.types.pending
  · obtain ⟨e, call, lowered, found, -, after, -⟩ := replayed.replayed h member
    rw [after, ← kept, found]
    rfl
  · rw [replayed.waiting h member, kept]

end Restart

/-- Whatever the lower half replies about its own requests, the calls return that the request is complete, with the
status that MANA has saved; `MPI_Waitany` does if it comes to the request. -/
def Requests.Completed (job : RequestJob) (s : Requests) (request : Handle) (saved : Option Status) : Prop :=
  ∀ reply, s.test job reply request = .completed saved ∧ s.wait job reply request = .completed saved ∧
    s.requestGetStatus job reply request = .completed saved ∧
    ∀ before rest, (∀ other ∈ before, other = job.requestNull ∨ s.testInternal job reply other = .pending) →
      s.waitany job reply 0 (before ++ request :: rest) = some (before.length, .completed saved)

/-- What becomes of the live requests of `s`. -/
structure RequestsSurvive (job : RequestJob) (reposts : Nat → Handle) (s s' : Requests) : Prop where
  /-- A pending receive has been posted again, with the same arguments, on the communicator that it was posted on. -/
  pending : ∀ h e call, s.table.find h = some e → e.call = some call → call.type = .irecv ∧
    ∃ e' lowered, s'.table.find h = some e' ∧ e'.call = some call ∧ call.lower (s'.realId job) = some lowered ∧
      (e'.real, .p2p lowered) ∈ s'.posted ∧
      ∀ seq, s.commSeq h = some seq → ∃ f, s'.table.find call.comm = some f ∧ f.seq = seq
  served : ∀ h e saved, s.table.find h = some e → kindOf h = Kind.request.code → s.served h = some saved →
    ∃ e', s'.table.find h = some e' ∧ e'.real = s'.null job ∧ s'.Completed job h saved
  every : ∀ h e, s.table.find h = some e → kindOf h = Kind.request.code →
    e.call.isSome = true ∨ (s.served h).isSome = true
  order : s'.posted.map (·.1) = s.rank.types.pending.map reposts

section Completed

variable {job : RequestJob} {s s' : Requests} {new : LowerHalf} {picks : Picks} {reposts : Nat → Handle}

theorem Requests.waitany_reaches {reply : Reply} {request : Handle} {answer : Answer} (notNull : request ≠ job.requestNull)
    (answers : s.testInternal job reply request = answer) (ends : answer ≠ .pending) (before rest : List Handle) (i : Nat)
    (skipped : ∀ other ∈ before, other = job.requestNull ∨ s.testInternal job reply other = .pending) :
    s.waitany job reply i (before ++ request :: rest) = some (i + before.length, answer) := by
  induction before generalizing i with
  | nil =>
    simp only [List.nil_append, Requests.waitany, notNull, if_false, answers]
    rfl
  | cons other before ih =>
    have length : i + (other :: before).length = i + 1 + before.length := by
      rw [List.length_cons]
      omega
    have next := ih (i + 1) fun other member => skipped other (List.mem_cons_of_mem _ member)
    rw [List.cons_append, Requests.waitany, length, ← next]
    rcases skipped other List.mem_cons_self with isNull | isPending
    · rw [if_pos isNull]
    · by_cases isNull : other = job.requestNull
      · rw [if_pos isNull]
      · rw [if_neg isNull, isPending]

/-- An entry with the null request and the saved status answers as complete. -/
theorem RequestsSound.completed {h : Handle} {e : Entry Desc} {saved : Option Status} (sound : RequestsSound job s)
    (found : s.table.find h = some e) (isNull : e.real = s.null job) (isSaved : e.savedStatus = saved) :
    s.Completed job h saved := by
  have notNull : h ≠ job.requestNull := by
    rintro rfl
    exact nomatch found.symm.trans (sound.types.accounts.wellFormed.shape.find_constant sound.types.accounts.reserved
      job.isNull)
  have real : s.realId job h = some (s.null job) := isNull ▸ getRealId_of_find found
  have status : s.completedRequestStatus job h = saved := by
    rw [Requests.completedRequestStatus, Table.lookup_find, handleValue_of_lt (Table.find_small found), found,
      bind_some, isSaved]
  intro reply
  have tested : s.testInternal job reply h = .completed saved := by
    simp only [Requests.testInternal, real, if_true, status]
    cases saved with
    | some status => rfl
    | none => simp only [Requests.lowerTest, if_true]
  refine ⟨?_, ?_, tested, ?_⟩
  · simp only [Requests.test, notNull, if_false, real, if_true, status]
  · simp only [Requests.wait, notNull, if_false, tested]
  · intro before rest skipped
    have reaches := Requests.waitany_reaches notNull tested nofun before rest 0 skipped
    rw [Nat.zero_add] at reaches
    exact reaches

theorem RequestsSound.survive (sound : RequestsSound job s) (hosts : Hosts job.toJob new)
    (drained : s.drained job = true) (restartable : s.Restartable job new)
    (taken : s.restart job new picks reposts = some s') : RequestsSurvive job reposts s s' := by
  have sound' := sound.restart hosts drained restartable taken
  obtain ⟨rank, t, posted, rfl, rebuilt, replayed⟩ := sound.restart_eq hosts taken
  refine ⟨?_, ?_, ?_, ?_⟩
  · intro h e call found isCall
    obtain ⟨isKind, -⟩ := sound.logged found isCall
    obtain ⟨call', isSame, isType, -⟩ | ⟨-, -, noCall, -⟩ := sound.at_checkpoint drained found isKind
    · obtain rfl := mem_unique isSame isCall
      have member := (rebuilt.mem_pending sound found).mpr (isCall ▸ rfl)
      obtain ⟨f, call'', lowered, foundNow, isCall'', after, isLowered, isPosted⟩ := replayed.replayed h member
      obtain rfl := mem_unique foundNow (rebuilt.find_request sound found isKind)
      obtain rfl := mem_unique isCall'' isCall
      refine ⟨isType, _, lowered, after, isCall, ?_, isPosted, ?_⟩
      · exact (replayed.lower rebuilt.replayable (fun _ member => member) foundNow isCall).trans isLowered
      · intro seq isSeq
        have live := (sound.commLive_iff found isCall).mp (restartable.commLive sound found isCall)
        rcases live with ⟨noSeq, -⟩ | ⟨g, isSeq', isComm⟩
        · cases noSeq.symm.trans isSeq
        · have same := rebuilt.seq_restart replayed call''.comm
          rw [isComm, map_some, map_eq_some_iff] at same
          obtain ⟨g', isComm', sameSeq⟩ := same
          exact ⟨g', isComm', sameSeq.trans (mem_unique isSeq' isSeq)⟩
    · cases noCall.symm.trans isCall
  · intro h e saved found isKind isServed
    have after := rebuilt.find_restart sound replayed found isKind
    obtain ⟨call, -, -, notServed⟩ | ⟨saved', isServed', noCall, isNull, isSaved⟩ := sound.at_checkpoint drained found isKind
    · cases notServed.symm.trans isServed
    · rw [noCall] at after
      obtain rfl := mem_unique isServed' isServed
      have isNull' : e.real = rank.lower.constant job.requestNull := by
        rw [rebuilt.constant, restartable.null sound found isKind isServed]
        exact isNull
      exact ⟨e, after, isNull', sound'.completed after isNull' isSaved⟩
  · intro h e found isKind
    rcases sound.at_checkpoint drained found isKind with ⟨call, isCall, -⟩ | ⟨saved, isServed, -⟩
    · exact .inl (isCall ▸ rfl)
    · exact .inr (isServed ▸ rfl)
  · exact replayed.posted.trans (rebuilt.pending ▸ rfl)

theorem requests_survive_restart_iff
    (reached : Reachable ((requestMachine job).restrict RequestAction.restartable) s) :
    (∀ h e saved, s.table.find h = some e → kindOf h = Kind.request.code → s.served h = some saved →
      e.real = s.null job ∧ s.Completed job h saved) ∧
    ∀ new picks reposts, Hosts job.toJob new → picks.Fresh s.table new → s.drained job = true →
      ((∃ s', s.restart job new picks reposts = some s' ∧ RequestsSurvive job reposts s s') ↔ s.Restartable job new) := by
  have sound := reachable_requestsSound reached
  refine ⟨?_, ?_⟩
  · intro h e saved found isKind isServed
    have entry := sound.entries h e found isKind
    simp only [Requests.EntrySound, isServed] at entry
    split at entry
    · next isSaved noCall =>
      cases isSaved
      exact ⟨entry.1, sound.completed found entry.1 entry.2⟩
    · exact entry.elim
    · next isNone _ => cases isNone
    · next isNone _ => cases isNone
  · intro new picks reposts hosts fresh drained
    constructor
    · rintro ⟨s', taken, survive⟩
      obtain ⟨rank, t, posted, rfl, rebuilt, replayed⟩ := sound.restart_eq hosts taken
      have shape := sound.types.accounts.wellFormed.shape
      refine ⟨?_, ?_⟩
      · intro e inUse isKind isServed
        have found := shape.mem_inUse.mp inUse
        obtain ⟨saved, isServed⟩ := isSome_iff_exists.mp isServed
        obtain ⟨e', found', isNull', -⟩ := survive.served e.virt e saved found isKind isServed
        have after := rebuilt.find_restart sound replayed found isKind
        obtain ⟨call, -, -, notServed⟩ | ⟨-, -, noCall, isNull, -⟩ := sound.at_checkpoint drained found isKind
        · cases notServed.symm.trans isServed
        · rw [noCall] at after
          obtain rfl := mem_unique after found'
          rw [← rebuilt.constant, ← isNull]
          exact isNull'.symm
      · intro e inUse
        have found := shape.mem_inUse.mp inUse
        cases isCall : e.call with
        | none => rfl
        | some call =>
          obtain ⟨-, e', lowered, -, -, -, -, live⟩ := survive.pending e.virt e call found isCall
          show s.commLive e.virt call.comm = true
          unfold Requests.commLive
          cases isSeq : s.commSeq e.virt with
          | none => rfl
          | some seq =>
            obtain ⟨f, isComm, sameSeq⟩ := live seq isSeq
            have same := rebuilt.seq_restart replayed call.comm
            rw [show t.find call.comm = some f from isComm, map_some, eq_comm, map_eq_some_iff] at same
            obtain ⟨f₀, isComm₀, sameSeq₀⟩ := same
            simp only [all_some, isComm₀, any_some, beq_iff_eq]
            exact sameSeq₀.trans sameSeq
    · intro restartable
      obtain ⟨s', taken⟩ := @RequestsSound.restart_returns _ _ _ _ reposts sound hosts fresh drained restartable
      exact ⟨s', taken, sound.survive hosts drained restartable taken⟩

end Completed

def requestJob : RequestJob where
  toJob :=
    { twoRankJob with
      up :=
        { wide := false
          constants := [0x4c000405, 0x44000000, 0x44000001, 0x2c000000, 0x4c00010d]
          fits := by decide }
      isType := fun p m isType => List.mem_append_left [0x2c000000, 0x4c00010d] (twoRankJob.isType p m isType)
      isWorld := by decide
      isSelf := by decide }
  requestNull := 0x2c000000
  byte := 0x4c00010d
  isNull := by decide
  isByte := by decide

theorem startedAt_hosts_requests (base : Nat) : Hosts requestJob.toJob (startedAt base) where
  types := (startedAt_hosts base).types
  world := (startedAt_hosts base).world
  self := (startedAt_hosts base).self
  distinct := (startedAt_hosts base).distinct

def recvCall : NonblockingCall where
  type := .irecv
  sendbuf := 0
  recvbuf := 4096
  count := 4
  datatype := 0x4c00010d
  comm := 0x44000000
  remoteNode := 1
  tag := 3
  laterSends := 0

/-- A pending receive and one that MANA has served, over a restart into a lower half with the same constants. -/
theorem requests_survive_restart_iff_same_null :
    ∃ s s' : Requests, Reachable ((requestMachine requestJob).restrict RequestAction.restartable) s ∧
      s.restart requestJob (startedAt 0) farPicks (· + 1) = some s' ∧ s.rank.types.pending = [0x50000002] ∧
      s.served 0x50000003 = some (some ⟨1, 3, 0, 4⟩) ∧ RequestsSurvive requestJob (· + 1) s s' := by
  have ran : (((requestMachine requestJob).restrict RequestAction.restartable).run (.initial requestJob (startedAt 0))
      [.post recvCall 11, .serve ⟨1, 3, 0, 4⟩]).map (fun s => (s.rank.types.pending, s.served 0x50000003,
        s.drained requestJob, decide (s.Restartable requestJob (startedAt 0)))) =
      some ([0x50000002], some (some ⟨1, 3, 0, 4⟩), true, true) := by decide +kernel
  obtain ⟨s, ran, ends⟩ := map_eq_some_iff.mp ran
  simp only [Prod.mk.injEq, decide_eq_true_eq] at ends
  obtain ⟨pending, isServed, drained, restartable⟩ := ends
  have first : ((requestMachine requestJob).restrict RequestAction.restartable).initial (.initial requestJob (startedAt 0)) :=
    ⟨_, startedAt_hosts_requests 0, rfl⟩
  have reached := (Reachable.start first).run ran
  obtain ⟨s', taken, survive⟩ := ((requests_survive_restart_iff reached).2 (startedAt 0) farPicks (· + 1)
    (startedAt_hosts_requests 0) (farPicks_fresh _) drained).mpr restartable
  exact ⟨s, s', reached, taken, pending, isServed, survive⟩

/-- A receive served from MANA's buffer, then a restart into a lower half with another null request: `MPI_Wait` passes
the old one to the library. -/
theorem completed_request_lost_by_restart :
    ∃ s s' : Requests, Reachable (requestMachine requestJob) s ∧ s.drained requestJob = true ∧
      s.restart requestJob (startedAt 0) farPicks (· + 1) = some s' ∧
      s.wait requestJob (fun _ => none) 0x50000002 = .completed (some ⟨1, 3, 0, 4⟩) ∧
      s'.wait requestJob (fun _ => none) 0x50000002 = .foreign 0x2c000007 ∧ s'.null requestJob = 0x2c000000 := by
  have ran : ((requestMachine requestJob).run (.initial requestJob (startedAt 7)) [.serve ⟨1, 3, 0, 4⟩]).bind
      (fun s => (s.restart requestJob (startedAt 0) farPicks (· + 1)).map fun s' =>
        (s.drained requestJob, s.wait requestJob (fun _ => none) 0x50000002,
          s'.wait requestJob (fun _ => none) 0x50000002, s'.null requestJob)) =
      some (true, .completed (some ⟨1, 3, 0, 4⟩), .foreign 0x2c000007, 0x2c000000) := by decide +kernel
  obtain ⟨s, ran, rest⟩ := bind_eq_some_iff.mp ran
  obtain ⟨s', taken, ends⟩ := map_eq_some_iff.mp rest
  simp only [Prod.mk.injEq] at ends
  obtain ⟨drained, before, after, isNull⟩ := ends
  have first : (requestMachine requestJob).initial (.initial requestJob (startedAt 7)) := ⟨_, startedAt_hosts_requests 7, rfl⟩
  exact ⟨s, s', (Reachable.start first).run ran, drained, taken, before, after, isNull⟩

end Mana.VirtId
