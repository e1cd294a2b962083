import Mana.VirtId.Requests
import Mana.VirtId.TypeRestart

/-! The invariant of the requests: a pending call has its request in the lower half, and a request that
MANA has completed has the null request and the saved status. -/

namespace Mana.VirtId
open Mana.Lib Option Function

def KeepsRequests (t t' : Table Desc) : Prop :=
  ∀ h e', t'.find h = some e' → (kindOf h = Kind.request.code ∨ e'.call.isSome = true) → t.find h = some e'

section Keeps

variable {t t' t'' : Table Desc} {up : UpperHalf} {s s' : TypeState}

theorem KeepsRequests.refl (t : Table Desc) : KeepsRequests t t := fun _ _ found _ => found

theorem KeepsRequests.trans (one : KeepsRequests t t') (two : KeepsRequests t' t'') : KeepsRequests t t'' :=
  fun h e found isRequest => one h e (two h e found isRequest) isRequest

theorem Table.Puts.keepsRequests {handle : Nat} {entry : Option (Entry Desc)} (puts : t.Puts handle entry t')
    (notRequest : ∀ e, entry = some e → kindOf handle ≠ Kind.request.code ∧ e.call = none) : KeepsRequests t t' := by
  intro h e' found' isRequest
  rcases puts.cases found' with ⟨rfl, isNew⟩ | ⟨-, found⟩
  · obtain ⟨notKind, noCall⟩ := notRequest e' isNew
    rw [noCall] at isRequest
    exact absurd (isRequest.resolve_right nofun) notKind
  · exact found

theorem Table.Adds.keepsRequests {kind : Kind} {real handle : Handle} {desc : Option Desc}
    (adds : t.Adds kind real desc handle t') (notRequest : kind ≠ .request) : KeepsRequests t t' := by
  obtain ⟨e, found, -, -, -, noCall, -⟩ := adds.entry
  refine (adds.puts found).keepsRequests ?_
  rintro _ ⟨⟩
  refine ⟨?_, noCall⟩
  rw [adds.ofKind]
  cases kind <;> first | exact absurd rfl notRequest | decide

theorem Table.Frees.keepsRequests {handle : Nat} (frees : t.Frees handle t') : KeepsRequests t t' :=
  frees.toPuts.keepsRequests fun _ isNew => nomatch isNew

theorem RefsFrame.keepsRequests (frame : RefsFrame s.table t') (accounts : Accounts up s []) :
    KeepsRequests s.table t' := by
  intro h e' found' isRequest
  refine (frame.others h ?_).symm.trans found'
  rcases isRequest with isKind | isCall
  · exact accounts.request_not_type isKind
  · refine nodeOf_eq_none fun e d found isDesc => ?_
    obtain ⟨e₀, refs, found₀, rfl⟩ := frame.kept h e' found'
    obtain rfl := mem_unique found found₀
    have idle := (accounts.entries h e found).idle (isDesc ▸ rfl)
    rw [show (withRefs refs e).call = e.call from rfl, idle] at isCall
    cases isCall

theorem TypeAction.Does.requests {action : TypeAction} (does : action.Does up s s') (accounts : Accounts up s [])
    (other : action.onRequests = false) : KeepsRequests s.table s'.table := by
  cases action with
  | construct call real =>
    obtain ⟨-, handle, t₁, t, frame, -, adds, rfl⟩ := does
    exact (frame.keepsRequests accounts).trans (adds.keepsRequests nofun)
  | commit type =>
    obtain ⟨-, e, d, t, found, isDesc, modifies, rfl⟩ := does
    have entry := accounts.entries type e found
    refine (modifies.puts found).keepsRequests ?_
    rintro _ ⟨⟩
    refine ⟨fun isKind => ?_, entry.idle (isDesc ▸ rfl)⟩
    exact nomatch (entry.request isKind).symm.trans isDesc
  | free type => exact does.2.1.keepsRequests accounts
  | release => exact does.1.keepsRequests accounts
  | post | drained | complete => cases other

end Keeps

section RankSteps

variable {job : Job} {r r' : Rank}

theorem Rank.createComm_requests {parent : Handle} {members : List Nat} {cart : Option (List (Nat × Bool))}
    {real handle : Handle} {gid : Nat} (sound : TypesSound job r)
    (made : r.createComm job parent members cart real gid = some (handle, r')) :
    KeepsRequests r.types.table r'.types.table ∧ r'.lower.constant = r.lower.constant := by
  obtain ⟨realParent, comm, t, -, -, -, added, rfl⟩ := Rank.createComm_eq made
  exact ⟨(sound.accounts.wellFormed.addVirtId added).keepsRequests nofun, rfl⟩

theorem Rank.freeComm_requests {comm : Handle} {deletes : Int → Attr.Answer Nat} (sound : TypesSound job r)
    (freed : r.freeComm job comm deletes = some r') :
    KeepsRequests r.types.table r'.types.table ∧ r'.lower.constant = r.lower.constant := by
  obtain ⟨keyvals, rfl | ⟨real, t, -, isFreed, rfl⟩⟩ := Rank.freeComm_eq freed
  · exact ⟨.refl _, rfl⟩
  · exact ⟨(sound.accounts.wellFormed.freeVirtId isFreed).keepsRequests, rfl⟩

theorem Rank.step_requests {action : RankAction job} (sound : TypesSound job r) (taken : r.step job action = some r')
    (other : action.onRequests = false) :
    KeepsRequests r.types.table r'.types.table ∧ r'.lower.constant = r.lower.constant := by
  have adds : ∀ kind {real desc}, kind ≠ .request → (r.types.table.addVirtId kind real desc).map (fun p => r.setTable p.2) =
      some r' → KeepsRequests r.types.table r'.types.table ∧ r'.lower.constant = r.lower.constant := by
    intro kind real desc notRequest added
    obtain ⟨⟨handle, t⟩, isAdded, rfl⟩ := map_eq_some_iff.mp added
    exact ⟨(sound.accounts.wellFormed.addVirtId isAdded).keepsRequests notRequest, rfl⟩
  have stays : ∀ {keyvals : Attr.Store Nat}, some { r with keyvals := keyvals } = some r' →
      KeepsRequests r.types.table r'.types.table ∧ r'.lower.constant = r.lower.constant := by
    intro keyvals same
    cases same
    exact ⟨.refl _, rfl⟩
  cases action with
  | types action =>
    obtain ⟨stepped, constant, -⟩ := Rank.typeStep_comms taken
    exact ⟨(sound.accounts.step stepped).2.requests sound.accounts other, constant⟩
  | createComm parent members cart real gid =>
    obtain ⟨-, made⟩ := ite_none_right_eq_some.mp taken
    obtain ⟨⟨handle, r₁⟩, isMade, rfl⟩ := map_eq_some_iff.mp made
    exact Rank.createComm_requests sound isMade
  | dupComm parent real gid copies deletes =>
    obtain ⟨-, dup⟩ := ite_none_right_eq_some.mp taken
    obtain ⟨members, cart, handle, r₁, keyvals, made, rest⟩ := Rank.dupComm_eq dup
    obtain ⟨keeps, constant⟩ := Rank.createComm_requests sound made
    rcases rest with rfl | freed
    · exact ⟨keeps, constant⟩
    · have sound₁ : TypesSound job { r₁ with keyvals := keyvals } := (sound.createComm made).1.rest rfl rfl rfl rfl
      obtain ⟨keeps', constant'⟩ := Rank.freeComm_requests sound₁ freed
      exact ⟨keeps.trans keeps', constant'.trans constant⟩
  | freeComm comm deletes =>
    obtain ⟨-, freed⟩ := ite_none_right_eq_some.mp taken
    exact Rank.freeComm_requests sound freed
  | barrierDone real =>
    obtain ⟨-, finished⟩ := ite_none_right_eq_some.mp taken
    cases finished
    exact ⟨.refl _, rfl⟩
  | setErrhandler comm handler =>
    obtain ⟨-, set⟩ := ite_none_right_eq_some.mp taken
    obtain ⟨real, -, set⟩ := bind_eq_some_iff.mp set
    obtain ⟨obj, -, rfl⟩ := map_eq_some_iff.mp set
    exact ⟨.refl _, rfl⟩
  | keyval op => exact stays taken
  | setAttr | deleteAttr => exact stays (ite_none_right_eq_some.mp taken).2
  | newGroup d real => exact adds .group nofun taken
  | newOp d real => exact adds .op nofun taken
  | newFile real => exact adds .file nofun taken
  | freeHandle handle =>
    obtain ⟨-, freed⟩ := ite_none_right_eq_some.mp taken
    obtain ⟨t, isFreed, rfl⟩ := map_eq_some_iff.mp freed
    exact ⟨(sound.accounts.wellFormed.freeVirtId isFreed).keepsRequests, rfl⟩
  | restart new picks => cases other

end RankSteps

def Requests.EntrySound (job : RequestJob) (s : Requests) (h : Handle) (e : Entry Desc) : Prop :=
  match s.served h, e.call with
  | some saved, none => e.real = s.null job ∧ e.savedStatus = saved
  | some _, some _ => False
  | none, some call => e.completed = false ∧ e.collective = false ∧
    (match s.commSeq h with
      | none => call.comm ∈ job.up.constants
      | some _ => kindOf call.comm = Kind.comm.code) ∧
    ∃ lowered, (e.real, .p2p lowered) ∈ s.posted
  | none, none => e.completed = false ∧ e.collective = true ∧ e.real ≠ s.null job ∧ (e.real, .collective) ∈ s.posted

/-- The invariant of the requests, as long as the null requests of the lower halves do not get mixed. -/
structure RequestsSound (job : RequestJob) (s : Requests) : Prop where
  types : TypesSound job.toJob s.rank
  kinds : ∀ h e, s.table.find h = some e → e.call.isSome = true → kindOf h = Kind.request.code
  entries : ∀ h e, s.table.find h = some e → kindOf h = Kind.request.code → s.EntrySound job h e

section Sound

variable {job : RequestJob} {s s' : Requests}
variable {e : Entry Desc} {request real : Handle} {t : Table Desc} {assign : Entry Desc → Entry Desc}
    {call : NonblockingCall} {status : Status}

theorem Requests.EntrySound.congr {h : Handle} (sound : s.EntrySound job h e) (null : s'.null job = s.null job)
    (posted : ∀ p ∈ s.posted, p ∈ s'.posted) (served : s'.served h = s.served h) (commSeq : s'.commSeq h = s.commSeq h) :
    s'.EntrySound job h e := by
  unfold Requests.EntrySound at sound ⊢
  rw [served, commSeq, null]
  split at sound
  · exact sound
  · exact sound
  · obtain ⟨completed, notCollective, comm, lowered, member⟩ := sound
    exact ⟨completed, notCollective, comm, lowered, posted _ member⟩
  · obtain ⟨completed, collective, notNull, member⟩ := sound
    exact ⟨completed, collective, notNull, posted _ member⟩

theorem RequestsSound.initial {lh : LowerHalf} (hosts : Hosts job.toJob lh) : RequestsSound job (.initial job lh) := by
  exact
    { types := .initial hosts
      kinds := fun h e found => absurd found Table.find_initial_ne
      entries := fun h e found => absurd found Table.find_initial_ne }

theorem RequestsSound.keep {rank : Rank} (sound : RequestsSound job s) (types : TypesSound job.toJob rank)
    (keeps : KeepsRequests s.table rank.types.table) (constant : rank.lower.constant = s.rank.lower.constant) :
    RequestsSound job { s with rank := rank } where
  types := types
  kinds := fun h e found isCall => sound.kinds h e (keeps h e found (.inr isCall)) isCall
  entries := by
    intro h e found isKind
    exact (sound.entries h e (keeps h e found (.inl isKind)) isKind).congr (congrFun constant _) (fun _ member => member)
      rfl rfl

theorem RequestsSound.change (sound : RequestsSound job s) (types : TypesSound job.toJob s'.rank)
    (isKind : kindOf request = Kind.request.code) (null : s'.null job = s.null job)
    (posted : ∀ p ∈ s.posted, p ∈ s'.posted)
    (others : ∀ h, h ≠ request → s'.table.find h = s.table.find h ∧ s'.served h = s.served h ∧ s'.commSeq h = s.commSeq h)
    (entry : ∀ e, s'.table.find request = some e → s'.EntrySound job request e) : RequestsSound job s' where
  types := types
  kinds := by
    intro h e found isCall
    by_cases same : h = request
    · exact same ▸ isKind
    · exact sound.kinds h e ((others h same).1.symm.trans found) isCall
  entries := by
    intro h e found isKind'
    by_cases same : h = request
    · subst same
      exact entry e found
    · obtain ⟨sameEntry, served, commSeq⟩ := others h same
      exact (sound.entries h e (sameEntry.symm.trans found) isKind').congr null posted served commSeq

theorem TypesSound.onRequest {job : Job} {r : Rank} (sound : TypesSound job r)
    (accounts : Accounts job.up { r.types with table := t } []) (keeps : Keeps r.types.table t) :
    TypesSound job (r.setTable t) :=
  sound.keep accounts keeps.types (fun _ member => member) rfl rfl (fun _ _ _ => rfl) fun _ _ _ _ => rfl

theorem isRequest_of_find {up : UpperHalf} {t : Table Desc} {request : Handle} {e : Entry Desc}
    (found : t.find request = some e) (isKind : kindOf request = Kind.request.code) : isRequest up request = true :=
  isRequest_iff.mpr ⟨handleValue_of_lt (Table.find_small found), isKind⟩

theorem TypesSound.assignRequest {job : Job} {r : Rank} (sound : TypesSound job r)
    (found : r.types.table.find request = some e) (isKind : kindOf request = Kind.request.code)
    (modifies : r.types.table.Modifies request assign t)
    (same : ∀ e, (assign e).seq = e.seq ∧ (assign e).call = e.call ∧ (assign e).desc = e.desc) :
    TypesSound job (r.setTable t) := by
  refine sound.onRequest (sound.accounts.assign modifies fun e => ?_) ((modifies.puts found).keeps ?_)
  · obtain ⟨seq, call, desc⟩ := same e
    exact ⟨seq, call, by rw [Entry.node, desc]; rfl, by rw [desc]⟩
  · rintro _ ⟨⟩
    exact ⟨isKind, (same e).2.2.trans ((sound.accounts.entries request e found).request isKind)⟩

theorem RequestsSound.modify (sound : RequestsSound job s) (found : s.table.find request = some e)
    (isKind : kindOf request = Kind.request.code) (modified : s.table.modifyEntry job.up.wide request assign = some t)
    (inPlace : ∀ e, (assign e).place = e.place)
    (same : ∀ e, (assign e).seq = e.seq ∧ (assign e).call = e.call ∧ (assign e).desc = e.desc) :
    s.table.Modifies request assign t ∧ TypesSound job.toJob (s.rank.setTable t) := by
  have modifies := sound.types.accounts.wellFormed.modifies (handleValue_of_lt (Table.find_small found)) modified inPlace
  exact ⟨modifies, sound.types.assignRequest found isKind modifies same⟩

theorem TypesSound.commSeq {job : Job} {r : Rank} (sound : TypesSound job r) {comm : Handle}
    (isComm : r.isComm job comm = true) :
    match (r.types.table.find comm).map (·.seq) with
    | none => comm ∈ job.up.constants
    | some _ => kindOf comm = Kind.comm.code := by
  have predefined : comm ∈ job.up.constants → match (r.types.table.find comm).map (·.seq) with
      | none => comm ∈ job.up.constants
      | some _ => kindOf comm = Kind.comm.code := by
    intro isConstant
    rw [sound.accounts.wellFormed.shape.find_constant sound.accounts.reserved isConstant]
    exact isConstant
  rcases Rank.isComm_cases isComm with rfl | rfl | ⟨e, d, found, isDesc⟩
  · exact predefined job.isWorld
  · exact predefined job.isSelf
  · have described := sound.described comm e found
    rw [Entry.Described, isDesc, Table.find_virt found] at described
    rw [found]
    exact described

theorem RequestsSound.post (sound : RequestsSound job s) (taken : s.post job call real = some s') :
    RequestsSound job s' := by
  obtain ⟨isComm, taken⟩ := ite_none_right_eq_some.mp taken
  obtain ⟨lowered, -, taken⟩ := bind_eq_some_iff.mp taken
  obtain ⟨rank, stepped, taken⟩ := bind_eq_some_iff.mp taken
  obtain ⟨request, isLast, rfl⟩ := map_eq_some_iff.mp taken
  have types := sound.types.typeStep stepped
  obtain ⟨types', isStep, rfl⟩ := map_eq_some_iff.mp stepped
  obtain ⟨-, posted⟩ := ite_none_right_eq_some.mp isStep
  obtain ⟨⟨handle, t⟩, added, posted⟩ := bind_eq_some_iff.mp posted
  obtain ⟨t', modified, rfl⟩ := map_eq_some_iff.mp posted
  obtain rfl : handle = request := by
    simpa only [List.getLast?_concat, some.injEq] using isLast
  have adds := sound.types.accounts.wellFormed.addVirtId added
  obtain ⟨e, found, isReal, -, -, -, notCollective, notCompleted, -⟩ := adds.entry
  have modifies := adds.wellFormed.modifies (handleValue_of_lt (Table.find_small found)) modified fun _ => rfl
  refine sound.change types adds.ofKind rfl (fun p member => List.mem_append_left _ member) ?_ ?_
  · intro h differs
    exact ⟨(modifies.others h differs).trans (adds.others h differs), update_of_ne differs _ _,
      update_of_ne differs _ _⟩
  · intro e' found'
    obtain rfl := mem_unique (modifies.puts found).here found'
    simp only [Requests.EntrySound, update_self]
    refine ⟨notCompleted, notCollective, sound.types.commSeq isComm, lowered, ?_⟩
    exact isReal ▸ List.mem_append_right _ List.mem_cons_self

/-- A new request whose entry gets one assignment: the common part of `serve` and `startCollective`. -/
theorem RequestsSound.addRequest {request : Nat} {t' : Table Desc} (sound : RequestsSound job s)
    (added : s.table.addVirtId .request real none = some (request, t))
    (modified : t.modifyEntry job.up.wide request assign = some t') (inPlace : ∀ e, (assign e).place = e.place)
    (same : ∀ e, (assign e).seq = e.seq ∧ (assign e).call = e.call ∧ (assign e).desc = e.desc) :
    TypesSound job.toJob (s.rank.setTable t') ∧ kindOf request = Kind.request.code ∧
      (∀ h, h ≠ request → t'.find h = s.table.find h) ∧
      ∃ e, t'.find request = some (assign e) ∧ e.real = real ∧ e.call = none ∧ e.completed = false := by
  have adds := sound.types.accounts.wellFormed.addVirtId added
  obtain ⟨e, found, isReal, noDesc, -, noCall, -, notCompleted, -⟩ := adds.entry
  have types : TypesSound job.toJob (s.rank.setTable t) :=
    sound.types.onRequest (sound.types.accounts.add adds rfl (.inl rfl))
      ((adds.puts found).keeps fun f isNew => some.inj isNew ▸ ⟨adds.ofKind, noDesc⟩)
  have modifies := adds.wellFormed.modifies (handleValue_of_lt (Table.find_small found)) modified inPlace
  refine ⟨types.assignRequest found adds.ofKind modifies same, adds.ofKind, ?_, e, (modifies.puts found).here, isReal,
    noCall, notCompleted⟩
  exact fun h differs => (modifies.others h differs).trans (adds.others h differs)

theorem RequestsSound.serve (sound : RequestsSound job s) (taken : s.serve job status = some s') :
    RequestsSound job s' := by
  obtain ⟨⟨request, t⟩, added, taken⟩ := bind_eq_some_iff.mp taken
  obtain ⟨t', modified, rfl⟩ := map_eq_some_iff.mp taken
  obtain ⟨types, isKind, others, e, after, -, noCall, -⟩ :=
    sound.addRequest added modified (fun _ => rfl) fun _ => ⟨rfl, rfl, rfl⟩
  refine sound.change types isKind rfl (fun p member => member) ?_ ?_
  · exact fun h differs => ⟨others h differs, update_of_ne differs _ _, rfl⟩
  · intro e' found'
    obtain rfl := mem_unique after found'
    simp only [Requests.EntrySound, update_self, noCall]
    exact ⟨rfl, rfl⟩

theorem RequestsSound.startCollective (sound : RequestsSound job s) (taken : s.startCollective job real = some s') :
    RequestsSound job s' := by
  obtain ⟨notNull, taken⟩ := ite_none_left_eq_some.mp taken
  obtain ⟨⟨request, t⟩, added, taken⟩ := bind_eq_some_iff.mp taken
  obtain ⟨t', modified, rfl⟩ := map_eq_some_iff.mp taken
  obtain ⟨types, isKind, others, e, after, isReal, noCall, notCompleted⟩ :=
    sound.addRequest added modified (fun _ => rfl) fun _ => ⟨rfl, rfl, rfl⟩
  refine sound.change types isKind rfl (fun p member => List.mem_append_left _ member) ?_ ?_
  · exact fun h differs => ⟨others h differs, update_of_ne differs _ _, rfl⟩
  · intro e' found'
    obtain rfl := mem_unique after found'
    simp only [Requests.EntrySound, update_self, noCall, isReal]
    exact ⟨notCompleted, trivial, notNull, List.mem_append_right _ List.mem_cons_self⟩

theorem RequestsSound.finish {answer : Answer} (sound : RequestsSound job s)
    (taken : s.finish job request answer = some s') : RequestsSound job s' := by
  cases answer with
  | pending =>
    cases taken
    exact sound
  | completed status =>
    simp only [Requests.finish] at taken
    split at taken
    · cases taken
      exact sound
    · obtain ⟨rank, stepped, rfl⟩ := map_eq_some_iff.mp taken
      have types := sound.types.typeStep stepped
      obtain ⟨types', isStep, rfl⟩ := map_eq_some_iff.mp stepped
      obtain ⟨isReq, completed⟩ := ite_none_right_eq_some.mp isStep
      obtain ⟨s₁, released, completed⟩ := bind_eq_some_iff.mp completed
      obtain ⟨t, freed, rfl⟩ := map_eq_some_iff.mp completed
      have accounts := sound.types.accounts
      obtain ⟨fits, isKind⟩ := isRequest_iff.mp isReq
      obtain ⟨isCleared, -⟩ := accounts.clear isReq
      obtain ⟨s₂, ran, after, frame, -⟩ := isCleared.releaseFreedDatatypes
      obtain rfl := mem_unique released ran
      have frees := after.wellFormed.freeVirtId freed
      rw [fits] at frees
      have cleared : ∀ h, h ≠ request →
          (clearPendingRequestFromLog job.up.wide s.rank.types request).table.find h = s.table.find h := by
        intro h differs
        rcases clearPending_cases accounts.wellFormed fits with same | ⟨e, t, -, modifies, isCleared⟩
        · rw [same]
          rfl
        · rw [isCleared]
          exact modifies.others h differs
      refine sound.keep types ?_ rfl
      intro h e found isRequest
      obtain ⟨differs, before⟩ := frees.before found
      rw [← cleared h differs]
      exact frame.keepsRequests isCleared h e before isRequest
  | foreign real => cases taken
  | abort => cases taken

theorem Requests.pendingRequestType_eq {type : CallType} :
    s.pendingRequestType request = some type ↔
      ∃ e call, s.table.find request = some e ∧ e.call = some call ∧ call.type = type := by
  simp only [Requests.pendingRequestType, map_eq_some_iff, bind_eq_some_iff]
  constructor
  · rintro ⟨call, ⟨e, found, isCall⟩, isType⟩
    exact ⟨e, call, found, isCall, isType⟩
  · rintro ⟨e, call, found, isCall, isType⟩
    exact ⟨call, ⟨e, found, isCall⟩, isType⟩

theorem RequestsSound.logged (sound : RequestsSound job s) (found : s.table.find request = some e)
    (isCall : e.call = some call) :
    kindOf request = Kind.request.code ∧ s.served request = none ∧ e.completed = false ∧ e.collective = false ∧
      match s.commSeq request with
      | none => call.comm ∈ job.up.constants
      | some _ => kindOf call.comm = Kind.comm.code := by
  have isKind := sound.kinds request e found (isCall ▸ rfl)
  have entry := sound.entries request e found isKind
  unfold Requests.EntrySound at entry
  rw [isCall] at entry
  cases isServed : s.served request with
  | some saved =>
    rw [isServed] at entry
    exact entry.elim
  | none =>
    rw [isServed] at entry
    exact ⟨isKind, rfl, entry.1, entry.2.1, entry.2.2.1⟩

theorem RequestsSound.drainRecv (sound : RequestsSound job s) (taken : s.drainRecv job request status = some s') :
    RequestsSound job s' := by
  obtain ⟨isType, taken⟩ := ite_none_right_eq_some.mp taken
  obtain ⟨t, modified, rfl⟩ := map_eq_some_iff.mp taken
  obtain ⟨e, call, found, isCall, -⟩ := Requests.pendingRequestType_eq.mp isType
  obtain ⟨isKind, -⟩ := sound.logged found isCall
  have isReq := @isRequest_of_find job.up _ _ _ found isKind
  obtain ⟨modifies, types⟩ := sound.modify found isKind modified (fun _ => rfl) fun _ => ⟨rfl, rfl, rfl⟩
  have after := (modifies.puts found).here
  obtain ⟨t', clears, cleared⟩ := @clearPending_logged job.up { s.rank.types with table := t } request _
    modifies.wellFormed (isRequest_iff.mp isReq).1 after (isCall ▸ rfl)
  have types' : TypesSound job.toJob { s.rank with types := { s.rank.types with
      table := t', pending := s.rank.types.pending.erase request } } := by
    obtain ⟨accounts, keeps, -⟩ := types.accounts.clear isReq
    simp only [Rank.setTable, cleared] at keeps accounts
    exact types.keep accounts keeps.types (fun _ member => member) rfl rfl (fun _ _ _ => rfl) fun _ _ _ _ => rfl
  rw [cleared]
  refine sound.change types' isKind rfl (fun p member => member) ?_ ?_
  · exact fun h differs => ⟨(clears.others h differs).trans (modifies.others h differs), update_of_ne differs _ _, rfl⟩
  · intro e' found'
    obtain rfl := mem_unique (clears.puts after).here found'
    simp only [Requests.EntrySound, update_self]
    exact ⟨rfl, rfl⟩

theorem RequestsSound.drainSend (sound : RequestsSound job s) (taken : s.drainSend job request = some s') :
    RequestsSound job s' := by
  obtain ⟨isType, taken⟩ := ite_none_right_eq_some.mp taken
  obtain ⟨rank, stepped, rfl⟩ := map_eq_some_iff.mp taken
  obtain ⟨e, call, found, isCall, -⟩ := Requests.pendingRequestType_eq.mp isType
  obtain ⟨isKind, -, notCompleted, -⟩ := sound.logged found isCall
  have types := sound.types.typeStep stepped
  obtain ⟨types', isStep, rfl⟩ := map_eq_some_iff.mp stepped
  obtain ⟨isReq, drained⟩ := ite_none_right_eq_some.mp isStep
  obtain ⟨t, modified, rfl⟩ := map_eq_some_iff.mp drained
  obtain ⟨modifies, -⟩ := sound.modify found isKind modified (fun _ => rfl) fun _ => ⟨rfl, rfl, rfl⟩
  have after := (modifies.puts found).here
  obtain ⟨t', clears, cleared⟩ := @clearPending_logged job.up { s.rank.types with table := t } request _
    modifies.wellFormed (isRequest_iff.mp isReq).1 after (isCall ▸ rfl)
  rw [cleared] at types ⊢
  refine sound.change types isKind rfl (fun p member => member) ?_ ?_
  · exact fun h differs => ⟨(clears.others h differs).trans (modifies.others h differs), update_of_ne differs _ _, rfl⟩
  · intro e' found'
    obtain rfl := mem_unique (clears.puts after).here found'
    simp only [Requests.EntrySound, update_self, Entry.savedStatus, notCompleted]
    exact ⟨rfl, rfl⟩

theorem TypesSound.replaceCall {job : RequestJob} {r : Rank} {call' : NonblockingCall} (sound : TypesSound job.toJob r)
    (found : r.types.table.find request = some e) (isKind : kindOf request = Kind.request.code)
    (isCall : e.call = some call) (modified : Requests.replacePendingCall job r.types.table request call' = some t)
    (datatype : call'.datatype = call.datatype ∨ call'.datatype ∈ job.up.constants) :
    r.types.table.Modifies request (fun e => { e with call := some call' }) t ∧ TypesSound job.toJob (r.setTable t) := by
  have modifies := sound.accounts.wellFormed.modifies (handleValue_of_lt (Table.find_small found)) modified fun _ => rfl
  have entry := sound.accounts.entries request e found
  have noDesc := entry.request isKind
  have isPending : request ∈ r.types.pending := (sound.accounts.pending request).mpr ⟨e, found, isCall ▸ rfl⟩
  refine ⟨modifies, sound.onRequest (sound.accounts.setCall modifies found noDesc ?_ sound.accounts.distinct ?_) ?_⟩
  · intro h
    by_cases same : h = request
    · simp only [same, isPending, isSome_some, true_and, ne_eq, not_true_eq_false, false_and, or_false]
    · simp only [same, false_and, ne_eq, not_false_eq_true, true_and, false_or]
  · intro c isNew
    cases isNew
    rcases datatype with same | isConstant
    · rw [same]
      exact entry.inUse call isCall
    · exact .inl isConstant
  · refine (modifies.puts found).keeps ?_
    rintro _ ⟨⟩
    exact ⟨isKind, noDesc⟩

theorem RequestsSound.awaitSsendAck {ackComm : Handle} {receiver ackTag : Int} (sound : RequestsSound job s)
    (taken : s.awaitSsendAck job request ackComm receiver ackTag real = some s') : RequestsSound job s' := by
  obtain ⟨⟨isType, isComm⟩, taken⟩ := ite_none_right_eq_some.mp taken
  obtain ⟨lowered, -, taken⟩ := bind_eq_some_iff.mp taken
  obtain ⟨t, updated, taken⟩ := bind_eq_some_iff.mp taken
  obtain ⟨t', replaced, rfl⟩ := map_eq_some_iff.mp taken
  obtain ⟨e, call, found, isCall, -⟩ := Requests.pendingRequestType_eq.mp isType
  obtain ⟨isKind, notServed, notCompleted, notCollective, -⟩ := sound.logged found isCall
  obtain ⟨modifies, types⟩ := sound.modify found isKind updated (fun _ => rfl) fun _ => ⟨rfl, rfl, rfl⟩
  have after := (modifies.puts found).here
  obtain ⟨replaces, types'⟩ := types.replaceCall after isKind isCall replaced (.inr job.isByte)
  refine sound.change types' isKind rfl (fun p member => List.mem_append_left _ member) ?_ ?_
  · exact fun h differs => ⟨(replaces.others h differs).trans (modifies.others h differs), rfl, update_of_ne differs _ _⟩
  · intro e' found'
    obtain rfl := mem_unique (replaces.puts after).here found'
    have notServed' : (s.setTable t').served request = none := notServed
    simp only [Requests.EntrySound, notServed', update_self]
    refine ⟨notCompleted, notCollective, sound.types.commSeq isComm, lowered, ?_⟩
    exact List.mem_append_right _ List.mem_cons_self

theorem RequestsSound.dropNotice (sound : RequestsSound job s) (taken : s.dropNotice job request = some s') :
    RequestsSound job s' := by
  obtain ⟨call, logged, taken⟩ := bind_eq_some_iff.mp taken
  obtain ⟨e, found, isCall⟩ := bind_eq_some_iff.mp logged
  obtain ⟨-, taken⟩ := ite_none_right_eq_some.mp taken
  obtain ⟨t, replaced, rfl⟩ := map_eq_some_iff.mp taken
  obtain ⟨isKind, notServed, -⟩ := sound.logged found isCall
  obtain ⟨replaces, types⟩ := sound.types.replaceCall found isKind isCall replaced (.inl rfl)
  refine sound.change types isKind rfl (fun p member => member) ?_ ?_
  · exact fun h differs => ⟨replaces.others h differs, rfl, rfl⟩
  · intro e' found'
    obtain rfl := mem_unique (replaces.puts found).here found'
    have entry := sound.entries request e found isKind
    have notServed' : (s.setTable t).served request = none := notServed
    simp only [Requests.EntrySound, notServed, isCall] at entry
    simp only [Requests.EntrySound, notServed']
    exact entry

theorem RequestsSound.mem_pendingCollectives (sound : RequestsSound job s) :
    e ∈ s.pendingCollectiveRequests job ↔ s.table.find e.virt = some e ∧ kindOf e.virt = Kind.request.code ∧
      e.collective = true ∧ e.real ≠ s.null job := by
  simp only [Requests.pendingCollectiveRequests, List.mem_filter, sound.types.accounts.wellFormed.shape.mem_inUse,
    Bool.and_eq_true, beq_iff_eq, bne_iff_ne, and_assoc, Requests.table]

theorem RequestsSound.finishCollective (sound : RequestsSound job s) (taken : s.finishCollective job request = some s') :
    RequestsSound job s' := by
  obtain ⟨member, taken⟩ := ite_none_right_eq_some.mp taken
  obtain ⟨t, updated, rfl⟩ := map_eq_some_iff.mp taken
  obtain ⟨e, isPending, rfl⟩ := List.mem_map.mp member
  obtain ⟨found, isKind, isCollective, notNull⟩ := sound.mem_pendingCollectives.mp isPending
  obtain ⟨modifies, types⟩ := sound.modify found isKind updated (fun _ => rfl) fun _ => ⟨rfl, rfl, rfl⟩
  have entry := sound.entries e.virt e found isKind
  refine sound.change types isKind rfl (fun p member => member) ?_ ?_
  · exact fun h differs => ⟨modifies.others h differs, update_of_ne differs _ _, rfl⟩
  · intro e' found'
    obtain rfl := mem_unique (modifies.puts found).here found'
    unfold Requests.EntrySound at entry
    split at entry
    · exact absurd entry.1 notNull
    · exact entry.elim
    · exact nomatch entry.2.1.symm.trans isCollective
    · next noCall =>
      simp only [Requests.EntrySound, update_self, noCall, Entry.savedStatus, entry.1]
      exact ⟨rfl, rfl⟩

end Sound

end Mana.VirtId
