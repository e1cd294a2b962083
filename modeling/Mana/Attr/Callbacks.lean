import Mana.Attr.Keyvals

/-! Each value that is stored has its delete callback called once, when it leaves the store. -/

namespace Mana.Attr
open Mana.Lib Option

variable {α : Type}

def Record.deletion (r : Record α) : List (Nat × Comm × Int × α × α) :=
  r.deleteFn.toList.map fun fn => (fn, r.comm, r.keyval, r.value, r.extraState)

namespace Store

def serialAt (s : Store α) (comm : Comm) (keyval : Int) : Option Nat := (s.stored comm keyval).map (·.serial)

/-- The delete callbacks that succeeded for the value of a store: function, arguments, extra state. -/
def deletions (s : Store α) (serial : Nat) : List (Nat × Comm × Int × α × α) :=
  (s.calls.filter fun call => call.callback = .delete ∧ call.code = 0 ∧ call.stored.serial = serial).map fun call =>
    (call.fn, call.comm, call.keyval, call.stored.value, call.extraState)

/-- An atomic change as the attributes see it: one attribute changes, with the delete callback for its old value and a
record of the new one. -/
structure Change (s s' : Store α) (comm : Comm) (keyval : Int) (before after : Option (Stored α × Record α)) : Prop where
  old : s.attr comm keyval = before
  attr : ∀ c k, s'.attr c k = if c = comm ∧ k = keyval then after else s.attr c k
  deletions : ∀ n, s'.deletions n = s.deletions n ++
    before.toList.flatMap fun old => if old.1.serial = n then old.2.deletion else []
  stores : s'.stores = s.stores ++ after.toList.map (·.2)
  new : ∀ new ∈ after, new.2.comm = comm ∧ new.2.keyval = keyval ∧
    new.1 = ⟨new.2.value, s.stores.length, before.elim s.stores.length (·.1.born)⟩

structure Quiet (s s' : Store α) : Prop where
  attr : ∀ c k, s'.attr c k = s.attr c k
  deletions : ∀ n, s'.deletions n = s.deletions n
  stores : s'.stores = s.stores
  selfKeyvals : s'.selfKeyvals = s.selfKeyvals

section Atoms

variable {cfg : Config} {s s' : Store α} {comm : Comm} {keyval : Int} {t : KeyvalTuple α} {old : Stored α}

/-- What the atomic changes do to attributes, callbacks and the list for `MPI_COMM_SELF`. -/
inductive Effect (cfg : Config) (s s' : Store α) : Prop where
  | quiet (quiet : Quiet s s')
  | put (comm : Comm) (keyval : Int) (new : Stored α × Record α) (change : Change s s' comm keyval none (some new))
      (selfKeyvals : s'.selfKeyvals = (s.pushSelf cfg comm keyval).selfKeyvals)
  | swap (comm : Comm) (keyval : Int) (old new : Stored α × Record α)
      (change : Change s s' comm keyval (some old) (some new)) (selfKeyvals : s'.selfKeyvals = s.selfKeyvals)
  | leave (comm : Comm) (keyval : Int) (old : Stored α × Record α) (change : Change s s' comm keyval (some old) none)
      (selfKeyvals : s'.selfKeyvals = (s.dropSelf cfg comm keyval).selfKeyvals)

theorem deletions_append (calls : List (Call α)) (n : Nat) :
    { s with calls := s.calls ++ calls }.deletions n = s.deletions n ++ { s with calls := calls }.deletions n := by
  simp only [deletions, List.filter_append, List.map_append]

theorem deletions_deleted (comm : Comm) (keyval : Int) (t : KeyvalTuple α) (old : Stored α) (n : Nat) :
    (s.deleted comm keyval t old).deletions n = s.deletions n ++
      if old.serial = n then (recorded t comm keyval old.value).deletion else [] := by
  rw [deleted, deletions_append]
  congr 1
  cases isFn : t.deleteFn with
  | none => simp [deletions, Record.deletion, recorded, isFn]
  | some fn =>
    by_cases same : old.serial = n <;> simp [deletions, Record.deletion, recorded, isFn, same]

theorem emplaceAttribute_frame (found : s.tupleMap.lookup keyval = some t) (absent : comm ∉ t.attributeMap)
    (value : α) (born : Nat) :
    (s.emplaceAttribute comm keyval value born).calls = s.calls ∧
      (s.emplaceAttribute comm keyval value born).stores = s.stores ++ [recorded t comm keyval value] ∧
      (s.emplaceAttribute comm keyval value born).selfKeyvals = s.selfKeyvals := by
  rw [emplaceAttribute, found]
  dsimp only
  rw [if_neg absent]
  exact ⟨rfl, rfl, rfl⟩

theorem Effect.of_put (found : s.tupleMap.lookup keyval = some t) (absent : t.attributeMap.lookup comm = none)
    (value : α) :
    Effect cfg s ((s.pushSelf cfg comm keyval).emplaceAttribute comm keyval value s.stores.length) := by
  have notThere : comm ∉ t.attributeMap := AList.lookup_eq_none.mp absent
  have found' : (s.pushSelf cfg comm keyval).tupleMap.lookup keyval = some t := found
  obtain ⟨calls, stores, selfKeyvals⟩ := emplaceAttribute_frame found' notThere value s.stores.length
  refine .put comm keyval _ ⟨?_, emplaceAttribute_of_absent found' notThere value _, fun n => ?_, stores, ?_⟩ selfKeyvals
  · rw [attr_of_lookup found, absent, map_none]
  · simp only [deletions, calls]
    exact (List.append_nil _).symm
  · rintro _ ⟨⟩
    exact ⟨rfl, rfl, rfl⟩

theorem Effect.of_swap (found : s.tupleMap.lookup keyval = some t) (held : t.attributeMap.lookup comm = some old)
    (value : α) :
    Effect cfg s (((s.deleted comm keyval t old).eraseAttribute comm keyval).emplaceAttribute comm keyval value old.born) := by
  have found' : (s.deleted comm keyval t old).tupleMap.lookup keyval = some t := found
  obtain ⟨calls, stores, selfKeyvals⟩ := @eraseAttribute_frame _ (s.deleted comm keyval t old) comm keyval
  have erased := lookup_eraseAttribute comm found'
  have absent : comm ∉ t.attributeMap.erase comm := fun there => (AList.mem_erase.mp there).1 rfl
  obtain ⟨calls', stores', selfKeyvals'⟩ := emplaceAttribute_frame erased absent value old.born
  refine .swap comm keyval (old, recorded t comm keyval old.value)
    (⟨value, s.stores.length, old.born⟩, recorded t comm keyval value) ⟨?_, fun c k => ?_, fun n => ?_, ?_, ?_⟩ (selfKeyvals'.trans selfKeyvals)
  · rw [attr_of_lookup found, held]
    rfl
  · rw [emplaceAttribute_of_absent erased absent, attr_eraseAttribute found', stores]
    split
    · rfl
    · rfl
  · have same := deletions_deleted (s := s) comm keyval t old n
    simp only [deletions, calls'.trans calls] at same ⊢
    rw [same]
    simp
  · rw [stores', stores]
    rfl
  · rintro _ ⟨⟩
    exact ⟨rfl, rfl, rfl⟩

theorem Effect.of_leave (found : s.tupleMap.lookup keyval = some t) (held : t.attributeMap.lookup comm = some old) :
    Effect cfg s ((((s.deleted comm keyval t old).eraseAttribute comm keyval).dropSelf cfg comm
      keyval).removeKeyvalIfUnused keyval) := by
  have found' : (s.deleted comm keyval t old).tupleMap.lookup keyval = some t := found
  obtain ⟨calls, stores, selfKeyvals⟩ := @eraseAttribute_frame _ (s.deleted comm keyval t old) comm keyval
  obtain ⟨calls', stores', selfKeyvals'⟩ := @removeKeyvalIfUnused_frame _
    (((s.deleted comm keyval t old).eraseAttribute comm keyval).dropSelf cfg comm keyval) keyval
  refine .leave comm keyval (old, recorded t comm keyval old.value) ⟨?_, fun c k => ?_, fun n => ?_, ?_, nofun⟩ ?_
  · rw [attr_of_lookup found, held]
    rfl
  · rw [attr_removeKeyvalIfUnused]
    exact attr_eraseAttribute found'
  · have same := deletions_deleted (s := s) comm keyval t old n
    simp only [deletions, calls'.trans calls] at same ⊢
    rw [same]
    simp
  · rw [stores']
    exact stores.trans (List.append_nil _).symm
  · rw [selfKeyvals']
    simp only [dropSelf, selfKeyvals]
    rfl

theorem Atom.effect (atom : Atom cfg s s') : Effect cfg s s' := by
  cases atom with
  | keyval op =>
    obtain ⟨calls, stores, selfKeyvals⟩ := @keyvalOp_frame _ cfg s op
    exact .quiet ⟨fun c k => attr_keyvalOp op, fun n => by simp only [deletions, calls], stores, selfKeyvals⟩
  | note call kept =>
    refine .quiet ⟨fun _ _ => rfl, fun n => ?_, rfl, rfl⟩
    rw [deletions_append]
    rcases kept with kept | kept <;> simp [deletions, kept]
  | put comm keyval value found absent => exact .of_put found absent value
  | swap comm keyval value found held => exact .of_swap found held value
  | leave comm keyval found held => exact .of_leave found held

end Atoms

/-- Each value that is there is the last one stored there; each one that left had its callback, and no other did. -/
structure Accounts (s : Store α) : Prop where
  held : ∀ c k v r, s.attr c k = some (v, r) →
    r.comm = c ∧ r.keyval = k ∧ v.value = r.value ∧ v.born ≤ v.serial ∧ s.stores[v.serial]? = some r ∧
      ∀ m r', v.serial < m → s.stores[m]? = some r' → ¬ (r'.comm = c ∧ r'.keyval = k)
  once : ∀ n r, s.stores[n]? = some r →
    s.deletions n = if s.serialAt r.comm r.keyval = some n then [] else r.deletion
  bound : ∀ n, s.stores.length ≤ n → s.deletions n = []

section Accounts

variable {cfg : Config} {s s' : Store α} {comm : Comm} {keyval : Int} {before after : Option (Stored α × Record α)}

theorem serialAt_eq (c : Comm) (k : Int) : s.serialAt c k = (s.attr c k).map (·.1.serial) := by
  rw [serialAt, stored_eq_attr, map_map]
  rfl

theorem Accounts.empty : Accounts (Store.empty : Store α) := ⟨nofun, nofun, fun _ _ => rfl⟩

theorem Accounts.serial_lt (accounts : s.Accounts) {c : Comm} {k : Int} {v : Stored α} {r : Record α}
    (found : s.attr c k = some (v, r)) : v.serial < s.stores.length :=
  (List.getElem?_eq_some_iff.mp (accounts.held c k v r found).2.2.2.2.1).1

theorem Change.serialAt (change : Change s s' comm keyval before after) (c : Comm) (k : Int) :
    s'.serialAt c k = if c = comm ∧ k = keyval then after.map (·.1.serial) else s.serialAt c k := by
  rw [serialAt_eq, change.attr, serialAt_eq]
  split <;> rfl

theorem Change.record (change : Change s s' comm keyval before after) {n : Nat} {r : Record α}
    (isRecord : s'.stores[n]? = some r) :
    n < s.stores.length ∧ s.stores[n]? = some r ∨ n = s.stores.length ∧ ∃ v, after = some (v, r) := by
  rw [change.stores] at isRecord
  by_cases old : n < s.stores.length
  · exact .inl ⟨old, by rwa [List.getElem?_append_left old] at isRecord⟩
  · rw [List.getElem?_append_right (Nat.le_of_not_lt old)] at isRecord
    cases after with
    | none => exact nomatch isRecord
    | some new =>
      obtain ⟨bound, isNew⟩ := List.getElem?_eq_some_iff.mp isRecord
      rw [toList_some, List.map_singleton, List.length_singleton] at bound
      refine .inr ⟨by omega, new.1, ?_⟩
      rw [← isNew]
      simp

theorem Change.held (change : Change s s' comm keyval before after) (accounts : s.Accounts) (c : Comm) (k : Int)
    (v : Stored α) (r : Record α) (found : s'.attr c k = some (v, r)) :
    r.comm = c ∧ r.keyval = k ∧ v.value = r.value ∧ v.born ≤ v.serial ∧ s'.stores[v.serial]? = some r ∧
      ∀ m r', v.serial < m → s'.stores[m]? = some r' → ¬ (r'.comm = c ∧ r'.keyval = k) := by
  rw [change.attr] at found
  split at found
  · next slot =>
    obtain ⟨rfl, rfl⟩ := slot
    obtain ⟨isComm, isKeyval, isNew⟩ := change.new (v, r) found
    dsimp only at isComm isKeyval isNew
    subst isNew
    refine ⟨isComm, isKeyval, rfl, ?_, ?_, fun m r' later isRecord => ?_⟩
    · cases isBefore : before with
      | none => exact Nat.le_refl _
      | some old =>
        have isOld := change.old.trans isBefore
        exact Nat.le_of_lt (Nat.lt_of_le_of_lt (accounts.held _ _ old.1 old.2 isOld).2.2.2.1 (accounts.serial_lt isOld))
    · rw [change.stores, found]
      simp
    · rcases change.record isRecord with ⟨less, -⟩ | ⟨same, -⟩ <;> dsimp only at later <;> omega
  · next other =>
    obtain ⟨isComm, isKeyval, isValue, born, isRecord, last⟩ := accounts.held c k v r found
    refine ⟨isComm, isKeyval, isValue, born, ?_, fun m r' later isLater => ?_⟩
    · rw [change.stores, List.getElem?_append_left (accounts.serial_lt found), isRecord]
    · rcases change.record isLater with ⟨-, before⟩ | ⟨-, v', isNew⟩
      · exact last m r' later before
      · obtain ⟨newComm, newKeyval, -⟩ := change.new _ isNew
        rintro ⟨rfl, rfl⟩
        exact other ⟨newComm, newKeyval⟩

theorem Change.deletions_eq (change : Change s s' comm keyval before after) (accounts : s.Accounts) (n : Nat) :
    s'.deletions n = s.deletions n ++
      if before.map (·.1.serial) = some n then (s.stores[n]?).elim [] Record.deletion else [] := by
  rw [change.deletions]
  congr 1
  cases isBefore : before with
  | none => rfl
  | some old =>
    have isRecord := (accounts.held _ _ old.1 old.2 (change.old.trans isBefore)).2.2.2.2.1
    by_cases same : old.1.serial = n
    · subst same
      simp [isRecord]
    · simp [same]

theorem Change.accounts (change : Change s s' comm keyval before after) (accounts : s.Accounts) : s'.Accounts := by
  have atSlot : s.serialAt comm keyval = before.map (·.1.serial) := by rw [serialAt_eq, change.old]
  have beforeLess (n : Nat) (isSerial : before.map (·.1.serial) = some n) : n < s.stores.length := by
    obtain ⟨old, isOld, rfl⟩ := map_eq_some_iff.mp isSerial
    exact accounts.serial_lt (change.old.trans isOld)
  have afterEq (n : Nat) (isSerial : after.map (·.1.serial) = some n) : n = s.stores.length := by
    obtain ⟨new, isNew, rfl⟩ := map_eq_some_iff.mp isSerial
    rw [(change.new new isNew).2.2]
  refine ⟨change.held accounts, fun n r isRecord => ?_, fun n beyond => ?_⟩
  · rw [change.deletions_eq accounts, change.serialAt]
    rcases change.record isRecord with ⟨less, old⟩ | ⟨rfl, v, isNew⟩
    · have notNew : after.map (·.1.serial) ≠ some n := fun isSerial => by have := afterEq n isSerial; omega
      rw [accounts.once n r old, old]
      by_cases slot : r.comm = comm ∧ r.keyval = keyval
      · rw [if_pos slot, if_neg notNew, slot.1, slot.2, atSlot]
        split <;> simp
      · have notBefore : before.map (·.1.serial) ≠ some n := by
          intro isSerial
          obtain ⟨old', isOld, rfl⟩ := map_eq_some_iff.mp isSerial
          obtain ⟨isComm, isKeyval, -, -, isRecord', -⟩ := accounts.held _ _ old'.1 old'.2 (change.old.trans isOld)
          obtain rfl := mem_unique isRecord' old
          exact slot ⟨isComm, isKeyval⟩
        rw [if_neg slot, if_neg notBefore, List.append_nil]
    · obtain ⟨isComm, isKeyval, isStored⟩ := change.new _ isNew
      dsimp only at isComm isKeyval isStored
      have notBefore : before.map (·.1.serial) ≠ some s.stores.length := fun isSerial =>
        Nat.lt_irrefl _ (beforeLess _ isSerial)
      have isSerial : (if r.comm = comm ∧ r.keyval = keyval then after.map (·.1.serial)
          else s.serialAt r.comm r.keyval) = some s.stores.length := by
        rw [if_pos ⟨isComm, isKeyval⟩, isNew, map_some, isStored]
      rw [accounts.bound _ (Nat.le_refl _), if_neg notBefore, isSerial, if_pos rfl, List.append_nil]
  · have more : s.stores.length ≤ n := by
      rw [change.stores, List.length_append] at beyond
      omega
    rw [change.deletions_eq accounts, accounts.bound n more, if_neg fun isSerial => by
      have := beforeLess n isSerial
      omega]
    rfl

theorem Quiet.accounts (quiet : Quiet s s') (accounts : s.Accounts) : s'.Accounts where
  held c k v r found := by
    rw [quiet.attr] at found
    rw [quiet.stores]
    exact accounts.held c k v r found
  once n r isRecord := by
    rw [quiet.stores] at isRecord
    rw [quiet.deletions, accounts.once n r isRecord, serialAt_eq, serialAt_eq, quiet.attr]
  bound n beyond := by
    rw [quiet.stores] at beyond
    rw [quiet.deletions, accounts.bound n beyond]

def bornAt (s : Store α) (comm : Comm) (keyval : Int) : Option Nat := (s.stored comm keyval).map (·.born)

theorem bornAt_eq (c : Comm) (k : Int) : s.bornAt c k = (s.attr c k).map (·.1.born) := by
  rw [bornAt, stored_eq_attr, map_map]
  rfl

def Ordered (cfg : Config) (s : Store α) : Prop :=
  s.selfKeyvals.Pairwise fun k k' => ∀ a ∈ s.bornAt cfg.self k, ∀ b ∈ s.bornAt cfg.self k', a < b

structure Kept (cfg : Config) (s : Store α) : Prop where
  sound : s.Sound cfg
  accounts : s.Accounts
  ordered : s.Ordered cfg

theorem Ordered.mono {l : List Int} (ordered : s.Ordered cfg) (sub : l.Sublist s.selfKeyvals)
    (same : ∀ k ∈ l, s'.bornAt cfg.self k = s.bornAt cfg.self k) :
    l.Pairwise fun k k' => ∀ a ∈ s'.bornAt cfg.self k, ∀ b ∈ s'.bornAt cfg.self k', a < b :=
  (ordered.sublist sub).imp_of_mem fun first second less => by
    rwa [same _ first, same _ second]

theorem Change.bornAt (change : Change s s' comm keyval before after) (c : Comm) (k : Int) :
    s'.bornAt c k = if c = comm ∧ k = keyval then after.map (·.1.born) else s.bornAt c k := by
  rw [bornAt_eq, change.attr, bornAt_eq]
  split <;> rfl

theorem Kept.put {new : Stored α × Record α} (kept : s.Kept cfg) (change : Change s s' comm keyval none (some new))
    (selfKeyvals : s'.selfKeyvals = (s.pushSelf cfg comm keyval).selfKeyvals) : s'.Ordered cfg := by
  have isBorn : new.1.born = s.stores.length := by rw [(change.new new rfl).2.2]; rfl
  have other (k : Int) (member : k ∈ s.selfKeyvals) : s'.bornAt cfg.self k = s.bornAt cfg.self k := by
    rw [change.bornAt, if_neg]
    rintro ⟨rfl, rfl⟩
    rw [kept.sound.self, stored_eq_attr, change.old] at member
    exact nomatch member
  unfold Ordered
  rw [selfKeyvals]
  dsimp only [pushSelf]
  split
  · next isSelf =>
    rw [List.pairwise_append]
    refine ⟨kept.ordered.mono (List.Sublist.refl _) other, List.pairwise_singleton _ _, ?_⟩
    intro k member k' single a isA b isB
    rw [List.mem_singleton.mp single, change.bornAt, if_pos ⟨isSelf.symm, rfl⟩, map_some, isBorn] at isB
    rw [other k member, bornAt_eq] at isA
    cases isB
    obtain ⟨⟨v, r⟩, found, rfl⟩ := map_eq_some_iff.mp isA
    have older := (kept.accounts.held _ _ v r found).2.2.2.1
    exact Nat.lt_of_le_of_lt older (kept.accounts.serial_lt found)
  · exact kept.ordered.mono (List.Sublist.refl _) other

theorem Kept.atom (kept : s.Kept cfg) (atom : Atom cfg s s') : s'.Kept cfg := by
  have sound := kept.sound.atom atom
  cases atom.effect with
  | quiet quiet =>
    refine ⟨sound, quiet.accounts kept.accounts, ?_⟩
    unfold Ordered
    rw [quiet.selfKeyvals]
    refine kept.ordered.mono (List.Sublist.refl _) fun k _ => ?_
    rw [bornAt_eq, bornAt_eq, quiet.attr]
  | put comm keyval new change selfKeyvals =>
    exact ⟨sound, change.accounts kept.accounts, kept.put change selfKeyvals⟩
  | swap comm keyval old new change selfKeyvals =>
    refine ⟨sound, change.accounts kept.accounts, ?_⟩
    unfold Ordered
    rw [selfKeyvals]
    refine kept.ordered.mono (List.Sublist.refl _) fun k _ => ?_
    rw [change.bornAt]
    split
    · next slot => rw [slot.1, slot.2, bornAt_eq, change.old, map_some, map_some, (change.new new rfl).2.2]; rfl
    · rfl
  | leave comm keyval old change selfKeyvals =>
    refine ⟨sound, change.accounts kept.accounts, ?_⟩
    unfold Ordered
    rw [selfKeyvals]
    dsimp only [dropSelf]
    split
    · next isSelf =>
      refine kept.ordered.mono List.filter_sublist fun k member => ?_
      rw [change.bornAt, if_neg]
      rintro ⟨-, rfl⟩
      simp at member
    · next notSelf =>
      refine kept.ordered.mono (List.Sublist.refl _) fun k _ => ?_
      rw [change.bornAt, if_neg fun slot => notSelf slot.1.symm]

theorem Kept.atoms (kept : s.Kept cfg) (atoms : Atoms cfg s s') : s'.Kept cfg := by
  induction atoms with
  | refl => exact kept
  | tail _ last ih => exact ih.atom last

end Accounts

section Finalize

variable {cfg : Config} {s : Store α} {keyval : Int} {l : List Int}

end Finalize

end Store

namespace Attributes

variable {cfg : Config} {s s' : Attributes α} {code : Int}

/-- What the program reads. -/
def value (cfg : Config) (s : Attributes α) (comm : Comm) (keyval : Int) : Option α := (s.store.getAttr cfg comm keyval).2

/-- What `MPI_Comm_set_attr` and `MPI_Comm_delete_attr` do: the code that they return, the attribute that has another
value if that is `MPI_SUCCESS`, and the call of the delete callback for the old value. -/
structure Replaces (cfg : Config) (s : Attributes α) (comm : Comm) (keyval : Int) (answer : Answer α) (after : Option α)
    (code : Int) (s' : Attributes α) : Prop where
  returns : code = if keyval ∈ s.store.tupleMap then if s.store.deleteCalls comm keyval 0 = [] then 0 else answer.code
    else cfg.errKeyval
  values : ∀ c k, s'.value cfg c k = if code = 0 ∧ c = comm ∧ k = keyval then after else s.value cfg c k
  calls : s'.store.calls = s.store.calls ++ s.store.deleteCalls comm keyval code

/-- What each operation does to the values: those of other communicators stay, a new communicator gets what the copy
callbacks give, and one that is freed keeps none. `MPI_Finalize` goes from the youngest attribute of `MPI_COMM_SELF` to
the oldest one. -/
def Completes (cfg : Config) (s : Attributes α) (code : Int) (s' : Attributes α) : Act α → Prop
  | .keyval _ => ∀ c k, s'.value cfg c k = s.value cfg c k
  | .set comm keyval value answer =>
    if comm = cfg.null then code = cfg.errComm ∧ s' = s else s.Replaces cfg comm keyval answer (some value) code s'
  | .delete comm keyval answer =>
    if comm = cfg.null then code = cfg.errComm ∧ s' = s else s.Replaces cfg comm keyval answer none code s'
  | .dup oldcomm newcomm _ _ copies _ _ _ => (∀ c k, c ≠ newcomm → s'.value cfg c k = s.value cfg c k) ∧
    (code = 0 → newcomm ≠ cfg.null → ∀ k, s'.value cfg newcomm k = s.store.copied oldcomm copies k)
  | .free comm _ _ _ => (∀ c k, s'.value cfg c k = s.value cfg c k ∨ c = comm ∧ s'.value cfg c k = none) ∧
    (code = 0 → ∀ k, s'.store.stored comm k = none)
  | .finalize _ => (∀ c k, s'.value cfg c k = s.value cfg c k ∨ c = cfg.self ∧ s'.value cfg c k = none) ∧
    (code = 0 → ∀ k, s'.store.stored cfg.self k = none) ∧
    ∃ new, s'.store.calls = s.store.calls ++ new ∧ new.Pairwise fun a b => b.stored.born < a.stored.born

theorem value_eq (c : Comm) (k : Int) :
    s.value cfg c k = if c = cfg.null then none else (s.store.attr c k).map (·.1.value) := by
  rw [value, Store.getAttr, ← Store.valueAt_eq, Store.valueAt, Store.stored]
  split
  · rfl
  · cases s.store.tupleMap.lookup k <;> rfl

/-- A communicator that the program does not have has no attributes. -/
def Fresh (cfg : Config) (s : Attributes α) : Prop := ∀ c k, s.valid cfg c = false → s.value cfg c k = none

theorem valid_eq_false {c : Comm} : s.valid cfg c = false ↔ c ≠ cfg.self ∧ c ≠ cfg.world ∧ c ∉ s.comms := by
  simp [valid, and_assoc]

theorem Fresh.of_comms (fresh : s.Fresh cfg) (comms : s'.comms = s.comms)
    (changes : ∀ c k, s'.value cfg c k = s.value cfg c k ∨ s'.value cfg c k = none ∨ s.valid cfg c = true) :
    s'.Fresh cfg := by
  intro c k invalid
  rw [valid, comms, ← valid] at invalid
  rcases changes c k with same | gone | isValid
  · exact same.trans (fresh c k invalid)
  · exact gone
  · cases isValid.symm.trans invalid

theorem Replaces.change {comm : Comm} {keyval : Int} {answer : Answer α} {after : Option α}
    (replaces : s.Replaces cfg comm keyval answer after code s') (c : Comm) (k : Int) :
    s'.value cfg c k = s.value cfg c k ∨ c = comm ∧ s'.value cfg c k = after := by
  rw [replaces.values]
  split
  · next slot => exact .inr ⟨slot.2.1, rfl⟩
  · exact .inl rfl

theorem Fresh.step {a : Act α} (fresh : s.Fresh cfg) (performed : s.perform cfg a = some (code, s'))
    (completes : s.Completes cfg code s' a) : s'.Fresh cfg := by
  cases a with
  | keyval op => exact fresh.of_comms (perform_keyval performed).1 fun c k => .inl (completes c k)
  | set comm keyval value answer =>
    obtain ⟨isValid, comms, -⟩ := perform_set performed
    simp only [Completes] at completes
    split at completes
    · exact completes.2 ▸ fresh
    · next notNull =>
      refine fresh.of_comms comms fun c k => (completes.change c k).imp_right fun slot => .inr ?_
      exact slot.1 ▸ isValid.resolve_right notNull
  | delete comm keyval answer =>
    simp only [Completes] at completes
    split at completes
    · exact completes.2 ▸ fresh
    · exact fresh.of_comms (perform_delete performed).1 fun c k =>
        (completes.change c k).imp_right fun slot => .inl slot.2
  | dup oldcomm newcomm lower copyOrder copies freeOrder deletes lowerFree =>
    obtain ⟨⟨isOld, isNew⟩, performed⟩ := ite_none_right_eq_some.mp performed
    have duplicates := commDup_valid isOld isNew performed
    intro c k invalid
    by_cases same : c = newcomm
    · subst same
      rcases duplicates.new with member | rfl | gone
      · exact absurd member (valid_eq_false.mp invalid).2.2
      · exact fresh c k invalid
      · rw [value_eq, gone]
        exact ite_self _
    · rw [completes.1 c k same]
      rw [valid_eq_false, duplicates.comms c same, ← valid_eq_false] at invalid
      exact fresh c k invalid
  | free comm order deletes lower =>
    obtain ⟨⟨-, notSelf⟩, performed⟩ := ite_none_right_eq_some.mp performed
    obtain ⟨-, -, comms⟩ := commFree_spec notSelf performed
    rcases comms with ⟨-, comms⟩ | ⟨-, comms, gone⟩
    · exact fresh.of_comms comms fun c k => (completes.1 c k).imp_right fun gone => .inl gone.2
    · intro c k invalid
      rcases completes.1 c k with same | freed
      · by_cases isFreed : c = comm
        · rw [value_eq, isFreed, gone]
          exact ite_self _
        · rw [valid_eq_false, comms, List.mem_erase_of_ne isFreed, ← valid_eq_false] at invalid
          exact same.trans (fresh c k invalid)
      · exact freed.2
  | finalize answers =>
    exact fresh.of_comms (perform_finalize performed).1 fun c k =>
      (completes.1 c k).imp_right fun gone => .inl gone.2

end Attributes

def Attributes.finalized : Option (Attributes Nat) :=
  Attributes.freedInUse.bind ((Attributes.machine openMpi).step · (.finalize fun _ => ⟨[], 0, 0, false⟩))

end Mana.Attr
