import Mana.Attr.Store
import Mathlib.Logic.Relation

/-! Each operation on attributes is a sequence of atomic changes of the store, the last one at most a callback that
fails. -/

namespace Mana.Attr
open Mana.Lib Option

variable {α : Type}

namespace Store

section Lookup

variable {s : Store α} {keyval other : Int} {comm : Comm} {t : KeyvalTuple α}

theorem lookup_emplaceTuple : (s.emplaceTuple keyval t).tupleMap.lookup other =
    if other = keyval ∧ keyval ∉ s.tupleMap then some t else s.tupleMap.lookup other := by
  dsimp only [emplaceTuple]
  by_cases present : keyval ∈ s.tupleMap
  · rw [if_pos present, if_neg fun both => both.2 present]
  · rw [if_neg present, Assoc.lookup_insert_eq]
    simp only [present, not_false_eq_true, and_true]

theorem lookup_removeKeyvalIfUnused : (s.removeKeyvalIfUnused keyval).tupleMap.lookup other =
    if other = keyval ∧ ∃ t, s.tupleMap.lookup keyval = some t ∧ t.freed = true ∧ t.attributeMap.keys = [] then none
    else s.tupleMap.lookup other := by
  unfold removeKeyvalIfUnused
  cases found : s.tupleMap.lookup keyval with
  | none => simp
  | some t =>
    by_cases unused : t.freed = true ∧ t.attributeMap.keys = []
    · simp [unused, Assoc.lookup_erase_eq]
    · dsimp only
      rw [if_neg (by simpa using unused), if_neg]
      rintro ⟨-, t', isTuple, isUnused⟩
      cases isTuple
      exact unused isUnused

theorem lookup_of_keys_nil (unused : t.attributeMap.keys = []) : t.attributeMap.lookup comm = none := by
  rw [AList.lookup_eq_none, AList.mem_keys, unused]
  exact List.not_mem_nil

theorem lookup_keyvalOp (cfg : Config) (op : KeyvalOp α) (found : s.tupleMap.lookup keyval = some t)
    (held : comm ∈ t.attributeMap) :
    ∃ freed, (s.keyvalOp cfg op).tupleMap.lookup keyval = some { t with freed := freed } := by
  have present : keyval ∈ s.tupleMap := Assoc.mem_of_lookup found
  cases op with
  | create copyFn deleteFn extraState =>
    refine ⟨t.freed, ?_⟩
    simp only [keyvalOp, createKeyval]
    split <;> rw [lookup_emplaceTuple, if_neg (by rintro ⟨rfl, absent⟩; exact absent present)] <;> exact found
  | free other =>
    simp only [keyvalOp, freeKeyval]
    split
    · next t' _ found' =>
      rw [lookup_removeKeyvalIfUnused]
      dsimp only
      rw [Assoc.lookup_insert_eq, Assoc.lookup_insert_eq, if_pos rfl]
      by_cases same : keyval = other
      · subst same
        obtain rfl := mem_unique found found'
        refine ⟨true, ?_⟩
        rw [if_neg, if_pos rfl]
        rintro ⟨-, _, ⟨⟩, -, empty⟩
        rw [AList.mem_keys, empty] at held
        exact List.not_mem_nil held
      · exact ⟨t.freed, by rw [if_neg fun both => same both.1, if_neg same, found]⟩
    · exact ⟨t.freed, found⟩

theorem lookup_keyvalOps (cfg : Config) (ops : List (KeyvalOp α)) (found : s.tupleMap.lookup keyval = some t)
    (held : comm ∈ t.attributeMap) :
    ∃ freed, (ops.foldl (keyvalOp cfg) s).tupleMap.lookup keyval = some { t with freed := freed } := by
  induction ops generalizing s t with
  | nil => exact ⟨t.freed, found⟩
  | cons op ops ih =>
    obtain ⟨freed, found⟩ := lookup_keyvalOp cfg op found held
    exact ih (t := { t with freed := freed }) found held

theorem stored_of_lookup (found : s.tupleMap.lookup keyval = some t) :
    s.stored comm keyval = t.attributeMap.lookup comm := by
  rw [stored, found, bind_some]

def recorded (t : KeyvalTuple α) (comm : Comm) (keyval : Int) (value : α) : Record α :=
  ⟨comm, keyval, value, t.extraState, t.deleteFn⟩

def attr (s : Store α) (comm : Comm) (keyval : Int) : Option (Stored α × Record α) :=
  (s.tupleMap.lookup keyval).bind fun t => (t.attributeMap.lookup comm).map fun v =>
    (v, recorded t comm keyval v.value)

end Lookup

section Attr

variable {cfg : Config} {s : Store α} {comm c : Comm} {keyval k : Int} {t : KeyvalTuple α} {old : Stored α}

theorem attr_of_lookup (found : s.tupleMap.lookup keyval = some t) : s.attr comm keyval =
    (t.attributeMap.lookup comm).map fun v => (v, recorded t comm keyval v.value) := by
  rw [attr, found, bind_some]

theorem stored_eq_attr : s.stored comm keyval = (s.attr comm keyval).map (·.1) := by
  rw [stored, attr, map_bind]
  congr 1
  funext t
  simp [Function.comp_def]

theorem attr_removeKeyvalIfUnused : (s.removeKeyvalIfUnused keyval).attr c k = s.attr c k := by
  rw [attr, lookup_removeKeyvalIfUnused]
  split
  · next unused =>
    obtain ⟨rfl, t, found, -, empty⟩ := unused
    rw [attr_of_lookup found, lookup_of_keys_nil empty]
    rfl
  · rfl

theorem attr_keyvalOp (op : KeyvalOp α) : (s.keyvalOp cfg op).attr c k = s.attr c k := by
  cases op with
  | create copyFn deleteFn extraState =>
    simp only [keyvalOp, createKeyval]
    split <;>
    · rw [attr, lookup_emplaceTuple]
      split
      · next isNew =>
        rw [isNew.1, attr, AList.lookup_eq_none.mpr isNew.2]
        rfl
      · rfl
  | free keyval =>
    simp only [keyvalOp, freeKeyval]
    split
    · next t _ found =>
      rw [attr_removeKeyvalIfUnused, attr]
      dsimp only
      rw [Assoc.lookup_insert_eq]
      split
      · next same => rw [same, attr_of_lookup found]; rfl
      · rfl
    · rfl

theorem attr_eraseAttribute (found : s.tupleMap.lookup keyval = some t) :
    (s.eraseAttribute comm keyval).attr c k = if c = comm ∧ k = keyval then none else s.attr c k := by
  rw [eraseAttribute, found, attr]
  dsimp only
  rw [Assoc.lookup_insert_eq]
  by_cases same : k = keyval
  · subst same
    rw [if_pos rfl, bind_some, Assoc.lookup_erase_eq, attr_of_lookup found]
    by_cases sameComm : c = comm <;> simp [sameComm, recorded]
  · simp only [same, if_false, and_false]
    rfl

theorem removeKeyvalIfUnused_frame : (s.removeKeyvalIfUnused keyval).calls = s.calls ∧
    (s.removeKeyvalIfUnused keyval).stores = s.stores ∧
    (s.removeKeyvalIfUnused keyval).selfKeyvals = s.selfKeyvals := by
  unfold removeKeyvalIfUnused
  split
  · exact ⟨rfl, rfl, rfl⟩
  · split <;> exact ⟨rfl, rfl, rfl⟩

theorem keyvalOp_frame (op : KeyvalOp α) : (s.keyvalOp cfg op).calls = s.calls ∧
    (s.keyvalOp cfg op).stores = s.stores ∧ (s.keyvalOp cfg op).selfKeyvals = s.selfKeyvals := by
  cases op with
  | create copyFn deleteFn extraState =>
    simp only [keyvalOp, createKeyval]
    split <;> exact ⟨rfl, rfl, rfl⟩
  | free keyval =>
    simp only [keyvalOp, freeKeyval]
    split
    · exact removeKeyvalIfUnused_frame
    · exact ⟨rfl, rfl, rfl⟩

theorem keyvalOps_frame (cfg : Config) (ops : List (KeyvalOp α)) (s : Store α) :
    (ops.foldl (keyvalOp cfg) s).calls = s.calls ∧ ∀ c k, (ops.foldl (keyvalOp cfg) s).attr c k = s.attr c k := by
  induction ops generalizing s with
  | nil => exact ⟨rfl, fun _ _ => rfl⟩
  | cons op ops ih =>
    obtain ⟨calls, attr⟩ := ih (s.keyvalOp cfg op)
    exact ⟨calls.trans (keyvalOp_frame op).1, fun c k => (attr c k).trans (attr_keyvalOp op)⟩

theorem invoke_spec (cfg : Config) (s : Store α) (answer : Answer α) (call : Int → Call α) :
    (s.invoke cfg answer call).calls = s.calls ++ [call answer.code] ∧
      ∀ c k, (s.invoke cfg answer call).attr c k = s.attr c k := by
  obtain ⟨calls, attr⟩ := keyvalOps_frame cfg answer.ops s
  exact ⟨congrArg (· ++ [call answer.code]) calls, attr⟩

theorem eraseAttribute_frame : (s.eraseAttribute comm keyval).calls = s.calls ∧
    (s.eraseAttribute comm keyval).stores = s.stores ∧
    (s.eraseAttribute comm keyval).selfKeyvals = s.selfKeyvals := by
  unfold eraseAttribute
  split <;> exact ⟨rfl, rfl, rfl⟩

theorem dropSelf_calls :
    (((s.eraseAttribute comm keyval).dropSelf cfg comm keyval).removeKeyvalIfUnused keyval).calls = s.calls := by
  rw [removeKeyvalIfUnused_frame.1]
  exact eraseAttribute_frame.1

theorem emplaceAttribute_calls (value : α) (born : Nat) :
    (s.emplaceAttribute comm keyval value born).calls = s.calls := by
  unfold emplaceAttribute
  split
  · rfl
  · split <;> rfl

end Attr

def deleted (s : Store α) (comm : Comm) (keyval : Int) (t : KeyvalTuple α) (old : Stored α) : Store α :=
  { s with calls := s.calls ++ t.deleteFn.toList.map (⟨.delete, ·, comm, keyval, old, t.extraState, 0⟩) }

/-- The atomic changes: a value is stored, replaced or removed, each together with what belongs to it. -/
inductive Atom (cfg : Config) : Store α → Store α → Prop where
  | keyval (s : Store α) (op : KeyvalOp α) : Atom cfg s (s.keyvalOp cfg op)
  | note (s : Store α) (call : Call α) (kept : call.callback = .copy ∨ call.code ≠ 0) :
    Atom cfg s { s with calls := s.calls ++ [call] }
  | put (s : Store α) (comm : Comm) (keyval : Int) (value : α) {t : KeyvalTuple α}
      (found : s.tupleMap.lookup keyval = some t) (absent : t.attributeMap.lookup comm = none) :
    Atom cfg s ((s.pushSelf cfg comm keyval).emplaceAttribute comm keyval value s.stores.length)
  | swap (s : Store α) (comm : Comm) (keyval : Int) (value : α) {t : KeyvalTuple α} {old : Stored α}
      (found : s.tupleMap.lookup keyval = some t) (held : t.attributeMap.lookup comm = some old) :
    Atom cfg s (((s.deleted comm keyval t old).eraseAttribute comm keyval).emplaceAttribute comm keyval value old.born)
  | leave (s : Store α) (comm : Comm) (keyval : Int) {t : KeyvalTuple α} {old : Stored α}
      (found : s.tupleMap.lookup keyval = some t) (held : t.attributeMap.lookup comm = some old) :
    Atom cfg s ((((s.deleted comm keyval t old).eraseAttribute comm keyval).dropSelf cfg comm
      keyval).removeKeyvalIfUnused keyval)

def Atoms (cfg : Config) : Store α → Store α → Prop := Relation.ReflTransGen (Atom cfg)

structure Fine (cfg : Config) (s s' : Store α) : Prop where
  atoms : Atoms cfg s s'
  calls : ∃ new, s'.calls = s.calls ++ new ∧ ∀ call ∈ new, call.code = 0

/-- How an operation on a communicator ends: fine, or with a callback that fails, whose value stays. -/
inductive Outcome (cfg : Config) (comm : Comm) (s : Store α) : Int × Store α → Prop where
  | fine (code : Int) {s' : Store α} (fine : Fine cfg s s') : Outcome cfg comm s (code, s')
  | failed {s' : Store α} {call : Call α} (fine : Fine cfg s s') (failed : call.code ≠ 0) (isComm : call.comm = comm)
      (stays : s'.stored call.comm call.keyval = some call.stored) :
    Outcome cfg comm s (call.code, { s' with calls := s'.calls ++ [call] })

section Operations

variable {cfg : Config} {s s' : Store α} {keyval : Int} {comm : Comm} {t : KeyvalTuple α} {old : Stored α}
  {result : Int × Store α}

theorem Fine.refl (s : Store α) : Fine cfg s s := ⟨.refl, [], (List.append_nil _).symm, nofun⟩

theorem Fine.trans {s₁ : Store α} (first : Fine cfg s s₁) (second : Fine cfg s₁ s') : Fine cfg s s' := by
  obtain ⟨new, calls, zero⟩ := first.calls
  obtain ⟨later, calls', zero'⟩ := second.calls
  exact ⟨first.atoms.trans second.atoms, new ++ later, by rw [calls', calls, List.append_assoc],
    List.forall_mem_append.mpr ⟨zero, zero'⟩⟩

theorem Fine.keyvalOps (ops : List (KeyvalOp α)) (s : Store α) : Fine cfg s (ops.foldl (keyvalOp cfg) s) := by
  induction ops generalizing s with
  | nil => exact .refl s
  | cons op ops ih =>
    exact .trans ⟨.single (.keyval s op), [], (keyvalOp_frame op).1.trans (List.append_nil _).symm, nofun⟩ (ih _)

theorem Fine.note {call : Call α} (isCopy : call.callback = .copy) (zero : call.code = 0) :
    Fine cfg s { s with calls := s.calls ++ [call] } :=
  ⟨.single (.note s call (.inl isCopy)), _, rfl, List.forall_mem_singleton.mpr zero⟩

theorem Fine.put (found : s.tupleMap.lookup keyval = some t) (absent : t.attributeMap.lookup comm = none) (value : α) :
    Fine cfg s ((s.pushSelf cfg comm keyval).emplaceAttribute comm keyval value s.stores.length) :=
  ⟨.single (.put s comm keyval value found absent), [], (emplaceAttribute_calls _ _).trans (List.append_nil _).symm,
    nofun⟩

theorem Fine.emplace (notSelf : comm ≠ cfg.self) (found : s.tupleMap.lookup keyval = some t) (value : α) :
    Fine cfg s (s.emplaceAttribute comm keyval value s.stores.length) := by
  cases absent : t.attributeMap.lookup comm with
  | none =>
    have puts : Fine cfg s _ := .put found absent value
    rwa [pushSelf, if_neg notSelf] at puts
  | some there =>
    simp only [emplaceAttribute, found, if_pos (Assoc.mem_of_lookup absent)]
    exact .refl s

theorem Fine.swap (found : s.tupleMap.lookup keyval = some t) (held : t.attributeMap.lookup comm = some old)
    (value : α) : Fine cfg s
      (((s.deleted comm keyval t old).eraseAttribute comm keyval).emplaceAttribute comm keyval value old.born) :=
  ⟨.single (.swap s comm keyval value found held), _, (emplaceAttribute_calls _ _).trans eraseAttribute_frame.1, by simp⟩

theorem Fine.leave (found : s.tupleMap.lookup keyval = some t) (held : t.attributeMap.lookup comm = some old) :
    Fine cfg s ((((s.deleted comm keyval t old).eraseAttribute comm keyval).dropSelf cfg comm
      keyval).removeKeyvalIfUnused keyval) :=
  ⟨.single (.leave s comm keyval found held), _, dropSelf_calls, by simp⟩

theorem Outcome.after (fine : Fine cfg s s') (outcome : Outcome cfg comm s' result) : Outcome cfg comm s result := by
  cases outcome with
  | fine code later => exact .fine code (fine.trans later)
  | failed later failed isComm stays => exact .failed (fine.trans later) failed isComm stays

theorem Outcome.atoms (outcome : Outcome cfg comm s result) : Atoms cfg s result.2 := by
  cases outcome with
  | fine code fine => exact fine.atoms
  | failed fine failed => exact fine.atoms.tail (.note _ _ (.inr failed))

theorem Outcome.succeeded {code : Int} (outcome : Outcome cfg comm s (code, s')) (zero : code = 0) (code' : Int) :
    Outcome cfg comm s (code', s') := by
  cases outcome with
  | fine _ fine => exact .fine code' fine
  | failed _ failed => exact absurd zero failed

theorem Outcome.reports (outcome : Outcome cfg comm s result) :
    ∃ new, result.2.calls = s.calls ++ new ∧ ∀ call ∈ new, call.code ≠ 0 →
      result.1 ≠ 0 ∧ call.comm = comm ∧ result.2.stored call.comm call.keyval = some call.stored := by
  cases outcome with
  | fine code fine =>
    obtain ⟨new, calls, zero⟩ := fine.calls
    exact ⟨new, calls, fun call member failed => absurd (zero call member) failed⟩
  | @failed s' call fine failed isComm stays =>
    obtain ⟨new, calls, zero⟩ := fine.calls
    refine ⟨new ++ [call], by rw [calls, List.append_assoc], List.forall_mem_append.mpr ⟨?_, ?_⟩⟩
    · exact fun call member failed => absurd (zero call member) failed
    · exact List.forall_mem_singleton.mpr fun _ => ⟨failed, isComm, stays⟩

theorem Outcome.callDelete (cfg : Config) (found : s.tupleMap.lookup keyval = some t)
    (held : t.attributeMap.lookup comm = some old) (answer : Answer α) :
    ((s.callDelete cfg comm keyval t old answer).1 ≠ 0 ∧
      Outcome cfg comm s (s.callDelete cfg comm keyval t old answer)) ∨
      ∃ s₀ freed, Fine cfg s s₀ ∧ s₀.tupleMap.lookup keyval = some { t with freed := freed } ∧
        s.callDelete cfg comm keyval t old answer = (0, s₀.deleted comm keyval { t with freed := freed } old) := by
  obtain ⟨freed, after⟩ := lookup_keyvalOps cfg answer.ops found (Assoc.mem_of_lookup held)
  rw [Store.callDelete]
  split
  · next isFn => exact .inr ⟨s, t.freed, .refl s, found, by simp [deleted, isFn]⟩
  · next fn isFn =>
    by_cases failed : answer.code ≠ 0
    · exact .inl ⟨failed, @Outcome.failed _ _ _ _ _ ⟨.delete, fn, comm, keyval, old, t.extraState, answer.code⟩
        (.keyvalOps answer.ops s) failed rfl ((stored_of_lookup after).trans held)⟩
    · refine .inr ⟨_, freed, .keyvalOps answer.ops s, after, ?_⟩
      rw [not_not] at failed
      simp [invoke, deleted, failed, isFn]

theorem Outcome.setAttr (comm : Comm) (keyval : Int) (value : α) (answer : Answer α) :
    Outcome cfg comm s (s.setAttr cfg comm keyval value answer) := by
  unfold Store.setAttr
  split
  · exact .fine _ (.refl s)
  · split
    · exact .fine _ (.refl s)
    · next t found =>
      cases held : t.attributeMap.lookup comm with
      | none => exact .fine _ (.put found held value)
      | some old =>
        rcases Outcome.callDelete cfg found held answer with ⟨failed, outcome⟩ | ⟨s₀, freed, fine, after, eq⟩
        · simpa only [if_pos failed] using outcome
        · simp only [eq]
          exact .fine _ (fine.trans (.swap after held value))

theorem Outcome.deleteAttr (comm : Comm) (keyval : Int) (answer : Answer α) :
    Outcome cfg comm s (s.deleteAttr cfg comm keyval answer) := by
  unfold Store.deleteAttr
  split
  · exact .fine _ (.refl s)
  · split
    · exact .fine _ (.refl s)
    · next t found =>
      cases held : t.attributeMap.lookup comm with
      | none => exact .fine _ (.refl s)
      | some old =>
        rcases Outcome.callDelete cfg found held answer with ⟨failed, outcome⟩ | ⟨s₀, freed, fine, after, eq⟩
        · simpa only [if_pos failed] using outcome
        · simp only [eq]
          exact .fine _ (fine.trans (.leave after held))

theorem Outcome.deleteAttributes (answers : Int → Answer α) (order : List Int) (notSelf : comm ≠ cfg.self)
    (s : Store α) : Outcome cfg comm s (Store.deleteAttributes cfg comm answers order s) := by
  induction order generalizing s with
  | nil => exact .fine _ (.refl s)
  | cons keyval rest ih =>
    rw [Store.deleteAttributes]
    split
    · exact ih s
    · next t found =>
      cases held : t.attributeMap.lookup comm with
      | none => exact ih s
      | some old =>
        rcases Outcome.callDelete cfg found held (answers keyval) with ⟨failed, outcome⟩ | ⟨s₀, freed, fine, after, eq⟩
        · simpa only [if_pos failed] using outcome
        · simp only [eq, ne_eq, not_true_eq_false, if_false]
          have leaves : Fine cfg s₀ _ := .leave after held
          rw [dropSelf, if_neg notSelf] at leaves
          exact .after (fine.trans leaves) (ih _)

theorem Outcome.copyAttributes {newcomm : Comm} (answers : Int → Answer α) (order : List Int)
    (notSelf : newcomm ≠ cfg.self) (s : Store α) :
    Outcome cfg comm s (Store.copyAttributes cfg comm newcomm answers order s) := by
  induction order generalizing s with
  | nil => exact .fine _ (.refl s)
  | cons keyval rest ih =>
    rw [Store.copyAttributes]
    split
    · exact ih s
    · next t found =>
      split
      · next old fn held isFn =>
        obtain ⟨freed, after⟩ := lookup_keyvalOps cfg (answers keyval).ops found (Assoc.mem_of_lookup held)
        have ops : Fine cfg s _ := .keyvalOps (answers keyval).ops s
        dsimp only [invoke]
        generalize (answers keyval).ops.foldl (keyvalOp cfg) s = s₀ at after ops
        split
        · next failed =>
          exact @Outcome.failed _ _ _ _ _ ⟨.copy, fn, comm, keyval, old, t.extraState, (answers keyval).code⟩ ops failed
            rfl ((stored_of_lookup after).trans held)
        · next succeeded =>
          have noted := @Fine.note _ cfg s₀ ⟨.copy, fn, comm, keyval, old, t.extraState, (answers keyval).code⟩ rfl
            (not_not.mp succeeded)
          refine .after (ops.trans noted) (.after ?_ (ih _))
          split
          · exact .emplace notSelf (by exact after) _
          · exact .refl _
      · exact ih s

end Operations

end Store

end Mana.Attr
