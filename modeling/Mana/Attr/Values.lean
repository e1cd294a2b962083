import Mana.Attr.Outcome

/-! What the operations do to the attributes: which one changes, to what value, and which callback is called. -/

namespace Mana.Attr
open Mana.Lib Option

variable {α : Type}

namespace Store

section Values

variable {cfg : Config} {s : Store α} {comm c : Comm} {keyval k : Int} {t : KeyvalTuple α} {old : Stored α}

theorem lookup_of_attr {s₁ : Store α}
    (same : s₁.attr comm keyval = (t.attributeMap.lookup comm).map fun v => (v, recorded t comm keyval v.value))
    (held : t.attributeMap.lookup comm = some old) : ∃ t', s₁.tupleMap.lookup keyval = some t' := by
  rw [held] at same
  exact (bind_eq_some_iff.mp same).imp fun _ both => both.1

theorem emplaceAttribute_of_absent (found : s.tupleMap.lookup keyval = some t) (absent : comm ∉ t.attributeMap)
    (value : α) (born : Nat) (c : Comm) (k : Int) :
    (s.emplaceAttribute comm keyval value born).attr c k =
      if c = comm ∧ k = keyval then
        some (⟨value, s.stores.length, born⟩, recorded t comm keyval value)
      else s.attr c k := by
  rw [emplaceAttribute, found]
  dsimp only
  rw [if_neg absent, attr]
  dsimp only
  rw [Assoc.lookup_insert_eq]
  by_cases same : k = keyval
  · subst same
    rw [if_pos rfl, bind_some, Assoc.lookup_insert_eq, attr_of_lookup found]
    by_cases sameComm : c = comm <;> simp [sameComm, recorded]
  · simp only [same, if_false, and_false]
    rfl

theorem lookup_eraseAttribute (comm : Comm) (found : s.tupleMap.lookup keyval = some t) :
    (s.eraseAttribute comm keyval).tupleMap.lookup keyval =
      some { t with attributeMap := t.attributeMap.erase comm } := by
  rw [eraseAttribute, found]
  exact AList.lookup_insert _

/-- The call of the delete callback for the value of an attribute, if there are both. -/
def deleteCalls (s : Store α) (comm : Comm) (keyval : Int) (code : Int) : List (Call α) :=
  (s.attr comm keyval).toList.flatMap fun old =>
    old.2.deleteFn.toList.map (⟨.delete, ·, comm, keyval, old.1, old.2.extraState, code⟩)

theorem deleteCalls_of_lookup (found : s.tupleMap.lookup keyval = some t) (held : t.attributeMap.lookup comm = some old)
    (code : Int) : s.deleteCalls comm keyval code =
      t.deleteFn.toList.map (⟨.delete, ·, comm, keyval, old, t.extraState, code⟩) := by
  simp [deleteCalls, attr_of_lookup found, held, recorded]

theorem callDelete_spec (found : s.tupleMap.lookup keyval = some t) (held : t.attributeMap.lookup comm = some old)
    (answer : Answer α) :
    (s.callDelete cfg comm keyval t old answer).1 = (if s.deleteCalls comm keyval 0 = [] then 0 else answer.code) ∧
      (s.callDelete cfg comm keyval t old answer).2.calls =
        s.calls ++ s.deleteCalls comm keyval (s.callDelete cfg comm keyval t old answer).1 ∧
      ∀ c k, (s.callDelete cfg comm keyval t old answer).2.attr c k = s.attr c k := by
  simp only [deleteCalls_of_lookup found held, callDelete]
  cases t.deleteFn with
  | none => exact ⟨rfl, (List.append_nil _).symm, fun _ _ => rfl⟩
  | some fn => exact ⟨rfl, invoke_spec cfg s answer _⟩

/-- What a call does that gives one attribute another value: a value that is there has its delete callback called. -/
structure Replaces (cfg : Config) (s : Store α) (comm : Comm) (keyval : Int) (answer : Answer α)
    (after : Option (Stored α × Record α)) (result : Int × Store α) : Prop where
  returns : result.1 =
    if keyval ∈ s.tupleMap then if s.deleteCalls comm keyval 0 = [] then 0 else answer.code else cfg.errKeyval
  calls : result.2.calls = s.calls ++ s.deleteCalls comm keyval result.1
  attr : ∀ c k, result.2.attr c k = if result.1 = 0 ∧ c = comm ∧ k = keyval then after else s.attr c k

/-- The loop of `MPI_Comm_free` deletes the first attributes of the list, and all of them if no callback fails. -/
theorem deleteAttributes_attr (answers : Int → Answer α) (order : List Int) (s : Store α) :
    ∃ done, done <+: order ∧ ((deleteAttributes cfg comm answers order s).1 = 0 → done = order) ∧
      ∀ c k, (deleteAttributes cfg comm answers order s).2.attr c k =
        if c = comm ∧ k ∈ done then none else s.attr c k := by
  -- A keyval without a value on the communicator is passed over.
  have skip {s : Store α} {keyval : Int} {rest : List Int} {result : Int × Store α} (absent : s.attr comm keyval = none)
      (later : ∃ done, done <+: rest ∧ (result.1 = 0 → done = rest) ∧
        ∀ c k, result.2.attr c k = if c = comm ∧ k ∈ done then none else s.attr c k) :
      ∃ done, done <+: keyval :: rest ∧ (result.1 = 0 → done = keyval :: rest) ∧
        ∀ c k, result.2.attr c k = if c = comm ∧ k ∈ done then none else s.attr c k := by
    obtain ⟨done, isPrefix, all, attr⟩ := later
    refine ⟨keyval :: done, List.cons_prefix_cons.mpr ⟨rfl, isPrefix⟩, fun isZero => by rw [all isZero], fun c k => ?_⟩
    rw [attr]
    by_cases same : c = comm ∧ k = keyval
    · simp [same, absent]
    · simp only [List.mem_cons, and_or_left, same, false_or]
  induction order generalizing s with
  | nil => exact ⟨[], List.prefix_refl _, fun _ => rfl, fun c k => (if_neg fun both => List.not_mem_nil both.2).symm⟩
  | cons keyval rest ih =>
    rw [deleteAttributes]
    split
    · next unknown => exact skip (by rw [attr, unknown, bind_none]) (ih s)
    · next t found =>
      cases held : t.attributeMap.lookup comm with
      | none => exact skip (by rw [attr_of_lookup found, held, map_none]) (ih s)
      | some old =>
        obtain ⟨-, -, same⟩ := @callDelete_spec _ cfg s comm keyval t old found held (answers keyval)
        dsimp only
        split
        · next failed =>
          refine ⟨[], List.nil_prefix, fun isZero => absurd isZero failed, fun c k => ?_⟩
          rw [same, if_neg fun both => List.not_mem_nil both.2]
        · obtain ⟨t', found'⟩ := lookup_of_attr ((same comm keyval).trans (attr_of_lookup found)) held
          obtain ⟨done, isPrefix, all, attr⟩ := ih (((s.callDelete cfg comm keyval t old
            (answers keyval)).2.eraseAttribute comm keyval).removeKeyvalIfUnused keyval)
          refine ⟨keyval :: done, List.cons_prefix_cons.mpr ⟨rfl, isPrefix⟩, fun isZero => by rw [all isZero], fun c k => ?_⟩
          rw [attr, attr_removeKeyvalIfUnused, attr_eraseAttribute found', same]
          by_cases isComm : c = comm <;> by_cases isKeyval : k = keyval <;> simp [isComm, isKeyval]

theorem attr_of_not_listed (notListed : keyval ∉ s.keyvalsOf comm) : s.attr comm keyval = none := by
  refine not_isSome_iff_eq_none.mp fun present => notListed (List.mem_filter.mpr ⟨?_, ?_⟩)
  · obtain ⟨old, isAttr⟩ := isSome_iff_exists.mp present
    obtain ⟨t, found, -⟩ := bind_eq_some_iff.mp isAttr
    exact AList.mem_keys.mp (Assoc.mem_of_lookup found)
  · rw [stored_eq_attr, isSome_map, present]

/-- What a copy callback sees of a keyval: its function, if the communicator has a value. -/
def copyFnAt (s : Store α) (comm : Comm) (keyval : Int) : Option Nat :=
  (s.tupleMap.lookup keyval).bind fun t => if comm ∈ t.attributeMap then t.copyFn else none

/-- The value that a duplicate of a communicator gets from the copy callbacks. -/
def copied (s : Store α) (comm : Comm) (answers : Int → Answer α) (keyval : Int) : Option α :=
  if (s.copyFnAt comm keyval).isSome ∧ (answers keyval).flag then some (answers keyval).value else none

def valueAt (s : Store α) (comm : Comm) (keyval : Int) : Option α := (s.stored comm keyval).map (·.value)

theorem valueAt_eq : s.valueAt comm keyval = (s.attr comm keyval).map (·.1.value) := by
  rw [valueAt, stored_eq_attr, map_map]
  rfl

theorem mem_attributeMap (found : s.tupleMap.lookup keyval = some t) :
    comm ∈ t.attributeMap ↔ (s.attr comm keyval).isSome = true := by
  rw [attr_of_lookup found, isSome_map, AList.lookup_isSome]

theorem copyFnAt_of_none (noAttr : s.attr comm keyval = none) : s.copyFnAt comm keyval = none := by
  refine bind_eq_none_iff.mpr fun t found => if_neg ?_
  rw [mem_attributeMap found, noAttr]
  exact Bool.false_ne_true

theorem copyFnAt_congr {s' : Store α} (attr : s'.attr comm keyval = s.attr comm keyval)
    (kept : ∀ t, s.tupleMap.lookup keyval = some t → comm ∈ t.attributeMap →
      ∃ t', s'.tupleMap.lookup keyval = some t' ∧ t'.copyFn = t.copyFn) :
    s'.copyFnAt comm keyval = s.copyFnAt comm keyval := by
  cases isAttr : s.attr comm keyval with
  | none => rw [copyFnAt_of_none isAttr, copyFnAt_of_none (attr.trans isAttr)]
  | some old =>
    obtain ⟨t, found, -⟩ := bind_eq_some_iff.mp isAttr
    have there : comm ∈ t.attributeMap := (mem_attributeMap found).mpr (isAttr ▸ rfl)
    obtain ⟨t', found', sameFn⟩ := kept t found there
    have there' : comm ∈ t'.attributeMap := (mem_attributeMap found').mpr (by rw [attr, isAttr]; rfl)
    simp only [copyFnAt, found, found', bind_some, if_pos there, if_pos there', sameFn]

theorem copied_of_not_listed {answers : Int → Answer α} (notListed : keyval ∉ s.keyvalsOf comm) :
    s.copied comm answers keyval = none := by
  rw [copied, copyFnAt_of_none (attr_of_not_listed notListed)]
  exact if_neg fun both => Bool.false_ne_true both.1

theorem copyFnAt_invoke (answer : Answer α) (call : Int → Call α) :
    (s.invoke cfg answer call).copyFnAt comm keyval = s.copyFnAt comm keyval := by
  refine copyFnAt_congr ((invoke_spec cfg s answer call).2 comm keyval) fun t found there => ?_
  obtain ⟨freed, after⟩ := lookup_keyvalOps cfg answer.ops found there
  exact ⟨_, after, rfl⟩

theorem attr_emplaceAttribute (found : s.tupleMap.lookup keyval = some t) (value : α) (born : Nat) :
    (s.emplaceAttribute comm keyval value born).attr c k =
      if c = comm ∧ k = keyval then
        (s.attr c k).or (some (⟨value, s.stores.length, born⟩, recorded t comm keyval value))
      else s.attr c k := by
  cases held : t.attributeMap.lookup comm with
  | none =>
    rw [emplaceAttribute_of_absent found (AList.lookup_eq_none.mp held)]
    refine ite_congr rfl (fun same => ?_) fun _ => rfl
    rw [same.1, same.2, attr_of_lookup found, held]
    rfl
  | some there =>
    rw [emplaceAttribute, found]
    dsimp only
    rw [if_pos (Assoc.mem_of_lookup held)]
    split
    · next same =>
      rw [same.1, same.2, attr_of_lookup found, held]
      rfl
    · rfl

theorem copyFnAt_emplaceAttribute (differs : c ≠ comm) (value : α) (born : Nat) :
    (s.emplaceAttribute comm keyval value born).copyFnAt c k = s.copyFnAt c k := by
  cases found : s.tupleMap.lookup keyval with
  | none => rw [emplaceAttribute, found]
  | some t =>
    refine copyFnAt_congr ?_ fun t' isTuple _ => ?_
    · rw [attr_emplaceAttribute found, if_neg fun same => differs same.1]
    · simp only [emplaceAttribute, found]
      split
      · exact ⟨t', isTuple, rfl⟩
      · dsimp only
        rw [Assoc.lookup_insert_eq]
        split
        · next same =>
          subst same
          obtain rfl := mem_unique found isTuple
          exact ⟨_, rfl, rfl⟩
        · exact ⟨t', isTuple, rfl⟩

/-- What a round of the loop of `MPI_Comm_dup` does after the callback has returned. -/
def takeCopy (s : Store α) (newcomm : Comm) (keyval : Int) (answer : Answer α) : Store α :=
  if answer.flag then s.emplaceAttribute newcomm keyval answer.value s.stores.length else s

theorem takeCopy_spec {s₀ : Store α} {newcomm : Comm} {answers : Int → Answer α} (differs : comm ≠ newcomm)
    (same : ∀ c k, s₀.attr c k = s.attr c k) (sameFn : ∀ k, s₀.copyFnAt comm k = s.copyFnAt comm k)
    (found : s₀.tupleMap.lookup keyval = some t) (copies : (s.copyFnAt comm keyval).isSome = true) :
    (∀ c k, c ≠ newcomm → (s₀.takeCopy newcomm keyval (answers keyval)).attr c k = s.attr c k) ∧
      (∀ k, (s₀.takeCopy newcomm keyval (answers keyval)).copied comm answers k = s.copied comm answers k) ∧
      ∀ k, (s₀.takeCopy newcomm keyval (answers keyval)).valueAt newcomm k =
        (s.valueAt newcomm k).or (if k = keyval then s.copied comm answers k else none) := by
  simp only [takeCopy, valueAt_eq]
  split
  · next isFlag =>
    refine ⟨fun c k other => ?_, fun k => ?_, fun k => ?_⟩
    · rw [attr_emplaceAttribute found, if_neg fun both => other both.1, same]
    · rw [copied, copyFnAt_emplaceAttribute differs, sameFn, copied]
    · rw [attr_emplaceAttribute found, same]
      by_cases isKeyval : k = keyval
      · subst isKeyval
        cases s.attr newcomm k <;> simp [copied, copies, isFlag]
      · simp [isKeyval]
  · next noFlag =>
    refine ⟨fun c k _ => same c k, fun k => by rw [copied, sameFn, copied], fun k => ?_⟩
    rw [same]
    by_cases isKeyval : k = keyval
    · subst isKeyval
      simp [copied, noFlag]
    · simp [isKeyval]

/-- The loop of `MPI_Comm_dup` changes the new communicator only; it gives it the values of the copy callbacks. -/
theorem copyAttributes_values {newcomm : Comm} (differs : comm ≠ newcomm) (answers : Int → Answer α)
    (order : List Int) (s : Store α) :
    (∀ c k, c ≠ newcomm → (copyAttributes cfg comm newcomm answers order s).2.attr c k = s.attr c k) ∧
      ((copyAttributes cfg comm newcomm answers order s).1 = 0 → ∀ k,
        (copyAttributes cfg comm newcomm answers order s).2.valueAt newcomm k =
          (s.valueAt newcomm k).or (if k ∈ order then s.copied comm answers k else none)) := by
  -- A keyval that gives no copy is passed over.
  have skip {s : Store α} {keyval : Int} {rest : List Int} {result : Int × Store α}
      (noCopy : s.copyFnAt comm keyval = none)
      (later : (∀ c k, c ≠ newcomm → result.2.attr c k = s.attr c k) ∧ (result.1 = 0 → ∀ k, result.2.valueAt newcomm k =
        (s.valueAt newcomm k).or (if k ∈ rest then s.copied comm answers k else none))) :
      (∀ c k, c ≠ newcomm → result.2.attr c k = s.attr c k) ∧ (result.1 = 0 → ∀ k, result.2.valueAt newcomm k =
        (s.valueAt newcomm k).or (if k ∈ keyval :: rest then s.copied comm answers k else none)) := by
    refine ⟨later.1, fun isZero k => (later.2 isZero k).trans ?_⟩
    by_cases same : k = keyval
    · simp [same, copied, noCopy]
    · simp [same]
  induction order generalizing s with
  | nil => exact ⟨fun _ _ _ => rfl, fun _ k => by simp [copyAttributes]⟩
  | cons keyval rest ih =>
    rw [copyAttributes]
    split
    · next unknown => exact skip (by rw [copyFnAt, unknown, bind_none]) (ih s)
    · next t found =>
      split
      · next old fn held isFn =>
        have copies : s.copyFnAt comm keyval = some fn := by
          rw [copyFnAt, found, bind_some, if_pos (Assoc.mem_of_lookup held), isFn]
        have same := (invoke_spec cfg s (answers keyval) (⟨.copy, fn, comm, keyval, old, t.extraState, ·⟩)).2
        have sameFn (k : Int) := @copyFnAt_invoke _ cfg s comm k (answers keyval)
          (⟨.copy, fn, comm, keyval, old, t.extraState, ·⟩)
        obtain ⟨t', found'⟩ := lookup_of_attr ((same comm keyval).trans (attr_of_lookup found)) held
        dsimp only
        split
        · next failed => exact ⟨fun c k _ => same c k, fun isZero => absurd isZero failed⟩
        · obtain ⟨others, copies, values⟩ := @takeCopy_spec _ s comm keyval t' _ newcomm answers differs same sameFn found'
            (copies ▸ rfl)
          obtain ⟨others', values'⟩ := ih (takeCopy _ newcomm keyval (answers keyval))
          refine ⟨fun c k other => (others' c k other).trans (others c k other), fun isZero k => (values' isZero k).trans ?_⟩
          rw [values, copies]
          by_cases isKeyval : k = keyval
          · subst isKeyval
            cases s.valueAt newcomm k <;> by_cases later : k ∈ rest <;> simp [later]
          · simp [isKeyval]
      · next other =>
        refine skip ?_ (ih s)
        rw [copyFnAt, found, bind_some]
        split
        · next there =>
          obtain ⟨old, held⟩ := isSome_iff_exists.mp (AList.lookup_isSome.mpr there)
          exact eq_none_iff_forall_ne_some.mpr fun fn isFn => other old fn held isFn
        · rfl

end Values

end Store

end Mana.Attr
