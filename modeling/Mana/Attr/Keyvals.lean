import Mana.Attr.Values

/-! The atomic changes keep the keyvals in order. -/

namespace Mana.Attr
open Mana.Lib Option

variable {α : Type}

namespace Store

/-- The keyvals of a store. A tuple that is freed and has no value is about to be removed, and only an `exempt` keyval
may have one. -/
structure SoundBut (cfg : Config) (exempt : Int → Prop) (s : Store α) : Prop where
  vec : ∀ (n : Nat) (v : Int), s.keyvalVec[n]? = some v →
    v = n ∧ (n : Int) ∈ s.tupleMap ∨
      (n : Int) ∉ s.tupleMap ∧ (v = -1 ∧ (n : Int) ∉ cfg.predefined ∨ v = -2 ∧ (n : Int) ∈ cfg.predefined)
  tuple : ∀ keyval t, s.tupleMap.lookup keyval = some t →
    0 ≤ keyval ∧ keyval.toNat < s.keyvalVec.length ∧ keyval ∉ cfg.predefined ∧
      (exempt keyval ∨ t.freed = false ∨ t.attributeMap.keys ≠ [])
  self : ∀ keyval, keyval ∈ s.selfKeyvals ↔ (s.stored cfg.self keyval).isSome = true
  nodup : s.selfKeyvals.Nodup

def Sound (cfg : Config) (s : Store α) : Prop := SoundBut cfg (fun _ => False) s

section Sound

variable {cfg : Config} {s : Store α} {keyval : Int} {comm : Comm} {t t' : KeyvalTuple α} {exempt : Int → Prop}

theorem Sound.empty : Sound cfg (Store.empty : Store α) :=
  ⟨nofun, nofun, fun _ => iff_of_false List.not_mem_nil nofun, .nil⟩

theorem SoundBut.update (sound : SoundBut cfg exempt s) (found : s.tupleMap.lookup keyval = some t)
    {selfKeyvals : List Int} {calls : List (Call α)} {stores : List (Record α)} (nodup : selfKeyvals.Nodup)
    (self : ∀ k, k ∈ selfKeyvals ↔
      if k = keyval then (t'.attributeMap.lookup cfg.self).isSome = true else k ∈ s.selfKeyvals) :
    SoundBut cfg (fun k => k = keyval ∨ exempt k)
      ⟨s.keyvalVec, s.tupleMap.insert keyval t', selfKeyvals, calls, stores⟩ where
  vec n v isVec := by
    have same : (n : Int) ∈ s.tupleMap.insert keyval t' ↔ (n : Int) ∈ s.tupleMap := by
      rw [AList.mem_insert, or_iff_right_of_imp]
      rintro rfl
      exact Assoc.mem_of_lookup found
    dsimp only
    rw [same]
    exact sound.vec n v isVec
  tuple k t₁ isTuple := by
    dsimp only at isTuple ⊢
    rcases Assoc.lookup_insert_cases isTuple with ⟨rfl, -⟩ | ⟨-, isTuple⟩
    · obtain ⟨nonneg, inside, notPredefined, -⟩ := sound.tuple k t found
      exact ⟨nonneg, inside, notPredefined, .inl (.inl rfl)⟩
    · obtain ⟨nonneg, inside, notPredefined, live⟩ := sound.tuple k t₁ isTuple
      exact ⟨nonneg, inside, notPredefined, live.imp_left .inr⟩
  self k := by
    dsimp only
    rw [self, stored, Assoc.lookup_insert_eq]
    split
    · rfl
    · exact sound.self k
  nodup := nodup

theorem SoundBut.close (sound : SoundBut cfg (fun k => k = keyval ∨ False) s)
    (live : ∀ t, s.tupleMap.lookup keyval = some t → t.freed = false ∨ t.attributeMap.keys ≠ []) : Sound cfg s where
  vec := sound.vec
  tuple k t found := by
    obtain ⟨nonneg, inside, notPredefined, known⟩ := sound.tuple k t found
    refine ⟨nonneg, inside, notPredefined, .inr ?_⟩
    rcases known with (rfl | impossible) | known
    · exact live t found
    · exact impossible.elim
    · exact known
  self := sound.self
  nodup := sound.nodup

theorem SoundBut.remove (sound : SoundBut cfg (fun k => k = keyval ∨ False) s) :
    Sound cfg (s.removeKeyvalIfUnused keyval) := by
  unfold removeKeyvalIfUnused
  cases found : s.tupleMap.lookup keyval with
  | none => exact sound.close fun t isTuple => nomatch found.symm.trans isTuple
  | some t =>
    dsimp only
    split
    · next unused =>
      obtain ⟨-, unused⟩ : t.freed = true ∧ t.attributeMap.keys = [] := by simpa using unused
      obtain ⟨nonneg, inside, notPredefined, -⟩ := sound.tuple keyval t found
      refine ⟨fun n v isVec => ?_, fun k t' isTuple => ?_, fun k => ?_, sound.nodup⟩
      · dsimp only at isVec ⊢
        rw [List.getElem?_set] at isVec
        rw [AList.mem_erase]
        split at isVec
        · next same =>
          obtain rfl : keyval = (n : Int) := by omega
          cases isVec
          exact .inr ⟨fun both => both.1 rfl, .inl ⟨rfl, notPredefined⟩⟩
        · next differs =>
          have other : (n : Int) ≠ keyval := by
            rintro rfl
            exact differs (Int.toNat_natCast n)
          simpa [other] using sound.vec n v isVec
      · dsimp only at isTuple ⊢
        obtain ⟨other, isTuple⟩ := Assoc.lookup_of_erase isTuple
        obtain ⟨nonneg, inside, notPredefined, known⟩ := sound.tuple k t' isTuple
        refine ⟨nonneg, by rwa [List.length_set], notPredefined, ?_⟩
        exact known.imp_left (fun exempt => exempt.elim other id)
      · dsimp only
        rw [sound.self, stored, stored, Assoc.lookup_erase_eq]
        split
        · next same => rw [same, found, bind_some, lookup_of_keys_nil unused, bind_none]
        · rfl
    · next used =>
      refine sound.close fun t' isTuple => ?_
      obtain rfl := mem_unique found isTuple
      rw [Bool.and_eq_true, List.isEmpty_iff, not_and_or] at used
      exact used.imp_left (Bool.eq_false_iff.mpr ·)

theorem skipPredefined_eq (predefined : List Int) (fuel : Nat) (vec : List Int) :
    ∃ m, skipPredefined predefined fuel vec = vec ++ List.replicate m (-2) ∧
      (∀ j < m, ((vec.length + j : Nat) : Int) ∈ predefined) ∧
      (m = fuel ∨ ((vec.length + m : Nat) : Int) ∉ predefined) := by
  induction fuel generalizing vec with
  | zero => exact ⟨0, (List.append_nil vec).symm, nofun, .inl rfl⟩
  | succ fuel ih =>
    rw [skipPredefined]
    split
    · next isPredefined =>
      obtain ⟨m, eq, skipped, last⟩ := ih (vec ++ [-2])
      have length (j : Nat) : (vec ++ [-2]).length + j = vec.length + (j + 1) := by
        rw [List.length_append, List.length_singleton]
        omega
      refine ⟨m + 1, by rw [eq, List.append_assoc, List.replicate_succ, List.singleton_append], fun j less => ?_, ?_⟩
      · cases j with
        | zero => exact isPredefined
        | succ j => exact length j ▸ skipped j (by omega)
      · rw [← length]
        exact last.imp_left (congrArg (· + 1))
    · next other => exact ⟨0, (List.append_nil vec).symm, nofun, .inr other⟩

/-- The loop ends: not all of one more numbers than there are predefined ones are predefined. -/
theorem skipPredefined_spec (predefined vec : List Int) :
    ∃ m, skipPredefined predefined (predefined.length + 1) vec = vec ++ List.replicate m (-2) ∧
      (∀ j < m, ((vec.length + j : Nat) : Int) ∈ predefined) ∧ ((vec.length + m : Nat) : Int) ∉ predefined := by
  obtain ⟨m, eq, skipped, last⟩ := skipPredefined_eq predefined (predefined.length + 1) vec
  refine ⟨m, eq, skipped, last.resolve_left ?_⟩
  rintro rfl
  have inside : (List.range (predefined.length + 1)).map (fun j => ((vec.length + j : Nat) : Int)) ⊆ predefined := by
    intro k member
    obtain ⟨j, less, rfl⟩ := List.mem_map.mp member
    exact skipped j (List.mem_range.mp less)
  have nodup : ((List.range (predefined.length + 1)).map (fun j => ((vec.length + j : Nat) : Int))).Nodup := by
    refine List.Nodup.map (fun i j same => ?_) List.nodup_range
    omega
  have bound := (List.subperm_of_subset nodup inside).length_le
  rw [List.length_map, List.length_range] at bound
  omega

theorem Sound.emplace (sound : Sound cfg s) {k : Nat} (vec : List Int) (absent : (k : Int) ∉ s.tupleMap)
    (notPredefined : (k : Int) ∉ cfg.predefined) (inside : k < vec.length) (longer : s.keyvalVec.length ≤ vec.length)
    (isVec : ∀ (n : Nat) (v : Int), vec[n]? = some v → n = k ∧ v = k ∨ n ≠ k ∧
      (s.keyvalVec[n]? = some v ∨ v = -2 ∧ s.keyvalVec.length ≤ n ∧ (n : Int) ∈ cfg.predefined))
    (live : t.freed = false) (bare : t.attributeMap = ∅) :
    Sound cfg ({ s with keyvalVec := vec }.emplaceTuple k t) := by
  rw [emplaceTuple, if_neg absent]
  refine ⟨fun n v found => ?_, fun k' t' found => ?_, fun k' => ?_, sound.nodup⟩
  · rw [AList.mem_insert]
    rcases isVec n v found with ⟨rfl, rfl⟩ | ⟨differs, before | ⟨rfl, beyond, isPredefined⟩⟩
    · exact .inl ⟨rfl, .inl rfl⟩
    · have other : (n : Int) ≠ k := by exact_mod_cast differs
      simpa [other] using sound.vec n v before
    · refine .inr ⟨?_, .inr ⟨rfl, isPredefined⟩⟩
      rintro (same | present)
      · exact differs (by exact_mod_cast same)
      · obtain ⟨t', found⟩ := isSome_iff_exists.mp (AList.lookup_isSome.mpr present)
        have below := (sound.tuple _ t' found).2.1
        rw [Int.toNat_natCast] at below
        omega
  · dsimp only at found ⊢
    rcases Assoc.lookup_insert_cases found with ⟨rfl, rfl⟩ | ⟨-, found⟩
    · exact ⟨Int.natCast_nonneg k, by rwa [Int.toNat_natCast], notPredefined, .inr (.inl live)⟩
    · obtain ⟨nonneg, below, known⟩ := sound.tuple k' t' found
      exact ⟨nonneg, Nat.lt_of_lt_of_le below longer, known⟩
  · dsimp only
    rw [sound.self, stored, stored, Assoc.lookup_insert_eq]
    split
    · next same => rw [same, AList.lookup_eq_none.mpr absent, bind_none, bind_some, bare]; rfl
    · rfl

theorem Sound.createKeyval (sound : Sound cfg s) (copyFn deleteFn : Option Nat) (extraState : α) :
    Sound cfg (s.createKeyval cfg copyFn deleteFn extraState).2 ∧
      (s.createKeyval cfg copyFn deleteFn extraState).1 ∉ cfg.predefined ∧
      (s.createKeyval cfg copyFn deleteFn extraState).1 ∉ s.tupleMap := by
  unfold Store.createKeyval
  split
  · next k found =>
    obtain ⟨inside, isFree, -⟩ := List.findIdx?_eq_some_iff_getElem.mp found
    have atK : s.keyvalVec[k]? = some (-1) := by rw [List.getElem?_eq_getElem inside, beq_iff_eq.mp isFree]
    obtain ⟨absent, notPredefined⟩ : (k : Int) ∉ s.tupleMap ∧ (k : Int) ∉ cfg.predefined := by
      rcases sound.vec k _ atK with ⟨impossible, -⟩ | ⟨absent, ⟨-, notPredefined⟩ | ⟨impossible, -⟩⟩
      · omega
      · exact ⟨absent, notPredefined⟩
      · cases impossible
    refine ⟨sound.emplace _ absent notPredefined (by rwa [List.length_set]) (by rw [List.length_set]) ?_ rfl rfl,
      notPredefined, absent⟩
    intro n v isVec
    rw [List.getElem?_set] at isVec
    split at isVec
    · next same =>
      subst same
      cases isVec
      exact .inl ⟨rfl, rfl⟩
    · next differs => exact .inr ⟨fun same => differs same.symm, .inl isVec⟩
  · obtain ⟨m, eq, skipped, last⟩ := skipPredefined_spec cfg.predefined s.keyvalVec
    have length : (skipPredefined cfg.predefined (cfg.predefined.length + 1) s.keyvalVec).length =
        s.keyvalVec.length + m := by
      rw [eq, List.length_append, List.length_replicate]
    have absent : ((s.keyvalVec.length + m : Nat) : Int) ∉ s.tupleMap := by
      intro present
      obtain ⟨t', found⟩ := isSome_iff_exists.mp (AList.lookup_isSome.mpr present)
      have below := (sound.tuple _ t' found).2.1
      rw [Int.toNat_natCast] at below
      omega
    dsimp only
    rw [length]
    refine ⟨sound.emplace _ absent last ?_ ?_ ?_ rfl rfl, last, absent⟩
    · rw [List.length_append, length, List.length_singleton]
      omega
    · rw [List.length_append, length]
      omega
    · intro n v isVec
      rw [eq, List.getElem?_append] at isVec
      split at isVec
      · next below =>
        rw [List.length_append, List.length_replicate] at below
        refine .inr ⟨by omega, ?_⟩
        rw [List.getElem?_append] at isVec
        split at isVec
        · exact .inl isVec
        · next beyond =>
          rw [List.getElem?_replicate, if_pos (by omega)] at isVec
          cases isVec
          refine .inr ⟨rfl, by omega, ?_⟩
          have isSkipped := skipped (n - s.keyvalVec.length) (by omega)
          rwa [show s.keyvalVec.length + (n - s.keyvalVec.length) = n by omega] at isSkipped
      · next beyond =>
        obtain ⟨bound, isV⟩ := List.getElem?_eq_some_iff.mp isVec
        rw [List.length_append, List.length_replicate] at beyond bound
        rw [List.length_singleton] at bound
        rw [List.getElem_singleton] at isV
        exact .inl ⟨by omega, isV.symm⟩

theorem Sound.freeKeyval (sound : Sound cfg s) (keyval : Int) : Sound cfg (s.freeKeyval cfg keyval).2 := by
  unfold Store.freeKeyval
  split
  · next t _ found =>
    refine (sound.update found sound.nodup fun k => ?_).remove
    split
    · next same => rw [sound.self, same, stored_of_lookup found]
    · rfl
  · exact sound

theorem mem_iff_freeable (sound : Sound cfg s) :
    s.freeable keyval = true ↔ ∃ t, s.tupleMap.lookup keyval = some t ∧ t.freed = false := by
  simp only [freeable, Bool.and_eq_true, decide_eq_true_eq, any_eq_true, Bool.not_eq_true']
  refine ⟨fun both => both.2, fun ⟨t, found, live⟩ => ⟨?_, t, found, live⟩⟩
  obtain ⟨nonneg, inside, -⟩ := sound.tuple keyval t found
  have isNat : (keyval.toNat : Int) = keyval := Int.toNat_of_nonneg nonneg
  refine ⟨nonneg, _, List.getElem?_eq_getElem inside, ?_⟩
  rcases sound.vec keyval.toNat _ (List.getElem?_eq_getElem inside) with ⟨isKeyval, -⟩ | ⟨absent, -⟩
  · omega
  · rw [isNat] at absent
    exact absurd (Assoc.mem_of_lookup found) absent

theorem keys_ne_nil {value : Stored α} (held : t.attributeMap.lookup comm = some value) : t.attributeMap.keys ≠ [] := by
  intro unused
  exact nomatch (lookup_of_keys_nil unused).symm.trans held

theorem Sound.put (sound : Sound cfg s) (found : s.tupleMap.lookup keyval = some t)
    (absent : t.attributeMap.lookup comm = none) (value : α) (born : Nat) :
    Sound cfg ((s.pushSelf cfg comm keyval).emplaceAttribute comm keyval value born) := by
  have notListed : comm = cfg.self → keyval ∉ s.selfKeyvals := by
    rintro rfl
    rw [sound.self, stored_of_lookup found, absent]
    exact nofun
  rw [emplaceAttribute, show (s.pushSelf cfg comm keyval).tupleMap.lookup keyval = some t from found]
  dsimp only
  rw [if_neg (AList.lookup_eq_none.mp absent)]
  refine (SoundBut.update sound found ?_ fun k => ?_).close fun t' isTuple => .inr ?_
  · dsimp only [pushSelf]
    split
    · next isSelf => exact List.nodup_append.mpr ⟨sound.nodup, List.nodup_singleton _, by
        rintro k member _ single rfl
        exact notListed isSelf (List.mem_singleton.mp single ▸ member)⟩
    · exact sound.nodup
  · dsimp only [pushSelf]
    rw [Assoc.lookup_insert_eq]
    by_cases isSelf : comm = cfg.self
    · by_cases same : k = keyval <;> simp [isSelf, same]
    · have notSelf : cfg.self ≠ comm := fun same => isSelf same.symm
      rw [if_neg isSelf, if_neg notSelf, sound.self]
      split
      · next same => rw [same, stored_of_lookup found]
      · rw [← sound.self]
  · dsimp only at isTuple
    rw [AList.lookup_insert] at isTuple
    cases isTuple
    exact keys_ne_nil (AList.lookup_insert _)

theorem Sound.swap {old : Stored α} (sound : Sound cfg s) (found : s.tupleMap.lookup keyval = some t)
    (held : t.attributeMap.lookup comm = some old) (value : α) (born : Nat) :
    Sound cfg (((s.deleted comm keyval t old).eraseAttribute comm keyval).emplaceAttribute comm keyval value born) := by
  rw [eraseAttribute, show (s.deleted comm keyval t old).tupleMap.lookup keyval = some t from found]
  dsimp only
  rw [emplaceAttribute, AList.lookup_insert]
  dsimp only
  rw [if_neg (by rw [AList.mem_erase]; exact fun both => both.1 rfl), AList.insert_insert]
  refine (SoundBut.update sound found sound.nodup fun k => ?_).close fun t' isTuple => .inr ?_
  · dsimp only
    rw [Assoc.lookup_insert_eq, Assoc.lookup_erase_eq, sound.self]
    split
    · next same =>
      rw [same, stored_of_lookup found]
      split
      · next isSelf => rw [isSelf, held]; rfl
      · rfl
    · rw [← sound.self]
  · dsimp only at isTuple
    rw [AList.lookup_insert] at isTuple
    cases isTuple
    exact keys_ne_nil (AList.lookup_insert _)

theorem Sound.leave {old : Stored α} (sound : Sound cfg s) (found : s.tupleMap.lookup keyval = some t) :
    Sound cfg ((((s.deleted comm keyval t old).eraseAttribute comm keyval).dropSelf cfg comm
      keyval).removeKeyvalIfUnused keyval) := by
  rw [eraseAttribute, show (s.deleted comm keyval t old).tupleMap.lookup keyval = some t from found]
  refine (SoundBut.update sound found ?_ fun k => ?_).remove
  · dsimp only
    split
    · exact sound.nodup.filter _
    · exact sound.nodup
  · dsimp only [deleted]
    rw [Assoc.lookup_erase_eq]
    by_cases isSelf : comm = cfg.self
    · by_cases same : k = keyval <;> simp [isSelf, same]
    · have notSelf : cfg.self ≠ comm := fun same => isSelf same.symm
      rw [if_neg isSelf, if_neg notSelf, sound.self]
      split
      · next same => rw [same, stored_of_lookup found]
      · rw [← sound.self]

theorem Sound.atom {s' : Store α} (sound : Sound cfg s) (atom : Atom cfg s s') : Sound cfg s' := by
  cases atom with
  | keyval op =>
    cases op with
    | create copyFn deleteFn extraState => exact (sound.createKeyval copyFn deleteFn extraState).1
    | free keyval => exact sound.freeKeyval keyval
  | note call => exact ⟨sound.vec, sound.tuple, sound.self, sound.nodup⟩
  | put comm keyval value found absent => exact sound.put found absent value _
  | swap comm keyval value found held => exact sound.swap found held value _
  | leave comm keyval found held => exact sound.leave found

theorem Sound.atoms {s' : Store α} (sound : Sound cfg s) (atoms : Atoms cfg s s') : Sound cfg s' := by
  induction atoms with
  | refl => exact sound
  | tail _ last ih => exact ih.atom last

end Sound

section Finalize

variable {cfg : Config} {s : Store α} {keyval : Int} {comm : Comm} {t : KeyvalTuple α} {old : Stored α} (l : List Int)

def withSelf (s : Store α) (l : List Int) : Store α := { s with selfKeyvals := l }

theorem withSelf_removeKeyvalIfUnused :
    (s.withSelf l).removeKeyvalIfUnused keyval = (s.removeKeyvalIfUnused keyval).withSelf l := by
  simp only [removeKeyvalIfUnused, withSelf]
  split
  · rfl
  · split <;> rfl

theorem withSelf_keyvalOp (op : KeyvalOp α) : (s.withSelf l).keyvalOp cfg op = (s.keyvalOp cfg op).withSelf l := by
  cases op with
  | create copyFn deleteFn extraState =>
    simp only [keyvalOp, createKeyval, withSelf, emplaceTuple]
    split <;> rfl
  | free keyval =>
    simp only [keyvalOp, freeKeyval, freeable, withSelf]
    split
    · next t _ _ =>
      exact withSelf_removeKeyvalIfUnused
        (s := { s with tupleMap := s.tupleMap.insert keyval { t with freed := true } }) l
    · rfl

theorem withSelf_callDelete (answer : Answer α) : (s.withSelf l).callDelete cfg comm keyval t old answer =
    ((s.callDelete cfg comm keyval t old answer).1, (s.callDelete cfg comm keyval t old answer).2.withSelf l) := by
  have ops : answer.ops.foldl (keyvalOp cfg) (s.withSelf l) = (answer.ops.foldl (keyvalOp cfg) s).withSelf l := by
    induction answer.ops generalizing s with
    | nil => rfl
    | cons op ops ih => rw [List.foldl_cons, withSelf_keyvalOp, ih, List.foldl_cons]
  unfold callDelete
  split
  · rfl
  · simp only [invoke, ops]
    rfl

theorem callDelete_selfKeyvals (answer : Answer α) :
    (s.callDelete cfg comm keyval t old answer).2.selfKeyvals = s.selfKeyvals := by
  have same := @withSelf_callDelete _ cfg s keyval comm t old s.selfKeyvals answer
  exact congrArg (fun result => result.2.selfKeyvals) same

theorem withSelf_eraseAttribute :
    (s.withSelf l).eraseAttribute comm keyval = (s.eraseAttribute comm keyval).withSelf l := by
  simp only [eraseAttribute, withSelf]
  split <;> rfl

/-- A round of the loop is `MPI_Comm_delete_attr`, whose own removal from the list does nothing more. -/
theorem deleteSelfAttributes_succ (sound : Sound cfg s) (answers : Int → Answer α) (fuel : Nat)
    (isLast : s.selfKeyvals = l ++ [keyval]) :
    deleteSelfAttributes cfg answers (fuel + 1) s =
      if (s.deleteAttr cfg cfg.self keyval (answers keyval)).1 ≠ 0 then
        s.deleteAttr cfg cfg.self keyval (answers keyval)
      else deleteSelfAttributes cfg answers fuel (s.deleteAttr cfg cfg.self keyval (answers keyval)).2 := by
  have notBefore : keyval ∉ l := by
    have nodup := sound.nodup
    rw [isLast] at nodup
    exact fun member => List.disjoint_of_nodup_append nodup member List.mem_cons_self
  have listed : (s.stored cfg.self keyval).isSome = true := (sound.self keyval).mp (by simp [isLast])
  obtain ⟨old, isStored⟩ := isSome_iff_exists.mp listed
  obtain ⟨t, found, held⟩ := bind_eq_some_iff.mp isStored
  have popped : { s with selfKeyvals := s.selfKeyvals.dropLast } = s.withSelf l := by
    rw [isLast, List.dropLast_concat, withSelf]
  have foundPopped : (s.withSelf l).tupleMap.lookup keyval = some t := found
  rw [deleteSelfAttributes, isLast, List.getLast?_append, List.getLast?_singleton]
  dsimp only [Option.or]
  rw [← isLast, popped]
  simp only [deleteAttr, if_neg cfg.self_ne_null, found, foundPopped, held, withSelf_callDelete]
  have kept := @callDelete_selfKeyvals _ cfg s keyval cfg.self t old (answers keyval)
  generalize s.callDelete cfg cfg.self keyval t old (answers keyval) = result at kept
  obtain ⟨code, s₁⟩ := result
  dsimp only at kept ⊢
  by_cases failed : code ≠ 0
  · simp only [if_pos failed]
    simp [withSelf, ← isLast, ← kept]
  · simp only [if_neg failed, withSelf_eraseAttribute]
    have kept' : (s₁.eraseAttribute cfg.self keyval).selfKeyvals = l ++ [keyval] := by
      rw [eraseAttribute_frame.2.2, kept, isLast]
    have same : ((s₁.eraseAttribute cfg.self keyval).withSelf l).dropSelf cfg cfg.self keyval =
        (s₁.eraseAttribute cfg.self keyval).dropSelf cfg cfg.self keyval := by
      have filtered : l.filter (· ≠ keyval) = l :=
        List.filter_eq_self.mpr fun k member => by
          rw [decide_eq_true_eq]
          rintro rfl
          exact notBefore member
      simp only [dropSelf, withSelf, if_pos, kept', List.filter_append, filtered]
      simp
    rw [same]
    rfl

theorem Outcome.deleteSelfAttributes (sound : Sound cfg s) (answers : Int → Answer α) (fuel : Nat) :
    Outcome cfg cfg.self s (Store.deleteSelfAttributes cfg answers fuel s) := by
  induction fuel generalizing s with
  | zero => exact .fine _ (.refl s)
  | succ fuel ih =>
    rcases s.selfKeyvals.eq_nil_or_concat' with empty | ⟨l, keyval, isLast⟩
    · rw [Store.deleteSelfAttributes, empty]
      exact .fine _ (.refl s)
    · have round := @Outcome.deleteAttr _ cfg s cfg.self keyval (answers keyval)
      rw [deleteSelfAttributes_succ l sound answers fuel isLast]
      split
      · exact round
      · next succeeded =>
        have later := ih (sound.atoms round.atoms)
        generalize s.deleteAttr cfg cfg.self keyval (answers keyval) = result at round later succeeded
        cases round with
        | fine code fine => exact .after fine later
        | failed _ failed => exact absurd failed succeeded

end Finalize

end Store

namespace Attributes

variable {cfg : Config} {s s' : Attributes α} {code : Int}

structure Sound (cfg : Config) (s : Attributes α) : Prop where
  store : s.store.Sound cfg
  comms : ∀ comm ∈ s.comms, comm ≠ cfg.self

theorem commFree_spec {comm : Comm} {order : List Int} {deletes : Int → Answer α} {lower : Int}
    (notSelf : comm ≠ cfg.self) (freed : s.commFree cfg comm order deletes lower = some (code, s')) :
    Store.Outcome cfg comm s.store (code, s'.store) ∧
      (∀ c k, s'.store.attr c k = s.store.attr c k ∨ c = comm ∧ s'.store.attr c k = none) ∧
      (code ≠ 0 ∧ s'.comms = s.comms ∨
        code = 0 ∧ s'.comms = s.comms.erase comm ∧ ∀ k, s'.store.attr comm k = none) := by
  obtain ⟨listed, freed⟩ := ite_none_right_eq_some.mp freed
  have outcome := Store.Outcome.deleteAttributes deletes order notSelf s.store
  obtain ⟨done, -, all, attr⟩ := @Store.deleteAttributes_attr _ cfg comm deletes order s.store
  generalize Store.deleteAttributes cfg comm deletes order s.store = result at outcome all attr freed
  obtain ⟨code', store⟩ := result
  dsimp only at all attr freed
  have changes (c : Comm) (k : Int) : store.attr c k = s.store.attr c k ∨ c = comm ∧ store.attr c k = none := by
    rw [attr]
    split
    · next isDone => exact .inr ⟨isDone.1, rfl⟩
    · exact .inl rfl
  split at freed
  · next failed =>
    cases freed
    exact ⟨outcome, changes, .inl ⟨failed, rfl⟩⟩
  · next succeeded =>
    cases freed
    refine ⟨outcome.succeeded (not_not.mp succeeded) _, changes, ?_⟩
    split
    · next isZero =>
      refine .inr ⟨isZero, rfl, fun k => ?_⟩
      rw [attr, all (not_not.mp succeeded)]
      split
      · rfl
      · next other => exact Store.attr_of_not_listed fun member => other ⟨rfl, listed.mem_iff.mpr member⟩
    · next failed => exact .inl ⟨failed, rfl⟩

/-- The calls of an operation: one that fails makes the operation fail, and its value stays. -/
def Reports (s : Attributes α) (code : Int) (s' : Attributes α) : Prop :=
  ∃ new, s'.store.calls = s.store.calls ++ new ∧ ∀ call ∈ new, call.code ≠ 0 →
    code ≠ 0 ∧ s'.store.stored call.comm call.keyval = some call.stored

theorem Reports.of_outcome {comm : Comm} (outcome : Store.Outcome cfg comm s.store (code, s'.store)) :
    s.Reports code s' := by
  obtain ⟨new, calls, fine⟩ := outcome.reports
  exact ⟨new, calls, fun call member failed => ⟨(fine call member failed).1, (fine call member failed).2.2⟩⟩

/-- What `MPI_Comm_dup` does. If a copy callback fails, it frees the new communicator again. -/
structure Duplicates (cfg : Config) (s : Attributes α) (oldcomm newcomm : Comm) (copies : Int → Answer α) (code : Int)
    (s' : Attributes α) : Prop where
  atoms : Store.Atoms cfg s.store s'.store
  reports : s.Reports code s'
  comms : ∀ c, c ≠ newcomm → (c ∈ s'.comms ↔ c ∈ s.comms)
  new : newcomm ∈ s'.comms ∨ s' = s ∨ ∀ k, s'.store.attr newcomm k = none
  others : ∀ c k, c ≠ newcomm → s'.store.attr c k = s.store.attr c k
  copied : code = 0 → newcomm ≠ cfg.null → ∀ k, s'.store.valueAt newcomm k =
    (s.store.valueAt newcomm k).or (s.store.copied oldcomm copies k)

theorem commDup_spec {oldcomm newcomm : Comm} {lower lowerFree : Int} {copyOrder freeOrder : List Int}
    {copies deletes : Int → Answer α} (notSelf : newcomm ≠ cfg.self) (differs : oldcomm ≠ newcomm)
    (performed : s.commDup cfg oldcomm newcomm lower copyOrder copies freeOrder deletes lowerFree = some (code, s')) :
    s.Duplicates cfg oldcomm newcomm copies code s' := by
  unfold commDup at performed
  split at performed
  · next failed =>
    cases performed
    refine ⟨.refl, ⟨[], (List.append_nil _).symm, nofun⟩, fun _ _ => Iff.rfl, .inr (.inl rfl), fun _ _ _ => rfl, ?_⟩
    intro isZero notNull
    rcases failed with failed | isNull
    · exact absurd isZero failed
    · exact absurd isNull notNull
  · obtain ⟨listed, performed⟩ := ite_none_right_eq_some.mp performed
    have outcome := @Store.Outcome.copyAttributes _ cfg oldcomm newcomm copies copyOrder notSelf s.store
    obtain ⟨others, copied⟩ := @Store.copyAttributes_values _ cfg oldcomm newcomm differs copies copyOrder s.store
    generalize Store.copyAttributes cfg oldcomm newcomm copies copyOrder s.store = result at outcome others copied performed
    obtain ⟨code', store⟩ := result
    dsimp only at others copied performed
    split at performed
    · next failed =>
      obtain ⟨⟨code'', s₂⟩, freed, same⟩ := map_eq_some_iff.mp performed
      cases same
      obtain ⟨outcome', changes, comms⟩ := commFree_spec notSelf freed
      obtain ⟨later, calls', fine'⟩ := outcome'.reports
      obtain ⟨new, calls, fine⟩ := outcome.reports
      have kept (c : Comm) (k : Int) (other : c ≠ newcomm) : s₂.store.attr c k = store.attr c k :=
        (changes c k).resolve_right fun both => other both.1
      refine
        { atoms := outcome.atoms.trans outcome'.atoms
          reports := ⟨new ++ later, by rw [calls', calls, List.append_assoc], fun call member isError => ⟨failed, ?_⟩⟩
          comms := fun c other => ?_
          new := ?_
          others := fun c k other => (kept c k other).trans (others c k other)
          copied := fun isZero => absurd isZero failed }
      · rcases List.mem_append.mp member with first | second
        · obtain ⟨-, isOld, stays⟩ := fine call first isError
          rw [isOld] at stays ⊢
          rw [Store.stored_eq_attr, kept oldcomm call.keyval differs, ← Store.stored_eq_attr, stays]
        · exact (fine' call second isError).2.2
      · rcases comms with ⟨-, same⟩ | ⟨-, erased, -⟩
        · simp [same, other]
        · simp [erased]
      · rcases comms with ⟨-, same⟩ | ⟨-, -, gone⟩
        · exact .inl (same ▸ List.mem_cons_self)
        · exact .inr (.inr gone)
    · next succeeded =>
      cases performed
      refine
        { atoms := outcome.atoms
          reports := .of_outcome outcome
          comms := fun c other => by simp [other]
          new := .inl List.mem_cons_self
          others := others
          copied := fun isZero _ k => (copied isZero k).trans ?_ }
      congr 1
      split
      · rfl
      · next notListed => rw [Store.copied_of_not_listed fun member => notListed (listed.mem_iff.mpr member)]

theorem commDup_valid {oldcomm newcomm : Comm} {lower lowerFree : Int} {copyOrder freeOrder : List Int}
    {copies deletes : Int → Answer α} (isOld : s.valid cfg oldcomm = true) (isNew : ¬s.valid cfg newcomm = true)
    (performed : s.commDup cfg oldcomm newcomm lower copyOrder copies freeOrder deletes lowerFree = some (code, s')) :
    s.Duplicates cfg oldcomm newcomm copies code s' := by
  refine commDup_spec ?_ (fun same => isNew (same ▸ isOld)) performed
  rintro rfl
  simp [valid] at isNew

theorem perform_keyval {op : KeyvalOp α} (performed : s.perform cfg (.keyval op) = some (code, s')) :
    s'.comms = s.comms ∧ s'.store = s.store.keyvalOp cfg op := by
  cases op <;> cases performed <;> exact ⟨rfl, rfl⟩

theorem perform_set {comm : Comm} {keyval : Int} {value : α} {answer : Answer α}
    (performed : s.perform cfg (.set comm keyval value answer) = some (code, s')) :
    (s.valid cfg comm = true ∨ comm = cfg.null) ∧ s'.comms = s.comms ∧
      s.store.setAttr cfg comm keyval value answer = (code, s'.store) := by
  obtain ⟨isValid, performed⟩ := ite_none_right_eq_some.mp performed
  cases performed
  exact ⟨isValid, rfl, rfl⟩

theorem perform_delete {comm : Comm} {keyval : Int} {answer : Answer α}
    (performed : s.perform cfg (.delete comm keyval answer) = some (code, s')) :
    s'.comms = s.comms ∧ s.store.deleteAttr cfg comm keyval answer = (code, s'.store) := by
  cases performed
  exact ⟨rfl, rfl⟩

theorem perform_finalize {answers : Int → Answer α} (performed : s.perform cfg (.finalize answers) = some (code, s')) :
    s'.comms = s.comms ∧
      s.store.deleteSelfAttributes cfg answers s.store.selfKeyvals.length = (code, s'.store) := by
  cases performed
  exact ⟨rfl, rfl⟩

/-- Every operation is a sequence of atomic changes. -/
theorem perform_atoms {a : Act α} (sound : s.Sound cfg) (performed : s.perform cfg a = some (code, s')) :
    Store.Atoms cfg s.store s'.store ∧ (∀ comm ∈ s'.comms, comm ≠ cfg.self) ∧ s.Reports code s' := by
  cases a with
  | keyval op =>
    have fine := @Store.Fine.keyvalOps _ cfg [op] s.store
    obtain ⟨comms, store⟩ := perform_keyval performed
    rw [List.foldl_cons, List.foldl_nil, ← store] at fine
    exact ⟨fine.atoms, comms ▸ sound.comms, @Reports.of_outcome _ _ _ _ _ 0 (.fine _ fine)⟩
  | set comm keyval value answer =>
    obtain ⟨-, comms, isResult⟩ := perform_set performed
    have outcome := @Store.Outcome.setAttr _ cfg s.store comm keyval value answer
    rw [isResult] at outcome
    exact ⟨outcome.atoms, comms ▸ sound.comms, .of_outcome outcome⟩
  | delete comm keyval answer =>
    obtain ⟨comms, isResult⟩ := perform_delete performed
    have outcome := @Store.Outcome.deleteAttr _ cfg s.store comm keyval answer
    rw [isResult] at outcome
    exact ⟨outcome.atoms, comms ▸ sound.comms, .of_outcome outcome⟩
  | dup oldcomm newcomm lower copyOrder copies freeOrder deletes lowerFree =>
    obtain ⟨⟨isOld, isNew⟩, performed⟩ := ite_none_right_eq_some.mp performed
    have duplicates := commDup_valid isOld isNew performed
    refine ⟨duplicates.atoms, fun comm member => ?_, duplicates.reports⟩
    by_cases same : comm = newcomm
    · rintro rfl
      simp [valid, same] at isNew
    · exact sound.comms comm ((duplicates.comms comm same).mp member)
  | free comm order deletes lower =>
    obtain ⟨⟨-, notSelf⟩, performed⟩ := ite_none_right_eq_some.mp performed
    obtain ⟨outcome, -, comms⟩ := commFree_spec notSelf performed
    refine ⟨outcome.atoms, fun comm member => sound.comms comm ?_, .of_outcome outcome⟩
    rcases comms with ⟨-, same⟩ | ⟨-, erased, -⟩
    · exact same ▸ member
    · exact List.mem_of_mem_erase (erased ▸ member)
  | finalize answers =>
    obtain ⟨comms, isResult⟩ := perform_finalize performed
    have outcome := Store.Outcome.deleteSelfAttributes sound.store answers s.store.selfKeyvals.length
    rw [isResult] at outcome
    exact ⟨outcome.atoms, comms ▸ sound.comms, .of_outcome outcome⟩

theorem sound_reachable (reached : Reachable (machine cfg) s) : s.Sound cfg := by
  refine reached.invariant (Sound cfg) ?_ fun s a s' _ sound taken => ?_
  · rintro _ rfl
    exact ⟨.empty, nofun⟩
  · obtain ⟨⟨code, _⟩, performed, rfl⟩ := map_eq_some_iff.mp taken
    obtain ⟨atoms, comms, -⟩ := perform_atoms sound performed
    exact ⟨sound.store.atoms atoms, comms⟩

end Attributes

/-- The keyvals, after any run. -/
theorem keyval_store_sound {cfg : Config} {s : Attributes α} (reached : Reachable (Attributes.machine cfg) s) :
    (∀ (k : Nat) (v : Int), s.store.keyvalVec[k]? = some v →
      (v = k ↔ (k : Int) ∈ s.store.tupleMap) ∧ (v ≠ k → v = -1 ∨ v = -2 ∧ (k : Int) ∈ cfg.predefined)) ∧
    (∀ keyval ∈ s.store.tupleMap, 0 ≤ keyval ∧ keyval.toNat < s.store.keyvalVec.length) ∧
    (∀ keyval t, s.store.tupleMap.lookup keyval = some t → t.freed = false ∨ t.attributeMap.keys ≠ []) ∧
    (∀ copyFn deleteFn extraState,
      (s.store.createKeyval cfg copyFn deleteFn extraState).1 ∉ cfg.predefined ∧
      (s.store.createKeyval cfg copyFn deleteFn extraState).1 ∉ s.store.tupleMap) ∧
    (∀ keyval, (s.store.freeKeyval cfg keyval).1 = 0 ↔
      ∃ t, s.store.tupleMap.lookup keyval = some t ∧ t.freed = false) ∧
    (∀ keyval, keyval ∈ s.store.selfKeyvals ↔ (s.store.stored cfg.self keyval).isSome = true) ∧
    s.store.selfKeyvals.Nodup := by
  have sound := (Attributes.sound_reachable reached).store
  refine ⟨fun k v isVec => ?_, fun keyval present => ?_, fun keyval t found => ?_, fun copyFn deleteFn extraState => ?_,
    fun keyval => ?_, sound.self, sound.nodup⟩
  · rcases sound.vec k v isVec with ⟨rfl, present⟩ | ⟨absent, known⟩
    · exact ⟨iff_of_true rfl present, fun differs => absurd rfl differs⟩
    · refine ⟨iff_of_false (by omega) absent, fun _ => known.imp (·.1) id⟩
  · obtain ⟨t, found⟩ := isSome_iff_exists.mp (AList.lookup_isSome.mpr present)
    obtain ⟨nonneg, inside, -⟩ := sound.tuple keyval t found
    exact ⟨nonneg, inside⟩
  · exact (sound.tuple keyval t found).2.2.2.resolve_left id
  · exact (sound.createKeyval copyFn deleteFn extraState).2
  · rw [← Store.mem_iff_freeable sound]
    unfold Store.freeKeyval
    split
    · next isFreeable _ => exact iff_of_true rfl isFreeable
    · next notBoth =>
      refine iff_of_false cfg.errKeyval_ne fun isFreeable => ?_
      obtain ⟨t, found, -⟩ := (Store.mem_iff_freeable sound).mp isFreeable
      exact notBoth t isFreeable found

/-- A library that numbers its predefined keyvals from 0. -/
def openMpi : Config where
  world := 1
  self := 2
  null := 3
  predefined := [0, 1, 2, 3, 4, 5, 6]
  errComm := 5
  errKeyval := 36
  errKeyval_ne := by decide
  self_ne_null := by decide

def Attributes.freedInUse : Option (Attributes Nat) :=
  (Attributes.machine openMpi).run ⟨.empty, []⟩
    [.keyval (.create none (some 1) 10), .set 2 7 20 ⟨[], 0, 0, false⟩, .keyval (.free 7)]

theorem keyval_store_sound_freed_in_use :
    ∃ s, Attributes.freedInUse = some s ∧ (s.store.freeKeyval openMpi 7).1 ≠ 0 ∧ s.store.selfKeyvals = [7] ∧
      (s.store.createKeyval openMpi none none 0).1 ∉ openMpi.predefined := by
  obtain ⟨s, isFreed⟩ := isSome_iff_exists.mp (show Attributes.freedInUse.isSome = true by decide)
  have values : Attributes.freedInUse.map (fun s => ((s.store.freeKeyval openMpi 7).1, s.store.selfKeyvals)) =
      some (36, [7]) := by decide
  rw [isFreed] at values
  obtain ⟨code, selfKeyvals⟩ := Prod.mk.inj (some.inj values)
  have reached : Reachable (Attributes.machine openMpi) s := .run (.start rfl) isFreed
  refine ⟨s, isFreed, by rw [code]; decide, selfKeyvals, ?_⟩
  exact ((keyval_store_sound reached).2.2.2.1 none none 0).1

end Mana.Attr
