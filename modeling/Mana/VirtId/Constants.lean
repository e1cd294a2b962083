import Mana.Lib.Probing
import Mana.VirtId.Table

/-! The table of the predefined constants, from the upper half's values to the lower half's, and the maps beside it.
`init_predefined_virt_ids` fills them at `MPI_Init` and again at every restart. -/

namespace Mana.VirtId
open Mana.Lib Option Function

/-- A `mana_constant` in use, after its key. -/
structure ManaConstant where
  lower : Handle
  fortran : Int
  deriving DecidableEq, Repr

/-- The arguments of `set_upper_to_lower`, with the Fortran handle that the lower half gives for them. -/
structure Predefined where
  kind : Nat
  upper : Handle
  lower : Handle
  fortran : Int
  deriving DecidableEq, Repr

def Predefined.constant (p : Predefined) : ManaConstant := ⟨p.lower, p.fortran⟩

/-- `upper_to_lower_constants`, `num_constants`, `fortran_constants` and `lower_to_upper_constants`. -/
structure Constants where
  slots : Nat → Option (Handle × ManaConstant)
  num : Nat
  fortran : Nat → Int → Option Handle
  lowerToUpper : Handle → Option Handle

def constantsTableSize : Nat := 512

def constantHash (upper : Handle) : Nat :=
  (upper * 0x9e3779b97f4a7c15 % 2 ^ 64) >>> 55 &&& (constantsTableSize - 1)

namespace Constants

def empty : Constants := ⟨fun _ => none, 0, fun _ _ => none, fun _ => none⟩

def search (c : Constants) (upper : Handle) : Option Nat :=
  probe constantsTableSize c.slots upper constantsTableSize (constantHash upper)

def findConstant (c : Constants) (upper : Handle) : Option (Option ManaConstant) :=
  (c.search upper).map fun slot => (c.slots slot).map (·.2)

/-- No value: the assertion on the number of constants fails. -/
def setUpperToLower (c : Constants) (p : Predefined) : Option Constants :=
  (c.search p.upper).bind fun slot =>
    if (c.slots slot).isNone ∧ ¬c.num + 1 ≤ constantsTableSize / 4 then none
    else
      some
        { slots := update c.slots slot (some (p.upper, p.constant))
          num := if (c.slots slot).isSome then c.num else c.num + 1
          fortran := update c.fortran p.kind (update (c.fortran p.kind) p.fortran (some p.upper))
          lowerToUpper := update c.lowerToUpper p.lower (some p.upper) }

/-- The maps are made anew; the table keeps its entries. -/
def initPredefined (c : Constants) (ps : List Predefined) : Option Constants :=
  ps.foldlM setUpperToLower { c with fortran := fun _ _ => none, lowerToUpper := fun _ => none }

structure Sound (c : Constants) : Prop where
  probed : Probed constantsTableSize constantHash c.slots
  counted : c.num = (usedSlots constantsTableSize c.slots).card
  sparse : c.num ≤ constantsTableSize / 4

def Has (c : Constants) (upper : Handle) (constant : ManaConstant) : Prop :=
  Stored constantsTableSize c.slots upper constant

end Constants

theorem constantHash_lt (upper : Handle) : constantHash upper < constantsTableSize := by
  have mask : constantHash upper = ((upper * 0x9e3779b97f4a7c15 % 2 ^ 64) >>> 55) % 2 ^ 9 :=
    Nat.and_two_pow_sub_one_eq_mod _ 9
  rw [mask]
  exact Nat.mod_lt _ (by decide)

namespace Constants

variable {c c' : Constants} {p : Predefined} {upper : Handle} {constant : ManaConstant}

theorem empty_sound : empty.Sound where
  probed := ⟨fun _ _ _ _ found => (nomatch found), 0, by decide, rfl⟩
  counted := by rw [empty, usedSlots_none, Finset.card_empty]
  sparse := Nat.zero_le _

theorem Sound.search (sound : c.Sound) (upper : Handle) :
    ∃ steps, EndsAt constantsTableSize constantHash c.slots upper steps ∧
      c.search upper = some ((constantHash upper + steps) % constantsTableSize) := by
  obtain ⟨steps, ends⟩ := sound.probed.exists_endsAt upper
  exact ⟨steps, ends, ends.probe (constantHash_lt upper)⟩

theorem Sound.findConstant_ne_none (sound : c.Sound) (upper : Handle) : c.findConstant upper ≠ none := by
  obtain ⟨steps, -, found⟩ := sound.search upper
  rw [findConstant, found]
  exact nofun

theorem Sound.findConstant_eq_some (sound : c.Sound) :
    c.findConstant upper = some (some constant) ↔ c.Has upper constant := by
  obtain ⟨steps, ends, found⟩ := sound.search upper
  rw [Has, sound.probed.stored_iff ends, findConstant, found, map_some, some.injEq]
  obtain unused | ⟨value, isKey⟩ := ends.slot_cases
  · simp [unused]
  · simp [isKey]

structure Sets (c : Constants) (p : Predefined) (c' : Constants) : Prop where
  sound : c'.Sound
  has : ∀ upper constant, c'.Has upper constant ↔
    (upper = p.upper ∧ constant = p.constant) ∨ (upper ≠ p.upper ∧ c.Has upper constant)
  fortran : c'.fortran = update c.fortran p.kind (update (c.fortran p.kind) p.fortran (some p.upper))

theorem Sound.set (sound : c.Sound) (isSet : c.setUpperToLower p = some c') : c.Sets p c' := by
  obtain ⟨steps, ends, found⟩ := sound.search p.upper
  rw [setUpperToLower, found, bind_some] at isSet
  obtain ⟨bounded, ⟨⟩⟩ := ite_none_left_eq_some.mp isSet
  have inside : (constantHash p.upper + steps) % constantsTableSize < constantsTableSize := Nat.mod_lt _ (by decide)
  have counted := @card_usedSlots_update _ _ _ c.slots _ (p.upper, p.constant) inside
  rw [← sound.counted] at counted
  have less : (if (c.slots ((constantHash p.upper + steps) % constantsTableSize)).isSome then c.num else c.num + 1) ≤
      constantsTableSize / 4 := by
    split
    · exact sound.sparse
    · next unused =>
      by_contra full
      exact bounded ⟨by simpa using unused, full⟩
  have room := exists_unused (Nat.lt_of_le_of_lt (counted.le.trans less) (by decide))
  exact ⟨⟨sound.probed.update ends room, counted.symm, less⟩, fun _ _ => stored_update sound.probed ends, rfl⟩

/-- What a list of insertions leaves: the last entry of each constant and of each Fortran handle. -/
structure Filled (ps : List Predefined) (c : Constants) : Prop where
  sound : c.Sound
  has : ∀ p ∈ ps, ∃ q ∈ ps, q.upper = p.upper ∧ c.Has p.upper q.constant
  fortran : ∀ p ∈ ps, ∃ q ∈ ps, q.kind = p.kind ∧ q.fortran = p.fortran ∧ c.fortran p.kind p.fortran = some q.upper

theorem Filled.snoc {ps : List Predefined} (filled : Filled ps c) (isSet : c.setUpperToLower p = some c') :
    Filled (ps ++ [p]) c' := by
  have sets := filled.sound.set isSet
  have last : p ∈ ps ++ [p] := List.mem_append_right _ (List.mem_singleton_self p)
  refine ⟨sets.sound, fun r member => ?_, fun r member => ?_⟩
  · by_cases same : r.upper = p.upper
    · exact ⟨p, last, same.symm, (sets.has _ _).mpr (.inl ⟨same, rfl⟩)⟩
    · have earlier : r ∈ ps := (List.mem_append.mp member).resolve_right fun isLast =>
        same (by rw [List.mem_singleton.mp isLast])
      obtain ⟨q, isMember, upper, has⟩ := filled.has r earlier
      exact ⟨q, List.mem_append_left _ isMember, upper, (sets.has _ _).mpr (.inr ⟨same, has⟩)⟩
  · rw [sets.fortran]
    by_cases same : r.kind = p.kind ∧ r.fortran = p.fortran
    · refine ⟨p, last, same.1.symm, same.2.symm, ?_⟩
      rw [same.1, same.2, update_self, update_self]
    · have earlier : r ∈ ps := (List.mem_append.mp member).resolve_right fun isLast =>
        same (by rw [List.mem_singleton.mp isLast]; exact ⟨rfl, rfl⟩)
      obtain ⟨q, isMember, kind, fortran, found⟩ := filled.fortran r earlier
      refine ⟨q, List.mem_append_left _ isMember, kind, fortran, ?_⟩
      by_cases kind : r.kind = p.kind
      · rw [kind, update_self, update_of_ne fun equal => same ⟨kind, equal⟩, ← kind]
        exact found
      · rw [update_of_ne kind]
        exact found

theorem Filled.foldlM {ps done : List Predefined} (filled : Filled done c)
    (folded : ps.foldlM setUpperToLower c = some c') : Filled (done ++ ps) c' := by
  induction ps generalizing c done with
  | nil =>
    cases folded
    rwa [List.append_nil]
  | cons p ps ih =>
    obtain ⟨next, isSet, folded⟩ := bind_eq_some_iff.mp folded
    have filled' := ih (filled.snoc isSet) folded
    rwa [List.append_assoc] at filled'

theorem Sound.initPredefined {ps : List Predefined} (sound : c.Sound) (filled : c.initPredefined ps = some c') :
    Filled ps c' := by
  have first : Filled [] { c with fortran := fun _ _ => none, lowerToUpper := fun _ => none } :=
    ⟨⟨sound.probed, sound.counted, sound.sparse⟩, nofun, nofun⟩
  exact first.foldlM filled

def lastOf (ps : List Predefined) (upper : Handle) : Option ManaConstant :=
  (ps.reverse.find? (·.upper = upper)).map (·.constant)

def keysOf (ps : List Predefined) : Finset Handle := (ps.map (·.upper)).toFinset

/-- The table as a map: each key has what its last insertion gave it. -/
structure Latest (ps : List Predefined) (c : Constants) : Prop where
  sound : c.Sound
  has : ∀ upper constant, c.Has upper constant ↔ lastOf ps upper = some constant

variable {ps : List Predefined}

theorem lastOf_snoc : lastOf (ps ++ [p]) upper = if p.upper = upper then some p.constant else lastOf ps upper := by
  rw [lastOf, List.reverse_append, List.reverse_singleton, List.singleton_append, List.find?_cons]
  by_cases same : p.upper = upper
  · simp [same]
  · simp [same, lastOf]

theorem lastOf_ne_none : lastOf ps upper ≠ none ↔ upper ∈ keysOf ps := by
  simp [lastOf, keysOf]

theorem card_keysOf_le {qs : List Predefined} : (keysOf ps).card ≤ (keysOf (ps ++ qs)).card := by
  rw [keysOf, keysOf, List.map_append, List.toFinset_append]
  exact Finset.card_le_card Finset.subset_union_left

theorem Sound.slot_unique (sound : c.Sound) {slot slot' : Nat} {constant' : ManaConstant}
    (inside : slot < constantsTableSize) (inside' : slot' < constantsTableSize)
    (one : c.slots slot = some (upper, constant)) (two : c.slots slot' = some (upper, constant')) : slot = slot' := by
  obtain ⟨steps, ends, rfl⟩ := sound.probed.reach slot upper constant inside one
  obtain ⟨steps', ends', rfl⟩ := sound.probed.reach slot' upper constant' inside' two
  rw [ends.unique ends']

theorem Latest.num (latest : Latest ps c) : c.num = (keysOf ps).card := by
  have keys : (usedSlots constantsTableSize c.slots).image (fun slot => (c.slots slot).map (·.1)) =
      (keysOf ps).image some := by
    ext key
    rw [Finset.mem_image, Finset.mem_image]
    constructor
    · rintro ⟨slot, used, rfl⟩
      obtain ⟨inside, isUsed⟩ := mem_usedSlots.mp used
      obtain ⟨⟨upper, constant⟩, found⟩ := Option.isSome_iff_exists.mp isUsed
      have isLast := (latest.has upper constant).mp ⟨slot, inside, found⟩
      exact ⟨upper, lastOf_ne_none.mp (isLast ▸ nofun), by rw [found]; rfl⟩
    · rintro ⟨upper, member, rfl⟩
      obtain ⟨constant, isLast⟩ := Option.ne_none_iff_exists'.mp (lastOf_ne_none.mpr member)
      obtain ⟨slot, inside, found⟩ := (latest.has upper constant).mpr isLast
      exact ⟨slot, mem_usedSlots.mpr ⟨inside, by rw [found]; rfl⟩, by rw [found]; rfl⟩
  rw [← Finset.card_image_of_injective (keysOf ps) (some_injective _), ← keys, latest.sound.counted]
  refine (Finset.card_image_of_injOn fun slot used slot' used' same => ?_).symm
  obtain ⟨inside, isUsed⟩ := mem_usedSlots.mp used
  obtain ⟨inside', isUsed'⟩ := mem_usedSlots.mp used'
  obtain ⟨⟨upper, constant⟩, found⟩ := Option.isSome_iff_exists.mp isUsed
  obtain ⟨⟨upper', constant'⟩, found'⟩ := Option.isSome_iff_exists.mp isUsed'
  rw [found, found'] at same
  cases same
  exact latest.sound.slot_unique inside inside' found found'

theorem Latest.set (latest : Latest ps c) (few : (keysOf (ps ++ [p])).card ≤ constantsTableSize / 4) :
    ∃ c', c.setUpperToLower p = some c' ∧ Latest (ps ++ [p]) c' := by
  have isSet : ∃ c', c.setUpperToLower p = some c' := by
    obtain ⟨steps, ends, found⟩ := latest.sound.search p.upper
    rw [setUpperToLower, found, bind_some]
    refine ⟨_, if_neg fun full => ?_⟩
    have absent : p.upper ∉ keysOf ps := fun member => by
      obtain ⟨constant, isLast⟩ := Option.ne_none_iff_exists'.mp (lastOf_ne_none.mpr member)
      have stored := (latest.sound.probed.stored_iff ends).mp ((latest.has p.upper constant).mpr isLast)
      rw [stored] at full
      exact nomatch full.1
    have keys : keysOf (ps ++ [p]) = insert p.upper (keysOf ps) := by
      ext upper
      simp [keysOf]
    rw [keys, Finset.card_insert_of_notMem absent, ← latest.num] at few
    exact full.2 few
  obtain ⟨c', isSet⟩ := isSet
  have sets := latest.sound.set isSet
  refine ⟨c', isSet, sets.sound, fun upper constant => ?_⟩
  rw [sets.has, latest.has, lastOf_snoc]
  by_cases same : p.upper = upper
  · simp [same, eq_comm]
  · simp [same, Ne.symm same]

theorem Latest.foldlM {done : List Predefined} (latest : Latest done c)
    (few : (keysOf (done ++ ps)).card ≤ constantsTableSize / 4) :
    ∃ c', ps.foldlM setUpperToLower c = some c' ∧ Latest (done ++ ps) c' := by
  induction ps generalizing c done with
  | nil => exact ⟨c, rfl, by rwa [List.append_nil]⟩
  | cons p ps ih =>
    rw [List.append_cons] at few ⊢
    obtain ⟨next, isSet, latest'⟩ := latest.set (card_keysOf_le.trans few)
    obtain ⟨c', folded, isLatest⟩ := ih latest' few
    exact ⟨c', by rw [List.foldlM_cons, isSet]; exact folded, isLatest⟩

theorem Latest.launches {launches : List (List Predefined)} (latest : Latest ps c)
    (few : (keysOf (ps ++ launches.flatten)).card ≤ constantsTableSize / 4) :
    ∃ c', launches.foldlM initPredefined c = some c' ∧ Latest (ps ++ launches.flatten) c' := by
  induction launches generalizing c ps with
  | nil => exact ⟨c, rfl, by rwa [List.flatten_nil, List.append_nil]⟩
  | cons launch launches ih =>
    rw [List.flatten_cons, ← List.append_assoc] at few ⊢
    have first : Latest ps { c with fortran := fun _ _ => none, lowerToUpper := fun _ => none } :=
      ⟨⟨latest.sound.probed, latest.sound.counted, latest.sound.sparse⟩, latest.has⟩
    obtain ⟨next, isSet, latest'⟩ := first.foldlM (card_keysOf_le.trans few)
    obtain ⟨c', folded, isLatest⟩ := ih latest' few
    exact ⟨c', by rw [List.foldlM_cons, initPredefined, isSet]; exact folded, isLatest⟩

/-- Every search of a constant ends, with the values of the last insertion if there was one; each constant has one
slot and is counted once. -/
theorem constants_table_is_map (launches : List (List Predefined))
    (few : (keysOf launches.flatten).card ≤ 128) :
    ∃ c, launches.foldlM initPredefined empty = some c ∧
      (∀ upper, c.findConstant upper = some (lastOf launches.flatten upper)) ∧
      c.num = (keysOf launches.flatten).card ∧
      ∀ slot slot' upper constant constant', slot < constantsTableSize → slot' < constantsTableSize →
        c.slots slot = some (upper, constant) → c.slots slot' = some (upper, constant') → slot = slot' := by
  have first : Latest [] empty := ⟨empty_sound, fun _ _ => ⟨fun ⟨_, _, found⟩ => (nomatch found), nofun⟩⟩
  obtain ⟨c, filled, latest⟩ := @Latest.launches _ _ launches first few
  rw [List.nil_append] at latest
  refine ⟨c, filled, fun upper => ?_, latest.num, fun _ _ _ _ _ => latest.sound.slot_unique⟩
  obtain ⟨found, isFound⟩ := Option.ne_none_iff_exists'.mp (latest.sound.findConstant_ne_none upper)
  rw [isFound]
  refine congrArg some (Option.ext fun constant => ?_)
  rw [← latest.sound.findConstant_eq_some.trans (latest.has upper constant), isFound, some.injEq]

theorem constants_table_is_map_relaunched :
    ∃ c, [[⟨1, 5, 7, 9⟩, ⟨1, 6, 8, 2⟩], [⟨1, 5, 3, 9⟩]].foldlM initPredefined empty = some c ∧
      c.findConstant 5 = some (some ⟨3, 9⟩) ∧ c.findConstant 4 = some none ∧ c.num = 2 := by
  obtain ⟨c, filled, found, counted, -⟩ :=
    constants_table_is_map [[⟨1, 5, 7, 9⟩, ⟨1, 6, 8, 2⟩], [⟨1, 5, 3, 9⟩]] (by decide)
  exact ⟨c, filled, (found 5).trans rfl, (found 4).trans rfl, counted.trans rfl⟩

end Constants

end Mana.VirtId
