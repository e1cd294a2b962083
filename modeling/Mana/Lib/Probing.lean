import Mathlib.Data.Finset.Card
import Mathlib.Data.Finset.Range
import Mathlib.Data.Nat.Find
import Mathlib.Data.Nat.ModEq

/-! Open addressing with linear probing. A search goes from the slot of the key's hash on, around the table, up to the
key or an unused slot; it ends as long as there is an unused slot. -/

namespace Mana.Lib
open Function

universe u v

variable {κ : Type u} {β : Type v}

def probe [DecidableEq κ] (size : Nat) (slots : Nat → Option (κ × β)) (key : κ) : Nat → Nat → Option Nat
  | 0, _ => none
  | fuel + 1, slot =>
    match slots slot with
    | none => some slot
    | some (other, _) => if other = key then some slot else probe size slots key fuel ((slot + 1) % size)

section Probing

variable {size : Nat} {hash : κ → Nat} {slots slots' : Nat → Option (κ × β)} {key : κ} {value : β}

def UsedByOther (slots : Nat → Option (κ × β)) (key : κ) (slot : Nat) : Prop :=
  ∃ other value, slots slot = some (other, value) ∧ other ≠ key

/-- The first slot from the hash on that has the key or is unused. -/
structure EndsAt (size : Nat) (hash : κ → Nat) (slots : Nat → Option (κ × β)) (key : κ) (steps : Nat) : Prop where
  within : steps < size
  before : ∀ d < steps, UsedByOther slots key ((hash key + d) % size)
  here : ¬UsedByOther slots key ((hash key + steps) % size)

/-- Each key lies where its search ends, and the table is not full. -/
structure Probed (size : Nat) (hash : κ → Nat) (slots : Nat → Option (κ × β)) : Prop where
  reach : ∀ slot key value, slot < size → slots slot = some (key, value) →
    ∃ steps, EndsAt size hash slots key steps ∧ (hash key + steps) % size = slot
  room : ∃ slot < size, slots slot = none

def Stored (size : Nat) (slots : Nat → Option (κ × β)) (key : κ) (value : β) : Prop :=
  ∃ slot < size, slots slot = some (key, value)

variable {steps start : Nat} {other : κ}

theorem probe_of_endsAt [DecidableEq κ] {fuel : Nat} (enough : steps < fuel)
    (before : ∀ d < steps, UsedByOther slots key ((start + d) % size))
    (here : ¬UsedByOther slots key ((start + steps) % size)) :
    probe size slots key fuel (start % size) = some ((start + steps) % size) := by
  induction fuel generalizing steps start with
  | zero => omega
  | succ fuel ih =>
    rw [probe]
    cases steps with
    | zero =>
      rw [Nat.add_zero] at here
      split
      · rfl
      · next other value found =>
        by_cases same : other = key
        · rw [if_pos same, Nat.add_zero]
        · exact absurd ⟨other, value, found, same⟩ here
    | succ steps =>
      obtain ⟨other, value, found, differs⟩ := before 0 (Nat.succ_pos _)
      rw [Nat.add_zero] at found
      rw [found]
      dsimp only
      rw [if_neg differs, Nat.mod_add_mod, show start + (steps + 1) = start + 1 + steps by omega]
      refine ih (by omega) (fun d less => ?_) (by rwa [show start + 1 + steps = start + (steps + 1) by omega])
      rw [show start + 1 + d = start + (d + 1) by omega]
      exact before (d + 1) (by omega)

theorem EndsAt.probe [DecidableEq κ] (ends : EndsAt size hash slots key steps) (small : hash key < size) :
    Lib.probe size slots key size (hash key) = some ((hash key + steps) % size) := by
  have probed := probe_of_endsAt ends.within ends.before ends.here
  rwa [Nat.mod_eq_of_lt small] at probed

theorem EndsAt.unique {steps' : Nat} (one : EndsAt size hash slots key steps) (two : EndsAt size hash slots key steps') :
    steps = steps' := by
  rcases Nat.lt_trichotomy steps steps' with less | same | more
  · exact absurd (two.before _ less) one.here
  · exact same
  · exact absurd (one.before _ more) two.here

theorem slot_ne_of_lt {d d' : Nat} (less : d < d') (within : d' < size) :
    (start + d) % size ≠ (start + d') % size := by
  intro same
  have equal : d % size = d' % size := Nat.ModEq.add_left_cancel' start same
  rw [Nat.mod_eq_of_lt within, Nat.mod_eq_of_lt (by omega)] at equal
  omega

theorem Probed.exists_endsAt (probed : Probed size hash slots) (key : κ) : ∃ steps, EndsAt size hash slots key steps := by
  classical
  obtain ⟨slot, inside, unused⟩ := probed.room
  have positive : 0 < size := by omega
  have least : ∃ d, ¬UsedByOther slots key ((hash key + d) % size) := by
    -- Going around the table from any slot meets the unused one.
    refine ⟨slot + size - hash key % size, ?_⟩
    have start := Nat.mod_lt (hash key) positive
    have reached : (hash key + (slot + size - hash key % size)) % size = slot := by
      rw [← Nat.mod_add_mod, show hash key % size + (slot + size - hash key % size) = slot + size by omega,
        Nat.add_mod_right, Nat.mod_eq_of_lt inside]
    rw [reached]
    rintro ⟨_, _, found, _⟩
    exact nomatch unused.symm.trans found
  refine ⟨Nat.find least, ?_, fun d less => not_not.mp (Nat.find_min least less), Nat.find_spec least⟩
  have smaller := Nat.find_min' least (m := Nat.find least % size) (by
    rw [Nat.add_mod_mod]
    exact Nat.find_spec least)
  exact Nat.lt_of_le_of_lt smaller (Nat.mod_lt _ positive)

theorem Probed.stored_iff (probed : Probed size hash slots) (ends : EndsAt size hash slots key steps) :
    Stored size slots key value ↔ slots ((hash key + steps) % size) = some (key, value) := by
  constructor
  · rintro ⟨slot, inside, found⟩
    obtain ⟨steps', ends', rfl⟩ := probed.reach slot key value inside found
    rwa [ends.unique ends']
  · intro found
    exact ⟨_, Nat.mod_lt _ (Nat.zero_lt_of_lt ends.within), found⟩

theorem EndsAt.slot_cases (ends : EndsAt size hash slots key steps) :
    slots ((hash key + steps) % size) = none ∨ ∃ value, slots ((hash key + steps) % size) = some (key, value) := by
  cases found : slots ((hash key + steps) % size) with
  | none => exact .inl rfl
  | some entry =>
    obtain ⟨other, old⟩ := entry
    by_cases same : other = key
    · exact .inr ⟨old, by rw [same]⟩
    · exact absurd ⟨other, old, found, same⟩ ends.here

theorem UsedByOther.update {slot written : Nat} (used : UsedByOther slots other slot)
    (differs : slot = written → other ≠ key) : UsedByOther (update slots written (some (key, value))) other slot := by
  by_cases here : slot = written
  · exact ⟨key, value, by rw [here, update_self], fun same => differs here same.symm⟩
  · obtain ⟨first, second, found, different⟩ := used
    exact ⟨first, second, by rwa [update_of_ne here], different⟩

theorem Probed.update (probed : Probed size hash slots) (ends : EndsAt size hash slots key steps)
    (room : ∃ slot < size, update slots ((hash key + steps) % size) (some (key, value)) slot = none) :
    Probed size hash (update slots ((hash key + steps) % size) (some (key, value))) := by
  refine ⟨fun slot other old inside found => ?_, room⟩
  by_cases here : slot = (hash key + steps) % size
  · rw [here, update_self] at found
    cases found
    refine ⟨steps, ⟨ends.within, fun d less => ?_, ?_⟩, here.symm⟩
    · exact (ends.before d less).update fun same => absurd same (slot_ne_of_lt less ends.within)
    · rintro ⟨_, _, found, differs⟩
      rw [update_self] at found
      cases found
      exact differs rfl
  · rw [update_of_ne here] at found
    obtain ⟨steps', ends', rfl⟩ := probed.reach slot other old inside found
    -- Two keys: the search of one does not end at the other's slot.
    have differs : other ≠ key := fun same => by
      subst same
      exact here (by rw [ends.unique ends'])
    refine ⟨steps', ⟨ends'.within, fun d less => (ends'.before d less).update fun _ => differs, ?_⟩, rfl⟩
    rintro ⟨_, _, found', different⟩
    rw [update_of_ne here, found] at found'
    cases found'
    exact different rfl

theorem stored_update (probed : Probed size hash slots) (ends : EndsAt size hash slots key steps) {old : β} :
    Stored size (update slots ((hash key + steps) % size) (some (key, value))) other old ↔
      (other = key ∧ old = value) ∨ (other ≠ key ∧ Stored size slots other old) := by
  have inside : (hash key + steps) % size < size := Nat.mod_lt _ (Nat.zero_lt_of_lt ends.within)
  constructor
  · rintro ⟨slot, below, found⟩
    by_cases here : slot = (hash key + steps) % size
    · rw [here, update_self] at found
      cases found
      exact .inl ⟨rfl, rfl⟩
    · rw [update_of_ne here] at found
      refine .inr ⟨fun same => here ?_, slot, below, found⟩
      subst same
      obtain ⟨steps', ends', rfl⟩ := probed.reach slot other old below found
      rw [ends.unique ends']
  · rintro (⟨rfl, rfl⟩ | ⟨differs, slot, below, found⟩)
    · exact ⟨_, inside, update_self ..⟩
    · refine ⟨slot, below, ?_⟩
      rwa [update_of_ne]
      rintro rfl
      exact ends.here ⟨other, old, found, differs⟩

end Probing

section Counting

variable {size : Nat} {slots : Nat → Option (κ × β)} {slot : Nat} {entry : κ × β}

def usedSlots (size : Nat) (slots : Nat → Option (κ × β)) : Finset Nat :=
  (Finset.range size).filter fun slot => (slots slot).isSome

theorem mem_usedSlots : slot ∈ usedSlots size slots ↔ slot < size ∧ (slots slot).isSome := by
  rw [usedSlots, Finset.mem_filter, Finset.mem_range]

theorem usedSlots_none : usedSlots size (fun _ => none : Nat → Option (κ × β)) = ∅ :=
  Finset.eq_empty_of_forall_notMem fun _ member => nomatch (mem_usedSlots.mp member).2

theorem card_usedSlots_update (inside : slot < size) :
    (usedSlots size (update slots slot (some entry))).card =
      if (slots slot).isSome then (usedSlots size slots).card else (usedSlots size slots).card + 1 := by
  have members : usedSlots size (update slots slot (some entry)) = insert slot (usedSlots size slots) := by
    ext other
    by_cases here : other = slot
    · simp [usedSlots, here, inside]
    · simp [usedSlots, here]
  rw [members]
  split
  · next used => rw [Finset.insert_eq_of_mem (mem_usedSlots.mpr ⟨inside, used⟩)]
  · next unused => rw [Finset.card_insert_of_notMem fun member => unused (mem_usedSlots.mp member).2]

theorem exists_unused (less : (usedSlots size slots).card < size) : ∃ slot < size, slots slot = none := by
  by_contra full
  push Not at full
  have all : usedSlots size slots = Finset.range size :=
    Finset.filter_true_of_mem fun slot member => Option.isSome_iff_ne_none.mpr (full slot (Finset.mem_range.mp member))
  rw [all, Finset.card_range] at less
  exact Nat.lt_irrefl _ less

end Counting

end Mana.Lib
