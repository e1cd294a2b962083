import Mana.Lib.Machine
import Mana.VirtId.Constants
import Mana.VirtId.Shape

/-! Fortran handles. With C handles of 64 bits, the Fortran handle of a virtual handle is the virtual handle itself, and
that of a predefined constant is the MPI library's, which is found again at every restart. -/

namespace Mana.VirtId
open Mana.Lib Option

variable {δ : Type}

def fintOf (value : Nat) : Int := (value : Int).bmod (2 ^ 32)

def ofFint (fortran : Int) : Nat := (fortran % 2 ^ 32).toNat

structure Handles (δ : Type) where
  table : Table δ
  constants : Constants

namespace Handles

/-- No value: the search for the constant does not end. -/
def handleToFortran (s : Handles δ) (kind : Nat) (key : Handle) : Option Int :=
  if kind ≤ numKinds ∧ (s.table.lookupVirtIdEntry true key).isSome then some (fintOf key)
  else (s.constants.findConstant key).map fun c => c.elim (fintOf key) (·.fortran)

def fortranToHandle (s : Handles δ) (kind : Nat) (fortran : Int) : Handle :=
  if kind ≤ numKinds ∧ (s.table.lookupVirtIdEntry true (ofFint fortran)).isSome then ofFint fortran
  else (s.constants.fortran kind fortran).getD (fortran % 2 ^ 64).toNat

def initPredefinedVirtIds (s : Handles δ) (ps : List Predefined) : Option (Handles δ) :=
  (s.constants.initPredefined ps).map fun constants =>
    { table := { s.table with reserved := (ps.map (·.upper)).foldl (reserveConstantSlot true) s.table.reserved }
      constants }

end Handles

/-- The constants of one run of `init_predefined_virt_ids`, by kind and name. Two of one kind share a Fortran handle only
if they are the same, and no Fortran handle is in the range of the virtual handles. -/
structure Values (names : List (Nat × Handle)) where
  list : List Predefined
  named : list.map (fun p => (p.kind, p.upper)) = names
  apart : ∀ p ∈ list, ∀ q ∈ list, p.kind = q.kind → p.fortran = q.fortran → p.upper = q.upper
  outside : ∀ p ∈ list, kindInUse (kindOf (ofFint p.fortran)) = false

inductive HandleAct (δ : Type) (names : List (Nat × Handle)) where
  | add (kind : Kind) (real : Handle) (desc : Option δ)
  | free (handle : Handle)
  | restart (values : Values names)

def Handles.step {names : List (Nat × Handle)} (s : Handles δ) : HandleAct δ names → Option (Handles δ)
  | .add kind real desc => (s.table.addVirtId kind real desc).map fun (_, table) => { s with table }
  | .free handle => (s.table.freeVirtId true handle).map fun table => { s with table }
  | .restart values => s.initPredefinedVirtIds values.list

/-- `init_predefined_virt_ids` at `MPI_Init`, then handles come and go, and restarts find other values. -/
def handles (δ : Type) (names : List (Nat × Handle)) : Machine (Handles δ) (HandleAct δ names) where
  initial s := ∃ values : Values names, Handles.initPredefinedVirtIds ⟨.initial true [], .empty⟩ values.list = some s
  step := Handles.step

/-- A live virtual handle or a predefined constant of the kind. -/
def Handles.OfKind (s : Handles δ) (names : List (Nat × Handle)) (kind : Nat) (h : Handle) : Prop :=
  (∃ e, s.table.lookupVirtIdEntry true h = some e ∧ kindOf h = kind) ∨ (kind, h) ∈ names

/-- What holds in every state: the constants are those of the last run, and their slots are reserved. -/
structure Handles.Sound (s : Handles δ) (names : List (Nat × Handle)) : Prop where
  wellFormed : s.table.WellFormed
  reserved : s.table.reserved = (names.map (·.2)).foldl (reserveConstantSlot true) []
  filled : ∃ values : Values names, Constants.Filled values.list s.constants

section Sound

variable {names : List (Nat × Handle)} {s t : Handles δ}

theorem reserveConstantSlot_again {reserved : List Bool} {upper : Handle}
    (before : upper >>> 32 = 0 → kindInUse (kindOf upper) = true → slotIsReserved reserved (slotOf upper) = true) :
    reserveConstantSlot true reserved upper = reserved := by
  have value : handleValue true upper = upper := rfl
  rw [reserveConstantSlot, value]
  split
  · rfl
  · next inRange =>
    simp only [Bool.or_eq_true, bne_iff_ne, Bool.not_eq_true', not_or, ne_eq, Decidable.not_not,
      Bool.not_eq_false] at inRange
    have isTrue := before inRange.1 inRange.2
    rw [slotIsReserved] at isTrue
    obtain ⟨inside, value⟩ := List.getElem?_eq_some_iff.mp (getD_eq_iff.mp isTrue |>.resolve_right (by simp))
    rw [Nat.sub_eq_zero_of_le inside, List.replicate_zero, List.append_nil, ← value, List.set_getElem_self]

theorem reserve_again {uppers later : List Handle} (subset : later ⊆ uppers) :
    later.foldl (reserveConstantSlot true) (uppers.foldl (reserveConstantSlot true) []) =
      uppers.foldl (reserveConstantSlot true) [] := by
  induction later with
  | nil => rfl
  | cons upper later ih =>
    obtain ⟨member, subset⟩ := List.cons_subset.mp subset
    rw [List.foldl_cons, reserveConstantSlot_again, ih subset]
    intro high inUse
    rw [Nat.shiftRight_eq_div_pow] at high
    exact @reserved_of_constant true _ _ _ member (Nat.lt_of_div_eq_zero (by decide) high) inUse

theorem Values.uppers (values : Values names) : values.list.map (·.upper) = names.map (·.2) := by
  have mapped := congrArg (List.map (·.2)) values.named
  rwa [List.map_map] at mapped

theorem Handles.Sound.step {act : HandleAct δ names} (sound : s.Sound names) (taken : s.step act = some t) :
    t.Sound names := by
  cases act with
  | add kind real desc =>
    obtain ⟨⟨handle, table⟩, added, rfl⟩ := map_eq_some_iff.mp taken
    have adds := sound.wellFormed.addVirtId added
    exact ⟨adds.wellFormed, adds.reserved.trans sound.reserved, sound.filled⟩
  | free handle =>
    obtain ⟨table, freed, rfl⟩ := map_eq_some_iff.mp taken
    have frees := sound.wellFormed.freeVirtId freed
    exact ⟨frees.wellFormed, frees.reserved.trans sound.reserved, sound.filled⟩
  | restart values =>
    obtain ⟨constants, filled, rfl⟩ := map_eq_some_iff.mp taken
    obtain ⟨_, before⟩ := sound.filled
    have same : (values.list.map (·.upper)).foldl (reserveConstantSlot true) s.table.reserved = s.table.reserved := by
      rw [sound.reserved, values.uppers]
      exact reserve_again (List.Subset.refl _)
    refine ⟨?_, same.trans sound.reserved, values, before.sound.initPredefined filled⟩
    change ({ s.table with reserved := _ } : Table δ).WellFormed
    rw [same]
    exact sound.wellFormed

theorem handles_sound (reached : Reachable (handles δ names) s) : s.Sound names := by
  refine Reachable.invariant (Handles.Sound · names) (fun s first => ?_) (fun s act t _ sound taken => sound.step taken)
    reached
  obtain ⟨values, isInit⟩ := first
  obtain ⟨constants, filled, rfl⟩ := map_eq_some_iff.mp isInit
  refine ⟨?_, ?_, values, Constants.empty_sound.initPredefined filled⟩
  · exact Table.WellFormed.initial true (values.list.map (·.upper))
  · change (values.list.map (·.upper)).foldl _ [] = _
    rw [values.uppers]

end Sound

section RoundTrip

variable {names : List (Nat × Handle)} {s : Handles δ} {kind h : Nat}

theorem lookup_small {t : Table δ} {e : Entry δ} (found : t.lookupVirtIdEntry true h = some e) :
    kindInUse (kindOf h) = true ∧ h < 7 * 2 ^ 28 := by
  rw [Table.lookup_find] at found
  have inUse := (Table.find_eq_some.mp found).1
  have range : 1 ≤ kindOf h ∧ kindOf h ≤ 6 := kindInUse_iff.mp inUse
  rw [kindOf_eq] at range
  exact ⟨inUse, by omega⟩

theorem Handles.Sound.constant_not_virtual (sound : s.Sound names) (member : (kind, h) ∈ names) :
    s.table.lookupVirtIdEntry true h = none := by
  refine eq_none_iff_forall_ne_some.mpr fun e found => ?_
  obtain ⟨inUse, small⟩ := lookup_small found
  rw [Table.lookup_find] at found
  have free := sound.wellFormed.shape.find_not_reserved found
  rw [sound.reserved] at free
  have isUpper : h ∈ names.map (·.2) := List.mem_map.mpr ⟨(kind, h), member, rfl⟩
  have taken := @reserved_of_constant true [] _ h isUpper (show h < 2 ^ 32 by omega) inUse
  exact Bool.noConfusion (free.symm.trans taken)

theorem Handles.Sound.round_trip (sound : s.Sound names)
    (kinds : ∀ p ∈ names, ∀ q ∈ names, p.2 = q.2 → p.1 = q.1) (ofKind : s.OfKind names kind h) :
    (s.handleToFortran kind h).map (s.fortranToHandle kind) = some h := by
  obtain ⟨e, found, rfl⟩ | member := ofKind
  · obtain ⟨inUse, small⟩ := lookup_small found
    have fint : fintOf h = h := Int.bmod_eq_of_le (by omega) (by omega)
    have back : ofFint (h : Int) = h := by
      rw [ofFint]
      omega
    have virtual : kindOf h ≤ numKinds ∧ (s.table.lookupVirtIdEntry true h).isSome :=
      ⟨(kindInUse_iff.mp inUse).2, by rw [found]; rfl⟩
    rw [Handles.handleToFortran, if_pos virtual, map_some, fint, Handles.fortranToHandle, back, if_pos virtual]
  · obtain ⟨values, filled⟩ := sound.filled
    have notVirtual : ¬(kind ≤ numKinds ∧ (s.table.lookupVirtIdEntry true h).isSome) := by
      rw [sound.constant_not_virtual member]
      exact nofun
    have listed : (kind, h) ∈ values.list.map (fun p => (p.kind, p.upper)) := by rwa [values.named]
    obtain ⟨p, isMember, isName⟩ := List.mem_map.mp listed
    cases isName
    -- The entry of the constant is that of a constant of the same kind.
    obtain ⟨q, isConstant, upper, has⟩ := filled.has p isMember
    have sameKind : q.kind = p.kind := by
      refine kinds (q.kind, q.upper) ?_ (p.kind, p.upper) member upper
      rw [← values.named]
      exact List.mem_map_of_mem isConstant
    obtain ⟨r, isLast, kind', fortran', last⟩ := filled.fortran q isConstant
    have sameUpper : r.upper = p.upper := (values.apart r isLast q isConstant kind' fortran').trans upper
    have outside : ¬(p.kind ≤ numKinds ∧ (s.table.lookupVirtIdEntry true (ofFint q.fortran)).isSome) := by
      rintro ⟨-, isVirtual⟩
      obtain ⟨e, found⟩ := isSome_iff_exists.mp isVirtual
      exact Bool.noConfusion ((values.outside q isConstant).symm.trans (lookup_small found).1)
    rw [Handles.handleToFortran, if_neg notVirtual, filled.sound.findConstant_eq_some.mpr has]
    simp only [map_some, elim_some, Predefined.constant]
    rw [Handles.fortranToHandle, if_neg outside, ← sameKind, last, getD_some, sameUpper]

end RoundTrip

/-- In every state, the Fortran handle of a live virtual handle or predefined constant of a kind is converted back to it,
and no other one has that Fortran handle. -/
theorem fortran_handles_round_trip {names : List (Nat × Handle)}
    (kinds : ∀ p ∈ names, ∀ q ∈ names, p.2 = q.2 → p.1 = q.1) {s : Handles δ} (reached : Reachable (handles δ names) s)
    (kind : Nat) :
    (∀ h, s.OfKind names kind h → (s.handleToFortran kind h).map (s.fortranToHandle kind) = some h) ∧
      ∀ h h', s.OfKind names kind h → s.OfKind names kind h' → h ≠ h' →
        s.handleToFortran kind h ≠ s.handleToFortran kind h' := by
  have sound := handles_sound reached
  refine ⟨fun h => sound.round_trip kinds, fun h h' one two differs same => differs ?_⟩
  have back := sound.round_trip kinds one
  rw [same, sound.round_trip kinds two] at back
  exact (some.inj back).symm

def worldAndSelf : Values [(1, 2 ^ 40), (1, 2 ^ 40 + 16)] where
  list := [⟨1, 2 ^ 40, 2 ^ 41, 0⟩, ⟨1, 2 ^ 40 + 16, 2 ^ 41 + 16, 1⟩]
  named := rfl
  apart := by decide
  outside := by decide

def worldAndSelfSwapped : Values [(1, 2 ^ 40), (1, 2 ^ 40 + 16)] where
  list := [⟨1, 2 ^ 40, 2 ^ 42, 1⟩, ⟨1, 2 ^ 40 + 16, 2 ^ 42 + 16, 0⟩]
  named := rfl
  apart := by decide
  outside := by decide

/-- A virtual communicator is made, and the library of the restart has the two Fortran handles the other way round. -/
theorem fortran_handles_round_trip_world :
    ∃ s : Handles Unit, Reachable (handles Unit [(1, 2 ^ 40), (1, 2 ^ 40 + 16)]) s ∧
      (s.handleToFortran 1 (2 ^ 40) = some 1 ∧ s.handleToFortran 1 (2 ^ 40 + 16) = some 0) ∧
      (∀ h ∈ [2 ^ 40, 2 ^ 40 + 16, 0x10000000], (s.handleToFortran 1 h).map (s.fortranToHandle 1) = some h) ∧
      s.handleToFortran 1 (2 ^ 40) ≠ s.handleToFortran 1 0x10000000 := by
  have ran : ((Handles.initPredefinedVirtIds (⟨.initial true [], .empty⟩ : Handles Unit) worldAndSelf.list).bind fun s =>
      ((handles Unit _).run s [.add .comm 7 none, .restart worldAndSelfSwapped]).map fun s =>
        ((s.table.lookupVirtIdEntry true 0x10000000).isSome, s.handleToFortran 1 (2 ^ 40),
          s.handleToFortran 1 (2 ^ 40 + 16))) = some (true, some 1, some 0) := by
    decide +kernel
  obtain ⟨first, isInit, ran⟩ := bind_eq_some_iff.mp ran
  obtain ⟨s, ran, ends⟩ := map_eq_some_iff.mp ran
  simp only [Prod.mk.injEq] at ends
  obtain ⟨e, live⟩ := isSome_iff_exists.mp ends.1
  have start : (handles Unit [(1, 2 ^ 40), (1, 2 ^ 40 + 16)]).initial first := ⟨worldAndSelf, isInit⟩
  have reached := (Reachable.start start).run ran
  have ofKind : ∀ h ∈ [2 ^ 40, 2 ^ 40 + 16, 0x10000000], s.OfKind [(1, 2 ^ 40), (1, 2 ^ 40 + 16)] 1 h := by
    simp only [List.forall_mem_cons]
    exact ⟨.inr (by decide), .inr (by decide), .inl ⟨e, live, by decide⟩, List.forall_mem_nil _⟩
  obtain ⟨back, distinct⟩ := fortran_handles_round_trip (by decide) reached 1
  exact ⟨s, reached, ends.2, fun h member => back h (ofKind h member),
    distinct _ _ (ofKind _ (by decide)) (ofKind _ (by decide)) (by decide)⟩

end Mana.VirtId
