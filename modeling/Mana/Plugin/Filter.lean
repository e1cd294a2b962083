import Mana.Lib.Partition
import Mana.Lib.Ranges

/-! Which memory a checkpoint saves: DMTCP asks about an area again and again, each time from where the
last answer ended. -/

namespace Mana.Plugin

open Lib Option

/-- The memory of the upper half: the list of the lower half's `mmap` wrapper, and the stack. -/
structure UpperHalf where
  regions : List Block
  stackStart : Nat
  stackEnd : Nat
  deriving DecidableEq, Repr

structure Area where
  addr : Nat
  endAddr : Nat
  deriving DecidableEq, Repr

structure Verdict where
  skip : Bool
  uncheckedAddr : Nat
  deriving DecidableEq, Repr

namespace UpperHalf

def nextUpperHalfRange (uh : UpperHalf) (addr : Nat) : Option (Nat × Nat) :=
  let region := uh.regions[partitionPoint (fun r => decide (r.stop ≤ addr)) uh.regions]?
  let found := region.map fun r => (r.addr, r.stop)
  if addr < uh.stackEnd ∧ found.all (fun range => uh.stackStart < range.1) then some (uh.stackStart, uh.stackEnd) else found

/-- `dmtcp_skip_memory_region_ckpting`; the next definition of it may skip some of what is to be saved. -/
def skipMemoryRegionCkpting (next : Option (Area → Verdict)) (uh : UpperHalf) (area : Area) : Verdict :=
  match uh.nextUpperHalfRange area.addr with
  | none => ⟨true, area.endAddr⟩
  | some (start, stop) =>
    if area.endAddr ≤ start then ⟨true, area.endAddr⟩
    else if area.addr < start then ⟨true, start⟩
    else
      match next with
      | none => ⟨false, min stop area.endAddr⟩
      | some next => next ⟨area.addr, min stop area.endAddr⟩

def scan (uh : UpperHalf) : Nat → Area → Option (List (Area × Verdict))
  | 0, area => if area.addr = area.endAddr then some [] else none
  | fuel + 1, area =>
    if area.addr = area.endAddr then some []
    else
      let verdict := uh.skipMemoryRegionCkpting none area
      (uh.scan fuel ⟨verdict.uncheckedAddr, area.endAddr⟩).map ((area, verdict) :: ·)

def saved (calls : List (Area × Verdict)) : Set Nat :=
  { x | ∃ call ∈ calls, call.2.skip = false ∧ call.1.addr ≤ x ∧ x < call.2.uncheckedAddr }

def memory (uh : UpperHalf) : Set Nat := union uh.regions ∪ Set.Ico uh.stackStart uh.stackEnd

/-- The list is sorted, and its ranges are disjoint and not empty. -/
structure Sorted (uh : UpperHalf) : Prop where
  positive : ∀ r ∈ uh.regions, 0 < r.len
  disjoint : uh.regions.Pairwise fun r r' => r.stop ≤ r'.addr

variable {uh : UpperHalf} {area : Area} {addr start stop : Nat}

theorem Sorted.partition (sorted : uh.Sorted) (addr : Nat) :
    uh.regions.Pairwise fun r r' => decide (r'.stop ≤ addr) = true → decide (r.stop ≤ addr) = true := by
  refine sorted.disjoint.imp fun {r r'} before behind => ?_
  simp only [decide_eq_true_eq] at behind ⊢
  simp only [Block.stop] at *
  omega

theorem Sorted.addr_lt {r : Block} (sorted : uh.Sorted) (member : r ∈ uh.regions) : r.addr < r.stop :=
  Nat.lt_add_of_pos_right (sorted.positive r member)

theorem Sorted.find (sorted : uh.Sorted) (addr : Nat) :
    uh.regions[partitionPoint (fun r => decide (r.stop ≤ addr)) uh.regions]? =
      uh.regions.find? fun r => !decide (r.stop ≤ addr) :=
  getElem?_partitionPoint (sorted.partition addr)

theorem Sorted.first {r : Block} (sorted : uh.Sorted)
    (found : uh.regions.find? (fun r => !decide (r.stop ≤ addr)) = some r) :
    r ∈ uh.regions ∧ addr < r.stop ∧ ∀ r' ∈ uh.regions, addr < r'.stop → r.addr ≤ r'.addr := by
  obtain ⟨above, before, after, split, earlier⟩ := List.find?_eq_some_iff_append.mp found
  have member : r ∈ uh.regions := split ▸ List.mem_append_right _ (List.mem_cons_self ..)
  refine ⟨member, by simpa using above, fun r' member' above' => ?_⟩
  rw [split] at member'
  obtain old | same | later := List.mem_append.mp member' |>.imp_right List.mem_cons.mp
  · have behind := earlier r' old
    simp only [Bool.not_not, decide_eq_true_eq] at behind
    omega
  · exact same ▸ Nat.le_refl _
  · have disjoint := sorted.disjoint
    rw [split] at disjoint
    have apart := (List.pairwise_cons.mp (List.pairwise_append.mp disjoint).2.1).1 r' later
    exact Nat.le_of_lt (Nat.lt_of_lt_of_le (sorted.addr_lt member) apart)

/-- The next range of the upper half: it ends above the address, all of it is the upper half's, and the upper
half has nothing between the address and its start. -/
theorem Sorted.next (sorted : uh.Sorted) (found : uh.nextUpperHalfRange addr = some (start, stop)) :
    addr < stop ∧ Set.Ico start stop ⊆ uh.memory ∧ ∀ x ∈ uh.memory, addr ≤ x → start ≤ x := by
  rw [nextUpperHalfRange, sorted.find addr] at found
  cases region : uh.regions.find? fun r => !decide (r.stop ≤ addr) with
  | none =>
    rw [region] at found
    simp only [map_none, all_none, and_true, ite_none_right_eq_some] at found
    obtain ⟨above, ⟨⟩⟩ := found
    refine ⟨above, Set.subset_union_right, fun x inside le => ?_⟩
    obtain ⟨r, member, cell⟩ | stack := inside
    · have behind := List.find?_eq_none.mp region r member
      simp only [Bool.not_eq_true', decide_eq_false_iff_not, not_not] at behind
      have := (Block.mem_cells.mp cell).2
      omega
    · exact stack.1
  | some r =>
    obtain ⟨member, above, first⟩ := sorted.first region
    have inRegion : ∀ x ∈ union uh.regions, addr ≤ x → r.addr ≤ x := by
      rintro x ⟨r', member', cell⟩ le
      obtain ⟨from', before⟩ := Block.mem_cells.mp cell
      exact (first r' member' (Nat.lt_of_le_of_lt le before)).trans from'
    rw [region] at found
    simp only [map_some, all_some, decide_eq_true_eq] at found
    split at found
    · next stack =>
      cases found
      refine ⟨stack.1, Set.subset_union_right, fun x inside le => ?_⟩
      obtain region | stacked := inside
      · exact (Nat.le_of_lt stack.2).trans (inRegion x region le)
      · exact stacked.1
    · next noStack =>
      cases found
      refine ⟨above, fun x cell => .inl ⟨r, member, cell⟩, fun x inside le => ?_⟩
      obtain region | stacked := inside
      · exact inRegion x region le
      · have : x < uh.stackEnd := stacked.2
        have : uh.stackStart ≤ x := stacked.1
        omega

theorem Sorted.next_none (sorted : uh.Sorted) (found : uh.nextUpperHalfRange addr = none) :
    ∀ x ∈ uh.memory, x < addr := by
  rw [nextUpperHalfRange, sorted.find addr] at found
  split at found
  · cases found
  · next noStack =>
    have region := map_eq_none_iff.mp found
    rw [region, map_none, all_none] at noStack
    rintro x (⟨r, member, cell⟩ | stacked)
    · have behind := List.find?_eq_none.mp region r member
      simp only [Bool.not_eq_true', decide_eq_false_iff_not, not_not] at behind
      exact Nat.lt_of_lt_of_le (Block.mem_cells.mp cell).2 behind
    · have : x < uh.stackEnd := stacked.2
      simp only [and_true] at noStack
      omega

/-- One call: it advances inside the area, and decides rightly about every byte up to where it stops. -/
theorem Sorted.call (sorted : uh.Sorted) (nonEmpty : area.addr < area.endAddr) :
    area.addr < (uh.skipMemoryRegionCkpting none area).uncheckedAddr ∧
      (uh.skipMemoryRegionCkpting none area).uncheckedAddr ≤ area.endAddr ∧
      ∀ x, area.addr ≤ x → x < (uh.skipMemoryRegionCkpting none area).uncheckedAddr →
        ((uh.skipMemoryRegionCkpting none area).skip = false ↔ x ∈ uh.memory) := by
  rw [skipMemoryRegionCkpting]
  cases found : uh.nextUpperHalfRange area.addr with
  | none =>
    refine ⟨nonEmpty, Nat.le_refl _, fun x from' _ => iff_of_false nofun fun inside => ?_⟩
    exact Nat.not_lt_of_le from' (sorted.next_none found x inside)
  | some range =>
    obtain ⟨start, stop⟩ := range
    obtain ⟨above, owned, first⟩ := sorted.next found
    dsimp only
    split
    · next beyond =>
      refine ⟨nonEmpty, Nat.le_refl _, fun x from' before => iff_of_false nofun fun inside => ?_⟩
      have := first x inside from'
      dsimp only at before
      omega
    · split
      · next inside later =>
        refine ⟨later, Nat.le_of_not_le inside, fun x from' before => iff_of_false nofun fun inside => ?_⟩
        exact Nat.not_lt_of_le (first x inside from') before
      · next inside reached =>
        refine ⟨lt_min above nonEmpty, min_le_right .., fun x from' before => iff_of_true rfl (owned ?_)⟩
        exact ⟨(Nat.le_of_not_lt reached).trans from', Nat.lt_of_lt_of_le before (min_le_left ..)⟩

theorem saved_nil : saved [] = ∅ := Set.eq_empty_of_forall_notMem fun _ ⟨_, member, _⟩ => nomatch member

theorem mem_saved_cons {call : Area × Verdict} {calls : List (Area × Verdict)} {x : Nat} :
    x ∈ saved (call :: calls) ↔
      (call.2.skip = false ∧ call.1.addr ≤ x ∧ x < call.2.uncheckedAddr) ∨ x ∈ saved calls := by
  change (∃ c ∈ call :: calls, _) ↔ _ ∨ (∃ c ∈ calls, _)
  simp only [List.mem_cons, exists_eq_or_imp]

theorem Sorted.saved_cons (sorted : uh.Sorted) (nonEmpty : area.addr < area.endAddr) {calls : List (Area × Verdict)}
    (rest : saved calls =
      uh.memory ∩ Set.Ico (uh.skipMemoryRegionCkpting none area).uncheckedAddr area.endAddr) :
    saved ((area, uh.skipMemoryRegionCkpting none area) :: calls) = uh.memory ∩ Set.Ico area.addr area.endAddr := by
  obtain ⟨advances, within, decides⟩ := sorted.call nonEmpty
  ext x
  rw [mem_saved_cons, rest, Set.mem_inter_iff, Set.mem_inter_iff, Set.mem_Ico, Set.mem_Ico]
  constructor
  · rintro (⟨kept, from', before⟩ | ⟨owned, behind, before⟩)
    · exact ⟨(decides x from' before).mp kept, from', Nat.lt_of_lt_of_le before within⟩
    · exact ⟨owned, Nat.le_of_lt (Nat.lt_of_lt_of_le advances behind), before⟩
  · rintro ⟨owned, from', before⟩
    by_cases now : x < (uh.skipMemoryRegionCkpting none area).uncheckedAddr
    · exact .inl ⟨(decides x from' now).mpr owned, from', now⟩
    · exact .inr ⟨owned, Nat.le_of_not_lt now, before⟩

/-- The calls end with the area, and save what the upper half has of it. -/
theorem Sorted.scan (sorted : uh.Sorted) {fuel : Nat} (inside : area.addr ≤ area.endAddr)
    (enough : area.endAddr - area.addr ≤ fuel) :
    ∃ calls, uh.scan fuel area = some calls ∧ saved calls = uh.memory ∩ Set.Ico area.addr area.endAddr := by
  induction fuel generalizing area with
  | zero =>
    have same : area.addr = area.endAddr := by omega
    refine ⟨[], if_pos same, ?_⟩
    rw [same, Set.Ico_self, Set.inter_empty, saved_nil]
  | succ fuel ih =>
    by_cases same : area.addr = area.endAddr
    · refine ⟨[], if_pos same, ?_⟩
      rw [same, Set.Ico_self, Set.inter_empty, saved_nil]
    · have nonEmpty := Nat.lt_of_le_of_ne inside same
      obtain ⟨advances, within, -⟩ := sorted.call nonEmpty
      have shorter : area.endAddr - (uh.skipMemoryRegionCkpting none area).uncheckedAddr ≤ fuel := by omega
      obtain ⟨calls, ran, rest⟩ := @ih ⟨(uh.skipMemoryRegionCkpting none area).uncheckedAddr, area.endAddr⟩ within shorter
      refine ⟨_, ?_, sorted.saved_cons nonEmpty rest⟩
      rw [UpperHalf.scan, if_neg same]
      exact congrArg (Option.map _) ran

end UpperHalf

/-- From every address of an area a call advances, by at least a byte and not past the end; so the calls come to the
end of the area, and the bytes that they report as saved are those that the upper half has of it. -/
theorem checkpoint_saves_exactly_upper_half (uh : UpperHalf) (sorted : uh.Sorted) (area : Area)
    (nonEmpty : area.addr < area.endAddr) :
    (∀ addr, area.addr ≤ addr → addr < area.endAddr →
      addr < (uh.skipMemoryRegionCkpting none ⟨addr, area.endAddr⟩).uncheckedAddr ∧
        (uh.skipMemoryRegionCkpting none ⟨addr, area.endAddr⟩).uncheckedAddr ≤ area.endAddr) ∧
      ∃ calls, uh.scan (area.endAddr - area.addr) area = some calls ∧
        UpperHalf.saved calls = uh.memory ∩ Set.Ico area.addr area.endAddr := by
  refine ⟨fun addr _ before => ?_, sorted.scan (Nat.le_of_lt nonEmpty) (Nat.le_refl _)⟩
  obtain ⟨advances, within, -⟩ := sorted.call (show (⟨addr, area.endAddr⟩ : Area).addr < area.endAddr from before)
  exact ⟨advances, within⟩

/-- Two ranges and a stack that overlaps the second, in an area that has all of them. -/
theorem checkpoint_saves_exactly_upper_half_stack_overlap :
    let uh : UpperHalf := ⟨[⟨4096, 4096⟩, ⟨16384, 8192⟩], 12288, 20480⟩
    uh.Sorted ∧ ∃ calls, uh.scan 32768 ⟨0, 32768⟩ = some calls ∧
      UpperHalf.saved calls = uh.memory ∩ Set.Ico 0 32768 := by
  have sorted : UpperHalf.Sorted ⟨[⟨4096, 4096⟩, ⟨16384, 8192⟩], 12288, 20480⟩ := ⟨by decide, by decide⟩
  exact ⟨sorted, (checkpoint_saves_exactly_upper_half _ sorted ⟨0, 32768⟩ (by decide)).2⟩

example : UpperHalf.scan ⟨[⟨4096, 4096⟩, ⟨16384, 8192⟩], 12288, 20480⟩ 6 ⟨0, 32768⟩ =
    some [(⟨0, 32768⟩, ⟨true, 4096⟩), (⟨4096, 32768⟩, ⟨false, 8192⟩), (⟨8192, 32768⟩, ⟨true, 12288⟩),
      (⟨12288, 32768⟩, ⟨false, 20480⟩), (⟨20480, 32768⟩, ⟨false, 24576⟩), (⟨24576, 32768⟩, ⟨true, 32768⟩)] := by
  decide

end Mana.Plugin
