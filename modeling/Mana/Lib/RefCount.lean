import Mathlib.Algebra.BigOperators.Group.Finset.Basic
import Mathlib.Algebra.Order.BigOperators.Group.Finset
import Mathlib.Logic.Relation

/-! Reference counting in a heap of nodes that are made from other nodes. A node is held by
its owners and by the nodes it is a part of; a release gives one reference back, and a node
without references is freed and releases its parts. -/

namespace Mana.Lib
open Option Function

universe u

structure Node (κ : Type u) where
  refs : Int
  parts : List κ

structure Heap (κ : Type u) where
  node : κ → Option (Node κ)
  live : Finset κ
  live_iff : ∀ k, k ∈ live ↔ (node k).isSome = true

namespace Heap

variable {κ : Type u} {h h' : Heap κ}

theorem eq_of_node (same : h.node = h'.node) : h = h' := by
  have live : h.live = h'.live := by
    ext k
    rw [h.live_iff, h'.live_iff, same]
  obtain ⟨node, live₁, iff₁⟩ := h
  obtain ⟨node', live₂, iff₂⟩ := h'
  cases same
  cases live
  rfl

variable [DecidableEq κ]

def put (h : Heap κ) (k : κ) (n : Node κ) : Heap κ where
  node := update h.node k (some n)
  live := insert k h.live
  live_iff j := by
    by_cases same : j = k
    · rw [same, update_self]
      exact iff_of_true (Finset.mem_insert_self k _) rfl
    · rw [update_of_ne same, Finset.mem_insert, or_iff_right same, h.live_iff]

def remove (h : Heap κ) (k : κ) : Heap κ where
  node := update h.node k none
  live := h.live.erase k
  live_iff j := by
    by_cases same : j = k
    · rw [same, update_self]
      exact iff_of_false (Finset.notMem_erase k _) nofun
    · rw [update_of_ne same, Finset.mem_erase, and_iff_right same, h.live_iff]

@[simp] theorem node_put_self (k : κ) (n : Node κ) : (h.put k n).node k = some n := update_self _ _ _

theorem node_put_other {j k : κ} (differs : j ≠ k) (n : Node κ) : (h.put k n).node j = h.node j :=
  update_of_ne differs _ _

theorem node_put_cases {j k : κ} {n m : Node κ} (isNode : (h.put k n).node j = some m) :
    j = k ∧ m = n ∨ j ≠ k ∧ h.node j = some m := by
  by_cases same : j = k
  · subst same
    exact .inl ⟨rfl, (Option.some.inj ((node_put_self j _).symm.trans isNode)).symm⟩
  · exact .inr ⟨same, (node_put_other same _).symm.trans isNode⟩

theorem isSome_put {j : κ} (k : κ) (n : Node κ) (isLive : (h.node j).isSome = true) :
    ((h.put k n).node j).isSome = true := by
  rw [← Heap.live_iff] at isLive ⊢
  exact Finset.mem_insert_of_mem isLive

@[simp] theorem node_remove_self (k : κ) : (h.remove k).node k = none := update_self _ _ _

theorem node_remove_other {j k : κ} (differs : j ≠ k) : (h.remove k).node j = h.node j :=
  update_of_ne differs _ _

def uses (h : Heap κ) (k : κ) : Nat := ∑ j ∈ h.live, (h.node j).elim 0 fun n => n.parts.count k

def occurrences (h : Heap κ) : Nat := ∑ j ∈ h.live, (h.node j).elim 0 fun n => n.parts.length

section Uses

variable {k : κ} {n m : Node κ}

theorem uses_le_occurrences (h : Heap κ) (k : κ) : h.uses k ≤ h.occurrences := by
  refine Finset.sum_le_sum fun j _ => ?_
  cases h.node j with
  | none => exact Nat.le_refl 0
  | some n => exact List.count_le_length

theorem uses_put_new (fresh : h.node k = none) (j : κ) : (h.put k n).uses j = h.uses j + n.parts.count j := by
  have notLive : k ∉ h.live := by
    rw [h.live_iff, fresh]
    exact nofun
  simp only [uses, put, Finset.sum_insert notLive, update_self, elim_some]
  rw [Nat.add_comm, Nat.add_right_cancel_iff]
  refine Finset.sum_congr rfl fun i member => ?_
  rw [update_of_ne]
  rintro rfl
  exact notLive member

theorem uses_remove (found : h.node k = some n) (j : κ) : h.uses j = (h.remove k).uses j + n.parts.count j := by
  have isLive : k ∈ h.live := by
    rw [h.live_iff, found]
    rfl
  simp only [uses, remove]
  rw [← Finset.sum_erase_add h.live _ isLive, found, elim_some, Nat.add_right_cancel_iff]
  refine Finset.sum_congr rfl fun i member => ?_
  rw [update_of_ne (Finset.ne_of_mem_erase member)]

theorem uses_put_same (found : h.node k = some m) (sameParts : n.parts = m.parts) (j : κ) :
    (h.put k n).uses j = h.uses j := by
  have isLive : k ∈ h.live := by
    rw [h.live_iff, found]
    rfl
  simp only [uses, put, Finset.insert_eq_of_mem isLive]
  refine Finset.sum_congr rfl fun i member => ?_
  by_cases same : i = k
  · rw [same, update_self, found, elim_some, elim_some, sameParts]
  · rw [update_of_ne same]

theorem count_le_uses {j : κ} (found : h.node j = some n) : n.parts.count k ≤ h.uses k := by
  rw [uses_remove found k]
  exact Nat.le_add_left _ _

theorem exists_of_uses_pos (used : 0 < h.uses k) : ∃ j n, h.node j = some n ∧ k ∈ n.parts := by
  obtain ⟨j, -, positive⟩ := Finset.exists_ne_zero_of_sum_ne_zero (Nat.pos_iff_ne_zero.mp used)
  cases found : h.node j with
  | none =>
    rw [found] at positive
    exact absurd rfl positive
  | some n =>
    rw [found] at positive
    exact ⟨j, n, found, List.count_pos_iff.mp (Nat.pos_of_ne_zero positive)⟩

end Uses

/-- The counts are exact, no node is left without a reference, and what a node is made from
is in the heap or was never counted. -/
structure Counted (external : κ → Prop) (owners : κ → Nat) (h : Heap κ) : Prop where
  exact : ∀ k n, h.node k = some n → n.refs = owners k + h.uses k
  positive : ∀ k n, h.node k = some n → 0 < n.refs
  parts : ∀ k n, h.node k = some n → ∀ p ∈ n.parts, external p ∨ (h.node p).isSome = true
  external : ∀ k, external k → h.node k = none

/-- The releases of a list of references, in order; the parts of a freed node come before the
rest of the list. -/
inductive Releases : Heap κ → List κ → Heap κ → Prop where
  | done {h : Heap κ} : Releases h [] h
  | missing {h h' : Heap κ} {k : κ} {rest : List κ} (absent : h.node k = none) (after : Releases h rest h') :
      Releases h (k :: rest) h'
  | drop {h h' : Heap κ} {k : κ} {rest : List κ} {n : Node κ} (found : h.node k = some n) (held : 0 < n.refs - 1)
      (after : Releases (h.put k { n with refs := n.refs - 1 }) rest h') : Releases h (k :: rest) h'
  | free {h h' : Heap κ} {k : κ} {rest : List κ} {n : Node κ} (found : h.node k = some n)
      (unheld : ¬0 < n.refs - 1) (after : Releases (h.remove k) (n.parts ++ rest) h') : Releases h (k :: rest) h'

theorem Releases.append {h₁ h₂ h₃ : Heap κ} {first second : List κ} (one : Releases h₁ first h₂)
    (two : Releases h₂ second h₃) : Releases h₁ (first ++ second) h₃ := by
  induction one with
  | done => exact two
  | missing absent _ ih => exact .missing absent (ih two)
  | drop found held _ ih => exact .drop found held (ih two)
  | free found unheld _ ih =>
    refine .free found unheld ?_
    have joined := ih two
    rw [List.append_assoc] at joined
    exact joined

section Release

variable {external : κ → Prop} {owners : κ → Nat}
variable {owners' : κ → Nat} {k : κ} {n : Node κ} {rest : List κ}

theorem Counted.congr (counted : h.Counted external owners)
    (same : ∀ k, (h.node k).isSome = true → owners' k = owners k) : h.Counted external owners' where
  exact := fun k n found => by rw [same k (found ▸ rfl)]; exact counted.exact k n found
  positive := counted.positive
  parts := counted.parts
  external := counted.external

theorem Counted.put_refs {refs : Int} (counted : h.Counted external owners) (found : h.node k = some n)
    (isRefs : refs = owners' k + h.uses k) (positive : 0 < refs) (others : ∀ j, j ≠ k → owners' j = owners j) :
    (h.put k { n with refs := refs }).Counted external owners' where
  exact := by
    intro j m isNode
    rw [uses_put_same (n := { n with refs := refs }) found rfl]
    rcases node_put_cases isNode with ⟨rfl, rfl⟩ | ⟨other, old⟩
    · exact isRefs
    · rw [others j other]
      exact counted.exact j m old
  positive := by
    intro j m isNode
    rcases node_put_cases isNode with ⟨rfl, rfl⟩ | ⟨-, old⟩
    · exact positive
    · exact counted.positive j m old
  parts := by
    intro j m isNode p isPart
    refine Or.imp_right (isSome_put k _) ?_
    rcases node_put_cases isNode with ⟨rfl, rfl⟩ | ⟨-, old⟩
    · exact counted.parts j n found p isPart
    · exact counted.parts j m old p isPart
  external := by
    intro j isExternal
    have absent := counted.external j isExternal
    have differs : j ≠ k := by
      rintro rfl
      exact nomatch absent.symm.trans found
    exact (node_put_other differs _).trans absent

theorem Counted.put_new (counted : h.Counted external fun j => owners j + n.parts.count j) (fresh : h.node k = none)
    (inside : ¬external k) (known : ∀ p ∈ n.parts, external p ∨ (h.node p).isSome = true) (isRefs : n.refs = owners' k)
    (positive : 0 < n.refs) (others : ∀ j, j ≠ k → owners' j = owners j) : (h.put k n).Counted external owners' := by
  have notKnown : ∀ p, (external p ∨ (h.node p).isSome = true) → p ≠ k := by
    rintro p isKnown rfl
    rcases isKnown with isExternal | isLive
    · exact inside isExternal
    · rw [fresh] at isLive
      exact nomatch isLive
  have unused : h.uses k = 0 := by
    by_contra used
    obtain ⟨j, m, found, isPart⟩ := exists_of_uses_pos (Nat.pos_of_ne_zero used)
    exact notKnown k (counted.parts j m found k isPart) rfl
  have notPart : n.parts.count k = 0 := by
    rw [List.count_eq_zero]
    exact fun isPart => notKnown k (known k isPart) rfl
  refine
    { exact := ?_
      positive := ?_
      parts := ?_
      external := ?_ }
  · intro j m isNode
    rw [uses_put_new fresh j]
    rcases node_put_cases isNode with ⟨rfl, rfl⟩ | ⟨other, old⟩
    · omega
    · have before := counted.exact j m old
      rw [others j other]
      omega
  · intro j m isNode
    rcases node_put_cases isNode with ⟨rfl, rfl⟩ | ⟨-, old⟩
    · exact positive
    · exact counted.positive j m old
  · intro j m isNode p isPart
    refine Or.imp_right (isSome_put k n) ?_
    rcases node_put_cases isNode with ⟨rfl, rfl⟩ | ⟨-, old⟩
    · exact known p isPart
    · exact counted.parts j m old p isPart
  · intro j isExternal
    have differs : j ≠ k := by
      rintro rfl
      exact inside isExternal
    exact (node_put_other differs _).trans (counted.external j isExternal)

theorem Counted.unused (counted : h.Counted external fun j => owners j + (k :: rest).count j)
    (found : h.node k = some n) (unheld : ¬0 < n.refs - 1) : owners k = 0 ∧ h.uses k = 0 ∧ rest.count k = 0 := by
  have isRefs := counted.exact k n found
  simp only [List.count_cons_self] at isRefs
  omega

theorem Counted.remove (counted : h.Counted external fun j => owners j + (k :: rest).count j)
    (found : h.node k = some n) (unheld : ¬0 < n.refs - 1) :
    (h.remove k).Counted external fun j => owners j + (n.parts ++ rest).count j := by
  obtain ⟨-, unused, -⟩ := counted.unused found unheld
  have old : ∀ j m, (h.remove k).node j = some m → j ≠ k ∧ h.node j = some m := by
    intro j m isNode
    have differs : j ≠ k := by
      rintro rfl
      exact nomatch (node_remove_self j).symm.trans isNode
    exact ⟨differs, (node_remove_other differs).symm.trans isNode⟩
  refine
    { exact := ?_
      positive := fun j m isNode => counted.positive j m (old j m isNode).2
      parts := ?_
      external := ?_ }
  · intro j m isNode
    obtain ⟨differs, before⟩ := old j m isNode
    rw [counted.exact j m before, uses_remove found j, List.count_append,
      List.count_cons_of_ne (Ne.symm differs)]
    omega
  · intro j m isNode p isPart
    obtain ⟨-, before⟩ := old j m isNode
    refine Or.imp_right (fun isLive => ?_) (counted.parts j m before p isPart)
    have differs : p ≠ k := by
      rintro rfl
      have counts := count_le_uses (k := p) before
      have positive := List.count_pos_iff.mpr isPart
      omega
    exact (congrArg Option.isSome (node_remove_other differs)).trans isLive
  · intro j isExternal
    by_cases same : j = k
    · rw [same]
      exact node_remove_self k
    · exact (node_remove_other same).trans (counted.external j isExternal)

theorem Counted.skip (counted : h.Counted external fun j => owners j + (k :: rest).count j) (absent : h.node k = none) :
    h.Counted external fun j => owners j + rest.count j := by
  refine counted.congr fun j isLive => ?_
  have differs : k ≠ j := by
    rintro rfl
    rw [absent] at isLive
    exact nomatch isLive
  rw [List.count_cons_of_ne differs]

theorem Counted.drop {k : κ} {n : Node κ} {rest : List κ}
    (counted : h.Counted external fun j => owners j + (k :: rest).count j) (found : h.node k = some n)
    (held : 0 < n.refs - 1) :
    (h.put k { n with refs := n.refs - 1 }).Counted external fun j => owners j + rest.count j := by
  refine counted.put_refs found ?_ held fun j differs => ?_
  · have isRefs := counted.exact k n found
    simp only [List.count_cons_self] at isRefs
    omega
  · rw [List.count_cons_of_ne (Ne.symm differs)]

/-- The references on the list are gone afterwards, the others are still counted, and what
has an owner is not freed. -/
theorem Counted.release {work : List κ} (counted : h.Counted external fun k => owners k + work.count k)
    (released : Releases h work h') : h'.Counted external owners ∧
      ∀ k, 0 < owners k → (h.node k).isSome = true → (h'.node k).isSome = true := by
  induction released with
  | done => exact ⟨counted, fun _ _ isLive => isLive⟩
  | missing absent _ ih => exact ih (counted.skip absent)
  | drop found held _ ih =>
    obtain ⟨after, kept⟩ := ih (counted.drop found held)
    refine ⟨after, fun k owned isLive => kept k owned ?_⟩
    rw [← Heap.live_iff] at isLive ⊢
    exact Finset.mem_insert_of_mem isLive
  | @free h h' j rest n found unheld _ ih =>
    obtain ⟨after, kept⟩ := ih (counted.remove found unheld)
    refine ⟨after, fun k owned isLive => kept k owned ?_⟩
    have differs : k ≠ j := by
      rintro rfl
      have noOwner := (counted.unused found unheld).1
      omega
    exact (congrArg Option.isSome (node_remove_other differs)).trans isLive

end Release

theorem Releases.parts {work : List κ} (released : Releases h work h') {k : κ} {n : Node κ}
    (found : h'.node k = some n) : ∃ m, h.node k = some m ∧ m.parts = n.parts := by
  induction released with
  | done => exact ⟨n, found, rfl⟩
  | missing _ _ ih => exact ih found
  | @drop h h' j rest m before held _ ih =>
    obtain ⟨m', isNode, same⟩ := ih found
    by_cases isJ : k = j
    · subst isJ
      cases (node_put_self k _).symm.trans isNode
      exact ⟨m, before, same⟩
    · exact ⟨m', (node_put_other isJ _).symm.trans isNode, same⟩
  | @free h h' j rest m before unheld _ ih =>
    obtain ⟨m', isNode, same⟩ := ih found
    by_cases isJ : k = j
    · subst isJ
      cases (node_remove_self k).symm.trans isNode
    · exact ⟨m', (node_remove_other isJ).symm.trans isNode, same⟩

omit [DecidableEq κ] in
def Reaches (h : Heap κ) : κ → κ → Prop :=
  Relation.ReflTransGen fun j k => ∃ n, h.node j = some n ∧ k ∈ n.parts

/-- Where parts are older than what is made from them, every node is held by an owner. -/
theorem Counted.owner {external : κ → Prop} {owners : κ → Nat} (counted : h.Counted external owners) (age : κ → Nat)
    (older : ∀ k n, h.node k = some n → ∀ p ∈ n.parts, (h.node p).isSome = true → age p < age k)
    {k : κ} (isLive : (h.node k).isSome = true) : ∃ j, 0 < owners j ∧ (h.node j).isSome = true ∧ h.Reaches j k := by
  -- By induction on how far the age of the node is below the largest one.
  have bounded : age k ≤ h.live.sup age := Finset.le_sup ((h.live_iff k).mpr isLive)
  induction below : h.live.sup age - age k using Nat.strong_induction_on generalizing k with
  | _ distance ih =>
    obtain ⟨n, found⟩ := isSome_iff_exists.mp isLive
    by_cases owned : 0 < owners k
    · exact ⟨k, owned, isLive, .refl⟩
    · have isRefs := counted.exact k n found
      have positive := counted.positive k n found
      obtain ⟨i, m, isNode, isPart⟩ := exists_of_uses_pos (h := h) (k := k) (by omega)
      have lower := older i m isNode k isPart isLive
      have iLive : (h.node i).isSome = true := isNode ▸ rfl
      have iBounded : age i ≤ h.live.sup age := Finset.le_sup ((h.live_iff i).mpr iLive)
      obtain ⟨j, owner, jLive, path⟩ := ih _ (by omega) iLive iBounded rfl
      exact ⟨j, owner, jLive, path.tail ⟨m, isNode, isPart⟩⟩

end Heap

end Mana.Lib
