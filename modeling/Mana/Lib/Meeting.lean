import Mana.Lib.Machine
import Mathlib.Algebra.Order.BigOperators.Group.Finset
import Mathlib.Data.List.Pairwise
import Mathlib.Order.WellFounded

/-! Blocking calls that all members of a group make together. A call forms an object with a
group of parties, or uses the object that the party formed last. The calls that meet are found by
what they show, the parties or the object; the tags of the calls are not looked at.

If the calls of all parties come from one plan, each party's in the order of the tags, then no
party blocks forever and only calls with the same tag meet. -/

namespace Mana.Lib
open Option

universe u v w

variable {ι : Type u} {κ : Type v} {α : Type w}

inductive Call (ι : Type u) (α : Type w) where
  | form (parties : List ι)
  | use (arg : α)
  deriving DecidableEq

/-- The calls that each party has still to make, the object that it formed last, and the parties of
all objects. -/
structure Meeting (ι : Type u) (κ : Type v) (α : Type w) where
  todo : ι → List (κ × Call ι α)
  last : ι → Option Nat
  objects : List (List ι)

inductive Meet (ι : Type u) where
  | form (parties : List ι)
  | use (object : Nat)

def Call.isUse : Call ι α → Bool
  | .form _ => false
  | .use _ => true

namespace Meeting

variable (c : Meeting ι κ α)

def current (i : ι) : Option (Call ι α) := (c.todo i).head?.map (·.2)

def advance [DecidableEq ι] (parties : List ι) (i : ι) : List (κ × Call ι α) :=
  if i ∈ parties then (c.todo i).tail else c.todo i

def parties : Meet ι → List ι
  | .form parties => parties
  | .use object => (c.objects[object]?).getD []

def step [DecidableEq ι] [DecidableEq α] : Meet ι → Option (Meeting ι κ α)
  | .form parties =>
    if parties ≠ [] ∧ ∀ i ∈ parties, c.current i = some (.form parties) then
      some
        { todo := c.advance parties
          last := fun i => if i ∈ parties then some c.objects.length else c.last i
          objects := c.objects ++ [parties] }
    else none
  | .use object =>
    (c.objects[object]?).bind fun parties =>
      if parties ≠ [] ∧ ∀ i ∈ parties, c.last i = some object ∧ (c.current i).any Call.isUse = true then
        some { c with todo := c.advance parties }
      else none

def Finished : Prop := ∀ i, c.todo i = []

def remaining (among : Finset ι) : Nat := ∑ i ∈ among, (c.todo i).length

end Meeting

/-- The parties of the object of a tag, and the argument it is used with, if it is used. -/
structure Plan (ι : Type u) (κ : Type v) (α : Type w) where
  parties : κ → List ι
  arg : κ → Option α

namespace Plan

variable (plan : Plan ι κ α)

def uses (k : κ) : List (κ × Call ι α) := (plan.arg k).elim [] fun a => [(k, .use a)]

def calls (k : κ) : List (κ × Call ι α) := (k, .form (plan.parties k)) :: plan.uses k

theorem uses_of_arg {plan : Plan ι κ α} {k : κ} {a : α} (isArg : plan.arg k = some a) : plan.uses k = [(k, .use a)] := by
  simp only [Plan.uses, isArg, elim_some]

theorem calls_tag {plan : Plan ι κ α} {k : κ} {call : κ × Call ι α} (isCall : call ∈ plan.calls k) : call.1 = k := by
  rcases List.mem_cons.mp isCall with rfl | isUse
  · rfl
  · unfold uses at isUse
    cases isArg : plan.arg k with
    | none => simp [isArg] at isUse
    | some a => simp_all

/-- Among the calls for different tags, those for one tag are its own. -/
theorem filter_calls [DecidableEq κ] {k : κ} {ks : List κ} (nodup : ks.Nodup) (member : k ∈ ks) :
    (ks.flatMap plan.calls).filter (·.1 = k) = plan.calls k := by
  have others : ∀ ks : List κ, k ∉ ks → (ks.flatMap plan.calls).filter (·.1 = k) = [] := by
    intro ks absent
    refine List.filter_eq_nil_iff.mpr fun call isCall isTag => ?_
    obtain ⟨k', isOther, isCall⟩ := List.mem_flatMap.mp isCall
    exact absent (of_decide_eq_true isTag ▸ calls_tag isCall ▸ isOther)
  obtain ⟨before, after, rfl⟩ := List.append_of_mem member
  obtain ⟨-, afterNodup, apart⟩ := List.nodup_append.mp nodup
  have own : (plan.calls k).filter (·.1 = k) = plan.calls k :=
    List.filter_eq_self.mpr fun call isCall => decide_eq_true (calls_tag isCall)
  rw [List.flatMap_append, List.flatMap_cons, List.filter_append, List.filter_append, own,
    others before fun isBefore => apart k isBefore k List.mem_cons_self rfl,
    others after (List.nodup_cons.mp afterNodup).1, List.nil_append, List.append_nil]

end Plan

section InOrder

variable [LinearOrder κ]

/-- A meeting by a plan: each party has an object that it has yet to use, or none, and then goes on
with the tags in `rest`. -/
structure InOrder (plan : Plan ι κ α) (c : Meeting ι κ α) (opened : ι → Option κ) (rest : ι → List κ) : Prop where
  todo : ∀ i, c.todo i = (opened i).elim [] plan.uses ++ (rest i).flatMap plan.calls
  sorted : ∀ i, (rest i).Pairwise (· < ·)
  member : ∀ i, ∀ k ∈ rest i, i ∈ plan.parties k
  uniform : ∀ i, ∀ k ∈ rest i, ∀ j ∈ plan.parties k, k ∈ rest j
  shared : ∀ i k, opened i = some k → i ∈ plan.parties k ∧ (plan.arg k).isSome = true ∧
    ∃ object, c.objects[object]? = some (plan.parties k) ∧
      ∀ j ∈ plan.parties k, opened j = some k ∧ c.last j = some object
  apart : ∀ i j k k', opened i = some k → opened j = some k' → c.last i = c.last j → k = k'

variable {plan : Plan ι κ α} {c c' : Meeting ι κ α} {opened : ι → Option κ} {rest : ι → List κ}

theorem InOrder.initial {tags : ι → List κ} (sorted : ∀ i, (tags i).Pairwise (· < ·))
    (member : ∀ i, ∀ k ∈ tags i, i ∈ plan.parties k)
    (uniform : ∀ i, ∀ k ∈ tags i, ∀ j ∈ plan.parties k, k ∈ tags j) :
    InOrder plan ⟨fun i => (tags i).flatMap plan.calls, fun _ => none, []⟩ (fun _ => none) tags where
  todo := fun _ => rfl
  sorted := sorted
  member := member
  uniform := uniform
  shared := nofun
  apart := nofun

variable {i : ι} {k : κ} {parties : List ι} {m : Meet ι}

theorem InOrder.head_opened (inOrder : InOrder plan c opened rest) (isOpened : opened i = some k) :
    ∃ a, plan.arg k = some a ∧ c.todo i = (k, .use a) :: (rest i).flatMap plan.calls := by
  obtain ⟨-, hasArg, -⟩ := inOrder.shared i k isOpened
  obtain ⟨a, isArg⟩ := isSome_iff_exists.mp hasArg
  refine ⟨a, isArg, ?_⟩
  rw [inOrder.todo, isOpened, elim_some, Plan.uses_of_arg isArg]
  rfl

theorem InOrder.head_rest (inOrder : InOrder plan c opened rest) {ks : List κ} (notOpened : opened i = none)
    (isRest : rest i = k :: ks) :
    c.todo i = (k, .form (plan.parties k)) :: (plan.uses k ++ ks.flatMap plan.calls) := by
  rw [inOrder.todo, notOpened, isRest]
  rfl

theorem InOrder.of_form (inOrder : InOrder plan c opened rest) (blocked : c.current i = some (.form parties)) :
    opened i = none ∧ ∃ k ks, rest i = k :: ks ∧ parties = plan.parties k := by
  cases isOpened : opened i with
  | some k =>
    obtain ⟨a, -, isTodo⟩ := inOrder.head_opened isOpened
    rw [Meeting.current, isTodo] at blocked
    cases blocked
  | none =>
    refine ⟨rfl, ?_⟩
    cases isRest : rest i with
    | nil =>
      rw [Meeting.current, inOrder.todo, isOpened, isRest] at blocked
      cases blocked
    | cons k ks =>
      rw [Meeting.current, inOrder.head_rest isOpened isRest] at blocked
      cases blocked
      exact ⟨k, ks, rfl, rfl⟩

theorem InOrder.of_use (inOrder : InOrder plan c opened rest) (blocked : (c.current i).any Call.isUse = true) :
    ∃ k, opened i = some k := by
  cases isOpened : opened i with
  | some k => exact ⟨k, rfl⟩
  | none =>
    cases isRest : rest i with
    | nil =>
      rw [Meeting.current, inOrder.todo, isOpened, isRest] at blocked
      cases blocked
    | cons k ks =>
      rw [Meeting.current, inOrder.head_rest isOpened isRest] at blocked
      cases blocked

/-- All parties of `k` are about to form its object. -/
def FirstFor (plan : Plan ι κ α) (opened : ι → Option κ) (rest : ι → List κ) (k : κ) : Prop :=
  ∀ i ∈ plan.parties k, opened i = none ∧ ∃ ks, rest i = k :: ks

theorem InOrder.head_le (inOrder : InOrder plan c opened rest) {k' : κ} {ks : List κ} (isRest : rest i = k :: ks)
    (member : k' ∈ rest i) : k ≤ k' := by
  have sorted := inOrder.sorted i
  rw [isRest] at sorted member
  rcases List.mem_cons.mp member with same | later
  · exact le_of_eq same.symm
  · exact le_of_lt ((List.pairwise_cons.mp sorted).1 k' later)

/-- The calls that form an object with the same parties meet only if they have the same tag: the one with the
least tag is outstanding for all its parties, so that it comes first for all of them. -/
theorem InOrder.form_tag (inOrder : InOrder plan c opened rest) (notEmpty : parties ≠ [])
    (blocked : ∀ i ∈ parties, c.current i = some (.form parties)) :
    ∃ k, parties = plan.parties k ∧ FirstFor plan opened rest k := by
  obtain ⟨i₀, isParty₀⟩ := List.exists_mem_of_ne_nil parties notEmpty
  obtain ⟨notOpened₀, k₀, ks₀, isRest₀, isParties₀⟩ := inOrder.of_form (blocked i₀ isParty₀)
  refine ⟨k₀, isParties₀, fun i isParty => ?_⟩
  obtain ⟨notOpened, k, ks, isRest, isParties⟩ := inOrder.of_form (blocked i (isParties₀ ▸ isParty))
  refine ⟨notOpened, ks, ?_⟩
  have le := inOrder.head_le isRest (inOrder.uniform i₀ k₀ (isRest₀ ▸ List.mem_cons_self) i isParty)
  have ge := inOrder.head_le isRest₀ (inOrder.uniform i k (isRest ▸ List.mem_cons_self) i₀ (isParties ▸ isParty₀))
  rw [isRest, le_antisymm le ge]

/-- What meets: the same call for the same tag of the plan, by all its parties. -/
structure Together (plan : Plan ι κ α) (c : Meeting ι κ α) (m : Meet ι) (k : κ) (call : Call ι α) : Prop where
  parties : c.parties m = plan.parties k
  nonempty : plan.parties k ≠ []
  planned : call = .form (plan.parties k) ∨ ∃ a, plan.arg k = some a ∧ call = .use a
  blocked : ∀ i ∈ plan.parties k, (c.todo i).head? = some (k, call)

theorem InOrder.without_first (inOrder : InOrder plan c opened rest) {ks : List κ} (isRest : rest i = k :: ks) :
    (rest i).filter (· ≠ k) = ks := by
  have sorted := inOrder.sorted i
  rw [isRest] at sorted
  rw [isRest, List.filter_cons_of_neg (by simp)]
  exact List.filter_eq_self.mpr fun k' later => decide_eq_true (ne_of_gt ((List.pairwise_cons.mp sorted).1 k' later))

theorem InOrder.without_other (inOrder : InOrder plan c opened rest) (notParty : i ∉ plan.parties k) :
    (rest i).filter (· ≠ k) = rest i := by
  refine List.filter_eq_self.mpr fun k' member => decide_eq_true ?_
  rintro rfl
  exact notParty (inOrder.member i k' member)

theorem InOrder.last_ne_length (inOrder : InOrder plan c opened rest) (isOpened : opened i = some k) :
    some c.objects.length ≠ c.last i := by
  obtain ⟨isParty, -, object, isObject, all⟩ := inOrder.shared i k isOpened
  rw [(all i isParty).2]
  exact fun same => Nat.ne_of_gt (List.getElem?_eq_some_iff.mp isObject).1 (some.inj same)

variable [DecidableEq ι]

/-- What each party has yet to use, after the object of `k` was formed. -/
def Plan.formed (plan : Plan ι κ α) (opened : ι → Option κ) (k : κ) (i : ι) : Option κ :=
  if i ∈ plan.parties k then (plan.arg k).map fun _ => k else opened i

theorem InOrder.form_todo (inOrder : InOrder plan c opened rest) (first : FirstFor plan opened rest k) (i : ι) :
    c.advance (plan.parties k) i =
      (plan.formed opened k i).elim [] plan.uses ++ ((rest i).filter (· ≠ k)).flatMap plan.calls := by
  by_cases isParty : i ∈ plan.parties k
  · obtain ⟨notOpened, ks, isRest⟩ := first i isParty
    rw [Meeting.advance, Plan.formed, if_pos isParty, if_pos isParty, inOrder.head_rest notOpened isRest,
      inOrder.without_first isRest]
    cases isArg : plan.arg k with
    | none => simp only [Plan.uses, isArg, List.tail_cons, map_none, elim_none]
    | some a => simp only [List.tail_cons, map_some, elim_some]
  · rw [Meeting.advance, Plan.formed, if_neg isParty, if_neg isParty, inOrder.without_other isParty, inOrder.todo i]

theorem InOrder.form_shared (inOrder : InOrder plan c opened rest) (first : FirstFor plan opened rest k) {k' : κ}
    (isOpened : plan.formed opened k i = some k') : i ∈ plan.parties k' ∧ (plan.arg k').isSome = true ∧
      ∃ object, (c.objects ++ [plan.parties k])[object]? = some (plan.parties k') ∧ ∀ j ∈ plan.parties k',
        plan.formed opened k j = some k' ∧
          (if j ∈ plan.parties k then some c.objects.length else c.last j) = some object := by
  unfold Plan.formed at isOpened
  split at isOpened
  · next isParty =>
    obtain ⟨a, isArg, rfl⟩ := map_eq_some_iff.mp isOpened
    refine ⟨isParty, isArg ▸ rfl, c.objects.length, List.getElem?_concat_length, fun j isParty' => ?_⟩
    rw [Plan.formed, if_pos isParty', if_pos isParty', isArg]
    exact ⟨rfl, rfl⟩
  · next notParty =>
    obtain ⟨isParty', hasArg, object, isObject, all⟩ := inOrder.shared i k' isOpened
    refine ⟨isParty', hasArg, object, ?_, fun j isParty => ?_⟩
    · exact List.getElem?_append_left (List.getElem?_eq_some_iff.mp isObject).1 ▸ isObject
    · -- Only the parties of the new object had it in front of them.
      obtain ⟨isOpened', isLast⟩ := all j isParty
      have outside : j ∉ plan.parties k := fun isNew => nomatch (first j isNew).1.symm.trans isOpened'
      rw [Plan.formed, if_neg outside, if_neg outside]
      exact ⟨isOpened', isLast⟩

/-- The new object is the last one of its parties and of nobody else. -/
theorem InOrder.form_apart (inOrder : InOrder plan c opened rest) {j : ι} {k₁ k₂ : κ}
    (isOpened : plan.formed opened k i = some k₁) (isOpened' : plan.formed opened k j = some k₂)
    (sameLast : (if i ∈ plan.parties k then some c.objects.length else c.last i) =
      if j ∈ plan.parties k then some c.objects.length else c.last j) : k₁ = k₂ := by
  unfold Plan.formed at isOpened isOpened'
  split at isOpened <;> split at isOpened'
  · obtain ⟨-, -, rfl⟩ := map_eq_some_iff.mp isOpened
    obtain ⟨-, -, rfl⟩ := map_eq_some_iff.mp isOpened'
    rfl
  · next isParty notParty =>
    rw [if_pos isParty, if_neg notParty] at sameLast
    exact absurd sameLast (inOrder.last_ne_length isOpened')
  · next notParty isParty =>
    rw [if_neg notParty, if_pos isParty] at sameLast
    exact absurd sameLast.symm (inOrder.last_ne_length isOpened)
  · next notParty notParty' =>
    rw [if_neg notParty, if_neg notParty'] at sameLast
    exact inOrder.apart i j k₁ k₂ isOpened isOpened' sameLast

variable [DecidableEq α]

theorem InOrder.form (inOrder : InOrder plan c opened rest) (taken : c.step (.form parties) = some c') :
    ∃ k opened' rest', InOrder plan c' opened' rest' ∧ Together plan c (.form parties) k (.form (plan.parties k)) := by
  obtain ⟨⟨notEmpty, blocked⟩, taken⟩ := ite_none_right_eq_some.mp taken
  cases taken
  obtain ⟨k, rfl, first⟩ := inOrder.form_tag notEmpty blocked
  refine ⟨k, plan.formed opened k, fun i => (rest i).filter (· ≠ k), ?_, ?_⟩
  · exact
      { todo := inOrder.form_todo first
        sorted := fun i => (inOrder.sorted i).filter _
        member := fun i k' left => inOrder.member i k' (List.mem_filter.mp left).1
        uniform := fun i k' left j isParty =>
          List.mem_filter.mpr ((List.mem_filter.mp left).imp_left fun left => inOrder.uniform i k' left j isParty)
        shared := fun _ _ => inOrder.form_shared first
        apart := fun _ _ _ _ => inOrder.form_apart }
  · refine ⟨rfl, notEmpty, .inl rfl, fun i isParty => ?_⟩
    obtain ⟨notOpened, ks, isRest⟩ := first i isParty
    rw [inOrder.head_rest notOpened isRest]
    rfl

theorem InOrder.use (inOrder : InOrder plan c opened rest) {object : Nat} (taken : c.step (.use object) = some c') :
    ∃ k call opened' rest', InOrder plan c' opened' rest' ∧ Together plan c (.use object) k call := by
  obtain ⟨parties, isObject, taken⟩ := bind_eq_some_iff.mp taken
  obtain ⟨⟨notEmpty, blocked⟩, taken⟩ := ite_none_right_eq_some.mp taken
  cases taken
  obtain ⟨i₀, isParty₀⟩ := List.exists_mem_of_ne_nil parties notEmpty
  obtain ⟨isLast₀, isUse₀⟩ := blocked i₀ isParty₀
  obtain ⟨k, isOpened₀⟩ := inOrder.of_use isUse₀
  obtain ⟨isParty, hasArg, object', isObject', all⟩ := inOrder.shared i₀ k isOpened₀
  obtain rfl : object' = object := some.inj ((all i₀ isParty).2.symm.trans isLast₀)
  obtain rfl : plan.parties k = parties := mem_unique isObject' isObject
  obtain ⟨a, isArg⟩ := isSome_iff_exists.mp hasArg
  have openedOutside : ∀ i k', opened i = some k' → k' ≠ k → i ∉ plan.parties k := by
    intro i k' isOpened differs isParty
    exact differs (some.inj (isOpened.symm.trans (all i isParty).1))
  refine ⟨k, .use a, fun i => if i ∈ plan.parties k then none else opened i, rest, ?_, ?_⟩
  · refine ⟨?_, inOrder.sorted, inOrder.member, inOrder.uniform, ?_, ?_⟩
    · intro i
      by_cases isParty : i ∈ plan.parties k
      · obtain ⟨a', -, isTodo⟩ := inOrder.head_opened (all i isParty).1
        simp only [Meeting.advance, isParty, if_true, isTodo, List.tail_cons, elim_none, List.nil_append]
      · simp only [Meeting.advance, isParty, if_false, inOrder.todo i]
    · intro i k' isOpened
      obtain ⟨notParty, isOpened⟩ := ite_none_left_eq_some.mp isOpened
      obtain ⟨isParty', hasArg', object, isObject, all'⟩ := inOrder.shared i k' isOpened
      refine ⟨isParty', hasArg', object, isObject, fun j isParty => ?_⟩
      obtain ⟨isOpened', isLast⟩ := all' j isParty
      have differs : k' ≠ k := by
        rintro rfl
        exact notParty isParty'
      simp only [openedOutside j k' isOpened' differs, if_false]
      exact ⟨isOpened', isLast⟩
    · intro i j k₁ k₂ isOpened isOpened'
      exact inOrder.apart i j k₁ k₂ (ite_none_left_eq_some.mp isOpened).2
        (ite_none_left_eq_some.mp isOpened').2
  · refine ⟨?_, notEmpty, .inr ⟨a, isArg, rfl⟩, fun i isParty => ?_⟩
    · simp only [Meeting.parties, isObject, getD_some]
    · obtain ⟨a', isArg', isTodo⟩ := inOrder.head_opened (all i isParty).1
      obtain rfl := mem_unique isArg' isArg
      rw [isTodo]
      rfl

/-- Each meeting is one for a tag of the plan, and what is left is a meeting by the plan. -/
theorem InOrder.step (inOrder : InOrder plan c opened rest) (taken : c.step m = some c') :
    ∃ k call opened' rest', InOrder plan c' opened' rest' ∧ Together plan c m k call := by
  cases m with
  | form parties =>
    obtain ⟨k, opened', rest', after, together⟩ := inOrder.form taken
    exact ⟨k, _, opened', rest', after, together⟩
  | use object => exact inOrder.use taken

/-- While a call is left, some calls meet. -/
theorem InOrder.progress [WellFoundedLT κ] (inOrder : InOrder plan c opened rest) (left : ¬c.Finished) :
    ∃ m c', c.step m = some c' := by
  by_cases someOpened : ∃ i k, opened i = some k
  · obtain ⟨i, k, isOpened⟩ := someOpened
    obtain ⟨isParty, hasArg, object, isObject, all⟩ := inOrder.shared i k isOpened
    have ready : plan.parties k ≠ [] ∧ ∀ j ∈ plan.parties k, c.last j = some object ∧
        (c.current j).any Call.isUse = true := by
      refine ⟨List.ne_nil_of_mem isParty, fun j isParty' => ⟨(all j isParty').2, ?_⟩⟩
      obtain ⟨a, -, isTodo⟩ := inOrder.head_opened (all j isParty').1
      rw [Meeting.current, isTodo]
      rfl
    refine ⟨.use object, { c with todo := c.advance (plan.parties k) }, ?_⟩
    rw [Meeting.step, isObject, bind_some, if_pos ready]
  · have notOpened : ∀ i, opened i = none :=
      fun i => eq_none_iff_forall_ne_some.mpr fun k isOpened => someOpened ⟨i, k, isOpened⟩
    have nonempty : ({k | ∃ i, k ∈ rest i} : Set κ).Nonempty := by
      by_contra empty
      refine left fun i => ?_
      have none : rest i = [] := List.eq_nil_iff_forall_not_mem.mpr fun k member => empty ⟨k, i, member⟩
      rw [inOrder.todo, notOpened, none]
      rfl
    obtain ⟨k, ⟨i, member⟩, least⟩ := WellFounded.has_min wellFounded_lt _ nonempty
    have isParty := inOrder.member i k member
    -- The least tag comes first for all its parties.
    have heads : ∀ j ∈ plan.parties k, c.current j = some (.form (plan.parties k)) := by
      intro j isParty'
      have member' := inOrder.uniform i k member j isParty'
      cases isRest : rest j with
      | nil =>
        rw [isRest] at member'
        cases member'
      | cons k' ks =>
        obtain rfl : k' = k := le_antisymm (inOrder.head_le isRest member')
          (not_lt.mp (least k' ⟨j, isRest ▸ List.mem_cons_self⟩))
        rw [Meeting.current, inOrder.head_rest (notOpened j) isRest]
        rfl
    exact ⟨.form (plan.parties k), _, if_pos ⟨List.ne_nil_of_mem isParty, heads⟩⟩

omit [LinearOrder κ] in
theorem Together.remaining {call : Call ι α} (together : Together plan c m k call) (taken : c.step m = some c')
    {among : Finset ι} (within : ∀ i ∈ plan.parties k, i ∈ among) : c'.remaining among < c.remaining among := by
  have advanced : c'.todo = c.advance (plan.parties k) := by
    rw [← together.parties]
    cases m with
    | form parties =>
      obtain ⟨-, taken⟩ := ite_none_right_eq_some.mp taken
      cases taken
      rfl
    | use object =>
      obtain ⟨parties, isObject, taken⟩ := bind_eq_some_iff.mp taken
      obtain ⟨-, taken⟩ := ite_none_right_eq_some.mp taken
      cases taken
      simp only [Meeting.parties, isObject, getD_some]
  have shorter : ∀ i ∈ plan.parties k, (c'.todo i).length < (c.todo i).length := by
    intro i isParty
    have isHead := together.blocked i isParty
    rw [advanced, Meeting.advance, if_pos isParty]
    cases isTodo : c.todo i with
    | nil =>
      rw [isTodo] at isHead
      cases isHead
    | cons first others => exact Nat.lt_succ_self _
  refine Finset.sum_lt_sum (fun i _ => ?_) ?_
  · by_cases isParty : i ∈ plan.parties k
    · exact le_of_lt (shorter i isParty)
    · rw [advanced, Meeting.advance, if_neg isParty]
  · obtain ⟨i, isParty⟩ := List.exists_mem_of_ne_nil _ together.nonempty
    exact ⟨i, within i isParty, shorter i isParty⟩

end InOrder

end Mana.Lib
