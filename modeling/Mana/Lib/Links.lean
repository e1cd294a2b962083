import Mathlib.Data.List.Nodup
import Mathlib.Tactic.Common

/-! Doubly linked lists threaded through cells, with a head and a tail: appending a cell and unlinking one. -/

namespace Mana.Lib

universe u

variable {κ : Type u}

structure Links (κ : Type u) where
  prev : κ → Option κ
  next : κ → Option κ
  head : Option κ
  tail : Option κ

/-- The links are those of a list of cells, each of them once. -/
structure Linked (l : Links κ) (cells : List κ) : Prop where
  nodup : cells.Nodup
  head : l.head = cells[0]?
  tail : l.tail = cells[cells.length - 1]?
  next : ∀ (i : Nat) (cell : κ), cells[i]? = some cell → l.next cell = cells[i + 1]?
  prev : ∀ (i : Nat) (cell : κ), cells[i]? = some cell → l.prev cell = if i = 0 then none else cells[i - 1]?

def Links.empty : Links κ := ⟨fun _ => none, fun _ => none, none, none⟩

theorem Linked.empty : Linked (Links.empty : Links κ) [] :=
  ⟨List.nodup_nil, rfl, rfl, fun _ _ found => (nomatch found), fun _ _ found => (nomatch found)⟩

def Links.walk (l : Links κ) : Nat → Option κ → Option (List κ)
  | _, none => some []
  | 0, some _ => none
  | fuel + 1, some cell => (l.walk fuel (l.next cell)).map (cell :: ·)

theorem Linked.walk {l : Links κ} {cells : List κ} (linked : Linked l cells) {fuel : Nat}
    (enough : cells.length ≤ fuel) : l.walk fuel l.head = some cells := by
  -- From any index on, the walk visits the rest.
  have suffix (rest i fuel : Nat) (isRest : i + rest = cells.length) (enough : rest ≤ fuel) :
      l.walk fuel cells[i]? = some (cells.drop i) := by
    induction rest generalizing i fuel with
    | zero =>
      rw [List.getElem?_eq_none (by omega), List.drop_eq_nil_of_le (by omega), Links.walk]
    | succ rest ih =>
      obtain ⟨fuel, rfl⟩ : ∃ before, fuel = before + 1 := ⟨fuel - 1, by omega⟩
      have inside : i < cells.length := by omega
      have found : cells[i]? = some cells[i] := List.getElem?_eq_getElem inside
      rw [found, Links.walk, linked.next i _ found, ih (i + 1) fuel (by omega) (by omega),
        List.drop_eq_getElem_cons inside, Option.map_some]
  rw [linked.head]
  exact suffix cells.length 0 fuel (Nat.zero_add _) enough

variable [DecidableEq κ]

def Links.append (l : Links κ) (cell : κ) : Links κ where
  prev other := if other = cell then l.tail else l.prev other
  next other := if l.tail = some other then some cell else if other = cell then none else l.next other
  head := if l.tail.isSome then l.head else some cell
  tail := some cell

def Links.unlink (l : Links κ) (cell : κ) : Links κ where
  prev other := if other = cell then none else if l.next cell = some other then l.prev cell else l.prev other
  next other := if other = cell then none else if l.prev cell = some other then l.next cell else l.next other
  head := if (l.prev cell).isSome then l.head else l.next cell
  tail := if (l.next cell).isSome then l.tail else l.prev cell

section Linked

variable {l : Links κ} {cells : List κ} {cell : κ}

omit [DecidableEq κ] in
theorem Linked.index_eq (linked : Linked l cells) {i j : Nat} (one : cells[i]? = some cell)
    (two : cells[j]? = some cell) : i = j :=
  (List.getElem?_inj (List.getElem?_eq_some_iff.mp one).1 linked.nodup).mp (one.trans two.symm)

theorem Linked.append (linked : Linked l cells) (fresh : cell ∉ cells) : Linked (l.append cell) (cells ++ [cell]) := by
  have apart {i : Nat} {other : κ} (found : cells[i]? = some other) : other ≠ cell := by
    rintro rfl
    exact fresh (List.mem_of_getElem? found)
  have below {i : Nat} (less : i < cells.length) : (cells ++ [cell])[i]? = cells[i]? := List.getElem?_append_left less
  have cases {i : Nat} {other : κ} (found : (cells ++ [cell])[i]? = some other) :
      i < cells.length ∧ cells[i]? = some other ∨ i = cells.length ∧ other = cell := by
    by_cases less : i < cells.length
    · exact .inl ⟨less, by rwa [below less] at found⟩
    · have bound := (List.getElem?_eq_some_iff.mp found).1
      rw [List.length_append, List.length_singleton] at bound
      obtain rfl : i = cells.length := by omega
      simp_all
  refine ⟨?_, ?_, by simp [Links.append], fun i other found => ?_, fun i other found => ?_⟩
  · exact List.nodup_append.mpr ⟨linked.nodup, List.nodup_singleton _, fun a member b single => by
      rw [List.mem_singleton.mp single]
      rintro rfl
      exact fresh member⟩
  · cases cells with
    | nil => simp [Links.append, linked.tail]
    | cons first rest => simp [Links.append, linked.tail, linked.head]
  · simp only [Links.append, linked.tail]
    rcases cases found with ⟨less, old⟩ | ⟨rfl, rfl⟩
    · by_cases final : cells[cells.length - 1]? = some other
      · obtain rfl := linked.index_eq final old
        rw [if_pos final, show cells.length - 1 + 1 = cells.length by omega]
        simp
      · have short : i + 1 < cells.length := by
          by_contra long
          rw [show cells.length - 1 = i by omega] at final
          exact final old
        rw [if_neg final, if_neg (apart old), linked.next i other old, below short]
    · rw [if_neg (fun final => apart final rfl), if_pos rfl]
      simp
  · simp only [Links.append, linked.tail]
    rcases cases found with ⟨less, old⟩ | ⟨rfl, rfl⟩
    · rw [if_neg (apart old), linked.prev i other old, below (by omega)]
    · rw [if_pos rfl]
      split
      · next empty => rw [List.getElem?_eq_none (by omega)]
      · rw [below (by omega)]

theorem Linked.unlink (linked : Linked l cells) {k : Nat} (found : cells[k]? = some cell) :
    Linked (l.unlink cell) (cells.eraseIdx k) := by
  have inside : k < cells.length := (List.getElem?_eq_some_iff.mp found).1
  have next := linked.next k cell found
  have prev := linked.prev k cell found
  have length : (cells.eraseIdx k).length = cells.length - 1 := List.length_eraseIdx_of_lt inside
  have apart {i : Nat} {other : κ} (isOther : cells[i]? = some other) (differs : i ≠ k) : other ≠ cell := by
    rintro rfl
    exact differs (linked.index_eq isOther found)
  -- What precedes the gap keeps its index, what follows it moves down by one.
  have low {i : Nat} (less : i < k) : (cells.eraseIdx k)[i]? = cells[i]? := List.getElem?_eraseIdx_of_lt less
  have high {i : Nat} (more : k ≤ i) : (cells.eraseIdx k)[i]? = cells[i + 1]? := List.getElem?_eraseIdx_of_ge more
  refine ⟨linked.nodup.eraseIdx k, ?_, ?_, fun i other isOther => ?_, fun i other isOther => ?_⟩
  · simp only [Links.unlink, prev, next, linked.head]
    rcases Nat.eq_zero_or_pos k with rfl | positive
    · simp
    · rw [if_neg (Nat.ne_of_gt positive), low positive, List.getElem?_eq_getElem (by omega : k - 1 < cells.length)]
      simp
  · simp only [Links.unlink, prev, next, linked.tail, length]
    by_cases final : k + 1 < cells.length
    · rw [List.getElem?_eq_getElem final, high (by omega), show cells.length - 1 - 1 + 1 = cells.length - 1 by omega]
      simp
    · rw [List.getElem?_eq_none (by omega : cells.length ≤ k + 1)]
      rcases Nat.eq_zero_or_pos k with rfl | positive
      · rw [high (Nat.zero_le _), List.getElem?_eq_none (by omega : cells.length ≤ cells.length - 1 - 1 + 1)]
        simp
      · rw [low (by omega), show cells.length - 1 - 1 = k - 1 by omega]
        simp [Nat.ne_of_gt positive]
  · simp only [Links.unlink, prev, next]
    by_cases less : i < k
    · rw [low less] at isOther
      rw [if_neg (apart isOther (by omega)), if_neg (by omega : k ≠ 0), linked.next i other isOther]
      by_cases before : i + 1 = k
      · rw [if_pos (by rwa [← before, Nat.add_sub_cancel]), before, high (Nat.le_refl k)]
      · rw [if_neg, low (by omega)]
        intro isBefore
        have same := linked.index_eq isOther isBefore
        omega
    · rw [high (by omega)] at isOther
      rw [if_neg (apart isOther (by omega)), linked.next _ other isOther, high (by omega), if_neg]
      split
      · exact nofun
      · intro isBefore
        have same := linked.index_eq isOther isBefore
        omega
  · simp only [Links.unlink, prev, next]
    by_cases less : i < k
    · rw [low less] at isOther
      rw [if_neg (apart isOther (by omega)), linked.prev i other isOther, low (by omega), if_neg]
      intro isAfter
      have same := linked.index_eq isOther isAfter
      omega
    · rw [high (by omega)] at isOther
      rw [if_neg (apart isOther (by omega)), linked.prev _ other isOther]
      by_cases here : i = k
      · subst here
        rw [if_pos isOther]
        split
        · rfl
        · rw [low (by omega)]
      · rw [if_neg, if_neg (by omega), if_neg (by omega), high (by omega), show i + 1 - 1 = i - 1 + 1 by omega]
        intro isAfter
        have same := linked.index_eq isOther isAfter
        omega

end Linked

end Mana.Lib
