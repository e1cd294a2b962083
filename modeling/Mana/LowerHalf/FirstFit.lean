import Mana.LowerHalf.Arena
import Mathlib.Data.Nat.Factorization.Basic
import Mathlib.Tactic.IntervalCases

/-! `next_free_addr`: the alignment that it takes from the hint, and the first fit in the free blocks. -/

namespace Mana.LowerHalf

open Lib Option

section Alignment

variable {hint a : Nat}

def roundUp64 (addr size : Nat) : Nat := (addr + size - 1) % 2 ^ 64 &&& (2 ^ 64 - size)

theorem roundUp64_eq {addr n : Nat} (small : addr + 2 ^ n - 1 < 2 ^ 64) : roundUp64 addr (2 ^ n) = roundUp addr (2 ^ n) := by
  have below : 2 ^ n - 1 < 2 ^ 64 := by omega
  have size : 2 ^ 64 - 2 ^ n = 2 ^ 64 - (2 ^ n - 1 + 1) := by rw [Nat.sub_add_cancel Nat.one_le_two_pow]
  rw [roundUp64, roundUp, Nat.mod_eq_of_lt small, size, ← Nat.shiftRight_eq_div_pow, ← Nat.shiftLeft_eq]
  apply Nat.eq_of_testBit_eq
  intro i
  rw [Nat.testBit_and, Nat.testBit_two_pow_sub_succ below, Nat.testBit_two_pow_sub_one, Nat.testBit_shiftLeft,
    Nat.testBit_shiftRight]
  by_cases low : i < n
  · simp [low]
  · rw [Nat.add_sub_cancel' (Nat.le_of_not_lt low)]
    by_cases high : i < 64
    · simp [low, high, Nat.le_of_not_lt low]
    · rw [Nat.testBit_lt_two_pow (small.trans_le (Nat.pow_le_pow_right (by decide) (Nat.le_of_not_lt high)))]
      simp

/-- `addr & -addr` is the largest power of two that divides the address. -/
theorem and_neg {k m : Nat} (small : 2 ^ k * (2 * m + 1) < 2 ^ 64) :
    2 ^ k * (2 * m + 1) &&& (2 ^ 64 - 2 ^ k * (2 * m + 1)) = 2 ^ k := by
  have low : 2 ^ k - 1 < 2 ^ k := Nat.sub_one_lt (Nat.two_pow_pos k).ne'
  have before : 2 ^ k * (2 * m + 1) = 2 ^ k * (2 * m) + (2 ^ k - 1) + 1 := by
    rw [Nat.mul_add, Nat.mul_one]
    omega
  have width : k < 64 := by
    by_contra large
    have := Nat.pow_le_pow_right (n := 2) (by decide) (Nat.le_of_not_lt large)
    omega
  apply Nat.eq_of_testBit_eq
  intro i
  -- Below bit `k` the address has no ones; above it, the negated address has none where the address has one.
  rw [Nat.testBit_and, Nat.testBit_two_pow_mul, before, Nat.testBit_two_pow_sub_succ (by omega),
    Nat.testBit_two_pow_mul_add _ low, Nat.testBit_two_pow]
  rcases Nat.lt_trichotomy i k with less | rfl | more
  · simp [less, Nat.ne_of_gt less]
  · simp [width]
  · obtain ⟨j, rfl⟩ := Nat.exists_eq_add_of_lt more
    rw [if_neg (by omega), show k + j + 1 - k = j + 1 by omega, Nat.testBit_succ, Nat.testBit_succ,
      show (2 * m + 1) / 2 = 2 * m / 2 by omega]
    cases (2 * m / 2).testBit j <;> simp [show ¬k = k + j + 1 by omega]

def Suits (hint a : Nat) : Prop :=
  pageSize ∣ a ∧ (hint ≠ 0 → ∀ k, 2 ^ k ∣ hint → ¬2 ^ (k + 1) ∣ hint → 2 ^ k ≤ 2 ^ 21 → 2 ^ k ∣ a)

theorem alignMask_succ {k m : Nat} (small : 2 ^ k * (2 * m + 1) < 2 ^ 64) :
    alignMask (2 ^ k * (2 * m + 1)) + 1 = 2 ^ (if 12 < k ∧ k ≤ 21 then k else 12) := by
  have nonNull : 2 ^ k * (2 * m + 1) ≠ 0 := Nat.mul_ne_zero (Nat.two_pow_pos k).ne' (Nat.succ_ne_zero _)
  have more : pageSize < 2 ^ k ↔ 12 < k := Nat.pow_lt_pow_iff_right (a := 2) (n := 12) (by decide)
  have most : 2 ^ k ≤ 2 ^ 21 ↔ k ≤ 21 := Nat.pow_le_pow_iff_right (by decide)
  rw [alignMask, and_neg small]
  simp only [more, most]
  split_ifs with one two three
  · obtain ⟨low, high⟩ := two
    interval_cases k <;> rfl
  · exact absurd one.2 two
  · exact absurd ⟨nonNull, three⟩ one
  · rfl

theorem suits_iff (small : hint < 2 ^ 64) : ∃ n ≤ 21, alignMask hint + 1 = 2 ^ n ∧ ∀ a, Suits hint a ↔ 2 ^ n ∣ a := by
  by_cases null : hint = 0
  · exact ⟨12, by decide, by rw [null]; rfl, fun a => ⟨And.left, fun page => ⟨page, fun given => absurd null given⟩⟩⟩
  obtain ⟨k, _, ⟨m, rfl⟩, rfl⟩ := Nat.exists_eq_two_pow_mul_odd null
  refine ⟨_, ?_, alignMask_succ small, fun a => ⟨fun ⟨page, like⟩ => ?_, fun aligned => ⟨?_, fun _ j divides least le => ?_⟩⟩⟩
  · split_ifs with wide
    exacts [wide.2, by decide]
  · split_ifs with wide
    · refine like null k (Nat.dvd_mul_right _ _) (fun more => ?_) (Nat.pow_le_pow_right (by decide) wide.2)
      have := Nat.dvd_of_mul_dvd_mul_left (Nat.two_pow_pos k) (Nat.pow_succ 2 k ▸ more)
      omega
    · exact page
  · refine Nat.dvd_trans (Nat.pow_dvd_pow 2 (m := 12) ?_) aligned
    split_ifs <;> omega
  · have exact' : j = k := by
      rcases Nat.lt_trichotomy j k with less | same | more
      · exact absurd ((Nat.pow_dvd_pow 2 less).trans (Nat.dvd_mul_right _ _)) least
      · exact same
      · have odd := (Nat.pow_dvd_pow 2 (Nat.succ_le_of_lt more)).trans divides
        have := Nat.dvd_of_mul_dvd_mul_left (Nat.two_pow_pos k) (Nat.pow_succ 2 k ▸ odd)
        omega
    have := (Nat.pow_le_pow_iff_right (by decide)).mp le
    refine Nat.dvd_trans (Nat.pow_dvd_pow 2 ?_) aligned
    split_ifs <;> omega

theorem le_roundUp_of_pos (addr : Nat) {size : Nat} (positive : 0 < size) : addr ≤ roundUp addr size := by
  have rest := Nat.mod_lt (addr + size - 1) positive
  have whole := Nat.div_add_mod' (addr + size - 1) size
  rw [roundUp]
  omega

theorem roundUp_le {addr size : Nat} (multiple : size ∣ a) (above : addr ≤ a) : roundUp addr size ≤ a := by
  obtain ⟨q, rfl⟩ := multiple
  rcases Nat.eq_zero_or_pos size with rfl | positive
  · simp [roundUp]
  · rw [roundUp, Nat.mul_comm size]
    refine Nat.mul_le_mul_right _ (Nat.lt_succ_iff.mp ((Nat.div_lt_iff_lt_mul positive).mpr ?_))
    rw [Nat.succ_mul, Nat.mul_comm]
    omega

end Alignment

section FirstFit

variable {free : List Block} {b : Block} {hint length a : Nat}

theorem nextFreeAddr_inside {ret : Nat} (found : nextFreeAddr free hint length = some ret) :
    ∃ b ∈ free, b.addr ≤ ret ∧ (Block.mk ret length).cells ⊆ b.cells := by
  obtain ⟨b, member, fits⟩ := List.exists_of_findSome?_eq_some found
  obtain ⟨room, ⟨⟩⟩ := ite_none_right_eq_some.mp fits
  have above : b.addr ≤ roundUp b.addr (alignMask hint + 1) := le_roundUp_of_pos _ (Nat.succ_pos _)
  refine ⟨b, member, above, fun x inside => ?_⟩
  simp only [Block.mem_cells, Block.stop] at inside ⊢
  omega

def Fits (hint length : Nat) (b : Block) (a : Nat) : Prop := Suits hint a ∧ b.addr ≤ a ∧ a + length ≤ b.stop

def nextFreePtr (free : List Block) (addr length : Nat) : Nat :=
  (free.findSome? fun b =>
    let aligned := roundUp64 b.addr (alignMask addr + 1)
    if (aligned + 2 ^ 64 - b.addr + length) % 2 ^ 64 ≤ b.len then some aligned else none).getD 0

structure Low (free : List Block) (hint length : Nat) : Prop where
  blocks : ∀ b ∈ free, b.addr < 2 ^ 47 ∧ b.len < 2 ^ 47
  hint : hint < 2 ^ 47
  length : length < 2 ^ 47

theorem findSome?_congr {f g : Block → Option Nat} (same : ∀ b ∈ free, f b = g b) :
    free.findSome? f = free.findSome? g := by
  induction free with
  | nil => rfl
  | cons b rest ih =>
    rw [List.findSome?_cons, List.findSome?_cons, same b List.mem_cons_self,
      ih fun c member => same c (List.mem_cons_of_mem _ member)]

theorem Low.nextFreePtr_eq (low : Low free hint length) :
    nextFreePtr free hint length = (nextFreeAddr free hint length).getD 0 := by
  rw [nextFreePtr, nextFreeAddr]
  refine congrArg (getD · 0) (findSome?_congr fun b member => ?_)
  obtain ⟨n, few, size, -⟩ := suits_iff (low.hint.trans (by decide))
  obtain ⟨addr, len⟩ := low.blocks b member
  have unit : 2 ^ n ≤ 2 ^ 21 := Nat.pow_le_pow_right (by decide) few
  have above := le_roundUp_of_pos b.addr (Nat.two_pow_pos n)
  have most : roundUp b.addr (2 ^ n) ≤ b.addr + 2 ^ n - 1 := Nat.div_mul_le_self _ _
  have bounded := low.length
  dsimp only
  rw [size, roundUp64_eq (by omega), show roundUp b.addr (2 ^ n) + 2 ^ 64 - b.addr + length =
    roundUp b.addr (2 ^ n) - b.addr + length + 2 ^ 64 by omega, Nat.add_mod_right, Nat.mod_eq_of_lt (by omega)]

theorem fits_roundUp (small : hint < 2 ^ 64) (room : roundUp b.addr (alignMask hint + 1) - b.addr + length ≤ b.len) :
    Fits hint length b (roundUp b.addr (alignMask hint + 1)) := by
  obtain ⟨n, -, size, suits⟩ := suits_iff small
  have above : b.addr ≤ roundUp b.addr (alignMask hint + 1) := le_roundUp_of_pos _ (Nat.succ_pos _)
  refine ⟨(suits _).mpr (size ▸ Nat.dvd_mul_left _ _), above, ?_⟩
  rw [Block.stop]
  omega

theorem Fits.roundUp_le (small : hint < 2 ^ 64) (fits : Fits hint length b a) :
    roundUp b.addr (alignMask hint + 1) ≤ a ∧ roundUp b.addr (alignMask hint + 1) - b.addr + length ≤ b.len := by
  obtain ⟨n, -, size, suits⟩ := suits_iff small
  have least := LowerHalf.roundUp_le (size ▸ (suits a).mp fits.1) fits.2.1
  have above : b.addr ≤ roundUp b.addr (alignMask hint + 1) := le_roundUp_of_pos _ (Nat.succ_pos _)
  have room := fits.2.2
  rw [Block.stop] at room
  omega

/-- The lowest suitable range of the first block that has one, and `NULL` if no block has one. -/
theorem next_free_addr_first_fit (low : Low free hint length) (nonNull : ∀ b ∈ free, 0 < b.addr) :
    (nextFreePtr free hint length ≠ 0 →
      ∃ before b after, free = before ++ b :: after ∧ Fits hint length b (nextFreePtr free hint length) ∧
        (∀ a, Fits hint length b a → nextFreePtr free hint length ≤ a) ∧
        ∀ c ∈ before, ∀ a, ¬Fits hint length c a) ∧
      (nextFreePtr free hint length = 0 → ∀ b ∈ free, ∀ a, ¬Fits hint length b a) := by
  have small : hint < 2 ^ 64 := low.hint.trans (by decide)
  rw [low.nextFreePtr_eq]
  have misses {c : Block} (none' : (if roundUp c.addr (alignMask hint + 1) - c.addr + length ≤ c.len then
      some (roundUp c.addr (alignMask hint + 1)) else none) = none) (a : Nat) : ¬Fits hint length c a := fun fits =>
    (nomatch (if_pos (fits.roundUp_le small).2).symm.trans none')
  cases found : nextFreeAddr free hint length with
  | none => exact ⟨fun given => absurd rfl given, fun _ b member => misses (List.findSome?_eq_none_iff.mp found b member)⟩
  | some ret =>
    obtain ⟨before, b, after, rfl, fits, earlier⟩ := List.findSome?_eq_some_iff.mp found
    obtain ⟨room, ⟨⟩⟩ := ite_none_right_eq_some.mp fits
    refine ⟨fun _ => ⟨before, b, after, rfl, fits_roundUp small room, fun a fit => (fit.roundUp_le small).1,
      fun c member => misses (earlier c member)⟩, fun null => ?_⟩
    have positive := nonNull b (List.mem_append_right _ List.mem_cons_self)
    have above : b.addr ≤ roundUp b.addr (alignMask hint + 1) := le_roundUp_of_pos _ (Nat.succ_pos _)
    rw [getD_some] at null
    omega

theorem next_free_addr_first_fit_second :
    nextFreePtr [⟨4096, 4096⟩, ⟨12288, 16384⟩] 8192 8192 = 16384 ∧
      ∃ before b after, [⟨4096, 4096⟩, ⟨12288, 16384⟩] = before ++ b :: after ∧ Fits 8192 8192 b 16384 := by
  have value : nextFreePtr [⟨4096, 4096⟩, ⟨12288, 16384⟩] 8192 8192 = 16384 := by decide
  have result := @next_free_addr_first_fit [⟨4096, 4096⟩, ⟨12288, 16384⟩] 8192 8192
    ⟨by decide, by decide, by decide⟩ (by decide)
  rw [value] at result
  obtain ⟨before, b, after, split, fits, -⟩ := result.1 (by decide)
  exact ⟨value, before, b, after, split, fits⟩

/-- A free block at address 0 is found and reported as `NULL`. -/
theorem next_free_addr_null_block :
    Low [⟨0, 4096⟩] 0 4096 ∧ nextFreePtr [⟨0, 4096⟩] 0 4096 = 0 ∧ Fits 0 4096 ⟨0, 4096⟩ 0 := by
  refine ⟨⟨by decide, by decide, by decide⟩, by decide, ⟨Nat.dvd_zero _, fun given => absurd rfl given⟩, ?_⟩
  decide

end FirstFit

end Mana.LowerHalf
