import Mathlib.Data.List.Pairwise
import Mathlib.Tactic.Common

/-! Chunks of data that are written to a memory one after the other, and chunks that lie one behind the other. -/

namespace Mana.Lib

universe u

variable {β : Type u}

structure Chunk (β : Type u) where
  addr : Nat
  data : List β
  deriving DecidableEq, Repr

namespace Chunk

def stop (c : Chunk β) : Nat := c.addr + c.data.length

def Apart (c d : Chunk β) : Prop := c.stop ≤ d.addr ∨ d.stop ≤ c.addr

def write (mem : Nat → β) (c : Chunk β) : Nat → β := fun a =>
  if c.addr ≤ a then c.data[a - c.addr]?.getD (mem a) else mem a

def Holds (mem : Nat → β) (c : Chunk β) : Prop := ∀ k b, c.data[k]? = some b → mem (c.addr + k) = b

variable {mem : Nat → β} {c : Chunk β} {chunks rest : List (Chunk β)} {a lo mid hi : Nat}

def Laid (lo hi : Nat) : List (Chunk β) → Prop
  | [] => lo ≤ hi
  | c :: rest => lo ≤ c.addr ∧ Laid c.stop hi rest

theorem Laid.append (front : Laid lo mid chunks) (back : Laid mid hi rest) : Laid lo hi (chunks ++ rest) := by
  induction chunks generalizing lo with
  | nil =>
    cases rest with
    | nil => exact Nat.le_trans front back
    | cons d others => exact ⟨Nat.le_trans front back.1, back.2⟩
  | cons c chunks ih => exact ⟨front.1, ih front.2⟩

theorem Laid.inside (laid : Laid lo hi chunks) (member : c ∈ chunks) : lo ≤ c.addr ∧ c.stop ≤ hi := by
  have bounds {lo : Nat} {chunks : List (Chunk β)} (laid : Laid lo hi chunks) : lo ≤ hi := by
    induction chunks generalizing lo with
    | nil => exact laid
    | cons d rest ih => exact Nat.le_trans laid.1 (Nat.le_trans (Nat.le_add_right _ _) (ih laid.2))
  induction chunks generalizing lo with
  | nil => cases member
  | cons d rest ih =>
    rcases List.mem_cons.mp member with rfl | member
    · exact ⟨laid.1, bounds laid.2⟩
    · obtain ⟨above, below⟩ := ih laid.2 member
      exact ⟨Nat.le_trans laid.1 (Nat.le_trans (Nat.le_add_right _ _) above), below⟩

theorem Laid.apart (laid : Laid lo hi chunks) : chunks.Pairwise Apart := by
  induction chunks generalizing lo with
  | nil => exact .nil
  | cons c rest ih => exact List.pairwise_cons.mpr ⟨fun d member => .inl (laid.2.inside member).1, ih laid.2⟩

theorem Apart.symm {d : Chunk β} (apart : Apart c d) : Apart d c := Or.symm apart

end Chunk

end Mana.Lib
