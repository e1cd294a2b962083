import Mathlib.Init

/-! Programs that make calls into a system whose state the rest of the system may change between any two calls.
A run has a log of the calls with the state in which each was made. `Ensures` is the postcondition of every run,
and that no run hangs. -/

namespace Mana.Lib

universe u v w x

inductive Program (Call : Type u) (Answer : Call → Type v) (α : Type w) where
  | done (value : α)
  | hang
  | ask (call : Call) (next : Answer call → Program Call Answer α)

namespace Program

variable {Call : Type u} {Answer : Call → Type v} {α β : Type w}

def bind : Program Call Answer α → (α → Program Call Answer β) → Program Call Answer β
  | done value, after => after value
  | hang, _ => hang
  | ask call next, after => ask call fun answer => (next answer).bind after

def ofOption : Option α → Program Call Answer α
  | some value => done value
  | none => hang

end Program

/-- What the rest of the system may do between two calls, and the answers to a call with the state after it. -/
structure System (σ : Type x) (Call : Type u) (Answer : Call → Type v) where
  other : σ → σ → Prop
  answers : σ → (call : Call) → Answer call → σ → Prop

structure Event (σ : Type x) (Call : Type u) (Answer : Call → Type v) where
  state : σ
  call : Call
  answer : Answer call

section Runs

variable {σ : Type x} {Call : Type u} {Answer : Call → Type v} {α β : Type w}

/-- A run from a state: its log, the last state and the value, or `none` for a run that hangs. -/
inductive Runs (system : System σ Call Answer) :
    σ → Program Call Answer α → List (Event σ Call Answer) → σ → Option α → Prop where
  | done {s : σ} {value : α} : Runs system s (.done value) [] s (some value)
  | hang {s : σ} : Runs system s .hang [] s none
  | ask {s s₁ s₂ s' : σ} {call : Call} {answer : Answer call} {next : Answer call → Program Call Answer α}
      {log : List (Event σ Call Answer)} {out : Option α} (others : system.other s s₁)
      (answered : system.answers s₁ call answer s₂) (later : Runs system s₂ (next answer) log s' out) :
      Runs system s (.ask call next) (⟨s₁, call, answer⟩ :: log) s' out

/-- Every run from the state ends, with the postcondition. -/
def Ensures (system : System σ Call Answer) (s : σ) (program : Program Call Answer α)
    (post : List (Event σ Call Answer) → σ → α → Prop) : Prop :=
  ∀ log s' out, Runs system s program log s' out → ∃ value, out = some value ∧ post log s' value

variable {system : System σ Call Answer} {s : σ} {post : List (Event σ Call Answer) → σ → β → Prop}

theorem Ensures.done {value : β} (holds : post [] s value) : Ensures system s (.done value) post := by
  intro log s' out runs
  cases runs
  exact ⟨value, rfl, holds⟩

theorem Ensures.ask {call : Call} {next : Answer call → Program Call Answer β}
    (each : ∀ s₁ answer s₂, system.other s s₁ → system.answers s₁ call answer s₂ →
      Ensures system s₂ (next answer) fun log => post (⟨s₁, call, answer⟩ :: log)) :
    Ensures system s (.ask call next) post := by
  intro log s' out runs
  cases runs with
  | ask others answered later => exact each _ _ _ others answered _ _ _ later

variable {program : Program Call Answer β} {after : α → Program Call Answer β}

theorem Ensures.mono {weaker : List (Event σ Call Answer) → σ → β → Prop} (ensures : Ensures system s program post)
    (implies : ∀ log s' value, post log s' value → weaker log s' value) : Ensures system s program weaker := by
  intro log s' out runs
  obtain ⟨value, isSome, holds⟩ := ensures log s' out runs
  exact ⟨value, isSome, implies log s' value holds⟩

theorem Ensures.and {other : List (Event σ Call Answer) → σ → β → Prop} (one : Ensures system s program post)
    (two : Ensures system s program other) :
    Ensures system s program fun log s' value => post log s' value ∧ other log s' value := by
  intro log s' out runs
  obtain ⟨value, rfl, holds⟩ := one log s' out runs
  obtain ⟨_, ⟨⟩, also⟩ := two log s' _ runs
  exact ⟨value, rfl, holds, also⟩

/-- A run of a sequence is a run of its first part, then one of the second unless the first hangs. -/
theorem Runs.bind_cases {program : Program Call Answer α} {log : List (Event σ Call Answer)} {s' : σ} {out : Option β}
    (runs : Runs system s (program.bind after) log s' out) :
    Runs system s program log s' none ∨ ∃ first second s₁ value, log = first ++ second ∧
      Runs system s program first s₁ (some value) ∧ Runs system s₁ (after value) second s' out := by
  induction program generalizing s log with
  | done value => exact .inr ⟨[], log, s, value, rfl, .done, runs⟩
  | hang =>
    cases runs
    exact .inl .hang
  | ask call next ih =>
    cases runs with
    | ask others answered later =>
      rcases ih _ later with hangs | ⟨first, second, s₁, value, rfl, ran, rest⟩
      · exact .inl (.ask others answered hangs)
      · exact .inr ⟨_ :: first, second, s₁, value, rfl, .ask others answered ran, rest⟩

theorem Ensures.bind {program : Program Call Answer α}
    (ensures : Ensures system s program fun first s₁ value =>
      Ensures system s₁ (after value) fun second => post (first ++ second)) :
    Ensures system s (program.bind after) post := by
  intro log s' out runs
  rcases runs.bind_cases with hangs | ⟨first, second, s₁, value, rfl, ran, rest⟩
  · obtain ⟨value, isSome, -⟩ := ensures _ _ _ hangs
    exact nomatch isSome
  · obtain ⟨same, isSome, holds⟩ := ensures _ _ _ ran
    cases isSome
    exact holds _ _ _ rest

end Runs

end Mana.Lib
