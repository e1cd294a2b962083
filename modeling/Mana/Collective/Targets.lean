import Mana.Collective.Agreement
import Mana.Collective.Fresh
import Mathlib.Data.List.MinMax
import Mathlib.Order.Nat

/-! The targets of a round. When a rank tests its clocks in a round, each of its targets is at least every sequence
number that was uploaded for the clock before the round, and at most the number of calls of some rank. -/

namespace Mana.Collective
open Mana.Lib Option

section Bounds

variable {n : Nat} {s t : Requests n} {r : Fin n} {effect : Effect}

def Requests.Counted (s : Requests n) (g : Gid) (calls : Nat) : Prop :=
  ∃ q, calls ≤ (s.base.proc q).calls.count g

structure Bounded (s : Requests n) : Prop where
  target : ∀ r g c, (s.base.proc r).clocks.lookup g = some c → s.Counted g c.target
  database : ∀ e g v, uploadedMax s.base.kvdb e g = some v → s.Counted g v

variable {g : Gid} {kv : Kvdb} {p q : Proc} {work : Work} {c : CommClock} {size : Gid → Nat}
    {mayAdd mayErase : Gid → Bool}

theorem Requests.Counted.mono {calls : Nat} (counted : s.Counted g calls)
    (le : ∀ q, (s.base.proc q).calls.count g ≤ (t.base.proc q).calls.count g) : t.Counted g calls := by
  obtain ⟨q, isCounted⟩ := counted
  exact ⟨q, isCounted.trans (le q)⟩

variable {members : Gid → Finset (Fin n)}

theorem Bounded.ckpt (bounded : Bounded s) (own : s.ClocksSound members)
    (moved : RequestMove n s.base.kvdb (s.base.proc r) (s.work r) effect) : Bounded (s.apply r effect) := by
  have counted {g : Gid} {v : Nat} (wasCounted : s.Counted g v) : (s.apply r effect).Counted g v := by
    refine wasCounted.mono (Requests.forall_apply (fun q p _ => (s.base.proc q).calls.count g ≤ p.calls.count g) ?_ ?_)
    · rw [moved.app_eq.1]
    · exact fun q _ => Nat.le_refl _
  constructor
  · refine fun q g c found => counted (Requests.forall_apply (fun _ p _ => ∀ g c, p.clocks.lookup g = some c →
      s.Counted g c.target) ?_ (fun q _ => bounded.target q) q g c found)
    intro g c found
    rcases moved.lookup g with same | ⟨old, v, -, got, -, now⟩
    · exact bounded.target r g c (same ▸ found)
    · cases now.symm.trans found
      exact bounded.database _ g v got
  · intro e g v isMax
    refine counted ?_
    rcases (moved.db (own r).fits).uploadedMax_cases with ⟨-, same⟩ | ⟨occasion, g', c, held, -, raised⟩
    · exact bounded.database e g v ((same e g).symm.trans isMax)
    · change uploadedMax effect.kvdb e g = some v at isMax
      rw [raised] at isMax
      split_ifs at isMax with here
      · obtain ⟨rfl, rfl⟩ := here
        have made : s.Counted g c.seq := ⟨r, Nat.le_of_eq ((own r).counts.held g c held)⟩
        cases isMax
        cases old : uploadedMax s.base.kvdb (s.base.proc r).attempt g with
        | none => simpa using made
        | some before =>
          rcases Nat.le_total before c.seq with le | le
          · simpa [le] using made
          · rw [getD_some, Nat.max_eq_left le]
            exact bounded.database _ g before old
      · exact bounded.database e g v isMax

theorem AppMove.target (moved : AppMove size mayAdd mayErase p q) (found : q.clocks.lookup g = some c) :
    c.target ≤ c.seq ∨ ∃ old, p.clocks.lookup g = some old ∧ c.target = old.target := by
  cases moved with
  | move => exact .inr ⟨c, found, rfl⟩
  | enter c' pc unlocked goes entered =>
    cases c' with
    | uncounted =>
      cases entered
      exact .inr ⟨c, found, rfl⟩
    | counted g' free =>
      obtain ⟨clock, held, rfl⟩ := Proc.enter_counted entered
      rcases Assoc.lookup_insert_cases found with ⟨rfl, rfl⟩ | ⟨-, found⟩
      · by_cases passes : clock.passes p.ckptPending = true
        · exact .inl (Nat.le_of_eq (if_pos passes))
        · exact .inr ⟨clock, held, if_neg passes⟩
      · exact .inr ⟨c, found, rfl⟩
  | add g' =>
    rcases Assoc.lookup_insert_cases found with ⟨-, rfl⟩ | ⟨-, found⟩
    · exact .inl (Nat.zero_le _)
    · exact .inr ⟨c, found, rfl⟩
  | erase g' => exact .inr ⟨c, (Assoc.lookup_of_erase found).2, rfl⟩

theorem Bounded.setProc (bounded : Bounded s) (calls : ∀ g, (s.base.proc r).calls.count g ≤ q.calls.count g)
    (counts : Counts q) (target : ∀ g c, q.clocks.lookup g = some c →
      c.target ≤ c.seq ∨ ∃ old, (s.base.proc r).clocks.lookup g = some old ∧ c.target = old.target) :
    Bounded { s with base := s.base.setProc r q } := by
  rw [Requests.setProc_eq]
  set t := s.apply r ⟨q, s.work r, s.base.kvdb, none⟩
  have counted {g : Gid} {v : Nat} (wasCounted : s.Counted g v) : t.Counted g v :=
    wasCounted.mono (Requests.forall_apply (fun q p _ => (s.base.proc q).calls.count g ≤ p.calls.count g) (calls g)
      fun q _ => Nat.le_refl _)
  refine ⟨Requests.forall_apply (fun _ p _ => ∀ g c, p.clocks.lookup g = some c → t.Counted g c.target) ?_
    fun q _ g c found => counted (bounded.target q g c found), fun e g v isMax => counted (bounded.database e g v isMax)⟩
  intro g c found
  rcases target g c found with le | ⟨old, held, same⟩
  · refine ⟨r, ?_⟩
    rw [Requests.apply_proc_self, ← counts.held g c found]
    exact le
  · rw [same]
    exact counted (bounded.target r g old held)

theorem Bounded.initial (first : (Requests.machine members).initial s) : Bounded s := by
  obtain ⟨⟨kvdb, procs⟩, -, -⟩ := first
  constructor
  · intro r g c found
    obtain ⟨clocks, isInitial, zeros⟩ := procs r
    rw [isInitial] at found
    rw [(zeros g c found).1]
    exact ⟨r, Nat.zero_le _⟩
  · intro e g v isMax
    rw [kvdb] at isMax
    cases isMax

theorem Bounded.move (bounded : Bounded s) (own : s.ClocksSound members) (moved : Requests.Move members s t) :
    Bounded t := by
  have next := own.move moved
  cases moved with
  | ckpt r moved => exact bounded.ckpt own moved
  | appPc r phase app =>
    exact bounded.setProc (fun g => Nat.le_refl _) ⟨(own r).counts.held, (own r).counts.absent⟩
      fun g c found => .inr ⟨c, found, rfl⟩
  | app r idle moved =>
    have counts := (next r).counts
    rw [Requests.setProc_eq, Requests.apply_proc_self] at counts
    exact bounded.setProc (fun g => moved.extends.calls.sublist.count_le g) counts fun g c found => moved.target found
  | completeFree r g pc freed held =>
    refine bounded.setProc (fun g => Nat.le_refl _) ?_ fun g' c found => ?_
    · exact (own r).counts.erase (of_decide_eq_true freed r ((own r).member g held))
    · exact .inr ⟨c, (Assoc.lookup_of_erase found).2, rfl⟩
  | release released =>
    obtain ⟨-, rfl⟩ := released
    exact ⟨bounded.target, bounded.database⟩

theorem bounded_of_reachable (reached : Reachable (Requests.machine members) s) : Bounded s := by
  refine reached.invariant Bounded (fun s first => Bounded.initial first) fun s a t before bounded taken => ?_
  exact bounded.move (clocksSound_of_reachable before) (Requests.step_move taken)

end Bounds

section LargestUpload

variable {n : Nat}

/-- The largest sequence number that any rank has uploaded for the clock in the attempt, in `share_seq_nums` or in a
round before round `k`. -/
def Requests.largestUpload (s : Requests n) (e : Attempt) (k : Nat) (g : Gid) : Nat :=
  ((s.uploads.filter fun u => u.attempt = e ∧ u.gid = g ∧ u.occasion.before k = true).map Upload.seq).foldr max 0

theorem Fresh.largestUpload_le {s : Requests n} {e : Attempt} {k : Nat} {g : Gid} {target : Nat}
    (fresh : Fresh s.uploads e k g target) : s.largestUpload e k g ≤ target := by
  have every : ∀ seq ∈ (s.uploads.filter fun u => u.attempt = e ∧ u.gid = g ∧ u.occasion.before k = true).map
      Upload.seq, seq ≤ target := by
    intro seq member
    obtain ⟨u, isUpload, rfl⟩ := List.mem_map.mp member
    obtain ⟨isUpload, matches_⟩ := List.mem_filter.mp isUpload
    obtain ⟨sameAttempt, sameGid, before⟩ := of_decide_eq_true matches_
    exact fresh u isUpload sameAttempt sameGid before
  exact List.max_le_of_forall_le _ _ every

/-- When a rank evaluates `check_seq_nums` in a round, no clock misses an upload that was made before the round; and
no target is ever above what some rank has counted. -/
theorem targets_miss_nothing (members : Gid → Finset (Fin n)) (s : Requests n)
    (reached : Reachable (Requests.machine members) s) (r : Fin n) (g : Gid) (c : CommClock)
    (held : (s.base.proc r).clocks.lookup g = some c) :
    (s.work r = .check →
      s.largestUpload (s.base.proc r).attempt (s.base.proc r).locals.roundNum g ≤ c.target ∨
        s.largestUpload (s.base.proc r).attempt (s.base.proc r).locals.roundNum g ≤ c.seq) ∧
      ∃ q, c.target ≤ (s.base.proc q).calls.count g := by
  refine ⟨fun checks => ?_, (bounded_of_reachable reached).target r g c held⟩
  obtain ⟨era, sound⟩ := sound_of_reachable reached
  have pc : (s.base.proc r).ckpt = .roundTop := by
    have fits := (clocksSound_of_reachable reached r).fits
    rw [checks] at fits
    exact fits
  refine .inl (Fresh.largestUpload_le (sound.fresh r g c _ held ?_))
  rw [checks]
  simp [Proc.freshRound, pc]

def checkActions (caller other : Fin 2) : List (Action 2) :=
  callActions caller ++ List.replicate 4 (.ckpt caller) ++ List.replicate 4 (.ckpt other) ++ [.release (.shareSeqNum 0)] ++
    List.replicate 7 (.ckpt other)

def twoRequests : Requests 2 := ⟨twoRanks, fun _ => .idle, []⟩

theorem checkActions_run : ∃ s, Reachable (Requests.machine worldOnly) s ∧ s.work 1 = .check ∧
    (s.base.proc 1).clocks.lookup 0 = some ⟨0, 1⟩ ∧
      s.largestUpload (s.base.proc 1).attempt (s.base.proc 1).locals.roundNum 0 = 1 := by
  have ran : ((Requests.machine worldOnly).run twoRequests (checkActions 0 1)).map (fun s => (s.work 1,
      (s.base.proc 1).clocks.lookup 0, s.largestUpload (s.base.proc 1).attempt (s.base.proc 1).locals.roundNum 0)) =
      some (.check, some ⟨0, 1⟩, 1) := by
    decide +kernel
  obtain ⟨s, ran, ends⟩ := map_eq_some_iff.mp ran
  simp only [Prod.mk.injEq] at ends
  have first : (Requests.machine worldOnly).initial twoRequests := ⟨initial_twoRanks, rfl, rfl⟩
  exact ⟨s, (Reachable.start first).run ran, ends⟩

/-- The largest upload is 1, and so is the target that rank 1 has downloaded; rank 0 has counted that call. -/
theorem targets_miss_nothing_two_ranks : ∃ s, Reachable (Requests.machine worldOnly) s ∧ s.work 1 = .check ∧
    (s.largestUpload (s.base.proc 1).attempt (s.base.proc 1).locals.roundNum 0 ≤ 1 ∨
      s.largestUpload (s.base.proc 1).attempt (s.base.proc 1).locals.roundNum 0 ≤ 0) ∧
    ∃ q, 1 ≤ (s.base.proc q).calls.count 0 := by
  obtain ⟨s, reached, checks, held, -⟩ := checkActions_run
  have nothing := targets_miss_nothing worldOnly s reached 1 0 ⟨0, 1⟩ held
  exact ⟨s, reached, checks, nothing.1 checks, nothing.2⟩

end LargestUpload

end Mana.Collective
