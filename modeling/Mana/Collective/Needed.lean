import Mana.Collective.Sections

/-! The drain lets through only the collective calls that it needs. -/

namespace Mana.Collective
open Mana.Lib Option Function

/-- The counted collective calls of each rank in program order, as far as the rank
makes them. -/
structure Program (n : Nat) where
  call : Fin n → Nat → Option Gid

namespace Program
variable {n : Nat} (prog : Program n)

def count (r : Fin n) (i : Nat) (g : Gid) : Nat := (List.range i).countP (fun j => prog.call r j = some g)

def IsCall (r : Fin n) (i : Nat) (g : Gid) (k : Nat) : Prop := prog.call r i = some g ∧ k = prog.count r i g + 1

/-- MPI's rule for collective calls: all members of a communicator make them. -/
def Matched (members : Gid → Finset (Fin n)) : Prop :=
  ∀ q i g k, prog.IsCall q i g k → ∀ p ∈ members g, ∃ j, prog.IsCall p j g k

def Follows (s : State n) : Prop := ∀ r i g, (s.proc r).calls[i]? = some g → prog.call r i = some g

/-- The calls that an attempt needs: those that a rank had counted when it shared its
sequence numbers, and with a call of a member all the calls that it makes before it. -/
inductive Needed (members : Gid → Finset (Fin n)) (shared : Fin n → Option (List Gid)) : Gid → Nat → Prop where
  | counted {r : Fin n} {calls : List Gid} {g : Gid} {k : Nat} (at_ : shared r = some calls) (first : 1 ≤ k)
      (last : k ≤ calls.count g) : Needed members shared g k
  | before {p : Fin n} {g g' : Gid} {k k' i j : Nat} (needed : Needed members shared g k) (member : p ∈ members g)
      (call : prog.IsCall p j g k) (earlier : i < j) (call' : prog.IsCall p i g' k') : Needed members shared g' k'

variable {prog : Program n} {k i : Nat} {s : State n}

theorem Needed.mono {members : Gid → Finset (Fin n)} {shared shared' : Fin n → Option (List Gid)}
    (grows : ∀ r calls, shared r = some calls →
      ∃ calls', shared' r = some calls' ∧ ∀ g, calls.count g ≤ calls'.count g)
    {g : Gid} (needed : prog.Needed members shared g k) : prog.Needed members shared' g k := by
  induction needed with
  | counted at_ first last =>
    obtain ⟨calls', at', more⟩ := grows _ _ at_
    exact .counted at' first (last.trans (more _))
  | before _ member call earlier call' ih => exact .before ih member call earlier call'

theorem count_mono (r : Fin n) (g : Gid) {j : Nat} (le : i ≤ j) : prog.count r i g ≤ prog.count r j g := by
  unfold count
  exact (List.range_sublist.mpr le).countP_le

theorem count_succ (r : Fin n) (g : Gid) (i : Nat) :
    prog.count r (i + 1) g = prog.count r i g + if prog.call r i = some g then 1 else 0 := by
  simp [count, List.range_succ, List.countP_append, List.countP_singleton]

theorem Follows.count_eq (follows : prog.Follows s) (r : Fin n) (g : Gid) (le : i ≤ (s.proc r).calls.length) :
    prog.count r i g = ((s.proc r).calls.take i).count g := by
  induction i with
  | zero => simp [count]
  | succ i ih =>
    have inside : i < (s.proc r).calls.length := le
    have call := follows r i _ (List.getElem?_eq_getElem inside)
    rw [count_succ, ih (Nat.le_of_lt inside), call, List.take_succ_eq_append_getElem inside, List.count_append,
      List.count_singleton]
    simp

theorem Follows.isCall (follows : prog.Follows s) (r : Fin n) (g : Gid) (first : 1 ≤ k)
    (last : k ≤ (s.proc r).calls.count g) : ∃ j, prog.IsCall r j g k := by
  have total := follows.count_eq r g (Nat.le_refl (s.proc r).calls.length)
  rw [List.take_length] at total
  rw [← total] at last
  clear total
  generalize (s.proc r).calls.length = bound at last
  induction bound with
  | zero => simp [count] at last; omega
  | succ i ih =>
    by_cases within : k ≤ prog.count r i g
    · exact ih within
    · rw [count_succ] at last
      split at last
      · next call => exact ⟨i, call, by omega⟩
      · omega

end Program

section Needed
variable {n : Nat} {prog : Program n} {members : Gid → Finset (Fin n)} {s t : State n}

def State.shared (s : State n) (e : Attempt) : Fin n → Option (List Gid) := fun r => (s.proc r).shared e

structure NeededInv (prog : Program n) (members : Gid → Finset (Fin n)) (s : State n) : Prop where
  calls : ∀ r, (s.proc r).ckptPending = true → ∀ g k, 1 ≤ k → k ≤ (s.proc r).calls.count g →
    prog.Needed members (s.shared (s.proc r).attempt) g k
  maxima : ∀ e g k, 1 ≤ k → k ≤ seqMax s.kvdb e g →
    prog.Needed members (s.shared e) g k ∧ ∃ q j, prog.IsCall q j g k
  shared : ∀ r e calls, (s.proc r).shared e = some calls → calls <+: (s.proc r).calls
  own : ∀ r, (s.proc r).ckptPending = true → ((s.proc r).shared (s.proc r).attempt).isSome

theorem neededInv_initial (first : Initial members s) : NeededInv prog members s := by
  obtain ⟨empty, procs⟩ := first
  constructor
  case calls | shared | own =>
    intro r
    obtain ⟨clocks, proc, -⟩ := procs r
    simp [proc, Proc.initial]
  case maxima =>
    intro e g k first last
    simp [seqMax, empty, Kvdb.empty] at last
    omega

theorem NeededInv.quiet (inv : NeededInv prog members s) (kvdb : t.kvdb = s.kvdb)
    (same : ∀ r, (t.proc r).shared = (s.proc r).shared ∧ (t.proc r).ckptPending = (s.proc r).ckptPending ∧
      (t.proc r).attempt = (s.proc r).attempt)
    (extended : ∀ r, (s.proc r).Extends (t.proc r))
    (new : ∀ r, (s.proc r).ckptPending = true → ∀ g k, 1 ≤ k → k ≤ (t.proc r).calls.count g →
      k ≤ (s.proc r).calls.count g ∨ prog.Needed members (s.shared (s.proc r).attempt) g k) :
    NeededInv prog members t := by
  have shared : ∀ e, t.shared e = s.shared e := fun e => funext fun r => congrFun (same r).1 e
  constructor
  case calls =>
    intro r pending g k first last
    obtain ⟨-, flag, attempt⟩ := same r
    rw [flag] at pending
    rw [shared, attempt]
    rcases new r pending g k first last with old | needed
    · exact inv.calls r pending g k first old
    · exact needed
  case maxima =>
    rw [kvdb]
    simp only [shared]
    exact inv.maxima
  case shared =>
    intro r e before found
    rw [(same r).1] at found
    exact (inv.shared r e before found).trans (extended r).calls
  case own =>
    intro r
    obtain ⟨shared, flag, attempt⟩ := same r
    rw [shared, flag, attempt]
    exact inv.own r

variable {g : Gid} {mayErase : Gid → Bool} {p q : Proc} {kv : Kvdb} {work : Work} {effect : Effect} {r : Fin n}

/-- The call that a rank begins in an attempt is needed: some target lies above the
rank's count, and the call comes before the one that reaches it, or is that one. -/
theorem NeededInv.begins (inv : NeededInv prog members s) (matched : prog.Matched members) (follows : prog.Follows t)
    (own : ClockInv members s.kvdb r (s.proc r) .idle) (pending : (s.proc r).ckptPending = true)
    (unlocked : (s.proc r).lockHeld = false) (goes : (s.proc r).mustWait = false)
    (next : (t.proc r).calls = (s.proc r).calls ++ [g]) :
    prog.Needed members (s.shared (s.proc r).attempt) g ((s.proc r).calls.count g + 1) := by
  have behind : checkSeqNums (s.proc r).clocks = false := by
    simpa [Proc.mustWait, pending] using goes
  obtain ⟨g', c, held, below⟩ := (checkSeqNums_eq_false _).mp behind
  have member := own.member g' (Assoc.mem_of_lookup held)
  have target := (own.target_le pending unlocked held).resolve_right (by omega)
  obtain ⟨needed, q, i, called⟩ := inv.maxima _ g' c.target (by omega) target
  obtain ⟨j, reaches⟩ := matched q i g' c.target called r member
  -- The call that reaches the target is not among those the rank has made.
  set made := (s.proc r).calls.length with madeDef
  have here : prog.IsCall r made g ((s.proc r).calls.count g + 1) := by
    constructor
    · apply follows r made g
      rw [next, madeDef, List.getElem?_concat_length]
    · rw [follows.count_eq r g (by rw [next]; simp [madeDef]), next, madeDef, List.take_left]
  have later : made ≤ j := by
    by_contra early
    have total : prog.count r made g' = (s.proc r).calls.count g' := by
      rw [follows.count_eq r g' (by rw [next]; simp [madeDef]), next, madeDef, List.take_left]
    have upTo := prog.count_mono r g' (i := j + 1) (j := made) (by omega)
    rw [Program.count_succ, if_pos reaches.1, total, ← own.counts.held g' c held, ← reaches.2] at upTo
    omega
  rcases Nat.lt_or_eq_of_le later with earlier | rfl
  · exact .before needed member reaches earlier here
  · have same : g' = g := mem_unique reaches.1 here.1
    subst same
    rw [here.2, ← reaches.2]
    exact needed

theorem AppMove.calls_eq {size : Gid → Nat} {mayAdd : Gid → Bool} (moved : AppMove size mayAdd mayErase p q) :
    q.calls = p.calls ∨ ∃ g, q.calls = p.calls ++ [g] ∧ p.lockHeld = false ∧ p.mustWait = false := by
  cases moved with
  | move | add | erase => exact .inl rfl
  | enter c pc unlocked goes entered =>
    cases c with
    | uncounted =>
      simp only [Proc.enter, some.injEq] at entered
      exact .inl (by rw [← entered])
    | counted g free =>
      obtain ⟨clock, -, rfl⟩ := Proc.enter_counted entered
      exact .inr ⟨g, rfl, unlocked, goes⟩

theorem NeededInv.setProc (inv : NeededInv prog members s) (same : SameCkpt (s.proc r) q)
    (extended : (s.proc r).Extends q)
    (new : (s.proc r).ckptPending = true → ∀ g k, 1 ≤ k → k ≤ q.calls.count g →
      k ≤ (s.proc r).calls.count g ∨ prog.Needed members (s.shared (s.proc r).attempt) g k) :
    NeededInv prog members (s.setProc r q) := by
  refine inv.quiet rfl ?_ ?_ ?_
  · exact (forall_update_iff s.proc fun r' p => p.shared = (s.proc r').shared ∧
      p.ckptPending = (s.proc r').ckptPending ∧ p.attempt = (s.proc r').attempt).mpr
      ⟨⟨same.shared, same.ckptPending, same.attempt⟩, fun _ _ => ⟨rfl, rfl, rfl⟩⟩
  · exact (forall_update_iff s.proc fun r' p => (s.proc r').Extends p).mpr ⟨extended, fun _ _ => .refl _⟩
  · exact (forall_update_iff s.proc fun r' p => (s.proc r').ckptPending = true → ∀ g k, 1 ≤ k →
      k ≤ p.calls.count g → k ≤ (s.proc r').calls.count g ∨
        prog.Needed members (s.shared (s.proc r').attempt) g k).mpr ⟨new, fun _ _ _ g k _ last => .inl last⟩

theorem NeededInv.app (inv : NeededInv prog members s) (matched : prog.Matched members)
    (follows : prog.Follows (s.setProc r q)) (own : ClockInv members s.kvdb r (s.proc r) .idle)
    (moved : AppMove (fun g => (members g).card) (fun g => decide (r ∈ members g)) mayErase (s.proc r) q) :
    NeededInv prog members (s.setProc r q) := by
  refine inv.setProc moved.sameCkpt moved.extends fun pending g k first last => ?_
  rcases moved.calls_eq with calls | ⟨g', calls, unlocked, goes⟩
  · exact .inl (calls ▸ last)
  · rw [calls, List.count_append, List.count_singleton] at last
    by_cases old : k ≤ (s.proc r).calls.count g
    · exact .inl old
    · right
      by_cases same : g' = g
      · subst same
        have new : k = (s.proc r).calls.count g' + 1 := by
          simp at last
          omega
        rw [new]
        exact inv.begins matched follows own pending unlocked goes (by simpa [State.setProc] using calls)
      · simp [same] at last
        exact absurd last old

theorem RequestMove.enters (moved : RequestMove n kv p work effect) (own : ClockInv members kv r p work) :
    (effect.proc.attempt = p.attempt ∧
        effect.proc.shared = fun e => if e = p.attempt then some p.calls else p.shared e) ∨
      effect.proc.shared = p.shared ∧
        (effect.proc.ckptPending = true → p.ckptPending = true ∧ effect.proc.attempt = p.attempt) := by
  cases moved with
  | beginShare => exact .inl ⟨rfl, rfl⟩
  | plain outside moved =>
    refine .inr ⟨(moved.same_of_outside outside).2.1, fun pending => ?_⟩
    obtain ⟨attempt, before, -⟩ := moved.fresh_of_outside outside rfl (moved.flag_eq own.pending) pending
    exact ⟨before, attempt⟩
  | _ => exact .inr ⟨rfl, fun pending => ⟨pending, rfl⟩⟩

theorem RequestMove.pending_of_upload (moved : RequestMove n kv p work effect) (own : ClockInv members kv r p work)
    {u : Upload} (uploads : effect.upload = some u) : p.ckptPending = true := by
  have fits := own.fits
  have flag := own.pending
  cases moved with
  | upload => simpa [show p.ckpt = .share from fits] using flag
  | uploadRaised => simpa [show p.ckpt = .roundTop from fits] using flag
  | _ => cases uploads

theorem RequestMove.seqMax_from (moved : RequestMove n kv p work effect) (own : ClockInv members kv r p work)
    {e : Attempt} {k : Nat} (last : k ≤ seqMax effect.kvdb e g) :
    k ≤ seqMax kv e g ∨ e = p.attempt ∧ k ≤ p.calls.count g ∧ p.ckptPending = true := by
  change k ≤ (uploadedMax effect.kvdb e g).getD 0 at last
  rcases (moved.db own.fits).uploadedMax_cases with ⟨-, same⟩ | ⟨occasion, g', c, held, uploads, raised⟩
  · rw [same] at last
    exact .inl last
  · rw [raised] at last
    split_ifs at last with here
    · obtain ⟨rfl, rfl⟩ := here
      rcases le_max_iff.mp last with old | new
      · exact .inl old
      · exact .inr ⟨rfl, own.counts.held g c held ▸ new, moved.pending_of_upload own uploads⟩
    · exact .inl last

theorem NeededInv.ckpt (inv : NeededInv prog members s) (follows : prog.Follows s)
    (own : ClockInv members s.kvdb r (s.proc r) work) (moved : RequestMove n s.kvdb (s.proc r) work effect) :
    NeededInv prog members { proc := update s.proc r effect.proc, kvdb := effect.kvdb } := by
  set t : State n := { proc := update s.proc r effect.proc, kvdb := effect.kvdb }
  obtain ⟨calls, -⟩ := moved.app_eq
  have enters := moved.enters own
  -- What was shared in an attempt stays, or is shared again with more calls.
  have grows : ∀ e r' before, s.shared e r' = some before → ∃ after,
      t.shared e r' = some after ∧ ∀ g, before.count g ≤ after.count g := by
    intro e
    refine (forall_update_iff s.proc fun r' p => ∀ before, s.shared e r' = some before → ∃ after,
      p.shared e = some after ∧ ∀ g, before.count g ≤ after.count g).mpr ⟨fun before found => ?_, ?_⟩
    · rcases enters with ⟨-, shared⟩ | ⟨shared, -⟩
      · rw [shared]
        dsimp only
        split
        · exact ⟨_, rfl, fun g => (inv.shared r e before found).sublist.count_le g⟩
        · exact ⟨before, found, fun _ => Nat.le_refl _⟩
      · rw [shared]
        exact ⟨before, found, fun _ => Nat.le_refl _⟩
    · exact fun r' _ before found => ⟨before, found, fun _ => Nat.le_refl _⟩
  have still {e : Attempt} {g : Gid} {k : Nat} (needed : prog.Needed members (s.shared e) g k) :
      prog.Needed members (t.shared e) g k := needed.mono (grows e)
  constructor
  case calls =>
    refine (forall_update_iff s.proc fun r' p => p.ckptPending = true → ∀ g k, 1 ≤ k → k ≤ p.calls.count g →
      prog.Needed members (t.shared p.attempt) g k).mpr ⟨fun pending g k first last => ?_, ?_⟩
    · rw [calls] at last
      rcases enters with ⟨attempt, shared⟩ | ⟨-, before⟩
      · have at_ : t.shared effect.proc.attempt r = some (s.proc r).calls := by
          simp [t, State.shared, shared, attempt]
        exact .counted at_ first last
      · obtain ⟨wasPending, attempt⟩ := before pending
        rw [attempt]
        exact still (inv.calls r wasPending g k first last)
    · exact fun r' _ pending g k first last => still (inv.calls r' pending g k first last)
  case maxima =>
    intro e g k first last
    rcases moved.seqMax_from own last with old | ⟨rfl, counted, pending⟩
    · obtain ⟨needed, called⟩ := inv.maxima e g k first old
      exact ⟨still needed, called⟩
    · obtain ⟨j, called⟩ := follows.isCall r g first counted
      exact ⟨still (inv.calls r pending g k first counted), r, j, called⟩
  case shared =>
    refine (forall_update_iff s.proc fun r' p => ∀ e before, p.shared e = some before →
      before <+: p.calls).mpr ⟨?_, fun r' _ => inv.shared r'⟩
    intro e before found
    rw [calls]
    rcases enters with ⟨-, shared⟩ | ⟨shared, -⟩
    · rw [shared] at found
      dsimp only at found
      split at found
      · rw [← some.inj found]
      · exact inv.shared r e before found
    · exact inv.shared r e before (shared ▸ found)
  case own =>
    refine (forall_update_iff s.proc fun r' p => p.ckptPending = true →
      (p.shared p.attempt).isSome).mpr ⟨?_, fun r' _ => inv.own r'⟩
    intro pending
    rcases enters with ⟨attempt, shared⟩ | ⟨shared, before⟩
    · simp [shared, attempt]
    · obtain ⟨wasPending, attempt⟩ := before pending
      rw [shared, attempt]
      exact inv.own r wasPending

theorem Program.Follows.before (follows : prog.Follows t) (extended : ∀ r, (s.proc r).Extends (t.proc r)) :
    prog.Follows s := by
  intro r i g found
  apply follows r i g
  obtain ⟨rest, longer⟩ := (extended r).calls
  rw [← longer, List.getElem?_append_left (List.getElem?_eq_some_iff.mp found).1, found]

theorem reachable_neededInv {s : Requests n} (matched : prog.Matched members)
    (reached : Reachable (Requests.machine members) s) : prog.Follows s.base → NeededInv prog members s.base := by
  refine reached.invariant (fun s => prog.Follows s.base → NeededInv prog members s.base) ?_ ?_
  · exact fun s first _ => neededInv_initial first.1
  · intro s a t before held taken follows
    have own := clocksSound_of_reachable before
    have moved := Requests.step_move taken
    have earlier := follows.before moved.extends
    have inv := held earlier
    cases moved with
    | ckpt r moved => exact inv.ckpt earlier (own r) moved
    | appPc r phase app | completeFree r g =>
      exact inv.setProc (by constructor <;> rfl) ⟨List.prefix_rfl, List.Subset.refl _⟩ fun _ g k _ last => .inl last
    | app r idle moved => exact inv.app matched follows (idle ▸ own r) moved
    | release released =>
      obtain ⟨-, rfl⟩ := released
      exact inv.quiet rfl (fun _ => ⟨rfl, rfl, rfl⟩) (fun _ => ⟨List.prefix_rfl, List.Subset.refl _⟩)
        fun _ _ _ _ _ last => .inl last

/-- In an attempt, every call that a rank has begun since it shared its sequence numbers
is one that the attempt needs, however the requests of the ranks to the database interleave. -/
theorem requests_begin_only_needed {s : Requests n} (matched : prog.Matched members)
    (reached : Reachable (Requests.machine members) s) (follows : prog.Follows s.base) (r : Fin n)
    (inAttempt : (s.base.proc r).ckptPending = true) :
    ∃ atShare, (s.base.proc r).shared (s.base.proc r).attempt = some atShare ∧ atShare <+: (s.base.proc r).calls ∧
      ∀ i g, atShare.length ≤ i → (s.base.proc r).calls[i]? = some g →
        prog.Needed members (s.base.shared (s.base.proc r).attempt) g
          (((s.base.proc r).calls.take i).count g + 1) := by
  have inv := reachable_neededInv matched reached follows
  obtain ⟨atShare, shared⟩ := isSome_iff_exists.mp (inv.own r inAttempt)
  refine ⟨atShare, shared, inv.shared r _ atShare shared, fun i g _ call => ?_⟩
  apply inv.calls r inAttempt g _ (Nat.le_add_left 1 _)
  obtain ⟨inside, rfl⟩ := List.getElem?_eq_some_iff.mp call
  have upTo := (List.take_sublist (i + 1) (s.base.proc r).calls).count_le (s.base.proc r).calls[i]
  rwa [List.take_succ_eq_append_getElem inside, List.count_append, List.count_singleton_self] at upTo

/-- The same for the drain with whole sections. -/
theorem drain_begins_only_needed (matched : prog.Matched members) (reached : Reachable (machine members) s)
    (follows : prog.Follows s) (r : Fin n) (inAttempt : (s.proc r).ckptPending = true) :
    ∃ atShare, (s.proc r).shared (s.proc r).attempt = some atShare ∧ atShare <+: (s.proc r).calls ∧
      ∀ i g, atShare.length ≤ i → (s.proc r).calls[i]? = some g →
        prog.Needed members (s.shared (s.proc r).attempt) g (((s.proc r).calls.take i).count g + 1) := by
  obtain ⟨uploads, between⟩ := reachable_betweenSections reached
  exact requests_begin_only_needed matched between follows r inAttempt

end Needed

def oneCall : Program 2 where
  call := fun _ i => if i = 0 then some 0 else none

theorem oneCall_matched : oneCall.Matched worldOnly := by
  rintro q i g k ⟨call, rfl⟩ p -
  simp only [oneCall] at call
  split at call
  · next first =>
    subst first
    exact ⟨0, by simpa [oneCall] using call, by simp [Program.count]⟩
  · cases call

theorem drain_begins_only_needed_two_ranks : ∃ s, Reachable (machine worldOnly) s ∧ (s.proc 1).calls = [0] ∧
    (s.proc 1).shared (s.proc 1).attempt = some [] ∧
      oneCall.Needed worldOnly (s.shared (s.proc 1).attempt) 0 1 := by
  have ran : (((machine worldOnly).run twoRanks drainActions).map (fun s => ((s.proc 0).calls, (s.proc 1).calls,
      (s.proc 1).ckptPending, (s.proc 1).shared (s.proc 1).attempt))) = some ([0], [0], true, some []) := by
    decide +kernel
  obtain ⟨s, ran, ends⟩ := map_eq_some_iff.mp ran
  simp only [Prod.mk.injEq] at ends
  obtain ⟨calls0, calls1, pending, shared⟩ := ends
  have reached := (Reachable.start initial_twoRanks).run ran
  have follows : oneCall.Follows s := by
    intro r i g call
    have made : (s.proc r).calls = [0] := by
      match r with
      | 0 => exact calls0
      | 1 => exact calls1
    rw [made] at call
    obtain ⟨inside, rfl⟩ := List.getElem?_eq_some_iff.mp call
    have zero : i = 0 := by simpa using inside
    subst zero
    rfl
  obtain ⟨atShare, at_, -, needed⟩ := drain_begins_only_needed oneCall_matched reached follows 1 pending
  obtain rfl : atShare = [] := by simpa [shared] using at_.symm
  refine ⟨s, reached, calls1, shared, ?_⟩
  simpa [calls1] using needed 0 0 (Nat.zero_le 0) (by rw [calls1]; rfl)

end Mana.Collective
