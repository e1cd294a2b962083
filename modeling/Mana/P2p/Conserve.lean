import Mana.Lib.Removal
import Mana.P2p.Guard

/-! Where the messages to a rank are: counted, discarded, taken by a receive of the lower half
but not counted yet, or not taken at all. -/

namespace Mana.P2p
open Mana.Lib Mana.Collective Option

variable {n : Nat}

/-- A real request completes with a message exactly if it is a receive from a real source. -/
def Req.Sound (q : Req n) : Prop :=
  match q.real with
  | .active => True
  | .got _ => q.isCountedIrecv = true
  | .complete => q.isCountedIrecv = false

structure Proc.Conserves (p : Proc n) : Prop where
  messages : ∀ holds : Msg n → Bool, p.addressed.countP holds =
    p.counted.countP holds + p.discarded.countP holds + p.held.countP holds + p.inbox.countP holds
  recv : p.recv = p.counted.length
  sound : ∀ q ∈ p.log, q.Sound
  ids : p.addressed.map Msg.id = List.range p.addressed.length

section Conserve
variable {cfg : Config n} {db : Db n} {p q : Proc n}

theorem Proc.countP_held (p : Proc n) (holds : Msg n → Bool) :
    p.held.countP holds = (p.log.filterMap (·.real.message)).countP holds + p.app.held.toList.countP holds := by
  rw [Proc.held, List.countP_append]

theorem Proc.Conserves.congr (conserves : p.Conserves) (addressed : q.addressed = p.addressed)
    (counted : q.counted = p.counted) (discarded : q.discarded = p.discarded) (inbox : q.inbox = p.inbox)
    (recv : q.recv = p.recv) (log : q.log = p.log) (held : q.app.held = p.app.held) : q.Conserves := by
  refine ⟨fun holds => ?_, ?_, ?_, ?_⟩
  · rw [addressed, counted, discarded, inbox, Proc.countP_held, log, held, ← Proc.countP_held]
    exact conserves.messages holds
  · rw [recv, counted, conserves.recv]
  · rw [log]
    exact conserves.sound
  · rw [addressed]
    exact conserves.ids

variable {r : Req n} {i : Nat} {m : Msg n} {me : Fin n} {o : Option (Post n)} {a : LowerAct} {db' : Db n}

theorem Req.Sound.got (sound : r.Sound) (flag : r.flag = true) (counts : r.isCountedIrecv = true) :
    ∃ m, r.real = .got m := by
  unfold Req.Sound at sound
  cases real : r.real with
  | active => simp [Req.flag, real] at flag
  | got m => exact ⟨m, rfl⟩
  | complete => simp [real, counts] at sound

theorem Req.Sound.without (sound : r.Sound) (uncounted : r.isCountedIrecv = false) : r.real.message = none := by
  unfold Req.Sound at sound
  cases real : r.real with
  | active | complete => rfl
  | got m => simp [real, uncounted] at sound

theorem Proc.Conserves.clear_counted (conserves : p.Conserves) (entry : p.log[i]? = some r) (flag : r.flag = true)
    (counts : r.isCountedIrecv = true) : ((p.countReceived r.real.message).clear i).Conserves := by
  obtain ⟨m, got⟩ := (conserves.sound r (List.mem_of_getElem? entry)).got flag counts
  refine ⟨fun holds => ?_, ?_, fun r' isEntry => ?_, conserves.ids⟩
  · have all := conserves.messages holds
    have taken := countP_filterMap_eraseIdx entry (·.real.message) holds
    simp only [Proc.countP_held, Proc.clear, Proc.countReceived, List.countP_append] at all ⊢
    omega
  · simp [Proc.clear, Proc.countReceived, conserves.recv, got]
  · exact conserves.sound r' (List.mem_of_mem_eraseIdx isEntry)

theorem Proc.Conserves.clear (conserves : p.Conserves) (entry : p.log[i]? = some r)
    (uncounted : r.isCountedIrecv = false) : (p.clear i).Conserves := by
  have without := (conserves.sound r (List.mem_of_getElem? entry)).without uncounted
  refine { conserves with messages := fun holds => ?_, sound := fun r' isEntry => ?_ }
  · have all := conserves.messages holds
    have taken := countP_filterMap_eraseIdx entry (·.real.message) holds
    simp only [Proc.countP_held, Proc.clear] at all ⊢
    simp only [without, toList_none, List.countP_nil] at taken
    omega
  · exact conserves.sound r' (List.mem_of_mem_eraseIdx isEntry)

theorem Proc.Conserves.addRequest (conserves : p.Conserves) (type : ReqType) (pattern : Pattern n) :
    (p.addRequest type pattern).Conserves := by
  refine ⟨fun holds => ?_, conserves.recv, fun r isEntry => ?_, conserves.ids⟩
  · have all := conserves.messages holds
    simpa [Proc.countP_held, Proc.addRequest, List.filterMap_cons] using all
  · rcases List.mem_append.mp isEntry with old | new
    · exact conserves.sound r old
    · rw [List.mem_singleton.mp new]
      trivial

theorem Proc.Conserves.arrive (conserves : p.Conserves) (o : Post n) : (p.arrive o).Conserves := by
  refine ⟨fun holds => ?_, conserves.recv, conserves.sound, ?_⟩
  · have all := conserves.messages holds
    simp only [Proc.countP_held, Proc.arrive, List.countP_append] at all ⊢
    omega
  · simp [Proc.arrive, conserves.ids, List.range_succ]

theorem RecvMove.conserves (moved : RecvMove p q) (guarded : p.Guarded) (conserves : p.Conserves) : q.Conserves := by
  cases moved with
  | discard r m here =>
    refine { conserves with messages := fun holds => ?_ }
    have all := conserves.messages holds
    simp only [Proc.countP_held, here, AppPc.held, toList_some, toList_none, List.countP_append,
      List.countP_nil] at all ⊢
    omega
  | countNull r m here null => exact absurd null (guarded.known r (by rw [here]; rfl))
  | count r m here =>
    refine ⟨fun holds => ?_, by simp [Proc.countReceived, conserves.recv], conserves.sound, conserves.ids⟩
    have all := conserves.messages holds
    simp only [Proc.countP_held, here, AppPc.held, toList_some, toList_none, List.countP_append,
      List.countP_nil, Proc.countReceived] at all ⊢
    omega
  | sendReturn here | leave here | consume _ _ here | readDummy _ _ here | readReal _ _ here | reopen _ _ here =>
    exact conserves.congr rfl rfl rfl rfl rfl rfl (by rw [here]; rfl)
  | _ _ here => exact conserves.congr rfl rfl rfl rfl rfl rfl (by rw [here]; rfl)

theorem AppMove.conserves (moved : AppMove me p q o) (guarded : p.Guarded) (conserves : p.Conserves) : q.Conserves := by
  cases moved with
  | isend type comm dest tag enters sends known =>
    have counted : (p.countSent dest).Conserves := conserves.congr rfl rfl rfl rfl rfl rfl rfl
    exact counted.addRequest _ _
  | irecv pattern enters => exact conserves.addRequest _ _
  | test i r enters entry flag uncounted => exact conserves.clear entry uncounted
  | testCounted i r enters entry flag counts => exact conserves.clear_counted entry flag counts
  | send comm dest tag enters known =>
    have out := (guarded.open_of_mayEnter enters).1
    exact conserves.congr rfl rfl rfl rfl rfl rfl (by rw [out]; rfl)
  | recv r here known => exact conserves.congr rfl rfl rfl rfl rfl rfl (by rw [here]; rfl)
  | next awake moved => exact moved.conserves guarded conserves
  | _ => exact conserves.congr rfl rfl rfl rfl rfl rfl rfl

theorem Req.isCountedIrecv_iff : r.isCountedIrecv = true ↔ r.type = .irecv ∧ r.pattern.source ≠ .procNull := by
  simp [Req.isCountedIrecv]

theorem Req.uncounted_of_unread (unread : r.isSend = true ∨ r.pattern.source = .procNull) :
    r.isCountedIrecv = false := by
  rcases unread with sends | null
  · have : r.type ≠ .irecv := by simpa [Req.isSend] using sends
    simp [Req.isCountedIrecv, this]
  · simp [Req.isCountedIrecv, null]

theorem Pattern.source_ne_procNull {pattern : Pattern n} {e : Envelope n} (accepts : pattern.accepts e = true) :
    pattern.source ≠ .procNull := by
  intro null
  have := (Pattern.accepts_iff.mp accepts).2.1
  rw [null] at this
  cases this

/-- A request that has taken no message changes, and takes what leaves the inbox. -/
theorem Proc.Conserves.set (conserves : p.Conserves) {inbox : List (Msg n)} (entry : p.log[i]? = some r) (r' : Req n)
    (without : r.real.message = none) (sound : r'.Sound)
    (taken : ∀ holds, inbox.countP holds + r'.real.message.toList.countP holds = p.inbox.countP holds) :
    Proc.Conserves { p with inbox := inbox, log := p.log.set i r' } := by
  refine { conserves with messages := fun holds => ?_, sound := fun r'' isEntry => ?_ }
  · have all := conserves.messages holds
    have before := countP_filterMap_eraseIdx entry (·.real.message) holds
    have after := countP_filterMap_set entry r' (·.real.message) holds
    have moved := taken holds
    simp only [without, toList_none, List.countP_nil] at before
    simp only [Proc.countP_held] at all ⊢
    omega
  · rcases List.mem_or_eq_of_mem_set isEntry with old | new
    · exact conserves.sound r'' old
    · exact new ▸ sound

theorem LowerMove.conserves (moved : LowerMove p a q) (conserves : p.Conserves) : q.Conserves := by
  cases moved with
  | take k i m r message entry irecv active accepts =>
    refine conserves.set entry _ (by rw [active]; rfl)
      (Req.isCountedIrecv_iff.mpr ⟨irecv, Pattern.source_ne_procNull accepts⟩) fun holds => ?_
    have gone := countP_eraseIdx message holds
    simp only [Real.message_got, toList_some, List.countP_singleton]
    omega
  | takeRecv k m r posted message here accepts =>
    refine { conserves with messages := fun holds => ?_ }
    have all := conserves.messages holds
    have gone := countP_eraseIdx message holds
    simp only [Proc.countP_held, here, AppPc.held, toList_some, toList_none, List.countP_nil,
      List.countP_singleton] at all ⊢
    omega
  | finish i r entry active free =>
    exact conserves.set entry _ (by rw [active]; rfl) (Req.uncounted_of_unread free) fun holds => rfl

theorem Completes.conserves (completes : Completes p i r q) (conserves : p.Conserves) (entry : p.log[i]? = some r)
    (flag : r.flag = true) : q.Conserves := by
  cases completes with
  | received irecv real =>
    have counts := Req.isCountedIrecv_iff.mpr ⟨irecv, real⟩
    exact (conserves.clear_counted entry flag counts).congr rfl rfl rfl rfl rfl rfl rfl
  | done unread =>
    exact (conserves.clear entry (Req.uncounted_of_unread unread)).congr rfl rfl rfl rfl rfl rfl rfl
  | ack issend pattern real =>
    have uncounted : r.isCountedIrecv = false := by simp [Req.isCountedIrecv, issend]
    have without := (conserves.sound r (List.mem_of_getElem? entry)).without uncounted
    have changed := conserves.set entry ⟨r.id, .irecv, pattern, .active, p.postings⟩ without trivial fun holds => rfl
    exact changed.congr rfl rfl rfl rfl rfl rfl rfl

theorem Proc.Conserves.map (conserves : p.Conserves) {f : Req n → Req n} (same : ∀ q, SameReq q (f q)) :
    { p with log := p.log.map f }.Conserves := by
  refine ⟨fun holds => ?_, conserves.recv, fun r isEntry => ?_, conserves.ids⟩
  · have kept : (p.log.map f).filterMap (·.real.message) = p.log.filterMap (·.real.message) := by
      rw [List.filterMap_map]
      refine List.filterMap_congr fun r _ => ?_
      simp [(same r).real]
    have all := conserves.messages holds
    simp only [Proc.countP_held, kept] at all ⊢
    exact all
  · obtain ⟨r', isOld, rfl⟩ := List.mem_map.mp isEntry
    have sound := conserves.sound r' isOld
    have type : (f r').type = .irecv ↔ r'.type = .irecv := by
      have := (same r').isSend
      simp only [Req.isSend] at this
      constructor <;> intro irecv <;> simpa [irecv] using this
    have counted : (f r').isCountedIrecv = r'.isCountedIrecv := by
      rw [Bool.eq_iff_iff, Req.isCountedIrecv_iff, Req.isCountedIrecv_iff, type, (same r').pattern]
    unfold Req.Sound at sound ⊢
    rw [(same r').real, counted]
    exact sound

theorem Proc.Conserves.buffer {k : Nat} (conserves : p.Conserves) (entry : p.inbox[k]? = some m) :
    (p.recvMsgIntoInternalBuffer k m).Conserves := by
  refine ⟨fun holds => ?_, ?_, conserves.sound, conserves.ids⟩
  · have all := conserves.messages holds
    have gone := countP_eraseIdx entry holds
    simp only [Proc.recvMsgIntoInternalBuffer, Proc.countP_held, Proc.countReceived, toList_some, List.countP_append,
      List.countP_singleton] at all ⊢
    omega
  · simp [Proc.recvMsgIntoInternalBuffer, Proc.countReceived, conserves.recv]

/-! Requests have handles of their own, so that the drain waits for the request that it found. -/

structure Proc.Handled (p : Proc n) : Prop where
  nodup : (p.log.map Req.id).Nodup
  fresh : ∀ r ∈ p.log, r.id < p.nextId
  awaited : ∀ id, p.ckpt = .await id → ∀ r ∈ p.log, r.id = id → r.isCountedIrecv = true

theorem Proc.Handled.clear (handled : p.Handled) (i : Nat) : (p.clear i).Handled := by
  have part : (p.log.eraseIdx i).Sublist p.log := List.eraseIdx_sublist ..
  refine ⟨handled.nodup.sublist (part.map _), fun r isEntry => ?_, fun id pc r isEntry => ?_⟩
  · exact handled.fresh r (part.subset isEntry)
  · exact handled.awaited id pc r (part.subset isEntry)

theorem Proc.Handled.addRequest (handled : p.Handled) (type : ReqType) (pattern : Pattern n)
    (free : ∀ id, p.ckpt ≠ .await id) : (p.addRequest type pattern).Handled := by
  refine ⟨?_, fun r isEntry => ?_, fun id pc => absurd pc (free id)⟩
  · simp only [Proc.addRequest, List.map_append, List.map_cons, List.map_nil]
    refine List.Nodup.append handled.nodup (List.nodup_singleton _) ?_
    rw [List.disjoint_singleton]
    intro old
    obtain ⟨r, isEntry, same⟩ := List.mem_map.mp old
    exact absurd same (Nat.ne_of_lt (handled.fresh r isEntry))
  · rcases List.mem_append.mp isEntry with old | new
    · exact Nat.lt_succ_of_lt (handled.fresh r old)
    · rw [List.mem_singleton.mp new]
      exact Nat.lt_succ_self _

theorem Proc.Handled.set (handled : p.Handled) {r' : Req n} (entry : p.log[i]? = some r) (log : q.log = p.log.set i r')
    (nextId : q.nextId = p.nextId) (ckpt : q.ckpt = p.ckpt) (id : r'.id = r.id)
    (counts : (∀ id, p.ckpt ≠ .await id) ∨ r'.isCountedIrecv = r.isCountedIrecv) : q.Handled := by
  obtain ⟨inside, isEntry⟩ := List.getElem?_eq_some_iff.mp entry
  have same : (p.log.set i r').map Req.id = p.log.map Req.id := by
    rw [List.map_set, id, ← isEntry, ← List.getElem_map Req.id (h := by simpa using inside), List.set_getElem_self]
  refine ⟨by rw [log, same]; exact handled.nodup, fun r'' isNew => ?_, fun handle pc r'' isNew isHandle => ?_⟩
  · rw [log] at isNew
    rw [nextId]
    rcases List.mem_or_eq_of_mem_set isNew with old | rfl
    · exact handled.fresh r'' old
    · rw [id]
      exact handled.fresh r (List.mem_of_getElem? entry)
  · rw [log] at isNew
    rw [ckpt] at pc
    rcases List.mem_or_eq_of_mem_set isNew with old | rfl
    · exact handled.awaited handle pc r'' old isHandle
    · rcases counts with free | counts
      · exact absurd pc (free handle)
      · rw [counts]
        exact handled.awaited handle pc r (List.mem_of_getElem? entry) (id ▸ isHandle)

theorem Proc.Handled.congr (handled : p.Handled) (log : q.log = p.log) (nextId : q.nextId = p.nextId)
    (ckpt : (∀ id, q.ckpt ≠ .await id) ∨ q.ckpt = p.ckpt) : q.Handled := by
  refine ⟨by rw [log]; exact handled.nodup, ?_, fun id pc => ?_⟩
  · rw [log, nextId]
    exact handled.fresh
  · rcases ckpt with free | same
    · exact absurd pc (free id)
    · rw [log]
      exact handled.awaited id (same ▸ pc)

theorem Proc.not_await_of_open (opened : p.ckpt.closes = false) (id : Nat) : p.ckpt ≠ .await id := by
  intro pc
  rw [pc] at opened
  cases opened

theorem AppMove.handled (moved : AppMove me p q o) (guarded : p.Guarded) (handled : p.Handled) : q.Handled := by
  cases moved with
  | isend type comm dest tag enters sends known =>
    have counted : (p.countSent dest).Handled := handled.congr rfl rfl (.inr rfl)
    exact counted.addRequest _ _ (Proc.not_await_of_open (guarded.open_of_mayEnter enters).2.1)
  | fromQueue k enters =>
    exact ⟨handled.nodup, fun r isEntry => Nat.lt_succ_of_lt (handled.fresh r isEntry), handled.awaited⟩
  | irecv pattern enters =>
    exact handled.addRequest _ _ (Proc.not_await_of_open (guarded.open_of_mayEnter enters).2.1)
  | test i r enters | testCounted i r enters => exact (handled.clear i).congr rfl rfl (.inr rfl)
  | next awake moved => cases moved <;> exact handled.congr rfl rfl (.inr rfl)
  | _ => exact handled.congr rfl rfl (.inr rfl)

theorem LowerMove.handled (moved : LowerMove p a q) (handled : p.Handled) : q.Handled := by
  cases moved with
  | take k i m r message entry irecv active accepts | finish i r entry active free =>
    exact handled.set entry rfl rfl rfl rfl (.inr rfl)
  | takeRecv k m r posted message here accepts => exact handled.congr rfl rfl (.inr rfl)

theorem Completes.handled (completes : Completes p i r q) (handled : p.Handled) (entry : p.log[i]? = some r)
    (free : ∀ id, p.ckpt ≠ .await id) : q.Handled := by
  cases completes with
  | received irecv real | done unread => exact (handled.clear i).congr rfl rfl (.inr rfl)
  | ack issend pattern real => exact handled.set entry rfl rfl rfl rfl (.inl free)

theorem CkptMove.handled (moved : CkptMove cfg p q) (handled : p.Handled) : q.Handled := by
  cases moved with
  | notices here f notices tag same =>
    have ids : (p.log.map f).map Req.id = p.log.map Req.id := by
      rw [List.map_map]
      exact List.map_congr_left fun r _ => (same r).id
    refine ⟨?_, fun r isEntry => ?_, fun id pc => ?_⟩
    · exact (congrArg List.Nodup ids).mpr handled.nodup
    · obtain ⟨r', isOld, rfl⟩ := List.mem_map.mp isEntry
      rw [(same r').id]
      exact handled.fresh r' isOld
    · simp only [Proc.goto] at pc
      split at pc <;> cases pc
  | probed here | setPhase here =>
    refine handled.congr rfl rfl (.inl fun id => ?_)
    cases noBarrier : cfg.drainHasNoBarrier <;> simp [noBarrier, Proc.goto, Proc.endPass]
  | pass here =>
    refine handled.congr rfl rfl (.inl fun id => ?_)
    rcases p.locals.dummyPass with _ | _ | _ | _ | d <;> simp [Proc.goto, Proc.passTurn]
  | test here i r entry flag completes =>
    refine completes.handled handled entry fun id pc => ?_
    rw [pc] at here
    simp at here
  | matched here env r isEntry irecv accepts =>
    refine ⟨handled.nodup, handled.fresh, fun id pc r' isEntry' named => ?_⟩
    obtain rfl : r.id = id := by simpa [Proc.goto] using pc
    obtain rfl : r' = r := List.inj_on_of_nodup_map handled.nodup isEntry' isEntry named
    exact Req.isCountedIrecv_iff.mpr ⟨irecv, Pattern.source_ne_procNull accepts⟩
  | await id here i r entry named flag =>
    exact (handled.clear i).congr rfl rfl (.inl fun id => by simp [Proc.goto])
  | _ => exact handled.congr rfl rfl (.inl fun id => by simp [Proc.goto])

theorem DbMove.handled (moved : DbMove cfg me db p q db') (handled : p.Handled) : q.Handled := by
  cases moved with
  | post here | noPost here =>
    refine handled.congr rfl rfl (.inl fun id => ?_)
    cases noBarrier : cfg.drainHasNoBarrier <;> simp [noBarrier, Proc.endPass]
  | _ => exact handled.congr rfl rfl (.inl fun id => by simp [Proc.goto])

theorem SendMove.handled (moved : SendMove cfg me db p q o) (handled : p.Handled) : q.Handled := by
  cases moved with
  | sent here all =>
    refine handled.congr rfl rfl (.inl fun id => ?_)
    cases noBarrier : cfg.drainHasNoBarrier <;> simp [noBarrier, Proc.endPass]
  | _ => exact handled.congr rfl rfl (.inr rfl)

theorem Proc.Handled.released (handled : p.Handled) (sums : Counters) (sync : Sync) : (p.released sums sync).Handled := by
  cases sync <;> exact handled.congr rfl rfl (.inl fun id => by simp [Proc.released, Proc.goto])

theorem CkptMove.conserves (moved : CkptMove cfg p q) (handled : p.Handled) (conserves : p.Conserves) :
    q.Conserves := by
  cases moved with
  | notices here f notices tag same => exact (conserves.map same).congr rfl rfl rfl rfl rfl rfl rfl
  | test here i r entry flag completes => exact completes.conserves conserves entry flag
  | buffer here k m entry => exact (conserves.buffer entry).congr rfl rfl rfl rfl rfl rfl rfl
  | await id here i r entry named flag =>
    have counts := handled.awaited id here r (List.mem_of_getElem? entry) named
    exact (conserves.clear_counted entry flag counts).congr rfl rfl rfl rfl rfl rfl rfl
  | _ => exact conserves.congr rfl rfl rfl rfl rfl rfl rfl

theorem DbMove.conserves (moved : DbMove cfg me db p q db') (conserves : p.Conserves) : q.Conserves := by
  cases moved <;> exact conserves.congr rfl rfl rfl rfl rfl rfl rfl

theorem SendMove.conserves (moved : SendMove cfg me db p q o) (conserves : p.Conserves) : q.Conserves := by
  cases moved <;> exact conserves.congr rfl rfl rfl rfl rfl rfl rfl

theorem Proc.Conserves.released (conserves : p.Conserves) (sums : Counters) (sync : Sync) :
    (p.released sums sync).Conserves := by
  cases sync <;> exact conserves.congr rfl rfl rfl rfl rfl rfl rfl

structure Proc.Sound (p : Proc n) : Prop where
  guarded : p.Guarded
  handled : p.Handled
  conserves : p.Conserves

theorem Proc.Sound.arrive (sound : p.Sound) (o : Post n) : (p.arrive o).Sound :=
  ⟨sound.guarded.congr rfl rfl rfl rfl rfl rfl, sound.handled.congr rfl rfl (.inr rfl), sound.conserves.arrive o⟩

end Conserve

section Ranks
variable {cfg : Config n} {s t : State n}

theorem Move.sound {a : Action n} (moved : Move cfg s a t) (sound : ∀ r, (s.proc r).Sound) : ∀ r, (t.proc r).Sound := by
  cases moved with
  | app r a moved =>
    obtain ⟨guarded, handled, conserves⟩ := sound r
    exact forall_deliver (forall_setProc sound
      ⟨moved.guarded guarded, moved.handled guarded handled, moved.conserves guarded conserves⟩) fun p o => .arrive (o := o)
  | ckpt r a moved =>
    obtain ⟨guarded, handled, conserves⟩ := sound r
    exact forall_setProc sound ⟨moved.guarded guarded, moved.handled handled, moved.conserves handled conserves⟩
  | db r moved | lower r a moved =>
    obtain ⟨guarded, handled, conserves⟩ := sound r
    exact forall_setProc sound ⟨moved.guarded guarded, moved.handled handled, moved.conserves conserves⟩
  | send r a moved =>
    obtain ⟨guarded, handled, conserves⟩ := sound r
    exact forall_deliver (forall_setProc sound
      ⟨moved.guarded guarded, moved.handled handled, moved.conserves conserves⟩) fun p o => .arrive (o := o)
  | release sync all =>
    intro r
    obtain ⟨guarded, handled, conserves⟩ := sound r
    exact ⟨guarded.released _ (all r), handled.released _ _, conserves.released _ _⟩

theorem Proc.initial_sound : (Proc.initial : Proc n).Sound := by
  refine ⟨⟨rfl, ?_, ?_, ?_, ?_, ?_, ?_⟩, ⟨?_, ?_, ?_⟩, ⟨fun holds => rfl, rfl, ?_, rfl⟩⟩ <;>
    simp [Proc.initial, AppPc.entering, CkptPc.settled, AppPc.published, AppPc.receive]

theorem reachable_sound (reached : Reachable (machine cfg) s) : ∀ r, (s.proc r).Sound := by
  refine Reachable.invariant (fun s => ∀ r, (s.proc r).Sound) ?_ ?_ reached
  · rintro _ rfl r
    exact Proc.initial_sound
  · intro s a t _ sound taken
    exact (step_move taken).sound sound

end Ranks

end Mana.P2p
