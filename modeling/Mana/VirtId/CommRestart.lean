import Mana.VirtId.TypeRestart

/-! The communicators of a rank. Their members, topology and attributes survive a restart; the error
handler is in the lower half alone, and no wrapper records it. -/

namespace Mana.VirtId
open Mana.Lib Option Function

/-- What a program can ask of a communicator. -/
structure CommShape where
  size : Nat
  rank : Nat
  members : List Nat
  cart : Option (List (Nat × Bool))
  attributes : Int → Option Nat

/-- The same, and what the library does on an error on it. -/
structure CommSettings extends CommShape where
  errhandler : Errhandler

namespace Rank

variable (job : Job) (r : Rank)

def commObj (comm : Handle) : Option CommObj := (r.realId job comm).bind r.lower.comms

/-- The settings as the wrappers find them: attributes in the upper half, the rest in the lower half. -/
def settings (comm : Handle) : Option CommSettings :=
  (r.commObj job comm).map fun obj =>
    { size := obj.members.length
      rank := obj.members.idxOf job.me
      members := obj.members
      cart := obj.cart
      attributes := fun keyval => (r.keyvals.stored comm keyval).map (·.value)
      errhandler := obj.errhandler }

end Rank

structure CommsSound (job : Job) (r : Rank) : Prop where
  recorded : ∀ h e d, r.types.table.find h = some e → e.desc = some (.comm d) →
    ∃ obj, r.lower.comms e.real = some obj ∧ d.size = obj.members.length ∧ d.globalRanks = obj.members ∧
      d.cart = obj.cart
  distinct : ∀ h e d h' e' d', r.types.table.find h = some e → e.desc = some (.comm d) →
    r.types.table.find h' = some e' → e'.desc = some (.comm d') → e.real = e'.real → h = h'
  apart : ∀ h e d, r.types.table.find h = some e → e.desc = some (.comm d) →
    e.real ≠ r.lower.constant job.commWorld ∧ e.real ≠ r.lower.constant job.commSelf ∧ e.real ∉ r.freeing
  world : ∃ handler, r.lower.comms (r.lower.constant job.commWorld) = some ⟨List.range job.size, none, handler⟩
  self : ∃ handler, r.lower.comms (r.lower.constant job.commSelf) = some ⟨[job.me], none, handler⟩
  twins : r.lower.constant job.commWorld ≠ r.lower.constant job.commSelf
  freeing : ∀ q ∈ r.freeing, (r.lower.comms q).isSome = true ∧ q ≠ r.lower.constant job.commWorld ∧
    q ≠ r.lower.constant job.commSelf
  nodup : r.freeing.Nodup

def KeepsComms (t t' : Table Desc) : Prop :=
  ∀ h e' d, t'.find h = some e' → e'.desc = some (.comm d) → ∃ e, t.find h = some e ∧ e.desc = some (.comm d) ∧
    e'.real = e.real

section Keeps

variable {t t' : Table Desc}

theorem Keeps.comms (keeps : Keeps t t') : KeepsComms t t' := by
  intro h e' d found' isDesc'
  rcases keeps h e' found' with ⟨e, refs, found, rfl⟩ | ⟨-, noDesc⟩
  · refine ⟨e, found, ?_, rfl⟩
    cases isDesc : e.desc with
    | none => simp [withRefs, assignDatatype, isDesc] at isDesc'
    | some desc => cases desc <;> simp_all [withRefs, assignDatatype]
  · cases noDesc.symm.trans isDesc'

theorem KeepsComms.refl (t : Table Desc) : KeepsComms t t := (Keeps.refl t).comms

theorem Table.Puts.keepsComms {handle : Nat} {entry : Option (Entry Desc)} (puts : t.Puts handle entry t')
    (notComm : ∀ e d, entry = some e → e.desc ≠ some (.comm d)) : KeepsComms t t' := by
  intro h e' d found' isDesc'
  rcases puts.cases found' with ⟨-, isNew⟩ | ⟨-, found⟩
  · exact absurd isDesc' (notComm e' d isNew)
  · exact ⟨e', found, isDesc', rfl⟩

theorem Table.Adds.keepsComms {kind : Kind} {real handle : Handle} {desc : Option Desc}
    (adds : t.Adds kind real desc handle t') (notComm : ∀ d, desc ≠ some (.comm d)) : KeepsComms t t' := by
  obtain ⟨e, found, -, isDesc, -⟩ := adds.entry
  exact (adds.puts found).keepsComms fun f d isNew => some.inj isNew ▸ isDesc ▸ notComm d

theorem KeepsComms.trans {t'' : Table Desc} (one : KeepsComms t t') (two : KeepsComms t' t'') : KeepsComms t t'' := by
  intro h e'' d found'' isDesc''
  obtain ⟨e', found', isDesc', real'⟩ := two h e'' d found'' isDesc''
  obtain ⟨e, found, isDesc, real⟩ := one h e' d found' isDesc'
  exact ⟨e, found, isDesc, real'.trans real⟩

theorem TypeAction.Does.comms {up : UpperHalf} {s s' : TypeState} {action : TypeAction} (does : action.Does up s s') :
    KeepsComms s.table s'.table := by
  cases action with
  | construct call real =>
    obtain ⟨-, handle, t₁, t, frame, -, adds, rfl⟩ := does
    exact frame.keeps.comms.trans (adds.keepsComms fun _ isComm => by cases isComm)
  | commit type =>
    obtain ⟨-, e, d, t, found, isDesc, modifies, rfl⟩ := does
    refine (modifies.puts found).keepsComms ?_
    rintro _ d' ⟨⟩
    simp [assignDatatype, isDesc]
  | free type => exact does.2.1.keeps.comms
  | release => exact does.1.keeps.comms
  | post | drained | complete => exact does.1.comms

end Keeps

section Sound

variable {job : Job} {r r' : Rank}

theorem CommsSound.initial {lh : LowerHalf} (hosts : Hosts job lh) : CommsSound job (.initial job lh) := by
  exact
    { recorded := fun h e d found => absurd found Table.find_initial_ne
      distinct := fun h e d h' e' d' found => absurd found Table.find_initial_ne
      apart := fun h e d found => absurd found Table.find_initial_ne
      world := ⟨_, hosts.world⟩
      self := ⟨_, hosts.self⟩
      twins := hosts.distinct
      freeing := fun q member => absurd member List.not_mem_nil
      nodup := List.nodup_nil }

theorem CommsSound.keep (sound : CommsSound job r) (keeps : KeepsComms r.types.table r'.types.table)
    (constant : r'.lower.constant = r.lower.constant) (freeing : r'.freeing = r.freeing)
    (comms : ∀ q obj, r.lower.comms q = some obj →
      ∃ handler, r'.lower.comms q = some { obj with errhandler := handler }) : CommsSound job r' := by
  refine
    { recorded := ?_
      distinct := ?_
      apart := ?_
      world := ?_
      self := ?_
      twins := constant ▸ sound.twins
      freeing := ?_
      nodup := freeing ▸ sound.nodup }
  · intro h e' d found' isDesc'
    obtain ⟨e, found, isDesc, real⟩ := keeps h e' d found' isDesc'
    obtain ⟨obj, isObj, size, members, cart⟩ := sound.recorded h e d found isDesc
    obtain ⟨handler, isObj'⟩ := comms e.real obj isObj
    exact ⟨{ obj with errhandler := handler }, real ▸ isObj', size, members, cart⟩
  · intro h e' d h₂ e₂' d₂ found' isDesc' found₂' isDesc₂'
    obtain ⟨e, found, isDesc, real⟩ := keeps h e' d found' isDesc'
    obtain ⟨e₂, found₂, isDesc₂, real₂⟩ := keeps h₂ e₂' d₂ found₂' isDesc₂'
    rw [real, real₂]
    exact sound.distinct h e d h₂ e₂ d₂ found isDesc found₂ isDesc₂
  · intro h e' d found' isDesc'
    obtain ⟨e, found, isDesc, real⟩ := keeps h e' d found' isDesc'
    rw [real, constant, freeing]
    exact sound.apart h e d found isDesc
  · obtain ⟨handler, isWorld⟩ := sound.world
    rw [constant]
    exact comms _ _ isWorld
  · obtain ⟨handler, isSelf⟩ := sound.self
    rw [constant]
    exact comms _ _ isSelf
  · intro q member
    rw [freeing] at member
    rw [constant]
    obtain ⟨isSome, rest⟩ := sound.freeing q member
    obtain ⟨obj, isObj⟩ := isSome_iff_exists.mp isSome
    obtain ⟨handler, isObj'⟩ := comms q obj isObj
    exact ⟨isSome_iff_exists.mpr ⟨_, isObj'⟩, rest⟩

theorem CommsSound.rest (sound : CommsSound job r) (keeps : KeepsComms r.types.table r'.types.table)
    (constant : r'.lower.constant = r.lower.constant) (freeing : r'.freeing = r.freeing)
    (comms : r'.lower.comms = r.lower.comms) : CommsSound job r' :=
  sound.keep keeps constant freeing fun _ obj isObj => ⟨obj.errhandler, comms ▸ isObj⟩

variable {parent real comm : Handle} {gid : Nat} {copies deletes : Int → Attr.Answer Nat}

theorem CommsSound.createComm {members : List Nat} {cart : Option (List (Nat × Bool))} {handle : Handle}
    (types : TypesSound job r) (sound : CommsSound job r)
    (made : r.createComm job parent members cart real gid = some (handle, r')) : CommsSound job r' := by
  obtain ⟨realParent, comm, t, -, -, unused, added, rfl⟩ := Rank.createComm_eq made
  have adds := types.accounts.wellFormed.addVirtId added
  obtain ⟨e, found, isReal, isDesc, -⟩ := adds.entry
  have differs : ∀ q obj, r.lower.comms q = some obj → q ≠ real := by
    rintro q obj isObj rfl
    exact nomatch unused.symm.trans isObj
  have still : ∀ q obj, r.lower.comms q = some obj →
      (r.lower.setComm real ⟨members, cart, comm.errhandler⟩).comms q = some obj :=
    fun q obj isObj => (update_of_ne (differs q obj isObj) _ _).trans isObj
  have entryCases : ∀ h f, t.find h = some f → h = handle ∧ e = f ∨ h ≠ handle ∧ r.types.table.find h = some f :=
    fun h f isEntry => ((adds.puts found).cases isEntry).imp_left (And.imp_right some.inj)
  obtain ⟨handlerWorld, isWorld⟩ := sound.world
  obtain ⟨handlerSelf, isSelf⟩ := sound.self
  have oldReal : ∀ h f d, r.types.table.find h = some f → f.desc = some (.comm d) → f.real ≠ real := by
    intro h f d before hasDesc
    obtain ⟨obj, isObj, -⟩ := sound.recorded h f d before hasDesc
    exact differs _ obj isObj
  refine
    { recorded := ?_
      distinct := ?_
      apart := ?_
      world := ⟨_, still _ _ isWorld⟩
      self := ⟨_, still _ _ isSelf⟩
      twins := sound.twins
      freeing := ?_
      nodup := sound.nodup }
  · intro h f d isEntry hasDesc
    rcases entryCases h f isEntry with ⟨-, rfl⟩ | ⟨-, before⟩
    · cases isDesc.symm.trans hasDesc
      exact ⟨_, isReal.symm ▸ update_self _ _ _, rfl, rfl, rfl⟩
    · obtain ⟨obj, isObj, rest⟩ := sound.recorded h f d before hasDesc
      exact ⟨obj, still _ _ isObj, rest⟩
  · intro h f d h₂ f₂ d₂ isEntry hasDesc isEntry₂ hasDesc₂ same
    rcases entryCases h f isEntry with ⟨rfl, rfl⟩ | ⟨-, before⟩
    · rcases entryCases h₂ f₂ isEntry₂ with ⟨rfl, rfl⟩ | ⟨-, before₂⟩
      · rfl
      · exact absurd (same.symm.trans isReal) (oldReal h₂ f₂ d₂ before₂ hasDesc₂)
    · rcases entryCases h₂ f₂ isEntry₂ with ⟨rfl, rfl⟩ | ⟨-, before₂⟩
      · exact absurd (same.trans isReal) (oldReal h f d before hasDesc)
      · exact sound.distinct h f d h₂ f₂ d₂ before hasDesc before₂ hasDesc₂ same
  · intro h f d isEntry hasDesc
    rcases entryCases h f isEntry with ⟨-, rfl⟩ | ⟨-, before⟩
    · rw [isReal]
      refine ⟨(differs _ _ isWorld).symm, (differs _ _ isSelf).symm, fun member => ?_⟩
      obtain ⟨obj, isObj⟩ := isSome_iff_exists.mp (sound.freeing real member).1
      exact nomatch unused.symm.trans isObj
    · exact sound.apart h f d before hasDesc
  · intro q member
    obtain ⟨isSome, rest⟩ := sound.freeing q member
    obtain ⟨obj, isObj⟩ := isSome_iff_exists.mp isSome
    exact ⟨isSome_iff_exists.mpr ⟨obj, still q obj isObj⟩, rest⟩

theorem CommsSound.freeComm (types : TypesSound job r) (sound : CommsSound job r)
    (isComm : (commDesc r.types.table comm).isSome = true) (freed : r.freeComm job comm deletes = some r') :
    CommsSound job r' := by
  obtain ⟨keyvals, rfl | ⟨real, t, isReal, isFreed, rfl⟩⟩ := Rank.freeComm_eq freed
  · exact sound.rest (.refl _) rfl rfl rfl
  · obtain ⟨d, isComm⟩ := isSome_iff_exists.mp isComm
    obtain ⟨e, found, isDesc⟩ := commDesc_eq_some.mp isComm
    obtain rfl : e.real = real := mem_unique (getRealId_of_find found) isReal
    have frees := types.accounts.wellFormed.freeVirtId isFreed
    rw [handleValue_of_lt (Table.find_small found)] at frees
    have before : ∀ h f, t.find h = some f → h ≠ comm ∧ r.types.table.find h = some f := fun _ _ => frees.before
    obtain ⟨notWorld, notSelf, notFreeing⟩ := sound.apart comm e d found isDesc
    refine
      { recorded := fun h f d isEntry => sound.recorded h f d (before h f isEntry).2
        distinct := fun h f d h' f' d' isEntry hasDesc isEntry' =>
          sound.distinct h f d h' f' d' (before h f isEntry).2 hasDesc (before h' f' isEntry').2
        apart := ?_
        world := sound.world
        self := sound.self
        twins := sound.twins
        freeing := ?_
        nodup := List.nodup_cons.mpr ⟨notFreeing, sound.nodup⟩ }
    · intro h f d' isEntry hasDesc
      obtain ⟨differs, isEntry⟩ := before h f isEntry
      obtain ⟨apartWorld, apartSelf, apartFreeing⟩ := sound.apart h f d' isEntry hasDesc
      refine ⟨apartWorld, apartSelf, fun member => ?_⟩
      rcases List.mem_cons.mp member with same | member
      · exact differs (sound.distinct h f d' comm e d isEntry hasDesc found isDesc same)
      · exact apartFreeing member
    · intro q member
      rcases List.mem_cons.mp member with rfl | member
      · obtain ⟨obj, isObj, -⟩ := sound.recorded comm e d found isDesc
        exact ⟨isSome_iff_exists.mpr ⟨obj, isObj⟩, notWorld, notSelf⟩
      · exact sound.freeing q member

theorem CommsSound.barrierDone (sound : CommsSound job r) (member : real ∈ r.freeing) :
    CommsSound job { r with lower := r.lower.freeComm real, freeing := r.freeing.erase real } := by
  obtain ⟨-, notWorld, notSelf⟩ := sound.freeing real member
  have still : ∀ q obj, q ≠ real → r.lower.comms q = some obj → (r.lower.freeComm real).comms q = some obj :=
    fun q obj differs isObj => (update_of_ne differs _ _).trans isObj
  obtain ⟨handlerWorld, isWorld⟩ := sound.world
  obtain ⟨handlerSelf, isSelf⟩ := sound.self
  refine
    { recorded := ?_
      distinct := sound.distinct
      apart := ?_
      world := ⟨_, still _ _ notWorld.symm isWorld⟩
      self := ⟨_, still _ _ notSelf.symm isSelf⟩
      twins := sound.twins
      freeing := ?_
      nodup := sound.nodup.erase real }
  · intro h e d found isDesc
    obtain ⟨obj, isObj, rest⟩ := sound.recorded h e d found isDesc
    have differs : e.real ≠ real := fun same => (sound.apart h e d found isDesc).2.2 (same ▸ member)
    exact ⟨obj, still _ _ differs isObj, rest⟩
  · intro h e d found isDesc
    obtain ⟨apartWorld, apartSelf, apartFreeing⟩ := sound.apart h e d found isDesc
    exact ⟨apartWorld, apartSelf, fun isErased => apartFreeing (List.mem_of_mem_erase isErased)⟩
  · intro q isErased
    obtain ⟨differs, isFreeing⟩ := sound.nodup.mem_erase_iff.mp isErased
    obtain ⟨isSome, rest⟩ := sound.freeing q isFreeing
    obtain ⟨obj, isObj⟩ := isSome_iff_exists.mp isSome
    exact ⟨isSome_iff_exists.mpr ⟨obj, still q obj differs isObj⟩, rest⟩

theorem CommsSound.dupComm (types : TypesSound job r) (sound : CommsSound job r)
    (dup : r.dupComm job parent real gid copies deletes = some r') : CommsSound job r' := by
  obtain ⟨members, cart, handle, r₁, keyvals, made, done⟩ := Rank.dupComm_eq dup
  obtain ⟨types₁, isComm⟩ := types.createComm made
  have types₂ : TypesSound job { r₁ with keyvals := keyvals } := types₁.rest rfl rfl rfl rfl
  have sound₂ : CommsSound job { r₁ with keyvals := keyvals } :=
    (sound.createComm types made).rest (.refl _) rfl rfl rfl
  rcases done with rfl | freed
  · exact sound₂
  · exact sound₂.freeComm types₂ isComm freed

theorem CommsSound.setErrhandler {handler : Errhandler} (sound : CommsSound job r)
    (set : r.setErrhandler job comm handler = some r') : CommsSound job r' := by
  obtain ⟨real, -, set⟩ := bind_eq_some_iff.mp set
  obtain ⟨obj, isObj, rfl⟩ := map_eq_some_iff.mp set
  refine sound.keep (.refl _) rfl rfl fun q obj' isObj' => ?_
  by_cases same : q = real
  · subst same
    obtain rfl := mem_unique isObj isObj'
    exact ⟨handler, update_self _ _ _⟩
  · exact ⟨obj'.errhandler, (update_of_ne same _ _).trans isObj'⟩

end Sound

section Run

variable {job : Job} {picks : Picks} {r r' : Rank} {new : LowerHalf} {t : Table Desc} {lower : LowerHalf}

/-- A live communicator after the loop: as its descriptor has it, and with the error handler of the
new `MPI_COMM_WORLD`. -/
theorem Rebuilding.comm_after {world : CommObj} (types : TypesSound job r) (sound : CommsSound job r)
    (rebuilding : Rebuilding job picks r new world r.types.table.reconstructOrder (t, lower)) {h : Handle} {e : Entry Desc}
    {d : CommDesc} (found : r.types.table.find h = some e) (isDesc : e.desc = some (.comm d)) :
    ∃ obj, t.find h = some (e.rebuilt (picks.object h)) ∧ (e.rebuilt (picks.object h)).real = picks.object h ∧
      r.lower.comms e.real = some obj ∧ new.comms (picks.object h) = none ∧
      lower.comms (picks.object h) = some { obj with errhandler := world.errhandler } := by
  have shape := types.accounts.wellFormed.shape
  obtain rfl := Table.find_virt found
  have member := shape.mem_reconstructOrder.mpr found
  obtain ⟨obj, isObj, size, members, cart⟩ := sound.recorded _ e d found isDesc
  refine ⟨obj, rebuilding.table.remade e member, ?_, isObj, rebuilding.comms.unused e member ⟨d, isDesc⟩, ?_⟩
  · rw [Entry.rebuilt, if_pos (isDesc ▸ rfl)]
  · rw [rebuilding.comms.made e member d isDesc, size, members, cart, List.take_length]

theorem CommsSound.restart (types : TypesSound job r) (sound : CommsSound job r) (hosts : Hosts job new)
    (taken : r.restart job new picks = some r') : CommsSound job r' := by
  obtain ⟨⟨t, lower⟩, ran, rfl⟩ := map_eq_some_iff.mp taken
  have shape := types.accounts.wellFormed.shape
  have rebuilding := reconstructDescriptors_rebuilt types hosts ran
  have constant : lower.constant = new.constant := rebuilding.comms.constant
  have entryCases : ∀ h e' d, t.find h = some e' → e'.desc = some (.comm d) → ∃ e, r.types.table.find h = some e ∧
      e.desc = some (.comm d) ∧ e'.real = picks.object h := by
    intro h e' d found' isDesc'
    rw [rebuilding.table.find shape] at found'
    obtain ⟨e, found, rfl⟩ := map_eq_some_iff.mp found'
    rw [e.rebuilt_desc] at isDesc'
    refine ⟨e, found, isDesc', ?_⟩
    rw [Entry.rebuilt, if_pos (isDesc' ▸ rfl)]
  have keptWorld := rebuilding.comms.kept _ _ hosts.world
  have keptSelf := rebuilding.comms.kept _ _ hosts.self
  refine
    { recorded := ?_
      distinct := ?_
      apart := ?_
      world := ⟨.errorsAreFatal, show lower.comms (lower.constant job.commWorld) = _ from constant ▸ keptWorld⟩
      self := ⟨.errorsAreFatal, show lower.comms (lower.constant job.commSelf) = _ from constant ▸ keptSelf⟩
      twins := show lower.constant job.commWorld ≠ lower.constant job.commSelf from constant ▸ hosts.distinct
      freeing := fun q member => absurd member List.not_mem_nil
      nodup := List.nodup_nil }
  · intro h e' d found' isDesc'
    obtain ⟨e, found, isDesc, hasReal⟩ := entryCases h e' d found' isDesc'
    obtain ⟨obj, -, -, isObj, -, isObj'⟩ := rebuilding.comm_after types sound found isDesc
    obtain ⟨obj₀, isObj₀, rest⟩ := sound.recorded h e d found isDesc
    obtain rfl := mem_unique isObj₀ isObj
    exact ⟨{ obj₀ with errhandler := .errorsAreFatal }, hasReal.symm ▸ isObj', rest⟩
  · intro h e' d h₂ e₂' d₂ found' isDesc' found₂' isDesc₂' same
    obtain ⟨e, found, isDesc, hasReal⟩ := entryCases h e' d found' isDesc'
    obtain ⟨e₂, found₂, isDesc₂, hasReal₂⟩ := entryCases h₂ e₂' d₂ found₂' isDesc₂'
    obtain rfl := Table.find_virt found
    obtain rfl := Table.find_virt found₂
    rw [hasReal, hasReal₂] at same
    exact rebuilding.comms.distinct e (shape.mem_reconstructOrder.mpr found) ⟨d, isDesc⟩ e₂
      (shape.mem_reconstructOrder.mpr found₂) ⟨d₂, isDesc₂⟩ same
  · intro h e' d found' isDesc'
    obtain ⟨e, found, isDesc, hasReal⟩ := entryCases h e' d found' isDesc'
    obtain ⟨obj, -, -, -, unused, -⟩ := rebuilding.comm_after types sound found isDesc
    show e'.real ≠ lower.constant job.commWorld ∧ e'.real ≠ lower.constant job.commSelf ∧ e'.real ∉ []
    rw [hasReal, constant]
    refine ⟨fun same => ?_, fun same => ?_, List.not_mem_nil⟩
    · cases (same ▸ unused).symm.trans hosts.world
    · cases (same ▸ unused).symm.trans hosts.self

theorem CommsSound.step {action : RankAction job} (types : TypesSound job r) (sound : CommsSound job r)
    (taken : r.step job action = some r') : CommsSound job r' := by
  cases action with
  | types action =>
    obtain ⟨stepped, constant, comms, freeing⟩ := Rank.typeStep_comms taken
    exact sound.rest (types.accounts.step stepped).2.comms constant freeing comms
  | createComm parent members cart real gid =>
    obtain ⟨-, made⟩ := ite_none_right_eq_some.mp taken
    obtain ⟨⟨handle, r₁⟩, isMade, rfl⟩ := map_eq_some_iff.mp made
    exact sound.createComm types isMade
  | dupComm parent real gid copies deletes =>
    obtain ⟨-, dup⟩ := ite_none_right_eq_some.mp taken
    exact sound.dupComm types dup
  | freeComm comm deletes =>
    obtain ⟨isComm, freed⟩ := ite_none_right_eq_some.mp taken
    exact sound.freeComm types isComm freed
  | barrierDone real =>
    obtain ⟨member, done⟩ := ite_none_right_eq_some.mp taken
    cases done
    exact sound.barrierDone member
  | setErrhandler comm handler =>
    obtain ⟨-, set⟩ := ite_none_right_eq_some.mp taken
    exact sound.setErrhandler set
  | keyval op =>
    cases taken
    exact sound.rest (.refl _) rfl rfl rfl
  | setAttr | deleteAttr =>
    obtain ⟨-, done⟩ := ite_none_right_eq_some.mp taken
    cases done
    exact sound.rest (.refl _) rfl rfl rfl
  | newGroup d real | newOp d real | newFile real =>
    obtain ⟨⟨handle, t⟩, added, rfl⟩ := map_eq_some_iff.mp taken
    exact sound.rest ((types.accounts.wellFormed.addVirtId added).keepsComms fun _ => nofun) rfl rfl rfl
  | freeHandle handle =>
    obtain ⟨-, freed⟩ := ite_none_right_eq_some.mp taken
    obtain ⟨t, isFreed, rfl⟩ := map_eq_some_iff.mp freed
    exact sound.rest (types.accounts.wellFormed.freeVirtId isFreed).keeps.comms rfl rfl rfl
  | restart new picks => exact sound.restart types new.2 taken

theorem reachable_commsSound (reached : Reachable (rankMachine job) r) : CommsSound job r := by
  refine reached.invariant (CommsSound job) ?_ ?_
  · rintro _ ⟨lh, hosts, rfl⟩
    exact .initial hosts
  · exact fun r action r' before sound taken => sound.step (reachable_typesSound before) taken

theorem commObj_restart (types : TypesSound job r) (sound : CommsSound job r) (hosts : Hosts job new)
    (taken : r.restart job new picks = some r') {comm : Handle} (isComm : r.isComm job comm = true) :
    ∃ obj, r.commObj job comm = some obj ∧ r'.commObj job comm = some { obj with errhandler := .errorsAreFatal } := by
  obtain ⟨⟨t, lower⟩, ran, rfl⟩ := map_eq_some_iff.mp taken
  have rebuilding := reconstructDescriptors_rebuilt types hosts ran
  have constant : lower.constant = new.constant := rebuilding.comms.constant
  -- A constant has its value in both lower halves.
  have predefined : ∀ upper ∈ job.up.constants, ∀ obj obj', r.lower.comms (r.lower.constant upper) = some obj →
      new.comms (new.constant upper) = some obj' →
      r.commObj job upper = some obj ∧ (getRealId job.up lower t upper).bind lower.comms = some obj' := by
    intro upper isConstant obj obj' isObj isObj'
    have accounts := rebuilding.types.accounts
    have real := @getRealId_of_constant _ r.lower _ _ types.accounts.wellFormed.shape types.accounts.reserved isConstant
    have real' := @getRealId_of_constant _ lower _ _ accounts.wellFormed.shape accounts.reserved isConstant
    refine ⟨?_, ?_⟩
    · rw [Rank.commObj, Rank.realId, real, bind_some, isObj]
    · rw [real', bind_some, constant]
      exact rebuilding.comms.kept _ _ isObj'
  rcases Rank.isComm_cases isComm with rfl | rfl | ⟨e, d, found, isDesc⟩
  · obtain ⟨handler, isWorld⟩ := sound.world
    obtain ⟨before, after⟩ := predefined _ job.isWorld _ _ isWorld hosts.world
    exact ⟨_, before, after⟩
  · obtain ⟨handler, isSelf⟩ := sound.self
    obtain ⟨before, after⟩ := predefined _ job.isSelf _ _ isSelf hosts.self
    exact ⟨_, before, after⟩
  · obtain ⟨obj, isEntry, hasReal, isObj, -, isObj'⟩ := rebuilding.comm_after types sound found isDesc
    refine ⟨obj, ?_, ?_⟩
    · rw [Rank.commObj, Rank.realId, getRealId_of_find found, bind_some, isObj]
    · show (getRealId job.up lower t comm).bind lower.comms = _
      rw [getRealId_of_find isEntry, hasReal, bind_some, isObj']

def Rank.errhandler (job : Job) (r : Rank) (comm : Handle) : Option Errhandler :=
  (r.commObj job comm).map (·.errhandler)

theorem comm_settings_survive_restart_iff (reached : Reachable (rankMachine job) r) (hosts : Hosts job new)
    (fresh : picks.Fresh r.types.table new) :
    ∃ r', r.restart job new picks = some r' ∧
      (∀ comm, r.isComm job comm = true → ∃ settings, r.settings job comm = some settings ∧
        (r'.settings job comm).map CommSettings.toCommShape = some settings.toCommShape) ∧
      ((∀ comm, r.isComm job comm = true → r'.settings job comm = r.settings job comm) ↔
        ∀ comm, r.isComm job comm = true → r.errhandler job comm = some .errorsAreFatal) := by
  have types := reachable_typesSound reached
  have sound := reachable_commsSound reached
  obtain ⟨⟨t, lower⟩, ran⟩ := reconstructDescriptors_returns types hosts fresh
  have taken : r.restart job new picks = some { r.setTable t with
      lower := lower, freeing := [], meaning := fun h => (t.find h).bind fun e => lower.types e.real } := by
    rw [Rank.restart, ran, map_some]
  generalize isAfter : ({ r.setTable t with
      lower := lower, freeing := [], meaning := fun h => (t.find h).bind fun e => lower.types e.real } : Rank) = r' at taken
  have keyvals : r'.keyvals = r.keyvals := by
    rw [← isAfter]
    rfl
  refine ⟨r', taken, ?_, ?_⟩
  · intro comm isComm
    obtain ⟨obj, before, after⟩ := commObj_restart types sound hosts taken isComm
    refine ⟨_, by rw [Rank.settings, before]; rfl, ?_⟩
    rw [Rank.settings, after, keyvals]
    rfl
  · refine forall_congr' fun comm => imp_congr_right fun isComm => ?_
    obtain ⟨obj, before, after⟩ := commObj_restart types sound hosts taken isComm
    rw [Rank.settings, Rank.settings, Rank.errhandler, before, after, keyvals]
    simp only [map_some, some.injEq, CommSettings.mk.injEq, true_and]
    exact eq_comm

/-- A run that sets an attribute on a duplicate of `MPI_COMM_WORLD`. -/
theorem comm_settings_survive_restart_iff_dup :
    ∃ r r', Reachable (rankMachine twoRankJob) r ∧ r.restart twoRankJob (startedAt 0) farPicks = some r' ∧
      r.isComm twoRankJob 0x10000002 = true ∧ (r.settings twoRankJob 0x10000002).map (·.attributes 0) = some (some 9) ∧
      (r'.settings twoRankJob 0x10000002).map CommSettings.toCommShape =
        (r.settings twoRankJob 0x10000002).map CommSettings.toCommShape := by
  have ran : ((rankMachine twoRankJob).run (.initial twoRankJob (startedAt 7))
      [.dupComm 0x44000000 1 0 (fun _ => ⟨[], 0, 0, false⟩) (fun _ => ⟨[], 0, 0, false⟩), .keyval (.create none none 0),
        .setAttr 0x10000002 0 9 ⟨[], 0, 0, false⟩]).map
        (fun r => (r.isComm twoRankJob 0x10000002, (r.settings twoRankJob 0x10000002).map (·.attributes 0))) =
      some (true, some (some 9)) := by decide +kernel
  obtain ⟨r, ran, ends⟩ := map_eq_some_iff.mp ran
  obtain ⟨isComm, hasValue⟩ := Prod.mk.inj ends
  have first : (rankMachine twoRankJob).initial (.initial twoRankJob (startedAt 7)) := ⟨_, startedAt_hosts 7, rfl⟩
  have reached := (Reachable.start first).run ran
  obtain ⟨r', taken, shapes, -⟩ := comm_settings_survive_restart_iff reached (startedAt_hosts 0) (farPicks_fresh _)
  obtain ⟨settings, before, after⟩ := shapes 0x10000002 isComm
  exact ⟨r, r', reached, taken, isComm, hasValue, after.trans (before ▸ rfl)⟩

/-- `MPI_Comm_set_errhandler(MPI_COMM_WORLD, MPI_ERRORS_RETURN)` and a restart. -/
theorem errhandler_lost_by_restart :
    ∃ r r', Reachable (rankMachine twoRankJob) r ∧ r.restart twoRankJob (startedAt 0) farPicks = some r' ∧
      r.isComm twoRankJob 0x44000000 = true ∧ r.errhandler twoRankJob 0x44000000 = some .errorsReturn ∧
      r'.errhandler twoRankJob 0x44000000 = some .errorsAreFatal := by
  have ran : ((rankMachine twoRankJob).run (.initial twoRankJob (startedAt 7))
      [.setErrhandler 0x44000000 .errorsReturn]).bind (fun r => (r.restart twoRankJob (startedAt 0) farPicks).map
        fun r' => (r.errhandler twoRankJob 0x44000000, r'.errhandler twoRankJob 0x44000000)) =
      some (some .errorsReturn, some .errorsAreFatal) := by decide +kernel
  obtain ⟨r, ran, rest⟩ := bind_eq_some_iff.mp ran
  obtain ⟨r', taken, ends⟩ := map_eq_some_iff.mp rest
  obtain ⟨before, after⟩ := Prod.mk.inj ends
  have first : (rankMachine twoRankJob).initial (.initial twoRankJob (startedAt 7)) := ⟨_, startedAt_hosts 7, rfl⟩
  exact ⟨r, r', (Reachable.start first).run ran, taken, rfl, before, after⟩

end Run

end Mana.VirtId
