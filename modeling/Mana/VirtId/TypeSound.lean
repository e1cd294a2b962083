import Mana.VirtId.Rank

/-! The datatypes of a rank. In every state the descriptor of a live datatype is the record of the
call that made it, and what the application may still use is in the lower half as it was made. -/

namespace Mana.VirtId
open Mana.Lib Option Function

/-- The new datatype may be used wherever the old one could. -/
structure TypeObj.Covers (new old : TypeObj) : Prop where
  typeMap : new.typeMap = old.typeMap
  committed : old.committed = true → new.committed = true

theorem TypeObj.Covers.refl (obj : TypeObj) : obj.Covers obj := ⟨rfl, id⟩

def DatatypeDesc.Records (d : DatatypeDesc) (call : TypeCall) : Prop :=
  { call.record with refs := d.refs, committed := d.committed } = d

/-- The datatype is what its recorded call makes of its components, or has been committed since. -/
def Recorded (value : Handle → Option TypeObj) (d : DatatypeDesc) (obj : TypeObj) : Prop :=
  ∃ call made, d.Records call ∧ call.denote value = some made ∧ obj.typeMap = made.typeMap ∧
    (obj.committed = true → made.committed = true ∨ d.committed = true)

section Records

variable {d : DatatypeDesc} {call : TypeCall} {value value' : Handle → Option TypeObj} {obj : TypeObj}

theorem DatatypeDesc.Records.components (records : d.Records call) : d.components = call.oldtypes := by
  rw [← records]
  exact call.record_components

theorem DatatypeDesc.Records.remake (records : d.Records call) (real : Handle → Option Handle) :
    d.remake real = call.lower real := by
  rw [← records]
  exact call.record_remake real

theorem Recorded.covers (recorded : Recorded value d obj)
    (covers : ∀ p ∈ d.components, ∀ old, value p = some old → ∃ new, value' p = some new ∧ new.Covers old) :
    Recorded value' d obj := by
  obtain ⟨call, made, records, denotes, sameMap, committed⟩ := recorded
  have related : ∀ p ∈ call.oldtypes, ∃ old new, value p = some old ∧ value' p = some new ∧ new.Covers old := by
    intro p member
    obtain ⟨old, isOld⟩ := TypeCall.denote_known denotes p member
    obtain ⟨new, isNew, isCover⟩ := covers p (records.components ▸ member) old isOld
    exact ⟨old, new, isOld, isNew, isCover⟩
  obtain ⟨made', made'', isMade', isMade'', isCover⟩ :=
    call.denote_rel TypeObj.Covers.refl (fun _ _ cover => cover.typeMap) related
  obtain rfl := mem_unique denotes isMade'
  refine ⟨call, made'', records, isMade'', sameMap.trans isCover.typeMap.symm, fun isCommitted => ?_⟩
  exact (committed isCommitted).imp_left isCover.committed

theorem Recorded.congr (recorded : Recorded value d obj) (same : ∀ p ∈ d.components, value' p = value p) :
    Recorded value' d obj :=
  recorded.covers fun p member old isOld => ⟨old, (same p member).trans isOld, .refl old⟩

theorem Recorded.withRefs (recorded : Recorded value d obj) (refs : Int) :
    Recorded value { d with refs := refs } obj := by
  obtain ⟨call, made, records, rest⟩ := recorded
  refine ⟨call, made, ?_, rest⟩
  rw [DatatypeDesc.Records, ← records]

end Records

/-- The same for all steps that do not make or commit a datatype. -/
def KeepsTypes (t t' : Table Desc) : Prop :=
  ∀ h e', t'.find h = some e' →
    (∃ e refs, t.find h = some e ∧ e' = withRefs refs e) ∨ e'.Described ∧ e'.desc.bind Desc.datatype? = none

section Keeps

variable {t t' : Table Desc} {h : Nat} {e e' : Entry Desc}
variable {desc : Option Desc} {handle real : Handle} {kind : Kind}

theorem Entry.Described.congr (described : e.Described) (kinds : e'.desc.map Desc.kind = e.desc.map Desc.kind)
    (sameVirt : e'.virt = e.virt) : e'.Described := by
  unfold Entry.Described at described ⊢
  rw [sameVirt]
  cases isDesc : e.desc with
  | none =>
    rw [isDesc, map_none, map_eq_none_iff] at kinds
    rw [isDesc] at described
    rw [kinds]
    exact described
  | some desc =>
    rw [isDesc, map_some, map_eq_some_iff] at kinds
    obtain ⟨desc', isDesc', sameKind⟩ := kinds
    rw [isDesc] at described
    rw [isDesc']
    exact described.trans (congrArg Kind.code sameKind.symm)

theorem Entry.Described.withRefs (described : e.Described) (refs : Int) : (withRefs refs e).Described := by
  refine described.congr ?_ rfl
  cases isDesc : e.desc with
  | none => simp only [VirtId.withRefs, assignDatatype, isDesc, map_none]
  | some desc => cases desc <;> simp only [VirtId.withRefs, assignDatatype, isDesc, map_some, Desc.kind]

theorem Keeps.types (keeps : Keeps t t') : KeepsTypes t t' := by
  intro h e' found'
  refine (keeps h e' found').imp_right fun ⟨isKind, noDesc⟩ => ?_
  rw [Entry.Described, noDesc, Table.find_virt found']
  exact ⟨.inl isKind, rfl⟩

theorem Table.Adds.described (adds : t.Adds kind real desc handle t')
    (ofKind : (desc.map Desc.kind = some kind) ∨ desc = none ∧ (kind = .request ∨ kind = .file)) {e' : Entry Desc}
    (found' : t'.find h = some e') : t.find h = some e' ∨ h = handle ∧ e'.desc = desc ∧ e'.Described := by
  obtain ⟨e, found, -, isDesc, -⟩ := adds.entry
  rcases (adds.puts found).cases found' with ⟨rfl, isNew⟩ | ⟨-, before⟩
  · cases isNew
    refine .inr ⟨rfl, isDesc, ?_⟩
    unfold Entry.Described
    rw [isDesc, Table.find_virt found, adds.ofKind]
    rcases ofKind with isKind | ⟨rfl, isKind⟩
    · obtain ⟨d, rfl, rfl⟩ := map_eq_some_iff.mp isKind
      rfl
    · exact isKind.imp (congrArg Kind.code) (congrArg Kind.code)
  · exact .inl before

theorem Table.Adds.keepsTypes (adds : t.Adds kind real desc handle t') (notType : desc.bind Desc.datatype? = none)
    (ofKind : (desc.map Desc.kind = some kind) ∨ desc = none ∧ (kind = .request ∨ kind = .file)) : KeepsTypes t t' := by
  intro h e' found'
  rcases adds.described ofKind found' with found | ⟨-, isDesc, described⟩
  · exact .inl ⟨e', (withRefs_self e').imp fun _ same => ⟨found, same⟩⟩
  · exact .inr ⟨described, isDesc ▸ notType⟩

end Keeps

structure TypesSound (job : Job) (r : Rank) : Prop where
  accounts : Accounts job.up r.types []
  described : ∀ h e, r.types.table.find h = some e → e.Described
  recorded : ∀ h e d, r.types.table.find h = some e → e.desc = some (.datatype d) →
    ∃ obj, r.meaning h = some obj ∧ Recorded (r.value job) d obj
  constants : ∀ p ∈ job.up.constants, r.meaning p = none
  hosts : ∀ p m, job.predefined p = some m → r.lower.types (r.lower.constant p) = some ⟨m, true⟩
  real : ∀ h ∈ r.types.owned, ∀ e, r.types.table.find h = some e → r.lower.types e.real = r.meaning h
  apart : ∀ h ∈ r.types.owned, ∀ e, r.types.table.find h = some e → ∀ p m, job.predefined p = some m →
    e.real ≠ r.lower.constant p
  distinct : ∀ h ∈ r.types.owned, ∀ h' ∈ r.types.owned, ∀ e e', r.types.table.find h = some e →
    r.types.table.find h' = some e' → e.real = e'.real → h = h'

section Sound

variable {job : Job} {r r' : Rank}
variable {lh : LowerHalf} {h real handle p : Handle} {t : Table Desc} {call : TypeCall}

theorem TypesSound.initial (hosts : Hosts job lh) : TypesSound job (.initial job lh) := by
  exact
    { accounts := .initial
      described := fun h e found => absurd found Table.find_initial_ne
      recorded := fun h e d found => absurd found Table.find_initial_ne
      constants := fun _ _ => rfl
      hosts := hosts.types
      real := fun h member => absurd member List.not_mem_nil
      apart := fun h member => absurd member List.not_mem_nil
      distinct := fun h member => absurd member List.not_mem_nil }

theorem TypesSound.owned (sound : TypesSound job r) (owned : h ∈ r.types.owned) :
    ∃ e d, r.types.table.find h = some e ∧ e.desc = some (.datatype d) :=
  nodeOf_isSome.mp (sound.accounts.held h (List.mem_append_left _ owned))

theorem TypesSound.keep (sound : TypesSound job r) (accounts : Accounts job.up r'.types [])
    (keeps : KeepsTypes r.types.table r'.types.table) (owned : ∀ h ∈ r'.types.owned, h ∈ r.types.owned)
    (meaning : r'.meaning = r.meaning) (constant : r'.lower.constant = r.lower.constant)
    (hosts : ∀ p m, job.predefined p = some m → r'.lower.types (r.lower.constant p) = r.lower.types (r.lower.constant p))
    (types : ∀ h ∈ r'.types.owned, ∀ e, r.types.table.find h = some e →
      r'.lower.types e.real = r.lower.types e.real) : TypesSound job r' := by
  have value : r'.value job = r.value job := by
    funext p
    simp only [Rank.value, meaning]
  -- The entry of a datatype was there before, with the same real handle.
  have before : ∀ h e' d', r'.types.table.find h = some e' → e'.desc = some (.datatype d') →
      ∃ e d refs, r.types.table.find h = some e ∧ e.desc = some (.datatype d) ∧ d' = { d with refs := refs } ∧
        e'.real = e.real := by
    intro h e' d' found' isDesc'
    rcases keeps h e' found' with ⟨e, refs, found, rfl⟩ | ⟨-, notType⟩
    · obtain ⟨d, isDesc, same⟩ := withRefs_desc isDesc'
      exact ⟨e, d, refs, found, isDesc, same, rfl⟩
    · rw [isDesc'] at notType
      cases notType
  have ownedBefore : ∀ h ∈ r'.types.owned, ∀ e', r'.types.table.find h = some e' →
      ∃ e, r.types.table.find h = some e ∧ e'.real = e.real := by
    intro h member e' found'
    obtain ⟨e'', d', found'', isDesc'⟩ := nodeOf_isSome.mp (accounts.held h (List.mem_append_left _ member))
    obtain rfl := mem_unique found' found''
    obtain ⟨e, d, refs, found, -, -, real⟩ := before h e' d' found' isDesc'
    exact ⟨e, found, real⟩
  refine
    { accounts := accounts
      described := ?_
      recorded := ?_
      constants := meaning ▸ sound.constants
      hosts := ?_
      real := ?_
      apart := ?_
      distinct := ?_ }
  · intro h e' found'
    rcases keeps h e' found' with ⟨e, refs, found, rfl⟩ | ⟨described, -⟩
    · exact (sound.described h e found).withRefs refs
    · exact described
  · intro h e' d' found' isDesc'
    obtain ⟨e, d, refs, found, isDesc, rfl, -⟩ := before h e' d' found' isDesc'
    obtain ⟨obj, isObj, recorded⟩ := sound.recorded h e d found isDesc
    exact ⟨obj, meaning ▸ isObj, value ▸ recorded.withRefs refs⟩
  · intro p m isType
    rw [constant, hosts p m isType]
    exact sound.hosts p m isType
  · intro h member e' found'
    obtain ⟨e, found, real⟩ := ownedBefore h member e' found'
    rw [real, types h member e found, meaning]
    exact sound.real h (owned h member) e found
  · intro h member e' found'
    obtain ⟨e, found, real⟩ := ownedBefore h member e' found'
    rw [real, constant]
    exact sound.apart h (owned h member) e found
  · intro h member h₂ member₂ e' e₂' found' found₂'
    obtain ⟨e, found, real⟩ := ownedBefore h member e' found'
    obtain ⟨e₂, found₂, real₂⟩ := ownedBefore h₂ member₂ e₂' found₂'
    rw [real, real₂]
    exact sound.distinct h (owned h member) h₂ (owned h₂ member₂) e e₂ found found₂

theorem TypesSound.rest (sound : TypesSound job r) (types : r'.types = r.types) (meaning : r'.meaning = r.meaning)
    (constant : r'.lower.constant = r.lower.constant) (lower : r'.lower.types = r.lower.types) : TypesSound job r' := by
  refine sound.keep (types ▸ sound.accounts) (types ▸ (Keeps.refl _).types) (fun h member => types ▸ member) meaning constant ?_ ?_
  · exact fun p m _ => congrFun lower _
  · exact fun h _ e _ => congrFun lower _

theorem TypesSound.add {kind : Kind} {desc : Option Desc} (sound : TypesSound job r)
    (adds : r.types.table.Adds kind real desc handle t) (notType : desc.bind Desc.datatype? = none)
    (ofKind : desc.map Desc.kind = some kind ∨ desc = none ∧ kind = .file) (notRequest : kind ≠ .request) :
    TypesSound job (r.setTable t) := by
  refine sound.keep (sound.accounts.add adds notType (.inr notRequest)) ?_ (fun h member => member) rfl rfl
    (fun _ _ _ => rfl) fun _ _ _ _ => rfl
  exact adds.keepsTypes notType (ofKind.imp_right fun ⟨noDesc, isFile⟩ => ⟨noDesc, .inr isFile⟩)

theorem TypesSound.remove {handle : Nat} (sound : TypesSound job r) (frees : r.types.table.Frees handle t)
    (notType : nodeOf r.types.table handle = none) : TypesSound job (r.setTable t) :=
  sound.keep (sound.accounts.remove frees notType) frees.keeps.types (fun _ member => member) rfl rfl (fun _ _ _ => rfl)
    fun _ _ _ _ => rfl

theorem TypesSound.not_type (sound : TypesSound job r) (isKind : kindOf h ≠ Kind.datatype.code) :
    nodeOf r.types.table h = none := by
  refine nodeOf_eq_none fun e d found isDesc => ?_
  have described := sound.described h e found
  rw [Entry.Described, isDesc, Table.find_virt found] at described
  exact isKind described

theorem TypesSound.value_of_live (sound : TypesSound job r) {e : Entry Desc} (found : r.types.table.find h = some e) :
    r.value job h = r.meaning h := by
  cases isType : job.predefined h with
  | none => simp only [Rank.value, isType, map_none, none_or]
  | some m =>
    have absent := sound.accounts.wellFormed.shape.find_constant sound.accounts.reserved (job.isType h m isType)
    exact nomatch absent.symm.trans found

theorem TypesSound.value_of_constant (sound : TypesSound job r) (isConstant : p ∈ job.up.constants) :
    r.value job p = (job.predefined p).map fun m => ⟨m, true⟩ := by
  rw [Rank.value, sound.constants p isConstant, or_none]

theorem getRealId_of_find {up : UpperHalf} {lh : LowerHalf} {t : Table Desc} {h : Handle} {e : Entry Desc}
    (found : t.find h = some e) : getRealId up lh t h = some e.real := by
  have value : handleValue up.wide h = h := handleValue_of_lt (Table.find_small found)
  simp only [getRealId, Table.lookup_find, value, found]

theorem getRealId_of_constant {up : UpperHalf} {lh : LowerHalf} {t : Table Desc} {p : Handle} (shape : t.Shape)
    (reserved : t.reserved = up.constants.foldl (reserveConstantSlot up.wide) []) (isConstant : p ∈ up.constants) :
    getRealId up lh t p = some (lh.constant p) := by
  have absent : t.find p = none := shape.find_constant reserved isConstant
  simp only [getRealId, Table.lookup_find, up.fits p isConstant, absent, isConstant, if_true]

/-- What the lower half has for a datatype that the application may name. -/
theorem TypesSound.lower_value (sound : TypesSound job r) {obj : TypeObj} (usable : r.types.usable job.up p = true)
    (isValue : r.value job p = some obj) : ∃ q, r.realId job p = some q ∧ r.lower.types q = some obj := by
  simp only [TypeState.usable, Bool.or_eq_true, decide_eq_true_eq] at usable
  rcases usable with isConstant | owned
  · refine ⟨_, getRealId_of_constant sound.accounts.wellFormed.shape sound.accounts.reserved isConstant, ?_⟩
    rw [sound.value_of_constant isConstant] at isValue
    obtain ⟨m, isType, rfl⟩ := map_eq_some_iff.mp isValue
    exact sound.hosts p m isType
  · obtain ⟨e, d, found, isDesc⟩ := sound.owned owned
    refine ⟨e.real, getRealId_of_find found, ?_⟩
    rw [sound.real p owned e found, ← sound.value_of_live found]
    exact isValue

theorem LowerHalf.createType_eq {lh' : LowerHalf} (made : lh.createType call handle = some lh') :
    lh.types handle = none ∧ ∃ obj, call.denote lh.types = some obj ∧ lh' = lh.setType handle obj := by
  obtain ⟨unused, made⟩ := ite_none_left_eq_some.mp made
  obtain ⟨obj, denotes, rfl⟩ := map_eq_some_iff.mp made
  exact ⟨not_isSome_iff_eq_none.mp unused, obj, denotes, rfl⟩

theorem TypesSound.lower_denote (sound : TypesSound job r) {call lowered : TypeCall} {obj obj' : TypeObj}
    (usable : ∀ p ∈ call.oldtypes, r.types.usable job.up p = true) (denotes : call.denote (r.value job) = some obj)
    (isLowered : call.lower (r.realId job) = some lowered) (made : lowered.denote r.lower.types = some obj') :
    obj' = obj := by
  have known := TypeCall.denote_known denotes
  obtain ⟨lowered', isLowered', same⟩ := @TypeCall.lower_denote (r.realId job) call fun p member => by
    obtain ⟨old, isOld⟩ := known p member
    obtain ⟨q, isReal, -⟩ := sound.lower_value (usable p member) isOld
    exact ⟨q, isReal⟩
  obtain rfl := mem_unique isLowered' isLowered
  have denotes' := @TypeCall.denote_mono _ (fun p => (r.realId job p).bind r.lower.types) _ _ denotes
    fun p member old isOld => by
      obtain ⟨q, isReal, isObj⟩ := sound.lower_value (usable p member) isOld
      rw [isReal, bind_some, isObj]
  rw [same] at made
  exact mem_unique made denotes'

/-- A datatype gets a real handle that no other one has: it is new, or has been committed. -/
theorem TypesSound.assign {types : TypeState} {e : Entry Desc} {d : DatatypeDesc} {obj : TypeObj}
    (sound : TypesSound job r) (accounts : Accounts job.up types []) (found : types.table.find h = some e)
    (isDesc : e.desc = some (.datatype d)) (described : e.Described) (recorded : Recorded (r.value job) d obj)
    (parts : ∀ p ∈ d.components, p ∈ job.up.constants ∨ (nodeOf r.types.table p).isSome = true)
    (covers : (nodeOf r.types.table h).isSome = true → ∀ old, r.meaning h = some old → obj.Covers old)
    (others : ∀ h' f, types.table.find h' = some f → h' ≠ h →
      ∃ f₀ refs, r.types.table.find h' = some f₀ ∧ f = withRefs refs f₀)
    (owned : ∀ h' ∈ types.owned, h' ≠ h → h' ∈ r.types.owned) (notConstant : h ∉ job.up.constants)
    (hosted : ∀ p m, job.predefined p = some m → e.real ≠ r.lower.constant p)
    (distinct : ∀ h' ∈ r.types.owned, ∀ f, r.types.table.find h' = some f → h' ≠ h → f.real ≠ e.real) :
    TypesSound job { r with
      types := types, lower := r.lower.setType e.real obj, meaning := update r.meaning h (some obj) } := by
  have values : ∀ p, p ∈ job.up.constants ∨ (nodeOf r.types.table p).isSome = true → ∀ old, r.value job p = some old →
      ∃ new, Rank.value job { r with
        types := types, lower := r.lower.setType e.real obj, meaning := update r.meaning h (some obj) } p = some new ∧
          new.Covers old := by
    intro p known old isOld
    by_cases same : p = h
    · subst same
      have isLive := known.resolve_left notConstant
      obtain ⟨f, -, before, -⟩ := nodeOf_isSome.mp isLive
      have notType : job.predefined p = none :=
        eq_none_iff_forall_ne_some.mpr fun m isType => notConstant (job.isType p m isType)
      refine ⟨obj, ?_, covers isLive old ((sound.value_of_live before).symm.trans isOld)⟩
      simp only [Rank.value, notType, update_self, map_none, none_or]
    · refine ⟨old, ?_, .refl old⟩
      simp only [Rank.value, update_of_ne same]
      exact isOld
  have ownedBefore : ∀ h' ∈ types.owned, ∀ f, types.table.find h' = some f → h' ≠ h →
      h' ∈ r.types.owned ∧ ∃ f₀, r.types.table.find h' = some f₀ ∧ f.real = f₀.real := by
    intro h' member f isEntry differs
    obtain ⟨f₀, refs, before, rfl⟩ := others h' f isEntry differs
    exact ⟨owned h' member differs, f₀, before, rfl⟩
  refine
    { accounts := accounts
      described := ?_
      recorded := ?_
      constants := ?_
      hosts := ?_
      real := ?_
      apart := ?_
      distinct := ?_ }
  · intro h' f isEntry
    by_cases same : h' = h
    · subst same
      exact mem_unique found isEntry ▸ described
    · obtain ⟨f₀, refs, before, rfl⟩ := others h' f isEntry same
      exact (sound.described h' f₀ before).withRefs refs
  · intro h' f d' isEntry hasDesc
    by_cases same : h' = h
    · subst same
      obtain rfl := mem_unique found isEntry
      cases isDesc.symm.trans hasDesc
      exact ⟨obj, update_self _ _ _, recorded.covers fun p member => values p (parts p member)⟩
    · obtain ⟨f₀, refs, before, rfl⟩ := others h' f isEntry same
      obtain ⟨d₀, hasDesc₀, rfl⟩ := withRefs_desc hasDesc
      obtain ⟨old, isOld, recorded₀⟩ := sound.recorded h' f₀ d₀ before hasDesc₀
      refine ⟨old, (update_of_ne same _ _).trans isOld, Recorded.withRefs (recorded₀.covers fun p member => ?_) refs⟩
      exact values p (sound.accounts.counted.parts h' _ (nodeOf_of_find before hasDesc₀) p member)
  · intro p isConstant
    have differs : p ≠ h := fun same => notConstant (same ▸ isConstant)
    exact (update_of_ne differs _ _).trans (sound.constants p isConstant)
  · intro p m isType
    exact (update_of_ne (hosted p m isType).symm _ _).trans (sound.hosts p m isType)
  · intro h' member f isEntry
    by_cases same : h' = h
    · subst same
      obtain rfl := mem_unique found isEntry
      exact (update_self _ _ _).trans (update_self h' _ r.meaning).symm
    · obtain ⟨before, f₀, found₀, isReal⟩ := ownedBefore h' member f isEntry same
      rw [isReal]
      refine (update_of_ne (distinct h' before f₀ found₀ same) _ _).trans ((sound.real h' before f₀ found₀).trans ?_)
      exact (update_of_ne same _ _).symm
  · intro h' member f isEntry
    by_cases same : h' = h
    · subst same
      exact mem_unique found isEntry ▸ hosted
    · obtain ⟨before, f₀, found₀, isReal⟩ := ownedBefore h' member f isEntry same
      rw [isReal]
      exact sound.apart h' before f₀ found₀
  · intro h₁ member₁ h₂ member₂ f₁ f₂ isEntry₁ isEntry₂ sameReal
    by_cases same₁ : h₁ = h <;> by_cases same₂ : h₂ = h
    · exact same₁.trans same₂.symm
    · subst same₁
      obtain rfl := mem_unique found isEntry₁
      obtain ⟨before, f₀, found₀, isReal⟩ := ownedBefore h₂ member₂ f₂ isEntry₂ same₂
      exact absurd (isReal.symm.trans sameReal.symm) (distinct h₂ before f₀ found₀ same₂)
    · subst same₂
      obtain rfl := mem_unique found isEntry₂
      obtain ⟨before, f₀, found₀, isReal⟩ := ownedBefore h₁ member₁ f₁ isEntry₁ same₁
      exact absurd (isReal.symm.trans sameReal) (distinct h₁ before f₀ found₀ same₁)
    · obtain ⟨before₁, e₁, found₁, isReal₁⟩ := ownedBefore h₁ member₁ f₁ isEntry₁ same₁
      obtain ⟨before₂, e₂, found₂, isReal₂⟩ := ownedBefore h₂ member₂ f₂ isEntry₂ same₂
      exact sound.distinct h₁ before₁ h₂ before₂ e₁ e₂ found₁ found₂ (isReal₁ ▸ isReal₂ ▸ sameReal)

theorem TypesSound.construct (sound : TypesSound job r) (taken : r.typeStep job (.construct call real) = some r') :
    TypesSound job r' := by
  obtain ⟨obj, denotes, taken⟩ := bind_eq_some_iff.mp taken
  obtain ⟨lowered, isLowered, taken⟩ := bind_eq_some_iff.mp taken
  obtain ⟨lower, created, taken⟩ := bind_eq_some_iff.mp taken
  obtain ⟨types, stepped, taken⟩ := bind_eq_some_iff.mp taken
  obtain ⟨handle, isHead, rfl⟩ := map_eq_some_iff.mp taken
  obtain ⟨accounts, usable, handle', t₁, t, frame, still, adds, rfl⟩ := sound.accounts.step stepped
  obtain rfl : handle' = handle := some.inj isHead
  obtain ⟨unused, obj', denotes', rfl⟩ := LowerHalf.createType_eq created
  obtain rfl := sound.lower_denote usable denotes isLowered denotes'
  obtain ⟨e, found, rfl, isDesc, -⟩ := adds.entry
  have absent : ∀ q obj, r.lower.types q = some obj → q ≠ e.real := by
    rintro q obj isObj rfl
    exact nomatch unused.symm.trans isObj
  refine sound.assign accounts found isDesc ?_ ⟨call, obj', rfl, denotes, rfl, .inl⟩ ?_ ?_ ?_ ?_ ?_ ?_ ?_
  · rw [Entry.Described, isDesc, Table.find_virt found]
    exact adds.ofKind
  · intro p member
    refine (sound.accounts.usable (usable p ?_)).2
    rw [← call.record_components]
    exact member
  · intro isLive
    have isLive := still _ isLive
    rw [nodeOf, adds.fresh] at isLive
    cases isLive
  · intro h f isEntry differs
    exact frame.kept h f ((adds.others h differs).symm.trans isEntry)
  · exact fun h member differs => (List.mem_cons.mp member).resolve_left differs
  · exact adds.not_constant (frame.reserved.trans sound.accounts.reserved)
  · exact fun p m isType => (absent _ _ (sound.hosts p m isType)).symm
  · intro h owned f before _
    obtain ⟨e₀, d, found₀, isDesc₀⟩ := sound.owned owned
    obtain rfl := mem_unique found₀ before
    obtain ⟨old, isOld, -⟩ := sound.recorded h e₀ d before isDesc₀
    exact absent _ old ((sound.real h owned e₀ before).trans isOld)

theorem TypesSound.commit {type : Handle} (sound : TypesSound job r)
    (taken : r.typeStep job (.commit type) = some r') : TypesSound job r' := by
  obtain ⟨real, isReal, taken⟩ := bind_eq_some_iff.mp taken
  obtain ⟨types, stepped, rfl⟩ := map_eq_some_iff.mp taken
  obtain ⟨accounts, owned, e, d, t, found, isDesc, modifies, rfl⟩ := sound.accounts.step stepped
  obtain rfl : e.real = real := mem_unique (getRealId_of_find found) isReal
  obtain ⟨obj, isObj, call, made, records, denotes, sameMap, -⟩ := sound.recorded type e d found isDesc
  have isLower : r.lower.types e.real = some obj := (sound.real type owned e found).trans isObj
  have commits : r.lower.commitType e.real = r.lower.setType e.real { obj with committed := true } := by
    rw [LowerHalf.commitType, isLower]
    rfl
  have afterDesc : (assignDatatype (fun d => { d with committed := true }) e).desc =
      some (.datatype { d with committed := true }) := by
    simp only [assignDatatype, isDesc, map_some]
  rw [isObj, map_some, commits]
  refine sound.assign (e := assignDatatype _ e) accounts (modifies.puts found).here afterDesc ?_
    ⟨call, made, ?_, denotes, sameMap, fun _ => .inr rfl⟩ ?_ ?_ ?_ (fun _ member _ => member) ?_
    (sound.apart type owned e found) ?_
  · refine (sound.described type e found).congr ?_ rfl
    rw [afterDesc, isDesc]
    rfl
  · rw [DatatypeDesc.Records, ← records]
  · exact sound.accounts.counted.parts type _ (nodeOf_of_find found isDesc)
  · intro _ old isOld
    obtain rfl := mem_unique isObj isOld
    exact ⟨rfl, fun _ => rfl⟩
  · intro h f isEntry differs
    exact ⟨f, (withRefs_self f).imp fun _ same => ⟨(modifies.others h differs).symm.trans isEntry, same⟩⟩
  · intro isConstant
    cases (sound.accounts.wellFormed.shape.find_constant sound.accounts.reserved isConstant).symm.trans found
  · exact fun h member f before differs same => differs (sound.distinct h member type owned f e before found same)

theorem TypesSound.free {type : Handle} (sound : TypesSound job r)
    (taken : r.typeStep job (.free type) = some r') : TypesSound job r' := by
  obtain ⟨real, isReal, taken⟩ := bind_eq_some_iff.mp taken
  obtain ⟨types, stepped, rfl⟩ := map_eq_some_iff.mp taken
  obtain ⟨accounts, owned, frame, isErased⟩ := sound.accounts.step stepped
  obtain ⟨e, d, found, isDesc⟩ := sound.owned owned
  obtain rfl : e.real = real := mem_unique (getRealId_of_find found) isReal
  have kept : ∀ h ∈ types.owned, h ≠ type ∧ h ∈ r.types.owned := by
    rw [isErased]
    exact fun h member => (List.Nodup.of_append_left sound.accounts.nodup).mem_erase_iff.mp member
  refine sound.keep accounts frame.keeps.types (fun h member => (kept h member).2) rfl rfl ?_ ?_
  · intro p m isType
    exact update_of_ne (sound.apart type owned e found p m isType).symm _ _
  · intro h member f isEntry
    obtain ⟨differs, before⟩ := kept h member
    exact update_of_ne (fun same => differs (sound.distinct h before type owned f e isEntry found same)) _ _

theorem TypesSound.typeStep {action : TypeAction} (sound : TypesSound job r)
    (taken : r.typeStep job action = some r') : TypesSound job r' := by
  have other {types : TypeState} (accounts : Accounts job.up types []) (keeps : Keeps r.types.table types.table)
      (owned : types.owned = r.types.owned) : TypesSound job { r with types := types } :=
    sound.keep accounts keeps.types (fun _ member => owned ▸ member) rfl rfl (fun _ _ _ => rfl) fun _ _ _ _ => rfl
  cases action with
  | construct call real => exact sound.construct taken
  | commit type => exact sound.commit taken
  | free type => exact sound.free taken
  | release =>
    obtain ⟨types, stepped, rfl⟩ := map_eq_some_iff.mp taken
    obtain ⟨accounts, frame, owned⟩ := sound.accounts.step stepped
    exact other accounts frame.keeps owned
  | post | drained | complete =>
    obtain ⟨types, stepped, rfl⟩ := map_eq_some_iff.mp taken
    obtain ⟨accounts, keeps, owned⟩ := sound.accounts.step stepped
    exact other accounts keeps owned

end Sound

section Comms

variable {job : Job} {r r' : Rank}

theorem Rank.typeStep_comms {action : TypeAction} (taken : r.typeStep job action = some r') :
    r.types.step job.up action = some r'.types ∧ r'.lower.constant = r.lower.constant ∧
      r'.lower.comms = r.lower.comms ∧ r'.freeing = r.freeing := by
  cases action with
  | construct call real =>
    obtain ⟨obj, -, taken⟩ := bind_eq_some_iff.mp taken
    obtain ⟨lowered, -, taken⟩ := bind_eq_some_iff.mp taken
    obtain ⟨lower, created, taken⟩ := bind_eq_some_iff.mp taken
    obtain ⟨types, stepped, taken⟩ := bind_eq_some_iff.mp taken
    obtain ⟨handle, -, rfl⟩ := map_eq_some_iff.mp taken
    obtain ⟨-, obj', -, rfl⟩ := LowerHalf.createType_eq created
    exact ⟨stepped, rfl, rfl, rfl⟩
  | commit type | free type =>
    obtain ⟨real, -, taken⟩ := bind_eq_some_iff.mp taken
    obtain ⟨types, stepped, rfl⟩ := map_eq_some_iff.mp taken
    exact ⟨stepped, rfl, rfl, rfl⟩
  | _ =>
    obtain ⟨types, stepped, rfl⟩ := map_eq_some_iff.mp taken
    exact ⟨stepped, rfl, rfl, rfl⟩

variable {parent real handle comm : Handle} {members : List Nat} {cart : Option (List (Nat × Bool))} {gid : Nat}
  {copies deletes : Int → Attr.Answer Nat}

theorem Rank.createComm_eq (made : r.createComm job parent members cart real gid = some (handle, r')) :
    ∃ realParent comm t, r.realId job parent = some realParent ∧ r.lower.comms realParent = some comm ∧
      r.lower.comms real = none ∧
      r.types.table.addVirtId .comm real (some (.comm (commDescOf job ⟨members, cart, comm.errhandler⟩ gid))) =
        some (handle, t) ∧
      r' = { r with lower := r.lower.setComm real ⟨members, cart, comm.errhandler⟩ }.setTable t := by
  obtain ⟨realParent, isParent, made⟩ := bind_eq_some_iff.mp made
  obtain ⟨lower, created, made⟩ := bind_eq_some_iff.mp made
  obtain ⟨unused, comm, isComm, rfl⟩ := LowerHalf.createComm_eq created
  obtain ⟨obj, isObj, made⟩ := bind_eq_some_iff.mp made
  obtain rfl := mem_unique (update_self real _ r.lower.comms) isObj
  obtain ⟨⟨handle', t⟩, added, same⟩ := map_eq_some_iff.mp made
  cases same
  exact ⟨realParent, comm, t, isParent, isComm, unused, added, rfl⟩

theorem Rank.freeComm_eq (freed : r.freeComm job comm deletes = some r') :
    ∃ keyvals, r' = { r with keyvals := keyvals } ∨ ∃ real t, r.realId job comm = some real ∧
      r.types.table.freeVirtId job.up.wide comm = some t ∧
      r' = { r.setTable t with keyvals := keyvals, freeing := real :: r.freeing } := by
  unfold Rank.freeComm at freed
  dsimp only at freed
  split at freed
  · exact ⟨_, .inl (some.inj freed).symm⟩
  · obtain ⟨real, isReal, freed⟩ := bind_eq_some_iff.mp freed
    obtain ⟨t, isFreed, rfl⟩ := map_eq_some_iff.mp freed
    exact ⟨_, .inr ⟨real, t, isReal, isFreed, rfl⟩⟩

theorem Rank.dupComm_eq (dup : r.dupComm job parent real gid copies deletes = some r') :
    ∃ members cart handle r₁ keyvals, r.createComm job parent members cart real gid = some (handle, r₁) ∧
      (r' = { r₁ with keyvals := keyvals } ∨ Rank.freeComm job { r₁ with keyvals := keyvals } handle deletes = some r') := by
  obtain ⟨realParent, isParent, dup⟩ := bind_eq_some_iff.mp dup
  obtain ⟨obj, isObj, dup⟩ := bind_eq_some_iff.mp dup
  obtain ⟨⟨handle, r₁⟩, made, dup⟩ := bind_eq_some_iff.mp dup
  refine ⟨obj.members, obj.cart, handle, r₁, ?_⟩
  dsimp only at dup
  split at dup
  · exact ⟨_, made, .inr dup⟩
  · exact ⟨_, made, .inl (some.inj dup).symm⟩

theorem commDesc_eq_some {t : Table Desc} {d : CommDesc} :
    commDesc t comm = some d ↔ ∃ e, t.find comm = some e ∧ e.desc = some (.comm d) := by
  simp only [commDesc, bind_eq_some_iff]
  refine exists_congr fun e => and_congr_right fun _ => ?_
  constructor
  · rintro ⟨desc, isDesc, isComm⟩
    cases desc with
    | comm d' => exact isDesc.trans (congrArg (fun d => some (Desc.comm d)) (some.inj isComm))
    | _ => cases isComm
  · exact fun isDesc => ⟨.comm d, isDesc, rfl⟩

theorem Rank.isComm_cases (isComm : r.isComm job comm = true) :
    comm = job.commWorld ∨ comm = job.commSelf ∨
      ∃ e d, r.types.table.find comm = some e ∧ e.desc = some (.comm d) := by
  simp only [Rank.isComm, Bool.or_eq_true, beq_iff_eq, isSome_iff_exists] at isComm
  rcases isComm with (isWorld | isSelf) | ⟨d, isDesc⟩
  · exact .inl isWorld
  · exact .inr (.inl isSelf)
  · obtain ⟨e, found, isDesc⟩ := commDesc_eq_some.mp isDesc
    exact .inr (.inr ⟨e, d, found, isDesc⟩)

theorem TypesSound.createComm (sound : TypesSound job r)
    (made : r.createComm job parent members cart real gid = some (handle, r')) :
    TypesSound job r' ∧ (commDesc r'.types.table handle).isSome = true := by
  obtain ⟨realParent, comm, t, -, -, -, added, rfl⟩ := Rank.createComm_eq made
  have adds := sound.accounts.wellFormed.addVirtId added
  obtain ⟨e, found, -, isDesc, -⟩ := adds.entry
  refine ⟨(sound.add adds rfl (.inl rfl) nofun).rest rfl rfl rfl rfl, ?_⟩
  exact isSome_iff_exists.mpr ⟨_, commDesc_eq_some.mpr ⟨e, found, isDesc⟩⟩

theorem TypesSound.freeComm (sound : TypesSound job r) (isComm : (commDesc r.types.table comm).isSome = true)
    (freed : r.freeComm job comm deletes = some r') : TypesSound job r' := by
  obtain ⟨keyvals, rfl | ⟨real, t, -, isFreed, rfl⟩⟩ := Rank.freeComm_eq freed
  · exact sound.rest rfl rfl rfl rfl
  · obtain ⟨d, isComm⟩ := isSome_iff_exists.mp isComm
    obtain ⟨e, found, isDesc⟩ := commDesc_eq_some.mp isComm
    have frees := sound.accounts.wellFormed.freeVirtId isFreed
    rw [handleValue_of_lt (Table.find_small found)] at frees
    refine (sound.remove frees (sound.not_type ?_)).rest rfl rfl rfl rfl
    have described := sound.described comm e found
    rw [Entry.Described, isDesc, Table.find_virt found] at described
    rw [described]
    show Kind.comm.code ≠ Kind.datatype.code
    decide

theorem TypesSound.dupComm (sound : TypesSound job r) (dup : r.dupComm job parent real gid copies deletes = some r') :
    TypesSound job r' := by
  obtain ⟨members, cart, handle, r₁, keyvals, made, done⟩ := Rank.dupComm_eq dup
  obtain ⟨sound₁, isComm⟩ := sound.createComm made
  have sound₂ : TypesSound job { r₁ with keyvals := keyvals } := sound₁.rest rfl rfl rfl rfl
  rcases done with rfl | freed
  · exact sound₂
  · exact sound₂.freeComm isComm freed

end Comms

end Mana.VirtId
