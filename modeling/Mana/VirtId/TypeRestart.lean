import Mana.VirtId.TypeSound

/-! `reconstruct_descriptors` makes every live datatype again as it was, out of the components that
it has made before. -/

namespace Mana.VirtId
open Mana.Lib Option Function

def rebuiltValue (job : Job) (picks : Picks) (lh : LowerHalf) (type : Handle) : Option TypeObj :=
  ((job.predefined type).map fun m => ⟨m, true⟩).or (lh.types (picks.object type))

/-- The datatypes in the new lower half, after the entries in `done` had their turn. -/
structure TypesRebuilt (job : Job) (picks : Picks) (r : Rank) (new : LowerHalf) (done : List (Entry Desc))
    (s : Table Desc × LowerHalf) : Prop extends Placed picks Entry.IsDatatype new.types done s.2.types where
  accounts : Accounts job.up { r.types with table := s.1 } []
  constant : s.2.constant = new.constant
  made : ∀ e ∈ done, ∀ d, e.desc = some (.datatype d) → ∃ old obj, r.meaning e.virt = some old ∧
    s.2.types (picks.object e.virt) = some obj ∧ obj.Covers old ∧ Recorded (rebuiltValue job picks s.2) d obj

section Rebuilt

variable {job : Job} {picks : Picks} {r : Rank} {new : LowerHalf} {done rest : List (Entry Desc)} {e : Entry Desc}
  {s s' : Table Desc × LowerHalf}

theorem TypesRebuilt.initial (sound : TypesSound job r) :
    TypesRebuilt job picks r new [] (r.types.table, new) :=
  ⟨.initial, sound.accounts, rfl, fun _ member => absurd member List.not_mem_nil⟩

theorem TypesRebuilt.component (sound : TypesSound job r)
    (split : r.types.table.reconstructOrder = done ++ e :: rest) {d : DatatypeDesc} (isDesc : e.desc = some (.datatype d))
    {p : Handle} (isPart : p ∈ d.components) :
    p ∈ job.up.constants ∨ ∃ f ∈ done, f.virt = p ∧ ∃ d', f.desc = some (.datatype d') := by
  have shape := sound.accounts.wellFormed.shape
  have found : r.types.table.find e.virt = some e := by
    refine shape.mem_reconstructOrder.mp ?_
    rw [split]
    exact List.mem_append_right done List.mem_cons_self
  refine (sound.accounts.counted.parts e.virt _ (nodeOf_of_find found isDesc) p isPart).imp_right fun isLive => ?_
  obtain ⟨f, d', foundPart, isDesc'⟩ := nodeOf_isSome.mp isLive
  have isVirt := Table.find_virt foundPart
  have older := (sound.accounts.entries e.virt e found).older d isDesc p isPart f foundPart
  have kinds := sound.described e.virt e found
  have kinds' := sound.described p f foundPart
  rw [Entry.Described, isDesc] at kinds
  rw [Entry.Described, isDesc'] at kinds'
  exact ⟨f, shape.older_done split (isVirt.symm ▸ foundPart) (kinds'.trans kinds.symm) older, isVirt, d', isDesc'⟩

theorem TypesRebuilt.skip {t : Table Desc} {lh : LowerHalf} (rebuilt : TypesRebuilt job picks r new done s)
    (accounts : Accounts job.up { r.types with table := t } []) (constant : lh.constant = s.2.constant)
    (types : lh.types = s.2.types) (notType : ¬ e.IsDatatype) : TypesRebuilt job picks r new (done ++ [e]) (t, lh) := by
  have value : rebuiltValue job picks lh = rebuiltValue job picks s.2 := by
    funext p
    simp only [rebuiltValue, types]
  refine ⟨types ▸ rebuilt.toPlaced.skip notType, accounts, constant.trans rebuilt.constant, ?_⟩
  intro f member d isDesc
  rw [types, value]
  exact rebuilt.made f (mem_done notType member ⟨d, isDesc⟩) d isDesc

theorem TypesRebuilt.component_value (sound : TypesSound job r) (hosts : Hosts job new)
    (split : r.types.table.reconstructOrder = done ++ e :: rest) (remade : Remade picks r.types.table done s.1)
    (rebuilt : TypesRebuilt job picks r new done s) {d : DatatypeDesc} (isDesc : e.desc = some (.datatype d))
    {p : Handle} (isPart : p ∈ d.components) {old : TypeObj} (isOld : r.value job p = some old) :
    ∃ q obj, getRealId job.up s.2 s.1 p = some q ∧ s.2.types q = some obj ∧
      rebuiltValue job picks s.2 p = some obj ∧ obj.Covers old := by
  rcases TypesRebuilt.component sound split isDesc isPart with isConstant | ⟨f, isDone, rfl, d', isDesc'⟩
  · rw [sound.value_of_constant isConstant] at isOld
    obtain ⟨m, isType, rfl⟩ := map_eq_some_iff.mp isOld
    have isReal := @getRealId_of_constant _ s.2 _ _ rebuilt.accounts.wellFormed.shape rebuilt.accounts.reserved isConstant
    rw [rebuilt.constant] at isReal
    refine ⟨_, ⟨m, true⟩, isReal, rebuilt.kept _ _ (hosts.types p m isType), ?_, .refl _⟩
    simp only [rebuiltValue, isType, map_some, some_or]
  · obtain ⟨old', obj, isOld', isObj, isCover, -⟩ := rebuilt.made f isDone d' isDesc'
    have found : r.types.table.find f.virt = some f := by
      refine sound.accounts.wellFormed.shape.mem_reconstructOrder.mp ?_
      rw [split]
      exact List.mem_append_left _ isDone
    obtain rfl := mem_unique isOld' ((sound.value_of_live found).symm.trans isOld)
    have isReal := @getRealId_of_find job.up s.2 _ _ _ (remade.remade f isDone)
    have hasReal : (f.rebuilt (picks.object f.virt)).real = picks.object f.virt := by
      rw [Entry.rebuilt, if_pos (isDesc' ▸ rfl)]
    rw [hasReal] at isReal
    refine ⟨_, obj, isReal, isObj, ?_, isCover⟩
    have notType : job.predefined f.virt = none := by
      refine eq_none_iff_forall_ne_some.mpr fun m isType => ?_
      have absent := sound.accounts.wellFormed.shape.find_constant sound.accounts.reserved (job.isType _ m isType)
      cases absent.symm.trans found
    simp only [rebuiltValue, notType, map_none, none_or]
    exact isObj

/-- The call that makes a datatype again has its components, and makes what it was. -/
theorem TypesRebuilt.remake (sound : TypesSound job r) (hosts : Hosts job new)
    (split : r.types.table.reconstructOrder = done ++ e :: rest) (remade : Remade picks r.types.table done s.1)
    (rebuilt : TypesRebuilt job picks r new done s) {d : DatatypeDesc} (isDesc : e.desc = some (.datatype d)) :
    ∃ old lowered made, r.meaning e.virt = some old ∧ d.remake (getRealId job.up s.2 s.1) = some lowered ∧
      lowered.denote s.2.types = some made ∧
      TypeObj.Covers ⟨made.typeMap, made.committed || d.committed⟩ old ∧
      Recorded (rebuiltValue job picks s.2) d ⟨made.typeMap, made.committed || d.committed⟩ := by
  have found : r.types.table.find e.virt = some e := by
    refine sound.accounts.wellFormed.shape.mem_reconstructOrder.mp ?_
    rw [split]
    exact List.mem_append_right done List.mem_cons_self
  obtain ⟨old, isOld, call, made₀, records, denotes₀, sameMap, committed⟩ := sound.recorded e.virt e d found isDesc
  have known := TypeCall.denote_known denotes₀
  have components := records.components
  have value := fun p (member : p ∈ call.oldtypes) old isOld =>
    @TypesRebuilt.component_value _ _ _ _ _ _ _ _ sound hosts split remade rebuilt d isDesc p (components.symm ▸ member) old isOld
  obtain ⟨lowered, isLowered, same⟩ := @TypeCall.lower_denote (getRealId job.up s.2 s.1) call fun p member => by
    obtain ⟨old, isOld⟩ := known p member
    obtain ⟨q, -, isReal, -⟩ := value p member old isOld
    exact ⟨q, isReal⟩
  have related : ∀ p ∈ call.oldtypes, ∃ old obj, r.value job p = some old ∧ rebuiltValue job picks s.2 p = some obj ∧
      obj.Covers old := by
    intro p member
    obtain ⟨old, isOld⟩ := known p member
    obtain ⟨-, obj, -, -, isValue, isCover⟩ := value p member old isOld
    exact ⟨old, obj, isOld, isValue, isCover⟩
  obtain ⟨made', made, isMade', denotes, isCover⟩ :=
    call.denote_rel TypeObj.Covers.refl (fun _ _ cover => cover.typeMap) related
  obtain rfl := mem_unique denotes₀ isMade'
  have lowers : lowered.denote s.2.types = some made := by
    rw [same]
    refine TypeCall.denote_mono denotes fun p member obj isValue => ?_
    obtain ⟨old, isOld⟩ := known p member
    obtain ⟨q, obj', isReal, isObj, isValue', -⟩ := value p member old isOld
    rw [isReal, bind_some, isObj, ← isValue', isValue]
  refine ⟨old, lowered, made, isOld, (records.remake _).trans isLowered, lowers, ⟨?_, ?_⟩, call, made, records, denotes, rfl, ?_⟩
  · exact isCover.typeMap.trans sameMap.symm
  · intro isCommitted
    rw [Bool.or_eq_true]
    exact (committed isCommitted).imp_left isCover.committed
  · exact Bool.or_eq_true_iff.mp

theorem TypesRebuilt.step (sound : TypesSound job r) (hosts : Hosts job new)
    (split : r.types.table.reconstructOrder = done ++ e :: rest) (remade : Remade picks r.types.table done s.1)
    (rebuilt : TypesRebuilt job picks r new done s) (rebuilds : Rebuilds job picks s e s') :
    TypesRebuilt job picks r new (done ++ [e]) s' := by
  obtain ⟨-, found⟩ := remade.turn sound.accounts.wellFormed.shape split
  have assigned : ∀ {t}, s.1.updateVirtId job.up.wide e.virt (picks.object e.virt) = some t →
      Accounts job.up { r.types with table := t } [] := fun assigned =>
    rebuilt.accounts.assign (remade.wellFormed.updateVirtId found assigned) fun _ => ⟨rfl, rfl, rfl, rfl⟩
  cases rebuilds with
  | skip noDesc => exact rebuilt.skip rebuilt.accounts rfl rfl fun ⟨_, isDesc⟩ => nomatch noDesc.symm.trans isDesc
  | comm isDesc isWorld unused ran =>
    exact rebuilt.skip (assigned ran) rfl rfl fun ⟨_, isType⟩ => nomatch isDesc.symm.trans isType
  | other isDesc notComm notType constant types comms ran =>
    exact rebuilt.skip (assigned ran) constant types fun ⟨d, isType⟩ => notType d (mem_unique isDesc isType)
  | @datatype d call obj t isDesc remakes denotes unused ran =>
    obtain ⟨old, lowered, made, isOld, remakes', denotes', isCover, recorded⟩ :=
      rebuilt.remake sound hosts split remade isDesc
    obtain rfl := mem_unique remakes remakes'
    obtain rfl := mem_unique denotes denotes'
    have grows : ∀ p old, rebuiltValue job picks s.2 p = some old →
        ∃ new, rebuiltValue job picks (s.2.setType (picks.object e.virt) ⟨obj.typeMap, obj.committed || d.committed⟩) p =
          some new ∧ new.Covers old := by
      intro p old isValue
      refine ⟨old, ?_, .refl old⟩
      cases isType : job.predefined p with
      | some m =>
        simp only [rebuiltValue, isType, map_some, some_or] at isValue ⊢
        exact isValue
      | none =>
        simp only [rebuiltValue, isType, map_none, none_or] at isValue ⊢
        exact (update_of_ne (Placed.ne unused isValue) _ _).trans isValue
    refine ⟨rebuilt.toPlaced.place ⟨d, isDesc⟩ unused _, assigned ran, rebuilt.constant, ?_⟩
    intro f member d' isDesc'
    rcases List.mem_append.mp member with before | last
    · obtain ⟨old, obj, isOld, isObj, isCover, recorded⟩ := rebuilt.made f before d' isDesc'
      refine ⟨old, obj, isOld, (update_of_ne (Placed.ne unused isObj) _ _).trans isObj, isCover, ?_⟩
      exact recorded.covers fun p _ => grows p
    · obtain rfl := List.mem_singleton.mp last
      cases isDesc.symm.trans isDesc'
      exact ⟨old, _, isOld, update_self _ _ _, isCover, recorded.covers fun p _ => grows p⟩

/-- What holds during `reconstruct_descriptors`. -/
structure Rebuilding (job : Job) (picks : Picks) (r : Rank) (new : LowerHalf) (world : CommObj) (done : List (Entry Desc))
    (s : Table Desc × LowerHalf) : Prop where
  table : Remade picks r.types.table done s.1
  types : TypesRebuilt job picks r new done s
  comms : CommsRebuilt picks new world done s.2

variable {world : CommObj}

theorem Rebuilding.initial (sound : TypesSound job r) :
    Rebuilding job picks r new world [] (r.types.table, new) :=
  ⟨.initial sound.accounts.wellFormed, .initial sound, .initial⟩

theorem Rebuilding.step (sound : TypesSound job r) (hosts : Hosts job new)
    (isWorld : new.comms (new.constant job.commWorld) = some world)
    (split : r.types.table.reconstructOrder = done ++ e :: rest) (rebuilding : Rebuilding job picks r new world done s)
    (ran : reconstructEntry job picks s e = some s') : Rebuilding job picks r new world (done ++ [e]) s' := by
  have rebuilds := reconstructEntry_rebuilds ran
  exact ⟨rebuilding.table.step sound.accounts.wellFormed.shape split rebuilds,
    rebuilding.types.step sound hosts split rebuilding.table rebuilds, rebuilding.comms.step isWorld rebuilds⟩

theorem Rebuilding.part (sound : TypesSound job r) (hosts : Hosts job new)
    (isWorld : new.comms (new.constant job.commWorld) = some world)
    (split : r.types.table.reconstructOrder = done ++ rest)
    (ran : done.foldlM (reconstructEntry job picks) (r.types.table, new) = some s) :
    Rebuilding job picks r new world done s := by
  refine @foldlM_holds _ _ _ (Rebuilding job picks r new world) _ _ [] done (.initial sound) ?_ ran
  intro before a after s s' isSplit rebuilding taken
  have isSplit' : r.types.table.reconstructOrder = before ++ a :: (after ++ rest) := by
    rw [split, ← List.nil_append done, isSplit, List.append_assoc, List.cons_append]
  exact rebuilding.step sound hosts isWorld isSplit' taken

@[simp] theorem Kind.ofCode_code (kind : Kind) : Kind.ofCode kind.code = some kind := by
  cases kind <;> rfl

theorem Table.updateVirtId_returns {t : Table Desc} {wide : Bool} {real : Handle} (found : t.find e.virt = some e) :
    ∃ t', t.updateVirtId wide e.virt real = some t' := by
  simp only [Table.updateVirtId, Table.modifyEntry, Table.lookup_find, handleValue_find found, found, map_some]
  exact ⟨_, rfl⟩

theorem Rebuilding.found (sound : TypesSound job r) (split : r.types.table.reconstructOrder = done ++ e :: rest)
    (rebuilding : Rebuilding job picks r new world done s) :
    r.types.table.find e.virt = some e ∧ ∀ f ∈ done, r.types.table.find f.virt = some f ∧ e.virt ≠ f.virt := by
  have shape := sound.accounts.wellFormed.shape
  obtain ⟨notDone, -⟩ := rebuilding.table.turn shape split
  simp only [← shape.mem_reconstructOrder, split, List.mem_append, List.mem_cons, true_or, or_true, true_and]
  exact fun f member => ⟨.inl member, fun same => notDone (same ▸ List.mem_map_of_mem member)⟩

theorem Rebuilding.comm_unused (sound : TypesSound job r) (fresh : picks.Fresh r.types.table new)
    (split : r.types.table.reconstructOrder = done ++ e :: rest) (rebuilding : Rebuilding job picks r new world done s)
    {d : CommDesc} (isDesc : e.desc = some (.comm d)) :
    s.2.comms (picks.object e.virt) = none ∧ s.2.comms (picks.plain e.virt) = none ∧
      picks.plain e.virt ≠ picks.object e.virt := by
  obtain ⟨found, isDone⟩ := rebuilding.found sound split
  obtain ⟨objectUnused, plainUnused⟩ := fresh.comms e.virt e d found isDesc
  refine ⟨rebuilding.comms.eq_none objectUnused ?_, rebuilding.comms.eq_none plainUnused ?_,
    fresh.plain _ e d _ e d found isDesc found isDesc (Nat.le_refl _)⟩
  · rintro f member ⟨d', isDesc'⟩ same
    obtain ⟨found', differs⟩ := isDone f member
    exact differs (fresh.distinctComms _ e d _ f d' found isDesc found' isDesc' same)
  · rintro f member ⟨d', isDesc'⟩
    obtain ⟨found', -⟩ := isDone f member
    have kinds := sound.described _ e found
    have kinds' := sound.described _ f found'
    rw [Entry.Described, isDesc] at kinds
    rw [Entry.Described, isDesc'] at kinds'
    have older := Table.done_older split member (kinds'.trans kinds.symm)
    exact fresh.plain _ e d _ f d' found isDesc found' isDesc' older

theorem Rebuilding.type_unused (sound : TypesSound job r) (fresh : picks.Fresh r.types.table new)
    (split : r.types.table.reconstructOrder = done ++ e :: rest) (rebuilding : Rebuilding job picks r new world done s)
    {d : DatatypeDesc} (isDesc : e.desc = some (.datatype d)) : s.2.types (picks.object e.virt) = none := by
  obtain ⟨found, isDone⟩ := rebuilding.found sound split
  refine rebuilding.types.eq_none (fresh.types e.virt e d found isDesc) ?_
  rintro f member ⟨d', isDesc'⟩ same
  obtain ⟨found', differs⟩ := isDone f member
  exact differs (fresh.distinctTypes _ e d _ f d' found isDesc found' isDesc' same)

/-- Each turn of the loop gets through. -/
theorem Rebuilding.goesOn (sound : TypesSound job r) (hosts : Hosts job new) (fresh : picks.Fresh r.types.table new)
    (isWorld : new.comms (new.constant job.commWorld) = some world)
    (split : r.types.table.reconstructOrder = done ++ e :: rest) (rebuilding : Rebuilding job picks r new world done s) :
    ∃ s', reconstructEntry job picks s e = some s' := by
  have shape := sound.accounts.wellFormed.shape
  obtain ⟨-, found⟩ := rebuilding.table.turn shape split
  obtain ⟨t, assigned⟩ := @Table.updateVirtId_returns e s.1 job.up.wide (picks.object e.virt) found
  have assigns : ∀ lh, assignReal job picks s.1 e.virt lh = some (t, lh) := by
    intro lh
    simp only [assignReal, assigned, map_some]
  have described : e.Described := by
    refine sound.described e.virt e (shape.mem_reconstructOrder.mp ?_)
    rw [split]
    exact List.mem_append_right done List.mem_cons_self
  unfold Entry.Described at described
  unfold reconstructEntry
  cases isDesc : e.desc with
  | none =>
    rw [isDesc] at described
    rcases described with isRequest | isFile
    · simp only [isRequest, Kind.ofCode_code]
      exact ⟨s, rfl⟩
    · simp only [isFile, Kind.ofCode_code]
      exact ⟨s, rfl⟩
  | some desc =>
    rw [isDesc] at described
    simp only [described, Kind.ofCode_code]
    cases desc with
    | comm d =>
      obtain ⟨unused, plainUnused, differs⟩ := rebuilding.comm_unused sound fresh split isDesc
      have hasWorld := rebuilding.comms.kept _ _ isWorld
      rw [← rebuilding.comms.constant] at hasWorld
      obtain ⟨lh, made⟩ := @reconstructComm_returns _ _ _ s.2 _ d hasWorld unused plainUnused differs
      simp only [Desc.kind, made, bind_some, assigns]
      exact ⟨_, rfl⟩
    | group d | op d =>
      simp only [Desc.kind, assigns]
      exact ⟨_, rfl⟩
    | datatype d =>
      obtain ⟨-, lowered, made, -, remakes, denotes, -, -⟩ :=
        rebuilding.types.remake sound hosts split rebuilding.table isDesc
      have unused := rebuilding.type_unused sound fresh split isDesc
      simp only [Desc.kind, reconstructDatatype, remakes, LowerHalf.createType, unused, isSome_none,
        Bool.false_eq_true, if_false, denotes, bind_some, map_some, assigns]
      exact ⟨_, rfl⟩

theorem reconstructDescriptors_returns (sound : TypesSound job r) (hosts : Hosts job new)
    (fresh : picks.Fresh r.types.table new) : ∃ s, reconstructDescriptors job picks (r.types.table, new) = some s := by
  refine @foldlM_returns _ _ _ (Rebuilding job picks r new ⟨List.range job.size, none, .errorsAreFatal⟩) _ [] _
    (.initial sound) ?_ ?_
  · exact fun before a after s s' split rebuilding taken => rebuilding.step sound hosts hosts.world split taken
  · exact fun before a after s split rebuilding => rebuilding.goesOn sound hosts fresh hosts.world split

theorem reconstructDescriptors_rebuilt (sound : TypesSound job r) (hosts : Hosts job new)
    (ran : reconstructDescriptors job picks (r.types.table, new) = some s) :
    Rebuilding job picks r new ⟨List.range job.size, none, .errorsAreFatal⟩ r.types.table.reconstructOrder s :=
  Rebuilding.part sound hosts hosts.world (List.append_nil _).symm ran

end Rebuilt

section Run

variable {job : Job} {picks : Picks} {r r' : Rank} {new : LowerHalf} {t : Table Desc} {lower : LowerHalf}

theorem Rebuilding.type_after {world : CommObj} (sound : TypesSound job r)
    (rebuilding : Rebuilding job picks r new world r.types.table.reconstructOrder (t, lower)) {h : Handle} {e : Entry Desc}
    {d : DatatypeDesc} (found : r.types.table.find h = some e) (isDesc : e.desc = some (.datatype d)) :
    ∃ old obj, t.find h = some (e.rebuilt (picks.object h)) ∧ (e.rebuilt (picks.object h)).real = picks.object h ∧
      r.meaning h = some old ∧ lower.types (picks.object h) = some obj ∧ obj.Covers old ∧
      Recorded (rebuiltValue job picks lower) d obj ∧ new.types (picks.object h) = none := by
  have shape := sound.accounts.wellFormed.shape
  obtain rfl := Table.find_virt found
  have member := shape.mem_reconstructOrder.mpr found
  obtain ⟨old, obj, isOld, isObj, isCover, recorded⟩ := rebuilding.types.made e member d isDesc
  refine ⟨old, obj, rebuilding.table.remade e member, ?_, isOld, isObj, isCover, recorded, ?_⟩
  · rw [Entry.rebuilt, if_pos (isDesc ▸ rfl)]
  · exact rebuilding.types.unused e member ⟨d, isDesc⟩

theorem TypesSound.restart (sound : TypesSound job r) (hosts : Hosts job new)
    (taken : r.restart job new picks = some r') : TypesSound job r' := by
  obtain ⟨⟨t, lower⟩, ran, rfl⟩ := map_eq_some_iff.mp taken
  have shape := sound.accounts.wellFormed.shape
  have rebuilding := reconstructDescriptors_rebuilt sound hosts ran
  have finds := rebuilding.table.find shape
  -- The entries of the new table are the old ones, with new real handles.
  have before : ∀ h e', t.find h = some e' → ∃ e, r.types.table.find h = some e ∧ e' = e.rebuilt (picks.object h) := by
    intro h e' found'
    rw [finds] at found'
    obtain ⟨e, found, rfl⟩ := map_eq_some_iff.mp found'
    exact ⟨e, found, rfl⟩
  have ownedEntry : ∀ h ∈ r.types.owned, ∀ e', t.find h = some e' → ∃ e d obj, r.types.table.find h = some e ∧
      e.desc = some (.datatype d) ∧ e'.real = picks.object h ∧ lower.types (picks.object h) = some obj ∧
      new.types (picks.object h) = none := by
    intro h owned e' found'
    obtain ⟨e, found, rfl⟩ := before h e' found'
    obtain ⟨e₀, d, found₀, isDesc⟩ := sound.owned owned
    obtain rfl := mem_unique found₀ found
    obtain ⟨old, obj, -, hasReal, -, isObj, -, -, unused⟩ := rebuilding.type_after sound found isDesc
    exact ⟨e₀, d, obj, found, isDesc, hasReal, isObj, unused⟩
  refine
    { accounts := rebuilding.types.accounts
      described := ?_
      recorded := ?_
      constants := ?_
      hosts := ?_
      real := ?_
      apart := ?_
      distinct := ?_ }
  · intro h e' found'
    obtain ⟨e, found, rfl⟩ := before h e' found'
    refine (sound.described h e found).congr ?_ (e.rebuilt_virt _)
    rw [e.rebuilt_desc]
  · intro h e' d found' isDesc
    obtain ⟨e, found, rfl⟩ := before h e' found'
    rw [e.rebuilt_desc] at isDesc
    obtain ⟨old, obj, isEntry, hasReal, -, isObj, -, recorded, -⟩ := rebuilding.type_after sound found isDesc
    refine ⟨obj, ?_, recorded.congr fun p isPart => ?_⟩
    · show (t.find h).bind (fun e => lower.types e.real) = some obj
      rw [isEntry, bind_some, hasReal, isObj]
    · show ((job.predefined p).map fun m => ⟨m, true⟩).or ((t.find p).bind fun e => lower.types e.real) = _
      rcases sound.accounts.counted.parts h _ (nodeOf_of_find found isDesc) p isPart with isConstant | isLive
      · -- A constant that is no datatype has no meaning, before and after.
        cases isType : job.predefined p with
        | some m => simp only [rebuiltValue, isType, map_some, some_or]
        | none =>
          obtain ⟨-, -, call, made, records, denotes, -⟩ := sound.recorded h e d found isDesc
          obtain ⟨old, isOld⟩ := TypeCall.denote_known denotes p (records.components ▸ isPart)
          rw [sound.value_of_constant isConstant, isType] at isOld
          cases isOld
      · obtain ⟨f, d', foundPart, isDesc'⟩ := nodeOf_isSome.mp isLive
        obtain ⟨-, obj', isEntry', hasReal', -⟩ := rebuilding.type_after sound foundPart isDesc'
        rw [isEntry', bind_some, hasReal']
        rfl
  · intro p isConstant
    show (t.find p).bind (fun e => lower.types e.real) = none
    rw [finds, shape.find_constant sound.accounts.reserved isConstant]
    rfl
  · intro p m isType
    show lower.types (lower.constant p) = _
    rw [rebuilding.types.constant]
    exact rebuilding.types.kept _ _ (hosts.types p m isType)
  · intro h owned e' found'
    show lower.types e'.real = (t.find h).bind fun e => lower.types e.real
    rw [show t.find h = some e' from found', bind_some]
  · intro h owned e' found' p m isType
    obtain ⟨e, d, obj, -, -, hasReal, -, unused⟩ := ownedEntry h owned e' found'
    show e'.real ≠ lower.constant p
    rw [hasReal, rebuilding.types.constant]
    intro same
    rw [same, hosts.types p m isType] at unused
    cases unused
  · intro h owned h₂ owned₂ e' e₂' found' found₂' same
    obtain ⟨e, d, obj, found, isDesc, hasReal, -, -⟩ := ownedEntry h owned e' found'
    obtain ⟨e₂, d₂, obj₂, found₂, isDesc₂, hasReal₂, -, -⟩ := ownedEntry h₂ owned₂ e₂' found₂'
    obtain rfl := Table.find_virt found
    obtain rfl := Table.find_virt found₂
    rw [hasReal, hasReal₂] at same
    exact rebuilding.types.distinct e (shape.mem_reconstructOrder.mpr found) ⟨d, isDesc⟩ e₂
      (shape.mem_reconstructOrder.mpr found₂) ⟨d₂, isDesc₂⟩ same

theorem lt_of_kindOf {handle : Nat} (small : kindOf handle ≤ 6) : handle < 2 ^ 32 := by
  rw [kindOf_eq] at small
  omega

theorem TypesSound.step {action : RankAction job} (sound : TypesSound job r) (taken : r.step job action = some r') :
    TypesSound job r' := by
  cases action with
  | types action => exact sound.typeStep taken
  | createComm parent members cart real gid =>
    obtain ⟨-, made⟩ := ite_none_right_eq_some.mp taken
    obtain ⟨⟨handle, r₁⟩, isMade, rfl⟩ := map_eq_some_iff.mp made
    exact (sound.createComm isMade).1
  | dupComm parent real gid copies deletes =>
    obtain ⟨-, dup⟩ := ite_none_right_eq_some.mp taken
    exact sound.dupComm dup
  | freeComm comm deletes =>
    obtain ⟨isComm, freed⟩ := ite_none_right_eq_some.mp taken
    exact sound.freeComm isComm freed
  | barrierDone | setAttr | deleteAttr =>
    obtain ⟨-, done⟩ := ite_none_right_eq_some.mp taken
    cases done
    exact sound.rest rfl rfl rfl rfl
  | setErrhandler comm handler =>
    obtain ⟨-, set⟩ := ite_none_right_eq_some.mp taken
    obtain ⟨real, -, set⟩ := bind_eq_some_iff.mp set
    obtain ⟨obj, -, rfl⟩ := map_eq_some_iff.mp set
    exact sound.rest rfl rfl rfl rfl
  | keyval op =>
    cases taken
    exact sound.rest rfl rfl rfl rfl
  | newGroup d real | newOp d real =>
    obtain ⟨⟨handle, t⟩, added, rfl⟩ := map_eq_some_iff.mp taken
    exact sound.add (sound.accounts.wellFormed.addVirtId added) rfl (.inl rfl) nofun
  | newFile real =>
    obtain ⟨⟨handle, t⟩, added, rfl⟩ := map_eq_some_iff.mp taken
    exact sound.add (sound.accounts.wellFormed.addVirtId added) rfl (.inr ⟨rfl, rfl⟩) nofun
  | freeHandle handle =>
    obtain ⟨isKind, freed⟩ := ite_none_right_eq_some.mp taken
    obtain ⟨t, isFreed, rfl⟩ := map_eq_some_iff.mp freed
    have frees := sound.accounts.wellFormed.freeVirtId isFreed
    obtain ⟨e, found, -⟩ := frees.entry
    have notType : kindOf handle ≠ Kind.datatype.code := by
      rcases isKind with isKind | isKind | isKind <;> rw [isKind] <;> decide
    have small : kindOf handle ≤ 6 := by
      rcases isKind with isKind | isKind | isKind <;> rw [isKind] <;> decide
    rw [handleValue_of_lt (lt_of_kindOf small)] at frees
    exact sound.remove frees (sound.not_type notType)
  | restart new picks => exact sound.restart new.2 taken

theorem reachable_typesSound (reached : Reachable (rankMachine job) r) : TypesSound job r := by
  refine reached.invariant (TypesSound job) ?_ ?_
  · rintro _ ⟨lh, hosts, rfl⟩
    exact .initial hosts
  · exact fun r action r' _ sound taken => sound.step taken

/-- What becomes of the datatypes of `r` when `reconstruct_descriptors` leaves the table `t` and the
lower half `lower`. -/
structure TypesSurvive (job : Job) (picks : Picks) (r : Rank) (new : LowerHalf) (t : Table Desc) (lower : LowerHalf) :
    Prop where
  /-- Before, the lower half has each datatype that the application may use as it was made. -/
  before : ∀ h ∈ r.types.owned, ∃ e obj, r.types.table.find h = some e ∧ r.meaning h = some obj ∧
    r.lower.types e.real = some obj
  after : ∀ h e d, r.types.table.find h = some e → e.desc = some (.datatype d) →
    ∃ e' old obj, t.find h = some e' ∧ r.meaning h = some old ∧ lower.types e'.real = some obj ∧
      obj.typeMap = old.typeMap ∧ obj.typeMap.lb = old.typeMap.lb ∧ obj.typeMap.extent = old.typeMap.extent ∧
      (old.committed = true → obj.committed = true)
  /-- When the turn of a datatype comes, its components are predefined or made again. -/
  order : ∀ done e rest d s, r.types.table.reconstructOrder = done ++ e :: rest → e.desc = some (.datatype d) →
    done.foldlM (reconstructEntry job picks) (r.types.table, new) = some s → ∀ p ∈ d.components,
      (p ∈ job.up.constants ∨ ∃ f ∈ done, f.virt = p) ∧
      ∃ q obj, getRealId job.up s.2 s.1 p = some q ∧ s.2.types q = some obj

theorem datatypes_survive_restart (reached : Reachable (rankMachine job) r) (hosts : Hosts job new)
    (fresh : picks.Fresh r.types.table new) :
    ∃ t lower, reconstructDescriptors job picks (r.types.table, new) = some (t, lower) ∧
      TypesSurvive job picks r new t lower := by
  have sound := reachable_typesSound reached
  obtain ⟨⟨t, lower⟩, ran⟩ := reconstructDescriptors_returns sound hosts fresh
  have rebuilding := reconstructDescriptors_rebuilt sound hosts ran
  refine ⟨t, lower, ran, ?_, ?_, ?_⟩
  · intro h owned
    obtain ⟨e, d, found, isDesc⟩ := sound.owned owned
    obtain ⟨obj, isObj, -⟩ := sound.recorded h e d found isDesc
    exact ⟨e, obj, found, isObj, (sound.real h owned e found).trans isObj⟩
  · intro h e d found isDesc
    obtain ⟨old, obj, isEntry, hasReal, isOld, isObj, isCover, -⟩ := rebuilding.type_after sound found isDesc
    refine ⟨_, old, obj, isEntry, isOld, hasReal.symm ▸ isObj, isCover.typeMap, ?_, ?_, isCover.committed⟩
    · rw [isCover.typeMap]
    · rw [isCover.typeMap]
  · intro done e rest d s split isDesc ranPart p isPart
    have part := Rebuilding.part sound hosts hosts.world split ranPart
    have found : r.types.table.find e.virt = some e := by
      refine sound.accounts.wellFormed.shape.mem_reconstructOrder.mp ?_
      rw [split]
      exact List.mem_append_right done List.mem_cons_self
    obtain ⟨-, -, call, made, records, denotes, -⟩ := sound.recorded e.virt e d found isDesc
    obtain ⟨old, isOld⟩ := TypeCall.denote_known denotes p (records.components ▸ isPart)
    obtain ⟨q, obj, isReal, isObj, -⟩ := part.types.component_value sound hosts split part.table isDesc isPart isOld
    refine ⟨?_, q, obj, isReal, isObj⟩
    refine (TypesRebuilt.component sound split isDesc isPart).imp_right fun ⟨f, isDone, isVirt, _⟩ => ?_
    exact ⟨f, isDone, isVirt⟩

end Run

def twoRankJob : Job where
  up :=
    { wide := false
      constants := [0x4c000405, 0x44000000, 0x44000001]
      fits := by decide }
  predefined p := if p = 0x4c000405 then some [(.basic ⟨5, 4, 4⟩, 0)] else none
  comms := mpichComms
  size := 2
  me := 0
  isType := by
    intro p m isType
    split at isType
    · next same => exact same ▸ List.mem_cons_self
    · cases isType
  isWorld := by decide
  isSelf := by decide

def startedAt (base : Nat) : LowerHalf where
  constant p := p + base
  types q := if q = 0x4c000405 + base then some ⟨[(.basic ⟨5, 4, 4⟩, 0)], true⟩ else none
  comms q :=
    if q = 0x44000000 + base then some ⟨[0, 1], none, .errorsAreFatal⟩
    else if q = 0x44000001 + base then some ⟨[0], none, .errorsAreFatal⟩
    else none
  groups _ := none
  ops _ := none

theorem startedAt_hosts (base : Nat) : Hosts twoRankJob (startedAt base) where
  types := by
    intro p m isType
    simp only [twoRankJob, ite_none_right_eq_some, some.injEq] at isType
    obtain ⟨rfl, rfl⟩ := isType
    simp only [startedAt, if_true]
  world := by
    simp only [startedAt, twoRankJob, Job.commWorld, mpichComms, if_true]
    rfl
  self := by
    have differs : ¬(0x44000001 + base = 0x44000000 + base) := by omega
    simp only [startedAt, twoRankJob, Job.commSelf, mpichComms, if_true, differs, if_false]
  distinct := fun same => absurd (Nat.add_right_cancel same) (by decide)

def farPicks : Picks where
  object h := h + 2 ^ 40
  plain h := h + 2 ^ 41

theorem farPicks_fresh (t : Table Desc) : farPicks.Fresh t (startedAt 0) where
  types := by
    intro h e d found isDesc
    have differs : ¬(h + 2 ^ 40 = 0x4c000405 + 0) := by omega
    simp only [startedAt, farPicks, differs, if_false]
  distinctTypes := by
    intro h e d h' e' d' found isDesc found' isDesc' same
    exact Nat.add_right_cancel same
  comms := by
    intro h e d found isDesc
    have differs : ¬(h + 2 ^ 40 = 0x44000000 + 0) ∧ ¬(h + 2 ^ 40 = 0x44000001 + 0) ∧ ¬(h + 2 ^ 41 = 0x44000000 + 0) ∧
        ¬(h + 2 ^ 41 = 0x44000001 + 0) := by omega
    simp only [startedAt, farPicks, differs, if_false, and_self]
  distinctComms := by
    intro h e d h' e' d' found isDesc found' isDesc' same
    exact Nat.add_right_cancel same
  plain := by
    intro h e d h' e' d' found isDesc found' isDesc' older
    have differs : ∀ a b : Nat, a < 2 ^ 32 → b < 2 ^ 32 → a + 2 ^ 41 ≠ b + 2 ^ 40 := by omega
    exact differs h h' (Table.find_small found) (Table.find_small found')

theorem datatypes_survive_restart_freed_component :
    ∃ r t lower, Reachable (rankMachine twoRankJob) r ∧ r.types.owned = [0x30000003] ∧
      (datatypeDesc false r.types.table 0x30000002).isSome = true ∧
      reconstructDescriptors twoRankJob farPicks (r.types.table, startedAt 0) = some (t, lower) ∧
      TypesSurvive twoRankJob farPicks r (startedAt 0) t lower := by
  have ran : ((rankMachine twoRankJob).run (.initial twoRankJob (startedAt 7))
      [.types (.construct (.hindexedBlock 2 [0, 16] 0x4c000405) 1), .types (.commit 0x30000002),
        .types (.construct (.dup 0x30000002) 2), .types (.free 0x30000002)]).map
        (fun r => (r.types.owned, (datatypeDesc false r.types.table 0x30000002).isSome)) =
      some ([0x30000003], true) := by decide +kernel
  obtain ⟨r, ran, ends⟩ := map_eq_some_iff.mp ran
  obtain ⟨owned, isLive⟩ := Prod.mk.inj ends
  have first : (rankMachine twoRankJob).initial (.initial twoRankJob (startedAt 7)) := ⟨_, startedAt_hosts 7, rfl⟩
  have reached := (Reachable.start first).run ran
  obtain ⟨t, lower, rebuilt, survive⟩ := datatypes_survive_restart reached (startedAt_hosts 0) (farPicks_fresh _)
  exact ⟨r, t, lower, reached, owned, isLive, rebuilt, survive⟩

end Mana.VirtId
