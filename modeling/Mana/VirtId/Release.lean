import Mana.Lib.Loop
import Mana.Lib.RefCount
import Mana.VirtId.Desc
import Mana.VirtId.Shape

/-! The datatypes in the table as a heap of counted nodes. `release_datatype` is the release
of one reference there: it returns at a depth of nested calls that the table bounds, and
leaves every other entry as it is. -/

namespace Mana.VirtId
open Mana.Lib Option

def Entry.node (e : Entry Desc) : Option (Node Nat) :=
  (e.desc.bind Desc.datatype?).map fun d => ⟨d.refs, d.components⟩

def nodeOf (t : Table Desc) (handle : Nat) : Option (Node Nat) := (t.find handle).bind Entry.node

/-- The live datatypes, each with its references and what it was made from. -/
def heapOf (t : Table Desc) : Heap Nat where
  node := nodeOf t
  live := (Finset.range (2 ^ 32)).filter fun handle => (nodeOf t handle).isSome = true
  live_iff handle := by
    rw [Finset.mem_filter, Finset.mem_range, and_iff_right_of_imp]
    intro isNode
    cases found : t.find handle with
    | none =>
      rw [nodeOf, found] at isNode
      exact nomatch isNode
    | some e => exact Table.find_small found

section View

variable {t t' : Table Desc} {handle : Nat} {e : Entry Desc} {d : DatatypeDesc}

theorem Desc.datatype?_eq_some {desc : Desc} : desc.datatype? = some d ↔ desc = .datatype d := by
  cases desc <;> simp [Desc.datatype?]

theorem nodeOf_eq_some {n : Node Nat} : nodeOf t handle = some n ↔
    ∃ e d, t.find handle = some e ∧ e.desc = some (.datatype d) ∧ n = ⟨d.refs, d.components⟩ := by
  simp only [nodeOf, Entry.node, bind_eq_some_iff, map_eq_some_iff]
  constructor
  · rintro ⟨e, found, d, ⟨desc, isDesc, isType⟩, rfl⟩
    exact ⟨e, d, found, isDesc.trans (congrArg some (Desc.datatype?_eq_some.mp isType)), rfl⟩
  · rintro ⟨e, d, found, isDesc, rfl⟩
    exact ⟨e, found, d, ⟨.datatype d, isDesc, rfl⟩, rfl⟩

theorem nodeOf_isSome : (nodeOf t handle).isSome = true ↔
    ∃ e d, t.find handle = some e ∧ e.desc = some (.datatype d) := by
  simp only [isSome_iff_exists, nodeOf_eq_some]
  exact ⟨fun ⟨_, e, d, found, isDesc, _⟩ => ⟨e, d, found, isDesc⟩, fun ⟨e, d, found, isDesc⟩ => ⟨_, e, d, found, isDesc, rfl⟩⟩

theorem nodeOf_eq_none (notType : ∀ e d, t.find handle = some e → e.desc ≠ some (.datatype d)) :
    nodeOf t handle = none := by
  refine eq_none_iff_forall_ne_some.mpr fun n isNode => ?_
  obtain ⟨e, d, found, isDesc, -⟩ := nodeOf_eq_some.mp isNode
  exact notType e d found isDesc

theorem nodeOf_of_find (found : t.find handle = some e) (isDesc : e.desc = some (.datatype d)) :
    nodeOf t handle = some ⟨d.refs, d.components⟩ := nodeOf_eq_some.mpr ⟨e, d, found, isDesc, rfl⟩

theorem nodeOf_congr (same : t'.find handle = t.find handle) : nodeOf t' handle = nodeOf t handle := by
  simp only [nodeOf, same]

variable {wide : Bool} {assign : DatatypeDesc → DatatypeDesc} {real : Handle}

theorem datatypeDesc_iff (fits : handleValue wide handle = handle) :
    datatypeDesc wide t handle = some d ↔ ∃ e, t.find handle = some e ∧ e.desc = some (.datatype d) := by
  rw [datatypeDesc, Table.lookup_find, fits, bind_eq_some_iff]
  refine exists_congr fun e => and_congr_right fun _ => ?_
  rw [bind_eq_some_iff]
  constructor
  · rintro ⟨desc, isDesc, isType⟩
    exact isDesc.trans (congrArg some (Desc.datatype?_eq_some.mp isType))
  · intro isDesc
    exact ⟨_, isDesc, rfl⟩

theorem datatypeDesc_none (fits : handleValue wide handle = handle) (absent : datatypeDesc wide t handle = none) :
    nodeOf t handle = none := by
  refine nodeOf_eq_none fun e d found isDesc => ?_
  exact nomatch absent.symm.trans ((datatypeDesc_iff fits).mpr ⟨e, found, isDesc⟩)

variable {entry : Option (Entry Desc)}

theorem Table.Puts.heap_same (puts : t.Puts handle entry t') (same : entry.bind Entry.node = nodeOf t handle) :
    heapOf t' = heapOf t := by
  refine Heap.eq_of_node (funext fun other => ?_)
  by_cases isHandle : other = handle
  · rw [isHandle]
    exact (congrArg (Option.bind · Entry.node) puts.here).trans same
  · exact nodeOf_congr (puts.others other isHandle)

theorem Table.Puts.heap_put (puts : t.Puts handle (some e) t') (isDesc : e.desc = some (.datatype d)) :
    heapOf t' = (heapOf t).put handle ⟨d.refs, d.components⟩ := by
  refine Heap.eq_of_node (funext fun other => ?_)
  by_cases same : other = handle
  · rw [same, Heap.node_put_self]
    exact nodeOf_of_find puts.here isDesc
  · rw [Heap.node_put_other same]
    exact nodeOf_congr (puts.others other same)

theorem Table.Frees.heap (frees : t.Frees handle t') : heapOf t' = (heapOf t).remove handle := by
  refine Heap.eq_of_node (funext fun other => ?_)
  by_cases same : other = handle
  · rw [same, Heap.node_remove_self]
    show nodeOf t' handle = none
    simp only [nodeOf, frees.here, bind_none]
  · rw [Heap.node_remove_other same]
    exact nodeOf_congr (frees.others other same)

theorem Table.Modifies.congr {assign assign' : Entry Desc → Entry Desc} (modifies : t.Modifies handle assign t')
    (found : t.find handle = some e) (same : assign e = assign' e) : t.Modifies handle assign' t' where
  wellFormed := modifies.wellFormed
  entry := by
    obtain ⟨e', found', after⟩ := modifies.entry
    obtain rfl := mem_unique found found'
    exact ⟨e, found, same ▸ after⟩
  others := modifies.others
  slots := modifies.slots
  reserved := modifies.reserved
  nextSeq := modifies.nextSeq
  highWater := modifies.highWater

theorem modifyDatatype_spec (wf : t.WellFormed) (fits : handleValue wide handle = handle)
    (found : t.find handle = some e) :
    t.Modifies handle (assignDatatype assign) (modifyDatatype wide t handle assign) := by
  have looked : t.lookupVirtIdEntry wide handle = some e := by rw [Table.lookup_find, fits, found]
  have modified : t.modifyEntry wide handle (assignDatatype assign) = some (modifyDatatype wide t handle assign) := by
    simp only [modifyDatatype, Table.modifyEntry, looked, map_some, getD_some]
  exact wf.modifies fits modified fun _ => rfl

end View

def withRefs (refs : Int) : Entry Desc → Entry Desc := assignDatatype fun d => { d with refs := refs }

/-- Releases and new references touch the counts of the datatypes, and free some of them. -/
structure RefsFrame (t t' : Table Desc) : Prop where
  kept : ∀ handle e', t'.find handle = some e' → ∃ e refs, t.find handle = some e ∧ e' = withRefs refs e
  others : ∀ handle, nodeOf t handle = none → t'.find handle = t.find handle
  reserved : t'.reserved = t.reserved
  nextSeq : t'.nextSeq = t.nextSeq
  highWater : t'.highWater = t.highWater

section Frame

variable {t t₁ t₂ : Table Desc}

theorem withRefs_self (e : Entry Desc) : ∃ refs, e = withRefs refs e := by
  obtain ⟨real, desc, seq, virt, nextFree, gen, call, collective, completed, status⟩ := e
  cases desc with
  | none => exact ⟨0, rfl⟩
  | some desc =>
    cases desc with
    | datatype d => exact ⟨d.refs, rfl⟩
    | _ => exact ⟨0, rfl⟩

theorem withRefs_withRefs (refs refs' : Int) (e : Entry Desc) : withRefs refs (withRefs refs' e) = withRefs refs e := by
  obtain ⟨real, desc, seq, virt, nextFree, gen, call, collective, completed, status⟩ := e
  cases desc with
  | none => rfl
  | some desc => cases desc <;> rfl

theorem RefsFrame.refl (t : Table Desc) : RefsFrame t t where
  kept := fun _ e found => ⟨e, (withRefs_self e).imp fun _ same => ⟨found, same⟩⟩
  others := fun _ _ => rfl
  reserved := rfl
  nextSeq := rfl
  highWater := rfl

theorem RefsFrame.trans (one : RefsFrame t t₁) (two : RefsFrame t₁ t₂) : RefsFrame t t₂ where
  kept := by
    intro handle e₂ found₂
    obtain ⟨e₁, refs₂, found₁, rfl⟩ := two.kept handle e₂ found₂
    obtain ⟨e, refs₁, found, rfl⟩ := one.kept handle e₁ found₁
    exact ⟨e, refs₂, found, withRefs_withRefs refs₂ refs₁ e⟩
  others := by
    intro handle notType
    have same := one.others handle notType
    rw [two.others handle ((nodeOf_congr same).trans notType), same]
  reserved := two.reserved.trans one.reserved
  nextSeq := two.nextSeq.trans one.nextSeq
  highWater := two.highWater.trans one.highWater

end Frame

/-- What the wrappers record: a descriptor is on an entry without a pending call, its handles
have the size of the library's, and a struct has no `oldtype`. -/
structure DescSound (wide : Bool) (e : Entry Desc) : Prop where
  idle : e.desc.isSome = true → e.call = none
  fits : ∀ d, e.desc = some (.datatype d) → ∀ p ∈ d.components, handleValue wide p = p
  struct : ∀ d, e.desc = some (.datatype d) → d.constructor = .struct → d.oldtype = 0

def DescsSound (wide : Bool) (t : Table Desc) : Prop := ∀ handle e, t.find handle = some e → DescSound wide e

theorem withRefs_desc {refs : Int} {e : Entry Desc} {d : DatatypeDesc}
    (isDesc : (withRefs refs e).desc = some (.datatype d)) :
    ∃ d', e.desc = some (.datatype d') ∧ d = { d' with refs := refs } := by
  cases before : e.desc with
  | none => simp [withRefs, assignDatatype, before] at isDesc
  | some desc =>
    cases desc with
    | datatype d' =>
      simp only [withRefs, assignDatatype, before, map_some, some.injEq, Desc.datatype.injEq] at isDesc
      exact ⟨d', rfl, isDesc.symm⟩
    | _ => simp [withRefs, assignDatatype, before] at isDesc

/-- A descriptor without the count and without what only a restart reads. -/
def Desc.core : Desc → Desc
  | .datatype d => .datatype { d with refs := 0, committed := false }
  | other => other

theorem Desc.core_datatype {desc desc' : Option Desc} {d : DatatypeDesc} (same : desc'.map Desc.core = desc.map Desc.core)
    (isType : desc' = some (.datatype d)) : ∃ d', desc = some (.datatype d') ∧
      d'.components = d.components ∧ d'.constructor = d.constructor ∧ d'.oldtype = d.oldtype := by
  subst isType
  cases desc with
  | none => cases same
  | some desc =>
    cases desc with
    | datatype d' =>
      simp only [map_some, Desc.core, some.injEq, Desc.datatype.injEq, DatatypeDesc.mk.injEq] at same
      refine ⟨d', rfl, ?_, same.1.symm, ?_⟩
      · simp only [DatatypeDesc.components, same]
      · simp only [same]
    | _ => cases same

theorem withRefs_core (refs : Int) (e : Entry Desc) : (withRefs refs e).desc.map Desc.core = e.desc.map Desc.core := by
  cases isDesc : e.desc with
  | none => simp only [withRefs, assignDatatype, isDesc, map_none]
  | some desc => cases desc <;> simp only [withRefs, assignDatatype, isDesc, map_some, Desc.core]

theorem DescSound.congr {wide : Bool} {e e' : Entry Desc} (sound : DescSound wide e) (call : e'.call = e.call)
    (desc : e'.desc.map Desc.core = e.desc.map Desc.core) : DescSound wide e' where
  idle := by
    intro hasDesc
    have isSome := congrArg Option.isSome desc
    rw [isSome_map, isSome_map, hasDesc] at isSome
    exact call.trans (sound.idle isSome.symm)
  fits := by
    intro d isDesc
    obtain ⟨d', before, components, -⟩ := Desc.core_datatype desc isDesc
    exact components ▸ sound.fits d' before
  struct := by
    intro d isDesc isStruct
    obtain ⟨d', before, -, constructor, oldtype⟩ := Desc.core_datatype desc isDesc
    exact oldtype ▸ sound.struct d' before (constructor.trans isStruct)

theorem DescsSound.frame {wide : Bool} {t t' : Table Desc} (sound : DescsSound wide t) (frame : RefsFrame t t') :
    DescsSound wide t' := by
  intro handle e' found'
  obtain ⟨e, refs, found, rfl⟩ := frame.kept handle e' found'
  exact (sound handle e found).congr rfl (withRefs_core refs e)

section Release

variable {wide : Bool}

structure Released (wide : Bool) (t : Table Desc) (work : List Handle) (t' : Table Desc) : Prop where
  wellFormed : t'.WellFormed
  frame : RefsFrame t t'
  releases : (heapOf t).Releases work (heapOf t')

variable {t t' t₁ : Table Desc} {d : DatatypeDesc} {type : Handle} {e : Entry Desc} {refs : Int}

theorem Released.card {work : List Handle} (released : Released wide t work t') :
    (heapOf t').live.card ≤ (heapOf t).live.card := by
  refine Finset.card_le_card fun handle isLive => ?_
  rw [Heap.live_iff] at isLive ⊢
  obtain ⟨n, found⟩ := isSome_iff_exists.mp isLive
  obtain ⟨m, before, -⟩ := released.releases.parts found
  rw [before]
  rfl

/-- After the datatype, `release_datatype` releases its components; for an empty struct there
is nothing behind the 0 that it releases instead. -/
theorem DatatypeDesc.released_cases (d : DatatypeDesc) (struct : d.constructor = .struct → d.oldtype = 0) :
    d.released = d.components ∨ d.components = [] ∧ d.released = [0] := by
  by_cases isStruct : d.constructor = .struct
  · simp only [DatatypeDesc.released, DatatypeDesc.components, isStruct, if_true, struct isStruct]
    by_cases empty : (d.oldtypes.take d.count).isEmpty = true
    · exact .inr ⟨List.isEmpty_iff.mp empty, if_pos empty⟩
    · exact .inl (if_neg empty)
  · exact .inl (by simp [DatatypeDesc.released, DatatypeDesc.components, isStruct])

theorem find_zero (t : Table Desc) : t.find 0 = none := by
  refine eq_none_iff_forall_ne_some.mpr fun e found => ?_
  exact kindInUse_ne_zero (Table.find_eq_some.mp found).1 rfl

theorem nodeOf_zero (t : Table Desc) : nodeOf t 0 = none := by
  simp only [nodeOf, find_zero, bind_none]

theorem DatatypeDesc.releases_components {h : Heap Nat} (struct : d.constructor = .struct → d.oldtype = 0)
    (releases : (heapOf t).Releases d.released h) : (heapOf t).Releases d.components h := by
  rcases d.released_cases struct with same | ⟨empty, isZero⟩
  · exact same ▸ releases
  · rw [isZero] at releases
    rw [empty]
    cases releases with
    | missing absent done => exact done
    | drop isNode | free isNode => exact nomatch isNode.symm.trans (nodeOf_zero t)

theorem DatatypeDesc.released_fits (struct : d.constructor = .struct → d.oldtype = 0)
    (fits : ∀ p ∈ d.components, handleValue wide p = p) : ∀ p ∈ d.released, handleValue wide p = p := by
  rcases d.released_cases struct with same | ⟨-, isZero⟩
  · rw [same]
    exact fits
  · rw [isZero]
    intro p member
    rw [List.mem_singleton.mp member]
    cases wide <;> rfl

theorem releaseList {release : Table Desc → Handle → Option (Table Desc)} {bound : Nat}
    (each : ∀ t type, t.WellFormed → DescsSound wide t → handleValue wide type = type →
      (heapOf t).live.card ≤ bound → ∃ t', release t type = some t' ∧ Released wide t [type] t')
    (work : List Handle) (wf : t.WellFormed) (sound : DescsSound wide t) (fits : ∀ p ∈ work, handleValue wide p = p)
    (small : (heapOf t).live.card ≤ bound) : ∃ t', work.foldlM release t = some t' ∧ Released wide t work t' := by
  induction work generalizing t with
  | nil => exact ⟨t, rfl, wf, .refl t, .done⟩
  | cons type rest ih =>
    obtain ⟨t₁, ran, one⟩ := each t type wf sound (fits type List.mem_cons_self) small
    obtain ⟨t₂, ranRest, two⟩ := ih one.wellFormed (sound.frame one.frame)
      (fun p member => fits p (List.mem_cons_of_mem type member)) (one.card.trans small)
    refine ⟨t₂, ?_, two.wellFormed, one.frame.trans two.frame, one.releases.append two.releases⟩
    rw [List.foldlM_cons, ran]
    exact ranRest

theorem Table.Modifies.frame {type : Nat} (found : t.find type = some e) (isDesc : e.desc = some (.datatype d))
    (modifies : t.Modifies type (withRefs refs) t₁) : RefsFrame t t₁ where
  kept := by
    intro handle e' found'
    rcases (modifies.puts found).cases found' with ⟨rfl, isNew⟩ | ⟨-, before⟩
    · exact ⟨e, refs, found, (some.inj isNew).symm⟩
    · exact ⟨e', (withRefs_self e').imp fun _ unchanged => ⟨before, unchanged⟩⟩
  others := by
    intro handle notType
    refine modifies.others handle fun same => ?_
    exact nomatch (same ▸ notType).symm.trans (nodeOf_of_find found isDesc)
  reserved := modifies.reserved
  nextSeq := modifies.nextSeq
  highWater := modifies.highWater

theorem Table.Frees.frame {type : Nat} (isNode : (nodeOf t type).isSome = true) (frees : t.Frees type t₁) :
    RefsFrame t t₁ where
  kept := fun _ e' found' => ⟨e', (withRefs_self e').imp fun _ same => ⟨(frees.before found').2, same⟩⟩
  others := by
    intro handle notType
    refine frees.others handle fun same => ?_
    rw [← same, notType] at isNode
    cases isNode
  reserved := frees.reserved
  nextSeq := frees.nextSeq
  highWater := frees.highWater

theorem Table.WellFormed.freeVirtId_isSome (fits : handleValue wide type = type) (found : t.find type = some e)
    (idle : e.call = none) : ∃ t', t.freeVirtId wide type = some t' := by
  have looked : t.lookupVirtIdEntry wide type = some e := by rw [Table.lookup_find, fits, found]
  simp only [Table.freeVirtId, looked, bind_some, idle, isSome_none, Bool.false_eq_true, if_false]
  exact ⟨_, rfl⟩

/-- `release_datatype` returns, and has released one reference. -/
theorem releaseDatatype_spec (fuel : Nat) (t : Table Desc) (type : Handle) (wf : t.WellFormed)
    (sound : DescsSound wide t) (fits : handleValue wide type = type) (small : (heapOf t).live.card ≤ fuel) :
    ∃ t', releaseDatatype wide (fuel + 1) t type = some t' ∧ Released wide t [type] t' := by
  induction fuel generalizing t type with
  | zero =>
    -- There is no datatype to find.
    have absent : nodeOf t type = none := by
      have notLive : type ∉ (heapOf t).live := by
        rw [Finset.card_eq_zero.mp (Nat.le_zero.mp small)]
        exact Finset.notMem_empty type
      exact not_isSome_iff_eq_none.mp (mt (Heap.live_iff (heapOf t) type).mpr notLive)
    have noDesc : datatypeDesc wide t type = none := by
      refine eq_none_iff_forall_ne_some.mpr fun d isDesc => ?_
      obtain ⟨e, found, hasDesc⟩ := (datatypeDesc_iff fits).mp isDesc
      exact nomatch absent.symm.trans (nodeOf_of_find found hasDesc)
    refine ⟨t, ?_, wf, .refl t, .missing absent .done⟩
    simp only [releaseDatatype, noDesc]
  | succ fuel ih =>
    cases isDesc : datatypeDesc wide t type with
    | none =>
      refine ⟨t, ?_, wf, .refl t, .missing (datatypeDesc_none fits isDesc) .done⟩
      simp only [releaseDatatype, isDesc]
    | some d =>
      obtain ⟨e, found, hasDesc⟩ := (datatypeDesc_iff fits).mp isDesc
      have isNode := nodeOf_of_find found hasDesc
      generalize isDropped : modifyDatatype wide t type (fun d => { d with refs := d.refs - 1 }) = dropped
      have modifies : t.Modifies type (withRefs (d.refs - 1)) dropped := by
        rw [← isDropped]
        refine (modifyDatatype_spec wf fits found).congr found ?_
        simp only [assignDatatype, withRefs, hasDesc, map_some]
      have heapDropped : heapOf dropped = (heapOf t).put type ⟨d.refs - 1, d.components⟩ :=
        (modifies.puts found).heap_put (congrArg (Option.map _) hasDesc)
      by_cases held : 0 < d.refs - 1
      · refine ⟨dropped, ?_, modifies.wellFormed, modifies.frame found hasDesc,
          .drop isNode held (heapDropped ▸ .done)⟩
        simp only [releaseDatatype, isDesc, isDropped, held, if_true]
      · have after := (modifies.puts found).here
        have described := sound type e found
        have idle : (withRefs (d.refs - 1) e).call = none := described.idle (hasDesc ▸ rfl)
        obtain ⟨freed, ran⟩ := Table.WellFormed.freeVirtId_isSome fits after idle
        have frees := modifies.wellFormed.freeVirtId ran
        rw [fits] at frees
        have isNode' : (nodeOf dropped type).isSome = true := by
          rw [nodeOf_of_find after (congrArg (Option.map _) hasDesc)]
          rfl
        have frame := (modifies.frame found hasDesc).trans (frees.frame isNode')
        have heapFreed : heapOf freed = (heapOf t).remove type := by
          rw [frees.heap, heapDropped]
          refine Heap.eq_of_node (funext fun other => ?_)
          by_cases same : other = type
          · rw [same, Heap.node_remove_self, Heap.node_remove_self]
          · rw [Heap.node_remove_other same, Heap.node_put_other same, Heap.node_remove_other same]
        have fewer : (heapOf freed).live.card ≤ fuel := by
          have isLive : type ∈ (heapOf t).live := (Heap.live_iff _ _).mpr (isSome_iff_exists.mpr ⟨_, isNode⟩)
          rw [heapFreed]
          exact Nat.le_of_lt_succ (Nat.lt_of_lt_of_le (Finset.card_erase_lt_of_mem isLive) small)
        have struct := described.struct d hasDesc
        obtain ⟨t', ranRest, rest⟩ := releaseList ih d.released frees.wellFormed (sound.frame frame)
          (d.released_fits struct (described.fits d hasDesc)) fewer
        refine ⟨t', ?_, rest.wellFormed, frame.trans rest.frame, .free isNode held ?_⟩
        · simp only [releaseDatatype, isDesc, isDropped, held, if_false, ran, bind_some]
          exact ranRest
        · rw [List.append_nil, ← heapFreed]
          exact d.releases_components struct rest.releases

theorem releaseDatatype_mono {fuel fuel' : Nat} (deeper : fuel ≤ fuel')
    (ran : releaseDatatype wide fuel t type = some t') : releaseDatatype wide fuel' t type = some t' := by
  induction fuel generalizing fuel' t t' type with
  | zero => cases ran
  | succ fuel ih =>
    obtain ⟨fuel', rfl⟩ : ∃ k, fuel' = k + 1 := ⟨fuel' - 1, by omega⟩
    simp only [releaseDatatype] at ran ⊢
    split at ran
    · exact ran
    · split at ran
      · next held =>
        rw [if_pos held]
        exact ran
      · next held =>
        rw [if_neg held]
        obtain ⟨freed, isFreed, rest⟩ := bind_eq_some_iff.mp ran
        refine bind_eq_some_iff.mpr ⟨freed, isFreed, ?_⟩
        exact foldlM_mono (fun _ _ _ one => ih (Nat.le_of_succ_le_succ deeper) one) _ rest

theorem Table.Shape.card_le (shape : t.Shape) : (heapOf t).live.card ≤ t.highWater := by
  have inRange : ∀ handle ∈ (heapOf t).live, slotOf handle ∈ Finset.range t.highWater := by
    intro handle isLive
    obtain ⟨e, d, found, -⟩ := nodeOf_isSome.mp ((Heap.live_iff _ _).mp isLive)
    exact Finset.mem_range.mpr (shape.find_highWater found)
  have injective : Set.InjOn slotOf ((heapOf t).live : Set Nat) := by
    intro handle isLive other otherLive sameSlot
    obtain ⟨e, -, found, -⟩ := nodeOf_isSome.mp ((Heap.live_iff _ _).mp isLive)
    obtain ⟨e', -, found', -⟩ := nodeOf_isSome.mp ((Heap.live_iff _ _).mp otherLive)
    obtain ⟨inSlot, isHandle, -⟩ := shape.find_iff.mp found
    obtain ⟨inSlot', isOtherHandle, -⟩ := shape.find_iff.mp found'
    rw [sameSlot] at inSlot
    obtain rfl := mem_unique inSlot inSlot'
    exact isHandle.symm.trans isOtherHandle
  have counted := Finset.card_le_card_of_injOn slotOf inRange injective
  rwa [Finset.card_range] at counted

theorem releaseDatatype_returns (wf : t.WellFormed) (sound : DescsSound wide t) (fits : handleValue wide type = type) :
    ∃ t', releaseDatatype wide (releaseDepth t) t type = some t' ∧ Released wide t [type] t' :=
  releaseDatatype_spec t.highWater t type wf sound fits wf.shape.card_le

end Release

end Mana.VirtId
