import Mathlib.Algebra.Group.Nat.Defs
import Mathlib.Data.List.Basic
import Mathlib.Data.Nat.Find
import Mathlib.Tactic.Common

/-! `lookup` of the audit library: a name in the GNU hash table of `libmana.so`, once the symbol, string and hash tables
are found in the dynamic section. -/

namespace Mana.Plugin

/-- The fields of `ElfW(Sym)` that are read. -/
structure Sym where
  name : Nat
  info : Nat
  shndx : Nat
  value : Nat
  deriving DecidableEq, Repr

/-- The C string at an offset of the string table. -/
def stringAt (strtab : List UInt8) (offset : Nat) : List UInt8 := (strtab.drop offset).takeWhile (· ≠ 0)

/-- `same`, on strings without their end marks. -/
def sameString : List UInt8 → List UInt8 → Bool
  | [], [] => true
  | c :: s, d :: t => c = d && sameString s t
  | _, _ => false

def defines (sym : Sym) (strtab name : List UInt8) : Bool :=
  let type := sym.info &&& 0xf
  sym.shndx ≠ 0 && (type = 2 || type = 1) && sym.info >>> 4 ≠ 0 && sameString (stringAt strtab sym.name) name

/-- The loop that computes `hash`. -/
def gnuHash (name : List UInt8) : Nat := name.foldl (fun hash c => (hash * 33 + c.toNat) % 2 ^ 32) 5381

/-- `map->l_addr`, the symbol table and the string table. -/
structure LinkMap where
  addr : Nat
  symtab : List Sym
  strtab : List UInt8

def LinkMap.address (map : LinkMap) (sym : Sym) : Nat := (map.addr + sym.value) % 2 ^ 64

/-- The loop over a chain, from symbol `i` on, with the position of the chain's words; no value is a read outside of
a table, or a chain that does not end within `fuel` words. -/
def walkChain (map : LinkMap) (name : List UInt8) (words : List Nat) (chain symoffset : Nat) : Nat → Nat → Option Nat
  | 0, _ => none
  | fuel + 1, i =>
    words[chain + (i - symoffset)]?.bind fun chainHash =>
      let next :=
        if chainHash &&& 1 = 1 then some 0 else walkChain map name words chain symoffset fuel ((i + 1) % 2 ^ 32)
      if chainHash ||| 1 = gnuHash name ||| 1 then
        map.symtab[i]?.bind fun sym => if defines sym map.strtab name then some (map.address sym) else next
      else next

/-- `lookup`, with the words of the hash table. -/
def lookup (map : LinkMap) (words : List Nat) (name : List UInt8) : Option Nat :=
  words[0]?.bind fun nbuckets => words[1]?.bind fun symoffset => words[2]?.bind fun bloomSize =>
    let buckets := 4 + 2 * bloomSize
    words[buckets + gnuHash name % nbuckets]?.bind fun i =>
      if i < symoffset then some 0
      else walkChain map name words (buckets + nbuckets) symoffset words.length i

/-- The parts of the section. -/
structure GnuHash where
  symoffset : Nat
  bloomSize : Nat
  bloomShift : Nat
  bloom : List Nat
  buckets : List Nat
  chain : List Nat

namespace GnuHash

def words (t : GnuHash) : List Nat :=
  [t.buckets.length, t.symoffset, t.bloomSize, t.bloomShift] ++ t.bloom ++ t.buckets ++ t.chain

/-- The symbols that are hashed. -/
def hashed (t : GnuHash) (map : LinkMap) : List Sym := map.symtab.drop t.symoffset

def bucketOf (t : GnuHash) (map : LinkMap) (sym : Sym) : Nat :=
  gnuHash (stringAt map.strtab sym.name) % t.buckets.length

/-- What a linker writes. -/
structure WellFormed (t : GnuHash) (map : LinkMap) : Prop where
  bloom : t.bloom.length = 2 * t.bloomSize
  buckets : 0 < t.buckets.length
  symbols : map.symtab.length = t.symoffset + t.chain.length
  indices : map.symtab.length ≤ 2 ^ 32
  grouped : ∀ (i j k : Nat) (a b c : Sym), i < j → j < k → (t.hashed map)[i]? = some a → (t.hashed map)[j]? = some b →
    (t.hashed map)[k]? = some c → t.bucketOf map a = t.bucketOf map c → t.bucketOf map b = t.bucketOf map a
  chain : ∀ (j : Nat) (sym : Sym), (t.hashed map)[j]? = some sym → ∃ mark < 2,
    t.chain[j]? = some (gnuHash (stringAt map.strtab sym.name) / 2 * 2 + mark) ∧
      (mark = 1 ↔ ∀ next ∈ (t.hashed map)[j + 1]?, t.bucketOf map next ≠ t.bucketOf map sym)
  empty : ∀ (b v : Nat), t.buckets[b]? = some v → (∀ sym ∈ t.hashed map, t.bucketOf map sym ≠ b) → v < t.symoffset
  first : ∀ (b v j : Nat) (sym : Sym), t.buckets[b]? = some v → (t.hashed map)[j]? = some sym → t.bucketOf map sym = b →
    (∀ i < j, ∀ other ∈ (t.hashed map)[i]?, t.bucketOf map other ≠ b) → v = t.symoffset + j

variable {t : GnuHash} {map : LinkMap} {name : List UInt8}

theorem sameString_iff (s t : List UInt8) : sameString s t = true ↔ s = t := by
  induction s generalizing t with
  | nil => cases t <;> simp [sameString]
  | cons c s ih => cases t <;> simp [sameString, ih]

theorem stringAt_of_defines {sym : Sym} (isDefined : defines sym map.strtab name = true) :
    stringAt map.strtab sym.name = name := by
  simp only [defines, Bool.and_eq_true] at isDefined
  exact (sameString_iff _ _).mp isDefined.2

/-- What a linear search from a symbol on returns. -/
def searched (map : LinkMap) (name : List UInt8) (syms : List Sym) : Nat :=
  ((syms.find? (defines · map.strtab name)).map map.address).getD 0

theorem find?_eq_none {syms : List Sym}
    (others : ∀ sym ∈ syms, t.bucketOf map sym ≠ gnuHash name % t.buckets.length) :
    syms.find? (defines · map.strtab name) = none := by
  refine List.find?_eq_none.mpr fun sym member isDefined => others sym member ?_
  rw [bucketOf, stringAt_of_defines isDefined]

theorem words_chain {j : Nat} (bloom : t.bloom.length = 2 * t.bloomSize) :
    t.words[4 + 2 * t.bloomSize + t.buckets.length + j]? = t.chain[j]? := by
  rw [words, List.getElem?_append_right] <;> simp [bloom]
  · congr 1
    omega
  · omega

theorem words_buckets {b : Nat} (bloom : t.bloom.length = 2 * t.bloomSize) (inside : b < t.buckets.length) :
    t.words[4 + 2 * t.bloomSize + b]? = t.buckets[b]? := by
  rw [words, List.getElem?_append_left, List.getElem?_append_right] <;> simp [bloom]
  · congr 1
    omega
  · omega
  · omega

theorem or_one (n : Nat) : n ||| 1 = n / 2 * 2 + 1 := by
  have half : (n ||| 1) / 2 = n / 2 := by rw [Nat.or_div_two]; exact Nat.or_zero _
  have odd : (n ||| 1) % 2 = 1 := by rw [Nat.or_mod_two_eq_one]; exact .inr rfl
  omega

/-- The walk from a symbol in the name's bucket finds what the linear search finds. -/
theorem WellFormed.walkChain (wellFormed : t.WellFormed map) {fuel j : Nat} {sym : Sym}
    (enough : t.chain.length ≤ fuel + j) (isSym : (t.hashed map)[j]? = some sym)
    (inBucket : t.bucketOf map sym = gnuHash name % t.buckets.length) :
    Plugin.walkChain map name t.words (4 + 2 * t.bloomSize + t.buckets.length) t.symoffset fuel (t.symoffset + j) =
      some (searched map name ((t.hashed map).drop j)) := by
  have symbols := wellFormed.symbols
  have indices := wellFormed.indices
  induction fuel generalizing j sym with
  | zero =>
    have inside := (List.getElem?_eq_some_iff.mp isSym).1
    rw [hashed, List.length_drop] at inside
    omega
  | succ fuel ih =>
    obtain ⟨inside, isSymbol⟩ := List.getElem?_eq_some_iff.mp isSym
    obtain ⟨mark, bit, word, ends⟩ := wellFormed.chain j sym isSym
    have split : (t.hashed map).drop j = sym :: (t.hashed map).drop (j + 1) := by
      rw [List.drop_eq_getElem_cons inside, isSymbol]
    have isEntry : map.symtab[t.symoffset + j]? = some sym := by rwa [hashed, List.getElem?_drop] at isSym
    have odd : (gnuHash (stringAt map.strtab sym.name) / 2 * 2 + mark) % 2 = mark := by omega
    rw [Plugin.walkChain, Nat.add_sub_cancel_left, words_chain wellFormed.bloom, word, Option.bind_some, isEntry, split]
    dsimp only
    rw [Option.bind_some, or_one, or_one, Nat.and_one_is_mod, odd]
    by_cases isDefined : defines sym map.strtab name = true
    · rw [stringAt_of_defines isDefined, if_pos (by omega), if_pos isDefined, searched,
        List.find?_cons_of_pos (by exact isDefined)]
      rfl
    · rw [if_neg isDefined, ite_self, searched, List.find?_cons_of_neg (by exact isDefined)]
      split_ifs with last
      · -- The next symbol is in another bucket, and so are all later ones.
        have gone : ∀ other ∈ (t.hashed map).drop (j + 1), t.bucketOf map other ≠ gnuHash name % t.buckets.length := by
          intro other member same
          obtain ⟨i, isOther⟩ := List.mem_iff_getElem?.mp member
          rw [List.getElem?_drop] at isOther
          rw [← inBucket] at same
          cases i with
          | zero => exact ends.mp last other isOther same
          | succ i =>
            have between : j + 1 < (t.hashed map).length := by
              have := (List.getElem?_eq_some_iff.mp isOther).1
              omega
            have isNext := List.getElem?_eq_getElem between
            exact ends.mp last _ isNext (wellFormed.grouped j (j + 1) (j + 1 + (i + 1)) sym _ other (by omega)
              (by omega) isSym isNext isOther same.symm)
        rw [find?_eq_none gone]
        rfl
      · have next := mt ends.mpr last
        push Not at next
        obtain ⟨other, isOther, same⟩ := next
        have inside' := (List.getElem?_eq_some_iff.mp isOther).1
        rw [hashed, List.length_drop] at inside'
        rw [Nat.mod_eq_of_lt (by omega), Nat.add_assoc t.symoffset]
        exact ih (by omega) isOther (same.trans inBucket)

/-- The lookup ends, reads only the tables, and finds the first symbol of the name's bucket that defines the name, and
none exactly if no hashed symbol does. -/
theorem lookup_eq_linear_search (wellFormed : t.WellFormed map) (nonNull : ∀ sym ∈ map.symtab, map.address sym ≠ 0)
    (name : List UInt8) :
    ∃ addr, lookup map t.words name = some addr ∧
      addr = (((t.hashed map).find? fun sym =>
        t.bucketOf map sym = gnuHash name % t.buckets.length && defines sym map.strtab name).map map.address).getD 0 ∧
      (addr = 0 ↔ ∀ sym ∈ t.hashed map, defines sym map.strtab name = false) := by
  have inBucket : (fun sym => decide (t.bucketOf map sym = gnuHash name % t.buckets.length) &&
      defines sym map.strtab name) = fun sym => defines sym map.strtab name := by
    funext sym
    by_cases isDefined : defines sym map.strtab name = true
    · rw [isDefined, bucketOf, stringAt_of_defines isDefined]
      simp
    · simp [isDefined]
  refine ⟨searched map name (t.hashed map), ?_, by rw [inBucket, searched], ?_⟩
  · have inside := Nat.mod_lt (gnuHash name) wellFormed.buckets
    have isValue := List.getElem?_eq_getElem inside
    have bucket := (words_buckets wellFormed.bloom inside).trans isValue
    rw [lookup, show t.words[0]? = some t.buckets.length from rfl, show t.words[1]? = some t.symoffset from rfl,
      show t.words[2]? = some t.bloomSize from rfl]
    dsimp only [Option.bind_some]
    rw [bucket, Option.bind_some]
    by_cases some' : ∃ j : Nat, ∃ sym ∈ (t.hashed map)[j]?, t.bucketOf map sym = gnuHash name % t.buckets.length
    · classical
      obtain ⟨sym, isSym, same⟩ := Nat.find_spec some'
      have before : ∀ i < Nat.find some', ∀ other ∈ (t.hashed map)[i]?,
          t.bucketOf map other ≠ gnuHash name % t.buckets.length :=
        fun i less other isOther isSame => Nat.find_min some' less ⟨other, isOther, isSame⟩
      have gone : ∀ other ∈ (t.hashed map).take (Nat.find some'),
          t.bucketOf map other ≠ gnuHash name % t.buckets.length := by
        intro other member
        obtain ⟨i, less, isOther⟩ := List.mem_take_iff_getElem.mp member
        exact before i (by omega) other (by rw [← isOther]; exact List.getElem?_eq_getElem _)
      rw [wellFormed.first _ _ _ sym isValue isSym same before, if_neg (by omega),
        wellFormed.walkChain (by simp [GnuHash.words]; omega) isSym same]
      conv_rhs => rw [← List.take_append_drop (Nat.find some') (t.hashed map)]
      rw [searched, searched, List.find?_append, find?_eq_none gone, Option.none_or]
    · have gone : ∀ sym ∈ t.hashed map, t.bucketOf map sym ≠ gnuHash name % t.buckets.length := by
        intro sym member same
        obtain ⟨j, isSym⟩ := List.mem_iff_getElem?.mp member
        exact some' ⟨j, sym, isSym, same⟩
      rw [if_pos (wellFormed.empty _ _ isValue gone), searched, find?_eq_none gone]
      rfl
  · rw [searched]
    cases found : (t.hashed map).find? (defines · map.strtab name) with
    | none => simpa using found
    | some sym =>
      have member := List.mem_of_find?_eq_some found
      exact ⟨fun null => absurd null (nonNull sym (List.mem_of_mem_drop member)), fun none' =>
        absurd (List.find?_some found) (by simp [none' sym member])⟩

/-- A library with the one function `f`. -/
def oneFunction : LinkMap := ⟨4096, [⟨0, 0, 0, 0⟩, ⟨1, 0x12, 1, 16⟩], [0, 102, 0]⟩

def oneBucket : GnuHash := ⟨1, 1, 0, [0, 0], [1], [177675]⟩

theorem lookup_eq_linear_search_one :
    ∃ addr, lookup oneFunction oneBucket.words [102] = some addr ∧ addr = 4112 := by
  have only {j : Nat} {sym : Sym} (isSym : (oneBucket.hashed oneFunction)[j]? = some sym) : j = 0 ∧ sym = ⟨1, 0x12, 1, 16⟩ := by
    cases j with
    | zero => exact ⟨rfl, (Option.some.inj isSym).symm⟩
    | succ j => exact nomatch isSym
  have value {b v : Nat} (isValue : oneBucket.buckets[b]? = some v) : b = 0 ∧ v = 1 := by
    cases b with
    | zero => exact ⟨rfl, (Option.some.inj isValue).symm⟩
    | succ b => exact nomatch isValue
  have wellFormed : oneBucket.WellFormed oneFunction :=
    { bloom := rfl
      buckets := by decide
      symbols := rfl
      indices := by decide
      grouped := fun i j k a b c less more isA isB isC _ => by have := only isA; have := only isB; omega
      chain := fun j sym isSym => by
        obtain ⟨rfl, rfl⟩ := only isSym
        exact ⟨1, by decide, by decide, fun _ => nofun, fun _ => rfl⟩
      empty := fun b v isValue none' => by
        obtain ⟨rfl, rfl⟩ := value isValue
        exact absurd (Nat.mod_one _) (none' ⟨1, 0x12, 1, 16⟩ (by decide))
      first := fun b v j sym isValue isSym _ _ => by rw [(value isValue).2, (only isSym).1]; rfl }
  obtain ⟨addr, found, isFirst, -⟩ := lookup_eq_linear_search wellFormed (by decide) [102]
  exact ⟨addr, found, isFirst.trans (by decide)⟩

end GnuHash

end Mana.Plugin
