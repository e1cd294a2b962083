import Mathlib.Algebra.Order.Ring.Int
import Mathlib.Data.List.Forall2

/-! Integers as text: a record of them printed with blanks in between and read back by a format of
conversions, as `snprintf` and `sscanf` do it. -/

namespace Mana.Lib

inductive Conv where
  | unsigned (bits : Nat)
  | signed (bits : Nat)
  deriving DecidableEq, Repr

namespace Conv

def low : Conv → Int
  | unsigned _ => 0
  | signed bits => -2 ^ (bits - 1)

def high : Conv → Int
  | unsigned bits => 2 ^ bits
  | signed bits => 2 ^ (bits - 1)

def Holds (c : Conv) (value : Int) : Prop := c.low ≤ value ∧ value < c.high

instance (c : Conv) (value : Int) : Decidable (c.Holds value) := inferInstanceAs (Decidable (_ ∧ _))

def width (c : Conv) : Nat := (Nat.toDigits 10 c.high.natAbs).length + if c.low < 0 then 1 else 0

end Conv

def printInt (value : Int) : List Char :=
  if value < 0 then '-' :: Nat.toDigits 10 value.natAbs else Nat.toDigits 10 value.natAbs

def printRecord : List Int → List Char
  | [] => []
  | [value] => printInt value
  | value :: values => printInt value ++ ' ' :: printRecord values

/-- `snprintf` into a buffer of `size` characters, one of which ends the string. -/
def snprintf (size : Nat) (text : List Char) : List Char := text.take (size - 1)

def scanNat (text : List Char) : Option (Nat × List Char) :=
  let digits := text.takeWhile Char.isDigit
  if digits = [] then none else some (Nat.ofDigitChars 10 digits 0, text.dropWhile Char.isDigit)

/-- A conversion skips the white space before it. -/
def scanInt (text : List Char) : Option (Int × List Char) :=
  match text.dropWhile Char.isWhitespace with
  | '-' :: rest => (scanNat rest).map fun (value, rest) => (-value, rest)
  | '+' :: rest => (scanNat rest).map fun (value, rest) => (value, rest)
  | rest => (scanNat rest).map fun (value, rest) => (value, rest)

/-- The values that `sscanf` assigns; their number is its result. What it assigns for a value outside
the conversion's type is not defined, so the list ends before it. -/
def sscanf : List Conv → List Char → List Int
  | [], _ => []
  | c :: cs, text =>
    match scanInt text with
    | some (value, rest) => if c.Holds value then value :: sscanf cs rest else []
    | none => []

section Scan

theorem isDigit_of_mem {d : Nat} {c : Char} (digit : c ∈ Nat.toDigits 10 d) : c.isDigit = true :=
  Nat.isDigit_of_mem_toDigits (by decide) (by decide) digit

theorem scanNat_toDigits (d : Nat) {rest : List Char} (ends : ∀ c ∈ rest.head?, c.isDigit = false) :
    scanNat (Nat.toDigits 10 d ++ rest) = some (d, rest) := by
  have stops : rest.takeWhile Char.isDigit = [] ∧ rest.dropWhile Char.isDigit = rest := by
    cases rest with
    | nil => simp
    | cons c cs => simp [ends c rfl]
  have taken : (Nat.toDigits 10 d ++ rest).takeWhile Char.isDigit = Nat.toDigits 10 d := by
    rw [List.takeWhile_append_of_pos fun c digit => isDigit_of_mem digit, stops.1, List.append_nil]
  have dropped : (Nat.toDigits 10 d ++ rest).dropWhile Char.isDigit = rest := by
    rw [List.dropWhile_append_of_pos fun c digit => isDigit_of_mem digit, stops.2]
  simp only [scanNat, taken, dropped, Nat.toDigits_ne_nil, if_false, Nat.ofDigitChars_ten_toDigits]

theorem scanInt_of_digit {c : Char} (digit : c.isDigit = true) (rest : List Char) :
    scanInt (c :: rest) = (scanNat (c :: rest)).map fun (value, rest) => ((value : Int), rest) := by
  have visible : c.isWhitespace = false := by
    by_contra blank
    simp only [Char.isWhitespace, Bool.not_eq_false, Bool.or_eq_true, decide_eq_true_eq] at blank
    rcases blank with ((rfl | rfl) | rfl) | rfl <;> exact absurd digit (by decide)
  rw [scanInt, List.dropWhile_cons_of_neg (by simp [visible])]
  split
  · simp_all
  · simp_all
  · rfl

theorem scanInt_blank (text : List Char) : scanInt (' ' :: text) = scanInt text := by
  rw [scanInt, List.dropWhile_cons_of_pos (by decide)]
  rfl

theorem sscanf_blank (cs : List Conv) (text : List Char) : sscanf cs (' ' :: text) = sscanf cs text := by
  cases cs with
  | nil => rfl
  | cons c cs => rw [sscanf, sscanf, scanInt_blank]

theorem scanInt_printInt (value : Int) (rest : List Char) (ends : ∀ c ∈ rest.head?, c.isDigit = false) :
    scanInt (printInt value ++ rest) = some (value, rest) := by
  by_cases negative : value < 0
  · rw [printInt, if_pos negative, List.cons_append, scanInt, List.dropWhile_cons_of_neg (by decide)]
    simp only [scanNat_toDigits _ ends, Option.map_some]
    rw [Int.ofNat_natAbs_of_nonpos negative.le, Int.neg_neg]
  · rw [printInt, if_neg negative]
    obtain ⟨c, digits, shape⟩ := List.exists_cons_of_ne_nil (Nat.toDigits_ne_nil (n := value.natAbs) (b := 10))
    have digit : c.isDigit = true := isDigit_of_mem (d := value.natAbs) (by rw [shape]; exact List.mem_cons_self)
    have scanned := scanNat_toDigits value.natAbs ends
    rw [shape, List.cons_append] at scanned ⊢
    rw [scanInt_of_digit digit, scanned]
    simp only [Option.map_some, Int.natAbs_of_nonneg (Int.not_lt.mp negative)]

theorem sscanf_printRecord {cs : List Conv} {values : List Int} (holds : List.Forall₂ Conv.Holds cs values) :
    sscanf cs (printRecord values) = values := by
  induction holds with
  | nil => rfl
  | @cons c value cs values inRange others ih =>
    cases values with
    | nil =>
      cases others
      have scanned : scanInt (printInt value) = some (value, []) := by
        simpa using scanInt_printInt value [] (by simp)
      simp [sscanf, printRecord, scanned, inRange]
    | cons next values =>
      have scanned : scanInt (printRecord (value :: next :: values)) =
          some (value, ' ' :: printRecord (next :: values)) :=
        scanInt_printInt value _ (by simp)
      rw [sscanf, scanned]
      simp only [inRange, if_true, List.cons.injEq, true_and]
      rw [sscanf_blank, ih]

end Scan

section Length

theorem length_toDigits_mono {d e : Nat} (le : d ≤ e) :
    (Nat.toDigits 10 d).length ≤ (Nat.toDigits 10 e).length := by
  have positive : 0 < (Nat.toDigits 10 e).length := Nat.length_toDigits_pos
  rw [Nat.length_toDigits_le_iff (by decide) positive]
  exact lt_of_le_of_lt le ((Nat.length_toDigits_le_iff (by decide) positive).mp le_rfl)

theorem Conv.low_neg_le (c : Conv) : -c.high ≤ c.low := by
  cases c with
  | unsigned bits => exact Int.neg_nonpos_of_nonneg (Int.pow_nonneg (by decide))
  | signed bits => exact le_rfl

theorem length_printInt_le {c : Conv} {value : Int} (holds : c.Holds value) : (printInt value).length ≤ c.width := by
  obtain ⟨above, below⟩ := holds
  have reach := c.low_neg_le
  have digits := length_toDigits_mono (show value.natAbs ≤ c.high.natAbs by omega)
  by_cases negative : value < 0
  · rw [printInt, if_pos negative, Conv.width, if_pos (by omega), List.length_cons]
    omega
  · rw [printInt, if_neg negative, Conv.width]
    omega

theorem length_printRecord_le {cs : List Conv} {values : List Int} (holds : List.Forall₂ Conv.Holds cs values) :
    (printRecord values).length ≤ (cs.map fun c => c.width + 1).sum := by
  induction holds with
  | nil => simp [printRecord]
  | @cons c value cs values inRange others ih =>
    have first := length_printInt_le inRange
    cases values with
    | nil =>
      simp only [printRecord, List.map_cons, List.sum_cons]
      omega
    | cons next values =>
      simp only [printRecord, List.map_cons, List.sum_cons, List.length_append, List.length_cons] at ih ⊢
      omega

theorem snprintf_eq {size : Nat} {text : List Char} (fits : text.length < size) : snprintf size text = text :=
  List.take_of_length_le (by omega)

theorem sscanf_snprintf {cs : List Conv} {values : List Int} (size : Nat)
    (holds : List.Forall₂ Conv.Holds cs values) (room : (cs.map fun c => c.width + 1).sum < size) :
    (printRecord values).length < size ∧ sscanf cs (snprintf size (printRecord values)) = values := by
  have fits : (printRecord values).length < size := lt_of_le_of_lt (length_printRecord_le holds) room
  rw [snprintf_eq fits]
  exact ⟨fits, sscanf_printRecord holds⟩

end Length

end Mana.Lib
