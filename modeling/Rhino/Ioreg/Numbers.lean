import Rhino.Ioreg.Confinement

/-!
# Numbers in text

`convert_input` takes a decimal number, or the letter `x` or `b` and a
hexadecimal or binary number, each with or without a newline.  `NumberText` is
such an input and the number it stands for.

Decimal input is taken for its number modulo 2^32, so that a number of 2^31 or
more is mostly negative but not always.  With a letter in front the loops run
one character too far, so that the result depends on what happens to stand
behind the text.
-/

namespace Rhino.Ioreg

open Rhino.Bof Rhino.Kernel

/-! ## Inputs -/

/-- The three forms of a number. -/
inductive Base where
  | decimal
  | hexadecimal
  | binary
  deriving DecidableEq, Repr

/-- The value of a digit, in either case. -/
def digitValue (c : UInt8) : Option ℕ :=
  if 48 ≤ c ∧ c ≤ 57 then some (c.toNat - 48)
  else if 97 ≤ c ∧ c ≤ 102 then some (c.toNat - 97 + 10)
  else if 65 ≤ c ∧ c ≤ 70 then some (c.toNat - 65 + 10)
  else none

namespace Base

def radix : Base → ℕ
  | decimal => 10
  | hexadecimal => 16
  | binary => 2

/-- What stands in front of the digits. -/
def letter : Base → List UInt8
  | decimal => []
  | hexadecimal => [120]
  | binary => [98]

/-- The value of a digit of this base. -/
def digit (base : Base) (c : UInt8) : Option ℕ :=
  (digitValue c).filter (· < base.radix)

/-- The number that a string of digits stands for. -/
def value (base : Base) (digits : List UInt8) : ℕ :=
  digits.foldl (fun n c => n * base.radix + (base.digit c).getD 0) 0

end Base

/-- A number in one of the three forms, of at most 12 characters. -/
structure NumberText where
  base : Base
  digits : List UInt8
  newline : Bool
  nonempty : digits ≠ []
  valid : ∀ c ∈ digits, (base.digit c).isSome = true
  short : (base.letter ++ digits ++ if newline then [10] else []).length ≤ NUMTMPBUF

namespace NumberText

def chars (input : NumberText) : List UInt8 :=
  input.base.letter ++ input.digits ++ if input.newline then [10] else []

def value (input : NumberText) : ℕ :=
  input.base.value input.digits

end NumberText

/-- The characters stand in the text from position `i` on. -/
def Stands (chars : List UInt8) (text : ℕ → UInt8) (i : ℕ) : Prop :=
  ∀ k c, chars[k]? = some c → text (i + k) = c

/-- The input is taken for its number if that fits an `int` and refused if not,
whatever stands behind it. -/
def NumberText.Parses (input : NumberText) : Prop :=
  ∀ text, Stands input.chars text 0 →
    (input.value < 2 ^ 31 → convertInput text input.chars.length = input.value) ∧
    (2 ^ 31 ≤ input.value → convertInput text input.chars.length < 0) ∧
    ∀ other, Stands input.chars other 0 →
      convertInput other input.chars.length = convertInput text input.chars.length

/-! ## The loops -/

theorem stands_cons_iff {c : UInt8} {chars : List UInt8} {text : ℕ → UInt8} {i : ℕ} :
    Stands (c :: chars) text i ↔ text i = c ∧ Stands chars text (i + 1) := by
  constructor
  · intro stands
    constructor
    · exact stands 0 c rfl
    · intro k d found
      rw [Nat.add_assoc, Nat.add_comm 1]
      exact stands (k + 1) d found
  · rintro ⟨head, tail⟩ k d found
    cases k with
    | zero => exact head.trans (Option.some.inj found)
    | succ k =>
        rw [Nat.add_comm k, ← Nat.add_assoc]
        exact tail k d found

theorem toS32_congr {a b : ℤ} (same : a % 2 ^ 32 = b % 2 ^ 32) : toS32 a = toS32 b := by
  simp only [toS32, wrapSigned, same]

theorem toS32_inj {a b : ℤ} : toS32 a = toS32 b ↔ a % 2 ^ 32 = b % 2 ^ 32 := by
  constructor
  · intro same
    rw [← toS32_emod a, same, toS32_emod]
  · exact toS32_congr

/-- Wrapping after every operation is wrapping once. -/
theorem toS32_mul_add (a radix digit : ℤ) :
    toS32 (toS32 (toS32 a * radix) + digit) = toS32 (a * radix + digit) := by
  apply toS32_congr
  rw [Int.add_emod, toS32_emod, Int.mul_emod, toS32_emod, ← Int.mul_emod, ← Int.add_emod]

/-- What a character does in the decimal loop. -/
def decStep (num : ℤ) (c : UInt8) : ℤ :=
  if 48 ≤ c ∧ c ≤ 57 then toS32 (toS32 (num * 10) + (c.toNat - 48)) else num

theorem convertDec_eq_foldl {text : ℕ → UInt8} {chars : List UInt8} {i : ℕ}
    (stands : Stands chars text i) (num : ℤ) :
    convertDec text chars.length i num = chars.foldl decStep num := by
  induction chars generalizing i num with
  | nil => rfl
  | cons c chars ih =>
      rcases stands_cons_iff.mp stands with ⟨rfl, rest⟩
      rw [List.length_cons, convertDec, ih rest]
      rfl

/-- What a character does in the hexadecimal loop. -/
def hexStep (num : ℤ) (c : UInt8) : ℤ :=
  if c ≠ 10 then toS32 (toS32 (num * 16) + hexValue c) else num

theorem convertHex_eq_foldl {text : ℕ → UInt8} {chars : List UInt8} {i : ℕ}
    (stands : Stands chars text i) (num : ℤ) :
    convertHex text chars.length i num = chars.foldl hexStep num := by
  induction chars generalizing i num with
  | nil => rfl
  | cons c chars ih =>
      rcases stands_cons_iff.mp stands with ⟨rfl, rest⟩
      rw [List.length_cons, convertHex, ih rest]
      rfl

/-- What a digit or a newline does in the binary loop. -/
def binStep (num : ℤ) (c : UInt8) : ℤ :=
  if c ≠ 10 then toS32 (toS32 (num * 2) + (c.toNat - 48)) else num

theorem convertBin_eq_foldl {text : ℕ → UInt8} {chars : List UInt8} {i : ℕ}
    (stands : Stands chars text i) (valid : ∀ c ∈ chars, c = 10 ∨ 48 ≤ c ∧ c ≤ 49) (num : ℤ) :
    convertBin text chars.length i num = chars.foldl binStep num := by
  induction chars generalizing i num with
  | nil => rfl
  | cons c chars ih =>
      rcases stands_cons_iff.mp stands with ⟨rfl, rest⟩
      rcases List.forall_mem_cons.mp valid with ⟨head, tail⟩
      rw [List.length_cons, convertBin, List.foldl_cons, binStep]
      by_cases newline : text i = 10
      · simp only [newline, ne_eq, not_true, if_false]
        exact ih rest tail num
      · simp only [ne_eq, newline, not_false_iff, if_true, if_pos (head.resolve_left newline)]
        exact ih rest tail _

/-! ## Decimal numbers -/

theorem digitValue_of_lt {c : UInt8} {value : ℕ} (found : digitValue c = some value)
    (small : value < 10) : (48 ≤ c ∧ c ≤ 57) ∧ value = c.toNat - 48 := by
  rw [digitValue] at found
  split at found
  · exact ⟨‹_›, (Option.some.inj found).symm⟩
  · split at found
    · rcases Option.some.inj found with rfl
      omega
    · split at found
      · rcases Option.some.inj found with rfl
        omega
      · contradiction

theorem digit_of_isSome {base : Base} {c : UInt8} (valid : (base.digit c).isSome = true)
    (small : base.radix ≤ 10) :
    (48 ≤ c ∧ c ≤ 57) ∧ c.toNat - 48 < base.radix ∧ base.digit c = some (c.toNat - 48) := by
  rcases Option.isSome_iff_exists.mp valid with ⟨value, found⟩
  rcases Option.filter_eq_some_iff.mp found with ⟨digit, fits⟩
  rcases digitValue_of_lt digit ((of_decide_eq_true fits).trans_le small) with ⟨decimal, rfl⟩
  exact ⟨decimal, of_decide_eq_true fits, found⟩

/-- A string of digits is taken for its number modulo 2^32. -/
theorem foldl_decStep {digits : List UInt8}
    (valid : ∀ c ∈ digits, (Base.decimal.digit c).isSome = true) (n : ℕ) :
    digits.foldl decStep (toS32 n) = toS32 (digits.foldl
      (fun n c => n * Base.decimal.radix + (Base.decimal.digit c).getD 0) n : ℕ) := by
  induction digits generalizing n with
  | nil => rw [List.foldl_nil, List.foldl_nil]
  | cons c digits ih =>
      rcases List.forall_mem_cons.mp valid with ⟨head, tail⟩
      rcases digit_of_isSome head (le_refl 10) with ⟨decimal, -, value⟩
      have step : decStep (toS32 n) c =
          toS32 (n * Base.decimal.radix + (Base.decimal.digit c).getD 0 : ℕ) := by
        have large : 48 ≤ c.toNat := decimal.1
        rw [decStep, if_pos decimal, toS32_mul_add, value, Option.getD_some, Nat.cast_add,
          Nat.cast_mul, Nat.cast_sub large]
        rfl
      rw [List.foldl_cons, List.foldl_cons, step, ih tail]

/-- What decimal input is taken for. -/
theorem convertInput_decimal {input : NumberText} (decimal : input.base = .decimal)
    {text : ℕ → UInt8} (stands : Stands input.chars text 0) :
    convertInput text input.chars.length = toS32 input.value := by
  have valid := input.valid
  have nonempty := input.nonempty
  have digits : input.chars = input.digits ++ if input.newline then [10] else [] := by
    rw [NumberText.chars, decimal]
    rfl
  rw [decimal] at valid
  have first : 48 ≤ text 0 ∧ text 0 ≤ 57 := by
    cases found : input.digits with
    | nil => exact absurd found nonempty
    | cons c rest =>
        rw [digits, found, List.cons_append] at stands
        rw [(stands_cons_iff.mp stands).1]
        exact (digit_of_isSome (valid c (found ▸ List.mem_cons_self)) (le_refl 10)).1
  have newline (num : ℤ) : (if input.newline then [10] else []).foldl decStep num = num := by
    cases input.newline <;> rfl
  have hex : text 0 ≠ 120 := fun letter => absurd (letter ▸ first.2) (by decide)
  have bin : text 0 ≠ 98 := fun letter => absurd (letter ▸ first.2) (by decide)
  rw [convertInput, if_neg hex, if_neg bin, convertDec_eq_foldl stands, digits, List.foldl_append,
    newline, NumberText.value, decimal]
  exact foldl_decStep valid 0

/-! ## Numbers with a letter -/

/-- The text that has a character behind an input. -/
def followed (chars : List UInt8) (c : UInt8) (i : ℕ) : UInt8 :=
  (chars ++ [c]).getD i 0

theorem stands_followed (chars : List UInt8) (c : UInt8) :
    Stands (chars ++ [c]) (followed chars c) 0 := by
  intro k d found
  rw [Nat.zero_add, followed, List.getD_eq_getElem?_getD, found]
  rfl

theorem Stands.left {chars rest : List UInt8} {text : ℕ → UInt8} {i : ℕ}
    (stands : Stands (chars ++ rest) text i) : Stands chars text i := by
  intro k c found
  apply stands k c
  rw [List.getElem?_append_left (List.getElem?_eq_some_iff.mp found).1, found]

/-- Hexadecimal input is read one character too far. -/
theorem convertInput_hexadecimal {tail : List UInt8} (nonempty : tail ≠ []) (c : UInt8) :
    convertInput (followed (120 :: tail) c) (120 :: tail).length =
      hexStep (tail.foldl hexStep 0) c := by
  have stands := stands_followed (120 :: tail) c
  rw [List.cons_append] at stands
  rcases stands_cons_iff.mp stands with ⟨letter, rest⟩
  have length : (120 :: tail).length = (tail ++ [c]).length := by simp
  have long : ¬ (120 :: tail).length < 2 := by
    have := List.length_pos_iff.mpr nonempty
    simp only [List.length_cons]
    omega
  rw [convertInput, if_pos letter, if_neg long, length, convertHex_eq_foldl rest,
    List.foldl_append]
  rfl

/-- Binary input is read one character too far. -/
theorem convertInput_binary {tail : List UInt8} (nonempty : tail ≠ [])
    (valid : ∀ c ∈ tail, c = 10 ∨ 48 ≤ c ∧ c ≤ 49) {c : UInt8} (digit : 48 ≤ c ∧ c ≤ 49) :
    convertInput (followed (98 :: tail) c) (98 :: tail).length =
      binStep (tail.foldl binStep 0) c := by
  have stands := stands_followed (98 :: tail) c
  rw [List.cons_append] at stands
  rcases stands_cons_iff.mp stands with ⟨letter, rest⟩
  have length : (98 :: tail).length = (tail ++ [c]).length := by simp
  have long : ¬ (98 :: tail).length < 2 := by
    have := List.length_pos_iff.mpr nonempty
    simp only [List.length_cons]
    omega
  have other : followed (98 :: tail) c 0 ≠ 120 := by
    rw [letter]
    decide
  have all : ∀ d ∈ tail ++ [c], d = 10 ∨ 48 ≤ d ∧ d ≤ 49 := by
    intro d mem
    rcases List.mem_append.mp mem with inside | last
    · exact valid d inside
    · rcases List.mem_singleton.mp last with rfl
      exact Or.inr digit
  rw [convertInput, if_neg other, if_pos letter, if_neg long, length, convertBin_eq_foldl rest all,
    List.foldl_append]
  rfl

/-! ## What is parsed -/

theorem toS32_neg_iff (n : ℕ) : toS32 n < 0 ↔ 2 ^ 31 ≤ n % 2 ^ 32 := by
  simp only [toS32, wrapSigned]
  omega

theorem decimal_parses_iff {input : NumberText} (decimal : input.base = .decimal) :
    input.Parses ↔ input.value < 2 ^ 31 ∨ 2 ^ 31 ≤ input.value % 2 ^ 32 := by
  constructor
  · intro parses
    by_contra neither
    have stands := (stands_followed input.chars 0).left
    have negative := (parses _ stands).2.1 (by omega)
    rw [convertInput_decimal decimal stands, toS32_neg_iff] at negative
    exact neither (Or.inr negative)
  · intro either text stands
    rw [convertInput_decimal decimal stands, toS32_neg_iff]
    refine ⟨fun small => toS32_of_lt (Int.natCast_nonneg _) (by omega), fun large => by omega, ?_⟩
    intro other same
    exact convertInput_decimal decimal same

/-- A number with a letter depends on the character behind it. -/
theorem decimal_of_parses {input : NumberText} (parses : input.Parses) :
    input.base = .decimal := by
  have same (c d : UInt8) : convertInput (followed input.chars c) input.chars.length =
      convertInput (followed input.chars d) input.chars.length :=
    (parses _ (stands_followed input.chars d).left).2.2 _ (stands_followed input.chars c).left
  have nonempty : input.digits ++ (if input.newline then [10] else []) ≠ [] := by
    simp [input.nonempty]
  cases base : input.base with
  | decimal => rfl
  | hexadecimal =>
      have chars : input.chars = 120 :: (input.digits ++ if input.newline then [10] else []) := by
        rw [NumberText.chars, base]
        rfl
      have equal := same 49 50
      rw [chars, convertInput_hexadecimal nonempty, convertInput_hexadecimal nonempty] at equal
      generalize (input.digits ++ if input.newline then [10] else []).foldl hexStep 0 = num at equal
      have one : hexStep num 49 = toS32 (toS32 (num * 16) + 1) := by simp [hexStep, hexValue]
      have two : hexStep num 50 = toS32 (toS32 (num * 16) + 2) := by simp [hexStep, hexValue]
      rw [one, two, toS32_inj] at equal
      omega
  | binary =>
      have chars : input.chars = 98 :: (input.digits ++ if input.newline then [10] else []) := by
        rw [NumberText.chars, base]
        rfl
      have valid : ∀ c ∈ input.digits ++ (if input.newline then [10] else []),
          c = 10 ∨ 48 ≤ c ∧ c ≤ 49 := by
        intro c mem
        rcases List.mem_append.mp mem with digit | last
        · right
          have bit := input.valid c digit
          rw [base] at bit
          rcases digit_of_isSome bit (by decide) with ⟨decimal, small, -⟩
          have low : 48 ≤ c.toNat := decimal.1
          have high : c.toNat - 48 < 2 := small
          exact ⟨decimal.1, UInt8.le_iff_toNat_le.mpr (by change c.toNat ≤ 49; omega)⟩
        · left
          cases newline : input.newline <;> simp_all
      have equal := same 48 49
      rw [chars, convertInput_binary nonempty valid (by decide),
        convertInput_binary nonempty valid (by decide)] at equal
      generalize (input.digits ++ if input.newline then [10] else []).foldl binStep 0 = num at equal
      have zero : binStep num 48 = toS32 (toS32 (num * 2)) := by simp [binStep]
      have one : binStep num 49 = toS32 (toS32 (num * 2) + 1) := by simp [binStep]
      rw [zero, one, toS32_inj] at equal
      omega

/-- `convert_input` takes a number for what it is, or refuses it for its size,
exactly if it is decimal and, modulo 2^32, does not come back into the range of
an `int` from above. -/
theorem parses_iff (input : NumberText) :
    input.Parses ↔
      input.base = .decimal ∧ (input.value < 2 ^ 31 ∨ 2 ^ 31 ≤ input.value % 2 ^ 32) := by
  constructor
  · intro parses
    have decimal := decimal_of_parses parses
    exact ⟨decimal, (decimal_parses_iff decimal).mp parses⟩
  · rintro ⟨decimal, range⟩
    exact (decimal_parses_iff decimal).mpr range

/-- The number ten as `xa`. -/
def hexTen : NumberText where
  base := .hexadecimal
  digits := [97]
  newline := false
  nonempty := by decide
  valid := List.forall_mem_singleton.mpr rfl
  short := by decide

/-- The digit `a` is taken for zero, even if a newline stands behind the text. -/
theorem hexTen_taken_for_zero :
    hexTen.value = 10 ∧ convertInput (followed hexTen.chars 10) hexTen.chars.length = 0 ∧
      ¬ hexTen.Parses := by
  have zero : convertInput (followed hexTen.chars 10) hexTen.chars.length = 0 := by decide
  refine ⟨by decide, zero, fun parses => ?_⟩
  have ten := (parses _ (stands_followed hexTen.chars 10).left).1 (by decide)
  rw [zero] at ten
  exact absurd ten (by decide)

end Rhino.Ioreg
