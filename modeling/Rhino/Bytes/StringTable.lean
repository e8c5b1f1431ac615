import Rhino.Bytes.LittleEndian

/-!
# Tables of terminated strings

Strings are stored one after another, each followed by a zero byte, and are
referred to by the place where they start.  A reader that starts somewhere
else in the table gets the rest of the string that the place falls into;
`cString_stringTable_eq_iff` says which places yield a given string.
-/

namespace Rhino.Bytes

/-! ## The length of a string -/

/-- How many bytes come before the first zero, if there is one. -/
def countToZero : List UInt8 → Option ℕ
  | [] => none
  | byte :: rest => if byte = 0 then some 0 else (countToZero rest).map (· + 1)

/-- `strlen` of the string at `place` of an allocation.  There is no answer if it
reads on past the end. -/
def strlen (data : List UInt8) (place : ℕ) : Option ℕ :=
  countToZero (data.drop place)

theorem countToZero_isSome_iff {data : List UInt8} : (countToZero data).isSome ↔ 0 ∈ data := by
  induction data with
  | nil => simp [countToZero]
  | cons byte rest ih =>
      by_cases zero : byte = 0
      · simp [countToZero, zero]
      · simp [countToZero, zero, ih, Ne.symm zero]

/-- `strlen` stays inside exactly if there is a zero at or behind the place where it
starts. -/
theorem strlen_isSome_iff {data : List UInt8} {place : ℕ} :
    (strlen data place).isSome ↔ ∃ k, place ≤ k ∧ data[k]? = some 0 := by
  rw [strlen, countToZero_isSome_iff, List.mem_iff_getElem?]
  constructor
  · rintro ⟨k, found⟩
    rw [List.getElem?_drop] at found
    exact ⟨place + k, Nat.le_add_right place k, found⟩
  · rintro ⟨k, le, found⟩
    refine ⟨k - place, ?_⟩
    rwa [List.getElem?_drop, Nat.add_sub_cancel' le]

theorem countToZero_append {data : List UInt8} {count : ℕ} (found : countToZero data = some count)
    (rest : List UInt8) : count < data.length ∧ countToZero (data ++ rest) = some count := by
  induction data generalizing count with
  | nil => contradiction
  | cons byte data ih =>
      by_cases zero : byte = 0
      · simp only [countToZero, if_pos zero, Option.some.injEq] at found
        subst found
        simp [countToZero, zero]
      · simp only [countToZero, if_neg zero, Option.map_eq_some_iff] at found
        rcases found with ⟨before, inside, rfl⟩
        rcases ih inside with ⟨lt, same⟩
        simp [countToZero, zero, lt, same]

/-- A string that ends in the front of an allocation is not touched by what stands
behind. -/
theorem strlen_append {data : List UInt8} {place length : ℕ}
    (length_eq : strlen data place = some length) (rest : List UInt8) :
    place + length < data.length ∧ strlen (data ++ rest) place = some length := by
  rcases countToZero_append length_eq rest with ⟨lt, same⟩
  rw [List.length_drop] at lt
  have inside : place + length < data.length := by omega
  refine ⟨inside, ?_⟩
  rw [strlen, List.drop_append_of_le_length (by omega)]
  exact same

/-! ## Tables -/

/-- The strings one after another, each with its terminator. -/
def stringTable : List (List UInt8) → List UInt8
  | [] => []
  | name :: rest => name ++ 0 :: stringTable rest

/-- The place where string `i` starts. -/
def startOf : List (List UInt8) → ℕ → ℕ
  | [], _ => 0
  | _ :: _, 0 => 0
  | name :: rest, i + 1 => name.length + 1 + startOf rest i

@[simp]
theorem startOf_zero (names : List (List UInt8)) : startOf names 0 = 0 := by
  cases names <;> rfl

theorem stringTable_cons_length (name : List UInt8) (rest : List (List UInt8)) :
    (stringTable (name :: rest)).length = name.length + 1 + (stringTable rest).length := by
  rw [stringTable, List.length_append, List.length_cons]
  omega

theorem stringTable_append (front back : List (List UInt8)) :
    stringTable (front ++ back) = stringTable front ++ stringTable back := by
  induction front with
  | nil => rfl
  | cons name rest ih => simp [stringTable, ih]

/-- A string table ends with a zero. -/
theorem exists_zero_behind {names : List (List UInt8)} {place : ℕ}
    (inside : place < (stringTable names).length) :
    ∃ k, place ≤ k ∧ (stringTable names)[k]? = some 0 := by
  rcases List.eq_nil_or_concat names with rfl | ⟨front, last, rfl⟩
  · contradiction
  · have split : stringTable (front ++ [last]) = (stringTable front ++ last) ++ [0] := by
      rw [stringTable_append, List.append_assoc]
      rfl
    rw [List.concat_eq_append, split] at inside ⊢
    refine ⟨(stringTable front ++ last).length, ?_, List.getElem?_concat_length⟩
    rw [List.length_append, List.length_singleton] at inside
    exact Nat.le_of_lt_succ inside

theorem startOf_lt_length {names : List (List UInt8)} {i : ℕ} (lt : i < names.length) :
    startOf names i < (stringTable names).length := by
  induction names generalizing i with
  | nil => contradiction
  | cons name rest ih =>
      rw [stringTable_cons_length]
      cases i with
      | zero =>
          rw [startOf_zero]
          omega
      | succ i =>
          have inside := ih (Nat.lt_of_succ_lt_succ lt)
          rw [startOf]
          omega

/-- A string is read from a place inside it up to its terminator. -/
theorem cString_stringTable {names : List (List UInt8)}
    (clean : ∀ name ∈ names, ∀ byte ∈ name, byte ≠ 0) {i k : ℕ} (lt : i < names.length)
    (le : k ≤ names[i].length) :
    cString (stringTable names) (startOf names i + k) = names[i].drop k := by
  induction names generalizing i with
  | nil => contradiction
  | cons name rest ih =>
      cases i with
      | zero =>
          rw [List.getElem_cons_zero] at le ⊢
          have tail : ∀ byte ∈ name.drop k, byte ≠ 0 := fun byte mem =>
            clean name List.mem_cons_self byte (List.mem_of_mem_drop mem)
          have read := cString_terminated tail (stringTable rest)
          rw [cString, List.drop_zero] at read
          rw [startOf_zero, Nat.zero_add, stringTable, cString, List.drop_append_of_le_length le]
          exact read
      | succ i =>
          rw [List.getElem_cons_succ] at le ⊢
          have whole : stringTable (name :: rest) = (name ++ [0]) ++ stringTable rest := by
            simp [stringTable]
          rw [whole, cString_append_right (by simp [startOf]; omega), ← ih
            (fun other mem => clean other (List.mem_cons_of_mem name mem))
            (Nat.lt_of_succ_lt_succ lt) le]
          congr 1
          simp only [startOf, List.length_append, List.length_singleton]
          omega

/-- Every place of the table falls into one of the strings or on its
terminator. -/
theorem exists_startOf_add {names : List (List UInt8)} {place : ℕ}
    (lt : place < (stringTable names).length) :
    ∃ i, ∃ h : i < names.length, ∃ k ≤ names[i].length, startOf names i + k = place := by
  induction names generalizing place with
  | nil => contradiction
  | cons name rest ih =>
      rw [stringTable_cons_length] at lt
      by_cases first : place ≤ name.length
      · exact ⟨0, Nat.succ_pos _, place, first, by simp⟩
      · rcases ih (show place - (name.length + 1) < (stringTable rest).length by omega) with
          ⟨i, h, k, le, eq⟩
        refine ⟨i + 1, Nat.succ_lt_succ h, k, le, ?_⟩
        rw [startOf]
        omega

/-- The places of the table that yield a given string: those where the rest of
one of the strings is just that. -/
theorem cString_stringTable_eq_iff {names : List (List UInt8)}
    (clean : ∀ name ∈ names, ∀ byte ∈ name, byte ≠ 0) {place : ℕ}
    (lt : place < (stringTable names).length) {text : List UInt8} :
    cString (stringTable names) place = text ↔
      ∃ i, ∃ h : i < names.length, ∃ k ≤ names[i].length,
        startOf names i + k = place ∧ names[i].drop k = text := by
  constructor
  · rintro rfl
    rcases exists_startOf_add lt with ⟨i, h, k, le, rfl⟩
    exact ⟨i, h, k, le, rfl, (cString_stringTable clean h le).symm⟩
  · rintro ⟨i, h, k, le, rfl, rfl⟩
    exact cString_stringTable clean h le

end Rhino.Bytes
