import Rhino.Bytes.LittleEndian

/-!
# Sixteen-bit words

A buffer that passes through a sixteen-bit port, the low byte of each word first.
-/

namespace Rhino.Bytes

/-- The buffer that a sequence of words fills. -/
def bytesOf (words : List UInt16) : List UInt8 :=
  words.flatMap u16Bytes

/-- The words of a buffer; a single byte at its end is left over. -/
def wordsOf : List UInt8 → List UInt16
  | low :: high :: rest => UInt16.ofNat (leValue [low, high]) :: wordsOf rest
  | _ => []

@[simp]
theorem bytesOf_nil : bytesOf [] = [] :=
  rfl

@[simp]
theorem bytesOf_cons (word : UInt16) (words : List UInt16) :
    bytesOf (word :: words) = u16Bytes word ++ bytesOf words :=
  rfl

@[simp]
theorem bytesOf_length (words : List UInt16) : (bytesOf words).length = 2 * words.length := by
  induction words with
  | nil => rfl
  | cons word words ih =>
      rw [bytesOf_cons, List.length_append, u16Bytes_length, ih, List.length_cons]
      omega

theorem bytesOf_append (first second : List UInt16) :
    bytesOf (first ++ second) = bytesOf first ++ bytesOf second :=
  List.flatMap_append

theorem u16Bytes_pair (low high : UInt8) :
    u16Bytes (UInt16.ofNat (leValue [low, high])) = [low, high] := by
  have small : leValue [low, high] < 256 ^ 2 := leValue_lt [low, high]
  rw [u16Bytes, UInt16.toNat_ofNat_of_lt' (by simpa using small)]
  exact leBytes_leValue [low, high]

theorem exists_pair_of_length {bytes : List UInt8} {count : ℕ}
    (whole : bytes.length = 2 * (count + 1)) :
    ∃ low high rest, bytes = low :: high :: rest ∧ rest.length = 2 * count := by
  obtain ⟨low, more, rfl⟩ := List.exists_cons_of_length_eq_add_one
    (show bytes.length = 2 * count + 1 + 1 by omega)
  obtain ⟨high, rest, rfl⟩ := List.exists_cons_of_length_eq_add_one
    (show more.length = 2 * count + 1 by simp at whole; omega)
  exact ⟨low, high, rest, rfl, by simp at whole; omega⟩

/-- A buffer of whole words is the one its words fill. -/
theorem bytesOf_wordsOf {bytes : List UInt8} {count : ℕ} (whole : bytes.length = 2 * count) :
    bytesOf (wordsOf bytes) = bytes := by
  induction count generalizing bytes with
  | zero =>
      rw [List.eq_nil_of_length_eq_zero whole]
      rfl
  | succ count ih =>
      obtain ⟨low, high, rest, rfl, size⟩ := exists_pair_of_length whole
      rw [wordsOf, bytesOf_cons, u16Bytes_pair, ih size]
      rfl

/-- The halves of a longer word, the low one first. -/
theorem wordsOf_u32Bytes (value : UInt32) :
    wordsOf (u32Bytes value) = [value.toUInt16, (value >>> 16).toUInt16] := by
  have word (n : ℕ) : UInt16.ofNat (leValue [UInt8.ofNat n, UInt8.ofNat (n / 256)]) =
      UInt16.ofNat n := by
    apply UInt16.toNat_inj.mp
    simp only [leValue, UInt8.toNat_ofNat', UInt16.toNat_ofNat']
    omega
  have low : UInt16.ofNat value.toNat = value.toUInt16 := UInt16.ofNat_uInt32ToNat value
  have high : UInt16.ofNat (value.toNat / 256 / 256) = (value >>> 16).toUInt16 := by
    apply UInt16.toNat_inj.mp
    rw [UInt16.toNat_ofNat', UInt32.toNat_toUInt16, UInt32.toNat_shiftRight,
      Nat.shiftRight_eq_div_pow, Nat.div_div_eq_div_mul]
    rfl
  rw [← low, ← high, ← word value.toNat, ← word (value.toNat / 256 / 256)]
  rfl

theorem wordsOf_append {first : List UInt8} {count : ℕ} (whole : first.length = 2 * count)
    (second : List UInt8) : wordsOf (first ++ second) = wordsOf first ++ wordsOf second := by
  induction count generalizing first with
  | zero =>
      rw [List.eq_nil_of_length_eq_zero whole]
      rfl
  | succ count ih =>
      obtain ⟨low, high, rest, rfl, size⟩ := exists_pair_of_length whole
      rw [List.cons_append, List.cons_append, wordsOf, wordsOf, ih size, List.cons_append]

@[simp]
theorem wordsOf_length {bytes : List UInt8} {count : ℕ} (whole : bytes.length = 2 * count) :
    (wordsOf bytes).length = count := by
  have filled := congrArg List.length (bytesOf_wordsOf whole)
  rw [bytesOf_length] at filled
  omega

theorem bytesOf_drop (words : List UInt16) (start : ℕ) :
    (bytesOf words).drop (2 * start) = bytesOf (words.drop start) := by
  induction start generalizing words with
  | zero => rfl
  | succ start ih =>
      cases words with
      | nil => rfl
      | cons word words =>
          rw [bytesOf_cons, List.drop_append, List.drop_eq_nil_of_le (by simp), u16Bytes_length,
            List.nil_append, List.drop_succ_cons, ← ih]
          rfl

theorem bytesOf_take (words : List UInt16) (count : ℕ) :
    (bytesOf words).take (2 * count) = bytesOf (words.take count) := by
  induction count generalizing words with
  | zero => rfl
  | succ count ih =>
      cases words with
      | nil => rfl
      | cons word words =>
          rw [bytesOf_cons, List.take_append, List.take_of_length_le (by simp), u16Bytes_length,
            List.take_succ_cons, bytesOf_cons, ← ih]
          rfl

/-- The bytes of a part of the words. -/
theorem slice_bytesOf (words : List UInt16) (start count : ℕ) :
    slice (2 * start) (2 * count) (bytesOf words) = bytesOf ((words.drop start).take count) := by
  rw [slice, bytesOf_drop, bytesOf_take]

end Rhino.Bytes
