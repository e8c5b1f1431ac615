import Rhino.Bytes.LittleEndian
import Mathlib.Tactic.Ring

/-!
# Packed fields

A buffer is one number, and a table of fields of `width` bits that are packed without gaps
is the digits of that number in base `2 ^ width`.  A field of whole bytes is fetched from
its own bytes, and any field from a window of the buffer that begins where a field does.
-/

namespace Rhino.Bytes

/-- Field `index` of a table of fields of `width` bits. -/
def field (width index : ℕ) (data : List UInt8) : ℕ :=
  leValue data / 2 ^ (width * index) % 2 ^ width

theorem field_lt (width index : ℕ) (data : List UInt8) : field width index data < 2 ^ width :=
  Nat.mod_lt _ (Nat.two_pow_pos width)

theorem leValue_append (front rest : List UInt8) :
    leValue (front ++ rest) = leValue front + 256 ^ front.length * leValue rest := by
  induction front with
  | nil => simp [leValue]
  | cons byte front ih =>
      rw [List.cons_append, leValue, leValue, ih, List.length_cons, pow_succ]
      ring

theorem leValue_drop (data : List UInt8) (offset : ℕ) :
    leValue (data.drop offset) = leValue data / 256 ^ offset := by
  induction offset generalizing data with
  | zero => simp
  | succ offset ih =>
      cases data with
      | nil => simp [leValue]
      | cons byte data =>
          have small : byte.toNat < 256 := byte.toNat_lt
          have tail : (byte.toNat + 256 * leValue data) / 256 = leValue data := by omega
          rw [List.drop_succ_cons, ih, leValue, pow_succ', ← Nat.div_div_eq_div_mul, tail]

theorem leValue_take (data : List UInt8) (count : ℕ) :
    leValue (data.take count) = leValue data % 256 ^ count := by
  rcases Nat.lt_or_ge data.length count with long | inside
  · have bound := leValue_lt data
    have grows : 256 ^ data.length ≤ 256 ^ count := Nat.pow_le_pow_right (by decide) long.le
    rw [List.take_of_length_le long.le, Nat.mod_eq_of_lt (bound.trans_le grows)]
  · have split := leValue_append (data.take count) (data.drop count)
    have bound := leValue_lt (data.take count)
    rw [List.length_take, Nat.min_eq_left inside] at split bound
    rw [List.take_append_drop] at split
    rw [split, Nat.add_mul_mod_self_left, Nat.mod_eq_of_lt bound]

/-- A window of a buffer as a number. -/
theorem leValue_slice (offset count : ℕ) (data : List UInt8) :
    leValue (slice offset count data) = leValue data / 256 ^ offset % 256 ^ count := by
  rw [slice, leValue_take, leValue_drop]

theorem pow_256 (n : ℕ) : 256 ^ n = 2 ^ (8 * n) := by
  rw [Nat.pow_mul]

/-- Cutting a number off behind a digit does not change the digit. -/
theorem mod_div_mod {width low high : ℕ} (inside : low + width ≤ high) (value : ℕ) :
    value % 2 ^ high / 2 ^ low % 2 ^ width = value / 2 ^ low % 2 ^ width := by
  obtain ⟨rest, rfl⟩ := Nat.exists_eq_add_of_le inside
  have dvd : 2 ^ width ∣ 2 ^ (width + rest) := pow_dvd_pow 2 (Nat.le_add_right width rest)
  rw [Nat.add_assoc, pow_add, Nat.mod_mul_right_div_self, Nat.mod_mod_of_dvd _ dvd]

/-- A field that lies in a window is a field of that window. -/
theorem field_slice {width first index size k : ℕ} (aligned : 8 * first = width * index)
    (inside : width * (k + 1) ≤ 8 * size) (data : List UInt8) :
    field width k (slice first size data) = field width (index + k) data := by
  rw [Nat.mul_succ] at inside
  rw [field, field, leValue_slice, pow_256, pow_256, mod_div_mod inside, aligned,
    Nat.div_div_eq_div_mul, ← pow_add, Nat.mul_add]

/-- A field that lies in the front of a buffer. -/
theorem field_take {width size k : ℕ} (inside : width * (k + 1) ≤ 8 * size)
    (data : List UInt8) : field width k (data.take size) = field width k data := by
  have window : data.take size = slice 0 size data := by rw [slice, List.drop_zero]
  rw [window, field_slice (Nat.zero_mul width ▸ Nat.mul_comm 0 width) inside, Nat.zero_add]

/-- A field of whole bytes. -/
theorem field_bytes (size index : ℕ) (data : List UInt8) :
    field (8 * size) index data = leValue (slice (size * index) size data) := by
  rw [leValue_slice, field, pow_256, pow_256, Nat.mul_assoc]

/-- Four fields of twelve bits in three words of sixteen. -/
theorem field_twelve (index : ℕ) (data : List UInt8) :
    let word := fun k => field 16 (3 * index + k) data
    field 12 (4 * index) data = word 0 % 4096 ∧
      field 12 (4 * index + 1) data = word 0 / 4096 + word 1 % 256 * 16 ∧
      field 12 (4 * index + 2) data = word 1 / 256 + word 2 % 16 * 256 ∧
      field 12 (4 * index + 3) data = word 2 / 16 := by
  intro word
  -- All of them are digits of what is left of the number behind the groups before.
  generalize rest_eq : leValue data / 2 ^ (48 * index) = rest
  have narrow (k : ℕ) : field 12 (4 * index + k) data = rest / 2 ^ (12 * k) % 2 ^ 12 := by
    rw [← rest_eq, field, Nat.div_div_eq_div_mul, ← pow_add,
      show 12 * (4 * index + k) = 48 * index + 12 * k by ring]
  have wide (k : ℕ) : word k = rest / 2 ^ (16 * k) % 65536 := by
    rw [← rest_eq, Nat.div_div_eq_div_mul, ← pow_add,
      show 48 * index + 16 * k = 16 * (3 * index + k) by ring]
    rfl
  have first := narrow 0
  rw [Nat.add_zero] at first
  rw [first, narrow, narrow, narrow, wide, wide, wide]
  simp only [Nat.mul_zero, Nat.mul_one, Nat.pow_zero, Nat.div_one]
  omega

/-! ## Masks and shifts -/

/-- The part of a number above a bit, masked first. -/
theorem and_high_shiftRight {value k j : ℕ} (small : value < 2 ^ (k + j)) :
    (value &&& (2 ^ j - 1) <<< k) >>> k = value / 2 ^ k := by
  rw [Nat.shiftRight_and_distrib, Nat.shiftLeft_shiftRight, Nat.and_two_pow_sub_one_eq_mod,
    Nat.shiftRight_eq_div_pow]
  apply Nat.mod_eq_of_lt
  apply Nat.div_lt_of_lt_mul
  rwa [← pow_add]

/-- Two parts of a number put together. -/
theorem shiftLeft_or_eq {high low k : ℕ} (small : low < 2 ^ k) :
    high <<< k ||| low = low + high * 2 ^ k := by
  rw [← Nat.shiftLeft_add_eq_or_of_lt small, Nat.shiftLeft_eq, Nat.add_comm]

end Rhino.Bytes
