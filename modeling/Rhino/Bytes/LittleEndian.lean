import Mathlib.Algebra.Order.Group.Nat
import Mathlib.Data.List.Basic
import Mathlib.Data.List.TakeWhile
import Mathlib.Tactic.Ring

/-!
# Byte buffers and little-endian fields

A buffer is a list of bytes.  This file has the operations that C code performs
on one through pointer casts: a field of a fixed width is stored and fetched in
little-endian order, a window of a buffer is addressed by offset and length, a
short read replaces only the front of a buffer, and a C string runs up to the
first zero byte.

Nothing here knows about a particular record layout.  A layout is described by
concatenating fields, and `u16At_append_right` and `u32At_append_right` walk
over the fields in front of the one that is fetched.
-/

namespace Rhino.Bytes

/-! ## Fixed-width fields -/

/-- The `width` low-order bytes of `value`, least significant first. -/
def leBytes : ℕ → ℕ → List UInt8
  | 0, _ => []
  | width + 1, value => UInt8.ofNat value :: leBytes width (value / 256)

/-- The number that a list of bytes denotes, least significant first. -/
def leValue : List UInt8 → ℕ
  | [] => 0
  | byte :: rest => byte.toNat + 256 * leValue rest

@[simp]
theorem leBytes_length (width value : ℕ) : (leBytes width value).length = width := by
  induction width generalizing value with
  | zero => rfl
  | succ width ih => simp [leBytes, ih]

/-- Storing a number in `width` bytes keeps exactly its low-order part. -/
theorem leValue_leBytes (width value : ℕ) :
    leValue (leBytes width value) = value % 256 ^ width := by
  induction width generalizing value with
  | zero => simp [leBytes, leValue, Nat.mod_one]
  | succ width ih =>
      have low : (UInt8.ofNat value).toNat = value % 256 := by simp
      rw [leBytes, leValue, ih, low, pow_succ', Nat.mod_mul]

theorem leValue_lt (bytes : List UInt8) : leValue bytes < 256 ^ bytes.length := by
  induction bytes with
  | nil => exact Nat.one_pos
  | cons byte rest ih =>
      have small : byte.toNat < 256 := byte.toNat_lt
      rw [leValue, List.length_cons, pow_succ]
      omega

theorem leBytes_leValue (bytes : List UInt8) : leBytes bytes.length (leValue bytes) = bytes := by
  induction bytes with
  | nil => rfl
  | cons byte rest ih =>
      have small : byte.toNat < 256 := byte.toNat_lt
      have low : UInt8.ofNat (byte.toNat + 256 * leValue rest) = byte := by
        apply UInt8.toNat_inj.mp
        rw [UInt8.toNat_ofNat']
        omega
      have high : (byte.toNat + 256 * leValue rest) / 256 = leValue rest := by omega
      rw [List.length_cons, leValue, leBytes, low, high, ih]

/-- The window of `count` bytes that starts at `offset`; it is shorter where
the buffer ends first. -/
def slice (offset count : ℕ) (data : List UInt8) : List UInt8 :=
  (data.drop offset).take count

@[simp]
theorem slice_length (offset count : ℕ) (data : List UInt8) :
    (slice offset count data).length = min count (data.length - offset) := by
  simp [slice]

theorem slice_append_right {front : List UInt8} {offset : ℕ}
    (past : front.length ≤ offset) (count : ℕ) (rest : List UInt8) :
    slice offset count (front ++ rest) = slice (offset - front.length) count rest := by
  rw [slice, slice, List.drop_append, List.drop_eq_nil_of_le past, List.nil_append]

theorem slice_append_left {front : List UInt8} {offset count : ℕ}
    (inside : offset + count ≤ front.length) (rest : List UInt8) :
    slice offset count (front ++ rest) = slice offset count front := by
  rw [slice, slice, List.drop_append_of_le_length (Nat.le_trans (Nat.le_add_right _ _) inside)]
  apply List.take_append_of_le_length
  rw [List.length_drop]
  omega

/-- The field at the very front of a buffer. -/
theorem slice_zero_append (field rest : List UInt8) :
    slice 0 field.length (field ++ rest) = field := by
  simp [slice]

theorem slice_whole {data : List UInt8} {count : ℕ} (full : data.length = count) :
    slice 0 count data = data := by
  rw [slice, List.drop_zero, ← full, List.take_length]

/-- A window in the front of a buffer. -/
theorem slice_slice_zero {offset count size : ℕ} (inside : offset + count ≤ size)
    (data : List UInt8) : slice offset count (slice 0 size data) = slice offset count data := by
  rw [slice, slice, slice, List.drop_zero, List.drop_take, List.take_take,
    Nat.min_eq_left (Nat.le_sub_of_add_le' inside)]

/-- A window in a window. -/
theorem slice_slice {offset count size : ℕ} (inside : offset + count ≤ size) (start : ℕ)
    (data : List UInt8) :
    slice offset count (slice start size data) = slice (start + offset) count data := by
  rw [slice, slice, slice, List.drop_take, List.take_take, List.drop_drop,
    Nat.min_eq_left (Nat.le_sub_of_add_le' inside)]

/-- A window and the one right behind it. -/
theorem slice_append_slice {offset first next : ℕ} (adjacent : next = offset + first)
    (second : ℕ) (data : List UInt8) :
    slice offset first data ++ slice next second data = slice offset (first + second) data := by
  rw [adjacent, slice, slice, slice, List.take_add, List.drop_drop]

/-- A part of a buffer is found by the lengths of the parts in front of it. -/
theorem slice_flatten {parts : List (List UInt8)} {k : ℕ} {part : List UInt8}
    (found : parts[k]? = some part) {offset count : ℕ}
    (start : offset = ((parts.take k).map List.length).sum) (size : count = part.length) :
    slice offset count parts.flatten = part := by
  subst start size
  induction parts generalizing k with
  | nil => simp at found
  | cons first rest ih =>
      cases k with
      | zero =>
          rcases Option.some.inj found with rfl
          exact slice_zero_append first rest.flatten
      | succ k =>
          rw [List.take_succ_cons, List.map_cons, List.sum_cons, List.flatten_cons,
            slice_append_right (Nat.le_add_right _ _), Nat.add_sub_cancel_left]
          exact ih found

/-- Fetch a 16-bit field. -/
def u16At (data : List UInt8) (offset : ℕ) : UInt16 :=
  UInt16.ofNat (leValue (slice offset 2 data))

/-- Fetch a 32-bit field. -/
def u32At (data : List UInt8) (offset : ℕ) : UInt32 :=
  UInt32.ofNat (leValue (slice offset 4 data))

/-- Store a 16-bit field. -/
def u16Bytes (value : UInt16) : List UInt8 :=
  leBytes 2 value.toNat

/-- Store a 32-bit field. -/
def u32Bytes (value : UInt32) : List UInt8 :=
  leBytes 4 value.toNat

@[simp]
theorem u16Bytes_length (value : UInt16) : (u16Bytes value).length = 2 :=
  leBytes_length 2 value.toNat

@[simp]
theorem u32Bytes_length (value : UInt32) : (u32Bytes value).length = 4 :=
  leBytes_length 4 value.toNat

@[simp]
theorem u16At_u16Bytes_append (value : UInt16) (rest : List UInt8) :
    u16At (u16Bytes value ++ rest) 0 = value := by
  have field := slice_zero_append (u16Bytes value) rest
  rw [u16Bytes_length] at field
  have fits : value.toNat < 256 ^ 2 := value.toNat_lt
  rw [u16At, field, u16Bytes, leValue_leBytes, Nat.mod_eq_of_lt fits]
  exact UInt16.ofNat_toNat

@[simp]
theorem u32At_u32Bytes_append (value : UInt32) (rest : List UInt8) :
    u32At (u32Bytes value ++ rest) 0 = value := by
  have field := slice_zero_append (u32Bytes value) rest
  rw [u32Bytes_length] at field
  have fits : value.toNat < 256 ^ 4 := value.toNat_lt
  rw [u32At, field, u32Bytes, leValue_leBytes, Nat.mod_eq_of_lt fits]
  exact UInt32.ofNat_toNat

theorem u16At_append_right {front : List UInt8} {offset : ℕ}
    (past : front.length ≤ offset) (rest : List UInt8) :
    u16At (front ++ rest) offset = u16At rest (offset - front.length) := by
  rw [u16At, u16At, slice_append_right past]

theorem u32At_append_right {front : List UInt8} {offset : ℕ}
    (past : front.length ≤ offset) (rest : List UInt8) :
    u32At (front ++ rest) offset = u32At rest (offset - front.length) := by
  rw [u32At, u32At, slice_append_right past]

/-- Every window of two bytes is the field that is fetched from it. -/
theorem u16Bytes_u16At {data : List UInt8} {offset : ℕ} (inside : offset + 2 ≤ data.length) :
    u16Bytes (u16At data offset) = slice offset 2 data := by
  have full : (slice offset 2 data).length = 2 := by
    rw [slice_length]
    omega
  have bound := leValue_lt (slice offset 2 data)
  have restored := leBytes_leValue (slice offset 2 data)
  rw [full] at bound restored
  rwa [u16Bytes, u16At, UInt16.toNat_ofNat_of_lt' bound]

theorem u32Bytes_u32At {data : List UInt8} {offset : ℕ} (inside : offset + 4 ≤ data.length) :
    u32Bytes (u32At data offset) = slice offset 4 data := by
  have full : (slice offset 4 data).length = 4 := by
    rw [slice_length]
    omega
  have bound := leValue_lt (slice offset 4 data)
  have restored := leBytes_leValue (slice offset 4 data)
  rw [full] at bound restored
  rwa [u32Bytes, u32At, UInt32.toNat_ofNat_of_lt' bound]

/-- A length that no more than itself is taken from does not wrap. -/
theorem toNat_sub_ofNat {length : UInt32} {n : ℕ} (le : n ≤ length.toNat) :
    (length - UInt32.ofNat n).toNat = length.toNat - n := by
  have same : (UInt32.ofNat n).toNat = n := UInt32.toNat_ofNat_of_lt' (le.trans_lt length.toNat_lt)
  rw [UInt32.toNat_sub_of_le _ _ (UInt32.le_iff_toNat_le.mpr (same.trans_le le)), same]

/-! ## Buffers that are only partly filled -/

/-- What a buffer holds after `fresh` has been copied to its front. -/
def overlay (fresh old : List UInt8) : List UInt8 :=
  fresh ++ old.drop fresh.length

theorem overlay_of_length_le {fresh old : List UInt8} (full : old.length ≤ fresh.length) :
    overlay fresh old = fresh := by
  rw [overlay, List.drop_eq_nil_of_le full, List.append_nil]

/-- A buffer of `size` bytes of uninitialised memory. -/
def uninit (junk : ℕ → UInt8) (size : ℕ) : List UInt8 :=
  (List.range size).map junk

@[simp]
theorem uninit_length (junk : ℕ → UInt8) (size : ℕ) : (uninit junk size).length = size := by
  rw [uninit, List.length_map, List.length_range]

/-- A byte of a fresh buffer that has been filled from its front: one of those
copied, or what the memory held. -/
theorem overlay_uninit_getElem? {fresh : List UInt8} {size : ℕ} (junk : ℕ → UInt8)
    (fits : fresh.length ≤ size) (k : ℕ) :
    (overlay fresh (uninit junk size))[k]? =
      if k < size then some (fresh[k]?.getD (junk k)) else none := by
  rw [overlay, List.getElem?_append]
  by_cases copied : k < fresh.length
  · rw [if_pos copied, if_pos (copied.trans_le fits), List.getElem?_eq_getElem copied]
    rfl
  · rw [if_neg copied, List.getElem?_drop, Nat.add_sub_cancel' (Nat.not_lt.mp copied),
      List.getElem?_eq_none (Nat.not_lt.mp copied), uninit, List.getElem?_map]
    by_cases inside : k < size
    · simp [inside]
    · simp [inside]

/-! ## Memory -/

/-- The `count` bytes of a memory from `offset` on. -/
def loadAt (memory : ℕ → UInt8) (offset count : ℕ) : List UInt8 :=
  (List.range count).map fun k => memory (offset + k)

/-- A memory after bytes have been stored from `offset` on. -/
def storeAt (memory : ℕ → UInt8) (offset : ℕ) (bytes : List UInt8) : ℕ → UInt8 :=
  fun place => if offset ≤ place then (bytes[place - offset]?).getD (memory place)
    else memory place

@[simp]
theorem loadAt_length (memory : ℕ → UInt8) (offset count : ℕ) :
    (loadAt memory offset count).length = count := by
  simp [loadAt]

theorem loadAt_add (memory : ℕ → UInt8) (offset first second : ℕ) :
    loadAt memory offset (first + second) =
      loadAt memory offset first ++ loadAt memory (offset + first) second := by
  simp [loadAt, List.range_add, Nat.add_assoc]

@[simp]
theorem storeAt_nil (memory : ℕ → UInt8) (offset : ℕ) : storeAt memory offset [] = memory := by
  funext place
  simp [storeAt]

/-- What has been stored is loaded again. -/
theorem loadAt_storeAt (memory : ℕ → UInt8) (offset : ℕ) (bytes : List UInt8) :
    loadAt (storeAt memory offset bytes) offset bytes.length = bytes := by
  apply List.ext_getElem
  · exact loadAt_length _ _ _
  · intro k _ inside
    simp [loadAt, storeAt, inside]

/-- Storing behind what has been stored. -/
theorem storeAt_storeAt (memory : ℕ → UInt8) (offset : ℕ) (first second : List UInt8) :
    storeAt (storeAt memory offset first) (offset + first.length) second =
      storeAt memory offset (first ++ second) := by
  funext place
  unfold storeAt
  by_cases behind : offset + first.length ≤ place
  · have past : offset ≤ place := by omega
    have none : first[place - offset]? = none := List.getElem?_eq_none (by omega)
    have right : (first ++ second)[place - offset]? = second[place - (offset + first.length)]? := by
      rw [List.getElem?_append_right (by omega), Nat.sub_sub]
    rw [if_pos behind, if_pos past, if_pos past, none, right, Option.getD_none]
  · rw [if_neg behind]
    by_cases past : offset ≤ place
    · rw [if_pos past, if_pos past, List.getElem?_append_left (by omega)]
    · rw [if_neg past, if_neg past]

/-! ## C strings -/

/-- The C string that starts at `offset`: the bytes up to the first zero. -/
def cString (data : List UInt8) (offset : ℕ) : List UInt8 :=
  (data.drop offset).takeWhile (· != 0)

theorem ne_zero_of_mem_cString {data : List UInt8} {offset : ℕ} {byte : UInt8}
    (mem : byte ∈ cString data offset) : byte ≠ 0 := by
  simpa using List.mem_takeWhile_imp mem

theorem cString_append_right {front : List UInt8} {offset : ℕ}
    (past : front.length ≤ offset) (rest : List UInt8) :
    cString (front ++ rest) offset = cString rest (offset - front.length) := by
  rw [cString, cString, List.drop_append, List.drop_eq_nil_of_le past, List.nil_append]

/-- A name without zero bytes is read back up to its terminator. -/
theorem cString_terminated {name : List UInt8} (clean : ∀ byte ∈ name, byte ≠ 0)
    (rest : List UInt8) : cString (name ++ 0 :: rest) 0 = name := by
  induction name with
  | nil => simp [cString]
  | cons byte name ih =>
      have head : byte ≠ 0 := clean byte List.mem_cons_self
      have tail := ih fun other member => clean other (List.mem_cons_of_mem byte member)
      simp only [cString, List.drop_zero] at tail
      simp [cString, head, tail]

end Rhino.Bytes
