import Rhino.Bytes.LittleEndian

/-!
# Byte orders

A machine keeps the bytes of a number in memory in its own order, and a file
prescribes one.  Programs convert between the two by swapping the bytes of a
number exactly if the orders differ, both before they store it and after they
fetch it.

`bytes32_convert32` and `convert32_at32` say that this is right: what is stored has
the order of the file, and what is fetched is the number that the file holds.
The swap itself is the usual loop over shifted bytes.
-/

namespace Rhino.Bytes

/-! ## Swapping -/

/-- One turn of the loop: the low-order byte of the second number moves to its
mirrored place in the first. -/
def swapStep (width : ℕ) (s : ℕ × ℕ) (i : ℕ) : ℕ × ℕ :=
  (s.1 ||| ((s.2 &&& 0xff) <<< ((width - i - 1) <<< 3)), s.2 >>> 8)

/-- Swap the bytes of a number of `width` bytes. -/
def swapBytes (width value : ℕ) : ℕ :=
  ((List.range width).foldl (swapStep width) (0, value)).1

theorem leBytes_succ (width value : ℕ) :
    leBytes (width + 1) value = leBytes width value ++ [UInt8.ofNat (value / 256 ^ width)] := by
  induction width generalizing value with
  | zero => simp [leBytes]
  | succ width ih =>
      rw [leBytes, ih, leBytes, List.cons_append, Nat.div_div_eq_div_mul, pow_succ']

/-- A byte that is put below a multiple of its weight. -/
theorem or_shiftLeft_byte (upper k : ℕ) (byte : UInt8) :
    256 ^ (k + 1) * upper ||| byte.toNat <<< (8 * k) =
      256 ^ k * (byte.toNat + 256 * upper) := by
  have weight (n : ℕ) : 256 ^ n = 2 ^ (8 * n) := by
    rw [pow_mul]
    rfl
  have small : byte.toNat * 2 ^ (8 * k) < 2 ^ (8 * (k + 1)) := by
    rw [Nat.mul_succ, pow_add, Nat.mul_comm]
    exact Nat.mul_lt_mul_of_pos_left byte.toNat_lt (Nat.two_pow_pos _)
  rw [Nat.shiftLeft_eq, weight (k + 1), ← Nat.two_pow_add_eq_or_of_lt small, ← weight, ← weight]
  ring

/-- After `i` turns the first `i` bytes stand in reverse at the upper end. -/
theorem foldl_swapStep {width i : ℕ} (le : i ≤ width) (value : ℕ) :
    (List.range i).foldl (swapStep width) (0, value) =
      (256 ^ (width - i) * leValue (leBytes i value).reverse, value / 256 ^ i) := by
  induction i with
  | zero => simp [leBytes, leValue]
  | succ i ih =>
      have place : width - i = (width - (i + 1)) + 1 := by omega
      have shift : (width - i - 1) <<< 3 = 8 * (width - (i + 1)) := by
        rw [Nat.shiftLeft_eq]
        omega
      have byte : value / 256 ^ i &&& 0xff = (UInt8.ofNat (value / 256 ^ i)).toNat := by
        rw [UInt8.toNat_ofNat']
        exact Nat.and_two_pow_sub_one_eq_mod (value / 256 ^ i) 8
      have rest : (value / 256 ^ i) >>> 8 = value / 256 ^ (i + 1) := by
        rw [Nat.shiftRight_eq_div_pow, Nat.div_div_eq_div_mul, pow_succ 256 i]
      rw [List.range_succ, List.foldl_append, ih (Nat.le_of_succ_le le), List.foldl_cons,
        List.foldl_nil, swapStep, leBytes_succ, List.reverse_append, List.reverse_singleton,
        List.singleton_append, leValue, byte, shift, rest, place, or_shiftLeft_byte]

theorem swapBytes_eq (width value : ℕ) :
    swapBytes width value = leValue (leBytes width value).reverse := by
  rw [swapBytes, foldl_swapStep (Nat.le_refl width), Nat.sub_self, pow_zero, Nat.one_mul]

theorem leBytes_swapBytes (width value : ℕ) :
    leBytes width (swapBytes width value) = (leBytes width value).reverse := by
  have restored := leBytes_leValue (leBytes width value).reverse
  rwa [List.length_reverse, leBytes_length, ← swapBytes_eq] at restored

theorem swapBytes_leValue {width : ℕ} {bytes : List UInt8} (full : bytes.length = width) :
    swapBytes width (leValue bytes) = leValue bytes.reverse := by
  rw [swapBytes_eq, ← full, leBytes_leValue]

/-! ## Memory -/

inductive ByteOrder where
  | little
  | big
  deriving DecidableEq, Repr

namespace ByteOrder

/-- The bytes of a number, given from the least significant one, as they stand
in memory. -/
def arrange : ByteOrder → List UInt8 → List UInt8
  | little, bytes => bytes
  | big, bytes => bytes.reverse

@[simp]
theorem arrange_length (order : ByteOrder) (bytes : List UInt8) :
    (order.arrange bytes).length = bytes.length := by
  cases order with
  | little => rfl
  | big => exact List.length_reverse

theorem arrange_arrange (order : ByteOrder) (bytes : List UInt8) :
    order.arrange (order.arrange bytes) = bytes := by
  cases order with
  | little => rfl
  | big => exact List.reverse_reverse bytes

/-- Store a 16-bit number. -/
def bytes16 (order : ByteOrder) (value : UInt16) : List UInt8 :=
  order.arrange (u16Bytes value)

/-- Store a 32-bit number. -/
def bytes32 (order : ByteOrder) (value : UInt32) : List UInt8 :=
  order.arrange (u32Bytes value)

/-- Fetch a 16-bit number. -/
def at16 (order : ByteOrder) (data : List UInt8) (offset : ℕ) : UInt16 :=
  UInt16.ofNat (leValue (order.arrange (slice offset 2 data)))

/-- Fetch a 32-bit number. -/
def at32 (order : ByteOrder) (data : List UInt8) (offset : ℕ) : UInt32 :=
  UInt32.ofNat (leValue (order.arrange (slice offset 4 data)))

/-- Between a 16-bit number of this order and one of another. -/
def convert16 (host order : ByteOrder) (value : UInt16) : UInt16 :=
  if host = order then value else UInt16.ofNat (swapBytes 2 value.toNat)

/-- Between a 32-bit number of this order and one of another. -/
def convert32 (host order : ByteOrder) (value : UInt32) : UInt32 :=
  if host = order then value else UInt32.ofNat (swapBytes 4 value.toNat)

@[simp]
theorem bytes16_length (order : ByteOrder) (value : UInt16) :
    (order.bytes16 value).length = 2 := by
  rw [bytes16, arrange_length, u16Bytes_length]

@[simp]
theorem bytes32_length (order : ByteOrder) (value : UInt32) :
    (order.bytes32 value).length = 4 := by
  rw [bytes32, arrange_length, u32Bytes_length]

@[simp]
theorem at16_bytes16_append (order : ByteOrder) (value : UInt16) (rest : List UInt8) :
    order.at16 (order.bytes16 value ++ rest) 0 = value := by
  have field := slice_zero_append (order.bytes16 value) rest
  have stored := u16At_u16Bytes_append value []
  rw [bytes16_length] at field
  rwa [u16At, List.append_nil, slice_whole (u16Bytes_length value),
    ← arrange_arrange order (u16Bytes value), ← bytes16, ← field] at stored

@[simp]
theorem at32_bytes32_append (order : ByteOrder) (value : UInt32) (rest : List UInt8) :
    order.at32 (order.bytes32 value ++ rest) 0 = value := by
  have field := slice_zero_append (order.bytes32 value) rest
  have stored := u32At_u32Bytes_append value []
  rw [bytes32_length] at field
  rwa [u32At, List.append_nil, slice_whole (u32Bytes_length value),
    ← arrange_arrange order (u32Bytes value), ← bytes32, ← field] at stored

theorem at16_append_right (order : ByteOrder) {front : List UInt8} {offset : ℕ}
    (past : front.length ≤ offset) (rest : List UInt8) :
    order.at16 (front ++ rest) offset = order.at16 rest (offset - front.length) := by
  rw [at16, at16, slice_append_right past]

theorem at32_append_right (order : ByteOrder) {front : List UInt8} {offset : ℕ}
    (past : front.length ≤ offset) (rest : List UInt8) :
    order.at32 (front ++ rest) offset = order.at32 rest (offset - front.length) := by
  rw [at32, at32, slice_append_right past]

theorem u16Bytes_swap (value : UInt16) :
    u16Bytes (UInt16.ofNat (swapBytes 2 value.toNat)) = (u16Bytes value).reverse := by
  have small : swapBytes 2 value.toNat < 2 ^ 16 := by
    have bound := leValue_lt (leBytes 2 value.toNat).reverse
    rwa [List.length_reverse, leBytes_length, ← swapBytes_eq] at bound
  rw [u16Bytes, UInt16.toNat_ofNat_of_lt' small, leBytes_swapBytes, u16Bytes]

theorem u32Bytes_swap (value : UInt32) :
    u32Bytes (UInt32.ofNat (swapBytes 4 value.toNat)) = (u32Bytes value).reverse := by
  have small : swapBytes 4 value.toNat < 2 ^ 32 := by
    have bound := leValue_lt (leBytes 4 value.toNat).reverse
    rwa [List.length_reverse, leBytes_length, ← swapBytes_eq] at bound
  rw [u32Bytes, UInt32.toNat_ofNat_of_lt' small, leBytes_swapBytes, u32Bytes]

/-- What is converted and then stored has the order it was converted to. -/
@[simp]
theorem bytes16_convert16 (host order : ByteOrder) (value : UInt16) :
    host.bytes16 (host.convert16 order value) = order.bytes16 value := by
  cases host <;> cases order <;> simp [convert16, bytes16, arrange, u16Bytes_swap]

@[simp]
theorem bytes32_convert32 (host order : ByteOrder) (value : UInt32) :
    host.bytes32 (host.convert32 order value) = order.bytes32 value := by
  cases host <;> cases order <;> simp [convert32, bytes32, arrange, u32Bytes_swap]

theorem swap16_leValue {bytes : List UInt8} (full : bytes.length = 2) :
    swapBytes 2 (UInt16.ofNat (leValue bytes)).toNat = leValue bytes.reverse := by
  have small : leValue bytes < 2 ^ 16 := by
    have bound := leValue_lt bytes
    rwa [full] at bound
  rw [UInt16.toNat_ofNat_of_lt' small, swapBytes_leValue full]

theorem swap32_leValue {bytes : List UInt8} (full : bytes.length = 4) :
    swapBytes 4 (UInt32.ofNat (leValue bytes)).toNat = leValue bytes.reverse := by
  have small : leValue bytes < 2 ^ 32 := by
    have bound := leValue_lt bytes
    rwa [full] at bound
  rw [UInt32.toNat_ofNat_of_lt' small, swapBytes_leValue full]

/-- What is fetched and then converted is the number of the order it is
converted from. -/
theorem convert16_at16 (host order : ByteOrder) {data : List UInt8} {offset : ℕ}
    (inside : offset + 2 ≤ data.length) :
    host.convert16 order (host.at16 data offset) = order.at16 data offset := by
  have full : (slice offset 2 data).length = 2 := by
    rw [slice_length]
    omega
  have full' : (slice offset 2 data).reverse.length = 2 := by rwa [List.length_reverse]
  cases host <;> cases order <;>
    simp only [convert16, at16, arrange, reduceCtorEq, if_true, if_false,
      swap16_leValue full, swap16_leValue full', List.reverse_reverse]

theorem convert32_at32 (host order : ByteOrder) {data : List UInt8} {offset : ℕ}
    (inside : offset + 4 ≤ data.length) :
    host.convert32 order (host.at32 data offset) = order.at32 data offset := by
  have full : (slice offset 4 data).length = 4 := by
    rw [slice_length]
    omega
  have full' : (slice offset 4 data).reverse.length = 4 := by rwa [List.length_reverse]
  cases host <;> cases order <;>
    simp only [convert32, at32, arrange, reduceCtorEq, if_true, if_false,
      swap32_leValue full, swap32_leValue full', List.reverse_reverse]

/-- Converting twice gives back the number. -/
@[simp]
theorem convert16_convert16 (host order : ByteOrder) (value : UInt16) :
    host.convert16 order (host.convert16 order value) = value := by
  have fetched : host.convert16 order
      (host.at16 (host.bytes16 (host.convert16 order value) ++ []) 0) =
        order.at16 (host.bytes16 (host.convert16 order value) ++ []) 0 :=
    convert16_at16 host order (by simp)
  rwa [at16_bytes16_append, bytes16_convert16, at16_bytes16_append] at fetched

@[simp]
theorem convert32_convert32 (host order : ByteOrder) (value : UInt32) :
    host.convert32 order (host.convert32 order value) = value := by
  have fetched : host.convert32 order
      (host.at32 (host.bytes32 (host.convert32 order value) ++ []) 0) =
        order.at32 (host.bytes32 (host.convert32 order value) ++ []) 0 :=
    convert32_at32 host order (by simp)
  rwa [at32_bytes32_append, bytes32_convert32, at32_bytes32_append] at fetched

end ByteOrder

end Rhino.Bytes
