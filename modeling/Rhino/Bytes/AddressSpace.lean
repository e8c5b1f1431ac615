import Rhino.Bytes.LittleEndian

/-!
# Byte-addressable memory

A memory is a cell for every 32-bit address; addresses wrap around.  `fetch` reads
consecutive cells and `deposit` overwrites them.  What has been deposited is fetched
again, and deposits next to each other are one deposit, as long as they are not longer
than the address space.
-/

namespace Rhino.Bytes

/-- The `count` bytes from `addr` on. -/
def fetch (cells : UInt32 → UInt8) (addr : UInt32) (count : ℕ) : List UInt8 :=
  (List.range count).map fun k => cells (addr + UInt32.ofNat k)

/-- The memory once `bytes` stand from `addr` on. -/
def deposit (cells : UInt32 → UInt8) (addr : UInt32) (bytes : List UInt8) : UInt32 → UInt8 :=
  fun place => (bytes[(place - addr).toNat]?).getD (cells place)

@[simp]
theorem fetch_zero (cells : UInt32 → UInt8) (addr : UInt32) : fetch cells addr 0 = [] :=
  rfl

@[simp]
theorem fetch_length (cells : UInt32 → UInt8) (addr : UInt32) (count : ℕ) :
    (fetch cells addr count).length = count := by
  rw [fetch, List.length_map, List.length_range]

/-- A range and the one right behind it. -/
theorem fetch_add (cells : UInt32 → UInt8) (addr : UInt32) (first second : ℕ) :
    fetch cells addr (first + second) =
      fetch cells addr first ++ fetch cells (addr + UInt32.ofNat first) second := by
  simp only [fetch, List.range_add, List.map_append, List.map_map]
  congr 1
  apply List.map_congr_left
  intro k _
  rw [Function.comp_apply, UInt32.ofNat_add, UInt32.add_assoc]

@[simp]
theorem deposit_nil (cells : UInt32 → UInt8) (addr : UInt32) : deposit cells addr [] = cells := by
  funext place
  rfl

/-- The other cells are left alone. -/
theorem deposit_of_le {cells : UInt32 → UInt8} {addr place : UInt32} {bytes : List UInt8}
    (outside : bytes.length ≤ (place - addr).toNat) :
    deposit cells addr bytes place = cells place := by
  rw [deposit, List.getElem?_eq_none outside]
  rfl

theorem toNat_add_ofNat_sub (addr : UInt32) {k : ℕ} (lt : k < 2 ^ 32) :
    (addr + UInt32.ofNat k - addr).toNat = k := by
  have same : addr + UInt32.ofNat k - addr = UInt32.ofNat k := by grind
  rw [same, UInt32.toNat_ofNat_of_lt' lt]

/-- What has been stored is found again. -/
theorem fetch_deposit (cells : UInt32 → UInt8) (addr : UInt32) {bytes : List UInt8}
    (fits : bytes.length ≤ 2 ^ 32) :
    fetch (deposit cells addr bytes) addr bytes.length = bytes := by
  apply List.ext_getElem
  · exact fetch_length _ _ _
  · intro k _ inside
    simp only [fetch, List.getElem_map, List.getElem_range, deposit]
    rw [toNat_add_ofNat_sub addr (inside.trans_le fits), List.getElem?_eq_getElem inside]
    rfl

/-- How far a place is behind the end of a range that starts at `addr`. -/
theorem toNat_sub_add_ofNat (place addr : UInt32) {n : ℕ} (lt : n < 2 ^ 32) :
    (place - (addr + UInt32.ofNat n)).toNat =
      if n ≤ (place - addr).toNat then (place - addr).toNat - n
      else (place - addr).toNat + 2 ^ 32 - n := by
  have apart : place - (addr + UInt32.ofNat n) = place - addr - UInt32.ofNat n := by grind
  rw [apart, UInt32.toNat_sub, UInt32.toNat_ofNat_of_lt' lt]
  have bound := (place - addr).toNat_lt
  split <;> omega

/-- Storing right behind what has been stored. -/
theorem deposit_deposit (cells : UInt32 → UInt8) (addr : UInt32) {first second : List UInt8}
    (fits : first.length + second.length < 2 ^ 32) :
    deposit (deposit cells addr first) (addr + UInt32.ofNat first.length) second =
      deposit cells addr (first ++ second) := by
  funext place
  have distance := toNat_sub_add_ofNat place addr (Nat.lt_of_le_of_lt (Nat.le_add_right _ _) fits)
  by_cases behind : first.length ≤ (place - addr).toNat
  · rw [if_pos behind] at distance
    rw [deposit, distance, deposit_of_le behind, deposit, List.getElem?_append_right behind]
  · rw [if_neg behind] at distance
    rw [deposit_of_le (by omega), deposit, deposit, List.getElem?_append_left (not_le.mp behind)]

end Rhino.Bytes
