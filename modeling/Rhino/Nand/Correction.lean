import Rhino.Nand.Ecc

/-!
# Single and double errors

A single flipped bit changes one parity of each pair: twelve in all, of which the odd
ones spell its address.  A flipped bit of the stored code changes one parity.  Two
flipped bits change both parities of a pair for every bit in which their addresses
differ, which is an even number of parities, but may be twelve as well.
-/

namespace Rhino.Nand

open Rhino.Bits

/-! ## What the weight of the syndrome leads to -/

theorem byteOfAddress {parityBits : UInt16} (inside : parityBits.toNat < 4096) :
    ((parityBits >>> 3) &&& (0x1FF : UInt16)).toNat = parityBits.toNat / 8 := by
  have mask := Nat.and_two_pow_sub_one_eq_mod (parityBits.toNat / 8) 9
  rw [UInt16.toNat_and, UInt16.toNat_shiftRight, Nat.shiftRight_eq_div_pow]
  change parityBits.toNat / 8 &&& 2 ^ 9 - 1 = parityBits.toNat / 8
  omega

theorem bitOfAddress (parityBits : UInt16) :
    (parityBits &&& (0x7 : UInt16)).toUInt8.toNat = parityBits.toNat % 8 := by
  have mask := Nat.and_two_pow_sub_one_eq_mod parityBits.toNat 3
  rw [UInt16.toNat_toUInt8, UInt16.toNat_and]
  change (parityBits.toNat &&& 2 ^ 3 - 1) % 2 ^ 8 = parityBits.toNat % 8
  omega

section Weights

variable {dat : Sector} {readEcc calcEcc : EccBytes} {even odd : ℕ → Bool}
  (pairs : IsPairs (genTrueEcc readEcc ^^^ genTrueEcc calcEcc) even odd)

include pairs

theorem hweight32_syndrome_iff (hm : UInt32) :
    hweight32 (genTrueEcc readEcc ^^^ genTrueEcc calcEcc) = hm ↔ weight even odd = hm.toNat := by
  rw [← pairs.hweight32_eq, UInt32.toNat_inj]

theorem syndrome_ne_zero (nonzero : weight even odd ≠ 0) :
    genTrueEcc readEcc ^^^ genTrueEcc calcEcc ≠ 0 := by
  intro zero
  rw [← pairs.hweight32_eq, zero] at nonzero
  exact nonzero rfl

/-- The odd parities are taken for the address of the bit in error. -/
theorem correct_of_weight_twelve (twelve : weight even odd = 12) {addr : Fin 4096}
    (spelt : ∀ k < 12, odd k = addr.val.testBit k) :
    omapCorrectDataHwEcc dat readEcc calcEcc = (0, dat.flip addr) := by
  have address : ((genTrueEcc readEcc ^^^ genTrueEcc calcEcc) >>> 16).toUInt16.toNat = addr := by
    apply Nat.eq_of_testBit_eq
    intro k
    rw [pairs.upper_testBit]
    by_cases low : k < 12
    · simp [low, spelt k low]
    · have large : 2 ^ 12 ≤ 2 ^ k := Nat.pow_le_pow_right Nat.two_pos (Nat.not_lt.mp low)
      rw [Nat.testBit_lt_two_pow (addr.isLt.trans_le large)]
      simp [low]
  have heavy := (hweight32_syndrome_iff pairs 12).mpr twelve
  simp only [omapCorrectDataHwEcc]
  rw [if_pos (syndrome_ne_zero pairs (by omega)), if_pos heavy,
    byteOfAddress (address.trans_lt addr.isLt), bitOfAddress, address, Sector.flip]

theorem correct_of_weight_one (one : weight even odd = 1) :
    omapCorrectDataHwEcc dat readEcc calcEcc = (2, dat) := by
  have light := (hweight32_syndrome_iff pairs 1).mpr one
  simp only [omapCorrectDataHwEcc]
  rw [if_pos (syndrome_ne_zero pairs (by omega)), light, if_neg (by decide), if_pos rfl]

/-- A syndrome of any other weight is an error, but for the one of an erased page. -/
theorem correct_of_weight_other (nonzero : weight even odd ≠ 0) (notOne : weight even odd ≠ 1)
    (notTwelve : weight even odd ≠ 12) :
    omapCorrectDataHwEcc dat readEcc calcEcc =
      if genTrueEcc readEcc = 0x0FFF0FFF ∧ genTrueEcc calcEcc = 0 then (0, dat) else (-1, dat) := by
  have notHeavy := (hweight32_syndrome_iff pairs 12).not.mpr notTwelve
  have notLight := (hweight32_syndrome_iff pairs 1).not.mpr notOne
  simp only [omapCorrectDataHwEcc]
  rw [if_pos (syndrome_ne_zero pairs nonzero), if_neg notHeavy, if_neg notLight]

end Weights

/-! ## The parities of a damaged sector -/

theorem evenParity_flip (dat : Sector) (addr : Fin 4096) (k : ℕ) :
    evenParity 12 (dat.flip addr).bit k = (evenParity 12 dat.bit k ^^ !addr.val.testBit k) := by
  rw [← evenParity_flipped addr.isLt]
  apply parity_congr
  intro other mem
  exact dat.flip_bit addr (List.mem_range.mp (List.mem_filter.mp mem).1)

theorem oddParity_flip (dat : Sector) (addr : Fin 4096) (k : ℕ) :
    oddParity 12 (dat.flip addr).bit k = (oddParity 12 dat.bit k ^^ addr.val.testBit k) := by
  rw [← oddParity_flipped addr.isLt]
  apply parity_congr
  intro other mem
  exact dat.flip_bit addr (List.mem_range.mp (List.mem_filter.mp mem).1)

/-- One parity of each pair changes, and the odd ones spell the address. -/
theorem syndrome_single {dat : Sector} {val computed : UInt32} {addr : Fin 4096}
    (stored : Reports dat val) (damaged : Reports (dat.flip addr) computed) :
    IsPairs (genTrueEcc (packEcc val) ^^^ genTrueEcc (packEcc computed))
      (fun k => !addr.val.testBit k) (fun k => addr.val.testBit k) := by
  have pairs := (isPairs_of_reports stored).xor (isPairs_of_reports damaged)
  simpa only [evenParity_flip, oddParity_flip, ← Bool.xor_assoc, Bool.xor_self, Bool.false_xor]
    using pairs

/-- The pairs for the bits in which the two addresses differ change as a whole. -/
theorem syndrome_double {dat : Sector} {val computed : UInt32} {first second : Fin 4096}
    (stored : Reports dat val) (damaged : Reports ((dat.flip first).flip second) computed) :
    IsPairs (genTrueEcc (packEcc val) ^^^ genTrueEcc (packEcc computed))
      (fun k => first.val.testBit k ^^ second.val.testBit k)
      (fun k => first.val.testBit k ^^ second.val.testBit k) := by
  have pairs := (isPairs_of_reports stored).xor (isPairs_of_reports damaged)
  simpa only [evenParity_flip, oddParity_flip, ← Bool.xor_assoc, Bool.xor_self, Bool.false_xor,
    Bool.not_xor_not] using pairs

/-- The place in the register of a bit of the stored code. -/
def parityPlace (place : ℕ) : ℕ :=
  if place < 8 then place
  else if place < 16 then place + 8
  else if place < 20 then place - 8
  else place + 4

theorem genTrueEcc_flip_testBit (ecc : EccBytes) (place : Fin 24) (i : ℕ) :
    (genTrueEcc (ecc.flip place)).toNat.testBit i =
      ((genTrueEcc ecc).toNat.testBit i ^^ decide (i = parityPlace place)) := by
  have small : place.val % 8 < 8 := Nat.mod_lt _ (by decide)
  have inside := place.isLt
  simp only [genTrueEcc_testBit, EccBytes.flip]
  rw [toggle_testBit ecc small (show 0 < 3 by decide),
    toggle_testBit ecc small (show 1 < 3 by decide),
    toggle_testBit ecc small (show 2 < 3 by decide),
    toggle_testBit ecc small (show 2 < 3 by decide)]
  -- Each range of `i` is one byte, and the place is compared within it.
  split_ifs with byte0 nibble0 gap byte1 nibble1
  all_goals
    simp only [Bool.false_xor, Bool.xor_right_inj, decide_eq_decide, Bool.false_eq,
      decide_eq_false_iff_not]
    rw [parityPlace]
    split_ifs <;> omega

theorem syndrome_code {dat : Sector} {val computed : UInt32} (place : Fin 24)
    (stored : Reports dat val) (again : Reports dat computed) :
    IsPairs (genTrueEcc ((packEcc val).flip place) ^^^ genTrueEcc (packEcc computed))
      (fun k => decide (k = parityPlace place)) (fun k => decide (16 + k = parityPlace place)) := by
  have range : parityPlace place < 12 ∨ 16 ≤ parityPlace place ∧ parityPlace place < 28 := by
    have inside := place.isLt
    rw [parityPlace]
    split_ifs <;> omega
  intro i
  rw [UInt32.toNat_xor, Nat.testBit_xor, genTrueEcc_flip_testBit, isPairs_of_reports stored i,
    isPairs_of_reports again i, Bool.xor_right_comm, Bool.xor_self, Bool.false_xor]
  split_ifs with low high
  · rfl
  · dsimp only
    rw [Nat.add_sub_cancel' high.1]
  · apply decide_eq_false
    omega

theorem weight_code (place : Fin 24) :
    weight (fun k => decide (k = parityPlace place))
      (fun k => decide (16 + k = parityPlace place)) = 1 := by
  revert place
  decide

theorem weight_double (first second : ℕ) :
    weight (fun k => first.testBit k ^^ second.testBit k)
      (fun k => first.testBit k ^^ second.testBit k) = 2 * distance 12 first second := by
  rw [weight, distance, Nat.two_mul]

/-! ## Single errors -/

theorem correct_flip {dat : Sector} {val computed : UInt32} {addr : Fin 4096}
    (stored : Reports dat val) (damaged : Reports (dat.flip addr) computed) :
    omapCorrectDataHwEcc (dat.flip addr) (packEcc val) (packEcc computed) = (0, dat) := by
  have pairs := syndrome_single stored damaged
  have twelve : weight (fun k => !addr.val.testBit k) (fun k => addr.val.testBit k) = 12 :=
    countP_not_add_countP _ 12
  rw [correct_of_weight_twelve pairs twelve (fun _ _ => rfl), Sector.flip, Sector.flip,
    toggle_toggle]

theorem correct_code_flip {dat : Sector} {val computed : UInt32} (place : Fin 24)
    (stored : Reports dat val) (again : Reports dat computed) :
    omapCorrectDataHwEcc dat ((packEcc val).flip place) (packEcc computed) = (2, dat) :=
  correct_of_weight_one (syndrome_code place stored again) (weight_code place)

/-- One flipped bit of the sector is corrected, one of the stored code is noticed, and the
three bytes keep the 24 parities. -/
theorem single_errors_corrected {dat : Sector} {val : UInt32} (stored : Reports dat val) :
    (∀ (addr : Fin 4096) (computed : UInt32), Reports (dat.flip addr) computed →
      omapCorrectDataHwEcc (dat.flip addr) (packEcc val) (packEcc computed) = (0, dat)) ∧
    (∀ (place : Fin 24) (computed : UInt32), Reports dat computed →
      omapCorrectDataHwEcc dat ((packEcc val).flip place) (packEcc computed) = (2, dat)) ∧
    (∀ register, genTrueEcc (packEcc register) = register &&& 0x0FFF0FFF) := by
  refine ⟨?_, ?_, genTrueEcc_packEcc⟩
  · intro addr computed damaged
    exact correct_flip stored damaged
  · intro place computed again
    exact correct_code_flip place stored again

def blankSector : Sector := Vector.replicate 512 0

theorem blank_single_errors_corrected :
    omapCorrectDataHwEcc (blankSector.flip 9) (packEcc (gpmcResult blankSector))
      (packEcc (gpmcResult (blankSector.flip 9))) = (0, blankSector) :=
  (single_errors_corrected (reports_gpmcResult blankSector)).1 9 _ (reports_gpmcResult _)

/-! ## Double errors -/

section Double

variable {dat : Sector} {val computed : UInt32} {first second : Fin 4096}
  (stored : Reports dat val) (damaged : Reports ((dat.flip first).flip second) computed)

include stored damaged

/-- Addresses that differ in six bits have the syndrome of a single error: a third bit is
flipped, and the function reports success. -/
theorem correct_double_six (six : distance 12 first second = 6) :
    omapCorrectDataHwEcc ((dat.flip first).flip second) (packEcc val) (packEcc computed) =
      (0, ((dat.flip first).flip second).flip
        ⟨first ^^^ second, @Nat.xor_lt_two_pow _ _ 12 first.isLt second.isLt⟩) := by
  have twelve := weight_double first second
  rw [six] at twelve
  apply correct_of_weight_twelve (syndrome_double stored damaged) twelve
  intro k _
  exact (Nat.testBit_xor _ _ _).symm

/-- The test for an erased page is met when all the parities were set and all of them have
changed. -/
theorem erased_iff :
    (genTrueEcc (packEcc val) = 0x0FFF0FFF ∧ genTrueEcc (packEcc computed) = 0) ↔
      distance 12 first second = 12 ∧
        ∀ k < 12, evenParity 12 dat.bit k = true ∧ oddParity 12 dat.bit k = true := by
  rw [(isPairs_of_reports stored).eq_iff isPairs_parityMask,
    (isPairs_of_reports damaged).eq_iff isPairs_zero, distance_eq_width_iff, and_comm]
  apply and_congr_left
  intro set
  apply forall₂_congr
  intro k lt
  rw [evenParity_flip, evenParity_flip, oddParity_flip, oddParity_flip, (set k lt).1, (set k lt).2]
  cases first.val.testBit k <;> cases second.val.testBit k <;> decide

theorem double_errors_detected_iff (ne : first ≠ second) :
    omapCorrectDataHwEcc ((dat.flip first).flip second) (packEcc val) (packEcc computed) =
        (-1, (dat.flip first).flip second) ↔
      distance 12 first second ≠ 6 ∧
        ¬ (distance 12 first second = 12 ∧
          ∀ k < 12, evenParity 12 dat.bit k = true ∧ oddParity 12 dat.bit k = true) := by
  have positive := @distance_pos 12 _ _ first.isLt second.isLt (Fin.val_ne_of_ne ne)
  have twice := weight_double first second
  by_cases six : distance 12 first second = 6
  · simp [correct_double_six stored damaged six, six]
  · rw [correct_of_weight_other (syndrome_double stored damaged) (by omega) (by omega) (by omega),
      ← erased_iff stored damaged]
    split
    next erased => simp [erased]
    next fresh => simp [six, fresh]

end Double

theorem neighbours_detected :
    omapCorrectDataHwEcc ((blankSector.flip 0).flip 1) (packEcc (gpmcResult blankSector))
      (packEcc (gpmcResult ((blankSector.flip 0).flip 1))) = (-1, (blankSector.flip 0).flip 1) :=
  (double_errors_detected_iff (reports_gpmcResult _) (reports_gpmcResult _) (by decide)).mpr
    ⟨by decide, fun erased => absurd erased.1 (by decide)⟩

/-- Two bits of a blank sector whose addresses differ in six bits: a third is flipped. -/
theorem third_bit_flipped :
    omapCorrectDataHwEcc ((blankSector.flip 1).flip 62) (packEcc (gpmcResult blankSector))
      (packEcc (gpmcResult ((blankSector.flip 1).flip 62))) =
        (0, ((blankSector.flip 1).flip 62).flip 63) ∧
      ((blankSector.flip 1).flip 62).flip 63 ≠ blankSector := by
  constructor
  · exact correct_double_six (reports_gpmcResult _) (reports_gpmcResult _) (by decide)
  · intro same
    have bit := congrArg (fun dat : Sector => dat.bit 1) same
    simp only [Sector.flip_bit _ _ (show 1 < 4096 by decide), flipped] at bit
    generalize blankSector.bit 1 = blank at bit
    cases blank <;> exact absurd bit (by decide)

end Rhino.Nand
