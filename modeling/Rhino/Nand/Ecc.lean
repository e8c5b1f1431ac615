import Rhino.Bits.Lanes
import Rhino.Bits.Parity
import Mathlib.Tactic.IntervalCases

/-!
# Error correction of the flash

The boot loader reads a page of the NAND flash in sectors of 512 bytes.  The GPMC
computes 24 parities of each sector as it is read; `omap_calculate_hw_ecc` of
`board/rhino/rhino.c` packs them into three bytes, as they are also stored in the
spare area of the page, and `omap_correct_data_hw_ecc` compares the two.
-/

namespace Rhino.Nand

open Rhino.Bits

/-! ## Sectors -/

/-- The bytes of a sector. -/
abbrev Sector := Vector UInt8 512

/-- The bit at a bit address: three bits for the place in the byte, nine for the byte. -/
def Sector.bit (dat : Sector) (addr : ℕ) : Bool :=
  ((dat[addr / 8]?).getD 0).toNat.testBit (addr % 8)

/-- `dat[byte] ^= 1 << bit`. -/
def toggle {size : ℕ} (dat : Vector UInt8 size) (byte bit : ℕ) : Vector UInt8 size :=
  Vector.ofFn fun i => if i.val = byte then dat[i] ^^^ (1 <<< UInt8.ofNat bit) else dat[i]

/-- The sector with the bit at one address flipped. -/
def Sector.flip (dat : Sector) (addr : Fin 4096) : Sector :=
  toggle dat (addr / 8) (addr % 8)

/-! ## The code of a sector -/

/-- The three bytes that are stored for a sector. -/
abbrev EccBytes := Vector UInt8 3

/-- The bytes with one of their 24 bits flipped. -/
def EccBytes.flip (ecc : EccBytes) (place : Fin 24) : EccBytes :=
  toggle ecc (place / 8) (place % 8)

/-- One turn of the loop of `omap_calculate_hw_ecc`, on the result register of a
sector. -/
def packEcc (val : UInt32) : EccBytes :=
  let byte0 : UInt32 := val &&& 0xFF
  let byte1 : UInt32 := (val >>> 16) &&& 0xFF
  let byte2 : UInt32 := ((val >>> 8) &&& (0x0F : UInt32)) ||| ((val >>> 20) &&& (0xF0 : UInt32))
  #v[byte0.toUInt8, byte1.toUInt8, byte2.toUInt8]

/-- One line of `hweight32`. -/
def addPairs (mask shift w : UInt32) : UInt32 :=
  (w &&& mask) + ((w >>> shift) &&& mask)

/-- `hweight32`. -/
def hweight32 (w : UInt32) : UInt32 :=
  let res := addPairs 0x55555555 1 w
  let res := addPairs 0x33333333 2 res
  let res := addPairs 0x0F0F0F0F 4 res
  let res := addPairs 0x00FF00FF 8 res
  addPairs 0x0000FFFF 16 res

/-- `gen_true_ecc`. -/
def genTrueEcc (ecc : EccBytes) : UInt32 :=
  ecc[0].toUInt32 ||| (ecc[1].toUInt32 <<< 16) ||| ((ecc[2].toUInt32 &&& 0xF0) <<< 20) |||
    ((ecc[2].toUInt32 &&& 0x0F) <<< 8)

/-- `omap_correct_data_hw_ecc`: the value it returns and the sector as it leaves it. -/
def omapCorrectDataHwEcc (dat : Sector) (readEcc calcEcc : EccBytes) : ℤ × Sector :=
  let origEcc := genTrueEcc readEcc
  let newEcc := genTrueEcc calcEcc
  let res := origEcc ^^^ newEcc
  if res ≠ 0 then
    let hm := hweight32 res
    if hm = 12 then
      let parityBits := (res >>> 16).toUInt16
      let bit := (parityBits &&& 0x7).toUInt8
      let byte := (parityBits >>> 3) &&& 0x1FF
      (0, toggle dat byte.toNat bit.toNat)
    else if hm = 1 then (2, dat)
    else if origEcc = 0x0FFF0FFF ∧ newEcc = 0 then (0, dat)
    else (-1, dat)
  else (0, dat)

/-- What the GPMC is assumed to compute for a sector: the even parities in the bits 0
to 11 of its result register and the odd ones in the bits 16 to 27. -/
structure Reports (dat : Sector) (val : UInt32) : Prop where
  even : ∀ k < 12, val.toNat.testBit k = evenParity 12 dat.bit k
  odd : ∀ k < 12, val.toNat.testBit (16 + k) = oddParity 12 dat.bit k

/-- An engine that computes these parities and leaves the other bits clear. -/
def gpmcResult (dat : Sector) : UInt32 :=
  UInt32.ofNat (Nat.ofBits fun i : Fin 32 =>
    if i.val < 12 then evenParity 12 dat.bit i
    else if 16 ≤ i.val ∧ i.val < 28 then oddParity 12 dat.bit (i - 16) else false)

theorem reports_gpmcResult (dat : Sector) : Reports dat (gpmcResult dat) := by
  have whole := Nat.mod_eq_of_lt (Nat.ofBits_lt_two_pow fun i : Fin 32 =>
    if i.val < 12 then evenParity 12 dat.bit i
    else if 16 ≤ i.val ∧ i.val < 28 then oddParity 12 dat.bit (i - 16) else false)
  constructor
  · intro k lt
    rw [gpmcResult, UInt32.toNat_ofNat', whole, Nat.testBit_ofBits_lt _ _ (by omega)]
    simp [lt]
  · intro k lt
    have above : ¬ 16 + k < 12 := by omega
    have upper : 16 + k < 28 := by omega
    rw [gpmcResult, UInt32.toNat_ofNat', whole, Nat.testBit_ofBits_lt _ _ (by omega)]
    simp [above, upper]

/-! ## Flipping bits -/

theorem toggle_testBit {size : ℕ} (dat : Vector UInt8 size) {byte place : ℕ} (small : place < 8)
    {i : ℕ} (inside : i < size) (k : ℕ) :
    (toggle dat byte place)[i].toNat.testBit k =
      xor (dat[i].toNat.testBit k) (decide (i = byte ∧ k = place)) := by
  have mask : ((1 : UInt8) <<< UInt8.ofNat place).toNat = 2 ^ place := by
    interval_cases place <;> rfl
  rw [toggle, Vector.getElem_ofFn]
  by_cases here : i = byte
  · rw [if_pos here, UInt8.toNat_xor, Nat.testBit_xor, mask, Nat.testBit_two_pow]
    simp [here, eq_comm]
  · rw [if_neg here]
    simp [here]

/-- Flipping a bit twice restores it. -/
theorem toggle_toggle {size : ℕ} (dat : Vector UInt8 size) (byte place : ℕ) :
    toggle (toggle dat byte place) byte place = dat := by
  apply Vector.ext
  intro i inside
  rw [toggle, Vector.getElem_ofFn]
  simp only [toggle, Fin.getElem_fin, Vector.getElem_ofFn]
  split
  · rw [UInt8.xor_assoc, UInt8.xor_self, UInt8.xor_zero]
  · rfl

theorem Sector.flip_bit (dat : Sector) (addr : Fin 4096) {other : ℕ} (inside : other < 4096) :
    (dat.flip addr).bit other = flipped dat.bit addr other := by
  have byte : other / 8 < 512 := by omega
  rw [Sector.bit, Vector.getElem?_eq_getElem byte, Option.getD_some, Sector.flip,
    toggle_testBit dat (Nat.mod_lt _ (by decide)), flipped, Sector.bit,
    Vector.getElem?_eq_getElem byte, Option.getD_some]
  congr 1
  apply decide_eq_decide.mpr
  omega

/-! ## Hamming weight -/

section Weight

variable {width bound total : ℕ} {w : UInt32}

theorem row_addPairs (mask shift : UInt32) (count : ℕ)
    (row : Row width (2 * count) bound total w.toNat) (fits : bound < 2 ^ width)
    (sums : 2 * bound < 2 ^ (2 * width)) (whole : 2 * width * count = 32)
    (mask_eq : mask.toNat = lowMask width count) (shift_eq : shift.toNat % 32 = width) :
    Row (2 * width) count (2 * bound) total (addPairs mask shift w).toNat := by
  have added := row.addPairs fits
  have small := added.lt sums
  rw [whole] at small
  rwa [addPairs, UInt32.toNat_add, UInt32.toNat_and, UInt32.toNat_and, UInt32.toNat_shiftRight,
    mask_eq, shift_eq, Nat.mod_eq_of_lt small]

end Weight

/-- The lanes grow from one bit to the whole word. -/
theorem hweight32_toNat (w : UInt32) :
    (hweight32 w).toNat = (List.range 32).countP w.toNat.testBit := by
  have bits := row_bits (show w.toNat < 2 ^ 32 from w.toNat_lt)
  have row2 := row_addPairs 0x55555555 1 16 bits (by decide) (by decide) rfl rfl rfl
  have row4 := row_addPairs 0x33333333 2 8 row2 (by decide) (by decide) rfl rfl rfl
  have row8 := row_addPairs 0x0F0F0F0F 4 4 row4 (by decide) (by decide) rfl rfl rfl
  have row16 := row_addPairs 0x00FF00FF 8 2 row8 (by decide) (by decide) rfl rfl rfl
  have row32 := row_addPairs 0x0000FFFF 16 1 row16 (by decide) (by decide) rfl rfl rfl
  exact row32.eq_of_single

/-! ## Packing -/

theorem testBit_byte_high (byte : UInt8) {k : ℕ} (high : 8 ≤ k) : byte.toNat.testBit k = false :=
  Nat.testBit_lt_two_pow (byte.toNat_lt.trans_le (Nat.pow_le_pow_right Nat.two_pos high))

theorem testBit_lowNibble (k : ℕ) : Nat.testBit 0x0F k = decide (k < 4) :=
  Nat.testBit_two_pow_sub_one 4 k

theorem testBit_highNibble (k : ℕ) : Nat.testBit 0xF0 k = decide (4 ≤ k ∧ k < 8) := by
  by_cases small : k < 8
  · interval_cases k <;> rfl
  · rw [decide_eq_false (by omega)]
    have large : 2 ^ 8 ≤ 2 ^ k := Nat.pow_le_pow_right Nat.two_pos (Nat.not_lt.mp small)
    exact Nat.testBit_lt_two_pow (lt_of_lt_of_le (by decide) large)

/-- Where the bits of the three bytes end up. -/
theorem genTrueEcc_testBit (ecc : EccBytes) (i : ℕ) :
    (genTrueEcc ecc).toNat.testBit i =
      if i < 8 then ecc[0].toNat.testBit i
      else if i < 12 then ecc[2].toNat.testBit (i - 8)
      else if i < 16 then false
      else if i < 24 then ecc[1].toNat.testBit (i - 16)
      else if i < 28 then ecc[2].toNat.testBit (i - 20)
      else false := by
  have high0 := @testBit_byte_high ecc[0] i
  have high1 := @testBit_byte_high ecc[1] (i - 16)
  simp only [genTrueEcc, UInt32.toNat_or, UInt32.toNat_shiftLeft, UInt32.toNat_and, Nat.testBit_or,
    Nat.testBit_mod_two_pow, Nat.testBit_shiftLeft, Nat.testBit_and, UInt8.toNat_toUInt32,
    UInt32.reduceToNat, Nat.reduceMod, testBit_lowNibble, testBit_highNibble]
  grind

/-- The places of the 24 parities in a register. -/
def isParity (i : ℕ) : Bool :=
  i < 12 || (16 ≤ i && i < 28)

theorem packEcc_testBit (val : UInt32) (k : ℕ) :
    (packEcc val)[0].toNat.testBit k = (decide (k < 8) && val.toNat.testBit k) ∧
    (packEcc val)[1].toNat.testBit k = (decide (k < 8) && val.toNat.testBit (16 + k)) ∧
    (packEcc val)[2].toNat.testBit k =
      if k < 4 then val.toNat.testBit (8 + k)
      else (decide (k < 8) && val.toNat.testBit (20 + k)) := by
  have mask : Nat.testBit 0xFF k = decide (k < 8) := Nat.testBit_two_pow_sub_one 8 k
  refine ⟨?_, ?_, ?_⟩
  · change (val &&& 0xFF).toUInt8.toNat.testBit k = _
    simp only [UInt32.toNat_toUInt8, Nat.testBit_mod_two_pow, UInt32.toNat_and, Nat.testBit_and,
      UInt32.reduceToNat, mask]
    grind
  · change ((val >>> 16) &&& (0xFF : UInt32)).toUInt8.toNat.testBit k = _
    simp only [UInt32.toNat_toUInt8, Nat.testBit_mod_two_pow, UInt32.toNat_and, Nat.testBit_and,
      UInt32.toNat_shiftRight, Nat.testBit_shiftRight, UInt32.reduceToNat, Nat.reduceMod, mask]
    grind
  · change (((val >>> 8) &&& (0x0F : UInt32)) |||
      ((val >>> 20) &&& (0xF0 : UInt32))).toUInt8.toNat.testBit k = _
    simp only [UInt32.toNat_toUInt8, Nat.testBit_mod_two_pow, UInt32.toNat_and, Nat.testBit_and,
      UInt32.toNat_or, Nat.testBit_or, UInt32.toNat_shiftRight, Nat.testBit_shiftRight,
      UInt32.reduceToNat, Nat.reduceMod, testBit_lowNibble, testBit_highNibble]
    grind

/-- What is unpacked is what was packed. -/
theorem genTrueEcc_packEcc_testBit (val : UInt32) (i : ℕ) :
    (genTrueEcc (packEcc val)).toNat.testBit i = (isParity i && val.toNat.testBit i) := by
  rw [genTrueEcc_testBit, (packEcc_testBit val i).1, (packEcc_testBit val (i - 8)).2.2,
    (packEcc_testBit val (i - 16)).2.1, (packEcc_testBit val (i - 20)).2.2, isParity]
  grind

theorem testBit_parityMask (i : ℕ) : Nat.testBit 0x0FFF0FFF i = isParity i := by
  by_cases small : i < 28
  · interval_cases i <;> rfl
  · have large : 2 ^ 28 ≤ 2 ^ i := Nat.pow_le_pow_right Nat.two_pos (Nat.not_lt.mp small)
    rw [Nat.testBit_lt_two_pow (lt_of_lt_of_le (by decide) large), isParity]
    grind

theorem genTrueEcc_packEcc (val : UInt32) : genTrueEcc (packEcc val) = val &&& 0x0FFF0FFF := by
  apply UInt32.toNat_inj.mp
  apply Nat.eq_of_testBit_eq
  intro i
  rw [genTrueEcc_packEcc_testBit, UInt32.toNat_and, Nat.testBit_and, Bool.and_comm,
    ← testBit_parityMask]
  rfl

/-! ## Syndromes -/

/-- A word that has these even and odd parities in their places and nothing else. -/
def IsPairs (word : UInt32) (even odd : ℕ → Bool) : Prop :=
  ∀ i, word.toNat.testBit i =
    if i < 12 then even i else if 16 ≤ i ∧ i < 28 then odd (i - 16) else false

/-- The number of parities that are set. -/
def weight (even odd : ℕ → Bool) : ℕ :=
  (List.range 12).countP even + (List.range 12).countP odd

theorem isPairs_of_reports {dat : Sector} {val : UInt32} (reported : Reports dat val) :
    IsPairs (genTrueEcc (packEcc val)) (evenParity 12 dat.bit) (oddParity 12 dat.bit) := by
  intro i
  rw [genTrueEcc_packEcc_testBit, isParity]
  by_cases low : i < 12
  · simp [low, reported.even i low]
  · by_cases high : 16 ≤ i ∧ i < 28
    · have odd := reported.odd (i - 16) (by omega)
      rw [Nat.add_sub_cancel' high.1] at odd
      simp [low, high, odd]
    · rw [if_neg low, if_neg high]
      grind

theorem isPairs_zero : IsPairs 0 (fun _ => false) (fun _ => false) := by
  intro i
  simp

theorem isPairs_parityMask : IsPairs 0x0FFF0FFF (fun _ => true) (fun _ => true) := by
  intro i
  change Nat.testBit 0x0FFF0FFF i = _
  rw [testBit_parityMask, isParity]
  grind

namespace IsPairs

variable {word : UInt32} {even odd : ℕ → Bool}

theorem xor {other : UInt32} {even' odd' : ℕ → Bool} (pairs : IsPairs word even odd)
    (otherPairs : IsPairs other even' odd') :
    IsPairs (word ^^^ other) (fun k => even k ^^ even' k) (fun k => odd k ^^ odd' k) := by
  intro i
  rw [UInt32.toNat_xor, Nat.testBit_xor, pairs i, otherPairs i]
  split
  · rfl
  · split
    · rfl
    · rfl

theorem eq_iff {other : UInt32} {even' odd' : ℕ → Bool} (pairs : IsPairs word even odd)
    (otherPairs : IsPairs other even' odd') :
    word = other ↔ ∀ k < 12, even k = even' k ∧ odd k = odd' k := by
  constructor
  · rintro rfl k lt
    have low := (pairs k).symm.trans (otherPairs k)
    have high := (pairs (16 + k)).symm.trans (otherPairs (16 + k))
    have above : ¬ 16 + k < 12 := by omega
    have upper : 16 ≤ 16 + k ∧ 16 + k < 28 := by omega
    rw [if_pos lt, if_pos lt] at low
    rw [if_neg above, if_neg above, if_pos upper, if_pos upper, Nat.add_sub_cancel_left] at high
    exact ⟨low, high⟩
  · intro same
    apply UInt32.toNat_inj.mp
    apply Nat.eq_of_testBit_eq
    intro i
    rw [pairs i, otherPairs i]
    split_ifs with low high
    · exact (same i low).1
    · exact (same (i - 16) (by omega)).2
    · rfl

/-- The weight of a word of parities. -/
theorem hweight32_eq (pairs : IsPairs word even odd) :
    (hweight32 word).toNat = weight even odd := by
  have cut : List.range 32 = List.range 12 ++ ((List.range 4).map (12 + ·) ++
      ((List.range 12).map (16 + ·) ++ (List.range 4).map (28 + ·))) := rfl
  have low : (List.range 12).countP word.toNat.testBit = (List.range 12).countP even := by
    apply List.countP_congr
    intro k mem
    rw [pairs k, if_pos (List.mem_range.mp mem)]
  have high : (List.range 12).countP (word.toNat.testBit ∘ (16 + ·)) =
      (List.range 12).countP odd := by
    apply List.countP_congr
    intro k mem
    have lt := List.mem_range.mp mem
    rw [Function.comp_apply, pairs (16 + k), if_neg (by omega), if_pos (by omega),
      Nat.add_sub_cancel_left]
  have unused (start : ℕ) (free : ∀ k < 4, ¬ start + k < 12 ∧ ¬ (16 ≤ start + k ∧ start + k < 28)) :
      (List.range 4).countP (word.toNat.testBit ∘ (start + ·)) = 0 := by
    rw [List.countP_eq_zero]
    intro k mem
    obtain ⟨notLow, notHigh⟩ := free k (List.mem_range.mp mem)
    rw [Function.comp_apply, pairs (start + k), if_neg notLow, if_neg notHigh]
    exact Bool.false_ne_true
  rw [hweight32_toNat, cut, List.countP_append, List.countP_append, List.countP_append,
    List.countP_map, List.countP_map, List.countP_map, low, high, unused 12 (by omega),
    unused 28 (by omega), Nat.zero_add, Nat.add_zero, weight]

/-- The upper half of the word. -/
theorem upper_testBit (pairs : IsPairs word even odd) (k : ℕ) :
    (word >>> 16).toUInt16.toNat.testBit k = (decide (k < 12) && odd k) := by
  simp only [UInt32.toNat_toUInt16, Nat.testBit_mod_two_pow, UInt32.toNat_shiftRight,
    Nat.testBit_shiftRight, UInt32.reduceToNat, Nat.reduceMod, pairs (16 + k)]
  grind

end IsPairs

end Rhino.Nand
