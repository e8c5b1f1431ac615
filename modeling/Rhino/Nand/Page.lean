import Rhino.Nand.Correction

/-!
# Reading a page

`nand_read_page` of `drivers/k9f1g08r0a.c` reads a page of four sectors and its spare
area and corrects the sectors one after another.  At an error that cannot be corrected
the boot loader stops for good.
-/

namespace Rhino.Nand

def ECC_STEPS : ℕ := 4

/-- The result register of a sector. -/
def resultRegister (eccAddr : UInt32) (i : ℕ) : UInt32 :=
  eccAddr + 4 * UInt32.ofNat i

/-- `omap_calculate_hw_ecc`, for result registers from `eccAddr` on: the three bytes of each
of the sectors. -/
def omapCalculateHwEcc (rawReadl : UInt32 → UInt32) (eccAddr : UInt32) (steps : ℕ) :
    List EccBytes :=
  (List.range steps).map fun i => packEcc (rawReadl (resultRegister eccAddr i))

/-- The place of a byte of the code in the spare area. -/
def eccPos (cntr : ℕ) : ℕ :=
  cntr + 2

/-- The bytes of the code that were read with the page, three for each of the sectors. -/
def eccCode (oobBuf : ℕ → UInt8) : List EccBytes :=
  (List.range ECC_STEPS).map fun i =>
    #v[oobBuf (eccPos (3 * i)), oobBuf (eccPos (3 * i + 1)), oobBuf (eccPos (3 * i + 2))]

/-- The loop over the sectors; `none` is the endless loop. -/
def correctSectors : List Sector → List EccBytes → List EccBytes → Option (List Sector)
  | buf :: rest, code :: codes, computed :: calcs =>
      if (omapCorrectDataHwEcc buf code computed).1 = -1 then none
      else (correctSectors rest codes calcs).map ((omapCorrectDataHwEcc buf code computed).2 :: ·)
  | _, _, _ => some []

/-- The part of `nand_read_page` that follows the transfer of the page and its spare
area. -/
def nandReadPage (rawReadl : UInt32 → UInt32) (eccAddr : UInt32) (buf : List Sector)
    (oobBuf : ℕ → UInt8) : Option (List Sector) :=
  correctSectors buf (eccCode oobBuf) (omapCalculateHwEcc rawReadl eccAddr ECC_STEPS)

/-- The loop over the sectors of a page. -/
theorem correctSectors_places (buf : ℕ → Sector) (code computed : ℕ → EccBytes)
    (places : List ℕ) :
    correctSectors (places.map buf) (places.map code) (places.map computed) =
      if ∃ i ∈ places, (omapCorrectDataHwEcc (buf i) (code i) (computed i)).1 = -1 then none
      else some (places.map fun i => (omapCorrectDataHwEcc (buf i) (code i) (computed i)).2) := by
  induction places with
  | nil => rfl
  | cons i rest ih =>
      simp only [List.map_cons, correctSectors, ih]
      by_cases failed : (omapCorrectDataHwEcc (buf i) (code i) (computed i)).1 = -1
      · rw [if_pos failed, if_pos ⟨i, List.mem_cons_self, failed⟩]
      · simp only [failed, if_false, List.mem_cons, exists_eq_or_imp, false_or]
        split
        · rfl
        · rfl

end Rhino.Nand
