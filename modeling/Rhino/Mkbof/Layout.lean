import Rhino.Loader.Core
import Rhino.Mkbof.Core

/-!
# The layout of a written file

`main` computes the offsets in its headers from the sizes of its inputs and
from what it has counted while reading the symbols; the kernel finds the ELF
header and the header of the region by these offsets, and computes the place of
the string table on its own.  All of them agree with the places where the parts
of the file have been written.
-/

namespace Rhino.Mkbof

open Rhino.Bof Rhino.Bytes Rhino.Kernel Rhino.Loader

variable {δ ε : Type}

/-- What the kernel finds in a file whose region header it has read into `r`:
the ELF file with its header moved, and the tables and the payload at the places
that it computes. -/
structure LaidOut (felf fbit : List UInt8) (table : Symtab) (file : File) (r : LoadState δ) :
    Prop where
  ehdr : slice (BofHdr.decode file).bElfoff.toNat EHDR_SIZE file = felf.take EHDR_SIZE
  elf : ∀ i, EHDR_SIZE ≤ i → i < felf.length → file[i]? = felf[i]?
  nrSymbol : r.hwrhdr.nrSymbol.toNat = table.symtab.length
  symtab : slice r.curFoff.toNat (r.hwrhdr.nrSymbol.toNat * BofIoreg.size) file =
    writeSymtab table.symtab
  strtabFoff : r.curFoff + r.hwrhdr.nrSymbol * UInt32.ofNat BofIoreg.size = r.hwrhdr.strtabOff
  strtabLen : (strtabLen r.hwrhdr).toNat = (writeStrtab table.symtab).length
  strtab : slice r.hwrhdr.strtabOff.toNat (Loader.strtabLen r.hwrhdr).toNat file =
    writeStrtab table.symtab
  payload : slice r.hwrhdr.plOff.toNat r.hwrhdr.plLen.toNat file = fbit
  complete : file.length = r.hwrhdr.plOff.toNat + r.hwrhdr.plLen.toNat

theorem symtabEntries_length (strtabOff : UInt16) (symtab : List Symbol) :
    (symtabEntries strtabOff symtab).length = symtab.length := by
  induction symtab generalizing strtabOff with
  | nil => rfl
  | cons sym rest ih => rw [symtabEntries, List.length_cons, List.length_cons, ih]

theorem writeSymtab_length (symtab : List Symbol) :
    (writeSymtab symtab).length = symtab.length * BofIoreg.size := by
  rw [writeSymtab, BofIoreg.length_flatMap_encode, symtabEntries_length]

section Parts

variable (globals : Globals) (felf fbit : List UInt8) (table : Symtab)

/-- The parts of the file in their order. -/
def bofParts : List (List UInt8) :=
  [(makeBofhdr globals (felf.take EHDR_SIZE) felf.length).encode,
    felf.drop EHDR_SIZE,
    felf.take EHDR_SIZE,
    (makeHwrhdr globals felf.length fbit.length table).encode,
    writeSymtab table.symtab,
    writeStrtab table.symtab,
    fbit]

theorem bofFile_eq : bofFile globals felf fbit table =
    (bofParts globals felf fbit table).flatten := by
  rw [bofFile, copyRemainFile_eq (Nat.le_refl _), copyRemainFile_eq]
  · simp [bofParts]
  · rw [List.length_drop]
    exact Nat.sub_le _ _

theorem decode_bofFile : BofHdr.decode (bofFile globals felf fbit table) =
    makeBofhdr globals (felf.take EHDR_SIZE) felf.length := by
  rw [bofFile_eq]
  exact BofHdr.decode_encode_append _ rfl _

variable {felf}

theorem bofParts_lengths (elf : EHDR_SIZE ≤ felf.length) :
    (bofParts globals felf fbit table).map List.length =
      [EHDR_SIZE, felf.length - EHDR_SIZE, EHDR_SIZE, HwrHdr.size,
        table.symtab.length * BofIoreg.size, (writeStrtab table.symtab).length,
        fbit.length] := by
  have hdr : (makeBofhdr globals (felf.take EHDR_SIZE) felf.length).encode.length = EHDR_SIZE :=
    BofHdr.encode_length _ rfl
  simp only [bofParts, List.map_cons, List.map_nil, hdr, List.length_drop, List.length_take,
    Nat.min_eq_left elf, HwrHdr.encode_length, writeSymtab_length]

theorem bofFile_length (elf : EHDR_SIZE ≤ felf.length) :
    (bofFile globals felf fbit table).length =
      felf.length + EHDR_SIZE + HwrHdr.size + table.symtab.length * BofIoreg.size +
        (writeStrtab table.symtab).length + fbit.length := by
  rw [bofFile_eq, List.length_flatten, bofParts_lengths globals fbit table elf]
  simp only [List.sum_cons, List.sum_nil]
  omega

/-- A part of the file is found by the sizes of the parts in front of it. -/
theorem slice_bofFile (elf : EHDR_SIZE ≤ felf.length) {k : ℕ} {part : List UInt8}
    (found : (bofParts globals felf fbit table)[k]? = some part) {offset count : ℕ}
    (start : offset = (([EHDR_SIZE, felf.length - EHDR_SIZE, EHDR_SIZE, HwrHdr.size,
        table.symtab.length * BofIoreg.size, (writeStrtab table.symtab).length,
        fbit.length] : List ℕ).take k).sum)
    (size : count = part.length) :
    slice offset count (bofFile globals felf fbit table) = part := by
  rw [bofFile_eq]
  apply slice_flatten found _ size
  rw [start, ← bofParts_lengths globals fbit table elf, List.map_take]

/-- The kernel reads the header of the region that has been written. -/
theorem readHwrhdr_bofFile (elf : EHDR_SIZE ≤ felf.length)
    (small : (bofFile globals felf fbit table).length < 2 ^ 32) {env : RegionEnv ε} {limit : ℕ}
    (served : env.hdrIo = .upTo limit) (enough : HwrHdr.size ≤ limit) {s : LoadState δ}
    (start : s.curFoff = (BofHdr.decode (bofFile globals felf fbit table)).bHwoff) :
    readHwrhdr (bofFile globals felf fbit table) env s =
      .ok { s with
        retval := (HwrHdr.size : ℤ)
        hwrhdr := makeHwrhdr globals felf.length fbit.length table
        curFoff := UInt32.ofNat (felf.length + EHDR_SIZE + HwrHdr.size) } := by
  rw [decode_bofFile] at start
  have length_eq := bofFile_length globals fbit table elf
  have offset : s.curFoff.toNat = felf.length + EHDR_SIZE := by
    rw [start, makeBofhdr, UInt32.toNat_ofNat']
    omega
  have nonzero : s.curFoff ≠ 0 := by
    intro zero
    rw [zero] at offset
    exact (Nat.add_pos_right felf.length (by decide : 0 < EHDR_SIZE)).ne offset
  have read : kernelRead (bofFile globals felf fbit table) env.hdrIo s.curFoff.toNat
      HwrHdr.size = ((HwrHdr.size : ℤ),
        (makeHwrhdr globals felf.length fbit.length table).encode) := by
    rw [served, kernelRead_served (by decide) enough (by omega),
      slice_bofFile globals fbit table elf (k := 3) rfl _ (HwrHdr.encode_length _).symm]
    simp only [List.take_succ_cons, List.take_zero, List.sum_cons, List.sum_nil]
    omega
  have whole : overlay (makeHwrhdr globals felf.length fbit.length table).encode
      s.hwrhdr.encode = (makeHwrhdr globals felf.length fbit.length table).encode ++ [] := by
    rw [overlay_of_length_le (by simp), List.append_nil]
  have next : s.curFoff + UInt32.ofNat HwrHdr.size =
      UInt32.ofNat (felf.length + EHDR_SIZE + HwrHdr.size) := by
    rw [start, makeBofhdr, ← UInt32.ofNat_add]
  simp only [readHwrhdr, if_neg nonzero, read, whole, HwrHdr.decode_encode_append, next]
  rw [if_neg (by decide)]

/-- Every part of the file is where the kernel looks for it. -/
theorem laidOut_bofFile (elf : EHDR_SIZE ≤ felf.length) (counted : table.Counted)
    (small : (bofFile globals felf fbit table).length < 2 ^ 32) {r : LoadState δ}
    (hdr : r.hwrhdr = makeHwrhdr globals felf.length fbit.length table)
    (foff : r.curFoff = UInt32.ofNat (felf.length + EHDR_SIZE + HwrHdr.size)) :
    LaidOut felf fbit table (bofFile globals felf fbit table) r := by
  have length_eq := bofFile_length globals fbit table elf
  have strtabSize := counted.strtabSize
  rw [Symtab.strtab, ← writeStrtab_eq] at strtabSize
  -- The numbers in the headers, none of which has been cut off.
  have elfoff : (BofHdr.decode (bofFile globals felf fbit table)).bElfoff.toNat =
      felf.length := by
    rw [decode_bofFile, makeBofhdr, UInt32.toNat_ofNat']
    omega
  have nrSymbol : r.hwrhdr.nrSymbol.toNat = table.symtab.length := by
    have := counted.numsym
    rw [SYMTAB_SIZE] at this
    rw [hdr, makeHwrhdr, UInt32.toNat_ofNat']
    omega
  have curFoff : r.curFoff.toNat = felf.length + EHDR_SIZE + HwrHdr.size := by
    rw [foff, UInt32.toNat_ofNat']
    omega
  have strtabOff : r.hwrhdr.strtabOff.toNat =
      felf.length + EHDR_SIZE + HwrHdr.size + table.symtab.length * BofIoreg.size := by
    rw [hdr, makeHwrhdr, UInt32.toNat_ofNat']
    omega
  have plOff : r.hwrhdr.plOff.toNat = felf.length + EHDR_SIZE + HwrHdr.size +
      table.symtab.length * BofIoreg.size + (writeStrtab table.symtab).length := by
    rw [hdr, makeHwrhdr, strtabSize, ← UInt32.ofNat_add, UInt32.toNat_ofNat']
    omega
  have plLen : r.hwrhdr.plLen.toNat = fbit.length := by
    rw [hdr, makeHwrhdr, UInt32.toNat_ofNat']
    omega
  have strtabLen_eq : (strtabLen r.hwrhdr).toNat = (writeStrtab table.symtab).length := by
    rw [strtabLen, UInt32.toNat_sub_of_le _ _ (UInt32.le_iff_toNat_le.mpr (by omega))]
    omega
  constructor
  · apply slice_bofFile globals fbit table elf (k := 2) rfl
    · simp only [List.take_succ_cons, List.take_zero, List.sum_cons, List.sum_nil]
      omega
    · rw [List.length_take, Nat.min_eq_left elf]
  · intro i past before
    have hdrLength : (makeBofhdr globals (felf.take EHDR_SIZE) felf.length).encode.length =
        EHDR_SIZE := BofHdr.encode_length _ rfl
    rw [bofFile_eq, bofParts, List.flatten_cons, List.getElem?_append_right (by rwa [hdrLength]),
      hdrLength, List.flatten_cons, List.getElem?_append_left (by rw [List.length_drop]; omega),
      List.getElem?_drop, Nat.add_sub_cancel' past]
  · exact nrSymbol
  · apply slice_bofFile globals fbit table elf (k := 4) rfl
    · simp only [List.take_succ_cons, List.take_zero, List.sum_cons, List.sum_nil]
      omega
    · rw [writeSymtab_length, nrSymbol]
  · rw [foff, hdr, makeHwrhdr, ← UInt32.ofNat_mul, ← UInt32.ofNat_add]
  · exact strtabLen_eq
  · apply slice_bofFile globals fbit table elf (k := 5) rfl _ strtabLen_eq
    simp only [List.take_succ_cons, List.take_zero, List.sum_cons, List.sum_nil]
    omega
  · apply slice_bofFile globals fbit table elf (k := 6) rfl _ plLen
    simp only [List.take_succ_cons, List.take_zero, List.sum_cons, List.sum_nil]
    omega
  · omega

end Parts

/-- Whatever ELF file, symbol file and bit file it is given, `main` writes a file
as soon as it has read a header and accepted the symbols, and the kernel finds
everything in it as long as the offsets fit their fields. -/
theorem main_laidOut (globals : Globals) (felf fbit : List UInt8) {host : Host}
    {fsym : List UInt8} {table : Symtab} (elf : EHDR_SIZE ≤ felf.length)
    (accepted : readSymbolFile host fsym = .ok table) :
    ∃ file, main host globals felf fsym fbit = .ok file ∧
      (file.length < 2 ^ 32 → ∀ (env : RegionEnv ε) (s : LoadState δ) (limit : ℕ),
        env.hdrIo = .upTo limit → HwrHdr.size ≤ limit →
        s.curFoff = (BofHdr.decode file).bHwoff →
        ∃ r, readHwrhdr file env s = .ok r ∧ LaidOut felf fbit table file r) := by
  refine ⟨bofFile globals felf fbit table, ?_, ?_⟩
  · rw [main, if_neg (Nat.not_lt.mpr elf), accepted]
  · intro small env s limit served enough start
    refine ⟨_, readHwrhdr_bofFile globals fbit table elf small served enough start, ?_⟩
    exact laidOut_bofFile globals fbit table elf (readSymbolFile_counted accepted) small rfl rfl

/-- The line `reg_led 3  0x08800000 0x02` of `gpmc_test_top.sym`. -/
def ledLine : List UInt8 :=
  [114, 101, 103, 95, 108, 101, 100, 32, 51, 32, 32, 48, 120, 48, 56, 56, 48, 48, 48, 48, 48, 32,
    48, 120, 48, 50, 10]

def ledSymbol : Symbol where
  name := [114, 101, 103, 95, 108, 101, 100]
  mode := 3
  loc := 0x08800000
  len := 2
  clean := by simp
  fits := by simp

theorem readSymbolFile_ledLine : readSymbolFile sampleHost ledLine = .ok ⟨[ledSymbol], 8⟩ := by
  rfl

/-- An ELF file that takes more than one block behind its header. -/
def longElf : List UInt8 := List.replicate (EHDR_SIZE + BLOCK_SIZE + 88) 7

theorem longElf_length : longElf.length = 652 := List.length_replicate

/-- A file of one symbol, made of the long ELF file. -/
theorem main_laidOut_led :
    ∃ file, main sampleHost (initialGlobals HAC_RHINO.toUInt32) longElf ledLine [0xaa] =
        .ok file ∧ file.length = 753 ∧
      ∀ (env : RegionEnv Unit) (s : LoadState Unit), env.hdrIo = .upTo HwrHdr.size →
        s.curFoff = (BofHdr.decode file).bHwoff →
        ∃ r, readHwrhdr file env s = .ok r ∧
          LaidOut longElf [0xaa] ⟨[ledSymbol], 8⟩ file r := by
  have elf : EHDR_SIZE ≤ longElf.length := by
    rw [longElf_length]
    decide
  rcases main_laidOut (δ := Unit) (ε := Unit) (initialGlobals HAC_RHINO.toUInt32) longElf [0xaa]
    elf readSymbolFile_ledLine with ⟨file, written, laidOut⟩
  have length_eq : file.length = 753 := by
    rw [main, if_neg (Nat.not_lt.mpr elf), readSymbolFile_ledLine] at written
    rcases Except.ok.inj written with rfl
    rw [bofFile_length _ _ _ elf, longElf_length]
    rfl
  refine ⟨file, written, length_eq, ?_⟩
  intro env s served start
  exact laidOut (by rw [length_eq]; decide) env s HwrHdr.size served (Nat.le_refl _) start

end Rhino.Mkbof
