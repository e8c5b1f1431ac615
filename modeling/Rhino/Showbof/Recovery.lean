import Mathlib.Data.List.Induction
import Rhino.Mkbof.Hosts
import Rhino.Showbof.Core

/-!
# What is recovered of a written file

`mkbof` writes little-endian data and tells the endianness of the ELF file in the
identification; `showbof` believes the identification.  So the fields of a file
come back exactly if the ELF file is little-endian and the region of the file is
found by the 32-bit offsets that lead to it.
-/

namespace Rhino.Showbof

open Rhino.Bof Rhino.Bytes Rhino.Kernel Rhino.Mkbof Rhino.Transition

/-! ## Little-endian data -/

theorem fixEndianHwrhdr_little (order : ByteOrder) {bytes : List UInt8}
    (full : bytes.length = HwrHdr.size) :
    fixEndianHwrhdr order (HwrHdr.decodeOn order bytes) BOFDATA2LSB = HwrHdr.decode bytes :=
  HwrHdr.convert_decodeOn order .little full

theorem fixEndianIoreg_little (order : ByteOrder) {bytes : List UInt8}
    (full : bytes.length = BofIoreg.size) :
    fixEndianIoreg order (BofIoreg.decodeOn order bytes) BOFDATA2LSB = BofIoreg.decode bytes :=
  BofIoreg.convert_decodeOn order .little full

/-- The fields of the header that are converted for printing. -/
structure SameFields (shown written : BofHdr) : Prop where
  bVersion : shown.bVersion = written.bVersion
  bMachine : shown.bMachine = written.bMachine
  bElfmachine : shown.bElfmachine = written.bElfmachine
  bNumchip : shown.bNumchip = written.bNumchip
  bElfoff : shown.bElfoff = written.bElfoff
  bHwoff : shown.bHwoff = written.bHwoff

theorem sameFields_little (order : ByteOrder) (bhdr : BofHdr) :
    SameFields (fixEndianBofhdr order (Mkbof.fixEndianBofhdr order bhdr ELFDATA2LSB) BOFDATA2LSB)
      bhdr := by
  constructor
  · exact ByteOrder.convert32_convert32 order .little _
  · exact ByteOrder.convert16_convert16 order .little _
  · exact ByteOrder.convert16_convert16 order .little _
  · exact ByteOrder.convert32_convert32 order .little _
  · exact ByteOrder.convert32_convert32 order .little _
  · exact ByteOrder.convert32_convert32 order .little _

/-- Taken for big-endian data, the version has its bytes the wrong way round. -/
theorem not_sameFields_big (order : ByteOrder) {bhdr : BofHdr} (version : bhdr.bVersion = 6) :
    ¬ SameFields
      (fixEndianBofhdr order (Mkbof.fixEndianBofhdr order bhdr ELFDATA2LSB) BOFDATA2MSB) bhdr := by
  intro same
  have shown : order.convert32 .big (order.convert32 .little bhdr.bVersion) = bhdr.bVersion :=
    same.bVersion
  rw [version] at shown
  cases order with
  | little => exact absurd shown (by decide)
  | big => exact absurd shown (by decide)

/-! ## Reading -/

theorem fread_eq_some_iff {file : File} {pos size : ℕ} {bytes : List UInt8} :
    fread file pos size = some bytes ↔ slice pos size file = bytes ∧ bytes.length = size := by
  have short : (slice pos size file).length ≤ size := by
    rw [slice_length]
    exact Nat.min_le_left _ _
  unfold fread
  split
  · next lt =>
      simp only [reduceCtorEq, false_iff, not_and]
      rintro rfl
      exact lt.ne
  · next ge =>
      rw [Option.some_inj]
      constructor
      · rintro rfl
        exact ⟨rfl, le_antisymm short (not_lt.mp ge)⟩
      · exact And.left

theorem seek_fread_eq_some_iff {host : Host} {file : File} {offset size : ℕ}
    {bytes : List UInt8} :
    ((fseek host offset).bind fun pos => fread file pos size) = some bytes ↔
      offset ≤ host.ulongMax / 2 ∧ slice offset size file = bytes ∧ bytes.length = size := by
  rw [← fread_eq_some_iff, fseek]
  split
  · next inside => simp [inside]
  · next outside => simp [outside]

section Symbols

variable (order : ByteOrder) (file : File) (base : ℕ)

theorem printSymbol_eq_ok_iff {i : ℕ} {symbols next : List BofIoreg} :
    printSymbol order file BOFDATA2LSB base i symbols = .ok next ↔
      ∃ sym, slice (base + BofIoreg.size * i) BofIoreg.size file = BofIoreg.encode sym ∧
        next = symbols ++ [sym] := by
  unfold printSymbol
  split
  · next short =>
      simp only [reduceCtorEq, false_iff, not_exists, not_and]
      intro sym found
      have read := fread_eq_some_iff.mpr ⟨found, BofIoreg.encode_length sym⟩
      rw [short] at read
      contradiction
  · next bytes read =>
      obtain ⟨found, full⟩ := fread_eq_some_iff.mp read
      rw [fixEndianIoreg_little order full, found]
      constructor
      · rintro taken
        cases taken
        exact ⟨BofIoreg.decode bytes, (BofIoreg.encode_decode full).symm, rfl⟩
      · rintro ⟨sym, same, rfl⟩
        rw [(BofIoreg.decode_eq_iff full).mpr same]

theorem length_of_printed {count : ℕ} {symbols : List BofIoreg}
    (finished : repeatTurns (printSymbol order file BOFDATA2LSB base) [] count = .ok symbols) :
    symbols.length = count := by
  refine repeatTurns_invariant (fun turn symbols => symbols.length = turn) rfl ?_ finished
  intro turn symbols next length taken
  obtain ⟨sym, -, rfl⟩ := (printSymbol_eq_ok_iff order file base).mp taken
  rw [List.length_append, length, List.length_singleton]

/-- The loop prints a list of symbols exactly if the file holds its entries. -/
theorem printed_eq_ok_iff (symbols : List BofIoreg) :
    repeatTurns (printSymbol order file BOFDATA2LSB base) [] symbols.length = .ok symbols ↔
      slice base (BofIoreg.size * symbols.length) file = symbols.flatMap BofIoreg.encode := by
  induction symbols using List.reverseRecOn with
  | nil => simp [repeatTurns, slice]
  | append_singleton symbols sym ih =>
      have split : slice base (BofIoreg.size * symbols.length) file ++
          slice (base + BofIoreg.size * symbols.length) BofIoreg.size file =
            slice base (BofIoreg.size * (symbols ++ [sym]).length) file := by
        rw [slice_append_slice rfl, List.length_append, List.length_singleton, Nat.mul_succ]
      rw [List.length_append, List.length_singleton, repeatTurns_succ_eq_ok_iff,
        ← List.length_singleton (a := sym), ← List.length_append, ← split, List.flatMap_append,
        List.flatMap_singleton]
      constructor
      · rintro ⟨before, reached, taken⟩
        obtain ⟨last, found, same⟩ := (printSymbol_eq_ok_iff order file base).mp taken
        obtain ⟨rfl, rfl⟩ := List.append_singleton_inj.mp same
        rw [ih.mp reached, found]
      · intro whole
        have lengths := congrArg List.length whole
        rw [List.length_append, List.length_append, BofIoreg.length_flatMap_encode,
          BofIoreg.encode_length, slice_length, slice_length,
          Nat.mul_comm BofIoreg.size] at lengths
        obtain ⟨before, last⟩ := List.append_inj' whole (by
          rw [slice_length, BofIoreg.encode_length, Nat.mul_comm BofIoreg.size]
          omega)
        refine ⟨symbols, ih.mpr before, ?_⟩
        exact (printSymbol_eq_ok_iff order file base).mpr ⟨sym, last, rfl⟩

/-- A loop that is left has not printed all of the symbols. -/
theorem settled_printed_iff (symbols : List BofIoreg) :
    settled (repeatTurns (printSymbol order file BOFDATA2LSB base) [] symbols.length) = symbols ↔
      slice base (BofIoreg.size * symbols.length) file = symbols.flatMap BofIoreg.encode := by
  rw [← printed_eq_ok_iff order file base]
  cases ended : repeatTurns (printSymbol order file BOFDATA2LSB base) [] symbols.length with
  | ok printed => rw [settled, Except.ok.injEq]
  | error printed =>
      obtain ⟨turn, lt, state, reached, left⟩ := repeatTurns_eq_error_iff.mp ended
      have same : printed = state := by
        unfold printSymbol at left
        split at left
        · exact (Except.error.inj left).symm
        · contradiction
      have length := length_of_printed order file base reached
      simp only [settled, reduceCtorEq, iff_false]
      rintro rfl
      rw [same, length] at lt
      exact Nat.lt_irrefl _ lt

end Symbols

/-! ## The region -/

/-- The tables of a region are where the program looks for them: there is memory
for the string table, which the file has all of, and the entries of the symbols
stand behind the header. -/
structure SymbolsFound (host : Host) (strtabMem : Bool) (file : File) (hwrFoff : UInt32)
    (region : Region) : Prop where
  memory : strtabMem = true
  strtabSeek : (strtabFoff hwrFoff region.hwrhdr).toNat ≤ host.ulongMax / 2
  strtab : (strtabFoff hwrFoff region.hwrhdr).toNat + (strtabLen region.hwrhdr).toNat ≤ file.length
  symtabSeek : symtabFoff host hwrFoff ≤ host.ulongMax / 2
  symtab : slice (symtabFoff host hwrFoff) (BofIoreg.size * region.symbols.length) file =
    region.symbols.flatMap BofIoreg.encode

/-- A region is at the place that its offset tells. -/
structure RegionFound (host : Host) (strtabMem : Bool) (file : File) (hwrFoff : UInt32)
    (region : Region) : Prop where
  seek : hwrFoff.toNat ≤ host.ulongMax / 2
  hwrhdr : slice hwrFoff.toNat HwrHdr.size file = region.hwrhdr.encode
  symbols : region.symbols ≠ [] → SymbolsFound host strtabMem file hwrFoff region

/-- The header of a region counts its symbols and has room for their names. -/
structure Region.Counted (region : Region) : Prop where
  nrSymbol : region.hwrhdr.nrSymbol.toNat = region.symbols.length
  named : region.symbols ≠ [] → strtabLen region.hwrhdr ≠ 0

section Regions

variable (order : ByteOrder) {host : Host} {file : File} {hwrFoff : UInt32} {region : Region}

theorem settled_printSymbols_iff (counted : region.Counted) {strtabMem : Bool} :
    settled (printSymbols order host file BOFDATA2LSB strtabMem hwrFoff region.hwrhdr) =
        region.symbols ↔
      (region.symbols ≠ [] → SymbolsFound host strtabMem file hwrFoff region) := by
  unfold printSymbols
  split
  · next none =>
      have empty : region.symbols = [] := by
        apply List.eq_nil_of_length_eq_zero
        rw [← counted.nrSymbol, none]
        rfl
      simp [settled, empty]
  · next some =>
      have nonempty : region.symbols ≠ [] := by
        intro empty
        have zero := counted.nrSymbol
        rw [empty] at zero
        exact some (UInt32.toNat_inj.mp zero)
      -- As long as nothing has been printed, something is missing.
      have nothing {P : Prop} (missing : ¬ P) :
          settled (.error [] : Except (List BofIoreg) (List BofIoreg)) = region.symbols ↔
            (region.symbols ≠ [] → P) := by
        constructor
        · intro empty
          exact absurd empty.symm nonempty
        · intro found
          exact absurd (found nonempty) missing
      split
      · next failed =>
          apply nothing
          intro found
          rcases failed with empty | noMemory
          · exact counted.named nonempty empty
          · rw [found.memory] at noMemory
            contradiction
      · next memory =>
          rw [not_or, Bool.not_eq_false] at memory
          split
          · next unread =>
              apply nothing
              intro found
              have read := seek_fread_eq_some_iff.mpr ⟨found.strtabSeek, rfl, by
                rw [slice_length]
                exact Nat.min_eq_left (Nat.le_sub_of_add_le' found.strtab)⟩
              rw [unread] at read
              contradiction
          · next strtab read =>
              obtain ⟨strtabSeek, rfl, full⟩ := seek_fread_eq_some_iff.mp read
              split
              · next outside =>
                  apply nothing
                  intro found
                  rw [fseek, if_pos found.symtabSeek] at outside
                  contradiction
              · next base inside =>
                  unfold fseek at inside
                  split at inside
                  · next symtabSeek =>
                      cases inside
                      rw [counted.nrSymbol, settled_printed_iff]
                      constructor
                      · intro symtab _
                        refine ⟨memory.2, strtabSeek, ?_, symtabSeek, symtab⟩
                        have positive := UInt32.toNat_inj.not.mpr memory.1
                        rw [slice_length] at full
                        change _ ≠ 0 at positive
                        omega
                      · intro found
                        exact (found nonempty).symtab
                  · contradiction

/-- The only region of a file is printed as it is exactly if it is found. -/
theorem settled_printRegion_iff (counted : region.Counted) (env : ShowEnv) :
    (settled (printRegion order host file BOFDATA2LSB env 0 ⟨hwrFoff, []⟩)).regions = [region] ↔
      RegionFound host (env.strtabMem 0) file hwrFoff region := by
  unfold printRegion
  split
  · next unread =>
      simp only [settled, List.nil_eq, reduceCtorEq, false_iff]
      intro found
      have read := seek_fread_eq_some_iff.mpr
        ⟨found.seek, found.hwrhdr, HwrHdr.encode_length _⟩
      dsimp only at unread
      rw [unread] at read
      contradiction
  · next bytes read =>
      obtain ⟨seek, found, full⟩ := seek_fread_eq_some_iff.mp read
      rw [fixEndianHwrhdr_little order full]
      dsimp only at found ⊢
      -- However the turn ends, it has printed the header and the symbols.
      have printed (symbols : List BofIoreg)
          (ended : settled (printSymbols order host file BOFDATA2LSB (env.strtabMem 0) hwrFoff
            (HwrHdr.decode bytes)) = symbols) :
          [Region.mk (HwrHdr.decode bytes) symbols] = [region] ↔
            RegionFound host (env.strtabMem 0) file hwrFoff region := by
        rw [List.singleton_inj]
        constructor
        · rintro rfl
          exact ⟨seek, found.trans (HwrHdr.encode_decode full).symm,
            (settled_printSymbols_iff order counted).mp ended⟩
        · intro regionFound
          have hwrhdr : HwrHdr.decode bytes = region.hwrhdr :=
            (HwrHdr.decode_eq_iff full).mpr (found.symm.trans regionFound.hwrhdr)
          rw [hwrhdr] at ended ⊢
          rw [← ended, (settled_printSymbols_iff order counted).mpr regionFound.symbols]
      split
      · next symbols left =>
          exact printed symbols (by rw [left, settled])
      · next symbols finished =>
          split
          · exact printed symbols (by rw [finished, settled])
          · exact printed symbols (by rw [finished, settled])

end Regions

theorem printHWR_regions (order : ByteOrder) (host : Host) (file : File) (fendian : UInt8)
    (env : ShowEnv) (bhdr : BofHdr) :
    (printHWR order host file fendian env bhdr).2 =
      (settled (repeatTurns (printRegion order host file fendian env) ⟨bhdr.bHwoff, []⟩
        bhdr.bNumchip.toNat)).regions := by
  unfold printHWR
  split
  · next left => rw [left, settled]
  · next finished => rw [finished, settled]

/-! ## The file -/

/-- The headers and the symbols come back as they were before they were
written. -/
def Recovers (shown : Option Shown) (bhdr : BofHdr) (region : Region) : Prop :=
  ∃ s, shown = some s ∧ SameFields s.bhdr bhdr ∧ s.regions = [region]

/-- The region of the file as it is computed before it is written. -/
def madeRegion (globals : Globals) (felf fbit : List UInt8) (table : Symtab) : Region where
  hwrhdr := makeHwrhdr globals felf.length fbit.length table
  symbols := symtabEntries 0 table.symtab

section Written

variable (order : ByteOrder) (host : Host) (globals : Globals) (felf fbit : List UInt8)
  {table : Symtab}

theorem strtabLen_makeHwrhdr (elfSize bitfileSize : ℕ) (table : Symtab) :
    strtabLen (makeHwrhdr globals elfSize bitfileSize table) = table.strtabSize := by
  rw [strtabLen, makeHwrhdr, UInt32.add_comm, UInt32.add_sub_cancel]

theorem toNat_strtabLen (counted : table.Counted) :
    (strtabLen (makeHwrhdr globals felf.length fbit.length table)).toNat =
      (writeStrtab table.symtab).length := by
  have bound := (writeStrtab_length_le table.symtab).2
  have numsym := counted.numsym
  rw [SYMTAB_SIZE] at numsym
  rw [strtabLen_makeHwrhdr, counted.strtabSize, Symtab.strtab, ← writeStrtab_eq,
    UInt32.toNat_ofNat']
  omega

theorem counted_madeRegion (counted : table.Counted) :
    (madeRegion globals felf fbit table).Counted := by
  constructor
  · have numsym := counted.numsym
    rw [SYMTAB_SIZE] at numsym
    rw [madeRegion, symtabEntries_length, makeHwrhdr, UInt32.toNat_ofNat']
    omega
  · intro nonempty zero
    have length := toNat_strtabLen globals felf fbit counted
    rw [madeRegion] at nonempty zero
    rw [zero] at length
    cases symtab_eq : table.symtab with
    | nil =>
        rw [symtab_eq] at nonempty
        exact nonempty rfl
    | cons sym rest =>
        rw [symtab_eq, writeStrtab, List.flatMap_cons, List.length_append,
          List.length_append, List.length_singleton] at length
        change 0 = _ at length
        omega

/-- The identification has the endianness of the ELF file. -/
theorem endian_makeBofhdrOn :
    (makeBofhdrOn order globals (felf.take EHDR_SIZE) felf.length).ident.getD BI_ENDIAN 0 =
      felf.getD BI_ENDIAN 0 := by
  change (felf.take EHDR_SIZE).getD BI_ENDIAN 0 = felf.getD BI_ENDIAN 0
  rw [List.getD_eq_getElem?_getD, List.getD_eq_getElem?_getD,
    List.getElem?_take_of_lt (by decide)]

/-- The header of a written file, converted once to write it and once to show it. -/
def shownBofhdr (fendian : UInt8) : BofHdr :=
  fixEndianBofhdr order (Mkbof.fixEndianBofhdr order
    (makeBofhdrOn order globals (felf.take EHDR_SIZE) felf.length) ELFDATA2LSB) fendian

theorem fread_bofFileOn (table : Symtab) :
    fread (bofFileOn order globals felf fbit table) 0 BofHdr.size =
      some (bofhdrBytes order globals (felf.take EHDR_SIZE) felf.length) := by
  have length := bofhdrBytes_length order globals (felf.take EHDR_SIZE) felf.length
  have front := slice_zero_append (bofhdrBytes order globals (felf.take EHDR_SIZE) felf.length)
    ((bofParts globals felf fbit table).drop 1).flatten
  rw [length] at front
  rw [bofFileOn_eq]
  exact fread_eq_some_iff.mpr ⟨front, length⟩

theorem decodeOn_bofhdrBytes :
    BofHdr.decodeOn order (bofhdrBytes order globals (felf.take EHDR_SIZE) felf.length) =
      Mkbof.fixEndianBofhdr order
        (makeBofhdrOn order globals (felf.take EHDR_SIZE) felf.length) ELFDATA2LSB := by
  rw [bofhdrBytes, ← List.append_nil (BofHdr.encodeOn _ _)]
  exact BofHdr.decodeOn_encodeOn_append order _ rfl []

/-- What `main` shows of a written file, by the endianness of the ELF file. -/
theorem main_bofFileOn (env : ShowEnv) (table : Symtab) {fendian : UInt8}
    (endian : felf.getD BI_ENDIAN 0 = fendian) :
    (main order host env (bofFileOn order globals felf fbit table)).2 =
      if fendian ≠ BOFDATA2LSB ∧ fendian ≠ BOFDATA2MSB then none
      else some ⟨shownBofhdr order globals felf fendian,
        (printHWR order host (bofFileOn order globals felf fbit table) fendian env
          (shownBofhdr order globals felf fendian)).2⟩ := by
  have found : (Mkbof.fixEndianBofhdr order (makeBofhdrOn order globals
      (felf.take EHDR_SIZE) felf.length) ELFDATA2LSB).ident.getD BI_ENDIAN 0 = fendian :=
    (endian_makeBofhdrOn order globals felf).trans endian
  unfold main
  rw [fread_bofFileOn]
  dsimp only
  rw [decodeOn_bofhdrBytes, found, if_neg (fun other => other rfl)]
  split
  · rfl
  · rfl

/-- The file is shown as it was made exactly if the ELF file is little-endian and
the region is found. -/
theorem recovers_bofFileOn_iff (env : ShowEnv) (counted : table.Counted) :
    Recovers (main order host env (bofFileOn order globals felf fbit table)).2
        (makeBofhdrOn order globals (felf.take EHDR_SIZE) felf.length)
        (madeRegion globals felf fbit table) ↔
      felf.getD BI_ENDIAN 0 = ELFDATA2LSB ∧
        RegionFound host (env.strtabMem 0) (bofFileOn order globals felf fbit table)
          (UInt32.ofNat (felf.length + EHDR_SIZE)) (madeRegion globals felf fbit table) := by
  by_cases little : felf.getD BI_ENDIAN 0 = ELFDATA2LSB
  · have same : SameFields (shownBofhdr order globals felf BOFDATA2LSB)
        (makeBofhdrOn order globals (felf.take EHDR_SIZE) felf.length) := sameFields_little order _
    have once := printHWR_regions order host (bofFileOn order globals felf fbit table)
      BOFDATA2LSB env (shownBofhdr order globals felf BOFDATA2LSB)
    rw [same.bNumchip, same.bHwoff] at once
    have regions : (printHWR order host (bofFileOn order globals felf fbit table)
        BOFDATA2LSB env (shownBofhdr order globals felf BOFDATA2LSB)).2 =
          [madeRegion globals felf fbit table] ↔
        RegionFound host (env.strtabMem 0) (bofFileOn order globals felf fbit table)
          (UInt32.ofNat (felf.length + EHDR_SIZE)) (madeRegion globals felf fbit table) := by
      rw [once]
      exact settled_printRegion_iff order (counted_madeRegion globals felf fbit counted) env
    rw [main_bofFileOn order host globals felf fbit env table little, if_neg (by decide)]
    constructor
    · rintro ⟨s, shown, -, printed⟩
      cases shown
      exact ⟨little, regions.mp printed⟩
    · rintro ⟨-, found⟩
      exact ⟨_, rfl, same, regions.mpr found⟩
  · constructor
    · rintro ⟨s, shown, same, -⟩
      rw [main_bofFileOn order host globals felf fbit env table rfl] at shown
      split at shown
      · contradiction
      · next known =>
          have big : felf.getD BI_ENDIAN 0 = BOFDATA2MSB := by
            by_contra other
            exact known ⟨little, other⟩
          cases shown
          rw [big] at same
          exact absurd same (not_sameFields_big order rfl)
    · intro found
      exact absurd found.1 little

/-- As long as the offsets of the file fit their fields, its region is found. -/
theorem regionFound_bofFileOn {strtabMem : Bool} (elf : EHDR_SIZE ≤ felf.length)
    (counted : table.Counted)
    (small : (bofFileOn order globals felf fbit table).length < 2 ^ 32)
    (seekable : (bofFileOn order globals felf fbit table).length ≤ host.ulongMax / 2)
    (memory : table.symtab ≠ [] → strtabMem = true) :
    RegionFound host strtabMem (bofFileOn order globals felf fbit table)
      (UInt32.ofNat (felf.length + EHDR_SIZE)) (madeRegion globals felf fbit table) := by
  have length_eq := bofFile_length globals fbit table elf
  rw [← bofFileOn_length order] at length_eq
  have hwrFoff : (UInt32.ofNat (felf.length + EHDR_SIZE)).toNat = felf.length + EHDR_SIZE := by
    rw [UInt32.toNat_ofNat']
    omega
  have strtabFoff_eq : (strtabFoff (UInt32.ofNat (felf.length + EHDR_SIZE))
      (madeRegion globals felf fbit table).hwrhdr).toNat =
        felf.length + EHDR_SIZE + HwrHdr.size + table.symtab.length * BofIoreg.size := by
    rw [strtabFoff, madeRegion, makeHwrhdr, ← UInt32.ofNat_add, ← UInt32.ofNat_mul,
      ← UInt32.ofNat_add, UInt32.toNat_ofNat']
    omega
  have symtabFoff_eq : symtabFoff host (UInt32.ofNat (felf.length + EHDR_SIZE)) =
      felf.length + EHDR_SIZE + HwrHdr.size := by
    rw [symtabFoff, hwrFoff]
    apply Nat.mod_eq_of_lt
    omega
  constructor
  · omega
  · rw [hwrFoff, slice_bofFileOn order globals felf fbit table (Nat.le_add_left _ _)]
    apply slice_bofFile globals fbit table elf (k := 3) rfl _ (HwrHdr.encode_length _).symm
    simp only [List.take_succ_cons, List.take_zero, List.sum_cons, List.sum_nil]
    omega
  · intro nonempty
    constructor
    · apply memory
      rintro empty
      rw [madeRegion, empty] at nonempty
      exact nonempty rfl
    · omega
    · rw [strtabFoff_eq, madeRegion, toNat_strtabLen globals felf fbit counted]
      omega
    · omega
    · rw [symtabFoff_eq, slice_bofFileOn order globals felf fbit table (by omega)]
      apply slice_bofFile globals fbit table elf (k := 4) rfl
      · simp only [List.take_succ_cons, List.take_zero, List.sum_cons, List.sum_nil]
        omega
      · rw [writeSymtab_length, madeRegion, symtabEntries_length, Nat.mul_comm]

end Written

/-- Whatever ELF file, symbol file and bit file `mkbof` accepts, on a host of
either byte order: `showbof` recovers every field of the file exactly if the ELF
file is little-endian and the region is found by the 32-bit offsets that lead to
it, as it is in every file of less than 4 GiB that the host can seek in. -/
theorem main_recovers_iff (order : ByteOrder) (host : Host) (globals : Globals)
    (felf fsym fbit : List UInt8) (env : ShowEnv) {table : Symtab}
    (elf : EHDR_SIZE ≤ felf.length) (accepted : readSymbolFile host fsym = .ok table) :
    ∃ file, mainOn order host globals felf fsym fbit = .ok file ∧
      (Recovers (main order host env file).2
          (makeBofhdrOn order globals (felf.take EHDR_SIZE) felf.length)
          (madeRegion globals felf fbit table) ↔
        felf.getD BI_ENDIAN 0 = ELFDATA2LSB ∧
          RegionFound host (env.strtabMem 0) file (UInt32.ofNat (felf.length + EHDR_SIZE))
            (madeRegion globals felf fbit table)) ∧
      (file.length < 2 ^ 32 → file.length ≤ host.ulongMax / 2 →
        (table.symtab ≠ [] → env.strtabMem 0 = true) →
        RegionFound host (env.strtabMem 0) file (UInt32.ofNat (felf.length + EHDR_SIZE))
          (madeRegion globals felf fbit table)) := by
  have counted := readSymbolFile_counted accepted
  refine ⟨bofFileOn order globals felf fbit table, ?_, ?_, ?_⟩
  · rw [mainOn, if_neg (Nat.not_lt.mpr elf), accepted]
  · exact recovers_bofFileOn_iff order host globals felf fbit env counted
  · exact regionFound_bofFileOn order host globals felf fbit elf counted

/-- The header of an ELF file of the given endianness, and nothing else. -/
def bareElf (endian : UInt8) : List UInt8 :=
  List.replicate 5 0 ++ endian :: List.replicate 46 0

/-- An environment in which nothing goes wrong. -/
def calmShow : ShowEnv where
  strtabMem := fun _ => true
  payload := fun _ => true

/-- The fields of a file with one symbol come back for a little-endian ELF file. -/
theorem main_recovers_led :
    ∃ file, mainOn .big sampleHost (initialGlobals HAC_RHINO.toUInt32) (bareElf ELFDATA2LSB)
        ledLine [0xaa] = .ok file ∧
      Recovers (main .big sampleHost calmShow file).2
        (makeBofhdrOn .big (initialGlobals HAC_RHINO.toUInt32) (bareElf ELFDATA2LSB) 52)
        (madeRegion (initialGlobals HAC_RHINO.toUInt32) (bareElf ELFDATA2LSB) [0xaa]
          ⟨[ledSymbol], 8⟩) := by
  obtain ⟨file, written, recovers, found⟩ := main_recovers_iff .big sampleHost
    (initialGlobals HAC_RHINO.toUInt32) (bareElf ELFDATA2LSB) ledLine [0xaa] calmShow
    (by decide) readSymbolFile_ledLine
  have length : file.length = 153 := by
    cases written
    rfl
  refine ⟨file, written, recovers.mpr ⟨rfl, ?_⟩⟩
  apply found
  · rw [length]
    decide
  · rw [length]
    decide
  · intro _
    rfl

/-- A big-endian ELF file is accepted, and the fields of the file that is written
do not come back. -/
theorem big_endian_not_recovered :
    ∃ file, mainOn .little sampleHost (initialGlobals HAC_RHINO.toUInt32) (bareElf ELFDATA2MSB)
        ledLine [0xaa] = .ok file ∧
      ¬ Recovers (main .little sampleHost calmShow file).2
        (makeBofhdrOn .little (initialGlobals HAC_RHINO.toUInt32) (bareElf ELFDATA2MSB) 52)
        (madeRegion (initialGlobals HAC_RHINO.toUInt32) (bareElf ELFDATA2MSB) [0xaa]
          ⟨[ledSymbol], 8⟩) := by
  have accepted := readSymbolFile_ledLine
  refine ⟨bofFileOn .little (initialGlobals HAC_RHINO.toUInt32) (bareElf ELFDATA2MSB) [0xaa]
    ⟨[ledSymbol], 8⟩, ?_, ?_⟩
  · rw [mainOn, if_neg (by decide), accepted]
  · intro recovers
    have little := ((recovers_bofFileOn_iff .little sampleHost _ (bareElf ELFDATA2MSB) [0xaa]
      calmShow (readSymbolFile_counted accepted)).mp recovers).1
    exact absurd little (by decide)

end Rhino.Showbof
