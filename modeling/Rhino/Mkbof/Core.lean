import Rhino.Bof.Format
import Rhino.Kernel.File
import Rhino.Mkbof.Symbols

/-!
# Writing a BOF file

`main` of `tools/borph/mkbof.c` with the functions that it writes the file
with, on a little-endian host and without I/O errors.  The file starts with the
BOF header, which takes the place of the ELF header; the rest of the ELF file
keeps its offsets.  Behind it come the ELF header, the header of the only
region, the symbol table, the string table and the bit file.
-/

namespace Rhino.Mkbof

open Rhino.Bof Rhino.Bytes Rhino.Kernel

/-- The globals that `Initialize` sets besides the files. -/
structure Globals where
  sPlaced : Bool
  sPlacedloc : UInt32
  sNoconfig : Bool
  gEkver : UInt32
  gAddrClass : UInt32
  deriving DecidableEq, Repr

/-- What `Initialize` leaves in them; only the class can be chosen. -/
def initialGlobals (addrClass : UInt32) : Globals where
  sPlaced := false
  sPlacedloc := 0
  sNoconfig := false
  gEkver := 0x0000e001
  gAddrClass := addrClass

/-- `sizeof(Elf32_Ehdr)`. -/
def EHDR_SIZE : ℕ := 52

/-- `copy_remain_file`, which copies block by block until `fread` returns
nothing. -/
def copyRemainFile : ℕ → List UInt8 → List UInt8
  | 0, _ => []
  | turns + 1, fromfile =>
      match fromfile.take BLOCK_SIZE with
      | [] => []
      | block => block ++ copyRemainFile turns (fromfile.drop BLOCK_SIZE)

/-- A file has at most as many blocks as bytes, and copying it copies it all. -/
theorem copyRemainFile_eq {turns : ℕ} {fromfile : List UInt8} (enough : fromfile.length ≤ turns) :
    copyRemainFile turns fromfile = fromfile := by
  induction turns generalizing fromfile with
  | zero => exact (List.eq_nil_of_length_eq_zero (Nat.le_zero.mp enough)).symm
  | succ turns ih =>
      cases fromfile with
      | nil => rfl
      | cons byte rest =>
          have shorter : (List.drop BLOCK_SIZE (byte :: rest)).length ≤ turns := by
            simp only [List.length_drop, List.length_cons, BLOCK_SIZE] at enough ⊢
            omega
          change List.take BLOCK_SIZE (byte :: rest) ++ copyRemainFile turns _ = _
          rw [ih shorter, List.take_append_drop]

/-! ## The tables -/

/-- The loop of `WriteSymtab`.  The running offset of the names has 16 bits, and
so has the mode of an entry. -/
def symtabEntries (strtabOff : UInt16) : List Symbol → List BofIoreg
  | [] => []
  | sym :: rest =>
      { name := strtabOff
        mode := sym.mode.toUInt16
        loc := sym.loc
        len := sym.len } ::
        symtabEntries (strtabOff + UInt16.ofNat (sym.name.length + 1)) rest

/-- `WriteSymtab`. -/
def writeSymtab (symtab : List Symbol) : List UInt8 :=
  (symtabEntries 0 symtab).flatMap BofIoreg.encode

/-- `WriteStrtab`. -/
def writeStrtab (symtab : List Symbol) : List UInt8 :=
  symtab.flatMap fun sym => sym.name ++ [0]

theorem writeStrtab_eq (symtab : List Symbol) :
    writeStrtab symtab = stringTable (symtab.map Symbol.name) := by
  induction symtab with
  | nil => rfl
  | cons sym rest ih =>
      rw [writeStrtab] at ih ⊢
      simp [stringTable, ih]

/-- The string table of an accepted symbol file. -/
theorem writeStrtab_length_le (symtab : List Symbol) :
    symtab.length ≤ (writeStrtab symtab).length ∧
      (writeStrtab symtab).length ≤ 256 * symtab.length := by
  induction symtab with
  | nil => exact ⟨le_rfl, le_rfl⟩
  | cons sym rest ih =>
      have fits := sym.fits
      simp only [writeStrtab, List.flatMap_cons, List.length_append, List.length_cons,
        List.length_nil] at ih ⊢
      omega

/-! ## The headers -/

def HAC_ROACHV5 : UInt32 := 0x3

def HAC_NETFPGA : UInt32 := 0x4

def HAC_MOLERAD : UInt32 := 0x6

def BM_BEE2 : UInt16 := 2

def BM_ROACH : UInt16 := 3

def BM_NETFPGA : UInt16 := 4

def BM_RHINO : UInt16 := 5

def BM_MOLERAD : UInt16 := 6

def bMachine (addrClass : UInt32) : UInt16 :=
  if addrClass = HAC_NETFPGA then BM_NETFPGA
  else if addrClass = HAC_ROACHV5 then BM_ROACH
  else if addrClass = HAC_RHINO.toUInt32 then BM_RHINO
  else if addrClass = HAC_MOLERAD then BM_MOLERAD
  else BM_BEE2

/-- The identification, with the endianness of the ELF file at `BI_ENDIAN`. -/
def ident (ehdr : List UInt8) : List UInt8 :=
  [0x19, 66, 79, 70, 0, ehdr.getD 5 0, 0, 0, 0, 0, 0, 0, 0, 0, 0, 0]

/-- The header of the file. -/
def makeBofhdr (globals : Globals) (ehdr : List UInt8) (elfSize : ℕ) : BofHdr where
  ident := ident ehdr
  bVersion := 6
  bMachine := bMachine globals.gAddrClass
  bElfmachine := u16At ehdr 18
  bNumchip := 1
  bElfoff := UInt32.ofNat elfSize
  bHwoff := UInt32.ofNat (elfSize + EHDR_SIZE)
  loadErr := 0
  bEkver := globals.gEkver
  pad0 := 0xA5368120
  pad1 := 0xA5368121

/-- The header of the region. -/
def makeHwrhdr (globals : Globals) (elfSize bitfileSize : ℕ) (table : Symtab) : HwrHdr :=
  let strtabOff := UInt32.ofNat
    (elfSize + EHDR_SIZE + HwrHdr.size + table.symtab.length * BofIoreg.size)
  { flag := (if globals.sPlaced then HFG_PLACED else 0) |||
      (if globals.sNoconfig then HFG_NOCONFIG else 0)
    addr := ⟨globals.gAddrClass.toUInt16,
      if globals.sPlaced then globals.sPlacedloc.toUInt16 else 0⟩
    plOff := strtabOff + table.strtabSize
    plLen := UInt32.ofNat bitfileSize
    nrSymbol := UInt32.ofNat table.symtab.length
    strtabOff := strtabOff
    nextHwr := 0 }

/-! ## The file -/

/-- Why no file is written. -/
inductive Failure where
  | elf
  | symbols (error : SymbolError)
  deriving DecidableEq, Repr

/-- The file that is written once the symbols have been read. -/
def bofFile (globals : Globals) (felf fbit : List UInt8) (table : Symtab) : File :=
  let ehdr := felf.take EHDR_SIZE
  (makeBofhdr globals ehdr felf.length).encode ++
    (copyRemainFile felf.length (felf.drop EHDR_SIZE) ++
      (ehdr ++
        ((makeHwrhdr globals felf.length fbit.length table).encode ++
          (writeSymtab table.symtab ++
            (writeStrtab table.symtab ++ copyRemainFile fbit.length fbit)))))

/-- `main`. -/
def main (host : Host) (globals : Globals) (felf fsym fbit : List UInt8) :
    Except Failure File :=
  if felf.length < EHDR_SIZE then .error .elf
  else
    match readSymbolFile host fsym with
    | .error error => .error (.symbols error)
    | .ok table => .ok (bofFile globals felf fbit table)

end Rhino.Mkbof
