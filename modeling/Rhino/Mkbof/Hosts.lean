import Rhino.Bof.Memory
import Rhino.Mkbof.Layout

/-!
# Writing a BOF file on a host of either byte order

`main` of `tools/borph/mkbof.c` writes its structures from memory, after
`FixEndian_bofhdr`, `FixEndian_hwrhdr` and `FixEndian_ioreg` have converted their
fields.  The endianness of the ELF file is kept for the identification only: the
conversions are always called for little-endian data.

So the file does not depend on the host but for the padding of its header, which
is not converted, and the ELF machine, which is read in the order of the host.
-/

namespace Rhino.Mkbof

open Rhino.Bof Rhino.Bytes Rhino.Kernel

def ELFDATA2LSB : UInt8 := 1

def ELFDATA2MSB : UInt8 := 2

/-! ## Conversions -/

/-- `FixEndian_bofhdr`.  The branch for big-endian data converts the ELF machine
as the other one does. -/
def fixEndianBofhdr (order : ByteOrder) (bhdr : BofHdr) (oendian : UInt8) : BofHdr :=
  if oendian = ELFDATA2LSB then
    { bhdr with
      bVersion := order.convert32 .little bhdr.bVersion
      bMachine := order.convert16 .little bhdr.bMachine
      bElfmachine := order.convert16 .little bhdr.bElfmachine
      bNumchip := order.convert32 .little bhdr.bNumchip
      bElfoff := order.convert32 .little bhdr.bElfoff
      bHwoff := order.convert32 .little bhdr.bHwoff
      bEkver := order.convert32 .little bhdr.bEkver }
  else if oendian = ELFDATA2MSB then
    { bhdr with
      bVersion := order.convert32 .big bhdr.bVersion
      bMachine := order.convert16 .big bhdr.bMachine
      bElfmachine := order.convert16 .little bhdr.bElfmachine
      bNumchip := order.convert32 .big bhdr.bNumchip
      bElfoff := order.convert32 .big bhdr.bElfoff
      bHwoff := order.convert32 .big bhdr.bHwoff
      bEkver := order.convert32 .big bhdr.bEkver }
  else bhdr

/-- `FixEndian_hwrhdr`. -/
def fixEndianHwrhdr (order : ByteOrder) (hwrhdr : HwrHdr) (oendian : UInt8) : HwrHdr :=
  if oendian = ELFDATA2LSB then hwrhdr.convert order .little
  else if oendian = ELFDATA2MSB then hwrhdr.convert order .big
  else hwrhdr

/-- `FixEndian_ioreg`. -/
def fixEndianIoreg (order : ByteOrder) (ior : BofIoreg) (oendian : UInt8) : BofIoreg :=
  if oendian = ELFDATA2LSB then ior.convert order .little
  else if oendian = ELFDATA2MSB then ior.convert order .big
  else ior

/-! ## The file -/

/-- The header of the file as it is computed on the host. -/
def makeBofhdrOn (order : ByteOrder) (globals : Globals) (ehdr : List UInt8) (elfSize : ℕ) :
    BofHdr :=
  { makeBofhdr globals ehdr elfSize with bElfmachine := order.at16 ehdr 18 }

/-- The header of the file as it is written. -/
def bofhdrBytes (order : ByteOrder) (globals : Globals) (ehdr : List UInt8) (elfSize : ℕ) :
    List UInt8 :=
  (fixEndianBofhdr order (makeBofhdrOn order globals ehdr elfSize) ELFDATA2LSB).encodeOn order

/-- `WriteSymtab`, which does not look at the endianness it is given. -/
def writeSymtabOn (order : ByteOrder) (symtab : List Symbol) : List UInt8 :=
  (symtabEntries 0 symtab).flatMap fun ior =>
    (fixEndianIoreg order ior ELFDATA2LSB).encodeOn order

/-- The file that is written once the symbols have been read. -/
def bofFileOn (order : ByteOrder) (globals : Globals) (felf fbit : List UInt8)
    (table : Symtab) : File :=
  let ehdr := felf.take EHDR_SIZE
  bofhdrBytes order globals ehdr felf.length ++
    (copyRemainFile felf.length (felf.drop EHDR_SIZE) ++
      (ehdr ++
        ((fixEndianHwrhdr order (makeHwrhdr globals felf.length fbit.length table)
          ELFDATA2LSB).encodeOn order ++
          (writeSymtabOn order table.symtab ++
            (writeStrtab table.symtab ++ copyRemainFile fbit.length fbit)))))

/-- `main`. -/
def mainOn (order : ByteOrder) (host : Host) (globals : Globals) (felf fsym fbit : List UInt8) :
    Except Failure File :=
  if felf.length < EHDR_SIZE then .error .elf
  else
    match readSymbolFile host fsym with
    | .error error => .error (.symbols error)
    | .ok table => .ok (bofFileOn order globals felf fbit table)

/-! ## What does not depend on the host -/

theorem writeSymtabOn_eq (order : ByteOrder) (symtab : List Symbol) :
    writeSymtabOn order symtab = writeSymtab symtab := by
  unfold writeSymtabOn writeSymtab
  apply List.flatMap_congr
  intro ior _
  exact ior.encodeOn_convert order .little

section Hosts

variable (order : ByteOrder) (globals : Globals) (felf fbit : List UInt8) (table : Symtab)

/-- The parts behind the header of the file. -/
theorem bofFileOn_eq : bofFileOn order globals felf fbit table =
    bofhdrBytes order globals (felf.take EHDR_SIZE) felf.length ++
      ((bofParts globals felf fbit table).drop 1).flatten := by
  have hwr : (fixEndianHwrhdr order (makeHwrhdr globals felf.length fbit.length table)
      ELFDATA2LSB).encodeOn order = (makeHwrhdr globals felf.length fbit.length table).encode :=
    HwrHdr.encodeOn_convert order .little _
  rw [bofFileOn, hwr, writeSymtabOn_eq, copyRemainFile_eq (Nat.le_refl _), copyRemainFile_eq]
  · simp [bofParts]
  · rw [List.length_drop]
    exact Nat.sub_le _ _

theorem bofhdrBytes_length (ehdr : List UInt8) (elfSize : ℕ) :
    (bofhdrBytes order globals ehdr elfSize).length = EHDR_SIZE :=
  BofHdr.encodeOn_length order _ rfl

theorem bofFileOn_little : bofFileOn .little globals felf fbit table =
    bofFile globals felf fbit table := by
  rw [bofFileOn_eq, bofFile_eq]
  rfl

/-- Behind its header, the file is the one that a little-endian host writes. -/
theorem slice_bofFileOn {offset : ℕ} (behind : EHDR_SIZE ≤ offset) (count : ℕ) :
    slice offset count (bofFileOn order globals felf fbit table) =
      slice offset count (bofFile globals felf fbit table) := by
  have same (order : ByteOrder) : slice offset count (bofFileOn order globals felf fbit table) =
      slice (offset - EHDR_SIZE) count ((bofParts globals felf fbit table).drop 1).flatten := by
    rw [bofFileOn_eq, slice_append_right, bofhdrBytes_length]
    rw [bofhdrBytes_length]
    exact behind
  rw [← bofFileOn_little, same, same]

theorem bofFileOn_length :
    (bofFileOn order globals felf fbit table).length =
      (bofFile globals felf fbit table).length := by
  rw [← bofFileOn_little, bofFileOn_eq, bofFileOn_eq, List.length_append, List.length_append,
    bofhdrBytes_length, bofhdrBytes_length]

end Hosts

end Rhino.Mkbof
