import Rhino.Bof.Memory
import Rhino.Kernel.File
import Rhino.Mkbof.Symbols
import Rhino.Transition.Fallible

/-!
# Showing a BOF file

`tools/borph/showbof.c` prints the headers and the symbols of a BOF file.  It
reads its structures into memory and converts them there, in the byte order that
the identification of the file tells.  An error in the region part ends the
program, which has then printed what came before.

The model keeps the structures that have been converted for printing, not the
texts that are made of them.  The payload, of which the program prints some
text, matters only as far as it can end the program.
-/

namespace Rhino.Showbof

open Rhino.Bof Rhino.Bytes Rhino.Kernel Rhino.Mkbof Rhino.Transition

def BI_ENDIAN : ℕ := 5

def BOFDATA2LSB : UInt8 := 1

def BOFDATA2MSB : UInt8 := 2

/-! ## Conversions -/

/-- `FixEndian_bofhdr`. -/
def fixEndianBofhdr (order : ByteOrder) (bhdr : BofHdr) (fendian : UInt8) : BofHdr :=
  let convert (file : ByteOrder) : BofHdr :=
    { bhdr with
      bVersion := order.convert32 file bhdr.bVersion
      bMachine := order.convert16 file bhdr.bMachine
      bElfmachine := order.convert16 file bhdr.bElfmachine
      bNumchip := order.convert32 file bhdr.bNumchip
      bElfoff := order.convert32 file bhdr.bElfoff
      bHwoff := order.convert32 file bhdr.bHwoff }
  if fendian = BOFDATA2LSB then convert .little
  else if fendian = BOFDATA2MSB then convert .big
  else bhdr

/-- `FixEndian_hwrhdr`. -/
def fixEndianHwrhdr (order : ByteOrder) (hwrhdr : HwrHdr) (fendian : UInt8) : HwrHdr :=
  if fendian = BOFDATA2LSB then hwrhdr.convert order .little
  else if fendian = BOFDATA2MSB then hwrhdr.convert order .big
  else hwrhdr

/-- `FixEndian_ioreg`. -/
def fixEndianIoreg (order : ByteOrder) (ior : BofIoreg) (fendian : UInt8) : BofIoreg :=
  if fendian = BOFDATA2LSB then ior.convert order .little
  else if fendian = BOFDATA2MSB then ior.convert order .big
  else ior

/-! ## Reading and printing -/

/-- A region with the symbols that have been printed for it. -/
structure Region where
  hwrhdr : HwrHdr
  symbols : List BofIoreg
  deriving DecidableEq

/-- What has been printed. -/
structure Shown where
  bhdr : BofHdr
  regions : List Region
  deriving DecidableEq

/-- What the program meets in the turns of its region loop: whether `malloc`
returns memory for the string table, and whether the payload can be shown. -/
structure ShowEnv where
  strtabMem : ℕ → Bool
  payload : ℕ → Bool

/-- `fseek`, which refuses what is negative as a `long`. -/
def fseek (host : Host) (offset : ℕ) : Option ℕ :=
  if offset ≤ host.ulongMax / 2 then some offset else none

/-- `fread` of one item. -/
def fread (file : File) (pos size : ℕ) : Option (List UInt8) :=
  if (slice pos size file).length < size then none else some (slice pos size file)

/-- `strtab_foff`, computed in an `unsigned`. -/
def strtabFoff (hwrFoff : UInt32) (hwrhdr : HwrHdr) : UInt32 :=
  hwrFoff + UInt32.ofNat HwrHdr.size + hwrhdr.nrSymbol * UInt32.ofNat BofIoreg.size

/-- `strtab_len`. -/
def strtabLen (hwrhdr : HwrHdr) : UInt32 :=
  hwrhdr.plOff - hwrhdr.strtabOff

/-- The place of the symbols, computed in a `size_t`. -/
def symtabFoff (host : Host) (hwrFoff : UInt32) : ℕ :=
  (hwrFoff.toNat + HwrHdr.size) % (host.ulongMax + 1)

section Print

variable (order : ByteOrder) (host : Host) (file : File) (fendian : UInt8)

/-- One turn of the loop over the symbols, which stand one behind the other from
`base` on. -/
def printSymbol (base i : ℕ) (symbols : List BofIoreg) :
    Except (List BofIoreg) (List BofIoreg) :=
  match fread file (base + BofIoreg.size * i) BofIoreg.size with
  | none => .error symbols
  | some bytes => .ok (symbols ++ [fixEndianIoreg order (BofIoreg.decodeOn order bytes) fendian])

/-- `PrintSymbols`. -/
def printSymbols (strtabMem : Bool) (hwrFoff : UInt32) (hwrhdr : HwrHdr) :
    Except (List BofIoreg) (List BofIoreg) :=
  if hwrhdr.nrSymbol = 0 then .ok []
  else if strtabLen hwrhdr = 0 ∨ strtabMem = false then .error []
  else
    match (fseek host (strtabFoff hwrFoff hwrhdr).toNat).bind fun pos =>
      fread file pos (strtabLen hwrhdr).toNat with
    | none => .error []
    | some _ =>
        match fseek host (symtabFoff host hwrFoff) with
        | none => .error []
        | some base =>
            repeatTurns (printSymbol order file fendian base) [] hwrhdr.nrSymbol.toNat

/-- The region loop between two turns. -/
structure ShowState where
  hwrFoff : UInt32
  regions : List Region

/-- One turn of the loop of `PrintHWR`. -/
def printRegion (env : ShowEnv) (turn : ℕ) (s : ShowState) : Except ShowState ShowState :=
  match (fseek host s.hwrFoff.toNat).bind fun pos => fread file pos HwrHdr.size with
  | none => .error s
  | some bytes =>
      let hwrhdr := fixEndianHwrhdr order (HwrHdr.decodeOn order bytes) fendian
      match printSymbols order host file fendian (env.strtabMem turn) s.hwrFoff hwrhdr with
      | .error symbols => .error { s with regions := s.regions ++ [⟨hwrhdr, symbols⟩] }
      | .ok symbols =>
          let next : ShowState :=
            { hwrFoff := s.hwrFoff + (UInt32.ofNat HwrHdr.size +
                hwrhdr.nrSymbol * UInt32.ofNat BofIoreg.size +
                (hwrhdr.plOff - hwrhdr.strtabOff) + hwrhdr.plLen)
              regions := s.regions ++ [⟨hwrhdr, symbols⟩] }
          if env.payload turn then .ok next else .error next

/-- `PrintHWR`: whether it runs to its end, and the regions that have been
printed. -/
def printHWR (env : ShowEnv) (bhdr : BofHdr) : Bool × List Region :=
  match repeatTurns (printRegion order host file fendian env) ⟨bhdr.bHwoff, []⟩
    bhdr.bNumchip.toNat with
  | .error s => (false, s.regions)
  | .ok s => (true, s.regions)

end Print

/-- `main` on an open file: its exit status, and what it has printed if the file
is one that it knows. -/
def main (order : ByteOrder) (host : Host) (env : ShowEnv) (file : File) : ℤ × Option Shown :=
  match fread file 0 BofHdr.size with
  | none => (1, none)
  | some bytes =>
      let bhdr := BofHdr.decodeOn order bytes
      if bhdr.ident.take 4 ≠ [0x19, 66, 79, 70] then (1, none)
      else
        let fendian := bhdr.ident.getD BI_ENDIAN 0
        if fendian ≠ BOFDATA2LSB ∧ fendian ≠ BOFDATA2MSB then (1, none)
        else
          let bhdr := fixEndianBofhdr order bhdr fendian
          let printed := printHWR order host file fendian env bhdr
          (if printed.1 then 0 else 1, some ⟨bhdr, printed.2⟩)

end Rhino.Showbof
