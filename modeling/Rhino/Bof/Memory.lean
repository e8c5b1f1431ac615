import Rhino.Bof.Format
import Rhino.Bytes.Order

/-!
# The records of a BOF file in memory

The tools read and write the records of a BOF file as C structures, so the bytes
that they transfer are those that the structure has in the memory of the host.
They convert the fields between the order of the host and the order of the file
one by one.
-/

namespace Rhino.Bof

open Rhino.Bytes

/-! ## Header of the file -/

namespace BofHdr

/-- The bytes of the structure in memory. -/
def encodeOn (host : ByteOrder) (hdr : BofHdr) : List UInt8 :=
  hdr.ident ++ (host.bytes32 hdr.bVersion ++ (host.bytes16 hdr.bMachine ++
    (host.bytes16 hdr.bElfmachine ++ (host.bytes32 hdr.bNumchip ++ (host.bytes32 hdr.bElfoff ++
      (host.bytes32 hdr.bHwoff ++ (host.bytes32 hdr.loadErr ++ (host.bytes32 hdr.bEkver ++
        (host.bytes32 hdr.pad0 ++ (host.bytes32 hdr.pad1 ++ []))))))))))

/-- The structure that these bytes are in memory. -/
def decodeOn (host : ByteOrder) (data : List UInt8) : BofHdr where
  ident := slice 0 16 data
  bVersion := host.at32 data 16
  bMachine := host.at16 data 20
  bElfmachine := host.at16 data 22
  bNumchip := host.at32 data 24
  bElfoff := host.at32 data 28
  bHwoff := host.at32 data 32
  loadErr := host.at32 data 36
  bEkver := host.at32 data 40
  pad0 := host.at32 data 44
  pad1 := host.at32 data 48

theorem encodeOn_length (host : ByteOrder) (hdr : BofHdr) (identSize : hdr.ident.length = 16) :
    (hdr.encodeOn host).length = size := by
  simp [encodeOn, size, identSize]

theorem decodeOn_encodeOn_append (host : ByteOrder) (hdr : BofHdr)
    (identSize : hdr.ident.length = 16) (rest : List UInt8) :
    decodeOn host (hdr.encodeOn host ++ rest) = hdr := by
  have ident : slice 0 16 (hdr.encodeOn host ++ rest) = hdr.ident := by
    rw [encodeOn, List.append_assoc, ← identSize]
    exact slice_zero_append hdr.ident _
  rw [decodeOn, ident]
  simp [encodeOn, ByteOrder.at16_append_right, ByteOrder.at32_append_right, identSize]

end BofHdr

/-! ## Header of a hardware region -/

namespace HwrHdr

def encodeOn (host : ByteOrder) (hdr : HwrHdr) : List UInt8 :=
  host.bytes32 hdr.flag ++ (host.bytes16 hdr.addr.cls ++ (host.bytes16 hdr.addr.addr ++
    (host.bytes32 hdr.plOff ++ (host.bytes32 hdr.plLen ++ (host.bytes32 hdr.nrSymbol ++
      (host.bytes32 hdr.strtabOff ++ (host.bytes32 hdr.nextHwr ++ [])))))))

def decodeOn (host : ByteOrder) (data : List UInt8) : HwrHdr where
  flag := host.at32 data 0
  addr := ⟨host.at16 data 4, host.at16 data 6⟩
  plOff := host.at32 data 8
  plLen := host.at32 data 12
  nrSymbol := host.at32 data 16
  strtabOff := host.at32 data 20
  nextHwr := host.at32 data 24

/-- Every field between the order of the host and another. -/
def convert (host order : ByteOrder) (hdr : HwrHdr) : HwrHdr where
  flag := host.convert32 order hdr.flag
  addr := ⟨host.convert16 order hdr.addr.cls, host.convert16 order hdr.addr.addr⟩
  plOff := host.convert32 order hdr.plOff
  plLen := host.convert32 order hdr.plLen
  nrSymbol := host.convert32 order hdr.nrSymbol
  strtabOff := host.convert32 order hdr.strtabOff
  nextHwr := host.convert32 order hdr.nextHwr

theorem encodeOn_convert (host order : ByteOrder) (hdr : HwrHdr) :
    (hdr.convert host order).encodeOn host = hdr.encodeOn order := by
  simp only [encodeOn, convert, ByteOrder.bytes16_convert16, ByteOrder.bytes32_convert32]

theorem convert_decodeOn (host order : ByteOrder) {data : List UInt8}
    (full : data.length = size) :
    (decodeOn host data).convert host order = decodeOn order data := by
  rw [size] at full
  simp (disch := omega) only [convert, decodeOn, ByteOrder.convert16_at16,
    ByteOrder.convert32_at32]

end HwrHdr

/-! ## Register entry of a hardware region -/

namespace BofIoreg

def encodeOn (host : ByteOrder) (reg : BofIoreg) : List UInt8 :=
  host.bytes16 reg.name ++ (host.bytes16 reg.mode ++ (host.bytes32 reg.loc ++
    (host.bytes32 reg.len ++ [])))

def decodeOn (host : ByteOrder) (data : List UInt8) : BofIoreg where
  name := host.at16 data 0
  mode := host.at16 data 2
  loc := host.at32 data 4
  len := host.at32 data 8

def convert (host order : ByteOrder) (reg : BofIoreg) : BofIoreg where
  name := host.convert16 order reg.name
  mode := host.convert16 order reg.mode
  loc := host.convert32 order reg.loc
  len := host.convert32 order reg.len

theorem encodeOn_convert (host order : ByteOrder) (reg : BofIoreg) :
    (reg.convert host order).encodeOn host = reg.encodeOn order := by
  simp only [encodeOn, convert, ByteOrder.bytes16_convert16, ByteOrder.bytes32_convert32]

theorem convert_decodeOn (host order : ByteOrder) {data : List UInt8}
    (full : data.length = size) :
    (decodeOn host data).convert host order = decodeOn order data := by
  rw [size] at full
  simp (disch := omega) only [convert, decodeOn, ByteOrder.convert16_at16,
    ByteOrder.convert32_at32]

end BofIoreg

end Rhino.Bof
