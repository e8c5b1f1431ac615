import Rhino.Bytes.LittleEndian

/-!
# The BORPH object file format

The three records of `include/linux/bof.h`.  A BOF file starts with a `bofhdr`
that has the size of an ELF header; every hardware region has a `hwrhdr`,
followed by its `bofioreg` entries, the string table of their names and the
bitstream payload.

The kernel runs on a little-endian ARM, so it reads a record by copying bytes
over the C struct.  `decode` is that cast; `encode` is its inverse on records.
-/

namespace Rhino.Bof

open Rhino.Bytes

/-- Address of a hardware region: its class and its number within the class. -/
structure HwrAddr where
  cls : UInt16
  addr : UInt16
  deriving DecidableEq, Repr

/-- Hardware region class of the RHINO board. -/
def HAC_RHINO : UInt16 := 0x5

/-- `hwrhdr.flag` bit of a region that names its own address. -/
def HFG_PLACED : UInt32 := 0x1

/-- `hwrhdr.flag` bit of a region that is not to be configured. -/
def HFG_NOCONFIG : UInt32 := 0x2

/-- `bofioreg.mode` bit of a register that is accessed as a pipe. -/
def IORM_PIPE : UInt32 := 4

/-! ## Header of the file -/

/-- `struct bofhdr`. -/
structure BofHdr where
  ident : List UInt8
  bVersion : UInt32
  bMachine : UInt16
  bElfmachine : UInt16
  bNumchip : UInt32
  bElfoff : UInt32
  bHwoff : UInt32
  loadErr : UInt32
  bEkver : UInt32
  pad0 : UInt32
  pad1 : UInt32
  deriving DecidableEq, Repr

namespace BofHdr

/-- `sizeof(struct bofhdr)`, the size of an `Elf32_Ehdr`. -/
def size : ℕ := 52

def encode (hdr : BofHdr) : List UInt8 :=
  hdr.ident ++ (u32Bytes hdr.bVersion ++ (u16Bytes hdr.bMachine ++
    (u16Bytes hdr.bElfmachine ++ (u32Bytes hdr.bNumchip ++ (u32Bytes hdr.bElfoff ++
      (u32Bytes hdr.bHwoff ++ (u32Bytes hdr.loadErr ++ (u32Bytes hdr.bEkver ++
        (u32Bytes hdr.pad0 ++ (u32Bytes hdr.pad1 ++ []))))))))))

def decode (data : List UInt8) : BofHdr where
  ident := slice 0 16 data
  bVersion := u32At data 16
  bMachine := u16At data 20
  bElfmachine := u16At data 22
  bNumchip := u32At data 24
  bElfoff := u32At data 28
  bHwoff := u32At data 32
  loadErr := u32At data 36
  bEkver := u32At data 40
  pad0 := u32At data 44
  pad1 := u32At data 48

theorem encode_length (hdr : BofHdr) (identSize : hdr.ident.length = 16) :
    hdr.encode.length = size := by
  simp [encode, size, identSize]

/-- The kernel's cast of the start of a file recovers every field of the
header that was written there. -/
theorem decode_encode_append (hdr : BofHdr) (identSize : hdr.ident.length = 16)
    (rest : List UInt8) : decode (hdr.encode ++ rest) = hdr := by
  have ident : slice 0 16 (hdr.encode ++ rest) = hdr.ident := by
    have field := slice_zero_append hdr.ident
      (u32Bytes hdr.bVersion ++ (u16Bytes hdr.bMachine ++
        (u16Bytes hdr.bElfmachine ++ (u32Bytes hdr.bNumchip ++ (u32Bytes hdr.bElfoff ++
          (u32Bytes hdr.bHwoff ++ (u32Bytes hdr.loadErr ++ (u32Bytes hdr.bEkver ++
            (u32Bytes hdr.pad0 ++ (u32Bytes hdr.pad1 ++ ([] ++ rest)))))))))))
    rw [identSize] at field
    simpa [encode] using field
  rw [decode, ident]
  simp [encode, u16At_append_right, u32At_append_right, identSize]

/-- The cast looks at the first bytes of a buffer only. -/
theorem decode_slice_zero (data : List UInt8) : decode (slice 0 size data) = decode data := by
  have field {offset count : ℕ} (inside : offset + count ≤ size) :
      slice offset count (slice 0 size data) = slice offset count data :=
    slice_slice_zero inside data
  simp (disch := decide) only [decode, u16At, u32At, field]

/-- The header in a buffer whose front has been overwritten with enough bytes. -/
theorem decode_overlay {fresh : List UInt8} (enough : size ≤ fresh.length) (old : List UInt8) :
    decode (overlay fresh old) = decode (slice 0 size fresh) := by
  rw [← decode_slice_zero, overlay, slice_append_left ((Nat.zero_add size).trans_le enough)]

end BofHdr

/-! ## Header of a hardware region -/

/-- `struct hwrhdr`. -/
structure HwrHdr where
  flag : UInt32
  addr : HwrAddr
  plOff : UInt32
  plLen : UInt32
  nrSymbol : UInt32
  strtabOff : UInt32
  nextHwr : UInt32
  deriving DecidableEq, Repr

namespace HwrHdr

/-- `sizeof(struct hwrhdr)`. -/
def size : ℕ := 28

def encode (hdr : HwrHdr) : List UInt8 :=
  u32Bytes hdr.flag ++ (u16Bytes hdr.addr.cls ++ (u16Bytes hdr.addr.addr ++
    (u32Bytes hdr.plOff ++ (u32Bytes hdr.plLen ++ (u32Bytes hdr.nrSymbol ++
      (u32Bytes hdr.strtabOff ++ (u32Bytes hdr.nextHwr ++ [])))))))

def decode (data : List UInt8) : HwrHdr where
  flag := u32At data 0
  addr := ⟨u16At data 4, u16At data 6⟩
  plOff := u32At data 8
  plLen := u32At data 12
  nrSymbol := u32At data 16
  strtabOff := u32At data 20
  nextHwr := u32At data 24

@[simp]
theorem encode_length (hdr : HwrHdr) : hdr.encode.length = size := by
  simp [encode, size]

theorem decode_encode_append (hdr : HwrHdr) (rest : List UInt8) :
    decode (hdr.encode ++ rest) = hdr := by
  simp [decode, encode, u16At_append_right, u32At_append_right]

theorem encode_decode {data : List UInt8} (full : data.length = size) :
    (decode data).encode = data := by
  rw [size] at full
  simp (disch := omega) only [encode, decode, u16Bytes_u16At, u32Bytes_u32At]
  simp (disch := omega) only [List.append_nil, slice_append_slice]
  exact slice_whole full

/-- The decoder gives a record exactly on the bytes of the record. -/
theorem decode_eq_iff {data : List UInt8} (full : data.length = size) {hdr : HwrHdr} :
    decode data = hdr ↔ data = hdr.encode := by
  constructor
  · rintro rfl
    exact (encode_decode full).symm
  · rintro rfl
    rw [← List.append_nil hdr.encode]
    exact decode_encode_append hdr []

end HwrHdr

/-! ## Register entry of a hardware region -/

/-- `struct bofioreg`: `name` is an offset into the region's string table. -/
structure BofIoreg where
  name : UInt16
  mode : UInt16
  loc : UInt32
  len : UInt32
  deriving DecidableEq, Repr

namespace BofIoreg

/-- `sizeof(struct bofioreg)`. -/
def size : ℕ := 12

def encode (reg : BofIoreg) : List UInt8 :=
  u16Bytes reg.name ++ (u16Bytes reg.mode ++ (u32Bytes reg.loc ++
    (u32Bytes reg.len ++ [])))

def decode (data : List UInt8) : BofIoreg where
  name := u16At data 0
  mode := u16At data 2
  loc := u32At data 4
  len := u32At data 8

@[simp]
theorem encode_length (reg : BofIoreg) : reg.encode.length = size := by
  simp [encode, size]

theorem length_flatMap_encode (entries : List BofIoreg) :
    (entries.flatMap encode).length = entries.length * size := by
  induction entries with
  | nil => simp
  | cons reg rest ih =>
      rw [List.flatMap_cons, List.length_append, ih, encode_length, List.length_cons,
        Nat.succ_mul, Nat.add_comm]

theorem decode_encode_append (reg : BofIoreg) (rest : List UInt8) :
    decode (reg.encode ++ rest) = reg := by
  simp [decode, encode, u16At_append_right, u32At_append_right]

theorem encode_decode {data : List UInt8} (full : data.length = size) :
    (decode data).encode = data := by
  rw [size] at full
  simp (disch := omega) only [encode, decode, u16Bytes_u16At, u32Bytes_u32At]
  simp (disch := omega) only [List.append_nil, slice_append_slice]
  exact slice_whole full

theorem decode_eq_iff {data : List UInt8} (full : data.length = size) {reg : BofIoreg} :
    decode data = reg ↔ data = reg.encode := by
  constructor
  · rintro rfl
    exact (encode_decode full).symm
  · rintro rfl
    rw [← List.append_nil reg.encode]
    exact decode_encode_append reg []

end BofIoreg

end Rhino.Bof
