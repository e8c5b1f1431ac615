import Rhino.Loader.Core

/-!
# The FPGA bus

The register I/O of `kernel/hwr/hwrtype_rhino.c`: `get_mapped_location`
translates the location of a register to a kernel virtual address, and
`rhino_recv_iobuf` and `rhino_send_iobuf` move the data in 16-bit accesses.

What answers on the bus is a parameter.  Everything a call of the register file
operations does outside its own variables is recorded in a trace, in the order
in which it happens.
-/

namespace Rhino.Ioreg

open Rhino.Bytes

/-! ## Windows -/

def SZ_128M : UInt32 := 0x08000000

def FPGA_CS0_BASE : UInt32 := 0x08000000

def FPGA_CS1_BASE : UInt32 := 0x10000000

def FPGA_CS2_BASE : UInt32 := 0x18000000

def FPGA_CS3_BASE : UInt32 := 0x20000000

def FPGA_CS4_BASE : UInt32 := 0x28000000

def FPGA_CS5_BASE : UInt32 := 0x38000000

/-- The address lies in the 128 MiB from `base` on. -/
def InWindow (base addr : UInt32) : Prop :=
  base ≤ addr ∧ addr.toNat < base.toNat + SZ_128M.toNat

instance (base addr : UInt32) : Decidable (InWindow base addr) :=
  inferInstanceAs (Decidable (_ ∧ _))

/-- `rhino_fpga_bus` after `hwrtype_rhino_init`: the three windows that are
mapped.  `ioremap` returns kernel addresses, which are above all of the GPMC
bases, and leaves a guard page behind every area. -/
structure FpgaMap where
  cs0Virtual : UInt32
  cs1Virtual : UInt32
  cs2Virtual : UInt32
  kernel : ∀ virtual ∈ [cs0Virtual, cs1Virtual, cs2Virtual],
    0x40000000 ≤ virtual.toNat ∧ virtual.toNat + SZ_128M.toNat ≤ 2 ^ 32
  guarded : ∀ virtual ∈ [cs0Virtual, cs1Virtual, cs2Virtual],
    ∀ other ∈ [cs0Virtual, cs1Virtual, cs2Virtual], ¬ InWindow other (virtual + SZ_128M)

/-- The address lies in one of the mapped windows. -/
def FpgaMap.Mapped (map : FpgaMap) (addr : UInt32) : Prop :=
  ∃ virtual ∈ [map.cs0Virtual, map.cs1Virtual, map.cs2Virtual], InWindow virtual addr

/-- `get_mapped_location`.  The windows cs3 to cs5 have the virtual address
`NULL`. -/
def getMappedLocation (map : FpgaMap) (loc : UInt32) : UInt32 :=
  if InWindow FPGA_CS0_BASE loc then map.cs0Virtual + (loc - FPGA_CS0_BASE)
  else if InWindow FPGA_CS1_BASE loc then map.cs1Virtual + (loc - FPGA_CS1_BASE)
  else if InWindow FPGA_CS2_BASE loc then map.cs2Virtual + (loc - FPGA_CS2_BASE)
  else if InWindow FPGA_CS3_BASE loc then 0 + (loc - FPGA_CS3_BASE)
  else if InWindow FPGA_CS4_BASE loc then 0 + (loc - FPGA_CS4_BASE)
  else if InWindow FPGA_CS5_BASE loc then 0 + (loc - FPGA_CS5_BASE)
  else loc

/-! ## Accesses -/

/-- What answers on the bus: a device with a state of its own. -/
structure Bus (β : Type) where
  readw : UInt32 → β → UInt16 × β
  writew : UInt16 → UInt32 → β → β

/-- What a register file operation does outside its own variables. -/
inductive IoEvent where
  | getTask
  | putTask
  | getHwrops
  | putHwrops
  | down
  | up
  | readw (addr : UInt32)
  | writew (value : UInt16) (addr : UInt32)
  deriving DecidableEq, Repr

/-- The state of the device on the bus and the events so far. -/
structure IoState (β : Type) where
  bus : β
  trace : List IoEvent

/-- `struct hwr_iobuf`. -/
structure HwrIobuf where
  location : UInt32
  offset : UInt32
  size : ℕ
  data : List UInt8

section Transfer

variable {β : Type} (bus : Bus β)

/-- The loop of `rhino_recv_iobuf`. -/
def recvWords : ℕ → UInt32 → IoState β → List UInt8 × IoState β
  | 0, _, s => ([], s)
  | count + 1, src, s =>
      let (word, device) := bus.readw src s.bus
      let (rest, s) := recvWords count (src + 2) ⟨device, s.trace ++ [.readw src]⟩
      (u16Bytes word ++ rest, s)

/-- The loop of `rhino_send_iobuf`. -/
def sendWords : ℕ → List UInt8 → UInt32 → IoState β → IoState β
  | 0, _, _, s => s
  | count + 1, src, dst, s =>
      let word := u16At src 0
      sendWords count (src.drop 2) (dst + 2)
        ⟨bus.writew word dst s.bus, s.trace ++ [.writew word dst]⟩

/-- `rhino_recv_iobuf`: the value it returns and the data. -/
def rhinoRecvIobuf (map : FpgaMap) (iobuf : HwrIobuf) (s : IoState β) :
    ℤ × List UInt8 × IoState β :=
  let count := iobuf.size / 2
  let src := getMappedLocation map iobuf.location + iobuf.offset
  let (data, s) := recvWords bus count src s
  (count * 2, data, s)

/-- `rhino_send_iobuf`. -/
def rhinoSendIobuf (map : FpgaMap) (iobuf : HwrIobuf) (s : IoState β) : ℤ × IoState β :=
  let count := iobuf.size / 2
  let dst := getMappedLocation map iobuf.location + iobuf.offset
  (count * 2, sendWords bus count iobuf.data dst s)

end Transfer

/-! ## The addresses of a transfer -/

/-- The address of a bus access. -/
def IoEvent.access : IoEvent → Option UInt32
  | .readw addr => some addr
  | .writew _ addr => some addr
  | _ => none

/-- The addresses handed to `__raw_readw` and `__raw_writew`, in order. -/
def accesses (trace : List IoEvent) : List UInt32 :=
  trace.filterMap IoEvent.access

@[simp]
theorem accesses_append (first second : List IoEvent) :
    accesses (first ++ second) = accesses first ++ accesses second :=
  List.filterMap_append

/-- Consecutive 16-bit words from `base` on. -/
def wordAddrs (base : UInt32) : ℕ → List UInt32
  | 0 => []
  | count + 1 => base :: wordAddrs (base + 2) count

theorem add_two_mul_succ (base : UInt32) (i : ℕ) :
    base + UInt32.ofNat (2 * (i + 1)) = base + 2 + UInt32.ofNat (2 * i) := by
  rw [Nat.mul_add, UInt32.ofNat_add, UInt32.add_comm (UInt32.ofNat (2 * i)),
    ← UInt32.add_assoc]
  rfl

theorem mem_wordAddrs_iff {base addr : UInt32} {count : ℕ} :
    addr ∈ wordAddrs base count ↔ ∃ i < count, addr = base + UInt32.ofNat (2 * i) := by
  induction count generalizing base with
  | zero => simp [wordAddrs]
  | succ count ih =>
      rw [wordAddrs, List.mem_cons, ih]
      constructor
      · rintro (rfl | ⟨i, lt, rfl⟩)
        · exact ⟨0, Nat.succ_pos count, by simp⟩
        · exact ⟨i + 1, Nat.succ_lt_succ lt, (add_two_mul_succ base i).symm⟩
      · rintro ⟨i, lt, rfl⟩
        cases i with
        | zero => left; simp
        | succ i =>
            right
            exact ⟨i, Nat.lt_of_succ_lt_succ lt, add_two_mul_succ base i⟩

section TransferAddresses

variable {β : Type} (bus : Bus β)

theorem recvWords_length (count : ℕ) (src : UInt32) (s : IoState β) :
    (recvWords bus count src s).1.length = 2 * count := by
  induction count generalizing src s with
  | zero => rfl
  | succ count ih =>
      rw [recvWords, List.length_append, u16Bytes_length, ih, Nat.mul_succ, Nat.add_comm]

theorem recvWords_accesses (count : ℕ) (src : UInt32) (s : IoState β) :
    accesses (recvWords bus count src s).2.trace =
      accesses s.trace ++ wordAddrs src count := by
  induction count generalizing src s with
  | zero => simp [recvWords, wordAddrs]
  | succ count ih =>
      simp only [recvWords, ih, wordAddrs, accesses_append]
      simp [accesses, IoEvent.access]

theorem sendWords_accesses (count : ℕ) (data : List UInt8) (dst : UInt32) (s : IoState β) :
    accesses (sendWords bus count data dst s).trace =
      accesses s.trace ++ wordAddrs dst count := by
  induction count generalizing data dst s with
  | zero => simp [sendWords, wordAddrs]
  | succ count ih =>
      simp only [sendWords, ih, wordAddrs, accesses_append]
      simp [accesses, IoEvent.access]

theorem rhinoRecvIobuf_accesses (map : FpgaMap) (iobuf : HwrIobuf) (s : IoState β) :
    accesses (rhinoRecvIobuf bus map iobuf s).2.2.trace =
      accesses s.trace ++
        wordAddrs (getMappedLocation map iobuf.location + iobuf.offset) (iobuf.size / 2) :=
  recvWords_accesses bus _ _ s

theorem rhinoSendIobuf_accesses (map : FpgaMap) (iobuf : HwrIobuf) (s : IoState β) :
    accesses (rhinoSendIobuf bus map iobuf s).2.trace =
      accesses s.trace ++
        wordAddrs (getMappedLocation map iobuf.location + iobuf.offset) (iobuf.size / 2) :=
  sendWords_accesses bus _ _ _ s

end TransferAddresses

end Rhino.Ioreg
