import Rhino.Ioreg.Confinement
import Rhino.Loader.Registers

/-!
# A register file stays in the mapped windows

`get_mapped_location` looks at the location of a register and not at its
length, knows three windows that are never mapped, and hands an address in none
of the windows through.  A register of a loaded file is therefore safe to use
exactly if all of its words lie in one window that is mapped; `Fits` says so in
terms of the location and the length that the file declares.
-/

namespace Rhino.Ioreg

open Rhino.Bof Rhino.Hwr Rhino.Kernel Rhino.Loader

/-! ## Ranges of addresses -/

theorem inWindow_iff {base addr : UInt32} :
    InWindow base addr ↔ base.toNat ≤ addr.toNat ∧ addr.toNat < base.toNat + 0x08000000 :=
  Iff.rfl

/-- The addresses of the virtual windows. -/
def FpgaMap.virtuals (map : FpgaMap) : List UInt32 :=
  [map.cs0Virtual, map.cs1Virtual, map.cs2Virtual]

/-- The locations of the windows that are mapped. -/
def mappedBases : List UInt32 :=
  [FPGA_CS0_BASE, FPGA_CS1_BASE, FPGA_CS2_BASE]

theorem toNat_of_mem_mappedBases {base : UInt32} (mem : base ∈ mappedBases) :
    base.toNat ≤ 0x18000000 ∧ base.toNat % 0x08000000 = 0 := by
  simp only [mappedBases, List.mem_cons, List.not_mem_nil, or_false] at mem
  rcases mem with rfl | rfl | rfl <;> decide

theorem add_sub_add_ofNat {virtual base loc : UInt32} (le : base.toNat ≤ loc.toNat) (o : ℕ) :
    virtual + (loc - base) + UInt32.ofNat o =
      virtual + UInt32.ofNat (loc.toNat - base.toNat + o) := by
  have offset : loc - base = UInt32.ofNat (loc.toNat - base.toNat) := by
    apply UInt32.toNat_inj.mp
    rw [UInt32.toNat_sub_of_le _ _ le, UInt32.toNat_ofNat']
    have := loc.toNat_lt
    omega
  rw [offset, UInt32.add_assoc, ← UInt32.ofNat_add]

section Windows

variable (map : FpgaMap)

/-- From inside a virtual window, a range of addresses is mapped up to the end of
the window and not beyond it. -/
theorem forall_mapped_offset_iff {virtual : UInt32} (mem : virtual ∈ map.virtuals)
    {start last : ℕ} (inside : start < 0x08000000) :
    (∀ o ≤ last, map.Mapped (virtual + UInt32.ofNat (start + o))) ↔
      start + last < 0x08000000 := by
  have room := (map.kernel virtual mem).2
  change virtual.toNat + 0x08000000 ≤ 2 ^ 32 at room
  constructor
  · intro mapped
    by_contra beyond
    rcases mapped (0x08000000 - start) (by omega) with ⟨other, otherMem, window⟩
    rw [Nat.add_sub_cancel' inside.le] at window
    exact map.guarded virtual mem other otherMem window
  · intro ends o le
    refine ⟨virtual, mem, inWindow_iff.mpr ?_⟩
    rw [UInt32.toNat_add, UInt32.toNat_ofNat']
    omega

variable {map}

theorem virtual_le_of_mapped {addr : UInt32} (mapped : map.Mapped addr) :
    0x40000000 ≤ addr.toNat := by
  rcases mapped with ⟨virtual, mem, window⟩
  have := (map.kernel virtual mem).1
  have := (inWindow_iff.mp window).1
  omega

variable (map)

/-- What `get_mapped_location` can do: translate into one of the virtual windows,
return an address below all kernel addresses, or return the location. -/
theorem getMappedLocation_cases (loc : UInt32) :
    (∃ base ∈ mappedBases, ∃ virtual ∈ map.virtuals, InWindow base loc ∧
      getMappedLocation map loc = virtual + (loc - base)) ∨
    ((∀ base ∈ mappedBases, ¬ InWindow base loc) ∧ loc.toNat < 0x40000000 ∧
      (getMappedLocation map loc).toNat < 0x40000000) ∨
    (0x40000000 ≤ loc.toNat ∧ getMappedLocation map loc = loc) := by
  by_cases cs0 : InWindow FPGA_CS0_BASE loc
  · left
    exact ⟨FPGA_CS0_BASE, by decide, map.cs0Virtual, by simp [FpgaMap.virtuals], cs0, if_pos cs0⟩
  by_cases cs1 : InWindow FPGA_CS1_BASE loc
  · left
    refine ⟨FPGA_CS1_BASE, by decide, map.cs1Virtual, by simp [FpgaMap.virtuals], cs1, ?_⟩
    rw [getMappedLocation, if_neg cs0, if_pos cs1]
  by_cases cs2 : InWindow FPGA_CS2_BASE loc
  · left
    refine ⟨FPGA_CS2_BASE, by decide, map.cs2Virtual, by simp [FpgaMap.virtuals], cs2, ?_⟩
    rw [getMappedLocation, if_neg cs0, if_neg cs1, if_pos cs2]
  right
  rw [getMappedLocation, if_neg cs0, if_neg cs1, if_neg cs2]
  by_cases low : loc.toNat < 0x40000000
  · left
    refine ⟨by simp [mappedBases, cs0, cs1, cs2], low, ?_⟩
    have below {base : UInt32} (window : InWindow base loc) :
        (0 + (loc - base)).toNat < 0x40000000 := by
      rw [UInt32.zero_add, UInt32.toNat_sub_of_le _ _ window.1]
      omega
    split
    · exact below ‹_›
    · split
      · exact below ‹_›
      · split
        · exact below ‹_›
        · exact low
  · right
    refine ⟨Nat.not_lt.mp low, ?_⟩
    have above {base : UInt32} (small : base.toNat ≤ 0x38000000) : ¬ InWindow base loc := by
      intro window
      have := (inWindow_iff.mp window).2
      omega
    rw [if_neg (above (by decide)), if_neg (above (by decide)), if_neg (above (by decide))]

/-! ## Registers that lie in a window -/

/-- The first and the last word of a register lie in the window from `base` on. -/
def Spans (base loc len : UInt32) : Prop :=
  base.toNat ≤ loc.toNat ∧ loc.toNat + (len.toNat - 2) < base.toNat + SZ_128M.toNat

/-- All words of the register can be reached: there are none, or they lie in one
of the three windows that are mapped, or the location is no location of the bus
at all but an address of their virtual images. -/
def Fits (loc len : UInt32) : Prop :=
  len.toNat < 2 ∨ (∃ base ∈ mappedBases, Spans base loc len) ∨
    ∃ virtual ∈ map.virtuals, Spans virtual loc len

variable {map}

theorem spans_iff {base loc len : UInt32} :
    Spans base loc len ↔
      base.toNat ≤ loc.toNat ∧ loc.toNat + (len.toNat - 2) < base.toNat + 0x08000000 :=
  Iff.rfl

/-- The windows that are mapped are disjoint, since they start at multiples of
their size. -/
theorem eq_of_inWindow {base other loc : UInt32} (mem : base ∈ mappedBases)
    (otherMem : other ∈ mappedBases) (window : InWindow base loc)
    (otherWindow : InWindow other loc) : base = other := by
  have baseAligned := (toNat_of_mem_mappedBases mem).2
  have otherAligned := (toNat_of_mem_mappedBases otherMem).2
  rw [inWindow_iff] at window otherWindow
  apply UInt32.toNat_inj.mp
  omega

/-- A location that is translated into a virtual window. -/
theorem forall_mapped_iff_spans {base virtual loc len : UInt32} (mem : virtual ∈ map.virtuals)
    (window : InWindow base loc) :
    (∀ o ≤ len.toNat - 2, map.Mapped (virtual + (loc - base) + UInt32.ofNat o)) ↔
      Spans base loc len := by
  rw [inWindow_iff] at window
  simp only [add_sub_add_ofNat window.1]
  rw [forall_mapped_offset_iff map mem (by omega), spans_iff]
  omega

/-- The words of a register are mapped exactly if they fit. -/
theorem forall_mapped_iff_fits {loc len : UInt32} (words : 2 ≤ len.toNat) :
    (∀ o ≤ len.toNat - 2, map.Mapped (getMappedLocation map loc + UInt32.ofNat o)) ↔
      Fits map loc len := by
  have kernel (virtual : UInt32) (mem : virtual ∈ map.virtuals) : 0x40000000 ≤ virtual.toNat :=
    (map.kernel virtual mem).1
  rcases getMappedLocation_cases map loc with
    ⟨base, baseMem, virtual, virtualMem, window, eq⟩ | ⟨outside, low, lowMapped⟩ | ⟨high, eq⟩
  · rw [eq, forall_mapped_iff_spans virtualMem window]
    rw [inWindow_iff] at window
    constructor
    · intro spans
      exact Or.inr (Or.inl ⟨base, baseMem, spans⟩)
    · rintro (none | ⟨other, mem, spans⟩ | ⟨other, mem, spans⟩)
      · omega
      · rw [spans_iff] at spans
        rwa [eq_of_inWindow baseMem mem window (inWindow_iff.mpr (by omega))]
      · have := (toNat_of_mem_mappedBases baseMem).1
        have := kernel other mem
        rw [spans_iff] at spans
        omega
  · apply iff_of_false
    · intro mapped
      have := virtual_le_of_mapped (mapped 0 (Nat.zero_le _))
      rw [show UInt32.ofNat 0 = 0 from rfl, UInt32.add_zero] at this
      omega
    · rintro (none | ⟨base, mem, spans⟩ | ⟨virtual, mem, spans⟩)
      · omega
      · rw [spans_iff] at spans
        exact outside base mem (inWindow_iff.mpr (by omega))
      · have := kernel virtual mem
        rw [spans_iff] at spans
        omega
  · -- The location is handed through.
    have through (virtual : UInt32) : loc = virtual + (loc - virtual) := by grind
    rw [eq]
    constructor
    · intro mapped
      have first := mapped 0 (Nat.zero_le _)
      rw [show UInt32.ofNat 0 = 0 from rfl, UInt32.add_zero] at first
      rcases first with ⟨virtual, mem, window⟩
      rw [through virtual] at mapped
      exact Or.inr (Or.inr ⟨virtual, mem, (forall_mapped_iff_spans mem window).mp mapped⟩)
    · rintro (none | ⟨base, mem, spans⟩ | ⟨virtual, mem, spans⟩)
      · omega
      · have := (toNat_of_mem_mappedBases mem).1
        rw [spans_iff] at spans
        omega
      · rw [through virtual]
        apply (forall_mapped_iff_spans mem _).mpr spans
        rw [spans_iff] at spans
        exact inWindow_iff.mpr (by omega)

end Windows

/-! ## Raw reads and writes -/

section Raw

variable {β : Type} (bus : Bus β) (map : FpgaMap) (device : β)

/-- Every read or write of the register in raw mode, at a position below its
length and with a count that the VFS accepts, accesses mapped addresses only. -/
def RawMapped (reg : Ioreg) : Prop :=
  ∀ (env : IoEnv) (count fcount : ℕ) (fpos : ℤ), rwVerifyArea count fpos = some fcount →
    fpos < reg.len.toNat →
    (∀ mode : ℤ, mode ≠ 0 → ∀ addr ∈ accesses
      (ioregRegRead bus map reg mode env false fcount fpos ⟨device, []⟩).io.trace,
        map.Mapped addr) ∧
    ∀ addr ∈ accesses (ioregRegWrite bus map reg 1 env false fcount fpos ⟨device, []⟩).io.trace,
      map.Mapped addr

/-- A call that finds everything it needs. -/
def openEnv : IoEnv where
  task := true
  info := true
  hwrops := .complete
  iobuf := true
  user := fun _ => 0
  fault := false
  stack := fun _ => 0

theorem ofInt_natCast_eq (n : ℕ) : UInt32.ofInt n = UInt32.ofNat n := by
  apply UInt32.toNat_inj.mp
  rw [toNat_ofInt, UInt32.toNat_ofNat']
  omega

/-- A transfer that ends in the register accesses words of the register. -/
theorem offset_of_mem_wordAddrs {base addr : UInt32} {fpos : ℤ} {count len : ℕ}
    (nonnegative : 0 ≤ fpos) (ends : count = 0 ∨ fpos + 2 * count ≤ len)
    (mem : addr ∈ wordAddrs (base + UInt32.ofInt fpos) count) :
    2 ≤ len ∧ ∃ o ≤ len - 2, addr = base + UInt32.ofNat o := by
  rcases mem_wordAddrs_iff.mp mem with ⟨i, lt, rfl⟩
  rcases Int.eq_ofNat_of_zero_le nonnegative with ⟨position, rfl⟩
  refine ⟨by omega, position + 2 * i, by omega, ?_⟩
  rw [ofInt_natCast_eq, UInt32.ofNat_add, UInt32.add_assoc]

theorem le_cap {limit count n : ℕ} (small : n ≤ limit) (le : n ≤ count) :
    n ≤ if limit < count then limit else count := by
  split <;> assumption

/-- A raw write of two bytes that fit sends the word at its position. -/
theorem two_le_rawCount (reg : Ioreg) {fpos : ℤ} (nonnegative : 0 ≤ fpos)
    (fits : fpos + 2 ≤ reg.len.toNat) : 2 ≤ rawCount reg 2 fpos := by
  have datacnt : 2 ≤ (UInt32.ofInt (if toS32 reg.len.toNat - fpos < (2 : ℕ)
      then toS32 (toS32 reg.len.toNat - fpos) else (2 : ℕ))).toNat := by
    split
    · have rest := toNat_ofInt_rest reg nonnegative (by omega)
      omega
    · rfl
  rw [rawCount]
  exact le_cap (by decide) (le_cap (by decide) datacnt)

/-- The words that raw mode can get at are those of the register. -/
theorem rawMapped_iff (reg : Ioreg) :
    RawMapped bus map device reg ↔
      (reg.mode &&& IORM_PIPE = 0 → 2 ≤ reg.len.toNat → ∀ o ≤ reg.len.toNat - 2,
        map.Mapped (getMappedLocation map reg.loc + UInt32.ofNat o)) := by
  constructor
  · intro mapped stream words o le
    have accepted := @rwVerifyArea_of_le 2 o (Int.natCast_nonneg o)
      (by have := reg.len.toNat_lt; omega) (by decide)
    have count := two_le_rawCount reg (Int.natCast_nonneg o) (by omega)
    have written : writeWords reg 1 openEnv 2 o = rawCount reg 2 o / 2 := by
      rw [writeWords, if_neg (by omega), if_pos rfl, if_neg (by decide)]
    apply (mapped openEnv 2 2 o accepted (by omega)).2
    rw [ioregRegWrite_accesses, if_pos ⟨stream, rfl, rfl, rfl, rfl⟩, written]
    refine List.mem_append_right _ (mem_wordAddrs_iff.mpr ⟨0, by omega, ?_⟩)
    rw [ofInt_natCast_eq]
    exact (UInt32.add_zero _).symm
  · intro mapped env count fcount fpos accepted below
    have nonnegative := nonneg_of_rwVerifyArea accepted
    have fine {count : ℕ} (reaches : Reaches reg env)
        (ends : count = 0 ∨ fpos + 2 * count ≤ reg.len.toNat) (addr : UInt32)
        (mem : addr ∈ wordAddrs (getMappedLocation map reg.loc + UInt32.ofInt fpos) count) :
        map.Mapped addr := by
      rcases offset_of_mem_wordAddrs nonnegative ends mem with ⟨words, o, le, rfl⟩
      exact mapped reaches.1 words o le
    constructor
    · intro mode raw addr mem
      rw [ioregRegRead_accesses] at mem
      by_cases reaches : Reaches reg env
      · rw [if_pos reaches] at mem
        exact fine reaches (readWords_raw reg raw fcount fpos) addr mem
      · rw [if_neg reaches] at mem
        contradiction
    · intro addr mem
      rw [ioregRegWrite_accesses] at mem
      by_cases reaches : Reaches reg env
      · rw [if_pos reaches] at mem
        exact fine reaches (writeWords_raw reg env fcount nonnegative) addr mem
      · rw [if_neg reaches] at mem
        contradiction

/-- For a file that the loader has accepted: raw reads and writes of all of its
registers keep to mapped addresses exactly if every entry that the file
declares, pipes apart, fits. -/
theorem loaded_rawMapped_iff {δ ε : Type} {platform : Platform δ ε} {item : ExecqItem}
    {env : LoadEnv ε} {kernel after : KernelState δ}
    (loaded : borphLoadHw platform.drivers item env kernel = (.loaded, after)) :
    (∀ reg ∈ (after.infos kernel.nextInfo).ioreg, RawMapped bus map device reg) ↔
      ∀ entry, Declares platform item env kernel entry →
        entry.mode.toUInt32 &&& IORM_PIPE = 0 → Fits map entry.loc entry.len := by
  have single (strtab : List UInt8) (addr : HwrAddr) (entry : BofIoreg) :
      RawMapped bus map device (ioregOf strtab addr entry) ↔
        (entry.mode.toUInt32 &&& IORM_PIPE = 0 → Fits map entry.loc entry.len) := by
    apply (rawMapped_iff bus map device _).trans
    apply imp_congr_right
    intro _
    by_cases words : 2 ≤ entry.len.toNat
    · exact (forall_prop_of_true words).trans (forall_mapped_iff_fits words)
    · exact iff_of_true (fun two => absurd two words) (Or.inl (Nat.not_le.mp words))
  rcases ioreg_of_loaded loaded with ⟨sound, complete⟩
  constructor
  · intro mapped entry declared
    rcases complete entry declared with ⟨strtab, addr, mem⟩
    exact (single strtab addr entry).mp (mapped _ mem)
  · intro fits reg mem
    rcases sound reg mem with ⟨strtab, addr, entry, declared, rfl⟩
    exact (single strtab addr entry).mpr (fits entry declared)

end Raw

/-- A region for the FPGA with one register. -/
def oneRegister : HwrHdr where
  flag := 0
  addr := rhinoAddr
  plOff := 96
  plLen := 1
  nrSymbol := 1
  strtabOff := 92
  nextHwr := 0

/-- A file that declares a register `led` of two bytes. -/
def ledFile (loc : UInt32) : ExecqItem :=
  sampleItem 1 1 oneRegister
    (({ name := 0, mode := 3, loc := loc, len := 2 } : BofIoreg).encode ++ [108, 101, 100, 0] ++
      [0xaa])

/-- The register of `ledFile` in memory. -/
def ledIoreg (loc : UInt32) : Ioreg where
  strtab := [108, 101, 100, 0]
  name := 0
  mode := 3
  loc := loc
  len := 2
  hwraddr := rhinoAddr

/-- The kernel after `ledFile` has been loaded. -/
def ledKernel (loc : UInt32) : KernelState RhinoDev :=
  (borphLoadHw rhinoPlatform.drivers (ledFile loc) (calmLoad smoothConfig) bootKernel).2

/-- The file is loaded with its register in the first window and in the fourth. -/
theorem ledFile_loaded {loc : UInt32} (known : loc = 0x08800000 ∨ loc = 0x20000000) :
    (borphLoadHw rhinoPlatform.drivers (ledFile loc) (calmLoad smoothConfig) bootKernel).1 =
        .loaded ∧
      ((ledKernel loc).infos bootKernel.nextInfo).ioreg = [ledIoreg loc] := by
  rcases known with rfl | rfl
  · decide +kernel
  · decide +kernel

theorem borphLoadHw_ledFile {loc : UInt32} (known : loc = 0x08800000 ∨ loc = 0x20000000) :
    borphLoadHw rhinoPlatform.drivers (ledFile loc) (calmLoad smoothConfig) bootKernel =
      (.loaded, ledKernel loc) :=
  Prod.ext (ledFile_loaded known).1 rfl

/-- The register at the start of the first window is safe to use. -/
theorem led_in_cs0_rawMapped :
    borphLoadHw rhinoPlatform.drivers (ledFile 0x08800000) (calmLoad smoothConfig) bootKernel =
        (.loaded, ledKernel 0x08800000) ∧
      ∀ reg ∈ ((ledKernel 0x08800000).infos bootKernel.nextInfo).ioreg,
        RawMapped idleBus sampleMap () reg := by
  have loaded := borphLoadHw_ledFile (Or.inl rfl)
  refine ⟨loaded, (loaded_rawMapped_iff idleBus sampleMap () loaded).mpr ?_⟩
  intro entry declared _
  rcases (ioreg_of_loaded loaded).2 entry declared with ⟨strtab, addr, mem⟩
  rw [(ledFile_loaded (Or.inl rfl)).2, List.mem_singleton] at mem
  rw [show entry.loc = 0x08800000 from congrArg Ioreg.loc mem,
    show entry.len = 2 from congrArg Ioreg.len mem]
  exact Or.inr (Or.inl ⟨FPGA_CS0_BASE, by decide, by decide, by decide⟩)

/-- A register in the fourth window is loaded like any other, and using it
accesses the address zero. -/
theorem led_in_cs3_accesses_null :
    ¬ ∀ after, borphLoadHw rhinoPlatform.drivers (ledFile 0x20000000) (calmLoad smoothConfig)
        bootKernel = (.loaded, after) →
      ∀ reg ∈ (after.infos bootKernel.nextInfo).ioreg, RawMapped idleBus sampleMap () reg := by
  intro always
  have safe := always _ (borphLoadHw_ledFile (Or.inr rfl)) (ledIoreg 0x20000000)
    (by rw [(ledFile_loaded (Or.inr rfl)).2]; exact List.mem_singleton_self _)
  have mapped := (rawMapped_iff idleBus sampleMap () _).mp safe (by decide) (by decide) 0
    (Nat.zero_le _)
  exact absurd (virtual_le_of_mapped mapped) (by decide)

end Rhino.Ioreg
