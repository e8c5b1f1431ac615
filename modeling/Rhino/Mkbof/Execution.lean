import Mathlib.Data.List.Forall2
import Rhino.Hwr.Configure.Delivery
import Rhino.Loader.Users
import Rhino.Loader.Walk
import Rhino.Mkbof.Layout
import Rhino.Mkbof.RoundTrip

/-!
# Running a written file

What becomes of the symbol file and of the bit file that `mkbof` has put into a
BOF file when the kernel loads it onto a free FPGA, nothing goes wrong and the
callbacks of the SPI core come in any order.  The load comes to its end unless
the bit file consists of whole pages.  Once it has, the record of the task
lists the symbols of the symbol file, and the FPGA has the bit file.
-/

namespace Rhino.Mkbof

open Rhino.Bof Rhino.Bytes Rhino.Hwr Rhino.Hwr.Configure Rhino.Kernel Rhino.Loader
open Rhino.Transition

/-- The file as `execve` hands it to the loader. -/
def program (file : File) (task : Task) : ExecqItem where
  bprm := ⟨BofHdr.decode file, file⟩
  task := task

/-- The environment of a load whose configurations follow a schedule, with no
message of an earlier one in flight. -/
def along (env : LoadEnv ConfigEnv) (schedule : List Move) : LoadEnv ConfigRun where
  infoMem := env.infoMem
  stack := env.stack
  region := fun turn =>
    { env.region turn with configure := ⟨(env.region turn).configure, schedule, []⟩ }

/-- Nothing goes wrong: the memory is there, the file can be read, and so is the
FPGA when it is looked at.  What is in the memory does not matter. -/
structure Served (env : LoadEnv ConfigEnv) : Prop where
  infoMem : env.infoMem = true
  strtabMem : (env.region 0).strtabMem.isSome = true
  regionMem : (env.region 0).regionMem = true
  ioregMem : ∀ i, (env.region 0).ioregMem i = true
  hdrIo : (env.region 0).hdrIo = .upTo MAX_RW_COUNT
  strtabIo : (env.region 0).strtabIo = .upTo MAX_RW_COUNT
  ioregIo : ∀ i, (env.region 0).ioregIo i = .upTo MAX_RW_COUNT
  begins : started rhinoAddr (env.region 0).configure = true
  readIo : ∀ number, (env.region 0).configure.readIo number = .upTo MAX_RW_COUNT
  status : ∀ number, (env.region 0).configure.status number = 0
  crcInitB : (env.region 0).configure.crcInitB = true
  done : (env.region 0).configure.done 0 = true
  fresh : (env.region 0).configure.staleDone = 0

/-- The globals for this board. -/
def rhinoGlobals : Globals := initialGlobals HAC_RHINO.toUInt32

/-! ## The header -/

theorem makeHwrhdr_addr (elfSize bitfileSize : ℕ) (table : Symtab) :
    (makeHwrhdr rhinoGlobals elfSize bitfileSize table).addr = rhinoAddr := rfl

theorem makeHwrhdr_asksForFpga (elfSize bitfileSize : ℕ) (table : Symtab) :
    AsksForFpga (makeHwrhdr rhinoGlobals elfSize bitfileSize table) where
  placed _ := rfl
  unplaced _ := rfl

/-! ## The tables and the payload -/

section Tables

variable {ε : Type} {felf fbit : List UInt8} {table : Symtab} {file : File}
  {r : LoadState RhinoDev} {env : RegionEnv ε}

/-- The loader reads the entries that have been written. -/
theorem LaidOut.entryAt_eq (laid : LaidOut felf fbit table file r)
    (small : file.length < 2 ^ 32) (served : ∀ i, env.ioregIo i = .upTo MAX_RW_COUNT) {i : ℕ}
    (lt : i < table.symtab.length) :
    entryAt file env r.curFoff i =
      BofIoreg.decode (slice (BofIoreg.size * i) BofIoreg.size (writeSymtab table.symtab)) := by
  have whole := congrArg List.length laid.symtab
  rw [slice_length, writeSymtab_length, laid.nrSymbol] at whole
  have inside : r.curFoff.toNat + BofIoreg.size * i + BofIoreg.size ≤ file.length := by
    unfold BofIoreg.size at whole ⊢
    omega
  have offset : (r.curFoff + UInt32.ofNat (BofIoreg.size * i)).toNat =
      r.curFoff.toNat + BofIoreg.size * i := by
    rw [UInt32.toNat_add, UInt32.toNat_ofNat']
    omega
  have entry : BofIoreg.size * i + BofIoreg.size ≤ r.hwrhdr.nrSymbol.toNat * BofIoreg.size := by
    rw [laid.nrSymbol]
    unfold BofIoreg.size
    omega
  have length_eq : (slice (r.curFoff.toNat + BofIoreg.size * i) BofIoreg.size file).length =
      BofIoreg.size := by
    rw [slice_length]
    omega
  rw [entryAt, served, offset, kernelRead_served (by decide) (by decide) inside,
    overlay_of_length_le (by rw [length_eq, uninit_length]), ← laid.symtab, slice_slice entry]

/-- It reads the string table that has been written. -/
theorem LaidOut.strtab_eq (laid : LaidOut felf fbit table file r) (counted : table.Counted)
    (served : env.strtabIo = .upTo MAX_RW_COUNT) {next : LoadState RhinoDev}
    {strtab : List UInt8} (loaded : loadStrtab file env r = .ok (next, strtab)) :
    strtab = writeStrtab table.symtab := by
  have whole : env.strtabIo.Whole := by
    rw [served]
    exact le_rfl
  have short : (Loader.strtabLen r.hwrhdr).toNat ≤ MAX_RW_COUNT := by
    have := (writeStrtab_length_le table.symtab).2
    have := counted.numsym
    rw [laid.strtabLen]
    unfold SYMTAB_SIZE MAX_RW_COUNT at *
    omega
  have read : strtabRead file env r = (((Loader.strtabLen r.hwrhdr).toNat : ℤ),
      writeStrtab table.symtab) := by
    rw [strtabRead, laid.strtabFoff, kernelRead_whole whole short, laid.strtab,
      laid.strtabLen]
    apply kernelRead_nonneg
    · unfold MAX_RW_COUNT at short
      omega
    · rw [served]
      rfl
  rw [loadStrtab_ok loaded, tableAt, read]
  apply overlay_of_length_le
  rw [uninit_length, laid.strtabLen]

/-- The payload is read in full. -/
theorem LaidOut.readsInFull (laid : LaidOut felf fbit table file r)
    (small : file.length < 2 ^ 32) {config : ConfigEnv}
    (served : ∀ number, config.readIo number = .upTo MAX_RW_COUNT) :
    Job.ReadsInFull ⟨file, config, r.hwrhdr.plOff, r.hwrhdr.plLen⟩ := by
  apply Job.readsInFull_of_inside served
  intro k lt
  have complete := laid.complete
  have sent := @Job.sent_le ⟨file, config, r.hwrhdr.plOff, r.hwrhdr.plLen⟩ k
  have offset : (r.hwrhdr.plOff + UInt32.ofNat
      (Job.sent ⟨file, config, r.hwrhdr.plOff, r.hwrhdr.plLen⟩ k)).toNat =
      r.hwrhdr.plOff.toNat + Job.sent ⟨file, config, r.hwrhdr.plOff, r.hwrhdr.plLen⟩ k := by
    rw [UInt32.toNat_add, Job.toNat_ofNat_sent]
    dsimp only at sent
    omega
  dsimp only at sent offset ⊢
  rw [offset]
  omega

end Tables

/-! ## The load -/

section Load

variable (felf fbit : List UInt8) (table : Symtab) (task : Task)

/-- The file for this board. -/
def rhinoFile : File := bofFile rhinoGlobals felf fbit table

/-- A file that has been written has an ELF header in front. -/
theorem rhinoFile_of_main {host : Host} {felf fsym fbit : List UInt8} {file : File}
    {table : Symtab} (written : main host rhinoGlobals felf fsym fbit = .ok file)
    (accepted : readSymbolFile host fsym = .ok table) :
    EHDR_SIZE ≤ felf.length ∧ file = rhinoFile felf fbit table := by
  have elf : EHDR_SIZE ≤ felf.length := by
    by_contra missing
    rw [main, if_pos (not_le.mp missing)] at written
    contradiction
  rw [main, if_neg (not_lt.mpr elf), accepted] at written
  exact ⟨elf, (Except.ok.inj written).symm⟩

/-- The header of its region. -/
def rhinoHwrhdr : HwrHdr := makeHwrhdr rhinoGlobals felf.length fbit.length table

/-- There is an ELF header in front, the symbols are counted, and no offset is cut off. -/
structure Fits : Prop where
  elf : EHDR_SIZE ≤ felf.length
  counted : table.Counted
  small : (rhinoFile felf fbit table).length < 2 ^ 32

/-- The load of the file. -/
abbrev rhinoLoad (kernel : KernelState RhinoDev) (env : LoadEnv ConfigEnv)
    (schedule : List Move) : LoadOutcome × KernelState RhinoDev :=
  borphLoadHw rhinoPlatform.drivers (program (rhinoFile felf fbit table) task)
    (along env schedule) kernel

/-- The configuration that it comes to. -/
abbrev rhinoConfiguration (env : LoadEnv ConfigEnv) (schedule : List Move) :
    Option ℤ × Transfer :=
  rhinoConfigure rhinoAddr (rhinoFile felf fbit table) (rhinoHwrhdr felf fbit table).plOff
    (rhinoHwrhdr felf fbit table).plLen (env.region 0).configure schedule

/-- What the loader has done when it comes to the configuration. -/
structure Declared (kernel : KernelState RhinoDev) (d : LoadState RhinoDev) : Prop where
  addr : d.hwrhdr.addr = rhinoAddr
  plOff : d.hwrhdr.plOff = (rhinoHwrhdr felf fbit table).plOff
  plLen : d.hwrhdr.plLen = (rhinoHwrhdr felf fbit table).plLen
  hw : d.kernel.hw = claimed kernel.hw rhinoAddr task
  hwRegion : (d.kernel.infos kernel.nextInfo).hwRegion =
    [⟨rhinoAddr, writeStrtab table.symtab⟩]
  ioreg : (d.kernel.infos kernel.nextInfo).ioreg =
    ((List.range table.symtab.length).map (loadedIoreg table.symtab rhinoAddr)).reverse

variable {felf fbit table task} {kernel : KernelState RhinoDev} {env : LoadEnv ConfigEnv}

/-- The header is read and the FPGA is reserved. -/
theorem prepareRegion_program (fits : Fits felf fbit table) (served : Served env)
    (free : rhinoPlatform.Free kernel.hw rhinoAddr) (schedule : List Move) :
    ∃ r : LoadState RhinoDev,
      prepareRegion rhinoPlatform.drivers (program (rhinoFile felf fbit table) task)
          ((along env schedule).region 0) (loadStart (program (rhinoFile felf fbit table) task)
            (along env schedule) kernel) = .ok r ∧
      r.hwrhdr = rhinoHwrhdr felf fbit table ∧
      r.curFoff = UInt32.ofNat (felf.length + EHDR_SIZE + HwrHdr.size) ∧
      r.kernel.hw = claimed kernel.hw rhinoAddr task ∧
      r.kernel.infos kernel.nextInfo = .fresh := by
  let start : LoadState RhinoDev :=
    loadStart (program (rhinoFile felf fbit table) task) (along env schedule) kernel
  let header : LoadState RhinoDev := { start with
    retval := (HwrHdr.size : ℤ)
    hwrhdr := rhinoHwrhdr felf fbit table
    curFoff := UInt32.ofNat (felf.length + EHDR_SIZE + HwrHdr.size) }
  have read : readHwrhdr (rhinoFile felf fbit table) ((along env schedule).region 0) start =
      .ok header :=
    readHwrhdr_bofFile rhinoGlobals fbit table fits.elf fits.small served.hdrIo (by decide) rfl
  have asks : AsksForFpga header.hwrhdr := makeHwrhdr_asksForFpga _ _ _
  have freeNow : rhinoPlatform.Free header.kernel.hw rhinoAddr := free
  obtain ⟨r, reserved, hwrhdr_eq, curFoff_eq, kernel_eq⟩ : ∃ r,
      reserveRegion rhinoPlatform.drivers task header = .ok r ∧ _ :=
    reserveRegion_rhino asks freeNow
  refine ⟨r, ?_, hwrhdr_eq, curFoff_eq, ?_, ?_⟩
  · change (readHwrhdr (rhinoFile felf fbit table) ((along env schedule).region 0) start).bind
      (reserveRegion rhinoPlatform.drivers task) = .ok r
    rw [read]
    exact reserved
  · rw [kernel_eq]
    rfl
  · rw [kernel_eq]
    exact Function.update_self _ _ _

/-- The only turn of the region loop gets as far as the configuration. -/
theorem loadRegions_program (fits : Fits felf fbit table) (served : Served env)
    (free : rhinoPlatform.Free kernel.hw rhinoAddr) (schedule : List Move) :
    ∃ d, Declared felf fbit table task kernel d ∧
      loadRegions rhinoPlatform.drivers (program (rhinoFile felf fbit table) task)
          (along env schedule) kernel 1 =
        configureRegion rhinoPlatform.drivers (rhinoFile felf fbit table)
          ((along env schedule).region 0) d := by
  obtain ⟨r, prepared, hwrhdr_eq, curFoff_eq, hw_eq, fresh⟩ :=
    @prepareRegion_program felf fbit table task kernel env fits served free schedule
  have laid : LaidOut felf fbit table (rhinoFile felf fbit table) r :=
    laidOut_bofFile rhinoGlobals fbit table fits.elf fits.counted fits.small hwrhdr_eq curFoff_eq
  have addr_eq : r.hwrhdr.addr = rhinoAddr := hwrhdr_eq ▸ makeHwrhdr_addr _ _ _
  have loads : StrtabLoads ((along env schedule).region 0) r := by
    have bounds := writeStrtab_length_le table.symtab
    have few := fits.counted.numsym
    rw [SYMTAB_SIZE] at few
    refine ⟨?_, served.strtabMem, ?_, ?_⟩
    · intro symbols empty
      have none_left := laid.strtabLen
      rw [empty] at none_left
      apply symbols
      apply UInt32.toNat_inj.mp
      rw [laid.nrSymbol]
      exact Nat.le_zero.mp (bounds.1.trans none_left.symm.le)
    · rw [laid.strtabLen]
      omega
    · change (env.region 0).strtabIo.fails = false
      rw [served.strtabIo]
      rfl
  have serves : MemoryServes ((along env schedule).region 0) r :=
    ⟨served.regionMem, fun i _ _ => served.ioregMem i⟩
  have readable (i : ℕ) (_ : i < r.hwrhdr.nrSymbol.toNat) :
      (((along env schedule).region 0).ioregIo i).fails = false := by
    change ((env.region 0).ioregIo i).fails = false
    rw [served.ioregIo]
    rfl
  obtain ⟨d, declared, changed⟩ : ∃ d, declareRegion (program (rhinoFile felf fbit table) task)
      ((along env schedule).region 0) kernel.nextInfo r = .ok d ∧
        Loader.Declared kernel.nextInfo r d :=
    declareRegion_ok loads serves readable
  obtain ⟨strtab, retval, loaded, hwRegion_eq, ioreg_eq, -⟩ := declareRegion_entered declared
  obtain ⟨left, kept⟩ := changed.hwrhdr
  rcases laid.strtab_eq fits.counted served.strtabIo loaded with rfl
  refine ⟨d, ?_, ?_⟩
  · constructor
    · rw [kept]
      exact addr_eq
    · rw [kept, hwrhdr_eq]
    · rw [kept, hwrhdr_eq]
    · rw [changed.hw, hw_eq]
    · rw [hwRegion_eq, addr_eq, fresh]
      rfl
    · rw [ioreg_eq, fresh, laid.nrSymbol, addr_eq]
      change _ ++ [] = _
      rw [List.append_nil]
      apply congrArg List.reverse
      apply List.map_congr_left
      intro i lt
      exact congrArg (ioregOf (writeStrtab table.symtab) rhinoAddr)
        (laid.entryAt_eq fits.small served.ioregIo (List.mem_range.mp lt))
  · change loadRegion rhinoPlatform.drivers (program (rhinoFile felf fbit table) task)
      (along env schedule) kernel.nextInfo 0 _ = _
    rw [loadRegion, prepared]
    change (declareRegion (program (rhinoFile felf fbit table) task)
      ((along env schedule).region 0) kernel.nextInfo r).bind
        (configureRegion rhinoPlatform.drivers (rhinoFile felf fbit table)
          ((along env schedule).region 0)) = _
    rw [declared]
    rfl

/-- The modes and the places of the names have sixteen bits. -/
structure Narrow (symtab : List Symbol) : Prop where
  mode : ∀ sym ∈ symtab, sym.mode.toNat < 65536
  name : (writeStrtab symtab).length ≤ 65536

/-- The registers of a declared region are those of the symbols. -/
theorem forall₂_loadedIoreg {symtab : List Symbol} {addr : HwrAddr} (narrow : Narrow symtab) :
    List.Forall₂ Describes ((List.range symtab.length).map (loadedIoreg symtab addr)) symtab := by
  rw [List.forall₂_iff_get]
  refine ⟨by simp, ?_⟩
  intro i _ inside
  rw [List.get_eq_getElem, List.get_eq_getElem, List.getElem_map, List.getElem_range]
  exact loadedIoreg_describes_of_small narrow.mode narrow.name addr
    (List.getElem?_eq_getElem inside)

/-- The program is running: the load has started a hardware process on the FPGA,
whose configuration is the bit file and whose registers are the symbols, the
last one first. -/
structure Runs (fbit : List UInt8) (symtab : List Symbol) (item : ExecqItem)
    (kernel after : KernelState RhinoDev) : Prop where
  started : Started item kernel after
  config : after.hw.board.dev.config = fbit
  hwRegion : (after.infos kernel.nextInfo).hwRegion = [⟨rhinoAddr, writeStrtab symtab⟩]
  ioreg : List.Forall₂ Describes (after.infos kernel.nextInfo).ioreg.reverse symtab
  hwraddr : ∀ reg ∈ (after.infos kernel.nextInfo).ioreg, reg.hwraddr = rhinoAddr

/-- The load has come to its end: the program is running with what the FPGA has
received, and its registers stand in the order of the symbols. -/
def Ends (felf fbit : List UInt8) (table : Symtab) (task : Task) (kernel : KernelState RhinoDev)
    (env : LoadEnv ConfigEnv) (schedule : List Move) (received : List UInt8) : Prop :=
  ∃ after, rhinoLoad felf fbit table task kernel env schedule = (.loaded, after) ∧
    Runs received table.symtab (program (rhinoFile felf fbit table) task) kernel after ∧
    (after.infos kernel.nextInfo).ioreg =
      ((List.range table.symtab.length).map (loadedIoreg table.symtab rhinoAddr)).reverse

/-- The header as the loader has it once it has read it. -/
theorem laidOut_rhinoFile (kernel : KernelState RhinoDev) (fits : Fits felf fbit table) :
    LaidOut felf fbit table (rhinoFile felf fbit table)
      (⟨kernel, UInt32.ofNat (felf.length + EHDR_SIZE + HwrHdr.size),
        rhinoHwrhdr felf fbit table, 0⟩ : LoadState RhinoDev) :=
  laidOut_bofFile rhinoGlobals fbit table fits.elf fits.counted fits.small rfl rfl

/-- Nothing goes wrong in the configuration. -/
theorem calm_rhinoFile (fits : Fits felf fbit table) (served : Served env) :
    Job.Calm ⟨rhinoFile felf fbit table, (env.region 0).configure,
      (rhinoHwrhdr felf fbit table).plOff, (rhinoHwrhdr felf fbit table).plLen⟩ where
  full := (laidOut_rhinoFile bootKernel fits).readsInFull fits.small served.readIo
  succeeds _ _ := served.status _
  crcInitB := served.crcInitB
  done := served.done
  fresh := served.fresh

/-- What the call of the driver makes of the configuration. -/
theorem Declared.configureRegion_eq {d : LoadState RhinoDev}
    (declared : Declared felf fbit table task kernel d) (served : Served env)
    (free : rhinoPlatform.Free kernel.hw rhinoAddr) {schedule : List Move} {result : Option ℤ}
    {t : Transfer}
    (ran : rhinoConfiguration felf fbit table env schedule = (result, t)) :
    (result = none → ∃ next, configureRegion rhinoPlatform.drivers (rhinoFile felf fbit table)
      ((along env schedule).region 0) d = .error ⟨.stuck, next⟩) ∧
    (result = some 0 → ∃ next, configureRegion rhinoPlatform.drivers
        (rhinoFile felf fbit table) ((along env schedule).region 0) d = .ok next ∧
      next.kernel.infos = d.kernel.infos ∧ next.kernel.hw.board.dev.config = t.received) := by
  have present : rhinoPlatform.Present d.kernel.hw d.hwrhdr.addr := by
    rw [declared.hw, declared.addr]
    exact free.1
  have used : (d.kernel.hw.board.phyhwrs d.hwrhdr.addr).count ≠ 0 := by
    rw [declared.hw, declared.addr, claimed, HwState.setHwr, HwState.withBoard,
      Board.setHwr_same]
    exact one_ne_zero
  have enters : entered rhinoAddr (env.region 0).configure = true :=
    (Bool.and_eq_true_iff.mp served.begins).1
  rcases configureRegion_cases rhinoPlatform (rhinoFile felf fbit table)
    ((along env schedule).region 0) present used with
    ⟨absent, -⟩ | ⟨run, op, answer, board, answered, -, ended⟩
  · rw [declared.addr] at absent
    contradiction
  · rw [declared.addr] at op
    rcases Option.some.inj op with rfl
    rw [declared.addr, declared.plOff, declared.plLen] at answered
    change rhinoConfigureOp rhinoAddr _ _ _ ⟨(env.region 0).configure, schedule, []⟩ _ = _
      at answered
    simp only [rhinoConfigureOp, rhinoConfigureBehind_nil, ran, enters, if_true,
      Prod.mk.injEq] at answered
    rcases answered with ⟨rfl, rfl⟩
    rcases ended with ⟨rfl, next, -, stuck, -⟩ | ⟨retval, rfl, negative, -⟩ | ⟨retval, rfl, -, ok⟩
    · exact ⟨fun _ => ⟨next, stuck⟩, fun zero => absurd zero (by simp)⟩
    · refine ⟨fun none => absurd none (by simp), fun zero => ?_⟩
      rw [Option.some.inj zero] at negative
      exact absurd negative (by decide)
    · exact ⟨fun none => absurd none (by simp), fun _ => ⟨_, ok, rfl, rfl⟩⟩

theorem plLen_rhinoFile (fits : Fits felf fbit table) :
    (rhinoHwrhdr felf fbit table).plLen.toNat = fbit.length := by
  have laid := laidOut_rhinoFile bootKernel fits
  have length_eq := congrArg List.length laid.payload
  have complete := laid.complete
  rw [slice_length] at length_eq
  dsimp only at length_eq complete
  omega

variable (fits : Fits felf fbit table) (served : Served env)
  (free : rhinoPlatform.Free kernel.hw rhinoAddr)
include fits served free

/-- A load whose configuration has not returned has not returned either. -/
theorem rhinoLoad_stuck {schedule : List Move}
    (pending : (rhinoConfiguration felf fbit table env schedule).1 = none) :
    (rhinoLoad felf fbit table task kernel env schedule).1 = .stuck := by
  obtain ⟨d, declared, loads⟩ :=
    @loadRegions_program felf fbit table task kernel env fits served free schedule
  obtain ⟨next, stuck⟩ := (declared.configureRegion_eq served free rfl).1 pending
  have mem : (along env schedule).infoMem = true := served.infoMem
  have single : (program (rhinoFile felf fbit table) task).bprm.buf.bNumchip.toNat = 1 := by
    rw [program, rhinoFile, decode_bofFile]
    rfl
  rw [rhinoLoad, borphLoadHw, if_pos mem, single, loads, stuck]

/-- A load whose configuration has returned zero has started the program with what
the FPGA has received. -/
theorem rhinoLoad_ends (narrow : Narrow table.symtab) {schedule : List Move} {t : Transfer}
    (returned : rhinoConfiguration felf fbit table env schedule = (some 0, t)) :
    Ends felf fbit table task kernel env schedule t.received := by
  obtain ⟨d, declared, loads⟩ :=
    @loadRegions_program felf fbit table task kernel env fits served free schedule
  obtain ⟨next, configured, infos_eq, config_eq⟩ :=
    (declared.configureRegion_eq served free returned).2 rfl
  have single : (program (rhinoFile felf fbit table) task).bprm.buf.bNumchip = 1 := by
    rw [program, rhinoFile, decode_bofFile]
    rfl
  have loaded : rhinoLoad felf fbit table task kernel env schedule =
      (.loaded, next.kernel.modifyInfo kernel.nextInfo fun info =>
        { info with status := info.status ||| 1 }) := by
    rw [borphLoadHw_eq_loaded_iff]
    refine ⟨served.infoMem, next, ?_, rfl⟩
    rw [single]
    exact loads.trans configured
  have ioreg_eq : ((next.kernel.modifyInfo kernel.nextInfo fun info =>
      { info with status := info.status ||| 1 }).infos kernel.nextInfo).ioreg =
        ((List.range table.symtab.length).map (loadedIoreg table.symtab rhinoAddr)).reverse := by
    rw [← declared.ioreg, ← infos_eq]
    simp [KernelState.modifyInfo]
  refine ⟨_, loaded, ?_, ioreg_eq⟩
  constructor
  · exact started_of_loaded (by rw [single]; decide) loaded
  · exact config_eq
  · rw [← declared.hwRegion, ← infos_eq]
    simp [KernelState.modifyInfo]
  · rw [ioreg_eq, List.reverse_reverse]
    exact forall₂_loadedIoreg narrow
  · intro reg member
    rw [ioreg_eq, List.mem_reverse] at member
    obtain ⟨i, -, rfl⟩ := List.mem_map.mp member
    rfl

/-- A load whose configuration has returned has started the program with the bit file. -/
theorem rhinoLoad_delivers (narrow : Narrow table.symtab) {schedule : List Move} {retval : ℤ}
    {t : Transfer}
    (returned : rhinoConfiguration felf fbit table env schedule = (some retval, t)) :
    Ends felf fbit table task kernel env schedule fbit := by
  have laid := laidOut_rhinoFile bootKernel fits
  have low : (rhinoHwrhdr felf fbit table).plOff.toNat +
      (rhinoHwrhdr felf fbit table).plLen.toNat ≤ 2 ^ 32 :=
    laid.complete.symm.trans_le fits.small.le
  obtain ⟨rfl, received⟩ := rhinoConfigure_calm (calm_rhinoFile fits served) served.begins low
    (congrArg Prod.fst returned)
  change (rhinoConfiguration felf fbit table env schedule).2.received = _ at received
  rw [returned, laid.payload] at received
  have ends : Ends felf fbit table task kernel env schedule t.received :=
    rhinoLoad_ends fits served free narrow returned
  rwa [received] at ends

/-- A load has not returned, or it has started the program with the bit file. -/
theorem rhinoLoad_cases (narrow : Narrow table.symtab) (schedule : List Move) :
    (rhinoLoad felf fbit table task kernel env schedule).1 = .stuck ∨
      Ends felf fbit table task kernel env schedule fbit := by
  rcases returned : rhinoConfiguration felf fbit table env schedule with ⟨result, t⟩
  cases result with
  | none =>
      exact Or.inl (rhinoLoad_stuck fits served free (congrArg Prod.fst returned))
  | some retval =>
      exact Or.inr (rhinoLoad_delivers fits served free narrow returned)

/-- The load of a bit file that ends inside a page can return from wherever it has got to. -/
theorem rhinoLoad_returns (narrow : Narrow table.symtab) (ends : fbit.length % 4096 ≠ 0)
    (schedule : List Move) :
    ∃ more, (rhinoLoad felf fbit table task kernel env (schedule ++ more)).1 = .loaded := by
  rw [← plLen_rhinoFile fits] at ends
  obtain ⟨more, returned⟩ :=
    rhinoConfigure_calm_returns (calm_rhinoFile fits served) served.begins ends schedule
  obtain ⟨after, loaded, -⟩ : Ends felf fbit table task kernel env (schedule ++ more) fbit :=
    rhinoLoad_delivers fits served free narrow (Prod.ext returned rfl)
  exact ⟨more, congrArg Prod.fst loaded⟩

end Load

/-- Whatever the ELF file, the symbol file and the bit file, and whatever the order
of the callbacks: a file that `mkbof` has written and that is loaded onto a free
FPGA without a failure runs as soon as the load has returned.  It can return
from wherever it has got to if the bit file ends inside a page, and never
returns if it does not. -/
theorem main_runs (host : Host) (felf fsym fbit : List UInt8) (task : Task)
    (kernel : KernelState RhinoDev) (env : LoadEnv ConfigEnv) {file : File} {table : Symtab}
    (written : main host rhinoGlobals felf fsym fbit = .ok file)
    (accepted : readSymbolFile host fsym = .ok table)
    (narrow : ∀ sym ∈ table.symtab, sym.mode.toNat < 65536)
    (short : (writeStrtab table.symtab).length ≤ 65536) (small : file.length < 2 ^ 32)
    (served : Served env) (free : rhinoPlatform.Free kernel.hw rhinoAddr) :
    let load := fun schedule => borphLoadHw rhinoPlatform.drivers (program file task)
      (along env schedule) kernel
    (∀ schedule, (load schedule).1 = .stuck ∨ (load schedule).1 = .loaded ∧
      Runs fbit table.symtab (program file task) kernel (load schedule).2) ∧
    (fbit.length % 4096 ≠ 0 → ∀ schedule, ∃ more, (load (schedule ++ more)).1 = .loaded) ∧
    (fbit.length % 4096 = 0 → ∀ schedule, (load schedule).1 = .stuck) := by
  intro load
  obtain ⟨elf, rfl⟩ := rhinoFile_of_main written accepted
  have fits : Fits felf fbit table := ⟨elf, readSymbolFile_counted accepted, small⟩
  have fields : Narrow table.symtab := ⟨narrow, short⟩
  refine ⟨?_, ?_, ?_⟩
  · intro schedule
    rcases @rhinoLoad_cases felf fbit table task kernel env fits served free fields schedule with
      stuck | ⟨after, loaded, runs, -⟩
    · exact Or.inl stuck
    · have load_eq : load schedule = (.loaded, after) := loaded
      rw [load_eq]
      exact Or.inr ⟨rfl, runs⟩
  · exact rhinoLoad_returns fits served free fields
  · intro pages schedule
    rw [← plLen_rhinoFile fits] at pages
    exact rhinoLoad_stuck fits served free
      (rhinoConfigure_calm_blocks (calm_rhinoFile fits served) served.begins pages schedule)

/-- Nothing goes wrong, and all memory is zero. -/
def calmEnv : LoadEnv ConfigEnv := calmLoad calmConfig

theorem calmEnv_served : Served calmEnv where
  infoMem := rfl
  strtabMem := rfl
  regionMem := rfl
  ioregMem _ := rfl
  hdrIo := rfl
  strtabIo := rfl
  ioregIo _ := rfl
  begins := rfl
  readIo _ := rfl
  status _ := rfl
  crcInitB := rfl
  done := rfl
  fresh := rfl

theorem main_ledLine :
    main sampleHost rhinoGlobals (List.replicate 52 0) ledLine [0xaa] =
      .ok (rhinoFile (List.replicate 52 0) [0xaa] ⟨[ledSymbol], 8⟩) := by
  rw [main, if_neg (by decide), readSymbolFile_ledLine]
  rfl

theorem ledSymbol_narrow : ∀ sym ∈ [ledSymbol], sym.mode.toNat < 65536 := by
  intro sym member
  rcases List.mem_singleton.mp member with rfl
  decide

theorem rhinoFile_led_small :
    (rhinoFile (List.replicate 52 0) [0xaa] ⟨[ledSymbol], 8⟩).length < 2 ^ 32 := by
  rw [show (rhinoFile (List.replicate 52 0) [0xaa] ⟨[ledSymbol], 8⟩).length = 153 from rfl]
  decide

/-- The register of the LEDs, with a bit file of one byte. -/
theorem led_main_runs :
    ∃ file, main sampleHost rhinoGlobals (List.replicate 52 0) ledLine [0xaa] = .ok file ∧
      ∃ schedule, (borphLoadHw rhinoPlatform.drivers (program file 1) (along calmEnv schedule)
          bootKernel).1 = .loaded ∧
        Runs [0xaa] [ledSymbol] (program file 1) bootKernel
          (borphLoadHw rhinoPlatform.drivers (program file 1) (along calmEnv schedule)
            bootKernel).2 := by
  refine ⟨_, main_ledLine, ?_⟩
  obtain ⟨runs, ends, -⟩ := main_runs sampleHost (List.replicate 52 0) ledLine [0xaa] 1
    bootKernel calmEnv main_ledLine readSymbolFile_ledLine ledSymbol_narrow (by decide)
    rhinoFile_led_small calmEnv_served (by decide)
  obtain ⟨schedule, loaded⟩ := ends (by decide) []
  refine ⟨schedule, loaded, ?_⟩
  rcases runs schedule with stuck | ⟨-, running⟩
  · exact absurd (stuck.symm.trans loaded) (by decide)
  · exact running

end Rhino.Mkbof
