import Rhino.Hwr.Contract
import Rhino.Loader.Core

/-!
# What the stages of a region turn can do

One lemma for each stage of the loop of `borph_load_hw` lists every way in
which the stage ends and what it has changed by then.  The properties of the
loader are derived from these lists and do not look at the stages again.
-/

namespace Rhino.Loader

open Rhino.Bof Rhino.Bytes Rhino.Hwr Rhino.Kernel Rhino.Transition

variable {δ ε : Type}

/-! ## Reserving a region -/

/-- A header is read only at an offset that is not zero, and reading it changes
nothing but the variables of the loop. -/
theorem readHwrhdr_cases (file : File) (env : RegionEnv ε) (s : LoadState δ) :
    (s.curFoff = 0 ∧ readHwrhdr file env s = .error ⟨.delregion .badOffset, s⟩) ∨
    (s.curFoff ≠ 0 ∧ ∃ next, readHwrhdr file env s = .error ⟨.delregion .readHwrhdr, next⟩ ∧
      next.kernel = s.kernel ∧ next.retval < 0) ∨
    (s.curFoff ≠ 0 ∧ ∃ next, readHwrhdr file env s = .ok next ∧ next.kernel = s.kernel) := by
  by_cases offset : s.curFoff = 0
  · left
    exact ⟨offset, if_pos offset⟩
  · right
    rcases read : kernelRead file env.hdrIo s.curFoff.toNat HwrHdr.size with ⟨retval, bytes⟩
    by_cases failed : retval < 0
    · left
      refine ⟨offset, ?_⟩
      simp only [readHwrhdr, offset, if_false, read, failed, if_true]
      exact ⟨_, rfl, rfl, failed⟩
    · right
      refine ⟨offset, ?_⟩
      simp only [readHwrhdr, offset, if_false, read, failed]
      exact ⟨_, rfl, rfl⟩

section Reserve

variable (platform : Platform δ ε)

/-- The registry after the reservation of a free region. -/
def reserved (hw : HwState δ) (addr : HwrAddr) : HwState δ :=
  hw.setHwr addr { hw.board.phyhwrs addr with count := 1 }

/-- The registry after a task has reserved a free region. -/
def claimed (hw : HwState δ) (addr : HwrAddr) (task : Task) : HwState δ :=
  hw.setHwr addr { hw.board.phyhwrs addr with count := 1, task := some task }

theorem tryAddrs_cases (addr : HwrAddr) (hw : HwState δ) (candidates : List UInt16) :
    (∃ found, platform.Free hw found ∧
      tryAddrs platform.drivers addr hw candidates = (some found, found, reserved hw found)) ∨
    (∃ last, tryAddrs platform.drivers addr hw candidates = (none, last, hw)) := by
  induction candidates generalizing addr with
  | nil => exact Or.inr ⟨addr, rfl⟩
  | cons i rest ih =>
      by_cases free : platform.Free hw { addr with addr := i }
      · left
        refine ⟨_, free, ?_⟩
        simp only [tryAddrs, reserveHwr_eq, if_pos free]
        rfl
      · simp only [tryAddrs, reserveHwr_eq, if_neg free]
        exact ih _

theorem bprNextfree_cases (addr : HwrAddr) (hw : HwState δ) :
    (∃ found, platform.Free hw found ∧
      bprNextfree platform.drivers addr hw = (some found, found, reserved hw found)) ∨
    (∃ last, bprNextfree platform.drivers addr hw = (none, last, hw)) := by
  by_cases other : addr.cls ≠ HAC_RHINO
  · right
    exact ⟨addr, if_pos other⟩
  · rw [bprNextfree, if_neg other]
    exact tryAddrs_cases platform addr hw _

theorem setHwr_reserved (hw : HwState δ) (addr : HwrAddr) (task : Task) :
    (reserved hw addr).setHwr addr
        { (reserved hw addr).board.phyhwrs addr with task := some task } =
      claimed hw addr task := by
  simp [reserved, claimed, HwState.setHwr, HwState.withBoard]

/-- A reservation hands out a free region or leaves the registry alone. -/
theorem reserveRegion_cases (task : Task) (s : LoadState δ) :
    (∃ next, reserveRegion platform.drivers task s = .error ⟨.delregion .busy, next⟩ ∧
      next.kernel = s.kernel ∧ next.retval < 0) ∨
    (∃ next, reserveRegion platform.drivers task s = .ok next ∧
      platform.Free s.kernel.hw next.hwrhdr.addr ∧
      next.kernel = { s.kernel with hw := claimed s.kernel.hw next.hwrhdr.addr task }) := by
  by_cases placed : s.hwrhdr.flag &&& HFG_PLACED ≠ 0
  · by_cases free : platform.Free s.kernel.hw s.hwrhdr.addr
    · right
      simp only [reserveRegion, if_pos placed, reserveHwr_eq, if_pos free]
      refine ⟨_, rfl, free, ?_⟩
      rw [← setHwr_reserved]
      rfl
    · left
      simp only [reserveRegion, if_pos placed, reserveHwr_eq, if_neg free]
      exact ⟨_, rfl, rfl, neg_ebusy_lt_zero⟩
  · rcases bprNextfree_cases platform s.hwrhdr.addr s.kernel.hw with
      ⟨found, free, eq⟩ | ⟨last, eq⟩
    · right
      simp only [reserveRegion, if_neg placed, eq]
      refine ⟨_, rfl, free, ?_⟩
      rw [← setHwr_reserved]
    · left
      simp only [reserveRegion, if_neg placed, eq]
      exact ⟨_, rfl, rfl, neg_ebusy_lt_zero⟩

/-- The state in which a region has been reserved for a task. -/
theorem prepareRegion_cases (item : ExecqItem) (env : RegionEnv ε) (s : LoadState δ) :
    (s.curFoff = 0 ∧
      prepareRegion platform.drivers item env s = .error ⟨.delregion .badOffset, s⟩) ∨
    (s.curFoff ≠ 0 ∧ ∃ exit next,
      prepareRegion platform.drivers item env s = .error ⟨.delregion exit, next⟩ ∧
      next.kernel = s.kernel ∧ next.retval < 0) ∨
    (s.curFoff ≠ 0 ∧ ∃ next, prepareRegion platform.drivers item env s = .ok next ∧
      platform.Free s.kernel.hw next.hwrhdr.addr ∧
      next.kernel = { s.kernel with
        hw := claimed s.kernel.hw next.hwrhdr.addr item.task }) := by
  rcases readHwrhdr_cases item.bprm.file env s with
    ⟨offset, read⟩ | ⟨offset, failed, read, kernel_eq, negative⟩ | ⟨offset, header, read, kernel_eq⟩
  · left
    exact ⟨offset, by rw [prepareRegion, read]; rfl⟩
  · right; left
    exact ⟨offset, _, failed, by rw [prepareRegion, read]; rfl, kernel_eq, negative⟩
  · right
    have rest : prepareRegion platform.drivers item env s =
        reserveRegion platform.drivers item.task header := by
      rw [prepareRegion, read]
      rfl
    rw [rest, ← kernel_eq]
    rcases reserveRegion_cases platform item.task header with
      ⟨next, busy, same, negative⟩ | ⟨next, ok, free, taken⟩
    · left
      exact ⟨offset, _, next, busy, same, negative⟩
    · right
      exact ⟨offset, next, ok, free, taken⟩

end Reserve

/-! ## Entering the region and its registers -/

/-- The string table of the header can be allocated and read. -/
structure StrtabLoads (env : RegionEnv ε) (s : LoadState δ) : Prop where
  nonempty : s.hwrhdr.nrSymbol ≠ 0 → strtabLen s.hwrhdr ≠ 0
  allocated : env.strtabMem.isSome
  small : (strtabLen s.hwrhdr).toNat < 2 ^ 31
  readable : env.strtabIo.fails = false

/-- The unchecked allocations of a turn succeed as far as it gets: the region,
and every register up to the first entry that cannot be read. -/
structure MemoryServes (env : RegionEnv ε) (s : LoadState δ) : Prop where
  region : env.regionMem = true
  ioreg : ∀ i < s.hwrhdr.nrSymbol.toNat,
    (∀ j ≤ i, (env.ioregIo j).fails = false) → env.ioregMem i = true

theorem loadStrtab_cases (file : File) (env : RegionEnv ε) (s : LoadState δ) :
    (¬ StrtabLoads env s ∧ ∃ exit next,
      loadStrtab file env s = .error ⟨.delregion exit, next⟩ ∧
      next.kernel = s.kernel ∧ next.retval < 0) ∨
    (StrtabLoads env s ∧ ∃ strtab retval,
      loadStrtab file env s = .ok ({ s with retval := retval }, strtab)) := by
  by_cases empty : strtabLen s.hwrhdr = 0 ∧ s.hwrhdr.nrSymbol ≠ 0
  · left
    refine ⟨fun loads => loads.nonempty empty.2 empty.1, _, _, if_pos empty, rfl, ?_⟩
    exact neg_enoexec_lt_zero
  · cases mem : env.strtabMem with
    | none =>
        left
        refine ⟨?_, .nomemStrtab, { s with retval := -enoexec }, ?_, rfl, neg_enoexec_lt_zero⟩
        · intro loads
          simpa [mem] using loads.allocated
        · simp only [loadStrtab, if_neg empty, mem]
    | some junk =>
        rcases read : strtabRead file env s with ⟨retval, bytes⟩
        have sign : retval < 0 ↔
            2 ^ 31 ≤ (strtabLen s.hwrhdr).toNat ∨ env.strtabIo.fails = true := by
          have general := kernelRead_neg_iff file env.strtabIo
            (s.curFoff + s.hwrhdr.nrSymbol * UInt32.ofNat BofIoreg.size).toNat
            (strtabLen s.hwrhdr).toNat
          rwa [show kernelRead _ _ _ _ = _ from read] at general
        by_cases failed : retval < 0
        · left
          refine ⟨?_, .readStrtab, { s with retval := retval }, ?_, rfl, failed⟩
          · intro loads
            rcases sign.mp failed with large | fails
            · exact absurd loads.small (not_lt.mpr large)
            · simp [loads.readable] at fails
          · simp only [loadStrtab, if_neg empty, mem, read, if_pos failed]
        · right
          have fine := mt sign.mpr failed
          rw [not_or, not_le, Bool.not_eq_true] at fine
          refine ⟨⟨?_, ?_, fine.1, fine.2⟩,
            overlay bytes (uninit junk (strtabLen s.hwrhdr).toNat), retval, ?_⟩
          · intro symbols none
            exact empty ⟨none, symbols⟩
          · simp [mem]
          · simp only [loadStrtab, if_neg empty, mem, read, if_neg failed]

/-- What entering a region changes: the record gains the region and registers,
and of the header at most the symbol count is spoilt. -/
structure Declared (bi : ℕ) (s next : LoadState δ) : Prop where
  hwrhdr : ∃ left, next.hwrhdr = { s.hwrhdr with nrSymbol := left }
  kernel : ∃ strtab regs, next.kernel = s.kernel.modifyInfo bi fun info =>
    { info with
      hwRegion := ⟨s.hwrhdr.addr, strtab⟩ :: info.hwRegion
      ioreg := regs ++ info.ioreg }

theorem modifyInfo_modifyInfo (kernel : KernelState δ) (bi : ℕ)
    (first second : BorphInfo → BorphInfo) :
    (kernel.modifyInfo bi first).modifyInfo bi second =
      kernel.modifyInfo bi fun info => second (first info) := by
  simp [KernelState.modifyInfo]

theorem loadIoreg_cases (file : File) (env : RegionEnv ε) (bi : ℕ) (strtab : List UInt8)
    (i : ℕ) (s : LoadState δ) :
    ((env.ioregIo i).fails = true ∧ ∃ retval < 0, loadIoreg file env bi strtab i s =
      .error ⟨.delregion .readIoreg, { s with retval := retval }⟩) ∨
    ((env.ioregIo i).fails = false ∧ env.ioregMem i = false ∧ ∃ retval,
      loadIoreg file env bi strtab i s = .error ⟨.oops, { s with retval := retval }⟩) ∨
    ((env.ioregIo i).fails = false ∧ env.ioregMem i = true ∧ ∃ next reg,
      loadIoreg file env bi strtab i s = .ok next ∧ next.hwrhdr = s.hwrhdr ∧
      next.kernel = s.kernel.modifyInfo bi fun info =>
        { info with ioreg := reg :: info.ioreg }) := by
  rcases read : kernelRead file (env.ioregIo i) s.curFoff.toNat BofIoreg.size with
    ⟨retval, bytes⟩
  have sign : retval < 0 ↔ (env.ioregIo i).fails = true := by
    have general := kernelRead_neg_iff file (env.ioregIo i) s.curFoff.toNat BofIoreg.size
    have short : ¬ 2 ^ 31 ≤ BofIoreg.size := by decide
    rwa [read, or_iff_right short] at general
  cases fails : (env.ioregIo i).fails with
  | true =>
      left
      have failed : retval < 0 := sign.mpr fails
      refine ⟨rfl, retval, failed, ?_⟩
      simp only [loadIoreg, read, if_pos failed]
  | false =>
      right
      have fine : ¬ retval < 0 := by
        intro failed
        rw [sign.mp failed] at fails
        contradiction
      cases mem : env.ioregMem i with
      | false =>
          left
          refine ⟨rfl, rfl, retval, ?_⟩
          simp [loadIoreg, read, fine, mem]
      | true =>
          right
          refine ⟨rfl, rfl, ?_⟩
          simp only [loadIoreg, read, if_neg fine, mem, if_true]
          exact ⟨_, _, rfl, rfl, rfl⟩

/-- What the register loop has done after `i` turns. -/
structure IoregsLoaded (env : RegionEnv ε) (bi : ℕ) (start : LoadState δ) (i : ℕ)
    (s : LoadState δ) : Prop where
  readable : ∀ j < i, (env.ioregIo j).fails = false
  allocated : ∀ j < i, env.ioregMem j = true
  hwrhdr : s.hwrhdr = start.hwrhdr
  kernel : ∃ regs, s.kernel = start.kernel.modifyInfo bi fun info =>
    { info with ioreg := regs ++ info.ioreg }

theorem ioregsLoaded_of_reached {file : File} {env : RegionEnv ε} {bi : ℕ}
    {strtab : List UInt8} {start s : LoadState δ} {i : ℕ}
    (reached : repeatTurns (loadIoreg file env bi strtab) start i = .ok s) :
    IoregsLoaded env bi start i s := by
  refine repeatTurns_invariant (IoregsLoaded env bi start) ?_ ?_ reached
  · exact ⟨by simp, by simp, rfl, [], by simp [KernelState.modifyInfo]⟩
  · intro turn state next loaded taken
    obtain ⟨regs, kernel_eq⟩ := loaded.kernel
    rcases loadIoreg_cases file env bi strtab turn state with
      ⟨_, _, _, failed⟩ | ⟨_, _, _, failed⟩ | ⟨fine, mem, other, reg, ok, hwrhdr_eq, added⟩
    · rw [failed] at taken
      contradiction
    · rw [failed] at taken
      contradiction
    · obtain rfl : other = next := Except.ok.inj (ok.symm.trans taken)
      refine ⟨?_, ?_, hwrhdr_eq.trans loaded.hwrhdr, reg :: regs, ?_⟩
      · intro j lt
        rcases Nat.lt_succ_iff_lt_or_eq.mp lt with before | rfl
        · exact loaded.readable j before
        · exact fine
      · intro j lt
        rcases Nat.lt_succ_iff_lt_or_eq.mp lt with before | rfl
        · exact loaded.allocated j before
        · exact mem
      · rw [added, kernel_eq, modifyInfo_modifyInfo]
        rfl

/-- The register loop ends at the first entry that cannot be read, at the first
one before it that cannot be allocated, or has entered them all. -/
theorem ioregLoop_cases (file : File) (env : RegionEnv ε) (bi : ℕ) (strtab : List UInt8)
    (start : LoadState δ) (count : ℕ) :
    ((∃ i < count, (∀ j ≤ i, (env.ioregIo j).fails = false) ∧ env.ioregMem i = false) ∧
      ∃ next retval i, IoregsLoaded env bi start i next ∧
        repeatTurns (loadIoreg file env bi strtab) start count =
          .error ⟨.oops, { next with retval := retval }⟩) ∨
    ((∀ i < count, (∀ j ≤ i, (env.ioregIo j).fails = false) → env.ioregMem i = true) ∧
      ((∃ next retval i, retval < 0 ∧ IoregsLoaded env bi start i next ∧
        repeatTurns (loadIoreg file env bi strtab) start count =
          .error ⟨.delregion .readIoreg, { next with retval := retval }⟩) ∨
      (∃ next, IoregsLoaded env bi start count next ∧
        repeatTurns (loadIoreg file env bi strtab) start count = .ok next))) := by
  cases ended : repeatTurns (loadIoreg file env bi strtab) start count with
  | ok next =>
      right
      have loaded := ioregsLoaded_of_reached ended
      exact ⟨fun i lt _ => loaded.allocated i lt, Or.inr ⟨next, loaded, rfl⟩⟩
  | error halt =>
      obtain ⟨i, lt, s, reached, left⟩ := repeatTurns_eq_error_iff.mp ended
      have loaded := ioregsLoaded_of_reached reached
      rcases loadIoreg_cases file env bi strtab i s with
        ⟨fails, retval, negative, failed⟩ | ⟨fine, mem, retval, failed⟩ | ⟨_, _, _, _, ok, _⟩
      · right
        rw [failed] at left
        cases left
        refine ⟨?_, Or.inl ⟨s, retval, i, negative, loaded, rfl⟩⟩
        intro k _ readable
        rcases Nat.lt_or_ge k i with before | after
        · exact loaded.allocated k before
        · rw [readable i after] at fails
          contradiction
      · left
        rw [failed] at left
        cases left
        refine ⟨⟨i, lt, ?_, mem⟩, s, retval, i, loaded, rfl⟩
        intro j le
        rcases Nat.lt_or_eq_of_le le with before | rfl
        · exact loaded.readable j before
        · exact fine
      · rw [ok] at left
        contradiction

/-- Every way in which a region and its registers are entered or not. -/
theorem declareRegion_cases (item : ExecqItem) (env : RegionEnv ε) (bi : ℕ)
    (s : LoadState δ) :
    (¬ StrtabLoads env s ∧ ∃ exit next,
      declareRegion item env bi s = .error ⟨.delregion exit, next⟩ ∧
      next.kernel = s.kernel ∧ next.retval < 0) ∨
    (StrtabLoads env s ∧ ¬ MemoryServes env s ∧ ∃ next,
      declareRegion item env bi s = .error ⟨.oops, next⟩ ∧
      (next.kernel = s.kernel ∨ Declared bi s next)) ∨
    (StrtabLoads env s ∧ MemoryServes env s ∧ ∃ exit next,
      declareRegion item env bi s = .error ⟨.delregion exit, next⟩ ∧
      Declared bi s next ∧ next.retval < 0) ∨
    (StrtabLoads env s ∧ MemoryServes env s ∧ ∃ next,
      declareRegion item env bi s = .ok next ∧ Declared bi s next) := by
  rcases loadStrtab_cases item.bprm.file env s with
    ⟨unloaded, exit, next, failed, kernel_eq, negative⟩ | ⟨loads, strtab, retval, ok⟩
  · left
    refine ⟨unloaded, exit, next, ?_, kernel_eq, negative⟩
    rw [declareRegion, failed]
    rfl
  · right
    cases mem : env.regionMem with
    | false =>
        left
        refine ⟨loads, ?_, { s with retval := retval }, ?_, Or.inl rfl⟩
        · intro serves
          rw [serves.region] at mem
          contradiction
        · rw [declareRegion, ok]
          simp [linkRegion, mem, bind, Except.bind]
    | true =>
        -- The region is linked; what follows is the register loop.
        let linked : LoadState δ := { s with
          retval := retval
          kernel := s.kernel.modifyInfo bi fun info =>
            { info with hwRegion := ⟨s.hwrhdr.addr, strtab⟩ :: info.hwRegion } }
        have rest : declareRegion item env bi s =
            (repeatTurns (loadIoreg item.bprm.file env bi strtab) linked
              s.hwrhdr.nrSymbol.toNat).bind fun s =>
                .ok { s with hwrhdr := { s.hwrhdr with nrSymbol := 0xffffffff } } := by
          rw [declareRegion, ok]
          simp only [linkRegion, mem, bind, Except.bind, if_true]
          rfl
        have declared {i : ℕ} {next : LoadState δ} (loaded : IoregsLoaded env bi linked i next) :
            Declared bi s next := by
          obtain ⟨regs, kernel_eq⟩ := loaded.kernel
          refine ⟨⟨s.hwrhdr.nrSymbol, loaded.hwrhdr⟩, strtab, regs, ?_⟩
          rw [kernel_eq, modifyInfo_modifyInfo]
        rcases ioregLoop_cases item.bprm.file env bi strtab linked s.hwrhdr.nrSymbol.toNat with
          ⟨⟨i, lt, readable, full⟩, next, retval, turns, loaded, ended⟩ | ⟨serves, ended⟩
        · left
          refine ⟨loads, ?_, _, by rw [rest, ended]; rfl, Or.inr ?_⟩
          · intro serves
            rw [serves.ioreg i lt readable] at full
            contradiction
          · exact ⟨(declared loaded).hwrhdr, (declared loaded).kernel⟩
        · right
          rcases ended with ⟨next, retval, i, negative, loaded, ended⟩ | ⟨next, loaded, ended⟩
          · left
            refine ⟨loads, ⟨mem, serves⟩, _, _, by rw [rest, ended]; rfl, ?_, negative⟩
            exact ⟨(declared loaded).hwrhdr, (declared loaded).kernel⟩
          · right
            refine ⟨loads, ⟨mem, serves⟩, _, by rw [rest, ended]; rfl, ?_⟩
            refine ⟨⟨0xffffffff, ?_⟩, (declared loaded).kernel⟩
            simp only [loaded.hwrhdr]
            rfl

/-- What is known of a region that has been entered. -/
theorem declared_of_ok {item : ExecqItem} {env : RegionEnv ε} {bi : ℕ} {s next : LoadState δ}
    (ok : declareRegion item env bi s = .ok next) : Declared bi s next := by
  rcases declareRegion_cases item env bi s with
    ⟨_, _, _, failed, _⟩ | ⟨_, _, _, failed, _⟩ | ⟨_, _, _, _, failed, _⟩ |
    ⟨_, _, other, entered, declared⟩
  · cases failed.symm.trans ok
  · cases failed.symm.trans ok
  · cases failed.symm.trans ok
  · cases Except.ok.inj (entered.symm.trans ok)
    exact declared

/-! ## Configuring -/

section Configure

variable (platform : Platform δ ε)

/-- The registry after `configure` has worked on the board. -/
def configured (hw : HwState δ) (addr : HwrAddr) (board : Board δ) : HwState δ :=
  { hw with board := board, calls := hw.calls ++ [.configure addr] }

/-- The registry after a region has been activated. -/
def activated (hw : HwState δ) (addr : HwrAddr) : HwState δ :=
  hw.setHwr addr { hw.board.phyhwrs addr with active := 1 }

/-- The driver of a reserved region configures it, fails, or never returns; a
driver that cannot configure is found out with its use count raised. -/
theorem configureRegion_cases (file : File) (env : RegionEnv ε) {s : LoadState δ}
    (present : platform.Present s.kernel.hw s.hwrhdr.addr)
    (used : (s.kernel.hw.board.phyhwrs s.hwrhdr.addr).count ≠ 0) :
    ((platform.drivers s.hwrhdr.addr.cls).ops.configure = none ∧ ∃ next ht,
      configureRegion platform.drivers file env s = .error ⟨.delregion .noHwrops, next⟩ ∧
      s.kernel.hw.lookup s.hwrhdr.addr = some ht ∧ next.retval < 0 ∧
      next.kernel = { s.kernel with
        hw := s.kernel.hw.setCount s.hwrhdr.addr.cls (ht.count + 1) }) ∨
    (∃ run, (platform.drivers s.hwrhdr.addr.cls).ops.configure = some run ∧
      ∃ result board, run s.hwrhdr.addr file s.hwrhdr.plOff s.hwrhdr.plLen env.configure
          s.kernel.hw.board = (result, board) ∧ board.phyhwrs = s.kernel.hw.board.phyhwrs ∧
        ((result = none ∧ ∃ next count,
          configureRegion platform.drivers file env s = .error ⟨.stuck, next⟩ ∧
          next.kernel = { s.kernel with
            hw := configured (s.kernel.hw.setCount s.hwrhdr.addr.cls count) s.hwrhdr.addr
              board }) ∨
        (∃ retval, result = some retval ∧ retval < 0 ∧
          configureRegion platform.drivers file env s = .error ⟨.delregion .configure,
            { s with
              retval := retval
              kernel := { s.kernel with
                hw := configured s.kernel.hw s.hwrhdr.addr board } }⟩) ∨
        (∃ retval, result = some retval ∧ 0 ≤ retval ∧
          configureRegion platform.drivers file env s = .ok
            { s with
              retval := retval
              curFoff := s.hwrhdr.nextHwr
              kernel := { s.kernel with
                hw := activated (configured s.kernel.hw s.hwrhdr.addr board)
                  s.hwrhdr.addr } }))) := by
  obtain ⟨ht, found⟩ := Option.isSome_iff_exists.mp present.1
  have got : getHwrops platform.drivers s.hwrhdr.addr s.kernel.hw =
      (some (platform.drivers s.hwrhdr.addr.cls).ops,
        s.kernel.hw.setCount s.hwrhdr.addr.cls (ht.count + 1)) := by
    simp only [getHwrops, found]
  cases op : (platform.drivers s.hwrhdr.addr.cls).ops.configure with
  | none =>
      left
      refine ⟨rfl, ?_⟩
      simp only [configureRegion, got, Option.bind_some, op]
      exact ⟨_, ht, rfl, found, neg_enoexec_lt_zero, rfl⟩
  | some run =>
      right
      refine ⟨run, rfl, ?_⟩
      rcases ran : run s.hwrhdr.addr file s.hwrhdr.plOff s.hwrhdr.plLen env.configure
        s.kernel.hw.board with ⟨result, board⟩
      have records : board.phyhwrs = s.kernel.hw.board.phyhwrs := by
        have kept := (platform.lawful s.hwrhdr.addr.cls).configure run op s.hwrhdr.addr file
          s.hwrhdr.plOff s.hwrhdr.plLen env.configure s.kernel.hw.board
        rwa [ran] at kept
      refine ⟨result, board, rfl, records, ?_⟩
      have ran' : run s.hwrhdr.addr file s.hwrhdr.plOff s.hwrhdr.plLen env.configure
          (s.kernel.hw.setCount s.hwrhdr.addr.cls (ht.count + 1)).board = (result, board) := ran
      have put : putHwrops s.hwrhdr.addr
          { s.kernel.hw.setCount s.hwrhdr.addr.cls (ht.count + 1) with
            board := board
            calls := s.kernel.hw.calls ++ [.configure s.hwrhdr.addr] } =
            configured s.kernel.hw s.hwrhdr.addr board := by
        let logged : HwState δ := { s.kernel.hw with
          calls := s.kernel.hw.calls ++ [.configure s.hwrhdr.addr] }
        have found' : logged.lookup s.hwrhdr.addr = some ht := found
        exact putHwrops_setCount found' board
      cases result with
      | none =>
          left
          refine ⟨rfl, ?_⟩
          simp only [configureRegion, got, Option.bind_some, op, ran']
          exact ⟨_, ht.count + 1, rfl, rfl⟩
      | some retval =>
          right
          by_cases failed : retval < 0
          · left
            refine ⟨retval, rfl, failed, ?_⟩
            simp only [configureRegion, got, Option.bind_some, op, ran', if_pos failed]
            rw [← put]
            rfl
          · right
            refine ⟨retval, rfl, not_lt.mp failed, ?_⟩
            have on : hwrActivate platform.drivers s.hwrhdr.addr
                (configured s.kernel.hw s.hwrhdr.addr board) =
                  activated (configured s.kernel.hw s.hwrhdr.addr board) s.hwrhdr.addr := by
              have present' : platform.Present (configured s.kernel.hw s.hwrhdr.addr board)
                s.hwrhdr.addr := present
              refine setActive_eq platform present' ?_ 1
              rwa [← records] at used
            simp only [configureRegion, got, Option.bind_some, op, ran', if_neg failed]
            rw [← on, ← put]
            rfl

end Configure

end Rhino.Loader
