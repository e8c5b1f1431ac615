import Rhino.Loader.Registers

/-!
# When a load succeeds

The invariants of the loader say what a load has done if it succeeds.  Here is
the other direction, for the RHINO board: a header for a free FPGA, memory,
readable tables and a configuration that reports no error take the region loop
through its turn.
-/

namespace Rhino.Loader

open Rhino.Bof Rhino.Bytes Rhino.Hwr Rhino.Kernel Rhino.Transition

variable {δ ε : Type}

theorem readHwrhdr_served {file : File} {env : RegionEnv ε} {s : LoadState δ} {hdr : HwrHdr}
    {retval : ℤ} {bytes : List UInt8} (offset : s.curFoff ≠ 0)
    (read : kernelRead file env.hdrIo s.curFoff.toNat HwrHdr.size = (retval, bytes))
    (nonnegative : 0 ≤ retval)
    (decoded : HwrHdr.decode (overlay bytes s.hwrhdr.encode) = hdr) :
    readHwrhdr file env s = .ok
      { s with
        retval := retval
        hwrhdr := hdr
        curFoff := s.curFoff + UInt32.ofNat HwrHdr.size } := by
  simp only [readHwrhdr, if_neg offset, read, if_neg (not_lt.mpr nonnegative), decoded]

theorem served_of_readHwrhdr {file : File} {env : RegionEnv ε} {s next : LoadState δ}
    (taken : readHwrhdr file env s = .ok next) :
    s.curFoff ≠ 0 ∧ 0 ≤ (kernelRead file env.hdrIo s.curFoff.toNat HwrHdr.size).1 := by
  unfold readHwrhdr at taken
  simp only at taken
  split at taken
  · contradiction
  · next offset =>
    split at taken
    · contradiction
    · next fine => exact ⟨offset, not_lt.mp fine⟩

/-- The header asks for the FPGA, by its address or by its class. -/
structure AsksForFpga (hdr : HwrHdr) : Prop where
  placed : hdr.flag &&& HFG_PLACED ≠ 0 → hdr.addr = rhinoAddr
  unplaced : hdr.flag &&& HFG_PLACED = 0 → hdr.addr.cls = HAC_RHINO

/-- A header that asks for the FPGA gets it, if it is free. -/
theorem reserveRegion_rhino {task : Task} {s : LoadState RhinoDev}
    (asks : AsksForFpga s.hwrhdr) (free : rhinoPlatform.Free s.kernel.hw rhinoAddr) :
    ∃ next, reserveRegion rhinoPlatform.drivers task s = .ok next ∧
      next.hwrhdr = { s.hwrhdr with addr := rhinoAddr } ∧ next.curFoff = s.curFoff ∧
      next.kernel = { s.kernel with hw := claimed s.kernel.hw rhinoAddr task } := by
  by_cases placed : s.hwrhdr.flag &&& HFG_PLACED ≠ 0
  · have addr_eq := asks.placed placed
    have reservation : reserveHwr rhinoPlatform.drivers s.hwrhdr.addr s.kernel.hw =
        (some rhinoAddr, reserved s.kernel.hw rhinoAddr) := by
      rw [addr_eq, reserveHwr_eq, if_pos free]
      rfl
    simp only [reserveRegion, if_pos placed, reservation]
    refine ⟨_, rfl, by rw [addr_eq], rfl, ?_⟩
    rw [← setHwr_reserved]
  · have cls := asks.unplaced (not_not.mp placed)
    have found : bprNextfree rhinoPlatform.drivers s.hwrhdr.addr s.kernel.hw =
        (some rhinoAddr, rhinoAddr, reserved s.kernel.hw rhinoAddr) := by
      have first : ({ s.hwrhdr.addr with addr := 0 } : HwrAddr) = rhinoAddr := by
        simp only [cls]
        rfl
      rw [bprNextfree, if_neg (not_not.mpr cls)]
      simp only [tryAddrs, first, reserveHwr_eq, if_pos free]
      rfl
    simp only [reserveRegion, if_neg placed, found]
    refine ⟨_, rfl, rfl, rfl, ?_⟩
    rw [← setHwr_reserved]

/-- Tables that can be read and memory for them are entered. -/
theorem declareRegion_ok {item : ExecqItem} {env : RegionEnv ε} {bi : ℕ} {s : LoadState δ}
    (loads : StrtabLoads env s) (serves : MemoryServes env s)
    (readable : ∀ i < s.hwrhdr.nrSymbol.toNat, (env.ioregIo i).fails = false) :
    ∃ next, declareRegion item env bi s = .ok next ∧ Declared bi s next := by
  rcases declareRegion_cases item env bi s with
    ⟨unloaded, -⟩ | ⟨-, fails, -⟩ | ⟨-, -, exit, next, left, -⟩ | ⟨-, -, next, ok, declared⟩
  · exact absurd loads unloaded
  · exact absurd serves fails
  · exfalso
    rcases loadStrtab_cases item.bprm.file env s with ⟨unloaded, -⟩ | ⟨-, strtab, retval, ok⟩
    · exact unloaded loads
    · rw [declareRegion, ok] at left
      change (linkRegion env bi strtab { s with retval := retval }).bind
        (loadIoregs item.bprm.file env bi strtab) = .error _ at left
      rw [linkRegion, if_pos serves.region, Except.bind] at left
      rcases bind_eq_error_iff.mp left with left | ⟨_, _, ended⟩
      · rcases repeatTurns_eq_error_iff.mp left with ⟨i, lt, state, -, failed⟩
        rcases loadIoreg_cases item.bprm.file env bi strtab i state with
          ⟨fails, -⟩ | ⟨-, noMem, -⟩ | ⟨-, -, _, _, ok, -⟩
        · rw [readable i lt] at fails
          contradiction
        · rw [serves.ioreg i lt fun j le => readable j (lt_of_le_of_lt le lt)] at noMem
          contradiction
        · rw [ok] at failed
          contradiction
      · cases ended
  · exact ⟨next, ok, declared⟩

/-- The rest of a turn whose region has been reserved. -/
theorem loadRegion_ok {platform : Platform δ ε} {item : ExecqItem} {kernel : KernelState δ}
    {env : LoadEnv ε} {turn : ℕ} {s r : LoadState δ} {held : List HwrAddr}
    {run : HwrAddr → File → UInt32 → UInt32 → ε → Board δ → Option ℤ × Board δ}
    (prepared : prepareRegion platform.drivers item (env.region turn) s = .ok r)
    (loading : Loading platform item kernel (r.hwrhdr.addr :: held) held held r.kernel)
    (loads : StrtabLoads (env.region turn) r) (serves : MemoryServes (env.region turn) r)
    (readable : ∀ i < r.hwrhdr.nrSymbol.toNat, ((env.region turn).ioregIo i).fails = false)
    (op : (platform.drivers r.hwrhdr.addr.cls).ops.configure = some run) {retval : ℤ}
    (runs : ∀ board, (run r.hwrhdr.addr item.bprm.file r.hwrhdr.plOff r.hwrhdr.plLen
      (env.region turn).configure board).1 = some retval)
    (nonnegative : 0 ≤ retval) :
    ∃ next, loadRegion platform.drivers item env kernel.nextInfo turn s = .ok next ∧
      next.curFoff = r.hwrhdr.nextHwr ∧ next.retval = retval := by
  obtain ⟨d, declared, entered⟩ : ∃ d,
      declareRegion item (env.region turn) kernel.nextInfo r = .ok d ∧
        Declared kernel.nextInfo r d :=
    declareRegion_ok loads serves readable
  rcases entered.hwrhdr with ⟨left, hwrhdr_eq⟩
  rcases entered.kernel with ⟨strtab, regs, kernel_eq⟩
  have hw_eq : d.kernel.hw = r.kernel.hw := by
    rw [kernel_eq]
    rfl
  have present : platform.Present d.kernel.hw d.hwrhdr.addr := by
    rw [hw_eq, hwrhdr_eq]
    exact loading.tracks.present List.mem_cons_self
  have used : (d.kernel.hw.board.phyhwrs d.hwrhdr.addr).count ≠ 0 := by
    rw [hw_eq, hwrhdr_eq, loading.tracks.reserved r.hwrhdr.addr List.mem_cons_self]
    decide
  have runs' := runs d.kernel.hw.board
  have rest : loadRegion platform.drivers item env kernel.nextInfo turn s =
      configureRegion platform.drivers item.bprm.file (env.region turn) d := by
    rw [loadRegion, prepared]
    change (declareRegion item (env.region turn) kernel.nextInfo r).bind
      (configureRegion platform.drivers item.bprm.file (env.region turn)) = _
    rw [declared]
    rfl
  rw [rest]
  rcases configureRegion_cases platform item.bprm.file (env.region turn) present used with
    ⟨absent, -⟩ | ⟨run', op', result, board, ran, -, ended⟩
  · rw [hwrhdr_eq] at absent
    rw [absent] at op
    contradiction
  · rw [hwrhdr_eq] at op' ran
    rcases Option.some.inj (op.symm.trans op') with rfl
    rw [ran] at runs'
    rcases ended with ⟨rfl, -⟩ | ⟨_, rfl, negative, -⟩ | ⟨_, rfl, -, ok⟩
    · contradiction
    · rw [Option.some.inj runs'] at negative
      exact absurd nonnegative (not_le.mpr negative)
    · refine ⟨_, ok, ?_, Option.some.inj runs'⟩
      rw [hwrhdr_eq]

/-- Every allocation of a turn succeeds and no read of its tables fails. -/
structure RegionEnv.Calm (env : RegionEnv ε) : Prop where
  strtabMem : env.strtabMem.isSome = true
  strtabIo : env.strtabIo.fails = false
  regionMem : env.regionMem = true
  ioregMem : ∀ i, env.ioregMem i = true
  ioregIo : ∀ i, (env.ioregIo i).fails = false

/-- A header whose symbols have names that fit into memory. -/
structure HasStrtab (hdr : HwrHdr) : Prop where
  nonempty : hdr.nrSymbol ≠ 0 → strtabLen hdr ≠ 0
  small : (strtabLen hdr).toNat < 2 ^ 31

/-- The first turn on the RHINO board. -/
theorem loadRegion_rhino {item : ExecqItem} {kernel : KernelState RhinoDev}
    {env : LoadEnv ConfigRun} {turn : ℕ} {s : LoadState RhinoDev} {hdr : HwrHdr}
    {count retval : ℤ} {bytes : List UInt8}
    (loading : Loading rhinoPlatform item kernel [] [] [] s.kernel)
    (free : rhinoPlatform.Free s.kernel.hw rhinoAddr) (offset : s.curFoff ≠ 0)
    (read : kernelRead item.bprm.file (env.region turn).hdrIo s.curFoff.toNat HwrHdr.size =
      (count, bytes)) (served : 0 ≤ count)
    (decoded : HwrHdr.decode (overlay bytes s.hwrhdr.encode) = hdr)
    (asks : AsksForFpga hdr) (strtab : HasStrtab hdr) (calm : (env.region turn).Calm)
    (runs : ∀ board, (rhinoConfigureOp rhinoAddr item.bprm.file hdr.plOff hdr.plLen
      (env.region turn).configure board).1 = some retval)
    (nonnegative : 0 ≤ retval) :
    ∃ next, loadRegion rhinoPlatform.drivers item env kernel.nextInfo turn s = .ok next ∧
      next.curFoff = hdr.nextHwr ∧ next.retval = retval := by
  let header : LoadState RhinoDev := { s with
    retval := count
    hwrhdr := hdr
    curFoff := s.curFoff + UInt32.ofNat HwrHdr.size }
  have readOk : readHwrhdr item.bprm.file (env.region turn) s = .ok header :=
    readHwrhdr_served offset read served decoded
  obtain ⟨r, reserved, hwrhdr_eq, -, kernel_eq⟩ : ∃ r,
      reserveRegion rhinoPlatform.drivers item.task header = .ok r ∧
        r.hwrhdr = { hdr with addr := rhinoAddr } ∧ r.curFoff = header.curFoff ∧
        r.kernel = { s.kernel with hw := claimed s.kernel.hw rhinoAddr item.task } :=
    reserveRegion_rhino asks free
  have prepared : prepareRegion rhinoPlatform.drivers item (env.region turn) s = .ok r := by
    rw [prepareRegion, readOk]
    exact reserved
  have claimed : Loading rhinoPlatform item kernel [r.hwrhdr.addr] [] [] r.kernel := by
    rw [hwrhdr_eq, kernel_eq]
    exact loading.claim free
  have op : (rhinoPlatform.drivers r.hwrhdr.addr.cls).ops.configure =
      some rhinoConfigureOp := by
    rw [hwrhdr_eq]
    rfl
  have loads : StrtabLoads (env.region turn) r := by
    refine ⟨?_, calm.strtabMem, ?_, calm.strtabIo⟩
    · rw [hwrhdr_eq]
      exact strtab.nonempty
    · rw [hwrhdr_eq]
      exact strtab.small
  have serves : MemoryServes (env.region turn) r :=
    ⟨calm.regionMem, fun i _ _ => calm.ioregMem i⟩
  have returns (board : Board RhinoDev) : (rhinoConfigureOp r.hwrhdr.addr item.bprm.file
      r.hwrhdr.plOff r.hwrhdr.plLen (env.region turn).configure board).1 = some retval := by
    rw [hwrhdr_eq]
    exact runs board
  rcases loadRegion_ok prepared claimed loads serves (fun i _ => calm.ioregIo i) op returns
    nonnegative with ⟨next, taken, curFoff_eq, retval_eq⟩
  refine ⟨next, taken, ?_, retval_eq⟩
  rw [curFoff_eq, hwrhdr_eq]

end Rhino.Loader
