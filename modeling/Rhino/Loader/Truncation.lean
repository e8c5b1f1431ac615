import Rhino.Loader.Walk
import Rhino.Hwr.Configure.Payload

/-!
# Files that end too early

`borph_load_hw` tests its reads for an error and not for their length.  A file
that ends inside a header, a symbol table or a string table is loaded all the
same, with what the stack or the heap held in place of the missing bytes.  Only
the payload has to be there, since `rhino_configure` does not come back from the
end of the file, unless a callback stops it: that of one of its own messages which
fails before the end of the payload, or that of a message of an earlier call.
-/

namespace Rhino.Loader

open Rhino.Bof Rhino.Bytes Rhino.Hwr Rhino.Kernel Rhino.Transition

variable {δ ε : Type}

/-! ## One region -/

/-- The file supplies everything that a turn from `s` on takes for the region whose
header is in `r`. -/
structure RegionSupplied (file : File) (env : RegionEnv ε) (s r : LoadState δ) : Prop where
  hwrhdr : Supplied file env.hdrIo s.curFoff.toNat HwrHdr.size
  ioreg : ∀ i < r.hwrhdr.nrSymbol.toNat, Supplied file (env.ioregIo i)
    (r.curFoff + UInt32.ofNat (BofIoreg.size * i)).toNat BofIoreg.size
  strtab : Supplied file env.strtabIo
    (r.curFoff + r.hwrhdr.nrSymbol * UInt32.ofNat BofIoreg.size).toNat
    (strtabLen r.hwrhdr).toNat
  payload : Inside file r.hwrhdr.plOff.toNat r.hwrhdr.plLen.toNat

section Turn

variable {drivers : UInt16 → HwrDriver δ ε} {item : ExecqItem} {env : RegionEnv ε} {bi : ℕ}
  {s r d next : LoadState δ}

/-- None of the reads fails with which a region is entered. -/
theorem readable_of_declared (declared : declareRegion item env bi r = .ok d) :
    StrtabLoads env r ∧ ∀ i < r.hwrhdr.nrSymbol.toNat, (env.ioregIo i).fails = false := by
  rcases loadStrtab_cases item.bprm.file env r with
    ⟨-, exit, next, failed, -, -⟩ | ⟨loads, strtab, retval, ok⟩
  · rw [declareRegion, failed] at declared
    contradiction
  · refine ⟨loads, ?_⟩
    rw [declareRegion, ok] at declared
    change (linkRegion env bi strtab { r with retval := retval }).bind
      (loadIoregs item.bprm.file env bi strtab) = .ok d at declared
    rcases bind_eq_ok_iff.mp declared with ⟨linked, link, declared⟩
    rcases bind_eq_ok_iff.mp declared with ⟨last, finished, -⟩
    have readable := (ioregsLoaded_of_reached finished).readable
    unfold linkRegion at link
    split at link
    · cases link
      exact readable
    · contradiction

/-- The reads of a turn that gets as far as the configuration return the counts that
they were asked for exactly if the file supplies them. -/
theorem readsInFull_iff (prepared : prepareRegion drivers item env s = .ok r)
    (declared : declareRegion item env bi r = .ok d) :
    ReadsInFull drivers item env s ↔
      Supplied item.bprm.file env.hdrIo s.curFoff.toNat HwrHdr.size ∧
      (∀ i < r.hwrhdr.nrSymbol.toNat, Supplied item.bprm.file (env.ioregIo i)
        (r.curFoff + UInt32.ofNat (BofIoreg.size * i)).toNat BofIoreg.size) ∧
      Supplied item.bprm.file env.strtabIo
        (r.curFoff + r.hwrhdr.nrSymbol * UInt32.ofNat BofIoreg.size).toNat
        (strtabLen r.hwrhdr).toNat := by
  rcases bind_eq_ok_iff.mp prepared with ⟨header, read, -⟩
  rcases readable_of_declared declared with ⟨loads, readable⟩
  have header_iff := supplied_iff (served_of_readHwrhdr read).2
  have strtab_iff := supplied_iff (@kernelRead_nonneg item.bprm.file _
    (r.curFoff + r.hwrhdr.nrSymbol * UInt32.ofNat BofIoreg.size).toNat _ loads.small
    loads.readable)
  have ioreg_iff (i : ℕ) (lt : i < r.hwrhdr.nrSymbol.toNat) :=
    supplied_iff (@kernelRead_nonneg item.bprm.file _
      (r.curFoff + UInt32.ofNat (BofIoreg.size * i)).toNat BofIoreg.size (by decide)
      (readable i lt))
  constructor
  · intro full
    exact ⟨header_iff.mpr full.hwrhdr,
      fun i lt => (ioreg_iff i lt).mpr (full.ioreg r prepared i lt),
      strtab_iff.mpr (full.strtab r prepared)⟩
  · rintro ⟨hwrhdr, ioreg, strtab⟩
    refine ⟨header_iff.mp hwrhdr, ?_, ?_⟩
    · intro r' prepared'
      cases Except.ok.inj (prepared.symm.trans prepared')
      exact strtab_iff.mp strtab
    · intro r' prepared' i lt
      cases Except.ok.inj (prepared.symm.trans prepared')
      exact (ioreg_iff i lt).mp (ioreg i lt)

/-- The driver of a region that is configured has returned a value that is not
negative. -/
theorem returned_of_configured {file : File}
    (configured : configureRegion drivers file env d = .ok next) :
    ∃ run, (drivers d.hwrhdr.addr.cls).ops.configure = some run ∧ ∃ board, ∃ retval, 0 ≤ retval ∧
      (run d.hwrhdr.addr file d.hwrhdr.plOff d.hwrhdr.plLen env.configure board).1 =
        some retval := by
  unfold configureRegion getHwrops at configured
  cases found : d.kernel.hw.lookup d.hwrhdr.addr with
  | none => simp [found] at configured
  | some ht =>
      cases op : (drivers d.hwrhdr.addr.cls).ops.configure with
      | none => simp [found, op] at configured
      | some run =>
          refine ⟨run, rfl, (d.kernel.hw.setCount d.hwrhdr.addr.cls (ht.count + 1)).board, ?_⟩
          simp only [found, Option.bind_some, op] at configured
          split at configured
          · contradiction
          · next retval result =>
            split at configured
            · contradiction
            · next fine => exact ⟨retval, not_lt.mp fine, result⟩

end Turn

/-- The payload of a region, as the driver of this board gets it. -/
def payloadJob (file : File) (env : RegionEnv ConfigRun) (hdr : HwrHdr) : Configure.Job where
  file := file
  env := env.configure.env
  offset := hdr.plOff
  len := hdr.plLen

/-- Under some schedule of the callbacks the driver takes the payload for
configured. -/
def PayloadPasses (file : File) (env : RegionEnv ConfigRun) (hdr : HwrHdr) : Prop :=
  ∃ (schedule : List Configure.Move) (retval : ℤ), 0 ≤ retval ∧
    (Configure.rhinoConfigureBehind env.configure.backlog hdr.addr file hdr.plOff hdr.plLen
      env.configure.env schedule).1 = some retval

section Rhino

variable {item : ExecqItem} {env : RegionEnv ConfigRun} {bi : ℕ} {r d next : LoadState RhinoDev}

/-- The driver of a region that this board has configured has returned a value that
is not negative. -/
theorem returned_of_rhino (declared : declareRegion item env bi r = .ok d)
    (configured : configureRegion rhinoPlatform.drivers item.bprm.file env d = .ok next) :
    ∃ retval, 0 ≤ retval ∧ (Configure.rhinoConfigureBehind env.configure.backlog r.hwrhdr.addr
      item.bprm.file r.hwrhdr.plOff r.hwrhdr.plLen env.configure.env
      env.configure.schedule).1 = some retval := by
  rcases returned_of_configured configured with ⟨run, op, board, retval, nonnegative, returned⟩
  have rhino : run = rhinoConfigureOp := by
    by_cases same : d.hwrhdr.addr.cls = HAC_RHINO
    · simp only [rhinoPlatform, same, if_true] at op
      exact (Option.some.inj op).symm
    · simp [rhinoPlatform, same, noDriver] at op
  rw [rhino, rhinoConfigureOp_fst] at returned
  rcases (declared_of_ok declared).hwrhdr with ⟨left, hwrhdr_eq⟩
  rw [hwrhdr_eq] at returned
  exact ⟨retval, nonnegative, returned⟩

/-- Of a region that has been configured, a payload that a file below 4 GiB does not
have passes under some schedule exactly if it is not guarded. -/
theorem payloadPasses_iff (small : item.bprm.file.length < 2 ^ 32)
    (declared : declareRegion item env bi r = .ok d)
    (configured : configureRegion rhinoPlatform.drivers item.bprm.file env d = .ok next)
    (absent : ¬ Inside item.bprm.file r.hwrhdr.plOff.toNat r.hwrhdr.plLen.toNat) :
    PayloadPasses item.bprm.file env r.hwrhdr ↔
      ¬ (payloadJob item.bprm.file env r.hwrhdr).Guarded env.configure.backlog := by
  rcases returned_of_rhino declared configured with ⟨retval, nonnegative, returned⟩
  have begins : Configure.started r.hwrhdr.addr env.configure.env = true := by
    by_contra idle
    rw [Configure.rhinoConfigureBehind_of_not_started idle] at returned
    rcases Option.some.inj returned with rfl
    exact absurd nonnegative (by decide)
  exact Configure.exists_returned_iff begins small absent

end Rhino

/-! ## All regions -/

section Load

variable (item : ExecqItem) (env : LoadEnv ConfigRun) (kernel : KernelState RhinoDev)

/-- Turn `k` of the load starts in `s` and has reserved the region whose header is in
`r`. -/
structure RegionTurn (k : ℕ) (s r : LoadState RhinoDev) : Prop where
  lt : k < item.bprm.buf.bNumchip.toNat
  reached : loadRegions rhinoPlatform.drivers item env kernel k = .ok s
  prepared : prepareRegion rhinoPlatform.drivers item (env.region k) s = .ok r

/-- Every range that the load takes data from is in the file, and nothing else gets
into the buffers. -/
def AllSupplied : Prop :=
  ∀ k s r, RegionTurn item env kernel k s r →
    RegionSupplied item.bprm.file (env.region k) s r

/-- No callback can stop a configuration before the end of its payload, and the file
is smaller than 4 GiB. -/
def PayloadsGuarded : Prop :=
  item.bprm.file.length < 2 ^ 32 ∧ ∀ k s r, RegionTurn item env kernel k s r →
    (payloadJob item.bprm.file (env.region k) r.hwrhdr).Guarded (env.region k).configure.backlog

variable {item env kernel} {bi : ℕ}
  (returned : (borphLoadHw rhinoPlatform.drivers item env kernel).1.result = some 0)
  (running : (borphLoadHw rhinoPlatform.drivers item env kernel).2.borphInfo item.task = some bi)
include returned running

/-- A turn of a load that has loaded all regions gets through. -/
theorem exists_turn {k : ℕ} (lt : k < item.bprm.buf.bNumchip.toNat) {s : LoadState RhinoDev}
    (reached : loadRegions rhinoPlatform.drivers item env kernel k = .ok s) :
    ∃ r d next, prepareRegion rhinoPlatform.drivers item (env.region k) s = .ok r ∧
      declareRegion item (env.region k) kernel.nextInfo r = .ok d ∧
      configureRegion rhinoPlatform.drivers item.bprm.file (env.region k) d = .ok next := by
  rcases loaded_of_running returned running with ⟨loaded, -⟩
  rcases borphLoadHw_eq_loaded_iff.mp loaded with ⟨-, final, finished, -⟩
  rcases repeatTurns_ok_of_le (Nat.succ_le_of_lt lt) finished with ⟨next, reachedNext⟩
  rcases repeatTurns_succ_eq_ok_iff.mp reachedNext with ⟨s', reached', taken⟩
  cases Except.ok.inj (reached.symm.trans reached')
  rcases bind_eq_ok_iff.mp taken with ⟨r, prepared, taken⟩
  rcases bind_eq_ok_iff.mp taken with ⟨d, declared, configured⟩
  exact ⟨r, d, next, prepared, declared, configured⟩

/-- The same for a turn that has reserved its region. -/
theorem RegionTurn.exists_turn {k : ℕ} {s r : LoadState RhinoDev}
    (turn : RegionTurn item env kernel k s r) :
    ∃ d next, declareRegion item (env.region k) kernel.nextInfo r = .ok d ∧
      configureRegion rhinoPlatform.drivers item.bprm.file (env.region k) d = .ok next := by
  rcases Loader.exists_turn returned running turn.lt turn.reached with
    ⟨r', d, next, prepared, declared, configured⟩
  cases Except.ok.inj (turn.prepared.symm.trans prepared)
  exact ⟨d, next, declared, configured⟩

end Load

/-- A header that lists a symbol and says that the payload is in the front of the
file. -/
def bareHdr : HwrHdr where
  flag := 0
  addr := rhinoAddr
  plOff := 4
  plLen := 1
  nrSymbol := 1
  strtabOff := 0
  nextHwr := 0

end Rhino.Loader
