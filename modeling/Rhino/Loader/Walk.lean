import Rhino.Loader.Lifetime
import Rhino.Loader.Progress
import Rhino.Loader.Registers

/-!
# The walk of the loader through a file

A BOF file describes its regions in a chain of headers, each followed by its
symbol table and its string table.  The definitions below read that description
off the file, without the loop, the shared cursor and the spoilt counter of
`borph_load_hw`.  A load that succeeds and whose reads were all served in full
has entered what the file describes.

The loader computes offsets in `uint32_t`.  The description therefore takes the
arithmetic as a parameter: on a file below 4 GiB no offset wraps around, on a
larger one it may.
-/

namespace Rhino.Loader

open Rhino.Bof Rhino.Bytes Rhino.Hwr Rhino.Kernel Rhino.Transition

variable {δ ε : Type}

/-! ## What a file describes -/

section Description

variable (wrap : ℕ → ℕ) (file : File)

/-- The region header at an offset. -/
def hdrAt (h : UInt32) : HwrHdr :=
  HwrHdr.decode (slice h.toNat HwrHdr.size file)

/-- The offset of the `k`-th header of the chain that starts at `hwoff`. -/
def hdrOffset (hwoff : UInt32) : ℕ → UInt32
  | 0 => hwoff
  | k + 1 => (hdrAt file (hdrOffset hwoff k)).nextHwr

/-- The `i`-th symbol of the region whose header is at `h`. -/
def entryIn (h : UInt32) (i : ℕ) : BofIoreg :=
  BofIoreg.decode
    (slice (wrap (h.toNat + HwrHdr.size + BofIoreg.size * i)) BofIoreg.size file)

/-- The string table of that region. -/
def strtabIn (h : UInt32) : List UInt8 :=
  slice (wrap (h.toNat + HwrHdr.size + BofIoreg.size * (hdrAt file h).nrSymbol.toNat))
    (strtabLen (hdrAt file h)).toNat file

/-- The registers of that region, once it has been placed at `addr`. -/
def ioregsIn (h : UInt32) (addr : HwrAddr) : List Ioreg :=
  (List.range (hdrAt file h).nrSymbol.toNat).map fun i =>
    ioregOf (strtabIn wrap file h) addr (entryIn wrap file h i)

/-- The record lists the first `count` regions of the chain, placed at `addrs`,
and their registers, the last ones first. -/
structure Describes (hwoff : UInt32) (count : ℕ) (addrs : ℕ → HwrAddr) (info : BorphInfo) :
    Prop where
  hwRegion : info.hwRegion = ((List.range count).map fun k =>
    ⟨addrs k, strtabIn wrap file (hdrOffset file hwoff k)⟩).reverse
  ioreg : info.ioreg = ((List.range count).flatMap fun k =>
    ioregsIn wrap file (hdrOffset file hwoff k) (addrs k)).reverse

end Description

/-! ## One turn -/

section Turn

variable (drivers : UInt16 → HwrDriver δ ε) (item : ExecqItem)

/-- Every `kernel_read` of a turn that starts in `s` returns the length it was
asked for. -/
structure ReadsInFull (env : RegionEnv ε) (s : LoadState δ) : Prop where
  hwrhdr : (kernelRead item.bprm.file env.hdrIo s.curFoff.toNat HwrHdr.size).1 = HwrHdr.size
  strtab : ∀ r, prepareRegion drivers item env s = .ok r →
    (strtabRead item.bprm.file env r).1 = (strtabLen r.hwrhdr).toNat
  ioreg : ∀ r, prepareRegion drivers item env s = .ok r → ∀ i < r.hwrhdr.nrSymbol.toNat,
    (kernelRead item.bprm.file (env.ioregIo i)
      (r.curFoff + UInt32.ofNat (BofIoreg.size * i)).toNat BofIoreg.size).1 = BofIoreg.size

/-- What a turn that starts at the header `s.curFoff` has entered for it: the
region at the address that was reserved, its registers, and the offset of the
next header. -/
structure Entered (bi : ℕ) (addr : HwrAddr) (s next : LoadState δ) : Prop where
  placed : ∃ hwr hw, placeRegion drivers (hdrAt item.bprm.file s.curFoff) s.kernel.hw =
    (some hwr, addr, hw)
  curFoff : next.curFoff = (hdrAt item.bprm.file s.curFoff).nextHwr
  hwRegion : (next.kernel.infos bi).hwRegion =
    ⟨addr, strtabIn (· % 2 ^ 32) item.bprm.file s.curFoff⟩ :: (s.kernel.infos bi).hwRegion
  ioreg : (next.kernel.infos bi).ioreg =
    (ioregsIn (· % 2 ^ 32) item.bprm.file s.curFoff addr).reverse ++ (s.kernel.infos bi).ioreg

variable {drivers item}

theorem prepareRegion_full {env : RegionEnv ε} {s r : LoadState δ}
    (full : (kernelRead item.bprm.file env.hdrIo s.curFoff.toNat HwrHdr.size).1 = HwrHdr.size)
    (prepared : prepareRegion drivers item env s = .ok r) :
    (∃ hwr hw, placeRegion drivers (hdrAt item.bprm.file s.curFoff) s.kernel.hw =
        (some hwr, r.hwrhdr.addr, hw)) ∧
      r.hwrhdr = { hdrAt item.bprm.file s.curFoff with addr := r.hwrhdr.addr } ∧
      r.curFoff = s.curFoff + UInt32.ofNat HwrHdr.size := by
  rcases bind_eq_ok_iff.mp prepared with ⟨header, read, reserved⟩
  rcases readHwrhdr_ok read with ⟨hwrhdr_eq, curFoff_eq, kernel_eq⟩
  rcases kernelRead_full full with ⟨bytes_eq, length_eq⟩
  have covers : s.hwrhdr.encode.length ≤
      (slice s.curFoff.toNat HwrHdr.size item.bprm.file).length := by
    rw [length_eq, HwrHdr.encode_length]
  rw [bytes_eq, overlay_of_length_le covers] at hwrhdr_eq
  rcases reserveRegion_ok reserved with ⟨placed, addr_eq, foff_eq, -⟩
  rw [hwrhdr_eq] at placed addr_eq
  rw [kernel_eq] at placed
  exact ⟨placed, addr_eq, foff_eq.trans curFoff_eq⟩

theorem toNat_entryOffset (h : UInt32) (i : ℕ) :
    (h + UInt32.ofNat HwrHdr.size + UInt32.ofNat (BofIoreg.size * i)).toNat =
      (h.toNat + HwrHdr.size + BofIoreg.size * i) % 2 ^ 32 := by
  simp [UInt32.toNat_add]

theorem strtabOffset_eq (start nr : UInt32) :
    start + nr * UInt32.ofNat BofIoreg.size =
      start + UInt32.ofNat (BofIoreg.size * nr.toNat) := by
  rw [Nat.mul_comm, UInt32.ofNat_mul, UInt32.ofNat_toNat]

theorem entryAt_full {file : File} {env : RegionEnv ε} {h : UInt32} {i : ℕ}
    (full : (kernelRead file (env.ioregIo i) (h + UInt32.ofNat HwrHdr.size +
      UInt32.ofNat (BofIoreg.size * i)).toNat BofIoreg.size).1 = BofIoreg.size) :
    entryAt file env (h + UInt32.ofNat HwrHdr.size) i = entryIn (· % 2 ^ 32) file h i := by
  rw [toNat_entryOffset] at full
  rcases kernelRead_full full with ⟨bytes_eq, length_eq⟩
  rw [entryAt, toNat_entryOffset, bytes_eq, overlay_of_length_le]
  · rfl
  · rw [length_eq, uninit_length]

theorem loadStrtab_full {file : File} {env : RegionEnv ε} {s next : LoadState δ}
    {strtab : List UInt8} (full : (strtabRead file env s).1 = (strtabLen s.hwrhdr).toNat)
    (loaded : loadStrtab file env s = .ok (next, strtab)) :
    strtab = slice (s.curFoff + s.hwrhdr.nrSymbol * UInt32.ofNat BofIoreg.size).toNat
      (strtabLen s.hwrhdr).toNat file := by
  rcases kernelRead_full full with ⟨bytes_eq, length_eq⟩
  rw [loadStrtab_ok loaded, tableAt, strtabRead, bytes_eq]
  apply overlay_of_length_le
  rw [length_eq, uninit_length]

theorem entered_of_turn {env : LoadEnv ε} {bi turn : ℕ} {s next : LoadState δ}
    (full : ReadsInFull drivers item (env.region turn) s)
    (taken : loadRegion drivers item env bi turn s = .ok next) :
    ∃ addr, Entered drivers item bi addr s next := by
  rcases bind_eq_ok_iff.mp taken with ⟨r, prepared, taken⟩
  rcases bind_eq_ok_iff.mp taken with ⟨d, declared, configured⟩
  rcases prepareRegion_full full.hwrhdr prepared with ⟨placed, hwrhdr_eq, curFoff_eq⟩
  rcases declareRegion_entered declared with
    ⟨strtab, retval, loaded, hwRegion_eq, ioreg_eq, nextHwr_eq⟩
  have nrSymbol_eq : r.hwrhdr.nrSymbol = (hdrAt item.bprm.file s.curFoff).nrSymbol := by
    rw [hwrhdr_eq]
  have strtab_eq : strtab = strtabIn (· % 2 ^ 32) item.bprm.file s.curFoff := by
    rw [loadStrtab_full (full.strtab r prepared) loaded, strtabOffset_eq, curFoff_eq,
      toNat_entryOffset, nrSymbol_eq, strtabIn]
    rw [hwrhdr_eq]
    rfl
  refine ⟨r.hwrhdr.addr, placed, ?_, ?_, ?_⟩
  · rw [(configureRegion_kernel configured).2, nextHwr_eq, hwrhdr_eq]
  · rw [(configureRegion_kernel configured).1, hwRegion_eq, strtab_eq,
      prepareRegion_kernel prepared]
  · rw [(configureRegion_kernel configured).1, ioreg_eq, strtab_eq,
      prepareRegion_kernel prepared, ioregsIn, nrSymbol_eq]
    apply congrArg (· ++ _)
    apply congrArg List.reverse
    apply List.map_congr_left
    intro i lt
    have entry := full.ioreg r prepared i (by rw [nrSymbol_eq]; exact List.mem_range.mp lt)
    rw [curFoff_eq] at entry ⊢
    rw [entryAt_full entry]

end Turn

/-! ## The whole chain -/

section Chain

variable {drivers : UInt16 → HwrDriver δ ε} {item : ExecqItem} {env : LoadEnv ε}
  {kernel : KernelState δ}

variable (drivers item env kernel) in
/-- Every `kernel_read` of a load returns the length it was asked for. -/
def LoadReadsInFull : Prop :=
  ∀ k < item.bprm.buf.bNumchip.toNat, ∀ s, loadRegions drivers item env kernel k = .ok s →
    ReadsInFull drivers item (env.region k) s

variable (drivers item env kernel) in
/-- Turn `k` of the region loop visits the `k`-th header of the file, and
`addr` is reserved for it. -/
def Visits (k : ℕ) (addr : HwrAddr) : Prop :=
  ∃ s, loadRegions drivers item env kernel k = .ok s ∧
    s.curFoff = hdrOffset item.bprm.file item.bprm.buf.bHwoff k ∧
    ∃ hwr hw, placeRegion drivers (hdrAt item.bprm.file s.curFoff) s.kernel.hw =
      (some hwr, addr, hw)

theorem hdrOffset_of_reached {k : ℕ} {s : LoadState δ}
    (full : ∀ j < k, ∀ s, loadRegions drivers item env kernel j = .ok s →
      ReadsInFull drivers item (env.region j) s)
    (reached : loadRegions drivers item env kernel k = .ok s) :
    s.curFoff = hdrOffset item.bprm.file item.bprm.buf.bHwoff k := by
  induction k generalizing s with
  | zero =>
      cases reached
      rfl
  | succ k ih =>
      rcases repeatTurns_succ_eq_ok_iff.mp reached with ⟨before, reachedBefore, taken⟩
      have before_eq := ih (fun j lt => full j (Nat.lt_succ_of_lt lt)) reachedBefore
      rcases entered_of_turn (full k (Nat.lt_succ_self k) before reachedBefore) taken with
        ⟨addr, entered⟩
      rw [entered.curFoff, before_eq]
      rfl

/-- No stage of a turn touches the `borph_info` pointers. -/
theorem borphInfo_of_reached {k : ℕ} {s : LoadState δ}
    (reached : loadRegions drivers item env kernel k = .ok s) :
    s.kernel.borphInfo =
      Function.update kernel.borphInfo item.task (some kernel.nextInfo) := by
  apply repeatTurns_invariant (fun _ s => s.kernel.borphInfo =
    Function.update kernel.borphInfo item.task (some kernel.nextInfo)) rfl _ reached
  intro turn before next same taken
  rcases bind_eq_ok_iff.mp taken with ⟨r, prepared, taken⟩
  rcases bind_eq_ok_iff.mp taken with ⟨d, declared, configured⟩
  rcases (declared_of_ok declared).kernel with ⟨strtab, regs, kernel_eq⟩
  rw [(configureRegion_kernel configured).1, kernel_eq, ← same, prepareRegion_kernel prepared]
  rfl

/-- The loop enters the regions of the chain one after another. -/
theorem describes_of_reached {addrs : ℕ → HwrAddr} {count : ℕ}
    (turns : ∀ k < count, ∀ s next, loadRegions drivers item env kernel k = .ok s →
      loadRegion drivers item env kernel.nextInfo k s = .ok next →
        s.curFoff = hdrOffset item.bprm.file item.bprm.buf.bHwoff k ∧
        Entered drivers item kernel.nextInfo (addrs k) s next)
    {s : LoadState δ} (reached : loadRegions drivers item env kernel count = .ok s) :
    Describes (· % 2 ^ 32) item.bprm.file item.bprm.buf.bHwoff count addrs
      (s.kernel.infos kernel.nextInfo) := by
  induction count generalizing s with
  | zero =>
      cases reached
      constructor <;> simp [loadStart, BorphInfo.fresh]
  | succ count ih =>
      rcases repeatTurns_succ_eq_ok_iff.mp reached with ⟨before, reachedBefore, taken⟩
      have described := ih (fun k lt => turns k (Nat.lt_succ_of_lt lt)) reachedBefore
      rcases turns count (Nat.lt_succ_self count) before s reachedBefore taken with
        ⟨offset, entered⟩
      constructor
      · rw [entered.hwRegion, described.hwRegion, offset, List.range_succ, List.map_append,
          List.reverse_append]
        rfl
      · rw [entered.ioreg, described.ioreg, offset, List.range_succ, List.flatMap_append,
          List.reverse_append, List.flatMap_singleton]

/-! ## Files below 4 GiB -/

/-- None of the offsets behind the header at `h` exceeds 32 bits. -/
def Unwrapped (file : File) (h : UInt32) : Prop :=
  ∀ i ≤ (hdrAt file h).nrSymbol.toNat,
    h.toNat + HwrHdr.size + BofIoreg.size * i < 2 ^ 32

theorem Unwrapped.strtabIn_eq {file : File} {h : UInt32} (unwrapped : Unwrapped file h) :
    strtabIn (· % 2 ^ 32) file h = strtabIn id file h := by
  simp only [strtabIn, Nat.mod_eq_of_lt (unwrapped _ le_rfl), id_eq]

theorem Unwrapped.ioregsIn_eq {file : File} {h : UInt32} (unwrapped : Unwrapped file h)
    (addr : HwrAddr) : ioregsIn (· % 2 ^ 32) file h addr = ioregsIn id file h addr := by
  unfold ioregsIn
  apply List.map_congr_left
  intro i lt
  have small := unwrapped i (List.mem_range.mp lt).le
  rw [unwrapped.strtabIn_eq, entryIn, entryIn, Nat.mod_eq_of_lt small, id_eq]

/-- In a small file the reads that were served in full hold the cursor below
its end. -/
theorem unwrapped_of_full {regionEnv : RegionEnv ε} {s r : LoadState δ}
    (small : item.bprm.file.length < 2 ^ 32) (full : ReadsInFull drivers item regionEnv s)
    (prepared : prepareRegion drivers item regionEnv s = .ok r) :
    Unwrapped item.bprm.file s.curFoff := by
  rcases prepareRegion_full full.hwrhdr prepared with ⟨-, hwrhdr_eq, curFoff_eq⟩
  have nrSymbol_eq : r.hwrhdr.nrSymbol = (hdrAt item.bprm.file s.curFoff).nrSymbol := by
    rw [hwrhdr_eq]
  intro i le
  induction i with
  | zero =>
      have inside := (kernelRead_full full.hwrhdr).2
      rw [slice_length, HwrHdr.size] at inside
      rw [HwrHdr.size, BofIoreg.size]
      omega
  | succ i ih =>
      have before := ih (Nat.le_of_succ_le le)
      have entry := full.ioreg r prepared i (by rw [nrSymbol_eq]; exact le)
      rw [curFoff_eq, toNat_entryOffset, Nat.mod_eq_of_lt before] at entry
      have inside := (kernelRead_full entry).2
      rw [slice_length, BofIoreg.size, HwrHdr.size] at inside
      rw [HwrHdr.size, BofIoreg.size]
      omega

theorem Describes.unwrapped {file : File} {hwoff : UInt32} {count : ℕ} {addrs : ℕ → HwrAddr}
    {info : BorphInfo} (described : Describes (· % 2 ^ 32) file hwoff count addrs info)
    (unwrapped : ∀ k < count, Unwrapped file (hdrOffset file hwoff k)) :
    Describes id file hwoff count addrs info := by
  constructor
  · rw [described.hwRegion]
    apply congrArg List.reverse
    apply List.map_congr_left
    intro k lt
    rw [(unwrapped k (List.mem_range.mp lt)).strtabIn_eq]
  · rw [described.ioreg]
    apply congrArg List.reverse
    apply List.flatMap_congr
    intro k lt
    rw [(unwrapped k (List.mem_range.mp lt)).ioregsIn_eq]

theorem borphInfo_of_loaded {after : KernelState δ}
    (loaded : borphLoadHw drivers item env kernel = (.loaded, after)) :
    after.borphInfo item.task = some kernel.nextInfo := by
  rcases borphLoadHw_eq_loaded_iff.mp loaded with ⟨-, final, finished, rfl⟩
  rw [KernelState.modifyInfo, borphInfo_of_reached finished, Function.update_self]

/-- A load that returns zero and leaves a record has run to its end, and the record
is the one that it has allocated. -/
theorem loaded_of_running {bi : ℕ}
    (returned : (borphLoadHw drivers item env kernel).1.result = some 0)
    (running : (borphLoadHw drivers item env kernel).2.borphInfo item.task = some bi) :
    borphLoadHw drivers item env kernel = (.loaded, (borphLoadHw drivers item env kernel).2) ∧
      kernel.nextInfo = bi := by
  have loaded : borphLoadHw drivers item env kernel = (.loaded, _) :=
    Prod.ext (loaded_of_result_eq_zero returned running) rfl
  exact ⟨loaded, Option.some.inj ((borphInfo_of_loaded loaded).symm.trans running)⟩

theorem describes_of_loaded {after : KernelState δ}
    (loaded : borphLoadHw drivers item env kernel = (.loaded, after))
    (full : LoadReadsInFull drivers item env kernel) :
    ∃ addrs : ℕ → HwrAddr,
      (∀ k < item.bprm.buf.bNumchip.toNat, Visits drivers item env kernel k (addrs k)) ∧
      Describes (· % 2 ^ 32) item.bprm.file item.bprm.buf.bHwoff item.bprm.buf.bNumchip.toNat
        addrs (after.infos kernel.nextInfo) := by
  rcases borphLoadHw_eq_loaded_iff.mp loaded with ⟨-, final, finished, rfl⟩
  have offset {k : ℕ} {s : LoadState δ} (le : k ≤ item.bprm.buf.bNumchip.toNat)
      (reached : loadRegions drivers item env kernel k = .ok s) :
      s.curFoff = hdrOffset item.bprm.file item.bprm.buf.bHwoff k :=
    hdrOffset_of_reached (fun j lt => full j (lt_of_lt_of_le lt le)) reached
  have turn (k : ℕ) (lt : k < item.bprm.buf.bNumchip.toNat) : ∃ addr, ∃ s next,
      loadRegions drivers item env kernel k = .ok s ∧
      loadRegion drivers item env kernel.nextInfo k s = .ok next ∧
      Entered drivers item kernel.nextInfo addr s next := by
    rcases repeatTurns_ok_of_le (Nat.succ_le_of_lt lt) finished with ⟨next, reachedNext⟩
    rcases repeatTurns_succ_eq_ok_iff.mp reachedNext with ⟨s, reached, taken⟩
    rcases entered_of_turn (full k lt s reached) taken with ⟨addr, entered⟩
    exact ⟨addr, s, next, reached, taken, entered⟩
  have : Nonempty HwrAddr := ⟨rhinoAddr⟩
  choose! addrs turns using turn
  refine ⟨addrs, ?_, ?_⟩
  · intro k lt
    rcases turns k lt with ⟨s, next, reached, taken, entered⟩
    exact ⟨s, reached, offset lt.le reached, entered.placed⟩
  · have described : Describes (· % 2 ^ 32) item.bprm.file item.bprm.buf.bHwoff
        item.bprm.buf.bNumchip.toNat addrs (final.kernel.infos kernel.nextInfo) := by
      apply describes_of_reached _ finished
      intro k lt s next reached taken
      refine ⟨offset lt.le reached, ?_⟩
      rcases turns k lt with ⟨s', next', reached', taken', entered⟩
      cases Except.ok.inj (reached'.symm.trans reached)
      cases Except.ok.inj (taken'.symm.trans taken)
      exact entered
    constructor
    · simpa [KernelState.modifyInfo] using described.hwRegion
    · simpa [KernelState.modifyInfo] using described.ioreg

/-- Below 4 GiB every header of a load stays clear of the wrap-around. -/
theorem unwrapped_of_loaded {after : KernelState δ}
    (loaded : borphLoadHw drivers item env kernel = (.loaded, after))
    (full : LoadReadsInFull drivers item env kernel)
    (small : item.bprm.file.length < 2 ^ 32) (k : ℕ) (lt : k < item.bprm.buf.bNumchip.toNat) :
    Unwrapped item.bprm.file (hdrOffset item.bprm.file item.bprm.buf.bHwoff k) := by
  rcases borphLoadHw_eq_loaded_iff.mp loaded with ⟨-, final, finished, -⟩
  rcases repeatTurns_ok_of_le (Nat.succ_le_of_lt lt) finished with ⟨next, reachedNext⟩
  rcases repeatTurns_succ_eq_ok_iff.mp reachedNext with ⟨s, reached, taken⟩
  rcases bind_eq_ok_iff.mp taken with ⟨r, prepared, -⟩
  rw [← hdrOffset_of_reached (fun j before => full j (before.trans lt)) reached]
  exact unwrapped_of_full small (full k lt s reached) prepared

end Chain

/-- A load that returns zero and leaves a record, and whose reads were all served
in full, has visited the headers of the chain and entered the regions and
registers that the file describes, in offsets modulo 2 ^ 32; for a file below
4 GiB, in plain offsets. -/
theorem borphLoadHw_describes (drivers : UInt16 → HwrDriver δ ε) (item : ExecqItem)
    (env : LoadEnv ε) (kernel : KernelState δ) (bi : ℕ)
    (returned : (borphLoadHw drivers item env kernel).1.result = some 0)
    (running : (borphLoadHw drivers item env kernel).2.borphInfo item.task = some bi)
    (full : LoadReadsInFull drivers item env kernel) :
    ∃ addrs : ℕ → HwrAddr,
      (∀ k < item.bprm.buf.bNumchip.toNat, Visits drivers item env kernel k (addrs k)) ∧
      Describes (· % 2 ^ 32) item.bprm.file item.bprm.buf.bHwoff item.bprm.buf.bNumchip.toNat
        addrs ((borphLoadHw drivers item env kernel).2.infos bi) ∧
      (item.bprm.file.length < 2 ^ 32 →
        Describes id item.bprm.file item.bprm.buf.bHwoff item.bprm.buf.bNumchip.toNat
          addrs ((borphLoadHw drivers item env kernel).2.infos bi)) := by
  rcases loaded_of_running returned running with ⟨loaded, rfl⟩
  rcases describes_of_loaded loaded full with ⟨addrs, visits, described⟩
  refine ⟨addrs, visits, described, ?_⟩
  intro small
  exact described.unwrapped (unwrapped_of_loaded loaded full small)

/-! ## Two files -/

/-- Where every read is served as far as the file goes, it is enough that the
tables lie inside it. -/
theorem readsInFull_of_calm {drivers : UInt16 → HwrDriver δ ε} {item : ExecqItem} {config : ε}
    {s : LoadState δ} {turn : ℕ} {hdr : HwrHdr}
    (hdr_eq : hdrAt item.bprm.file s.curFoff = hdr)
    (hdrInside : s.curFoff.toNat + HwrHdr.size ≤ item.bprm.file.length)
    (short : (strtabLen hdr).toNat ≤ MAX_RW_COUNT)
    (strtabInside : (s.curFoff.toNat + HwrHdr.size + BofIoreg.size * hdr.nrSymbol.toNat) % 2 ^ 32 +
      (strtabLen hdr).toNat ≤ item.bprm.file.length)
    (ioregInside : ∀ i < hdr.nrSymbol.toNat,
      (s.curFoff.toNat + HwrHdr.size + BofIoreg.size * i) % 2 ^ 32 + BofIoreg.size ≤
        item.bprm.file.length) :
    ReadsInFull drivers item ((calmLoad config).region turn) s := by
  have header : (kernelRead item.bprm.file ((calmLoad config).region turn).hdrIo
      s.curFoff.toNat HwrHdr.size).1 = HwrHdr.size := by
    rw [show ((calmLoad config).region turn).hdrIo = .upTo MAX_RW_COUNT from rfl,
      kernelRead_served (by decide) (by decide) hdrInside]
  refine ⟨header, ?_, ?_⟩
  · intro r prepared
    rcases prepareRegion_full header prepared with ⟨-, hwrhdr_eq, curFoff_eq⟩
    rw [hdr_eq] at hwrhdr_eq
    have len_eq : strtabLen r.hwrhdr = strtabLen hdr := by
      rw [hwrhdr_eq]
      rfl
    rw [strtabRead, strtabOffset_eq, curFoff_eq, toNat_entryOffset, len_eq, hwrhdr_eq,
      show ((calmLoad config).region turn).strtabIo = .upTo MAX_RW_COUNT from rfl,
      kernelRead_served short short strtabInside]
  · intro r prepared i lt
    rcases prepareRegion_full header prepared with ⟨-, hwrhdr_eq, curFoff_eq⟩
    rw [hdr_eq] at hwrhdr_eq
    rw [hwrhdr_eq] at lt
    rw [curFoff_eq, toNat_entryOffset,
      show ((calmLoad config).region turn).ioregIo i = .upTo MAX_RW_COUNT from rfl,
      kernelRead_served (by decide) (by decide) (ioregInside i lt)]

theorem loadReadsInFull_of_first {drivers : UInt16 → HwrDriver δ ε} {item : ExecqItem}
    {env : LoadEnv ε} {kernel : KernelState δ} (single : item.bprm.buf.bNumchip = 1)
    (first : ReadsInFull drivers item (env.region 0) (loadStart item env kernel)) :
    LoadReadsInFull drivers item env kernel := by
  intro k lt s reached
  rw [single] at lt
  obtain rfl : k = 0 := Nat.lt_one_iff.mp lt
  cases reached
  exact first

/-- A header for the FPGA with one symbol and a bitstream of one byte. -/
def ledRegion : HwrHdr where
  flag := 0
  addr := rhinoAddr
  plOff := 96
  plLen := 1
  nrSymbol := 1
  strtabOff := 92
  nextHwr := 0

/-- A file of one region, with the entry of the symbol `led`, its name and the
bitstream behind the header. -/
def ledItem : ExecqItem :=
  sampleItem 1 1 ledRegion
    (BofIoreg.encode ⟨0, 3, 0x08000000, 2⟩ ++ [0x6c, 0x65, 0x64, 0] ++ [0xaa])

theorem ledItem_readsInFull :
    LoadReadsInFull rhinoPlatform.drivers ledItem (calmLoad smoothConfig) bootKernel := by
  have single : ledItem.bprm.buf.bNumchip = 1 := rfl
  apply loadReadsInFull_of_first single
  have hdr_eq : hdrAt ledItem.bprm.file
      (loadStart ledItem (calmLoad smoothConfig) bootKernel).curFoff = ledRegion := by
    decide +kernel
  apply readsInFull_of_calm hdr_eq
  all_goals decide +kernel

/-- A small file of one region with a symbol. -/
theorem borphLoadHw_describes_led_region :
    LoadReadsInFull rhinoPlatform.drivers ledItem (calmLoad smoothConfig) bootKernel ∧
      ∃ addrs : ℕ → HwrAddr, Describes id ledItem.bprm.file 52 1 addrs
        ((borphLoadHw rhinoPlatform.drivers ledItem (calmLoad smoothConfig)
          bootKernel).2.infos 0) := by
  rcases borphLoadHw_describes rhinoPlatform.drivers ledItem (calmLoad smoothConfig) bootKernel 0
    (by decide +kernel) (by decide +kernel) ledItem_readsInFull with ⟨addrs, -, -, described⟩
  exact ⟨ledItem_readsInFull, addrs, described (by decide +kernel)⟩

/-- A header for the FPGA with one symbol, whose string table and payload are
one byte each. -/
def wideHdr : HwrHdr where
  flag := 0
  addr := rhinoAddr
  plOff := 1
  plLen := 1
  nrSymbol := 1
  strtabOff := 0
  nextHwr := 0

/-- A file header that puts its region header at the end of the first 4 GiB. -/
def wideBuf : BofHdr where
  ident := [0x19, 0x42, 0x4f, 0x46, 0, 1, 0, 0, 0, 0, 0, 0, 0, 0, 0, 0]
  bVersion := 6
  bMachine := 5
  bElfmachine := 40
  bNumchip := 1
  bElfoff := 52
  bHwoff := 0xffffffe4
  loadErr := 0
  bEkver := 0
  pad0 := 0
  pad1 := 0

/-- A file with `gap` bytes between its two headers, and room for a symbol and a
string table behind the second. -/
def wideFile (gap : ℕ) : File :=
  wideBuf.encode ++ (List.replicate gap 0 ++ (wideHdr.encode ++ List.replicate 13 0))

/-- The gap that makes the second header end at 4 GiB. -/
def wideItem : ExecqItem :=
  ⟨⟨wideBuf, wideFile 4294967216⟩, 1⟩

theorem wideBuf_length : wideBuf.encode.length = 52 := by
  decide

theorem wideFile_length (gap : ℕ) : (wideFile gap).length = gap + 93 := by
  simp only [wideFile, List.length_append, wideBuf_length, HwrHdr.encode_length, HwrHdr.size,
    List.length_replicate]
  omega

theorem slice_wideFile_front (gap : ℕ) {offset count : ℕ} (inside : offset + count ≤ 52) :
    slice offset count (wideFile gap) = slice offset count wideBuf.encode :=
  slice_append_left (by rw [wideBuf_length]; exact inside) _

theorem slice_wideFile_hdr (gap : ℕ) :
    slice (52 + gap) HwrHdr.size (wideFile gap) = wideHdr.encode := by
  rw [wideFile, slice_append_right (by rw [wideBuf_length]; omega),
    slice_append_right (by rw [List.length_replicate, wideBuf_length]; omega)]
  rw [wideBuf_length, List.length_replicate, Nat.add_sub_cancel_left, Nat.sub_self]
  rw [← HwrHdr.encode_length wideHdr]
  exact slice_zero_append _ _

theorem slice_wideFile_entry (gap : ℕ) :
    slice (80 + gap) BofIoreg.size (wideFile gap) = List.replicate 12 0 := by
  rw [wideFile, slice_append_right (by rw [wideBuf_length]; omega),
    slice_append_right (by rw [List.length_replicate, wideBuf_length]; omega),
    slice_append_right (by
      rw [HwrHdr.encode_length, HwrHdr.size, List.length_replicate, wideBuf_length]; omega)]
  rw [wideBuf_length, List.length_replicate, HwrHdr.encode_length, HwrHdr.size,
    show 80 + gap - 52 - gap - 28 = 0 by omega]
  decide

theorem hdrAt_wideItem : hdrAt wideItem.bprm.file 0xffffffe4 = wideHdr := by
  have bytes : slice (0xffffffe4 : UInt32).toNat HwrHdr.size wideItem.bprm.file =
      wideHdr.encode :=
    slice_wideFile_hdr 4294967216
  rw [hdrAt, bytes]
  decide

theorem wideItem_readsInFull (kernel : KernelState RhinoDev) :
    LoadReadsInFull rhinoPlatform.drivers wideItem (calmLoad smoothConfig) kernel := by
  have length_eq : wideItem.bprm.file.length = 4294967216 + 93 := wideFile_length _
  have foff_eq : (loadStart wideItem (calmLoad smoothConfig) kernel).curFoff = 0xffffffe4 := rfl
  have hdr_eq : hdrAt wideItem.bprm.file
      (loadStart wideItem (calmLoad smoothConfig) kernel).curFoff = wideHdr := by
    rw [foff_eq]
    exact hdrAt_wideItem
  have single : wideItem.bprm.buf.bNumchip = 1 := rfl
  apply loadReadsInFull_of_first single
  apply readsInFull_of_calm hdr_eq
  · rw [length_eq, foff_eq]
    decide
  · decide
  · rw [length_eq, foff_eq]
    decide
  · intro i lt
    obtain rfl : i = 0 := Nat.lt_one_iff.mp lt
    rw [length_eq, foff_eq]
    decide

theorem rhinoConfigure_wideItem (board : Board RhinoDev) :
    (rhinoConfigureOp rhinoAddr wideItem.bprm.file 1 1 smoothConfig board).1 = some 0 := by
  have inside : 1 + 1 ≤ wideItem.bprm.file.length := by
    rw [show wideItem.bprm.file.length = 4294967216 + 93 from wideFile_length _]
    decide
  have payload : slice 1 1 wideItem.bprm.file = [0x42] := by
    rw [show wideItem.bprm.file = wideFile 4294967216 from rfl,
      slice_wideFile_front _ (by decide)]
    decide
  have read (number : ℕ) :
      Configure.readPart wideItem.bprm.file smoothConfig.env number 1 1 = (1, [0x42]) := by
    have served : kernelRead wideItem.bprm.file (.upTo Configure.PAGE_SIZE) 1 1 = _ :=
      kernelRead_served (by decide) (by decide) inside
    rw [payload] at served
    exact served
  generalize wideItem.bprm.file = file at read
  have sent : Configure.sendPart file smoothConfig.env
      (Configure.Transfer.start smoothConfig.env 1 1) =
        ⟨.sending, 2, 0, 1, 1, 1, [⟨1, [0x42], true⟩], [], 0⟩ := by
    simp only [Configure.sendPart, Configure.Transfer.start, read]
    rfl
  have first : Configure.move file smoothConfig.env (Configure.Transfer.start smoothConfig.env 1 1)
      .sender = _ := sent
  have schedule : smoothConfig.schedule =
    .sender :: [.callback, .sender, .sender, .sender, .sender] := rfl
  have begins : Configure.started rhinoAddr smoothConfig.env = true := by
    decide +kernel
  have enters : Configure.entered rhinoAddr smoothConfig.env = true := by
    decide +kernel
  have alone : smoothConfig.backlog = [] := rfl
  simp only [rhinoConfigureOp, alone, Configure.rhinoConfigureBehind_nil,
    Configure.rhinoConfigure, begins, enters, if_true]
  rw [schedule, List.foldl_cons, first]
  rfl

theorem wideItem_loaded :
    (borphLoadHw rhinoPlatform.drivers wideItem (calmLoad smoothConfig) bootKernel).1 =
      .loaded := by
  have inside : (0xffffffe4 : UInt32).toNat + HwrHdr.size ≤ wideItem.bprm.file.length := by
    rw [show wideItem.bprm.file.length = 4294967216 + 93 from wideFile_length _]
    decide
  have read : kernelRead wideItem.bprm.file (.upTo MAX_RW_COUNT) (0xffffffe4 : UInt32).toNat
      HwrHdr.size = (28, wideHdr.encode) := by
    rw [kernelRead_served (by decide) (by decide) inside]
    exact congrArg (Prod.mk 28) (slice_wideFile_hdr 4294967216)
  have decoded (old : HwrHdr) :
      HwrHdr.decode (overlay wideHdr.encode old.encode) = wideHdr := by
    rw [overlay_of_length_le (by rw [HwrHdr.encode_length, HwrHdr.encode_length])]
    decide
  have offset : (loadStart wideItem (calmLoad smoothConfig) bootKernel).curFoff ≠ 0 := by
    decide
  have free : rhinoPlatform.Free
      (loadStart wideItem (calmLoad smoothConfig) bootKernel).kernel.hw rhinoAddr :=
    ⟨⟨rfl, by decide⟩, rfl⟩
  obtain ⟨next, taken, -⟩ : ∃ next, loadRegion rhinoPlatform.drivers wideItem
      (calmLoad smoothConfig) bootKernel.nextInfo 0
      (loadStart wideItem (calmLoad smoothConfig) bootKernel) = .ok next ∧
        next.curFoff = wideHdr.nextHwr ∧ next.retval = 0 :=
    loadRegion_rhino (Loading.start _) free offset read (Int.natCast_nonneg 28) (decoded _)
      ⟨by decide, fun _ => rfl⟩ ⟨by decide, by decide⟩ ⟨rfl, rfl, rfl, fun _ => rfl, fun _ => rfl⟩
      rhinoConfigure_wideItem le_rfl
  have finished : loadRegions rhinoPlatform.drivers wideItem (calmLoad smoothConfig) bootKernel
      wideItem.bprm.buf.bNumchip.toNat = .ok next :=
    repeatTurns_succ_eq_ok_iff.mpr ⟨_, rfl, taken⟩
  exact congrArg Prod.fst (borphLoadHw_eq_loaded_iff.mpr ⟨rfl, next, finished, rfl⟩)

theorem entryIn_wideItem_wrapped :
    (entryIn (· % 2 ^ 32) wideItem.bprm.file 0xffffffe4 0).loc = 0x100 := by
  have bytes : slice 0 BofIoreg.size wideItem.bprm.file = _ :=
    slice_wideFile_front 4294967216 (by decide)
  have offset : ((0xffffffe4 : UInt32).toNat + HwrHdr.size + BofIoreg.size * 0) % 2 ^ 32 = 0 := by
    decide
  rw [entryIn, offset, bytes]
  decide

theorem entryIn_wideItem_plain :
    (entryIn id wideItem.bprm.file 0xffffffe4 0).loc = 0 := by
  have bytes : slice ((0xffffffe4 : UInt32).toNat + HwrHdr.size + BofIoreg.size * 0)
      BofIoreg.size wideItem.bprm.file = _ :=
    slice_wideFile_entry 4294967216
  rw [entryIn, id_eq, bytes]
  decide

theorem exists_loaded {drivers : UInt16 → HwrDriver δ ε} {item : ExecqItem} {env : LoadEnv ε}
    {kernel : KernelState δ} (loaded : (borphLoadHw drivers item env kernel).1 = .loaded) :
    ∃ after, borphLoadHw drivers item env kernel = (.loaded, after) :=
  ⟨_, Prod.ext loaded rfl⟩

/-- The locations in the record of a region with one symbol. -/
theorem Describes.single_loc {wrap : ℕ → ℕ} {file : File} {hwoff : UInt32}
    {addrs : ℕ → HwrAddr} {info : BorphInfo} (described : Describes wrap file hwoff 1 addrs info)
    (single : (hdrAt file hwoff).nrSymbol = 1) :
    info.ioreg.map Ioreg.loc = [(entryIn wrap file hwoff 0).loc] := by
  have one : (hdrAt file hwoff).nrSymbol.toNat = 1 := by
    rw [single]
    rfl
  rw [described.ioreg, List.range_one, List.flatMap_singleton, hdrOffset, ioregsIn, one,
    List.range_one]
  rfl

/-- The symbol of the wide file is read from the front of the file, where the
cursor has wrapped around to, and not from behind its header. -/
theorem wideItem_misread :
    ∃ after, borphLoadHw rhinoPlatform.drivers wideItem (calmLoad smoothConfig) bootKernel =
        (.loaded, after) ∧
      after.borphInfo wideItem.task = some bootKernel.nextInfo ∧
      LoadReadsInFull rhinoPlatform.drivers wideItem (calmLoad smoothConfig) bootKernel ∧
      ¬ ∃ addrs, Describes id wideItem.bprm.file wideItem.bprm.buf.bHwoff
        wideItem.bprm.buf.bNumchip.toNat addrs (after.infos bootKernel.nextInfo) := by
  rcases exists_loaded wideItem_loaded with ⟨after, loaded⟩
  have full := wideItem_readsInFull bootKernel
  refine ⟨after, loaded, borphInfo_of_loaded loaded, full, ?_⟩
  rintro ⟨addrs, claimed⟩
  rcases describes_of_loaded loaded full with ⟨addrs', -, described⟩
  have single : (hdrAt wideItem.bprm.file 0xffffffe4).nrSymbol = 1 := by
    rw [hdrAt_wideItem]
    rfl
  have locs := (described.single_loc single).symm.trans (claimed.single_loc single)
  have locs : (entryIn (· % 2 ^ 32) wideItem.bprm.file 0xffffffe4 0).loc =
      (entryIn id wideItem.bprm.file 0xffffffe4 0).loc := List.head_eq_of_cons_eq locs
  rw [entryIn_wideItem_wrapped, entryIn_wideItem_plain] at locs
  exact absurd locs (by decide)

end Rhino.Loader
