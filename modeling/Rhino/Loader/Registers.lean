import Rhino.Loader.Board

/-!
# The registers of a loaded file

The loader enters a register for every entry of every symbol table that it
walks through, with the location, the length and the mode of the entry and
without a look at them.
-/

namespace Rhino.Loader

open Rhino.Bof Rhino.Bytes Rhino.Hwr Rhino.Kernel Rhino.Transition

variable {δ ε : Type}

/-! ## One region -/

/-- The `i`-th entry of a symbol table that starts at `start`, as it is read. -/
def entryAt (file : File) (env : RegionEnv ε) (start : UInt32) (i : ℕ) : BofIoreg :=
  BofIoreg.decode (overlay
    (kernelRead file (env.ioregIo i) (start + UInt32.ofNat (BofIoreg.size * i)).toNat
      BofIoreg.size).2
    (uninit (env.ioregStack i) BofIoreg.size))

/-- The string table of a region, read over the memory allocated for it. -/
def tableAt (file : File) (env : RegionEnv ε) (s : LoadState δ) : List UInt8 :=
  overlay (strtabRead file env s).2
    (uninit (env.strtabMem.getD fun _ => 0) (strtabLen s.hwrhdr).toNat)

theorem loadStrtab_ok {file : File} {env : RegionEnv ε} {s next : LoadState δ}
    {strtab : List UInt8} (ok : loadStrtab file env s = .ok (next, strtab)) :
    strtab = tableAt file env s := by
  unfold loadStrtab at ok
  by_cases empty : strtabLen s.hwrhdr = 0 ∧ s.hwrhdr.nrSymbol ≠ 0
  · simp only [if_pos empty, reduceCtorEq] at ok
  · cases mem : env.strtabMem with
    | none => simp only [if_neg empty, mem, reduceCtorEq] at ok
    | some junk =>
        by_cases failed : (strtabRead file env s).1 < 0
        · simp only [if_neg empty, mem, if_pos failed, reduceCtorEq] at ok
        · simp only [if_neg empty, mem, if_neg failed, Except.ok.injEq, Prod.mk.injEq] at ok
          rw [tableAt, mem]
          exact ok.2.symm

/-- What the register loop has entered after `i` turns. -/
structure IoregsEntered (file : File) (env : RegionEnv ε) (bi : ℕ) (strtab : List UInt8)
    (start : LoadState δ) (i : ℕ) (s : LoadState δ) : Prop where
  curFoff : s.curFoff = start.curFoff + UInt32.ofNat (BofIoreg.size * i)
  hwrhdr : s.hwrhdr = start.hwrhdr
  hwRegion : (s.kernel.infos bi).hwRegion = (start.kernel.infos bi).hwRegion
  ioreg : (s.kernel.infos bi).ioreg =
    ((List.range i).map fun j =>
      ioregOf strtab start.hwrhdr.addr (entryAt file env start.curFoff j)).reverse ++
        (start.kernel.infos bi).ioreg

theorem IoregsEntered.next {file : File} {env : RegionEnv ε} {bi : ℕ} {strtab : List UInt8}
    {start s next : LoadState δ} {i : ℕ} (entered : IoregsEntered file env bi strtab start i s)
    (taken : loadIoreg file env bi strtab i s = .ok next) :
    IoregsEntered file env bi strtab start (i + 1) next := by
  unfold loadIoreg at taken
  rcases read : kernelRead file (env.ioregIo i) s.curFoff.toNat BofIoreg.size with
    ⟨retval, bytes⟩
  simp only [read] at taken
  split at taken
  · contradiction
  · split at taken
    · cases taken
      constructor
      · rw [Nat.mul_succ, UInt32.ofNat_add, ← UInt32.add_assoc, ← entered.curFoff]
      · exact entered.hwrhdr
      · simpa [KernelState.modifyInfo] using entered.hwRegion
      · have entry : entryAt file env start.curFoff i = BofIoreg.decode
            (overlay bytes (uninit (env.ioregStack i) BofIoreg.size)) := by
          rw [entryAt, ← entered.curFoff, read]
        rw [List.range_succ, List.map_append, List.reverse_append]
        simp [KernelState.modifyInfo, entered.ioreg, entered.hwrhdr, entry]
    · contradiction

/-- A region and its registers are entered in front of those before it. -/
theorem declareRegion_entered {item : ExecqItem} {env : RegionEnv ε} {bi : ℕ}
    {s next : LoadState δ} (taken : declareRegion item env bi s = .ok next) :
    ∃ strtab retval,
      loadStrtab item.bprm.file env s = .ok ({ s with retval := retval }, strtab) ∧
      (next.kernel.infos bi).hwRegion =
        ⟨s.hwrhdr.addr, strtab⟩ :: (s.kernel.infos bi).hwRegion ∧
      (next.kernel.infos bi).ioreg =
        ((List.range s.hwrhdr.nrSymbol.toNat).map fun i =>
          ioregOf strtab s.hwrhdr.addr (entryAt item.bprm.file env s.curFoff i)).reverse ++
            (s.kernel.infos bi).ioreg ∧
      next.hwrhdr.nextHwr = s.hwrhdr.nextHwr := by
  rcases loadStrtab_cases item.bprm.file env s with
    ⟨-, exit, next, failed, -, -⟩ | ⟨-, strtab, retval, ok⟩
  · rw [declareRegion, failed] at taken
    contradiction
  · rw [declareRegion, ok] at taken
    change (linkRegion env bi strtab { s with retval := retval }).bind
      (loadIoregs item.bprm.file env bi strtab) = .ok next at taken
    rcases bind_eq_ok_iff.mp taken with ⟨linked, link, taken⟩
    rcases bind_eq_ok_iff.mp taken with ⟨last, finished, taken⟩
    cases taken
    unfold linkRegion at link
    split at link
    · cases link
      have entered := repeatTurns_invariant
        (IoregsEntered item.bprm.file env bi strtab _) ⟨by simp, rfl, rfl, rfl⟩
        (fun _ _ _ entered taken => entered.next taken) finished
      refine ⟨strtab, retval, ok, ?_, ?_, ?_⟩
      · rw [entered.hwRegion]
        simp [KernelState.modifyInfo]
      · rw [entered.ioreg]
        simp [KernelState.modifyInfo]
      · rw [entered.hwrhdr]
    · contradiction

theorem readHwrhdr_ok {file : File} {env : RegionEnv ε} {s next : LoadState δ}
    (taken : readHwrhdr file env s = .ok next) :
    next.hwrhdr = HwrHdr.decode (overlay
        (kernelRead file env.hdrIo s.curFoff.toNat HwrHdr.size).2 s.hwrhdr.encode) ∧
      next.curFoff = s.curFoff + UInt32.ofNat HwrHdr.size ∧ next.kernel = s.kernel := by
  unfold readHwrhdr at taken
  rcases read : kernelRead file env.hdrIo s.curFoff.toNat HwrHdr.size with ⟨retval, bytes⟩
  simp only [read] at taken
  split at taken
  · contradiction
  · split at taken
    · contradiction
    · cases taken
      exact ⟨rfl, rfl, rfl⟩

/-- What `reserve_hwr` or `bpr_nextfree` answers to a header. -/
def placeRegion (drivers : UInt16 → HwrDriver δ ε) (hdr : HwrHdr) (hw : HwState δ) :
    Option HwrAddr × HwrAddr × HwState δ :=
  if hdr.flag &&& HFG_PLACED ≠ 0 then
    ((reserveHwr drivers hdr.addr hw).1, hdr.addr, (reserveHwr drivers hdr.addr hw).2)
  else
    bprNextfree drivers hdr.addr hw

theorem reserveRegion_ok {drivers : UInt16 → HwrDriver δ ε} {task : Task}
    {s next : LoadState δ} (taken : reserveRegion drivers task s = .ok next) :
    (∃ hwr hw, placeRegion drivers s.hwrhdr s.kernel.hw = (some hwr, next.hwrhdr.addr, hw)) ∧
      next.hwrhdr = { s.hwrhdr with addr := next.hwrhdr.addr } ∧
      next.curFoff = s.curFoff ∧ next.kernel = { s.kernel with hw := next.kernel.hw } := by
  by_cases placed : s.hwrhdr.flag &&& HFG_PLACED ≠ 0
  · rcases answer : reserveHwr drivers s.hwrhdr.addr s.kernel.hw with ⟨hwr, hw⟩
    cases hwr with
    | none =>
        simp only [reserveRegion, if_pos placed, answer] at taken
        contradiction
    | some hwr =>
        simp only [reserveRegion, if_pos placed, answer] at taken
        cases taken
        refine ⟨⟨hwr, hw, ?_⟩, rfl, rfl, rfl⟩
        simp only [placeRegion, if_pos placed, answer]
  · rcases answer : bprNextfree drivers s.hwrhdr.addr s.kernel.hw with ⟨hwr, addr, hw⟩
    cases hwr with
    | none =>
        simp only [reserveRegion, if_neg placed, answer] at taken
        contradiction
    | some hwr =>
        simp only [reserveRegion, if_neg placed, answer] at taken
        cases taken
        refine ⟨⟨hwr, hw, ?_⟩, rfl, rfl, rfl⟩
        simp only [placeRegion, if_neg placed, answer]

/-- Reading a header and reserving a region change only the hardware. -/
theorem prepareRegion_kernel {drivers : UInt16 → HwrDriver δ ε} {item : ExecqItem}
    {env : RegionEnv ε} {s next : LoadState δ}
    (taken : prepareRegion drivers item env s = .ok next) :
    next.kernel = { s.kernel with hw := next.kernel.hw } := by
  rcases bind_eq_ok_iff.mp taken with ⟨header, read, taken⟩
  rw [← (readHwrhdr_ok read).2.2]
  exact (reserveRegion_ok taken).2.2.2

/-- So does the configuration, which then moves on to the next header. -/
theorem configureRegion_kernel {drivers : UInt16 → HwrDriver δ ε} {file : File}
    {env : RegionEnv ε} {s next : LoadState δ}
    (taken : configureRegion drivers file env s = .ok next) :
    next.kernel = { s.kernel with hw := next.kernel.hw } ∧
      next.curFoff = s.hwrhdr.nextHwr := by
  unfold configureRegion at taken
  simp only at taken
  split at taken
  · contradiction
  · split at taken
    · contradiction
    · split at taken
      · contradiction
      · cases taken
        exact ⟨rfl, rfl⟩

/-! ## All regions -/

section Loaded

variable (platform : Platform δ ε) (item : ExecqItem) (env : LoadEnv ε) (kernel : KernelState δ)

/-- The file declares the entry in one of the first `count` regions: a turn of
the region loop that is reached reads it from the symbol table behind its
header. -/
def DeclaredIn (count : ℕ) (entry : BofIoreg) : Prop :=
  ∃ turn < count, ∃ s, loadRegions platform.drivers item env kernel turn = .ok s ∧
    ∃ r, prepareRegion platform.drivers item (env.region turn) s = .ok r ∧
      ∃ i < r.hwrhdr.nrSymbol.toNat,
        entryAt item.bprm.file (env.region turn) r.curFoff i = entry

/-- The file declares the entry. -/
def Declares (entry : BofIoreg) : Prop :=
  DeclaredIn platform item env kernel item.bprm.buf.bNumchip.toNat entry

/-- The file declares the entry in one of the first `count` regions, whose string
table is loaded as `table`. -/
def ListedIn (count : ℕ) (table : List UInt8) (entry : BofIoreg) : Prop :=
  ∃ turn < count, ∃ s, loadRegions platform.drivers item env kernel turn = .ok s ∧
    ∃ r, prepareRegion platform.drivers item (env.region turn) s = .ok r ∧
      tableAt item.bprm.file (env.region turn) r = table ∧
      ∃ i < r.hwrhdr.nrSymbol.toNat,
        entryAt item.bprm.file (env.region turn) r.curFoff i = entry

variable {platform item env kernel}

theorem declaredIn_iff {count : ℕ} {entry : BofIoreg} :
    DeclaredIn platform item env kernel count entry ↔
      ∃ table, ListedIn platform item env kernel count table entry := by
  constructor
  · rintro ⟨turn, lt, s, reached, r, prepared, listed⟩
    exact ⟨_, turn, lt, s, reached, r, prepared, rfl, listed⟩
  · rintro ⟨table, turn, lt, s, reached, r, prepared, -, listed⟩
    exact ⟨turn, lt, s, reached, r, prepared, listed⟩

/-- After `count` turns the registers are those of the entries of these turns, each
with the string table of its region. -/
theorem listed_of_reached {count : ℕ} {s : LoadState δ}
    (reached : loadRegions platform.drivers item env kernel count = .ok s) :
    (∀ reg ∈ (s.kernel.infos kernel.nextInfo).ioreg, ∃ table addr entry,
      ListedIn platform item env kernel count table entry ∧ ioregOf table addr entry = reg) ∧
    ∀ table entry, ListedIn platform item env kernel count table entry →
      ∃ addr, ioregOf table addr entry ∈ (s.kernel.infos kernel.nextInfo).ioreg := by
  induction count generalizing s with
  | zero =>
      cases reached
      constructor
      · simp [loadStart, BorphInfo.fresh]
      · rintro table entry ⟨turn, lt, -⟩
        contradiction
  | succ count ih =>
      rcases repeatTurns_succ_eq_ok_iff.mp reached with ⟨before, reachedBefore, taken⟩
      rcases bind_eq_ok_iff.mp taken with ⟨r, prepared, taken⟩
      rcases bind_eq_ok_iff.mp taken with ⟨d, declared, configured⟩
      rcases declareRegion_entered declared with ⟨strtab, retval, loaded, -, ioreg_eq, -⟩
      rw [(configureRegion_kernel configured).1, ioreg_eq, prepareRegion_kernel prepared,
        loadStrtab_ok loaded]
      rcases ih reachedBefore with ⟨sound, complete⟩
      constructor
      · intro reg mem
        rcases List.mem_append.mp mem with new | old
        · rcases List.mem_map.mp (List.mem_reverse.mp new) with ⟨i, lt, rfl⟩
          refine ⟨_, r.hwrhdr.addr, _, ?_, rfl⟩
          exact ⟨count, Nat.lt_succ_self count, before, reachedBefore, r, prepared, rfl, i,
            List.mem_range.mp lt, rfl⟩
        · rcases sound reg old with ⟨table, addr, entry, ⟨turn, lt, rest⟩, rfl⟩
          exact ⟨table, addr, entry, ⟨turn, Nat.lt_succ_of_lt lt, rest⟩, rfl⟩
      · rintro table entry ⟨turn, lt, s, reachedTurn, r', prepared', rfl, i, small, rfl⟩
        rcases Nat.lt_succ_iff_lt_or_eq.mp lt with earlier | rfl
        · rcases complete _ _ ⟨turn, earlier, s, reachedTurn, r', prepared', rfl, i, small, rfl⟩
            with ⟨addr, mem⟩
          exact ⟨addr, List.mem_append_right _ mem⟩
        · rcases Except.ok.inj (reachedBefore.symm.trans reachedTurn) with rfl
          rcases Except.ok.inj (prepared.symm.trans prepared') with rfl
          refine ⟨r.hwrhdr.addr, List.mem_append_left _ (List.mem_reverse.mpr ?_)⟩
          exact List.mem_map.mpr ⟨i, List.mem_range.mpr small, rfl⟩

/-- The same for a loaded file. -/
theorem listed_of_loaded {after : KernelState δ}
    (loaded : borphLoadHw platform.drivers item env kernel = (.loaded, after)) :
    (∀ reg ∈ (after.infos kernel.nextInfo).ioreg, ∃ table addr entry,
      ListedIn platform item env kernel item.bprm.buf.bNumchip.toNat table entry ∧
        ioregOf table addr entry = reg) ∧
    ∀ table entry, ListedIn platform item env kernel item.bprm.buf.bNumchip.toNat table entry →
      ∃ addr, ioregOf table addr entry ∈ (after.infos kernel.nextInfo).ioreg := by
  rcases borphLoadHw_eq_loaded_iff.mp loaded with ⟨-, s, reached, rfl⟩
  simpa [KernelState.modifyInfo] using listed_of_reached reached

/-- The registers of a loaded file are those of the entries that it declares. -/
theorem ioreg_of_loaded {after : KernelState δ}
    (loaded : borphLoadHw platform.drivers item env kernel = (.loaded, after)) :
    (∀ reg ∈ (after.infos kernel.nextInfo).ioreg, ∃ strtab addr entry,
      Declares platform item env kernel entry ∧ ioregOf strtab addr entry = reg) ∧
    ∀ entry, Declares platform item env kernel entry →
      ∃ strtab addr, ioregOf strtab addr entry ∈ (after.infos kernel.nextInfo).ioreg := by
  rcases listed_of_loaded loaded with ⟨sound, complete⟩
  constructor
  · intro reg mem
    rcases sound reg mem with ⟨table, addr, entry, listed, rfl⟩
    exact ⟨table, addr, entry, declaredIn_iff.mpr ⟨table, listed⟩, rfl⟩
  · intro entry declared
    rcases declaredIn_iff.mp declared with ⟨table, listed⟩
    exact ⟨table, complete table entry listed⟩

end Loaded

end Rhino.Loader
