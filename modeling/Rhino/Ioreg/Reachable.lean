import Rhino.Ioreg.Directory
import Rhino.Mkbof.Core
import Mathlib.Data.List.Nodup

/-!
# Registers and their names

A register of a process is reached through the file that has its name.  The loader
puts the registers of a file in front of one another and never compares their names,
and the lookup takes the first one that fits: of registers with one name only the last
of the file can be reached.
-/

namespace Rhino.Ioreg

open Rhino.Bof Rhino.Bytes Rhino.Hwr Rhino.Kernel Rhino.Loader Rhino.Transition

/-- The name that `reg->name` points to. -/
def ioregName (reg : Ioreg) : List UInt8 :=
  cString reg.strtab reg.name

/-! ## The place of a register -/

/-- The place in the list at which the loop of `proc_ioreg_lookup` stops: registers are
told apart by their place and not by what they hold. -/
def lookupPlace (name : List UInt8) : List Ioreg → Option (Except ℤ ℕ)
  | [] => some (.error (-enoent))
  | reg :: rest => do
      let regnamelen ← strlen reg.strtab reg.name
      if name.length = regnamelen ∧ name = slice reg.name regnamelen reg.strtab then
        some (.ok 0)
      else
        (lookupPlace name rest).map (Except.map (· + 1))

/-- The bytes that `strlen` counts are the string. -/
theorem cString_of_strlen {data : List UInt8} {place length : ℕ}
    (length_eq : strlen data place = some length) :
    cString data place = slice place length data ∧ (cString data place).length = length := by
  rw [strlen] at length_eq
  rw [cString, slice]
  generalize data.drop place = data at length_eq ⊢
  induction data generalizing length with
  | nil => contradiction
  | cons byte rest ih =>
      by_cases zero : byte = 0
      · simp only [countToZero, zero, if_pos] at length_eq
        cases length_eq
        simp [zero]
      · simp only [countToZero, zero, if_false, Option.map_eq_some_iff] at length_eq
        rcases length_eq with ⟨shorter, counted, rfl⟩
        simpa [zero] using ih counted

/-- The test of the loop compares the names. -/
theorem matches_iff {reg : Ioreg} {regnamelen : ℕ}
    (length_eq : strlen reg.strtab reg.name = some regnamelen) (name : List UInt8) :
    (name.length = regnamelen ∧ name = slice reg.name regnamelen reg.strtab) ↔
      ioregName reg = name := by
  rcases cString_of_strlen length_eq with ⟨text, length⟩
  constructor
  · rintro ⟨-, rfl⟩
    exact text
  · rintro rfl
    exact ⟨length, text⟩

section Cons

variable {name : List UInt8} {reg : Ioreg} {rest : List Ioreg}

theorem lookupPlace_cons (named : WellNamed reg) :
    lookupPlace name (reg :: rest) =
      if ioregName reg = name then some (.ok 0)
      else (lookupPlace name rest).map (Except.map (· + 1)) := by
  rcases Option.isSome_iff_exists.mp (wellNamed_iff.mp named) with ⟨regnamelen, length_eq⟩
  simp only [lookupPlace, length_eq, Option.bind_eq_bind, Option.bind_some,
    matches_iff length_eq name]

theorem lookupIoreg_cons (named : WellNamed reg) :
    lookupIoreg name (reg :: rest) =
      if ioregName reg = name then some (.ok reg) else lookupIoreg name rest := by
  rcases Option.isSome_iff_exists.mp (wellNamed_iff.mp named) with ⟨regnamelen, length_eq⟩
  simp only [lookupIoreg, length_eq, Option.bind_eq_bind, Option.bind_some,
    matches_iff length_eq name]

theorem lookupPlace_cons_of_stray (stray : ¬ WellNamed reg) :
    lookupPlace name (reg :: rest) = none := by
  rw [wellNamed_iff, Option.not_isSome_iff_eq_none] at stray
  simp only [lookupPlace, stray, Option.bind_eq_bind, Option.bind_none]

theorem lookupPlace_cons_eq_ok_iff {i : ℕ} (named : WellNamed reg) :
    lookupPlace name (reg :: rest) = some (.ok i) ↔
      (ioregName reg = name ∧ i = 0) ∨
        (ioregName reg ≠ name ∧ ∃ j, lookupPlace name rest = some (.ok j) ∧ i = j + 1) := by
  rw [lookupPlace_cons named]
  by_cases same : ioregName reg = name
  · simp [same, eq_comm]
  · simp only [same, if_false, false_and, ne_eq, not_false_eq_true, true_and, false_or]
    cases lookupPlace name rest with
    | none => simp
    | some result => cases result <;> simp [Except.map, eq_comm]

end Cons

/-- The lookup yields the register at that place. -/
theorem lookupIoreg_of_place {name : List UInt8} {regs : List Ioreg} {i : ℕ}
    (found : lookupPlace name regs = some (.ok i)) :
    ∃ reg, regs[i]? = some reg ∧ lookupIoreg name regs = some (.ok reg) := by
  induction regs generalizing i with
  | nil => simp [lookupPlace] at found
  | cons first rest ih =>
      by_cases named : WellNamed first
      · rw [lookupIoreg_cons named]
        rcases (lookupPlace_cons_eq_ok_iff named).mp found with
          ⟨same, rfl⟩ | ⟨other, j, later, rfl⟩
        · exact ⟨first, rfl, if_pos same⟩
        · rw [if_neg other]
          exact ih later
      · rw [lookupPlace_cons_of_stray named] at found
        contradiction

/-- The place is the first one with the name, and its name ends in its table. -/
theorem first_of_lookupPlace {name : List UInt8} {regs : List Ioreg} {i : ℕ}
    (found : lookupPlace name regs = some (.ok i)) :
    ∃ reg, regs[i]? = some reg ∧ WellNamed reg ∧
      ∀ j < i, ∀ other, regs[j]? = some other → ioregName other ≠ name := by
  induction regs generalizing i with
  | nil => simp [lookupPlace] at found
  | cons first rest ih =>
      by_cases named : WellNamed first
      · rcases (lookupPlace_cons_eq_ok_iff named).mp found with
          ⟨same, rfl⟩ | ⟨different, place, later, rfl⟩
        · exact ⟨first, rfl, named, fun j lt => absurd lt (Nat.not_lt_zero j)⟩
        · rcases ih later with ⟨reg, listed, regNamed, before⟩
          refine ⟨reg, listed, regNamed, ?_⟩
          intro j lt other otherListed
          cases j with
          | zero =>
              cases otherListed
              exact different
          | succ j => exact before j (Nat.lt_of_succ_lt_succ lt) other otherListed
      · rw [lookupPlace_cons_of_stray named] at found
        contradiction

theorem lookupPlace_of_nodup {regs : List Ioreg} (named : ∀ reg ∈ regs, WellNamed reg)
    (distinct : (regs.map ioregName).Nodup) {i : ℕ} {reg : Ioreg} (listed : regs[i]? = some reg) :
    lookupPlace (ioregName reg) regs = some (.ok i) := by
  induction regs generalizing i with
  | nil => simp at listed
  | cons first rest ih =>
      rw [List.forall_mem_cons] at named
      rw [List.map_cons, List.nodup_cons] at distinct
      apply (lookupPlace_cons_eq_ok_iff named.1).mpr
      cases i with
      | zero =>
          cases listed
          exact Or.inl ⟨rfl, rfl⟩
      | succ i =>
          have behind : reg ∈ rest := List.mem_of_getElem? listed
          refine Or.inr ⟨?_, i, ih named.2 distinct.2 listed, rfl⟩
          intro same
          exact distinct.1 (same ▸ List.mem_map_of_mem behind)

/-! ## Reachable registers -/

/-- Every register of the process is the one that is instantiated for its own name. -/
def Reachable (info : BorphInfo) : Prop :=
  ∀ pid i reg, info.ioreg[i]? = some reg →
    procIoregLookup (some ⟨pid, some info⟩) (ioregName reg) = some (.ok reg) ∧
      lookupPlace (ioregName reg) info.ioreg = some (.ok i)

theorem reachable_iff_nodup {info : BorphInfo} :
    Reachable info ↔
      (∀ reg ∈ info.ioreg, WellNamed reg) ∧ (info.ioreg.map ioregName).Nodup := by
  constructor
  · intro reachable
    constructor
    · intro reg mem
      rcases List.mem_iff_getElem?.mp mem with ⟨i, listed⟩
      rcases first_of_lookupPlace (reachable 1 i reg listed).2 with ⟨found, same, named, -⟩
      cases listed.symm.trans same
      exact named
    · rw [List.nodup_iff_getElem?_ne_getElem?]
      intro i j lt inside same
      rw [List.length_map] at inside
      have listed := List.getElem?_eq_getElem inside
      have earlier := List.getElem?_eq_getElem (lt.trans inside)
      rcases first_of_lookupPlace (reachable 1 j _ listed).2 with ⟨-, -, -, before⟩
      apply before i lt _ earlier
      rw [List.getElem?_map, List.getElem?_map, listed, earlier] at same
      exact Option.some.inj same
  · rintro ⟨named, distinct⟩ pid i reg listed
    have place := lookupPlace_of_nodup named distinct listed
    rcases lookupIoreg_of_place place with ⟨found, same, instantiated⟩
    cases listed.symm.trans same
    exact ⟨instantiated, place⟩

/-! ## The names in the file -/

/-- The name of the `i`-th entry of a region whose header is prepared. -/
def nameAt {δ ε : Type} (file : File) (env : RegionEnv ε) (r : LoadState δ) (i : ℕ) :
    List UInt8 :=
  cString (tableAt file env r) (entryAt file env r.curFoff i).name.toNat

section Declared

variable {δ ε : Type} (platform : Platform δ ε) (item : ExecqItem) (env : LoadEnv ε)
  (kernel : KernelState δ)

/-- The `i`-th entry that the file declares in a turn of the region loop has the name. -/
def NamedAt (turn i : ℕ) (name : List UInt8) : Prop :=
  ∃ s, loadRegions platform.drivers item env kernel turn = .ok s ∧
    ∃ r, prepareRegion platform.drivers item (env.region turn) s = .ok r ∧
      i < r.hwrhdr.nrSymbol.toNat ∧ nameAt item.bprm.file (env.region turn) r i = name

/-- Entries that the file declares at different places have different names. -/
def NamesDiffer (count : ℕ) : Prop :=
  ∀ turn < count, ∀ other < count, ∀ i j name,
    NamedAt platform item env kernel turn i name →
      NamedAt platform item env kernel other j name → turn = other ∧ i = j

variable {platform item env kernel}

/-- The names of the list are those of the entries. -/
theorem mem_names_iff {count : ℕ} {s : LoadState δ} {name : List UInt8}
    (reached : loadRegions platform.drivers item env kernel count = .ok s) :
    name ∈ (s.kernel.infos kernel.nextInfo).ioreg.map ioregName ↔
      ∃ turn < count, ∃ i, NamedAt platform item env kernel turn i name := by
  rcases listed_of_reached reached with ⟨sound, complete⟩
  constructor
  · intro mem
    rcases List.mem_map.mp mem with ⟨reg, listed, rfl⟩
    rcases sound reg listed with
      ⟨table, addr, entry, ⟨turn, lt, s, before, r, prepared, rfl, i, small, rfl⟩, rfl⟩
    exact ⟨turn, lt, i, s, before, r, prepared, small, rfl⟩
  · rintro ⟨turn, lt, i, s, before, r, prepared, small, rfl⟩
    rcases complete _ _ ⟨turn, lt, s, before, r, prepared, rfl, i, small, rfl⟩ with ⟨addr, mem⟩
    exact List.mem_map.mpr ⟨_, mem, rfl⟩

/-- A further turn keeps the names different if those of its entries differ from one
another and from the earlier ones. -/
theorem namesDiffer_succ_iff {count : ℕ} :
    NamesDiffer platform item env kernel (count + 1) ↔
      NamesDiffer platform item env kernel count ∧
      (∀ i j name, NamedAt platform item env kernel count i name →
        NamedAt platform item env kernel count j name → i = j) ∧
      ∀ turn < count, ∀ i j name, NamedAt platform item env kernel turn i name →
        ¬ NamedAt platform item env kernel count j name := by
  constructor
  · intro differ
    refine ⟨?_, ?_, ?_⟩
    · intro turn lt other otherLt
      exact differ turn (Nat.lt_succ_of_lt lt) other (Nat.lt_succ_of_lt otherLt)
    · intro i j name first second
      exact (differ count count.lt_succ_self count count.lt_succ_self i j name first second).2
    · intro turn lt i j name first second
      have same := differ turn (Nat.lt_succ_of_lt lt) count count.lt_succ_self i j name first
        second
      exact lt.ne same.1
  · rintro ⟨before, inner, outer⟩ turn lt other otherLt i j name first second
    rcases Nat.lt_succ_iff_lt_or_eq.mp lt with earlier | rfl
    · rcases Nat.lt_succ_iff_lt_or_eq.mp otherLt with otherEarlier | rfl
      · exact before turn earlier other otherEarlier i j name first second
      · exact absurd second (outer turn earlier i j name first)
    · rcases Nat.lt_succ_iff_lt_or_eq.mp otherLt with otherEarlier | rfl
      · exact absurd first (outer other otherEarlier j i name second)
      · exact ⟨rfl, inner i j name first second⟩

theorem namedAt_iff {turn i : ℕ} {name : List UInt8} {s r : LoadState δ}
    (reached : loadRegions platform.drivers item env kernel turn = .ok s)
    (prepared : prepareRegion platform.drivers item (env.region turn) s = .ok r) :
    NamedAt platform item env kernel turn i name ↔
      i < r.hwrhdr.nrSymbol.toNat ∧ nameAt item.bprm.file (env.region turn) r i = name := by
  constructor
  · rintro ⟨s', reached', r', prepared', listed⟩
    rcases Except.ok.inj (reached.symm.trans reached') with rfl
    rcases Except.ok.inj (prepared.symm.trans prepared') with rfl
    exact listed
  · intro listed
    exact ⟨s, reached, r, prepared, listed⟩

/-- A turn of the region loop puts the names of its entries in front of the others. -/
theorem names_of_loadRegion {turn bi : ℕ} {s next : LoadState δ}
    (taken : loadRegion platform.drivers item env bi turn s = .ok next) :
    ∃ r, prepareRegion platform.drivers item (env.region turn) s = .ok r ∧
      (next.kernel.infos bi).ioreg.map ioregName =
        ((List.range r.hwrhdr.nrSymbol.toNat).map
          (nameAt item.bprm.file (env.region turn) r)).reverse ++
            (s.kernel.infos bi).ioreg.map ioregName := by
  rcases bind_eq_ok_iff.mp taken with ⟨r, prepared, taken⟩
  rcases bind_eq_ok_iff.mp taken with ⟨d, declared, configured⟩
  rcases declareRegion_entered declared with ⟨strtab, retval, loaded, -, ioreg_eq, -⟩
  refine ⟨r, prepared, ?_⟩
  rw [(configureRegion_kernel configured).1, ioreg_eq, prepareRegion_kernel prepared,
    loadStrtab_ok loaded, List.map_append, List.map_reverse, List.map_map]
  rfl

/-- The list of the registers has each name once exactly if the names of the entries
differ. -/
theorem nodup_names_iff {count : ℕ} {s : LoadState δ}
    (reached : loadRegions platform.drivers item env kernel count = .ok s) :
    ((s.kernel.infos kernel.nextInfo).ioreg.map ioregName).Nodup ↔
      NamesDiffer platform item env kernel count := by
  induction count generalizing s with
  | zero =>
      cases reached
      constructor
      · intro _ turn lt
        contradiction
      · intro _
        simp [loadStart, BorphInfo.fresh]
  | succ count ih =>
      rcases repeatTurns_succ_eq_ok_iff.mp reached with ⟨before, reachedBefore, taken⟩
      rcases names_of_loadRegion taken with ⟨r, prepared, names_eq⟩
      have named_iff : ∀ i name, _ := fun i name =>
        @namedAt_iff _ _ platform item env kernel count i name _ _ reachedBefore prepared
      rw [names_eq, List.nodup_append', List.nodup_reverse,
        List.nodup_map_iff_inj_on List.nodup_range, ih reachedBefore, namesDiffer_succ_iff,
        and_left_comm]
      apply and_congr_right
      intro _
      apply and_congr
      · constructor
        · intro inj i j name first second
          rcases (named_iff i name).mp first with ⟨small, named⟩
          rcases (named_iff j name).mp second with ⟨otherSmall, otherNamed⟩
          exact inj i (List.mem_range.mpr small) j (List.mem_range.mpr otherSmall)
            (named.trans otherNamed.symm)
        · intro inner i iMem j jMem same
          exact inner i j _ ((named_iff i _).mpr ⟨List.mem_range.mp iMem, same⟩)
            ((named_iff j _).mpr ⟨List.mem_range.mp jMem, rfl⟩)
      · constructor
        · intro disjoint turn lt i j name first second
          rcases (named_iff j name).mp second with ⟨small, rfl⟩
          have new := List.mem_reverse.mpr
            (List.mem_map_of_mem (f := nameAt item.bprm.file (env.region count) r)
              (List.mem_range.mpr small))
          exact disjoint new ((mem_names_iff reachedBefore).mpr ⟨turn, lt, i, first⟩)
        · intro outer name new old
          rcases List.mem_map.mp (List.mem_reverse.mp new) with ⟨j, jMem, rfl⟩
          rcases (mem_names_iff reachedBefore).mp old with ⟨turn, lt, i, first⟩
          exact outer turn lt i j _ first ((named_iff j _).mpr ⟨List.mem_range.mp jMem, rfl⟩)

/-- The same for a loaded file. -/
theorem nodup_names_of_loaded_iff {after : KernelState δ}
    (loaded : borphLoadHw platform.drivers item env kernel = (.loaded, after)) :
    ((after.infos kernel.nextInfo).ioreg.map ioregName).Nodup ↔
      NamesDiffer platform item env kernel item.bprm.buf.bNumchip.toNat := by
  rcases borphLoadHw_eq_loaded_iff.mp loaded with ⟨-, s, reached, rfl⟩
  rw [← nodup_names_iff reached]
  simp [KernelState.modifyInfo]

/-- The registers of a loaded file can all be reached exactly if the names of the entries
that it declares end in their string tables and no two of them are equal. -/
theorem registers_reachable_iff {bi : ℕ}
    (returned : (borphLoadHw platform.drivers item env kernel).1.result = some 0)
    (running : (borphLoadHw platform.drivers item env kernel).2.borphInfo item.task = some bi) :
    Reachable ((borphLoadHw platform.drivers item env kernel).2.infos bi) ↔
      NamesEnd platform item env kernel ∧
        NamesDiffer platform item env kernel item.bprm.buf.bNumchip.toNat := by
  rw [← names_inside_iff returned running, namesInside_iff, reachable_iff_nodup]
  apply and_congr_right
  intro _
  rcases loaded_of_running returned running with ⟨loaded, rfl⟩
  exact nodup_names_of_loaded_iff loaded

end Declared

/-- The file `led` declares one register. -/
theorem namesDiffer_ledFile : NamesDiffer rhinoPlatform (ledFile 0x08800000)
    (calmLoad smoothConfig) bootKernel (ledFile 0x08800000).bprm.buf.bNumchip.toNat := by
  apply (nodup_names_of_loaded_iff (borphLoadHw_ledFile (Or.inl rfl))).mp
  rw [(ledFile_loaded (Or.inl rfl)).2]
  exact List.nodup_singleton _

/-- The only register of the file `led` can be reached. -/
theorem led_reachable : Reachable ((ledKernel 0x08800000).infos bootKernel.nextInfo) := by
  have pointer : (ledKernel 0x08800000).borphInfo (ledFile 0x08800000).task =
      some bootKernel.nextInfo := by decide +kernel
  have returned := congrArg LoadOutcome.result (ledFile_loaded (Or.inl rfl)).1
  exact (registers_reachable_iff returned pointer).mpr ⟨namesEnd_ledFile, namesDiffer_ledFile⟩

/-- The lines `a 3 0 4` and `a 3 4 4`. -/
def twinSymbols : List UInt8 :=
  [97, 32, 51, 32, 48, 32, 52, 10, 97, 32, 51, 32, 52, 32, 52, 10]

/-- What mkbof makes of them. -/
def twinFile : File :=
  ((Mkbof.main Mkbof.sampleHost (Mkbof.initialGlobals HAC_RHINO.toUInt32) (List.replicate 52 0)
    twinSymbols [0xaa]).toOption).getD []

def twinItem : ExecqItem where
  bprm := ⟨BofHdr.decode twinFile, twinFile⟩
  task := 1

/-- Two symbols of one name are accepted and loaded, and the first of them cannot be
reached. -/
theorem twin_is_hidden :
    let loaded := borphLoadHw rhinoPlatform.drivers twinItem (calmLoad smoothConfig) bootKernel
    (Mkbof.main Mkbof.sampleHost (Mkbof.initialGlobals HAC_RHINO.toUInt32) (List.replicate 52 0)
        twinSymbols [0xaa]).toOption = some twinFile ∧
      loaded.1.result = some 0 ∧
      loaded.2.borphInfo twinItem.task = some bootKernel.nextInfo ∧
      ¬ Reachable (loaded.2.infos bootKernel.nextInfo) := by
  refine ⟨by decide +kernel, by decide +kernel, by decide +kernel, ?_⟩
  intro reachable
  exact absurd (reachable_iff_nodup.mp reachable).2 (by decide +kernel)

end Rhino.Ioreg
