import Rhino.Ioreg.Reachable
import Rhino.Mkbof.Execution

/-!
# Opening the registers of a running program

From the lines of a symbol file to the files that a user finds: if no two symbols have one name
then the names that can be opened in the directory of a program that `mkbof` has made are those
of its symbols, and behind each of them is the register that its line describes.
-/

namespace Rhino.Mkbof

open Rhino.Bof Rhino.Bytes Rhino.Hwr Rhino.Hwr.Configure Rhino.Ioreg Rhino.Kernel Rhino.Loader

/-! ## The registers of the symbols -/

section Registers

variable {symtab : List Symbol}

/-- The loader finds the end of every name, also of one whose place has been cut off. -/
theorem loadedIoreg_wellNamed (addr : HwrAddr) {i : ℕ} {sym : Symbol}
    (found : symtab[i]? = some sym) : WellNamed (loadedIoreg symtab addr i) := by
  have inside : i < (names symtab).length := by
    rw [names, List.length_map]
    exact (List.getElem?_eq_some_iff.mp found).1
  have entry : (symtabEntries 0 symtab)[i]? = some
      { name := UInt16.ofNat (startOf (names symtab) i)
        mode := sym.mode.toUInt16
        loc := sym.loc
        len := sym.len } := by
    rw [symtabEntries_getElem?, found, Option.map_some, UInt16.zero_add]
  rw [loadedIoreg, writeSymtab, decode_slice_flatMap entry, wellNamed_ioregOf_iff, writeStrtab_eq]
  apply exists_zero_behind
  rw [UInt16.toNat_ofNat']
  exact (Nat.mod_le _ _).trans_lt (startOf_lt_length inside)

theorem map_ioregName_loadedIoreg (narrow : Narrow symtab) (addr : HwrAddr) :
    ((List.range symtab.length).map (loadedIoreg symtab addr)).map ioregName = names symtab := by
  apply List.ext_getElem?
  intro i
  rw [List.getElem?_map, List.getElem?_map, names, List.getElem?_map]
  by_cases inside : i < symtab.length
  · have found := List.getElem?_eq_getElem inside
    rw [List.getElem?_range inside, found]
    exact congrArg some (loadedIoreg_describes_of_small narrow.mode narrow.name addr found).name
  · rw [List.getElem?_eq_none (by simpa using inside), List.getElem?_eq_none (by omega)]
    rfl

/-- The registers of symbols of different names can all be reached. -/
theorem reachable_of_distinct (narrow : Narrow symtab) (distinct : (names symtab).Nodup)
    {info : BorphInfo} {addr : HwrAddr}
    (ioreg : info.ioreg = ((List.range symtab.length).map (loadedIoreg symtab addr)).reverse) :
    Reachable info := by
  rw [reachable_iff_nodup, ioreg]
  constructor
  · intro reg mem
    obtain ⟨i, listed, rfl⟩ := List.mem_map.mp (List.mem_reverse.mp mem)
    exact loadedIoreg_wellNamed addr (List.getElem?_eq_getElem (List.mem_range.mp listed))
  · rw [List.map_reverse, List.nodup_reverse, map_ioregName_loadedIoreg narrow]
    exact distinct

end Registers

/-- A name that no register has is not found. -/
theorem lookupIoreg_of_unlisted {regs : List Ioreg} (named : ∀ reg ∈ regs, WellNamed reg)
    {name : List UInt8} (unlisted : name ∉ regs.map ioregName) :
    lookupIoreg name regs = some (.error (-enoent)) := by
  induction regs with
  | nil => rfl
  | cons reg rest ih =>
      rw [List.map_cons, List.mem_cons, not_or] at unlisted
      rw [lookupIoreg_cons (named reg List.mem_cons_self), if_neg (Ne.symm unlisted.1)]
      exact ih (fun other mem => named other (List.mem_cons_of_mem reg mem)) unlisted.2

/-! ## The files of the program -/

/-- What opening a name comes to in a process: the register that a symbol of this name
describes, or nothing if there is no such symbol. -/
def Opens (symtab : List Symbol) (info : BorphInfo) (pid : ℕ) (name : List UInt8) : Prop :=
  (∃ sym ∈ symtab, sym.name = name ∧ ∃ reg,
    procIoregLookup (some ⟨pid, some info⟩) name = some (.ok reg) ∧ Describes reg sym) ∨
  (name ∉ names symtab ∧
    procIoregLookup (some ⟨pid, some info⟩) name = some (.error (-enoent)))

theorem opens_of_loaded {symtab : List Symbol} (narrow : Narrow symtab)
    (distinct : (names symtab).Nodup) {info : BorphInfo} {addr : HwrAddr}
    (ioreg : info.ioreg = ((List.range symtab.length).map (loadedIoreg symtab addr)).reverse)
    (pid : ℕ) (name : List UInt8) : Opens symtab info pid name := by
  have reachable := reachable_of_distinct narrow distinct ioreg
  by_cases listed : name ∈ names symtab
  · left
    obtain ⟨sym, mem, rfl⟩ := List.mem_map.mp listed
    obtain ⟨i, inside, rfl⟩ := List.mem_iff_getElem.mp mem
    have found := List.getElem?_eq_getElem inside
    have described := loadedIoreg_describes_of_small narrow.mode narrow.name addr found
    have linked : loadedIoreg symtab addr i ∈ info.ioreg := by
      rw [ioreg, List.mem_reverse]
      exact List.mem_map_of_mem (List.mem_range.mpr inside)
    obtain ⟨place, there⟩ := List.mem_iff_getElem?.mp linked
    have opened := (reachable pid place _ there).1
    rw [show ioregName (loadedIoreg symtab addr i) = _ from described.name] at opened
    exact ⟨_, mem, rfl, _, opened, described⟩
  · right
    refine ⟨listed, lookupIoreg_of_unlisted (reachable_iff_nodup.mp reachable).1 ?_⟩
    rwa [ioreg, List.map_reverse, List.mem_reverse, map_ioregName_loadedIoreg narrow]

/-- A load that returns has made the names of the symbols the names that can be opened. -/
theorem rhinoLoad_opens {felf fbit : List UInt8} {table : Symtab}
    {kernel : KernelState RhinoDev} {env : LoadEnv ConfigEnv} (fits : Fits felf fbit table)
    (narrow : Narrow table.symtab) (distinct : (names table.symtab).Nodup)
    (served : Served env) (free : rhinoPlatform.Free kernel.hw rhinoAddr) (task : Task)
    (schedule : List Move) :
    let load := rhinoLoad felf fbit table task kernel env schedule
    load.1 = .stuck ∨ load.1 = .loaded ∧ ∃ bi, load.2.borphInfo task = some bi ∧
      ∀ pid name, Opens table.symtab (load.2.infos bi) pid name := by
  intro load
  rcases @rhinoLoad_cases felf fbit table task kernel env fits served free narrow schedule with
    stuck | ⟨after, loaded, runs, ioreg⟩
  · exact Or.inl stuck
  · have load_eq : load = (.loaded, after) := loaded
    rw [load_eq]
    refine Or.inr ⟨rfl, kernel.nextInfo, ?_, opens_of_loaded narrow distinct ioreg⟩
    rw [runs.started.borphInfo]
    exact Function.update_self _ _ _

/-- Whatever the ELF file and the bit file, and whatever the order of the callbacks: once a file
that `mkbof` has written has been loaded onto a free FPGA, the names that can be opened in the
process are those of the symbol file, each with the register of its line.  The load can come to
its end if the bit file does not consist of whole pages. -/
theorem main_opens (host : Host) (felf fsym fbit : List UInt8) (task : Task)
    (kernel : KernelState RhinoDev) (env : LoadEnv ConfigEnv) {file : File} {table : Symtab}
    (written : main host rhinoGlobals felf fsym fbit = .ok file)
    (accepted : readSymbolFile host fsym = .ok table)
    (narrow : ∀ sym ∈ table.symtab, sym.mode.toNat < 65536)
    (short : (writeStrtab table.symtab).length ≤ 65536) (small : file.length < 2 ^ 32)
    (distinct : (names table.symtab).Nodup) (served : Served env)
    (free : rhinoPlatform.Free kernel.hw rhinoAddr) :
    let load := fun schedule => borphLoadHw rhinoPlatform.drivers (program file task)
      (along env schedule) kernel
    (∀ schedule, (load schedule).1 = .stuck ∨ (load schedule).1 = .loaded ∧
      ∃ bi, (load schedule).2.borphInfo task = some bi ∧
        ∀ pid name, Opens table.symtab ((load schedule).2.infos bi) pid name) ∧
    (fbit.length % 4096 ≠ 0 → ∀ schedule, ∃ more, (load (schedule ++ more)).1 = .loaded) := by
  obtain ⟨elf, rfl⟩ := rhinoFile_of_main written accepted
  have fits : Fits felf fbit table := ⟨elf, readSymbolFile_counted accepted, small⟩
  exact ⟨rhinoLoad_opens fits ⟨narrow, short⟩ distinct served free task,
    rhinoLoad_returns fits served free ⟨narrow, short⟩⟩

/-- The register of the LEDs, with a bit file of one byte. -/
theorem led_main_opens :
    ∃ file, main sampleHost rhinoGlobals (List.replicate 52 0) ledLine [0xaa] = .ok file ∧
      ∃ schedule, (borphLoadHw rhinoPlatform.drivers (program file 1) (along calmEnv schedule)
          bootKernel).1 = .loaded ∧
        ∃ bi, (borphLoadHw rhinoPlatform.drivers (program file 1) (along calmEnv schedule)
            bootKernel).2.borphInfo 1 = some bi ∧
          ∀ pid name, Opens [ledSymbol] ((borphLoadHw rhinoPlatform.drivers (program file 1)
            (along calmEnv schedule) bootKernel).2.infos bi) pid name := by
  refine ⟨_, main_ledLine, ?_⟩
  obtain ⟨opens, ends⟩ := main_opens sampleHost (List.replicate 52 0) ledLine [0xaa] 1 bootKernel
    calmEnv main_ledLine readSymbolFile_ledLine ledSymbol_narrow (by decide) rhinoFile_led_small
    (List.nodup_singleton _) calmEnv_served (by decide)
  obtain ⟨schedule, loaded⟩ := ends (by decide) []
  refine ⟨schedule, loaded, ?_⟩
  rcases opens schedule with stuck | ⟨-, opened⟩
  · exact absurd (stuck.symm.trans loaded) (by decide)
  · exact opened

end Rhino.Mkbof
