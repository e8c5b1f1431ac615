import Mathlib.Tactic.Choose
import Rhino.Gateware.Files
import Rhino.Mkbof.Opening

/-!
# The example program

The program that `mkbof` makes of `gpmc_test_top.sym`, with any ELF file and any bit file.  Once
it runs, its five registers are opened by their names, and if the design is on the bus then calls
on them do to its registers what they are for.
-/

namespace Rhino.Gateware

open Rhino.Bof Rhino.Bytes Rhino.Hwr Rhino.Hwr.Configure Rhino.Ioreg Rhino.Kernel Rhino.Loader

/-- The file `gpmc_test_top.sym`. -/
def gpmcTestTopSym : List UInt8 :=
  [86, 69, 82, 83, 73, 79, 78, 32, 49, 32, 32, 48, 120, 48, 56, 48, 48, 48, 48, 48, 48, 32, 48,
    120, 48, 50, 10, 114, 101, 103, 95, 108, 101, 100, 32, 51, 32, 32, 48, 120, 48, 56, 56, 48,
    48, 48, 48, 48, 32, 48, 120, 48, 50, 10, 114, 101, 103, 95, 102, 109, 99, 32, 51, 32, 32, 48,
    120, 48, 57, 48, 48, 48, 48, 48, 48, 32, 48, 120, 48, 50, 10, 114, 101, 103, 95, 102, 105,
    108, 101, 32, 51, 32, 48, 120, 48, 57, 56, 48, 48, 48, 48, 48, 32, 48, 120, 55, 102, 10, 114,
    101, 103, 95, 119, 111, 114, 100, 32, 51, 32, 48, 120, 48, 65, 48, 48, 48, 48, 48, 48, 32, 48,
    120, 48, 52, 10]

/-- The names of the registers. -/
def Region.name : Region → List UInt8
  | .version => [86, 69, 82, 83, 73, 79, 78]
  | .led => [114, 101, 103, 95, 108, 101, 100]
  | .fmc => [114, 101, 103, 95, 102, 109, 99]
  | .file => [114, 101, 103, 95, 102, 105, 108, 101]
  | .word => [114, 101, 103, 95, 119, 111, 114, 100]

/-- The line of a register. -/
def Region.symbol (r : Region) : Mkbof.Symbol where
  name := r.name
  mode := r.mode
  loc := r.loc
  len := r.len
  clean := by cases r <;> simp [Region.name]
  fits := by cases r <;> simp [Region.name]

/-- The registers in the order of the file. -/
def Region.listed : List Region :=
  [.version, .led, .fmc, .file, .word]

/-- What `mkbof` reads. -/
def gpmcTestSymtab : Mkbof.Symtab :=
  ⟨Region.listed.map Region.symbol, 42⟩

theorem readSymbolFile_gpmcTest :
    Mkbof.readSymbolFile Mkbof.sampleHost gpmcTestTopSym = .ok gpmcTestSymtab := by
  rfl

theorem symbol_narrow : ∀ sym ∈ gpmcTestSymtab.symtab, sym.mode.toNat < 65536 := by
  decide

theorem names_gpmcTest : Mkbof.names gpmcTestSymtab.symtab = Region.listed.map Region.name :=
  rfl

theorem Region.name_injective : Function.Injective Region.name := by
  intro r other same
  cases r <;> cases other <;> first | rfl | exact absurd same (by decide)

theorem Region.mem_listed (r : Region) : r ∈ Region.listed := by
  cases r <;> decide

/-- In a process in which the names of the symbols can be opened, those of the regions can be,
each with a register of its region. -/
theorem exists_is_of_opens {info : BorphInfo}
    (opens : ∀ pid name, Mkbof.Opens gpmcTestSymtab.symtab info pid name) (r : Region) :
    ∃ reg, r.Is reg ∧
      ∀ pid, procIoregLookup (some ⟨pid, some info⟩) r.name = some (.ok reg) := by
  rcases opens 0 r.name with ⟨sym, mem, named, reg, opened, described⟩ | ⟨unlisted, -⟩
  · obtain ⟨other, -, rfl⟩ := List.mem_map.mp mem
    obtain rfl := Region.name_injective named
    exact ⟨reg, ⟨described.loc, described.len, described.mode⟩, fun pid => opened⟩
  · rw [names_gpmcTest] at unlisted
    exact absurd (List.mem_map_of_mem r.mem_listed) unlisted

/-- Whatever the ELF file and the bit file, and whatever the order of the callbacks: once the
example program runs, its registers are found under their names, and any calls on them do to the
registers of a design on the bus what they are for.  It can get to run if the bit file does not
consist of whole pages. -/
theorem gpmcTest_runs {felf fbit : List UInt8} {file : File}
    (written : Mkbof.main Mkbof.sampleHost Mkbof.rhinoGlobals felf gpmcTestTopSym fbit = .ok file)
    (small : file.length < 2 ^ 32) {kernel : KernelState RhinoDev} {env : LoadEnv ConfigEnv}
    (served : Mkbof.Served env) (free : rhinoPlatform.Free kernel.hw rhinoAddr) (task : Task) :
    let load := fun schedule => borphLoadHw rhinoPlatform.drivers (Mkbof.program file task)
      (Mkbof.along env schedule) kernel
    (∀ schedule, (load schedule).1 = .stuck ∨ (load schedule).1 = .loaded ∧
      ∃ bi, ∃ regs : Region → Ioreg,
        (load schedule).2.borphInfo task = some bi ∧ (∀ r : Region, r.Is (regs r)) ∧
        (∀ pid, ∀ r : Region,
          procIoregLookup (some ⟨pid, some ((load schedule).2.infos bi)⟩) r.name =
            some (.ok (regs r))) ∧
        ∀ (map : FpgaMap) (host : Host) (io : IoState Device) (cells : Region → ℕ → UInt16)
          (calls : List FileCall), io.bus.Holds cells → (∀ c ∈ calls, c.Proper) →
            (afterCalls map host regs calls io).bus.Holds (afterEffects regs calls cells)) ∧
    (fbit.length % 4096 ≠ 0 → ∀ schedule, ∃ more, (load (schedule ++ more)).1 = .loaded) := by
  intro load
  obtain ⟨elf, rfl⟩ := Mkbof.rhinoFile_of_main written readSymbolFile_gpmcTest
  have fits : Mkbof.Fits felf fbit gpmcTestSymtab :=
    ⟨elf, Mkbof.readSymbolFile_counted readSymbolFile_gpmcTest, small⟩
  have narrow : Mkbof.Narrow gpmcTestSymtab.symtab := ⟨symbol_narrow, by decide⟩
  have distinct : (Mkbof.names gpmcTestSymtab.symtab).Nodup := by
    rw [names_gpmcTest]
    exact List.Nodup.map Region.name_injective (by decide)
  constructor
  · intro schedule
    rcases Mkbof.rhinoLoad_opens fits narrow distinct served free task schedule with
      stuck | ⟨loaded, bi, pointer, opens⟩
    · exact Or.inl stuck
    · choose regs declared found using exists_is_of_opens opens
      refine Or.inr ⟨loaded, bi, regs, pointer, declared, fun pid r => found r pid, ?_⟩
      intro map host io cells calls held proper
      exact afterCalls_holds declared held proper
  · exact Mkbof.rhinoLoad_returns fits served free narrow

/-- The smallest ELF file and a bit file of one byte. -/
theorem gpmcTest_runs_led :
    ∃ file, Mkbof.main Mkbof.sampleHost Mkbof.rhinoGlobals (List.replicate 52 0) gpmcTestTopSym
        [0xaa] = .ok file ∧
      ∃ schedule, (borphLoadHw rhinoPlatform.drivers (Mkbof.program file 1)
          (Mkbof.along Mkbof.calmEnv schedule) bootKernel).1 = .loaded ∧
        ∃ bi reg, Region.led.Is reg ∧
          procIoregLookup (some ⟨1, some ((borphLoadHw rhinoPlatform.drivers
            (Mkbof.program file 1) (Mkbof.along Mkbof.calmEnv schedule)
            bootKernel).2.infos bi)⟩) Region.led.name = some (.ok reg) := by
  have written : Mkbof.main Mkbof.sampleHost Mkbof.rhinoGlobals (List.replicate 52 0)
      gpmcTestTopSym [0xaa] =
        .ok (Mkbof.rhinoFile (List.replicate 52 0) [0xaa] gpmcTestSymtab) := by
    rw [Mkbof.main, if_neg (by decide), readSymbolFile_gpmcTest]
    rfl
  have small : (Mkbof.rhinoFile (List.replicate 52 0) [0xaa] gpmcTestSymtab).length < 2 ^ 32 := by
    rw [show (Mkbof.rhinoFile (List.replicate 52 0) [0xaa] gpmcTestSymtab).length = 235 from rfl]
    decide
  refine ⟨_, written, ?_⟩
  obtain ⟨runs, ends⟩ := @gpmcTest_runs (List.replicate 52 0) [0xaa] _ written small bootKernel
    Mkbof.calmEnv Mkbof.calmEnv_served (by decide) 1
  obtain ⟨schedule, loaded⟩ := ends (by decide) []
  refine ⟨schedule, loaded, ?_⟩
  rcases runs schedule with stuck | ⟨-, bi, regs, -, declared, found, -⟩
  · exact absurd (stuck.symm.trans loaded) (by decide)
  · exact ⟨bi, regs .led, declared .led, found 1 .led⟩

end Rhino.Gateware
