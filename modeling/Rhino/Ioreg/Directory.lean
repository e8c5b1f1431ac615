import Rhino.Ioreg.Window
import Rhino.Loader.Walk
import Rhino.Bytes.StringTable

/-!
# The directory of registers

`proc_ioreg_lookup` and `proc_ioreg_readdir` of `fs/proc/proc_borph.c` show the
registers of a process as the files of `/proc/<pid>/hw/ioreg`.  Both ask for the
`strlen` of register names, which the loader takes from the string table of the
file without a look: `names_inside_iff` says which loaded files have names that
end in their table.
-/

namespace Rhino.Ioreg

open Rhino.Bof Rhino.Bytes Rhino.Hwr Rhino.Kernel Rhino.Loader

/-- The part of a task that the directory uses. -/
structure ProcTask where
  pid : ℕ
  borphInfo : Option BorphInfo

/-! ## Looking up a name -/

/-- The loop of `proc_ioreg_lookup` over the registers that are left.  It comes
to nothing if `strlen` leaves the string table. -/
def lookupIoreg (name : List UInt8) : List Ioreg → Option (Except ℤ Ioreg)
  | [] => some (.error (-enoent))
  | reg :: rest => do
      let regnamelen ← strlen reg.strtab reg.name
      if name.length = regnamelen ∧ name = slice reg.name regnamelen reg.strtab then
        some (.ok reg)
      else
        lookupIoreg name rest

/-- `proc_ioreg_lookup`, up to the register whose inode is made. -/
def procIoregLookup (task : Option ProcTask) (name : List UInt8) : Option (Except ℤ Ioreg) :=
  match task with
  | none => some (.error (-einval))
  | some task =>
      match task.borphInfo with
      | none => some (.error (-einval))
      | some bi => lookupIoreg name bi.ioreg

/-! ## Reading the directory -/

/-- The loop of `proc_ioreg_readdir` over the registers that are left: what it
returns and the position that it leaves.  `fill` says whether `filldir` takes the
entry with this number and this name. -/
def readdirIoregs (fill : ℕ → List UInt8 → Bool) (pos : ℕ) :
    ℕ → ℕ → List Ioreg → Option (ℤ × ℕ)
  | _, fpos, [] => some (1, fpos)
  | i, fpos, reg :: rest =>
      if pos ≤ i then do
        let regnamelen ← strlen reg.strtab reg.name
        if fill i (slice reg.name regnamelen reg.strtab) then
          readdirIoregs fill pos (i + 1) (fpos + 1) rest
        else
          some (0, fpos)
      else
        readdirIoregs fill pos (i + 1) fpos rest

/-- `proc_ioreg_readdir` from the position `fpos`, which it keeps in 32 bits.
The cases of its `switch` fall through. -/
def procIoregReaddir (task : Option ProcTask) (fill : ℕ → List UInt8 → Bool) (fpos : ℕ) :
    Option (ℤ × ℕ) :=
  match task with
  | none => some (-enoent, fpos)
  | some task =>
      let pos := fpos % 2 ^ 32
      if task.pid = 0 then some (-enoent, fpos)
      else if pos = 0 ∧ ¬ fill 0 [46] then some (0, fpos)
      else
        let fpos := if pos = 0 then fpos + 1 else fpos
        if pos ≤ 1 ∧ ¬ fill 1 [46, 46] then some (0, fpos)
        else
          let fpos := if pos ≤ 1 then fpos + 1 else fpos
          match task.borphInfo with
          | none => some (1, fpos)
          | some bi => readdirIoregs fill pos 2 fpos bi.ioreg

/-! ## Names that end in their table -/

/-- The name of a register lies in the string table of its region and ends in
it. -/
structure WellNamed (reg : Ioreg) : Prop where
  pointer : reg.name < reg.strtab.length
  terminated : ∃ k, reg.name ≤ k ∧ reg.strtab[k]? = some 0

/-- All names of a process are well formed, and the directory stays inside the
string tables. -/
structure NamesInside (info : BorphInfo) : Prop where
  named : ∀ reg ∈ info.ioreg, WellNamed reg
  lookup : ∀ pid name, (procIoregLookup (some ⟨pid, some info⟩) name).isSome
  readdir : ∀ pid fill fpos, (procIoregReaddir (some ⟨pid, some info⟩) fill fpos).isSome

theorem wellNamed_iff {reg : Ioreg} : WellNamed reg ↔ (strlen reg.strtab reg.name).isSome := by
  rw [strlen_isSome_iff]
  constructor
  · exact WellNamed.terminated
  · rintro ⟨k, le, zero⟩
    have inside : k < reg.strtab.length := (List.getElem?_eq_some_iff.mp zero).1
    exact ⟨le.trans_lt inside, k, le, zero⟩

theorem lookupIoreg_isSome {regs : List Ioreg} (named : ∀ reg ∈ regs, WellNamed reg)
    (name : List UInt8) : (lookupIoreg name regs).isSome := by
  induction regs with
  | nil => rfl
  | cons reg rest ih =>
      rcases Option.isSome_iff_exists.mp (wellNamed_iff.mp (named reg List.mem_cons_self)) with
        ⟨regnamelen, length_eq⟩
      simp only [lookupIoreg, length_eq, Option.bind_eq_bind, Option.bind_some]
      split
      · rfl
      · exact ih fun other mem => named other (List.mem_cons_of_mem reg mem)

theorem readdirIoregs_isSome {regs : List Ioreg} (named : ∀ reg ∈ regs, WellNamed reg)
    (fill : ℕ → List UInt8 → Bool) (pos i fpos : ℕ) :
    (readdirIoregs fill pos i fpos regs).isSome := by
  induction regs generalizing i fpos with
  | nil => rfl
  | cons reg rest ih =>
      have tail := ih fun other mem => named other (List.mem_cons_of_mem reg mem)
      rcases Option.isSome_iff_exists.mp (wellNamed_iff.mp (named reg List.mem_cons_self)) with
        ⟨regnamelen, length_eq⟩
      simp only [readdirIoregs, length_eq, Option.bind_eq_bind, Option.bind_some]
      split
      · split
        · exact tail (i + 1) (fpos + 1)
        · rfl
      · exact tail (i + 1) fpos

theorem namesInside_iff {info : BorphInfo} :
    NamesInside info ↔ ∀ reg ∈ info.ioreg, WellNamed reg := by
  constructor
  · exact NamesInside.named
  · intro named
    refine ⟨named, fun _ name => lookupIoreg_isSome named name, ?_⟩
    intro pid fill fpos
    unfold procIoregReaddir
    simp only
    split
    · rfl
    · split
      · rfl
      · split
        · rfl
        · exact readdirIoregs_isSome named fill _ _ _

/-! ## Names of a loaded file -/

section Loaded

variable {δ ε : Type} {platform : Platform δ ε} {item : ExecqItem} {env : LoadEnv ε}
  {kernel : KernelState δ}

theorem tableAt_eq_some_zero_iff {file : File} {env : RegionEnv ε} {s : LoadState δ} {k : ℕ} :
    (tableAt file env s)[k]? = some 0 ↔ k < (strtabLen s.hwrhdr).toNat ∧
      (strtabRead file env s).2[k]?.getD (env.strtabMem.getD (fun _ => 0) k) = 0 := by
  have fits : (strtabRead file env s).2.length ≤ (strtabLen s.hwrhdr).toNat :=
    kernelRead_length_le _ _ _ _
  rw [tableAt, overlay_uninit_getElem? _ fits]
  by_cases inside : k < (strtabLen s.hwrhdr).toNat
  · simp [inside]
  · simp [inside]

variable (platform item env kernel)

/-- Every entry that the loader comes to has a name that starts before a zero in
the string table of its region.  A byte of the table is the one that was read, or
what the memory held if the read was short. -/
def NamesEnd : Prop :=
  ∀ turn < item.bprm.buf.bNumchip.toNat, ∀ s r,
    loadRegions platform.drivers item env kernel turn = .ok s →
    prepareRegion platform.drivers item (env.region turn) s = .ok r →
    ∀ i < r.hwrhdr.nrSymbol.toNat,
      ∃ k, (entryAt item.bprm.file (env.region turn) r.curFoff i).name.toNat ≤ k ∧
        k < (strtabLen r.hwrhdr).toNat ∧
        (strtabRead item.bprm.file (env.region turn) r).2[k]?.getD
          ((env.region turn).strtabMem.getD (fun _ => 0) k) = 0

variable {platform item env kernel}

theorem namesEnd_iff :
    NamesEnd platform item env kernel ↔ ∀ table entry,
      ListedIn platform item env kernel item.bprm.buf.bNumchip.toNat table entry →
      ∃ k, entry.name.toNat ≤ k ∧ table[k]? = some 0 := by
  constructor
  · rintro ends table entry ⟨turn, lt, s, reached, r, prepared, rfl, i, small, rfl⟩
    rcases ends turn lt s r reached prepared i small with ⟨k, le, inside, zero⟩
    exact ⟨k, le, tableAt_eq_some_zero_iff.mpr ⟨inside, zero⟩⟩
  · intro ends turn lt s r reached prepared i small
    rcases ends _ _ ⟨turn, lt, s, reached, r, prepared, rfl, i, small, rfl⟩ with ⟨k, le, zero⟩
    exact ⟨k, le, tableAt_eq_some_zero_iff.mp zero⟩

/-- A register is well named if its entry starts before a zero. -/
theorem wellNamed_ioregOf_iff {table : List UInt8} {addr : HwrAddr} {entry : BofIoreg} :
    WellNamed (ioregOf table addr entry) ↔ ∃ k, entry.name.toNat ≤ k ∧ table[k]? = some 0 :=
  wellNamed_iff.trans strlen_isSome_iff

/-- The register names of a loaded file are well formed exactly if each of them
starts before a zero in the string table that the loader has read. -/
theorem names_inside_iff {bi : ℕ}
    (returned : (borphLoadHw platform.drivers item env kernel).1.result = some 0)
    (running : (borphLoadHw platform.drivers item env kernel).2.borphInfo item.task = some bi) :
    NamesInside ((borphLoadHw platform.drivers item env kernel).2.infos bi) ↔
      NamesEnd platform item env kernel := by
  rcases loaded_of_running returned running with ⟨loaded, rfl⟩
  rcases listed_of_loaded loaded with ⟨sound, complete⟩
  rw [namesInside_iff, namesEnd_iff]
  constructor
  · intro named table entry listed
    rcases complete table entry listed with ⟨addr, mem⟩
    exact wellNamed_ioregOf_iff.mp (named _ mem)
  · intro ends reg mem
    rcases sound reg mem with ⟨table, addr, entry, listed, rfl⟩
    exact wellNamed_ioregOf_iff.mpr (ends table entry listed)

end Loaded

theorem namesEnd_ledFile :
    NamesEnd rhinoPlatform (ledFile 0x08800000) (calmLoad smoothConfig) bootKernel := by
  apply namesEnd_iff.mpr
  intro table entry listed
  rcases (listed_of_loaded (borphLoadHw_ledFile (Or.inl rfl))).2 table entry listed with
    ⟨addr, mem⟩
  rw [(ledFile_loaded (Or.inl rfl)).2, List.mem_singleton] at mem
  apply wellNamed_ioregOf_iff.mp
  rw [mem]
  exact ⟨by decide, 3, by decide, rfl⟩

/-- The name of the register `led` ends in its table. -/
theorem names_inside_led : NamesInside ((ledKernel 0x08800000).infos bootKernel.nextInfo) := by
  have pointer : (ledKernel 0x08800000).borphInfo (ledFile 0x08800000).task =
      some bootKernel.nextInfo := by decide +kernel
  have returned := congrArg LoadOutcome.result (ledFile_loaded (Or.inl rfl)).1
  exact (names_inside_iff returned pointer).mpr namesEnd_ledFile

/-- A file whose register has a name beyond its string table. -/
def strayName : ExecqItem :=
  sampleItem 1 1 oneRegister
    (({ name := 4, mode := 3, loc := 0x08800000, len := 2 } : BofIoreg).encode ++
      [108, 101, 100, 0] ++ [0xaa])

/-- The file is loaded, and a look at its directory leaves the string table. -/
theorem stray_name_is_loaded :
    let loaded := borphLoadHw rhinoPlatform.drivers strayName (calmLoad smoothConfig) bootKernel
    loaded.1.result = some 0 ∧ loaded.2.borphInfo strayName.task = some bootKernel.nextInfo ∧
      ¬ NamesInside (loaded.2.infos bootKernel.nextInfo) := by
  refine ⟨by decide +kernel, by decide +kernel, ?_⟩
  intro inside
  exact absurd (inside.lookup 1 [108, 101, 100]) (by decide +kernel)

end Rhino.Ioreg
