import Rhino.Loader.Core
import Rhino.Mkbof.Core

/-!
# The symbols of a written file

`WriteSymtab` keeps the running offset of the names and the mode of an entry in
16 bits.  The loader therefore gets back a symbol exactly if its mode has no
more than 16 bits and the place that is left of the offset of its name yields
that name again: the place itself if it is below 65536, and the rest of some
other name otherwise.
-/

namespace Rhino.Mkbof

open Rhino.Bof Rhino.Bytes Rhino.Loader

/-! ## The entries of the symbol table -/

/-- The names of the symbols. -/
def names (symtab : List Symbol) : List (List UInt8) :=
  symtab.map Symbol.name

/-- The entry that is written for symbol `i`. -/
theorem symtabEntries_getElem? (strtabOff : UInt16) (symtab : List Symbol) (i : ℕ) :
    (symtabEntries strtabOff symtab)[i]? = symtab[i]?.map fun sym =>
      { name := strtabOff + UInt16.ofNat (startOf (names symtab) i)
        mode := sym.mode.toUInt16
        loc := sym.loc
        len := sym.len } := by
  induction symtab generalizing strtabOff i with
  | nil => rfl
  | cons sym rest ih =>
      cases i with
      | zero => simp [symtabEntries]
      | succ i =>
          rw [symtabEntries, List.getElem?_cons_succ, List.getElem?_cons_succ, ih]
          simp only [names, List.map_cons, startOf, UInt16.ofNat_add, UInt16.add_assoc]

/-- The entries are found by their number. -/
theorem decode_slice_flatMap {entries : List BofIoreg} {i : ℕ} {entry : BofIoreg}
    (found : entries[i]? = some entry) :
    BofIoreg.decode (slice (BofIoreg.size * i) BofIoreg.size
      (entries.flatMap BofIoreg.encode)) = entry := by
  have part : slice (BofIoreg.size * i) BofIoreg.size (entries.map BofIoreg.encode).flatten =
      entry.encode := by
    apply slice_flatten (k := i) (by rw [List.getElem?_map, found]; rfl) _
      (BofIoreg.encode_length entry).symm
    have before : i ≤ entries.length := (List.getElem?_eq_some_iff.mp found).1.le
    have sizes : List.length ∘ BofIoreg.encode = fun _ => BofIoreg.size := by
      funext entry
      exact BofIoreg.encode_length entry
    rw [← List.map_take, List.map_map, sizes, List.map_const', List.sum_replicate_nat,
      List.length_take, Nat.min_eq_left before, Nat.mul_comm]
  rw [List.flatMap_def, part, ← List.append_nil entry.encode]
  exact BofIoreg.decode_encode_append entry []

/-! ## What the loader makes of them -/

/-- The register that the loader makes of entry `i`. -/
def loadedIoreg (symtab : List Symbol) (addr : HwrAddr) (i : ℕ) : Ioreg :=
  ioregOf (writeStrtab symtab) addr
    (BofIoreg.decode (slice (BofIoreg.size * i) BofIoreg.size (writeSymtab symtab)))

/-- The register has the name, the mode, the location and the length of the
symbol. -/
structure Describes (reg : Ioreg) (sym : Symbol) : Prop where
  name : cString reg.strtab reg.name = sym.name
  mode : reg.mode = sym.mode
  loc : reg.loc = sym.loc
  len : reg.len = sym.len

/-- What is left of the offset of name `i` in 16 bits is a place where the rest
of some name is name `i`. -/
def NameFound (symtab : List Symbol) (i : ℕ) (name : List UInt8) : Prop :=
  ∃ j, ∃ h : j < (names symtab).length, ∃ k ≤ (names symtab)[j].length,
    startOf (names symtab) j + k = startOf (names symtab) i % 65536 ∧
      (names symtab)[j].drop k = name

theorem toUInt32_toUInt16_eq_iff (mode : UInt32) :
    mode.toUInt16.toUInt32 = mode ↔ mode.toNat < 65536 := by
  rw [← UInt32.toNat_inj, UInt16.toNat_toUInt32, UInt32.toNat_toUInt16]
  omega

theorem describes_iff {symtab : List Symbol} {i : ℕ} {sym : Symbol}
    (found : symtab[i]? = some sym) (addr : HwrAddr) :
    Describes (loadedIoreg symtab addr i) sym ↔
      sym.mode.toNat < 65536 ∧ NameFound symtab i sym.name := by
  have entry : BofIoreg.decode (slice (BofIoreg.size * i) BofIoreg.size (writeSymtab symtab)) =
      { name := UInt16.ofNat (startOf (names symtab) i)
        mode := sym.mode.toUInt16
        loc := sym.loc
        len := sym.len } := by
    apply decode_slice_flatMap
    rw [symtabEntries_getElem?, found, Option.map_some, UInt16.zero_add]
  have clean : ∀ name ∈ names symtab, ∀ byte ∈ name, byte ≠ 0 := by
    intro name mem
    rcases List.mem_map.mp mem with ⟨sym, -, rfl⟩
    exact sym.clean
  have inside : i < (names symtab).length := by
    rw [names, List.length_map]
    exact (List.getElem?_eq_some_iff.mp found).1
  have place : startOf (names symtab) i % 65536 < (stringTable (names symtab)).length :=
    (Nat.mod_le _ _).trans_lt (startOf_lt_length inside)
  have name_iff : cString (loadedIoreg symtab addr i).strtab (loadedIoreg symtab addr i).name =
      sym.name ↔ NameFound symtab i sym.name := by
    rw [loadedIoreg, entry, ioregOf, writeStrtab_eq, UInt16.toNat_ofNat']
    exact cString_stringTable_eq_iff clean place
  have mode_iff : (loadedIoreg symtab addr i).mode = sym.mode ↔ sym.mode.toNat < 65536 := by
    rw [loadedIoreg, entry]
    exact toUInt32_toUInt16_eq_iff sym.mode
  constructor
  · intro described
    exact ⟨mode_iff.mp described.mode, name_iff.mp described.name⟩
  · rintro ⟨narrow, nameFound⟩
    refine ⟨name_iff.mpr nameFound, mode_iff.mpr narrow, ?_, ?_⟩
    · rw [loadedIoreg, entry]
      rfl
    · rw [loadedIoreg, entry]
      rfl

/-- If the string table has no more than 65536 bytes then every name is found. -/
theorem nameFound_of_small {symtab : List Symbol} (small : (writeStrtab symtab).length ≤ 65536)
    {i : ℕ} {sym : Symbol} (found : symtab[i]? = some sym) : NameFound symtab i sym.name := by
  rcases List.getElem?_eq_some_iff.mp found with ⟨lt, rfl⟩
  have inside : i < (names symtab).length := by rwa [names, List.length_map]
  have below := startOf_lt_length inside
  rw [writeStrtab_eq] at small
  refine ⟨i, inside, 0, Nat.zero_le _, ?_, by simp [names]⟩
  exact (Nat.mod_eq_of_lt (below.trans_le small)).symm

/-- For every list of symbols with names that fit their fields: the loader gets
all of them back exactly if all modes have 16 bits and all names are found where
their offsets in 16 bits point to. -/
theorem loadedIoreg_describes_iff (symtab : List Symbol) (addr : HwrAddr) :
    (∀ i sym, symtab[i]? = some sym → Describes (loadedIoreg symtab addr i) sym) ↔
      ∀ i sym, symtab[i]? = some sym → sym.mode.toNat < 65536 ∧ NameFound symtab i sym.name := by
  constructor
  · intro described i sym found
    exact (describes_iff found addr).mp (described i sym found)
  · intro narrow i sym found
    exact (describes_iff found addr).mpr (narrow i sym found)

/-- A list of symbols with narrow modes and a small string table comes back. -/
theorem loadedIoreg_describes_of_small {symtab : List Symbol}
    (narrow : ∀ sym ∈ symtab, sym.mode.toNat < 65536)
    (small : (writeStrtab symtab).length ≤ 65536) (addr : HwrAddr) {i : ℕ} {sym : Symbol}
    (found : symtab[i]? = some sym) : Describes (loadedIoreg symtab addr i) sym := by
  apply (describes_iff found addr).mpr
  exact ⟨narrow sym (List.mem_of_getElem? found), nameFound_of_small small found⟩

/-- The line `a 10003 0 0`. -/
def wideMode : List UInt8 :=
  [97, 32, 49, 48, 48, 48, 51, 32, 48, 32, 48, 10]

def wideSymbol : Symbol where
  name := [97]
  mode := 0x10003
  loc := 0
  len := 0
  clean := by simp
  fits := by simp

theorem readSymbolFile_wideMode :
    readSymbolFile sampleHost wideMode = .ok ⟨[wideSymbol], 2⟩ := by
  rfl

/-- A symbol file whose only symbol has a mode of 17 bits is accepted, and the
register that is loaded has another mode. -/
theorem wide_mode_is_cut_off :
    ¬ ∀ table, readSymbolFile sampleHost wideMode = .ok table →
      ∀ i sym, table.symtab[i]? = some sym →
        Describes (loadedIoreg table.symtab ⟨HAC_RHINO, 0⟩ i) sym := by
  intro always
  have described := always _ readSymbolFile_wideMode 0 wideSymbol rfl
  have narrow := ((describes_iff rfl ⟨HAC_RHINO, 0⟩).mp described).1
  exact absurd narrow (by decide)

end Rhino.Mkbof
