import Rhino.Mkbof.Symbols
import Rhino.Transition.Run

/-!
# What is stored of a symbol file

`ReadSymbolFile` lets `sscanf` write straight into the next entry of `symtab`.  A
conversion stores its field at once, also on a line that is refused in the end; `%s`
has no width; and the number of entries is only looked at after the line has been
stored and counted.
-/

namespace Rhino.Mkbof

open Rhino.Bytes Rhino.Transition

/-- The size of `name` in `struct symbol`. -/
def NAME_SIZE : ℕ := 256

/-- A field of an entry and the value that a conversion stores in it. -/
inductive SymbolField where
  | name (bytes : List UInt8)
  | mode (value : UInt32)
  | loc (value : UInt32)
  | len (value : UInt32)
  deriving DecidableEq

/-- The bytes stored, the terminator of a name among them, fit the field. -/
def SymbolField.Fits : SymbolField → Prop
  | .name bytes => bytes.length + 1 ≤ NAME_SIZE
  | _ => True

/-- A store to a field of `symtab[entry]`. -/
structure Store where
  entry : ℕ
  field : SymbolField
  deriving DecidableEq

structure Store.Inside (store : Store) : Prop where
  entry : store.entry < SYMTAB_SIZE
  field : store.field.Fits

/-! ## Stores of a line -/

/-- The text that `fgets` leaves in `block`, if it ends with a newline. -/
def wholeLine (host : Host) (block : List UInt8) : Option (List UInt8) :=
  let text := cString (block ++ [0]) 0
  if text.getLast?.getD host.before ≠ 10 then none else some text

/-- The stores of the conversions `%x`, up to the first that fails. -/
def scanNumbers (host : Host) : List (UInt32 → SymbolField) → List UInt8 → List SymbolField
  | [], _ => []
  | field :: fields, text =>
      match scanHex host text with
      | none => []
      | some (value, text) => field value :: scanNumbers host fields text

/-- The stores of `sscanf`. -/
def scanFields (host : Host) (text : List UInt8) : List SymbolField :=
  match scanName text with
  | none => []
  | some (name, text) => .name name :: scanNumbers host [.mode, .loc, .len] text

/-- The stores of one turn of the loop of `ReadSymbolFile`. -/
def lineStores (host : Host) (table : Symtab) (block : List UInt8) : List Store :=
  ((wholeLine host block).elim [] (scanFields host)).map (Store.mk table.symtab.length)

/-- A turn that does not leave the loop. -/
def nextLine (host : Host) (table : Symtab) (block : List UInt8) : Option Symtab :=
  (readLine host table block).toOption

/-- The stores of `ReadSymbolFile`. -/
def symbolStores (host : Host) (fsym : List UInt8) : List Store :=
  history (nextLine host) (lineStores host) ⟨[], 0⟩ (fgetsBlocks [] fsym)

/-- The name that a line begins with. -/
def lineName (host : Host) (block : List UInt8) : Option (List UInt8) :=
  (wholeLine host block).bind fun text => (scanName text).map Prod.fst

theorem scanNumbers_fit {host : Host} {fields : List (UInt32 → SymbolField)} {text : List UInt8}
    (numbers : ∀ make ∈ fields, ∀ value, (make value).Fits) :
    ∀ field ∈ scanNumbers host fields text, field.Fits := by
  induction fields generalizing text with
  | nil => exact List.forall_mem_nil _
  | cons make fields ih =>
      rw [List.forall_mem_cons] at numbers
      rw [scanNumbers]
      split
      · exact List.forall_mem_nil _
      · exact List.forall_mem_cons.mpr ⟨numbers.1 _, ih numbers.2⟩

/-- The stores of a line are inside if there is room for another entry and for the
name. -/
theorem lineStores_inside_iff {host : Host} {table : Symtab} {block : List UInt8} :
    (∀ store ∈ lineStores host table block, store.Inside) ↔
      ∀ name, lineName host block = some name →
        table.symtab.length < SYMTAB_SIZE ∧ name.length < NAME_SIZE := by
  rw [lineStores, List.forall_mem_map, lineName]
  cases wholeLine host block with
  | none => simp
  | some text =>
      rw [Option.elim_some, Option.bind_some, scanFields]
      cases scanName text with
      | none => simp
      | some scanned =>
          rw [List.forall_mem_cons, Option.map_some]
          constructor
          · rintro ⟨⟨entry, fits⟩, -⟩ name ⟨⟩
            exact ⟨entry, fits⟩
          · intro room
            have ⟨entry, fits⟩ := room _ rfl
            have numbers : ∀ make ∈ [SymbolField.mode, .loc, .len], ∀ value,
                (make value).Fits := by
              simp [SymbolField.Fits]
            refine ⟨⟨entry, fits⟩, ?_⟩
            intro field mem
            exact ⟨entry, scanNumbers_fit numbers field mem⟩

/-! ## The lines that are reached -/

theorem nextLine_eq_some_iff {host : Host} {table next : Symtab} {block : List UInt8} :
    nextLine host table block = some next ↔
      ∃ sym, readSymbol host block = .ok sym ∧ table.symtab.length < SYMTAB_SIZE ∧
        next = ⟨table.symtab ++ [sym],
          table.strtabSize + UInt32.ofNat (sym.name.length + 1)⟩ := by
  have accepted : nextLine host table block = some next ↔
      readLine host table block = .ok next := by
    rw [nextLine]
    cases readLine host table block with
    | error stop => simp [Except.toOption]
    | ok table => simp [Except.toOption]
  rw [accepted, readLine]
  change Except.bind _ _ = _ ↔ _
  rw [bind_eq_ok_iff]
  refine exists_congr fun sym => and_congr_right' ?_
  dsimp only
  rw [List.length_append, List.length_singleton]
  split
  · next full =>
      refine iff_of_false nofun ?_
      rintro ⟨room, -⟩
      omega
  · next room =>
      rw [Except.ok.injEq, eq_comm, and_iff_right_of_imp]
      intro _
      omega

/-- Every line before line `i` describes a symbol, and there is an entry for each. -/
def Reached (host : Host) (blocks : List (List UInt8)) (i : ℕ) : Prop :=
  i ≤ SYMTAB_SIZE ∧ ∀ block ∈ blocks.take i, (readSymbol host block).toOption.isSome

theorem length_of_run_nextLine {host : Host} {table final : Symtab} {blocks : List (List UInt8)}
    (finished : run (nextLine host) table blocks = some final) :
    final.symtab.length = table.symtab.length + blocks.length := by
  induction blocks generalizing table with
  | nil =>
      cases finished
      rfl
  | cons block rest ih =>
      obtain ⟨next, taken, finished⟩ := (run_cons_eq_some_iff _).mp finished
      obtain ⟨sym, -, -, rfl⟩ := nextLine_eq_some_iff.mp taken
      rw [ih finished, List.length_append, List.length_singleton, List.length_cons]
      omega

theorem run_nextLine_isSome_iff {host : Host} {table : Symtab} {blocks : List (List UInt8)}
    (room : table.symtab.length ≤ SYMTAB_SIZE) :
    (run (nextLine host) table blocks).isSome ↔
      table.symtab.length + blocks.length ≤ SYMTAB_SIZE ∧
        ∀ block ∈ blocks, (readSymbol host block).toOption.isSome := by
  induction blocks generalizing table with
  | nil => exact iff_of_true rfl ⟨room, List.forall_mem_nil _⟩
  | cons block rest ih =>
      rw [List.forall_mem_cons, List.length_cons]
      cases taken : nextLine host table block with
      | none =>
          rw [run, taken]
          refine iff_of_false Bool.false_ne_true ?_
          rintro ⟨room, described, -⟩
          cases read : readSymbol host block with
          | error stop =>
              rw [read] at described
              cases described
          | ok sym =>
              have lt : table.symtab.length < SYMTAB_SIZE := by omega
              cases taken.symm.trans (nextLine_eq_some_iff.mpr ⟨sym, read, lt, rfl⟩)
      | some next =>
          obtain ⟨sym, read, lt, rfl⟩ := nextLine_eq_some_iff.mp taken
          rw [run, taken, Option.bind_some, ih (List.length_append.trans_le lt), read,
            List.length_append, List.length_singleton, Nat.add_assoc, Nat.add_comm 1]
          simp [Except.toOption]

theorem reached_iff {host : Host} {blocks : List (List UInt8)} {i : ℕ}
    (inside : i < blocks.length) :
    Reached host blocks i ↔ (run (nextLine host) ⟨[], 0⟩ (blocks.take i)).isSome := by
  rw [run_nextLine_isSome_iff (Nat.zero_le _), List.length_take, Nat.min_eq_left inside.le,
    List.length_nil, Nat.zero_add, Reached]

theorem length_of_reached {host : Host} {blocks : List (List UInt8)} {i : ℕ} {table : Symtab}
    (inside : i < blocks.length)
    (came : run (nextLine host) ⟨[], 0⟩ (blocks.take i) = some table) :
    table.symtab.length = i := by
  rw [length_of_run_nextLine came, List.length_take, Nat.min_eq_left inside.le, List.length_nil,
    Nat.zero_add]

/-- A named line that comes too late, or whose name is too long, is stored all the same. -/
theorem exists_store_outside {host : Host} {fsym block name : List UInt8} {i : ℕ}
    (there : (fgetsBlocks [] fsym)[i]? = some block)
    (reached : Reached host (fgetsBlocks [] fsym) i) (named : lineName host block = some name)
    (large : ¬ (i < SYMTAB_SIZE ∧ name.length < NAME_SIZE)) :
    ∃ store ∈ symbolStores host fsym, ¬ store.Inside := by
  by_contra inside
  have inside : ∀ store ∈ symbolStores host fsym, store.Inside := by simpa using inside
  rw [symbolStores, forall_mem_history_iff, along_iff_reached] at inside
  have lt := (List.getElem?_eq_some_iff.mp there).1
  obtain ⟨table, came⟩ := Option.isSome_iff_exists.mp ((reached_iff lt).mp reached)
  have room := lineStores_inside_iff.mp (inside i block table there came) name named
  rw [length_of_reached lt came] at room
  exact large room

/-- The stores are inside exactly if every named line that the loop comes to is one of
the first 1024 and its name is shorter than 256 bytes. -/
theorem symbol_stores_inside_iff (host : Host) (fsym : List UInt8) :
    (∀ store ∈ symbolStores host fsym, store.Inside) ↔
      ∀ i block name, (fgetsBlocks [] fsym)[i]? = some block →
        Reached host (fgetsBlocks [] fsym) i → lineName host block = some name →
        i < SYMTAB_SIZE ∧ name.length < NAME_SIZE := by
  constructor
  · intro inside i block name there reached named
    by_contra large
    obtain ⟨store, mem, outside⟩ := exists_store_outside there reached named large
    exact outside (inside store mem)
  · intro inside
    rw [symbolStores, forall_mem_history_iff, along_iff_reached]
    intro i block table there came
    rw [lineStores_inside_iff]
    intro name named
    have lt := (List.getElem?_eq_some_iff.mp there).1
    rw [length_of_reached lt came]
    exact inside i block name there ((reached_iff lt).mpr (came ▸ rfl)) named

/-- The line `a 0 0 0`. -/
def plainLine : List UInt8 := [97, 32, 48, 32, 48, 32, 48, 10]

theorem fgetsBlocks_plainLines (count : ℕ) :
    fgetsBlocks [] (List.replicate count plainLine).flatten = List.replicate count plainLine := by
  induction count with
  | zero => rfl
  | succ count ih =>
      rw [List.replicate_succ, List.flatten_cons]
      exact congrArg (List.cons plainLine) ih

theorem plainLine_read : (readSymbol sampleHost plainLine).toOption.isSome := by
  decide +kernel

/-- A line whose name has 256 bytes. -/
def longLine : List UInt8 :=
  List.replicate 256 97 ++ [32, 48, 32, 48, 32, 48, 10]

/-- A line too many is stored behind the table, and a long name over its field. -/
theorem symbols_overrun :
    (∃ store ∈ symbolStores sampleHost (List.replicate 1025 plainLine).flatten, ¬ store.Inside) ∧
      ∃ store ∈ symbolStores sampleHost longLine, ¬ store.Inside := by
  constructor
  · apply @exists_store_outside sampleHost _ plainLine [97] 1024
    · rw [fgetsBlocks_plainLines]
      exact List.getElem?_replicate_of_lt (by decide)
    · refine ⟨Nat.le_refl _, ?_⟩
      intro block mem
      rw [fgetsBlocks_plainLines] at mem
      rw [List.eq_of_mem_replicate (List.mem_of_mem_take mem)]
      exact plainLine_read
    · decide +kernel
    · decide
  · apply @exists_store_outside sampleHost longLine longLine (List.replicate 256 97) 0
    · decide +kernel
    · exact ⟨Nat.zero_le _, nofun⟩
    · decide +kernel
    · rw [List.length_replicate]
      decide

end Rhino.Mkbof
