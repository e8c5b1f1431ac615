import Rhino.Bytes.StringTable
import Rhino.Transition.Fallible

/-!
# Reading a symbol file

`ReadSymbolFile` of `tools/borph/mkbof.c`.  A line of a symbol file names a
register and gives its mode, location and length in hexadecimal.  The lines are
fetched with `fgets` and taken apart with `sscanf`, whose result is stored in a
`size_t`: the `EOF` of a line without any text is then a large number and not
less than four, so such a line yields a symbol without a name.
-/

namespace Rhino.Mkbof

open Rhino.Bytes Rhino.Transition

def BLOCK_SIZE : ℕ := 512

def SYMTAB_SIZE : ℕ := 1024

/-- `struct symbol`: the name up to its terminator fits its field. -/
structure Symbol where
  name : List UInt8
  mode : UInt32
  loc : UInt32
  len : UInt32
  clean : ∀ byte ∈ name, byte ≠ 0
  fits : name.length < 256
  deriving DecidableEq

/-- An entry of `symtab` that has not been written to. -/
def Symbol.blank : Symbol where
  name := []
  mode := 0
  loc := 0
  len := 0
  clean := List.forall_mem_nil _
  fits := Nat.zero_lt_succ _

/-- What the program finds around it: the byte in front of `block`, the largest
`unsigned long`, and whether the library takes a `0x` without a digit for zero. -/
structure Host where
  before : UInt8
  ulongMax : ℕ
  bareBase : Bool

/-- A 64-bit host whose library refuses a `0x` without a digit, as the standard has it. -/
def sampleHost : Host where
  before := 0
  ulongMax := 2 ^ 64 - 1
  bareBase := false

/-! ## Lines -/

/-- The blocks that `fgets` returns one after another.  A block ends behind a
newline, or when the buffer has no room left but for the terminator. -/
def fgetsBlocks (block : List UInt8) : List UInt8 → List (List UInt8)
  | [] => if block = [] then [] else [block]
  | c :: rest =>
      if c = 10 ∨ block.length + 1 = BLOCK_SIZE - 1 then
        (block ++ [c]) :: fgetsBlocks [] rest
      else fgetsBlocks (block ++ [c]) rest

/-! ## Fields of a line -/

/-- `isspace`. -/
def isSpace (c : UInt8) : Bool :=
  c = 32 || (9 ≤ c && c ≤ 13)

/-- The conversion `%s`; the end of the text is an input failure. -/
def scanName (text : List UInt8) : Option (List UInt8 × List UInt8) :=
  match text.dropWhile isSpace with
  | [] => none
  | text => some (text.takeWhile (! isSpace ·), text.dropWhile (! isSpace ·))

def hexDigit (c : UInt8) : Option ℕ :=
  if 48 ≤ c ∧ c ≤ 57 then some (c.toNat - 48)
  else if 97 ≤ c ∧ c ≤ 102 then some (c.toNat - 97 + 10)
  else if 65 ≤ c ∧ c ≤ 70 then some (c.toNat - 65 + 10)
  else none

/-- The digits at the front of a text and what follows them. -/
def scanDigits (value : ℕ) : List UInt8 → ℕ × List UInt8
  | [] => (value, [])
  | c :: rest =>
      match hexDigit c with
      | some digit => scanDigits (value * 16 + digit) rest
      | none => (value, c :: rest)

/-- An optional sign. -/
def scanSign : List UInt8 → Bool × List UInt8
  | 45 :: rest => (true, rest)
  | 43 :: rest => (false, rest)
  | text => (false, text)

/-- An optional `0x`. -/
def scanBase : List UInt8 → List UInt8
  | 48 :: 120 :: rest => rest
  | 48 :: 88 :: rest => rest
  | text => text

/-- The value of `strtoul`: a number that is too large gives the largest one, whatever
its sign. -/
def strtoul (host : Host) (negative : Bool) (value : ℕ) : UInt32 :=
  if host.ulongMax < value then UInt32.ofNat host.ulongMax
  else if negative then -UInt32.ofNat value
  else UInt32.ofNat value

/-- The conversion `%x`, which reads a number as `strtoul` does and keeps its
low-order part. -/
def scanHex (host : Host) (text : List UInt8) : Option (UInt32 × List UInt8) :=
  let (negative, text) := scanSign (text.dropWhile isSpace)
  let digits := scanBase text
  match digits.head?.bind hexDigit with
  | none => if host.bareBase ∧ digits ≠ text then some (0, digits) else none
  | some _ =>
      let (value, rest) := scanDigits 0 digits
      some (strtoul host negative value, rest)

/-- What `sscanf` with the format `%s %x %x %x` has done with a text: met its
end at once, assigned some of the fields, or all four. -/
inductive Scanned where
  | eof
  | partly
  | all (name : List UInt8) (mode loc len : UInt32)
  deriving DecidableEq

def scanSymbol (host : Host) (text : List UInt8) : Scanned :=
  match scanName text with
  | none => .eof
  | some (name, text) =>
      match scanHex host text with
      | none => .partly
      | some (mode, text) =>
          match scanHex host text with
          | none => .partly
          | some (loc, text) =>
              match scanHex host text with
              | none => .partly
              | some (len, _) => .all name mode loc len

theorem mem_of_scanName {text name rest : List UInt8}
    (scanned : scanName text = some (name, rest)) {byte : UInt8} (mem : byte ∈ name) :
    byte ∈ text := by
  unfold scanName at scanned
  split at scanned
  · contradiction
  · cases scanned
    exact (List.dropWhile_suffix _).subset ((List.takeWhile_prefix _).subset mem)

theorem mem_of_scanSymbol {host : Host} {text name : List UInt8} {mode loc len : UInt32}
    (scanned : scanSymbol host text = .all name mode loc len) {byte : UInt8}
    (mem : byte ∈ name) : byte ∈ text := by
  unfold scanSymbol at scanned
  split at scanned
  · contradiction
  · next named =>
      split at scanned
      · contradiction
      · split at scanned
        · contradiction
        · split at scanned
          · contradiction
          · cases scanned
            exact mem_of_scanName named mem

/-! ## The file -/

/-- Why a symbol file is not accepted.  `overflow` is a name that runs over its
field, and the program has no meaning from there on. -/
inductive SymbolError where
  | line
  | overflow
  | parse
  | tooMany
  deriving DecidableEq, Repr

/-- The symbol that a block describes.  The last character of an empty block is
looked for in front of the buffer. -/
def readSymbol (host : Host) (block : List UInt8) : Except SymbolError Symbol :=
  let text := cString (block ++ [0]) 0
  if text.getLast?.getD host.before ≠ 10 then .error .line
  else
    match scanned : scanSymbol host text with
    | .eof => .ok .blank
    | .partly => .error .parse
    | .all name mode loc len =>
        if fits : name.length < 256 then
          .ok
            { name := name
              mode := mode
              loc := loc
              len := len
              clean := fun _ mem => ne_zero_of_mem_cString (mem_of_scanSymbol scanned mem)
              fits := fits }
        else .error .overflow

/-- The variables that `ReadSymbolFile` fills: the entries of `symtab` in use,
and `strtab_size`. -/
structure Symtab where
  symtab : List Symbol
  strtabSize : UInt32
  deriving DecidableEq

/-- One turn of the loop of `ReadSymbolFile`. -/
def readLine (host : Host) (table : Symtab) (block : List UInt8) : Except SymbolError Symtab := do
  let sym ← readSymbol host block
  let table : Symtab :=
    { symtab := table.symtab ++ [sym]
      strtabSize := table.strtabSize + UInt32.ofNat (sym.name.length + 1) }
  if SYMTAB_SIZE < table.symtab.length then .error .tooMany else .ok table

/-- `ReadSymbolFile`. -/
def readSymbolFile (host : Host) (fsym : List UInt8) : Except SymbolError Symtab :=
  (fgetsBlocks [] fsym).foldlM (readLine host) ⟨[], 0⟩

/-- The string table of the symbols. -/
def Symtab.strtab (table : Symtab) : List UInt8 :=
  stringTable (table.symtab.map Symbol.name)

/-- What has been counted is the size of the string table, and the symbols that
have been read fit the table. -/
structure Symtab.Counted (table : Symtab) : Prop where
  strtabSize : table.strtabSize = UInt32.ofNat table.strtab.length
  numsym : table.symtab.length ≤ SYMTAB_SIZE

theorem Symtab.Counted.readLine {host : Host} {table next : Symtab} {block : List UInt8}
    (counted : table.Counted) (read : readLine host table block = .ok next) : next.Counted := by
  rcases bind_eq_ok_iff.mp read with ⟨sym, -, taken⟩
  dsimp only at taken
  split at taken
  · contradiction
  · next room =>
      cases taken
      constructor
      · have grown : (stringTable ((table.symtab ++ [sym]).map Symbol.name)).length =
            table.strtab.length + (sym.name.length + 1) := by
          simp [stringTable_append, stringTable, Symtab.strtab]
        change table.strtabSize + UInt32.ofNat (sym.name.length + 1) = UInt32.ofNat
          (stringTable ((table.symtab ++ [sym]).map Symbol.name)).length
        rw [counted.strtabSize, grown, UInt32.ofNat_add table.strtab.length]
      · exact Nat.not_lt.mp room

theorem readSymbolFile_counted {host : Host} {fsym : List UInt8} {table : Symtab}
    (accepted : readSymbolFile host fsym = .ok table) : table.Counted := by
  apply foldlM_invariant Symtab.Counted _ _ accepted
  · intro table block next counted read
    exact counted.readLine read
  · exact ⟨rfl, Nat.zero_le _⟩

end Rhino.Mkbof
