import Rhino.Ioreg.Counts
import Rhino.Ioreg.Numbers

/-!
# Registers of four bytes as text

A register of four bytes holds a word.  With `ioreg_mode` 0 a decimal number
that is written to it is stored as its four bytes, and a read presents the word
as eight hexadecimal digits and a newline.

Reading and writing choose between text and raw bytes by different values of
`ioreg_mode`: a read presents raw bytes unless the mode is 0, a write takes raw
bytes only if it is 1.  The two agree in these two modes and in no other.
-/

namespace Rhino.Ioreg

open Rhino.Bof Rhino.Bytes Rhino.Kernel Rhino.Loader

/-! ## The loops of `to_ascii` -/

/-- The character that `to_ascii` writes for a digit. -/
def hexChar (m : ℕ) : UInt8 :=
  UInt8.ofNat (if 10 ≤ m then 65 - 10 + m else 48 + m)

/-- The first loop: digits from the right until nothing is left of the value.
The result is the place of the last digit written and the buffer. -/
def digitLoop : ℕ → ℕ → (ℕ → UInt8) → ℕ × (ℕ → UInt8)
  | _, 0, cbuf => (0, cbuf)
  | val, j + 1, cbuf =>
      let cbuf := storeAt cbuf j [hexChar (val % 16)]
      if val / 16 = 0 then (j, cbuf) else digitLoop (val / 16) j cbuf

/-- The second loop: zeros in front of the digits. -/
def padLoop : ℕ → (ℕ → UInt8) → ℕ → UInt8
  | 0, cbuf => cbuf
  | j + 1, cbuf => padLoop j (storeAt cbuf j [48])

/-- `to_ascii` on a word, in the buffer that holds the word. -/
def toAsciiInPlace (buf : ℕ → UInt8) : ℕ → UInt8 :=
  let digits := digitLoop (u32At (loadAt buf 0 4) 0).toNat 8 buf
  storeAt (padLoop digits.1 digits.2) 8 [10]

theorem storeAt_of_ne {memory : ℕ → UInt8} {offset place : ℕ} (ne : place ≠ offset) (c : UInt8) :
    storeAt memory offset [c] place = memory place := by
  rw [storeAt]
  split
  · rw [List.getElem?_eq_none (by simp only [List.length_singleton]; omega)]
    rfl
  · rfl

theorem storeAt_self (memory : ℕ → UInt8) (offset : ℕ) (c : UInt8) :
    storeAt memory offset [c] offset = c := by
  rw [storeAt, if_pos (le_refl offset), Nat.sub_self]
  rfl

theorem loadAt_succ (memory : ℕ → UInt8) (count : ℕ) :
    loadAt memory 0 (count + 1) = loadAt memory 0 count ++ [memory count] := by
  rw [loadAt_add, Nat.zero_add]
  rfl

theorem padLoop_of_le {j place : ℕ} (le : j ≤ place) (cbuf : ℕ → UInt8) :
    padLoop j cbuf place = cbuf place := by
  induction j generalizing cbuf with
  | zero => rfl
  | succ j ih => rw [padLoop, ih (by omega), storeAt_of_ne (by omega)]

theorem loadAt_padLoop (j : ℕ) (cbuf : ℕ → UInt8) :
    loadAt (padLoop j cbuf) 0 j = hexDigits 0 j := by
  induction j generalizing cbuf with
  | zero => rfl
  | succ j ih =>
      rw [loadAt_succ, padLoop, ih, padLoop_of_le (le_refl j), storeAt_self]
      rfl

theorem digitLoop_fst_le (val j : ℕ) (cbuf : ℕ → UInt8) : (digitLoop val j cbuf).1 ≤ j := by
  induction j generalizing val cbuf with
  | zero => exact le_refl 0
  | succ j ih =>
      rw [digitLoop]
      split
      · exact Nat.le_succ j
      · exact (ih _ _).trans (Nat.le_succ j)

theorem digitLoop_of_le {j place : ℕ} (le : j ≤ place) (val : ℕ) (cbuf : ℕ → UInt8) :
    (digitLoop val j cbuf).2 place = cbuf place := by
  induction j generalizing val cbuf with
  | zero => rfl
  | succ j ih =>
      rw [digitLoop]
      split
      · exact storeAt_of_ne (by omega) _
      · rw [ih (by omega), storeAt_of_ne (by omega)]

/-- Both loops together write all the digits. -/
theorem loadAt_loops (val j : ℕ) (cbuf : ℕ → UInt8) :
    loadAt (padLoop (digitLoop val j cbuf).1 (digitLoop val j cbuf).2) 0 j = hexDigits val j := by
  induction j generalizing val cbuf with
  | zero => rfl
  | succ j ih =>
      rw [digitLoop, loadAt_succ, hexDigits]
      split
      · rename_i last
        dsimp only
        rw [loadAt_padLoop, padLoop_of_le (le_refl j), storeAt_self, last]
        rfl
      · rw [ih, padLoop_of_le (digitLoop_fst_le _ _ _), digitLoop_of_le (le_refl j), storeAt_self]
        rfl

/-- What stands in the buffer is what `toAscii` says. -/
theorem loadAt_toAsciiInPlace (buf : ℕ → UInt8) :
    toAscii (loadAt buf 0 4) 4 = some (loadAt (toAsciiInPlace buf) 0 9) := by
  have front (memory : ℕ → UInt8) : loadAt (storeAt memory 8 [10]) 0 8 = loadAt memory 0 8 := by
    apply List.map_congr_left
    intro k mem
    exact storeAt_of_ne (by have := List.mem_range.mp mem; omega) 10
  rw [toAscii, if_neg (not_not.mpr rfl), toAsciiInPlace, loadAt_succ _ 8, front, loadAt_loops,
    storeAt_self]

/-! ## Eight digits -/

/-- The hexadecimal digits in upper case. -/
def upperDigits : List UInt8 :=
  [48, 49, 50, 51, 52, 53, 54, 55, 56, 57, 65, 66, 67, 68, 69, 70]

/-- A number as eight digits with leading zeros and a newline. -/
def hexText (value : ℕ) : List UInt8 :=
  ((List.range 8).map fun i => upperDigits.getD (value / 16 ^ (7 - i) % 16) 0) ++ [10]

theorem hexChar_of_lt {m : ℕ} (lt : m < 16) : hexChar m = upperDigits.getD m 0 := by
  have all : ∀ m < 16, hexChar m = upperDigits.getD m 0 := by decide
  exact all m lt

theorem hexDigits_eq_map (value digits : ℕ) :
    hexDigits value digits =
      (List.range digits).map fun i =>
        upperDigits.getD (value / 16 ^ (digits - 1 - i) % 16) 0 := by
  induction digits generalizing value with
  | zero => rfl
  | succ digits ih =>
      rw [hexDigits, ih, List.range_succ, List.map_append]
      congr 1
      · apply List.map_congr_left
        intro i mem
        have lt := List.mem_range.mp mem
        have power : digits + 1 - 1 - i = digits - 1 - i + 1 := by omega
        rw [power, pow_succ', Nat.div_div_eq_div_mul]
      · have last : digits + 1 - 1 - digits = 0 := by omega
        rw [List.map_singleton, last, pow_zero, Nat.div_one,
          ← hexChar_of_lt (Nat.mod_lt value (by decide))]
        rfl

theorem hexDigits_eq_hexText (value : ℕ) : hexDigits value 8 ++ [10] = hexText value := by
  rw [hexDigits_eq_map]
  rfl

/-! ## A word in a register -/

/-- The two forms in which a register can be presented. -/
inductive Encoding where
  | raw
  | text
  deriving DecidableEq, Repr

/-- A word as a user sees it. -/
def Encoding.present : Encoding → UInt32 → List UInt8
  | raw, word => u32Bytes word
  | text, word => hexText word.toNat

/-- The input of a user is taken for the word: its first four bytes are those of
the word, or its text is the number. -/
def Encoding.Takes : Encoding → IoEnv → ℕ → UInt32 → Prop
  | raw, env, fcount, word => 4 ≤ fcount ∧ u32Bytes word = (List.range 4).map env.user
  | text, env, fcount, word =>
      0 ≤ env.number fcount ∧ word = UInt32.ofInt (env.number fcount)

/-- The word in a register. -/
def wordAt (map : FpgaMap) (reg : Ioreg) (cells : UInt32 → UInt8) : UInt32 :=
  u32At (fetch cells (getMappedLocation map reg.loc) 4) 0

theorem add_ofInt_zero (addr : UInt32) : addr + UInt32.ofInt 0 = addr :=
  UInt32.add_zero addr

theorem u32Bytes_wordAt (map : FpgaMap) (reg : Ioreg) (cells : UInt32 → UInt8) :
    u32Bytes (wordAt map reg cells) = fetch cells (getMappedLocation map reg.loc) 4 := by
  rw [wordAt, u32Bytes_u32At (by simp), slice_whole (by simp)]

theorem wordAt_deposit (map : FpgaMap) (reg : Ioreg) (cells : UInt32 → UInt8)
    {bytes : List UInt8} (word : bytes.length = 4) :
    wordAt map reg (deposit cells (getMappedLocation map reg.loc) bytes) = u32At bytes 0 := by
  have found := @fetch_deposit cells (getMappedLocation map reg.loc) bytes (by rw [word]; decide)
  rw [word] at found
  rw [wordAt, found]

section Words

variable {β : Type} {bus : Bus β} {cells : β → UInt32 → UInt8} (memory : bus.IsMemory cells)
  (map : FpgaMap) {reg : Ioreg} (four : reg.len = 4)

include memory four

/-- A read in mode 0 presents the word as text. -/
theorem read_text {own : Bool} {env : IoEnv} (served : Served reg own env) {fcount : ℕ}
    (room : 9 ≤ fcount) (s : IoState β) :
    let r := ioregRegRead bus map reg 0 env own fcount 0 s
    r.copied = hexText (wordAt map reg (cells s.bus)).toNat ∧ r.retval = 9 := by
  intro r
  have length : regblen 0 reg = 8 := by
    rw [regblen, if_pos rfl, four]
    decide
  have capped : cappedCount 0 reg fcount 0 = 8 := by
    have inner : min ((8 : ℤ) - 0).toNat IOBUF_SIZE = 8 := by decide
    rw [cappedCount_eq_min, length, inner]
    omega
  have words := (recvWords_of_memory memory 2 (getMappedLocation map reg.loc + UInt32.ofInt 0)
    (s.log [.getTask, .getHwrops, .down])).1
  have read := ioregRegRead_of_served bus map served 0 fcount 0 s
  rw [length, if_neg (by omega), capped, readIobuf_text, if_pos rfl] at read
  simp only [r, read]
  rw [words, add_ofInt_zero, hexDigits_eq_hexText]
  exact ⟨rfl, trivial⟩

/-- A read in another mode presents its bytes. -/
theorem read_raw {own : Bool} {env : IoEnv} (served : Served reg own env) {mode : ℤ}
    (raw : mode ≠ 0) {fcount : ℕ} (room : 4 ≤ fcount) (s : IoState β) :
    let r := ioregRegRead bus map reg mode env own fcount 0 s
    r.copied = u32Bytes (wordAt map reg (cells s.bus)) ∧ r.retval = 4 := by
  intro r
  have cut : rawCut reg fcount 0 = 4 := by
    have inner : min ((4 : UInt32).toNat - (0 : ℤ).toNat) IOBUF_SIZE = 4 := by decide
    rw [rawCut, four, inner]
    omega
  rcases ioregRegRead_of_memory memory map (by rw [four]; decide) raw served fcount (le_refl 0) s
    with ⟨retval, -, handed, -⟩
  rw [cut] at retval handed
  rw [add_ofInt_zero] at handed
  rw [u32Bytes_wordAt]
  exact ⟨handed, retval⟩

/-- A write in another mode than 1 stores the number that its text stands for. -/
theorem write_text {own : Bool} {env : IoEnv} (served : Served reg own env) {mode : ℤ}
    (text : mode ≠ 1) {fcount : ℕ} (accepted : TextAccepted env fcount 0) (s : IoState β) :
    let w := ioregRegWrite bus map reg mode env own fcount 0 s
    w.retval = 4 ∧ wordAt map reg (cells w.io.bus) = UInt32.ofInt (env.number fcount) := by
  intro w
  have below : (0 : ℤ) < reg.len.toNat := by
    rw [four]
    decide
  have write := ioregRegWrite_text bus map served text below fcount s
  rw [if_pos accepted, writeIobuf_eq] at write
  have stored : cells w.io.bus = deposit (cells s.bus)
      (getMappedLocation map reg.loc + UInt32.ofInt 0)
      ((u32Bytes (UInt32.ofInt (env.number fcount))).take (2 * 2)) := by
    simp only [w, write]
    exact sendWords_of_memory memory 2 _ (s.log _) (by simp) (by decide)
  have value := u32At_u32Bytes_append (UInt32.ofInt (env.number fcount)) []
  rw [List.append_nil] at value
  constructor
  · simp only [w, write]
    rfl
  · rw [stored, add_ofInt_zero, List.take_of_length_le (by simp),
      wordAt_deposit _ _ _ (u32Bytes_length _), value]

/-- A write that stores four bytes stores the word that its input is taken for, as
raw bytes in mode 1 and as text in any other. -/
theorem write_word {own : Bool} {env : IoEnv} (mode : ℤ) (fcount : ℕ) (s : IoState β)
    (stored : (ioregRegWrite bus map reg mode env own fcount 0 s).retval = 4) :
    (if mode = 1 then Encoding.raw else .text).Takes env fcount
      (wordAt map reg (cells (ioregRegWrite bus map reg mode env own fcount 0 s).io.bus)) := by
  have below : (0 : ℤ) < reg.len.toNat := by
    rw [four]
    decide
  have written : 0 < (ioregRegWrite bus map reg mode env own fcount 0 s).retval := by
    rw [stored]
    decide
  have served := served_of_written bus map below written
  by_cases raw : mode = 1
  · rcases raw with rfl
    have copied := copied_of_written bus map served below written
    rcases ioregRegWrite_of_memory memory map (by rw [four]; decide) served copied fcount
      (le_refl 0) below s with ⟨retval, -, bytes, -⟩
    have words : 2 * (rawCut reg fcount 0 / 2) = 4 := by omega
    have enough : 4 ≤ fcount := by
      have := rawCut_le_count reg fcount 0
      omega
    rw [words, add_ofInt_zero] at bytes
    rw [if_pos rfl, bytes, wordAt_deposit _ _ _ (by simp)]
    refine ⟨enough, ?_⟩
    rw [u32Bytes_u32At (by simp), slice_whole (by simp)]
  · rw [if_neg raw]
    by_cases accepted : TextAccepted env fcount 0
    · exact ⟨accepted.2.2.2, (write_text memory map four served raw accepted s).2⟩
    · rw [ioregRegWrite_text bus map served raw below, if_neg accepted] at stored
      exact absurd stored (by decide : ¬ -einval = 4)

/-! ## Text there and back -/

/-- A decimal number that is written to a register of four bytes in mode 0 is read
as eight hexadecimal digits.  The calls have to get through; in particular, a
register that is a pipe has to be accessed at the position of the file. -/
theorem text_round_trip (input : NumberText) (decimal : input.base = .decimal)
    (fits : input.value < 2 ^ 31) {own : Bool} {env : IoEnv} (served : Served reg own env)
    (copied : env.fault = false) (typed : Stands input.chars env.user 0) {rown : Bool}
    {reading : IoEnv} (ready : Served reg rown reading) {count fcount : ℕ} (room : 9 ≤ count)
    (accepted : rwVerifyArea count 0 = some fcount) (s : IoState β) :
    let w := ioregRegWrite bus map reg 0 env own input.chars.length 0 s
    let r := ioregRegRead bus map reg 0 reading rown fcount 0 w.io
    w.retval = 4 ∧ r.copied = hexText input.value ∧ r.retval = 9 := by
  intro w r
  have buffer : Stands input.chars
      (fun i => if i < input.chars.length then env.user i else env.stack i) 0 := by
    intro k c found
    have lt := (List.getElem?_eq_some_iff.mp found).1
    exact (if_pos (by rwa [Nat.zero_add])).trans (typed k c found)
  have number : env.number input.chars.length = input.value :=
    (convertInput_decimal decimal buffer).trans
      (toS32_of_lt (Int.natCast_nonneg _) (by omega))
  have text : TextAccepted env input.chars.length 0 :=
    ⟨rfl, input.short, copied, (Int.natCast_nonneg input.value).trans_eq number.symm⟩
  rcases write_text memory map four served (by decide : (0 : ℤ) ≠ 1) text s with ⟨retval, word⟩
  have enough : 9 ≤ fcount :=
    (le_min room (by decide)).trans_eq (eq_min_of_rwVerifyArea accepted).symm
  have read := read_text memory map four ready enough w.io
  have value : (UInt32.ofInt (env.number input.chars.length)).toNat = input.value := by
    rw [number, toNat_ofInt]
    omega
  rw [word, value] at read
  exact ⟨retval, read⟩

end Words

/-- The text `1`. -/
def digitOne : NumberText where
  base := .decimal
  digits := [49]
  newline := false
  nonempty := by decide
  valid := List.forall_mem_singleton.mpr rfl
  short := by decide

theorem writesOne_stands : Stands digitOne.chars writesOne.user 0 := by
  intro k c found
  have mem : c ∈ digitOne.chars := List.mem_of_getElem? found
  exact (List.mem_singleton.mp mem).symm

/-- The number 1 in `reg_word`. -/
theorem text_round_trip_one :
    let w := ioregRegWrite memoryBus sampleMap regWord 0 writesOne false 1 0 ⟨fun _ => 0, []⟩
    let r := ioregRegRead memoryBus sampleMap regWord 0 writesOne false 9 0 w.io
    w.retval = 4 ∧ r.copied = hexText 1 ∧ r.retval = 9 :=
  text_round_trip memoryBus_isMemory sampleMap rfl digitOne rfl (by decide)
    ⟨Or.inl rfl, rfl, rfl, rfl, rfl⟩ rfl writesOne_stands ⟨Or.inl rfl, rfl, rfl, rfl, rfl⟩
    (by decide) (by decide : rwVerifyArea 9 0 = some 9) ⟨fun _ => 0, []⟩

/-- The register `reg_word` as a pipe. -/
def pipeWord : Ioreg :=
  { regWord with mode := 3 ||| IORM_PIPE }

/-- At a position of the caller's, a pipe takes no text and delivers none. -/
theorem pipe_refuses_text :
    let w := ioregRegWrite memoryBus sampleMap pipeWord 0 writesOne false 1 0 ⟨fun _ => 0, []⟩
    let r := ioregRegRead memoryBus sampleMap pipeWord 0 writesOne false 9 0 w.io
    w.retval = -espipe ∧ r.retval = -espipe ∧ r.copied ≠ hexText 1 := by
  decide

/-! ## The two encodings -/

/-- `ioreg_mode` after these characters have been written to it.  The loader sets
it to 1. -/
def modeAfter (chars : List UInt8) : ℤ :=
  chars.foldl (fun mode c => ioregmodeWrite c mode) 1

/-- The characters that `ioregmode_write` accepts. -/
def isDigit (c : UInt8) : Bool :=
  48 ≤ c && c ≤ 57

/-- The mode is the last digit that has been written. -/
theorem modeAfter_eq (chars : List UInt8) :
    modeAfter chars = ((chars.filter isDigit).getLast?.map fun d => (d.toNat : ℤ) - 48).getD 1 := by
  induction chars using List.reverseRecOn with
  | nil => rfl
  | append_singleton chars c ih =>
      have step : modeAfter (chars ++ [c]) = ioregmodeWrite c (modeAfter chars) := by
        rw [modeAfter, modeAfter, List.foldl_append]
        rfl
      rw [step, ioregmodeWrite, List.filter_append]
      by_cases digit : isDigit c = true
      · have inside : ¬ (c < 48 ∨ 57 < c) := by
          simpa [isDigit, not_or] using digit
        rw [if_neg inside, List.filter_cons_of_pos digit, List.filter_nil, List.getLast?_concat]
        rfl
      · have outside : c < 48 ∨ 57 < c := by
          simpa [isDigit, imp_iff_not_or] using digit
        rw [if_pos outside, List.filter_cons_of_neg digit, List.filter_nil, List.append_nil, ih]

theorem modeAfter_agreed_iff (chars : List UInt8) :
    modeAfter chars = 0 ∨ modeAfter chars = 1 ↔
      ∀ d, (chars.filter isDigit).getLast? = some d → d = 48 ∨ d = 49 := by
  rw [modeAfter_eq]
  cases (chars.filter isDigit).getLast? with
  | none => simp
  | some d =>
      have zero : d = 48 ↔ d.toNat = 48 := UInt8.toNat_inj.symm
      have one : d = 49 ↔ d.toNat = 49 := UInt8.toNat_inj.symm
      simp only [Option.map_some, Option.getD_some, Option.some.injEq, forall_eq', zero, one]
      omega

section Agreement

variable {β : Type} {bus : Bus β} {cells : β → UInt32 → UInt8} (memory : bus.IsMemory cells)
  (map : FpgaMap) (s : IoState β)

/-- Whenever a write at the start of a register of four bytes stores a word, a read
with enough room presents this word in the form in which the write has taken its
input. -/
def SameEncoding (bus : Bus β) (cells : β → UInt32 → UInt8) (mode : ℤ) : Prop :=
  ∀ (reg : Ioreg) (own : Bool) (env : IoEnv) (count fcount : ℕ), reg.len = 4 →
    rwVerifyArea count 0 = some fcount →
    let w := ioregRegWrite bus map reg mode env own fcount 0 s
    let word := wordAt map reg (cells w.io.bus)
    w.retval = 4 → ∀ (own : Bool) (reading : IoEnv) (count size : ℕ), Served reg own reading →
      9 ≤ count → rwVerifyArea count 0 = some size →
      ∃ encoding : Encoding, encoding.Takes env fcount word ∧
        (ioregRegRead bus map reg mode reading own size 0 w.io).copied = encoding.present word

include memory

/-- In any other mode the digit 1 is taken as text and presented as raw bytes. -/
theorem not_sameEncoding {mode : ℤ} (text : mode ≠ 0) (raw : mode ≠ 1) :
    ¬ SameEncoding map s bus cells mode := by
  intro same
  have served : Served regWord false writesOne := ⟨Or.inl rfl, rfl, rfl, rfl, rfl⟩
  have stored := (write_text memory map rfl served raw (by decide : TextAccepted writesOne 1 0) s).1
  rcases same regWord false writesOne 1 1 rfl (by decide) stored false writesOne 9 9 served
    (le_refl 9) (by decide) with ⟨encoding, taken, presented⟩
  have read := (read_raw memory map rfl served text (by decide : 4 ≤ 9)
    (ioregRegWrite bus map regWord mode writesOne false 1 0 s).io).1
  cases encoding with
  | raw => exact absurd taken.1 (by decide)
  | text =>
      have lengths := congrArg List.length (read.symm.trans presented)
      rw [u32Bytes_length] at lengths
      simp [Encoding.present, hexText] at lengths

theorem sameEncoding_of_mode {mode : ℤ} (agreed : mode = 0 ∨ mode = 1) :
    SameEncoding map s bus cells mode := by
  intro reg own env count fcount four accepted w word stored rown reading rcount size served room
    readable
  have taken := write_word memory map four mode fcount s stored
  have enough : 9 ≤ size :=
    (le_min room (by decide)).trans_eq (eq_min_of_rwVerifyArea readable).symm
  rcases agreed with rfl | rfl
  · exact ⟨.text, taken, (read_text memory map four served enough w.io).1⟩
  · exact ⟨.raw, taken, (read_raw memory map four served (by decide) (by omega) w.io).1⟩

/-- Reading and writing use the same encoding exactly as long as the last digit that
has been written to `ioreg_mode`, if any, is 0 or 1. -/
theorem same_encoding_iff (chars : List UInt8) :
    SameEncoding map s bus cells (modeAfter chars) ↔
      ∀ d, (chars.filter isDigit).getLast? = some d → d = 48 ∨ d = 49 := by
  rw [← modeAfter_agreed_iff]
  constructor
  · intro same
    by_contra neither
    rw [not_or] at neither
    exact not_sameEncoding memory map s neither.1 neither.2 same
  · exact sameEncoding_of_mode memory map s

end Agreement

/-- The encodings agree before anything has been written to `ioreg_mode`. -/
theorem same_encoding_initially :
    SameEncoding sampleMap ⟨fun _ => 0, []⟩ memoryBus id (modeAfter []) :=
  (same_encoding_iff memoryBus_isMemory sampleMap ⟨fun _ => 0, []⟩ []).mpr (by simp)

/-- With `ioreg_mode` 2 the text `1` is stored as a number and read as raw bytes. -/
theorem mode_two_disagrees :
    let w := ioregRegWrite memoryBus sampleMap regWord (modeAfter [50]) writesOne false 1 0
      ⟨fun _ => 0, []⟩
    let r := ioregRegRead memoryBus sampleMap regWord (modeAfter [50]) writesOne false 9 0 w.io
    w.retval = 4 ∧ r.copied = [1, 0, 0, 0] ∧
      ¬ SameEncoding sampleMap ⟨fun _ => 0, []⟩ memoryBus id (modeAfter [50]) := by
  intro w r
  refine ⟨by decide, by decide, ?_⟩
  exact not_sameEncoding memoryBus_isMemory sampleMap _ (by decide) (by decide)

end Rhino.Ioreg
