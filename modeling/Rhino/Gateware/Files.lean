import Rhino.Gateware.Registers
import Rhino.Ioreg.Raw
import Rhino.Ioreg.Window

/-!
# The register files of the example design

The register files that `gpmc_test_top.sym` declares, with the design behind them.  A call on
one of the files reaches only the registers of its region, so that a register keeps what has
been written to it through any calls on the others.
-/

namespace Rhino.Gateware

open Rhino.Bof Rhino.Bytes Rhino.Ioreg Rhino.Loader

/-! ## The symbol file -/

/-- The locations of `gpmc_test_top.sym`. -/
def Region.loc : Region → UInt32
  | .version => 0x08000000
  | .led => 0x08800000
  | .fmc => 0x09000000
  | .file => 0x09800000
  | .word => 0x0A000000

/-- The lengths. -/
def Region.len : Region → UInt32
  | .version => 0x02
  | .led => 0x02
  | .fmc => 0x02
  | .file => 0x7f
  | .word => 0x04

/-- The modes. -/
def Region.mode : Region → UInt32
  | .version => 1
  | .led => 3
  | .fmc => 3
  | .file => 3
  | .word => 3

/-- The register of a process that belongs to a region. -/
structure Region.Is (r : Region) (reg : Ioreg) : Prop where
  loc : reg.loc = r.loc
  len : reg.len = r.len
  mode : reg.mode = r.mode

namespace Region

theorem Is.small {r : Region} {reg : Ioreg} (is : r.Is reg) : reg.len.toNat < 2 ^ 31 := by
  rw [is.len]
  cases r <;> decide

theorem Is.mapped {r : Region} {reg : Ioreg} (is : r.Is reg) (map : FpgaMap) (i : ℕ) :
    getMappedLocation map reg.loc + UInt32.ofInt (2 * i : ℕ) = wordLoc map r i := by
  have window : InWindow FPGA_CS0_BASE r.loc := by
    cases r <;> decide
  have bank : r.loc - FPGA_CS0_BASE = UInt32.ofNat (2 * (BANK_WORDS * r.bank)) := by
    cases r <;> rfl
  rw [is.loc, getMappedLocation, if_pos window, bank, ofInt_natCast_eq, wordLoc, UInt32.add_assoc,
    ← UInt32.ofNat_add, ← Nat.mul_add]

theorem valid_of_le {r : Region} {j : ℕ} (inside : 2 * (j + 1) ≤ r.len.toNat) : r.Valid j where
  inside := by
    have most : r.len.toNat ≤ 127 := by cases r <;> decide
    change j < 4194304
    omega
  index := by
    rintro rfl
    change _ ≤ 4 at inside
    omega

end Region

/-! ## Calls -/

/-- The design is there, and these are the words of its registers. -/
def Device.Holds (device : Device) (cells : Region → ℕ → UInt16) : Prop :=
  ∃ s, device.design = some s ∧ s.cell = cells

instance (reg : Ioreg) (own : Bool) (env : IoEnv) : Decidable (Served reg own env) :=
  decidable_of_iff ((reg.mode &&& IORM_PIPE = 0 ∨ own = true) ∧ env.task = true ∧
      env.info = true ∧ env.hwrops = .complete ∧ env.iobuf = true)
    ⟨fun ⟨position, task, info, hwrops, iobuf⟩ => ⟨position, task, info, hwrops, iobuf⟩,
      fun served => ⟨served.position, served.task, served.info, served.hwrops, served.iobuf⟩⟩

/-- A call on a register file at an even position. -/
structure FileCall where
  region : Region
  write : Bool
  ioregMode : ℤ
  count : ℕ
  word : ℕ
  env : IoEnv

/-- In text mode the position counts characters; such a read is made at the beginning. -/
def FileCall.Proper (c : FileCall) : Prop :=
  c.write = false → c.ioregMode = 0 → c.word = 0

/-- The words that a write stores, and where: those of the range that there is in raw mode, and
in text mode the two halves of the number. -/
def FileCall.stored (c : FileCall) (reg : Ioreg) : ℕ × List UInt16 :=
  if c.ioregMode = 1 then
    if c.env.fault then (c.word, [])
    else (c.word, wordsOf
      ((List.range (2 * (rawCut reg c.count (2 * c.word : ℕ) / 2))).map c.env.user))
  else if TextAccepted c.env c.count (2 * c.word : ℕ) then
    (0, wordsOf (u32Bytes (UInt32.ofInt (c.env.number c.count))))
  else (0, [])

/-- What a call on a register file is for: a write that gets through changes the words of its
region, and nothing else changes any. -/
def FileCall.effect (c : FileCall) (reg : Ioreg) (cells : Region → ℕ → UInt16) :
    Region → ℕ → UInt16 :=
  if c.write = true ∧ 2 * c.word < reg.len.toNat ∧ Served reg false c.env then
    storeCells cells c.region (c.stored reg).1 (c.stored reg).2
  else cells

theorem FileCall.effect_of_ne (c : FileCall) (reg : Ioreg) {cells : Region → ℕ → UInt16}
    {r : Region} (ne : r ≠ c.region) : c.effect reg cells r = cells r := by
  rw [FileCall.effect]
  split
  · exact storeCells_of_ne ne
  · rfl

theorem rawCut_fits (reg : Ioreg) (count : ℕ) {i : ℕ} (below : 2 * i ≤ reg.len.toNat) :
    2 * i + rawCut reg count (2 * i : ℕ) ≤ reg.len.toNat := by
  have rest := rawCut_le_rest reg count (2 * i : ℕ)
  rw [Int.toNat_natCast] at rest
  omega

/-- A read in text mode makes the transfer, also where it then has no number to show. -/
theorem readIobuf_text_bus {β : Type} (bus : Bus β) (map : FpgaMap) (reg : Ioreg) (fcount : ℕ)
    (fpos : ℤ) (io : IoState β) :
    (readIobuf bus map reg 0 fcount fpos io).io.bus =
      (recvWords bus (fcount / 2 / 2) (getMappedLocation map reg.loc + UInt32.ofInt fpos)
        (io.log [.getTask, .getHwrops, .down])).2.bus := by
  rw [readIobuf_text]
  by_cases number : fcount / 2 / 2 = 2
  · rw [if_pos number]
    rfl
  · rw [if_neg number]
    rfl

theorem holds_of_idle {io : IoState Device} {cells : Region → ℕ → UInt16}
    (held : io.bus.Holds cells) {call : Call Device} {fpos : ℤ} (idle : call.Idle io fpos) :
    call.io.bus.Holds cells := by
  rwa [idle.bus_eq]

section Calls

variable (map : FpgaMap) (host : Host) (regs : Region → Ioreg)

def FileCall.call (c : FileCall) (io : IoState Device) : Call Device :=
  if c.write then
    ioregRegWrite (gatewareBus map host) map (regs c.region) c.ioregMode c.env false c.count
      (2 * c.word : ℕ) io
  else
    ioregRegRead (gatewareBus map host) map (regs c.region) c.ioregMode c.env false c.count
      (2 * c.word : ℕ) io

/-- The state after some calls. -/
def afterCalls (calls : List FileCall) (io : IoState Device) : IoState Device :=
  calls.foldl (fun io c => (c.call map host regs io).io) io

/-- What the calls are for. -/
def afterEffects (calls : List FileCall) (cells : Region → ℕ → UInt16) : Region → ℕ → UInt16 :=
  calls.foldl (fun cells c => c.effect (regs c.region) cells) cells

/-- Calls on other files. -/
theorem afterEffects_of_ne {calls : List FileCall} {r : Region}
    (others : ∀ c ∈ calls, r ≠ c.region) (cells : Region → ℕ → UInt16) :
    afterEffects regs calls cells r = cells r := by
  induction calls generalizing cells with
  | nil => rfl
  | cons c rest ih =>
      exact (ih (fun later mem => others later (List.mem_cons_of_mem _ mem)) _).trans
        (c.effect_of_ne _ (others c List.mem_cons_self))

variable {map host regs} (declared : ∀ r : Region, r.Is (regs r))
include declared

section Step

variable {r : Region} {io : IoState Device} {cells : Region → ℕ → UInt16} {i : ℕ}

/-- The words of a region that a transfer from a position on can reach. -/
theorem valid_of_count {count size : ℕ} (short : 2 * i + size ≤ (regs r).len.toNat)
    (words : 2 * count ≤ size) {j : ℕ} (high : j < i + count) : r.Valid j := by
  rw [(declared r).len] at short
  exact Region.valid_of_le (by omega)

/-- The transfer of a raw write. -/
theorem writeIobuf_holds (held : io.bus.Holds cells) (data : List UInt8)
    (valid : ∀ j, i ≤ j → j < i + data.length / 2 → r.Valid j) :
    (writeIobuf (gatewareBus map host) map (regs r) data.length data (2 * i : ℕ)
        io).io.bus.Holds
      (storeCells cells r i (wordsOf (data.take (2 * (data.length / 2))))) := by
  obtain ⟨s, there, rfl⟩ := held
  have whole : (data.take (2 * (data.length / 2))).length = 2 * (data.length / 2) := by
    rw [List.length_take]
    omega
  have split : bytesOf (wordsOf (data.take (2 * (data.length / 2)))) ++
      data.drop (2 * (data.length / 2)) = data := by
    rw [bytesOf_wordsOf whole, List.take_append_drop]
  have length := wordsOf_length whole
  have sent := @sendWords_region map host s r i io there
    (wordsOf (data.take (2 * (data.length / 2)))) (by rwa [length])
    (data.drop (2 * (data.length / 2)))
  rw [split, length] at sent
  rw [writeIobuf_eq, (declared r).mapped]
  exact sent

/-- A raw write that gets through stores the words of the user's data. -/
theorem ioregRegWrite_holds (held : io.bus.Holds cells) {env : IoEnv}
    (served : Served (regs r) false env) (copied : env.fault = false) (count : ℕ)
    (below : 2 * i < (regs r).len.toNat) :
    let call := ioregRegWrite (gatewareBus map host) map (regs r) 1 env false count (2 * i : ℕ) io
    let n := 2 * (rawCut (regs r) count (2 * i : ℕ) / 2)
    call.retval = n ∧
      call.io.bus.Holds (storeCells cells r i (wordsOf ((List.range n).map env.user))) := by
  intro call n
  have small := (declared r).small
  have data_length : ((List.range (rawCut (regs r) count (2 * i : ℕ))).map env.user).length =
      rawCut (regs r) count (2 * i : ℕ) := by
    rw [List.length_map, List.length_range]
  have whole : n ≤ rawCut (regs r) count (2 * i : ℕ) := Nat.mul_div_le _ 2
  have front : ((List.range (rawCut (regs r) count (2 * i : ℕ))).map env.user).take n =
      (List.range n).map env.user := by
    rw [← List.map_take, List.take_range, Nat.min_eq_left whole]
  have write := ioregRegWrite_raw (gatewareBus map host) map served
    (by omega : ((2 * i : ℕ) : ℤ) < (regs r).len.toNat) count io
  rw [if_neg (Bool.eq_false_iff.mp copied), rawCount_eq small count (by omega) (by omega)] at write
  have stored := @writeIobuf_holds map host regs declared r
    (io.log [.getTask, .getHwrops, .down]) cells i held
    ((List.range (rawCut (regs r) count (2 * i : ℕ))).map env.user)
    (fun j _ high => valid_of_count declared (rawCut_fits (regs r) count below.le) (by omega) high)
  rw [data_length, front] at stored
  constructor
  · simp only [call, write, writeIobuf_eq]
    rfl
  · simp only [call, write]
    exact stored

/-- A raw read that gets through hands out the words, or the inputs of `fmc`. -/
theorem ioregRegRead_holds (held : io.bus.Holds cells) {env : IoEnv}
    (served : Served (regs r) false env) {mode : ℤ} (raw : mode ≠ 0) (count : ℕ) :
    let call := ioregRegRead (gatewareBus map host) map (regs r) mode env false count
      (2 * i : ℕ) io
    let n := rawCut (regs r) count (2 * i : ℕ) / 2
    call.retval = (2 * n : ℕ) ∧ call.io.bus.Holds cells ∧
      (r ≠ .fmc → call.copied = bytesOf ((List.range' i n).map (cells r))) := by
  intro call n
  obtain ⟨s, there, rfl⟩ := held
  have small := (declared r).small
  have read := ioregRegRead_of_served (gatewareBus map host) map served mode count (2 * i : ℕ) io
  by_cases ends : regblen mode (regs r) < ((2 * i : ℕ) : ℤ) + count ∧
      regblen mode (regs r) ≤ (2 * i : ℕ)
  · have length := regblen_of_raw small raw
    have nothing : n = 0 := by
      simp only [n, rawCut]
      omega
    rw [if_pos ends] at read
    simp only [call, read, nothing]
    exact ⟨rfl, ⟨s, there, rfl⟩, fun _ => rfl⟩
  · have valid : ∀ j, i ≤ j → j < i + n → r.Valid j := by
      intro j low high
      have rest := rawCut_le_rest (regs r) count (2 * i : ℕ)
      rw [Int.toNat_natCast] at rest
      exact valid_of_count declared (rawCut_fits (regs r) count (by omega)) (by omega) high
    obtain ⟨t, kept, words_kept, words⟩ := @recvWords_region map host s r i
      (io.log [.getTask, .getHwrops, .down]) there n valid
    rw [if_neg ends, cappedCount_eq small raw count (Int.natCast_nonneg _),
      readIobuf_raw (gatewareBus map host) map (regs r) raw, (declared r).mapped] at read
    simp only [call, read]
    exact ⟨rfl, ⟨t, kept, words_kept⟩, words⟩

/-- A write in text mode stores two words, whatever the length of the register. -/
theorem ioregRegWrite_text_holds (held : io.bus.Holds cells) {env : IoEnv}
    (served : Served (regs r) false env) {mode : ℤ} (text : mode ≠ 1) {count : ℕ}
    (accepted : TextAccepted env count 0) :
    (ioregRegWrite (gatewareBus map host) map (regs r) mode env false count 0 io).io.bus.Holds
      (storeCells cells r 0 (wordsOf (u32Bytes (UInt32.ofInt (env.number count))))) := by
  have below : (0 : ℤ) < (regs r).len.toNat := by
    rw [(declared r).len]
    cases r <;> decide
  have valid : ∀ j, 0 ≤ j → j < 0 + 4 / 2 → r.Valid j := by
    intro j _ high
    exact ⟨by change j < 4194304; omega, fun _ => by omega⟩
  have stored := @writeIobuf_holds map host regs declared r
    (io.log [.getTask, .getHwrops, .down]) cells 0 held
    (u32Bytes (UInt32.ofInt (env.number count))) (by rwa [u32Bytes_length])
  rw [u32Bytes_length, List.take_of_length_le (by rw [u32Bytes_length])] at stored
  rw [ioregRegWrite_text (gatewareBus map host) map served text below, if_pos accepted]
  exact stored

theorem regblen_text (r : Region) : regblen 0 (regs r) = 2 * (regs r).len.toNat := by
  rw [regblen, if_pos rfl, (declared r).len]
  cases r <;> decide

/-- A read in text mode at the beginning. -/
theorem ioregRegRead_text_holds (held : io.bus.Holds cells) {env : IoEnv}
    (served : Served (regs r) false env) (count : ℕ) :
    (ioregRegRead (gatewareBus map host) map (regs r) 0 env false count (2 * 0 : ℕ)
        io).io.bus.Holds cells := by
  rw [ioregRegRead_of_served _ map served]
  split
  · exact held
  · generalize count_eq : cappedCount 0 (regs r) count (2 * 0 : ℕ) = fcount
    have most : 2 * (fcount / 2 / 2) ≤ (regs r).len.toNat := by
      have cut : fcount ≤ (regblen 0 (regs r) - (2 * 0 : ℕ)).toNat := by
        rw [← count_eq, cappedCount_eq_min]
        exact (min_le_right _ _).trans (min_le_left _ _)
      rw [regblen_text declared] at cut
      omega
    obtain ⟨s, there, rfl⟩ := held
    obtain ⟨t, kept, words_kept, -⟩ := @recvWords_region map host s r 0
      (io.log [.getTask, .getHwrops, .down]) there (fcount / 2 / 2)
      (fun j _ high => valid_of_count declared (by omega) (Nat.le_refl _) high)
    refine ⟨t, ?_, words_kept⟩
    rw [readIobuf_text_bus, (declared r).mapped]
    exact kept

end Step

variable {c : FileCall} {io : IoState Device} {cells : Region → ℕ → UInt16}

theorem FileCall.write_holds (held : io.bus.Holds cells) (write : c.write = true) :
    (c.call map host regs io).io.bus.Holds (c.effect (regs c.region) cells) := by
  rw [FileCall.call, if_pos write]
  by_cases below : 2 * c.word < (regs c.region).len.toNat
  swap
  · have beyond : ((regs c.region).len.toNat : ℤ) ≤ (2 * c.word : ℕ) := by omega
    rw [FileCall.effect, if_neg fun through => below through.2.1]
    exact holds_of_idle held
      (ioregRegWrite_of_beyond _ map beyond c.ioregMode c.env false c.count io).1
  have position : ((2 * c.word : ℕ) : ℤ) < (regs c.region).len.toNat := by omega
  by_cases served : Served (regs c.region) false c.env
  swap
  · rw [FileCall.effect, if_neg fun through => served through.2.2]
    exact holds_of_idle held
      (ioregRegWrite_of_not_served _ map served position c.ioregMode c.count io).1
  rw [FileCall.effect, if_pos ⟨write, below, served⟩, FileCall.stored]
  by_cases raw : c.ioregMode = 1
  · rw [if_pos raw, raw]
    cases fault : c.env.fault with
    | true =>
        rw [ioregRegWrite_raw _ map served position, if_pos fault]
        exact held
    | false => exact (ioregRegWrite_holds declared held served fault c.count below).2
  · rw [if_neg raw]
    by_cases accepted : TextAccepted c.env c.count (2 * c.word : ℕ)
    · rw [if_pos accepted]
      have start : ((2 * c.word : ℕ) : ℤ) = 0 := accepted.1
      rw [start] at accepted ⊢
      exact ioregRegWrite_text_holds declared held served raw accepted
    · rw [if_neg accepted, ioregRegWrite_text _ map served raw position, if_neg accepted]
      exact held

theorem FileCall.read_holds (held : io.bus.Holds cells) (read : c.write = false)
    (proper : c.Proper) : (c.call map host regs io).io.bus.Holds cells := by
  have asked : ¬ c.write = true := Bool.eq_false_iff.mp read
  rw [FileCall.call, if_neg asked]
  by_cases served : Served (regs c.region) false c.env
  swap
  · exact holds_of_idle held
      (ioregRegRead_of_not_served _ map served c.ioregMode c.count _ io).1
  by_cases raw : c.ioregMode ≠ 0
  · exact (ioregRegRead_holds declared held served raw c.count).2.1
  · have text := not_not.mp raw
    rw [text, proper read text]
    exact ioregRegRead_text_holds declared held served c.count

/-- A call does to the registers what it is for. -/
theorem FileCall.call_holds (held : io.bus.Holds cells) (proper : c.Proper) :
    (c.call map host regs io).io.bus.Holds (c.effect (regs c.region) cells) := by
  cases kind : c.write with
  | true => exact FileCall.write_holds declared held kind
  | false =>
      have nothing : c.effect (regs c.region) cells = cells :=
        if_neg fun through => Bool.false_ne_true (kind.symm.trans through.1)
      rw [nothing]
      exact FileCall.read_holds declared held kind proper

/-- So do any number of calls, in any order. -/
theorem afterCalls_holds (held : io.bus.Holds cells) {calls : List FileCall}
    (proper : ∀ c ∈ calls, c.Proper) :
    (afterCalls map host regs calls io).bus.Holds (afterEffects regs calls cells) := by
  induction calls generalizing io cells with
  | nil => exact held
  | cons c rest ih =>
      exact ih (FileCall.call_holds declared held (proper c List.mem_cons_self))
        fun later mem => proper later (List.mem_cons_of_mem _ mem)

end Calls

/-! ## A board -/

/-- An edge with an address. -/
def addressPins (word : BitVec 26) : Pins :=
  ⟨word.extractLsb' 16 10, ⟨word.extractLsb' 0 16⟩, 0, true, true, false, 0⟩

theorem addressPins_addresses (word : BitVec 26) : (addressPins word).Addresses word where
  selected := show (0 : BitVec 7) ≠ BitVec.allOnes 7 by decide
  ale := rfl
  address := by
    change word.extractLsb' 16 10 ++ word.extractLsb' 0 16 = word
    rw [BitVec.extractLsb'_append_extractLsb'_eq_extractLsb' (by rfl), BitVec.extractLsb'_eq_self]

/-- An edge with data. -/
def dataPins : Access → Pins
  | .read _ => ⟨0, 0, 0, true, false, true, 0⟩
  | .write _ value => ⟨0, value, 0, false, true, true, 0⟩

theorem dataPins_data (access : Access) : access.Data (dataPins access) := by
  have selected : (0 : BitVec 7) ≠ BitVec.allOnes 7 := by decide
  cases access with
  | read word => exact ⟨selected, rfl, rfl⟩
  | write word value => exact ⟨selected, rfl, rfl, rfl, rfl⟩

/-- A host that takes one edge for the address and one for the data. -/
def promptHost : Host where
  edges _ access :=
    { addressing := [addressPins access.word]
      gap := []
      data := [dataPins access]
      rest := []
      addressing_ne := List.cons_ne_nil _ _
      data_ne := List.cons_ne_nil _ _
      addresses := List.forall_mem_singleton.mpr (addressPins_addresses access.word)
      gap_quiet := List.forall_mem_nil _
      transfers := List.forall_mem_singleton.mpr (dataPins_data access)
      rest_quiet := List.forall_mem_nil _ }

/-- The registers of `gpmc_test_top.sym`. -/
def testRegs (r : Region) : Ioreg where
  strtab := []
  name := 0
  mode := r.mode
  loc := r.loc
  len := r.len
  hwraddr := ⟨0, 0⟩

theorem testRegs_is (r : Region) : r.Is (testRegs r) :=
  ⟨rfl, rfl, rfl⟩

/-- The signals after configuration; those without an initial value are zero here. -/
def configured : Design where
  gpmcAddress := 0
  gpmcDataO := 0
  ledReg := 0xAA55
  fmc0LaO := 0
  regBank := fun _ => 0
  word32Reg := fun _ => 0x5555

def configuredIo : IoState Device :=
  ⟨⟨some configured, 0⟩, []⟩

theorem configuredIo_holds : configuredIo.bus.Holds configured.cell :=
  ⟨configured, rfl, rfl⟩

/-- A write of the text `1` to `reg_word` and a read of the version. -/
def otherCalls : List FileCall :=
  [⟨.word, true, 0, 1, 0, writesOne⟩, ⟨.version, false, 1, 2, 0, openEnv⟩]

theorem otherCalls_proper : ∀ c ∈ otherCalls, c.Proper := by
  intro c mem
  simp only [otherCalls, List.mem_cons, List.not_mem_nil, or_false] at mem
  rcases mem with rfl | rfl
  · intro read
    cases read
  · intro _ _
    rfl

theorem otherCalls_apart : ∀ c ∈ otherCalls, Region.led ≠ c.region := by
  decide

theorem testRegs_served (r : Region) :
    Served (testRegs r) false openEnv ∧ Served (testRegs r) false writesOne := by
  cases r <;> decide

/-! ## What the files are for -/

section Calls

variable {map : FpgaMap} {host : Host} {regs : Region → Ioreg} {c : FileCall} {io : IoState Device}
  {cells : Region → ℕ → UInt16}

/-- Whatever calls have been made, the design is there, and a raw read finds what they were
for. -/
theorem read_after_calls (declared : ∀ r : Region, r.Is (regs r)) (held : io.bus.Holds cells)
    {calls : List FileCall} (proper : ∀ c ∈ calls, c.Proper) (read : c.write = false)
    (raw : c.ioregMode ≠ 0) (output : c.region ≠ .fmc)
    (served : Served (regs c.region) false c.env) :
    let n := rawCut (regs c.region) c.count (2 * c.word : ℕ) / 2
    (afterCalls map host regs calls io).bus.Holds (afterEffects regs calls cells) ∧
      (c.call map host regs (afterCalls map host regs calls io)).copied =
        bytesOf ((List.range' c.word n).map (afterEffects regs calls cells c.region)) := by
  intro n
  have reached := @afterCalls_holds map host regs declared io cells held calls proper
  have asked : ¬ c.write = true := Bool.eq_false_iff.mp read
  rw [FileCall.call, if_neg asked]
  exact ⟨reached, (ioregRegRead_holds declared reached served raw c.count).2.2 output⟩

theorem configured_read_after_calls :
    ((FileCall.mk .word false 1 4 0 openEnv).call sampleMap promptHost testRegs
      (afterCalls sampleMap promptHost testRegs otherCalls configuredIo)).copied =
        [1, 0, 0, 0] := by
  have found := @read_after_calls sampleMap promptHost testRegs
    ⟨.word, false, 1, 4, 0, openEnv⟩ configuredIo configured.cell testRegs_is configuredIo_holds
    otherCalls otherCalls_proper rfl one_ne_zero (by decide) (testRegs_served .word).1
  exact found.2.trans (by decide +kernel)

/-- The words of a region that its file covers are different registers. -/
theorem seen_iff_of_covered (declared : ∀ r : Region, r.Is (regs r)) {r : Region}
    (writable : r ≠ .version) {j k : ℕ}
    (first : 2 * (j + 1) ≤ (regs r).len.toNat) (second : 2 * (k + 1) ≤ (regs r).len.toNat) :
    r.Seen j k ↔ j = k := by
  rw [(declared r).len] at first second
  cases r with
  | version => exact absurd rfl writable
  | led | fmc =>
      change _ ≤ 2 at first second
      exact iff_of_true trivial (by omega)
  | file =>
      change _ ≤ 127 at first second
      change j % 64 = k % 64 ↔ _
      omega
  | word =>
      change _ ≤ 4 at first second
      change j % 64 = k % 64 ↔ _
      omega

/-- The words that a raw write has stored. -/
theorem storeCells_covered (declared : ∀ r : Region, r.Is (regs r)) {r : Region}
    (writable : r ≠ .version) {i n : ℕ} {words : List UInt16} (length : words.length = n)
    (covered : 2 * (i + n) ≤ (regs r).len.toNat) :
    (List.range' i n).map (storeCells cells r i words r) = words := by
  apply List.ext_getElem?
  intro k
  rw [List.getElem?_map]
  by_cases inside : k < n
  · rw [List.getElem?_range' inside, Nat.one_mul, Option.map_some,
      List.getElem?_eq_getElem (by omega)]
    have found : words[k]? = some words[k] := List.getElem?_eq_getElem (by omega)
    rw [storeCells_get (fun j k low high low' high' =>
      seen_iff_of_covered declared writable (by omega) (by omega)) found]
  · rw [List.getElem?_eq_none (by rw [List.length_range']; omega), Option.map_none,
      List.getElem?_eq_none (by omega)]

/-- What a raw write to a register has reported as written is what a raw read finds there, after
any calls on the other files. -/
theorem read_back (declared : ∀ r : Region, r.Is (regs r)) {r : Region}
    (writable : r ≠ .version) (output : r ≠ .fmc) (held : io.bus.Holds cells) {env : IoEnv}
    (served : Served (regs r) false env) (copied : env.fault = false) (count : ℕ) {i : ℕ}
    (below : 2 * i < (regs r).len.toNat)
    {calls : List FileCall} (proper : ∀ c ∈ calls, c.Proper) (others : ∀ c ∈ calls, r ≠ c.region)
    {later : IoEnv} (servedLater : Served (regs r) false later) :
    let write := ioregRegWrite (gatewareBus map host) map (regs r) 1 env false count (2 * i : ℕ) io
    let n := write.retval.toNat
    let read := ioregRegRead (gatewareBus map host) map (regs r) 1 later false n (2 * i : ℕ)
      (afterCalls map host regs calls write.io)
    read.retval = write.retval ∧ read.copied = (List.range n).map env.user := by
  intro write n read
  obtain ⟨reported, stored⟩ := @ioregRegWrite_holds map host regs declared r io cells i held env
    served copied count below
  have whole : n = 2 * (rawCut (regs r) count (2 * i : ℕ) / 2) :=
    (congrArg Int.toNat reported).trans (Int.toNat_natCast _)
  have less : n ≤ rawCut (regs r) count (2 * i : ℕ) := by
    rw [whole]
    exact Nat.mul_div_le _ 2
  have again : rawCut (regs r) n (2 * i : ℕ) = n := rawCut_of_le less
  have fits := rawCut_fits (regs r) count below.le
  rw [← whole] at reported stored
  have bytes : ((List.range n).map env.user).length = 2 * (n / 2) := by
    rw [List.length_map, List.length_range]
    omega
  obtain ⟨answered, -, words⟩ := @ioregRegRead_holds map host regs declared r _ _ i
    (afterCalls_holds declared stored proper) later servedLater 1 one_ne_zero n
  rw [again] at answered words
  constructor
  · rw [show read.retval = _ from answered, show write.retval = _ from reported]
    omega
  · rw [show read.copied = _ from words output, afterEffects_of_ne regs others,
      storeCells_covered declared writable (wordsOf_length bytes) (by omega),
      bytesOf_wordsOf bytes]

theorem configured_read_back :
    (ioregRegRead (gatewareBus sampleMap promptHost) sampleMap (testRegs .led) 1 openEnv false 2 0
      (afterCalls sampleMap promptHost testRegs otherCalls
        (ioregRegWrite (gatewareBus sampleMap promptHost) sampleMap (testRegs .led) 1 writesOne
          false 2 0 configuredIo).io)).copied = [49, 49] :=
  (@read_back sampleMap promptHost testRegs configuredIo configured.cell testRegs_is .led
    (by decide) (by decide) configuredIo_holds writesOne (testRegs_served .led).2 rfl 2 0
    (by decide) otherCalls otherCalls_proper otherCalls_apart openEnv (testRegs_served .led).1).2

/-- A number that is written to `reg_led` in text mode: the second of the two words lands in the
same register, so that the pins show bits 16 to 23. -/
theorem write_text_led (declared : ∀ r : Region, r.Is (regs r)) (held : io.bus.Holds cells)
    {env : IoEnv} (served : Served (regs .led) false env) {mode : ℤ} (text : mode ≠ 1) {count : ℕ}
    (accepted : TextAccepted env count 0) :
    ∃ t, (ioregRegWrite (gatewareBus map host) map (regs .led) mode env false count 0
        io).io.bus.design = some t ∧
      t.led = (UInt32.ofInt (env.number count) >>> 16).toUInt8 ∧
      (env.number count < 65536 → t.led = 0) := by
  obtain ⟨t, there, words⟩ := ioregRegWrite_text_holds (r := .led) declared held served text
    accepted
  have shown : t.led = (UInt32.ofInt (env.number count) >>> 16).toUInt8 := by
    have second : t.cell .led 0 = (UInt32.ofInt (env.number count) >>> 16).toUInt16 := by
      rw [words, wordsOf_u32Bytes]
      rfl
    rw [Design.led, show t.ledReg = _ from second, UInt32.toUInt8_toUInt16]
  refine ⟨t, there, shown, fun small => ?_⟩
  have positive : 0 ≤ env.number count := accepted.2.2.2
  have upper : UInt32.ofInt (env.number count) >>> 16 = 0 := by
    apply UInt32.toNat_inj.mp
    rw [UInt32.toNat_shiftRight, toNat_ofInt, Nat.shiftRight_eq_div_pow]
    change _ / 65536 = 0
    omega
  rw [shown, upper]
  rfl

theorem configured_write_text_led :
    ∃ t, (ioregRegWrite (gatewareBus sampleMap promptHost) sampleMap (testRegs .led) 0 writesOne
        false 1 0 configuredIo).io.bus.design = some t ∧ t.led = 0 := by
  have accepted : TextAccepted writesOne 1 0 := by decide
  obtain ⟨t, there, -, dark⟩ := @write_text_led sampleMap promptHost testRegs
    configuredIo configured.cell testRegs_is configuredIo_holds writesOne (testRegs_served .led).2 0
    zero_ne_one 1 accepted
  exact ⟨t, there, dark (by decide)⟩

end Calls

end Rhino.Gateware
