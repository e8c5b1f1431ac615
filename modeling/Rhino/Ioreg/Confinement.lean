import Rhino.Ioreg.Core
import Rhino.Transition.Run

/-!
# A register file stays in its register

Whether every 16-bit access of a register file falls into the register depends
on the mode.  Raw reads and writes are cut to the length of the register in
bytes.  A read in text mode is cut to twice that length, in characters, while
the bytes that it fetches start at the position counted in characters; and a
write in text mode always sends four bytes.  `session_confined_iff` gives the
exact condition for every sequence of calls on an open file.
-/

namespace Rhino.Ioreg

open Rhino.Bof Rhino.Bytes Rhino.Kernel Rhino.Loader Rhino.Transition

/-! ## Conversions -/

theorem toS32_lt (value : ℤ) : toS32 value < 2 ^ 31 := by
  simp only [toS32, wrapSigned]
  omega

theorem toS32_le {value : ℤ} (nonnegative : 0 ≤ value) : toS32 value ≤ value := by
  simp only [toS32, wrapSigned]
  omega

theorem toS32_of_lt {value : ℤ} (nonnegative : 0 ≤ value) (small : value < 2 ^ 31) :
    toS32 value = value := by
  simp only [toS32, wrapSigned]
  omega

theorem toS32_emod (value : ℤ) : toS32 value % 2 ^ 32 = value % 2 ^ 32 := by
  simp only [toS32, wrapSigned]
  omega

theorem toNat_ofInt (value : ℤ) : (UInt32.ofInt value).toNat = (value % 2 ^ 32).toNat := by
  rw [UInt32.ofInt, UInt32.toNat_ofNat']
  omega

/-! ## The bytes of a register -/

/-- The byte at a bus address belongs to the register. -/
def InRegister (map : FpgaMap) (reg : Ioreg) (addr : UInt32) : Prop :=
  addr - getMappedLocation map reg.loc < reg.len

instance (map : FpgaMap) (reg : Ioreg) (addr : UInt32) : Decidable (InRegister map reg addr) :=
  inferInstanceAs (Decidable (_ < _))

/-- Both bytes of every 16-bit access belong to the register. -/
def Confined (map : FpgaMap) (reg : Ioreg) (trace : List IoEvent) : Prop :=
  ∀ addr ∈ accesses trace, InRegister map reg addr ∧ InRegister map reg (addr + 1)

instance (map : FpgaMap) (reg : Ioreg) (trace : List IoEvent) :
    Decidable (Confined map reg trace) :=
  List.decidableBAll (fun addr => InRegister map reg addr ∧ InRegister map reg (addr + 1)) _

theorem inRegister_offset_iff (map : FpgaMap) (reg : Ioreg) {offset : ℤ} {extra : ℕ}
    (nonnegative : 0 ≤ offset) (small : offset + extra < 2 ^ 32) :
    InRegister map reg
        (getMappedLocation map reg.loc + UInt32.ofInt offset + UInt32.ofNat extra) ↔
      offset + extra < reg.len.toNat := by
  have relative : getMappedLocation map reg.loc + UInt32.ofInt offset + UInt32.ofNat extra -
      getMappedLocation map reg.loc = UInt32.ofInt offset + UInt32.ofNat extra := by
    grind
  have position : (UInt32.ofInt offset + UInt32.ofNat extra).toNat = offset.toNat + extra := by
    rw [UInt32.toNat_add, toNat_ofInt, UInt32.toNat_ofNat']
    omega
  rw [InRegister, relative, UInt32.lt_iff_toNat_lt, position]
  omega

/-- A transfer of `count` words from `offset` on is confined exactly if it ends
in the register. -/
theorem wordAddrs_confined_iff (map : FpgaMap) (reg : Ioreg) {offset : ℤ} {count : ℕ}
    (nonnegative : 0 ≤ offset) (small : count = 0 ∨ offset + 2 * count ≤ 2 ^ 32) :
    (∀ addr ∈ wordAddrs (getMappedLocation map reg.loc + UInt32.ofInt offset) count,
      InRegister map reg addr ∧ InRegister map reg (addr + 1)) ↔
      count = 0 ∨ offset + 2 * count ≤ reg.len.toNat := by
  have word (i : ℕ) (lt : i < count) :
      InRegister map reg
          (getMappedLocation map reg.loc + UInt32.ofInt offset + UInt32.ofNat (2 * i)) ∧
        InRegister map reg
          (getMappedLocation map reg.loc + UInt32.ofInt offset + UInt32.ofNat (2 * i) + 1) ↔
      offset + 2 * i + 1 < reg.len.toNat := by
    have second : getMappedLocation map reg.loc + UInt32.ofInt offset +
        UInt32.ofNat (2 * i) + 1 =
          getMappedLocation map reg.loc + UInt32.ofInt offset + UInt32.ofNat (2 * i + 1) := by
      rw [UInt32.ofNat_add, ← UInt32.add_assoc]
      rfl
    rw [second, inRegister_offset_iff map reg nonnegative (by omega),
      inRegister_offset_iff map reg nonnegative (by omega)]
    omega
  constructor
  · intro confined
    cases count with
    | zero => exact Or.inl rfl
    | succ last =>
        right
        have final := (word last (Nat.lt_succ_self last)).mp
          (confined _ (mem_wordAddrs_iff.mpr ⟨last, Nat.lt_succ_self last, rfl⟩))
        omega
  · intro ends addr mem
    rcases mem_wordAddrs_iff.mp mem with ⟨i, lt, rfl⟩
    apply (word i lt).mpr
    omega

/-! ## The accesses of a call -/

/-- The call gets as far as the buffer: the register is no pipe, the task, its
record and the operations are there and the semaphore is acquired. -/
def Reaches (reg : Ioreg) (env : IoEnv) : Prop :=
  reg.mode &&& IORM_PIPE = 0 ∧ env.task = true ∧ env.info = true ∧
    env.hwrops = .complete ∧ env.iobuf = true

instance (reg : Ioreg) (env : IoEnv) : Decidable (Reaches reg env) :=
  inferInstanceAs (Decidable (_ ∧ _))

/-- The words that a read fetches. -/
def readWords (reg : Ioreg) (mode : ℤ) (fcount : ℕ) (fpos : ℤ) : ℕ :=
  if regblen mode reg < fpos + fcount ∧ regblen mode reg ≤ fpos then 0
  else if mode ≠ 0 then cappedCount mode reg fcount fpos / 2
  else cappedCount mode reg fcount fpos / 2 / 2

/-- A write in text mode is accepted: it is at the start of the file, fits the
buffer for the text, can be copied and is a number. -/
def TextAccepted (env : IoEnv) (fcount : ℕ) (fpos : ℤ) : Prop :=
  fpos = 0 ∧ fcount ≤ NUMTMPBUF ∧ env.fault = false ∧
    0 ≤ convertInput (fun i => if i < fcount then env.user i else env.stack i) fcount

instance (env : IoEnv) (fcount : ℕ) (fpos : ℤ) : Decidable (TextAccepted env fcount fpos) :=
  inferInstanceAs (Decidable (_ ∧ _))

/-- The words that a write sends. -/
def writeWords (reg : Ioreg) (mode : ℤ) (env : IoEnv) (fcount : ℕ) (fpos : ℤ) : ℕ :=
  if (reg.len.toNat : ℤ) ≤ fpos then 0
  else if mode = 1 then if env.fault then 0 else rawCount reg fcount fpos / 2
  else if TextAccepted env fcount fpos then 2 else 0

/-- The words in a buffer, if one is filled. -/
def filledWords : Option (ℕ × List UInt8) → ℕ
  | none => 0
  | some (size, _) => size / 2

theorem filledWords_some (size : ℕ) (data : List UInt8) :
    filledWords (some (size, data)) = size / 2 :=
  rfl

section Calls

variable {β : Type} (bus : Bus β) (map : FpgaMap)

@[simp]
theorem accesses_log (s : IoState β) (events : List IoEvent) :
    accesses (s.log events).trace = accesses s.trace ++ accesses events :=
  accesses_append s.trace events

theorem leave_accesses (s : IoState β) (fpos retval : ℤ) {events : List IoEvent}
    (silent : accesses events = []) :
    accesses (Call.leave s fpos events retval).io.trace = accesses s.trace := by
  simp [Call.leave, silent]

theorem leave_accesses_of_blocked (s : IoState β) (fpos retval : ℤ) {events : List IoEvent}
    (silent : accesses events = []) {reg : Ioreg} {env : IoEnv} (blocked : ¬ Reaches reg env)
    (addrs : List UInt32) :
    accesses (Call.leave s fpos events retval).io.trace =
      accesses s.trace ++ if Reaches reg env then addrs else [] := by
  rw [if_neg blocked, List.append_nil]
  exact leave_accesses s fpos retval silent

theorem readIobuf_accesses (reg : Ioreg) (mode : ℤ) (fcount : ℕ) (fpos : ℤ) (s : IoState β) :
    accesses (readIobuf bus map reg mode fcount fpos s).io.trace =
      accesses s.trace ++
        wordAddrs (getMappedLocation map reg.loc + UInt32.ofInt fpos)
          ((if mode ≠ 0 then fcount else fcount / 2) / 2) := by
  have received := rhinoRecvIobuf_accesses bus map
    ⟨reg.loc, UInt32.ofInt fpos, if mode ≠ 0 then fcount else fcount / 2, []⟩
    (s.log [.getTask, .getHwrops, .down])
  rw [accesses_log, show accesses [.getTask, .getHwrops, .down] = [] from rfl,
    List.append_nil] at received
  rw [readIobuf, ← received]
  rcases rhinoRecvIobuf bus map
    ⟨reg.loc, UInt32.ofInt fpos, if mode ≠ 0 then fcount else fcount / 2, []⟩
    (s.log [.getTask, .getHwrops, .down]) with ⟨retval, data, after⟩
  by_cases failed : retval < 0
  · simp only [failed, if_true]
    exact leave_accesses _ _ _ rfl
  · simp only [failed, if_false]
    cases (if mode = 0 then toAscii data retval else some data) with
    | none => exact leave_accesses _ _ _ rfl
    | some text => exact (accesses_log _ _).trans (List.append_nil _)

/-- A read makes no access before it has the buffer and one for every word after
that. -/
theorem ioregRegRead_accesses (reg : Ioreg) (mode : ℤ) (env : IoEnv) (fcount : ℕ) (fpos : ℤ)
    (s : IoState β) :
    accesses (ioregRegRead bus map reg mode env false fcount fpos s).io.trace =
      accesses s.trace ++
        if Reaches reg env then
          wordAddrs (getMappedLocation map reg.loc + UInt32.ofInt fpos)
            (readWords reg mode fcount fpos)
        else [] := by
  rw [ioregRegRead]
  by_cases pipe : reg.mode &&& IORM_PIPE ≠ 0 ∧ false = false
  · rw [if_pos pipe]
    exact leave_accesses_of_blocked s fpos _ rfl (fun reaches => pipe.1 reaches.1) _
  rw [if_neg pipe]
  cases task : env.task
  · exact leave_accesses_of_blocked s fpos _ rfl (by simp [Reaches, task]) _
  cases info : env.info
  · exact leave_accesses_of_blocked s fpos _ rfl (by simp [Reaches, info]) _
  simp only [reduceCtorEq, if_false]
  by_cases ended : regblen mode reg < fpos + fcount ∧ regblen mode reg ≤ fpos
  · rw [if_pos ended, readWords, if_pos ended]
    apply (leave_accesses _ _ _ rfl).trans
    split <;> exact (List.append_nil _).symm
  rw [if_neg ended]
  cases hwrops : env.hwrops with
  | absent | incomplete =>
      exact leave_accesses_of_blocked s fpos _ rfl (by simp [Reaches, hwrops]) _
  | complete =>
      cases iobuf : env.iobuf
      · exact leave_accesses_of_blocked s fpos _ rfl (by simp [Reaches, iobuf]) _
      · have reaches : Reaches reg env := ⟨by simpa using pipe, task, info, hwrops, iobuf⟩
        rw [if_pos reaches, readWords, if_neg ended]
        apply (readIobuf_accesses bus map reg mode _ fpos s).trans
        split <;> rfl

theorem writeIobuf_accesses (reg : Ioreg) (size : ℕ) (data : List UInt8) (fpos : ℤ)
    (s : IoState β) :
    accesses (writeIobuf bus map reg size data fpos s).io.trace =
      accesses s.trace ++
        wordAddrs (getMappedLocation map reg.loc + UInt32.ofInt fpos) (size / 2) := by
  rw [writeIobuf, ← rhinoSendIobuf_accesses bus map ⟨reg.loc, UInt32.ofInt fpos, size, data⟩ s]
  rcases rhinoSendIobuf bus map ⟨reg.loc, UInt32.ofInt fpos, size, data⟩ s with ⟨retval, after⟩
  by_cases empty : retval ≤ 0
  · simp only [empty, if_true]
    exact leave_accesses _ _ _ rfl
  · simp only [empty, if_false]
    exact (accesses_log _ _).trans (List.append_nil _)

/-- The part of `ioreg_reg_write` behind the copy, whether that has filled a
buffer or not. -/
theorem filled_accesses (reg : Ioreg) (filled : Option (ℕ × List UInt8)) (fpos : ℤ)
    (s : IoState β) :
    accesses (match filled with
      | none => Call.leave s fpos [.putHwrops, .putTask] (-einval)
      | some (size, data) => writeIobuf bus map reg size data fpos s).io.trace =
      accesses s.trace ++
        wordAddrs (getMappedLocation map reg.loc + UInt32.ofInt fpos)
          (filledWords filled) := by
  cases filled with
  | none => exact (leave_accesses _ _ _ rfl).trans (List.append_nil _).symm
  | some buffer => exact writeIobuf_accesses bus map reg buffer.1 buffer.2 fpos s

end Calls

theorem ioregRegCpUdataRaw_silent (reg : Ioreg) (env : IoEnv) (fcount : ℕ) (fpos : ℤ) :
    accesses (ioregRegCpUdataRaw reg env fcount fpos).2 = [] := by
  rw [ioregRegCpUdataRaw]
  cases env.iobuf
  · rfl
  · cases env.fault <;> rfl

theorem ioregRegCpUdataRaw_words (reg : Ioreg) (env : IoEnv) (fcount : ℕ) (fpos : ℤ) :
    filledWords (ioregRegCpUdataRaw reg env fcount fpos).1 =
      if env.iobuf then if env.fault then 0 else rawCount reg fcount fpos / 2 else 0 := by
  cases iobuf : env.iobuf
  · simp [ioregRegCpUdataRaw, iobuf, filledWords]
  · cases fault : env.fault
    · simp only [ioregRegCpUdataRaw, iobuf, fault, reduceCtorEq, if_false, if_true,
        filledWords_some]
    · simp [ioregRegCpUdataRaw, iobuf, fault, filledWords]

/-- The text is copied in full or the buffer is not touched. -/
theorem ioregRegCpUdataAscii_eq (env : IoEnv) (fcount : ℕ) (fpos : ℤ) :
    ioregRegCpUdataAscii env fcount fpos =
      if TextAccepted env fcount fpos ∧ env.iobuf = true then
        (some (4, u32Bytes (UInt32.ofInt (convertInput
          (fun i => if i < fcount then env.user i else env.stack i) fcount))), [.down])
      else (none, []) := by
  unfold ioregRegCpUdataAscii
  by_cases start : fpos ≠ 0
  · rw [if_pos start, if_neg (fun both => start both.1.1)]
  rw [if_neg start]
  by_cases long : NUMTMPBUF < fcount
  · rw [if_pos long, if_neg (fun both => Nat.not_le.mpr long both.1.2.1)]
  rw [if_neg long]
  cases fault : env.fault with
  | true =>
      rw [if_pos rfl, if_neg (fun both => Bool.false_ne_true (both.1.2.2.1.symm.trans fault))]
  | false =>
      simp only [Bool.false_eq_true, if_false]
      by_cases negative :
          convertInput (fun i => if i < fcount then env.user i else env.stack i) fcount < 0
      · rw [if_pos negative, if_neg (fun both => Int.not_le.mpr negative both.1.2.2.2)]
      rw [if_neg negative]
      cases iobuf : env.iobuf with
      | false => rw [if_pos rfl, if_neg (fun both => Bool.false_ne_true both.2)]
      | true =>
          have fits : ¬ IOBUF_SIZE < fcount := by
            simp only [IOBUF_SIZE, PAGE_SIZE, NUMTMPBUF] at long ⊢
            omega
          rw [if_neg Bool.true_eq_false.mp, if_neg fits, if_pos]
          exact ⟨⟨not_not.mp start, Nat.not_lt.mp long, fault, Int.not_lt.mp negative⟩, rfl⟩

/-- The events of the copy are no accesses. -/
theorem copied_silent (reg : Ioreg) (mode : ℤ) (env : IoEnv) (fcount : ℕ) (fpos : ℤ) :
    accesses (if mode = 1 then ioregRegCpUdataRaw reg env fcount fpos
      else ioregRegCpUdataAscii env fcount fpos).2 = [] := by
  split
  · exact ioregRegCpUdataRaw_silent reg env fcount fpos
  · rw [ioregRegCpUdataAscii_eq]
    split <;> rfl

theorem copied_words (reg : Ioreg) (mode : ℤ) (env : IoEnv) (fcount : ℕ) {fpos : ℤ}
    (below : ¬ (reg.len.toNat : ℤ) ≤ fpos) :
    filledWords (if mode = 1 then ioregRegCpUdataRaw reg env fcount fpos
      else ioregRegCpUdataAscii env fcount fpos).1 =
      if env.iobuf then writeWords reg mode env fcount fpos else 0 := by
  rw [writeWords, if_neg below]
  split
  · exact ioregRegCpUdataRaw_words reg env fcount fpos
  · rw [ioregRegCpUdataAscii_eq]
    by_cases accepted : TextAccepted env fcount fpos
    · cases env.iobuf <;> simp [accepted, filledWords]
    · simp [accepted, filledWords]

section Calls

variable {β : Type} (bus : Bus β) (map : FpgaMap)

/-- A write makes no access before it has filled the buffer and one for every
word after that. -/
theorem ioregRegWrite_accesses (reg : Ioreg) (mode : ℤ) (env : IoEnv) (fcount : ℕ) (fpos : ℤ)
    (s : IoState β) :
    accesses (ioregRegWrite bus map reg mode env false fcount fpos s).io.trace =
      accesses s.trace ++
        if Reaches reg env then
          wordAddrs (getMappedLocation map reg.loc + UInt32.ofInt fpos)
            (writeWords reg mode env fcount fpos)
        else [] := by
  rw [ioregRegWrite]
  by_cases pipe : reg.mode &&& IORM_PIPE ≠ 0 ∧ false = false
  · rw [if_pos pipe]
    exact leave_accesses_of_blocked s fpos _ rfl (fun reaches => pipe.1 reaches.1) _
  rw [if_neg pipe]
  by_cases beyond : (reg.len.toNat : ℤ) ≤ fpos
  · rw [if_pos beyond, writeWords, if_pos beyond]
    apply (leave_accesses _ _ _ rfl).trans
    split <;> exact (List.append_nil _).symm
  rw [if_neg beyond]
  cases task : env.task
  · exact leave_accesses_of_blocked s fpos _ rfl (by simp [Reaches, task]) _
  cases info : env.info
  · exact leave_accesses_of_blocked s fpos _ rfl (by simp [Reaches, info]) _
  cases hwrops : env.hwrops with
  | absent | incomplete =>
      exact leave_accesses_of_blocked s fpos _ rfl (by simp [Reaches, hwrops]) _
  | complete =>
      have silent := copied_silent reg mode env fcount fpos
      have words := copied_words reg mode env fcount beyond
      simp only [reduceCtorEq, if_false]
      generalize (if mode = 1 then ioregRegCpUdataRaw reg env fcount fpos
        else ioregRegCpUdataAscii env fcount fpos) = copied at silent words ⊢
      rcases copied with ⟨filled, events⟩
      apply (filled_accesses bus map reg filled fpos _).trans
      rw [words, accesses_log, accesses_append, silent]
      have stream : reg.mode &&& IORM_PIPE = 0 := by simpa using pipe
      cases iobuf : env.iobuf <;>
        simp [Reaches, stream, task, info, hwrops, iobuf, accesses, IoEvent.access, wordAddrs]

end Calls

/-! ## The lengths of a call -/

/-- The characters that a read in text mode has room for: those asked for, those
left of twice the length, and the size of the buffer. -/
def textChars (reg : Ioreg) (fcount : ℕ) (fpos : ℤ) : ℕ :=
  min (min fcount (toS32 (reg.len <<< 1).toNat - fpos).toNat) (PAGE_SIZE - DATA_OFFSET)

theorem readWords_text (reg : Ioreg) (fcount : ℕ) (fpos : ℤ) :
    readWords reg 0 fcount fpos = textChars reg fcount fpos / 4 := by
  simp only [readWords, cappedCount, regblen, textChars, if_true, ne_eq, not_true_eq_false,
    if_false]
  split
  · omega
  · split <;> split <;> omega

theorem textChars_bound (reg : Ioreg) (fcount : ℕ) (fpos : ℤ) :
    textChars reg fcount fpos / 4 = 0 ∨
      fpos + 2 * (textChars reg fcount fpos / 4 : ℕ) ≤ 2 ^ 32 := by
  have := toS32_lt (reg.len <<< 1).toNat
  simp only [textChars]
  omega

/-- A raw read ends in the register. -/
theorem readWords_raw (reg : Ioreg) {mode : ℤ} (raw : mode ≠ 0) (fcount : ℕ) (fpos : ℤ) :
    readWords reg mode fcount fpos = 0 ∨
      fpos + 2 * (readWords reg mode fcount fpos : ℕ) ≤ reg.len.toNat := by
  have := toS32_le (Int.natCast_nonneg reg.len.toNat)
  simp only [readWords, cappedCount, regblen, if_neg raw, if_pos raw]
  split
  · exact Or.inl rfl
  · right
    split <;> split <;> omega

theorem cap_le (limit count : ℕ) : (if limit < count then limit else count) ≤ count := by
  split <;> omega

/-- What is left of a register behind a position.  A length of 2^31 or more is
negative as `len_in_byte`, but the difference is right again as an unsigned
number. -/
theorem toNat_ofInt_rest (reg : Ioreg) {fpos : ℤ} (nonnegative : 0 ≤ fpos)
    (below : fpos < reg.len.toNat) :
    ((UInt32.ofInt (toS32 (toS32 reg.len.toNat - fpos))).toNat : ℤ) = reg.len.toNat - fpos := by
  rw [toNat_ofInt, toS32_emod, Int.sub_emod, toS32_emod]
  have := reg.len.toNat_lt
  omega

/-- A raw write ends in the register. -/
theorem rawCount_bound (reg : Ioreg) (fcount : ℕ) {fpos : ℤ} (nonnegative : 0 ≤ fpos)
    (below : fpos < reg.len.toNat) :
    fpos + rawCount reg fcount fpos ≤ reg.len.toNat := by
  have capped : rawCount reg fcount fpos ≤
      (UInt32.ofInt (if toS32 reg.len.toNat - fpos < fcount
        then toS32 (toS32 reg.len.toNat - fpos) else fcount)).toNat := by
    rw [rawCount]
    exact (cap_le IOBUF_SIZE _).trans (cap_le PAGE_SIZE _)
  split at capped
  · have rest := toNat_ofInt_rest reg nonnegative below
    omega
  · have signed := toS32_le (Int.natCast_nonneg reg.len.toNat)
    rw [toNat_ofInt] at capped
    omega

theorem writeWords_raw (reg : Ioreg) (env : IoEnv) (fcount : ℕ) {fpos : ℤ}
    (nonnegative : 0 ≤ fpos) :
    writeWords reg 1 env fcount fpos = 0 ∨
      fpos + 2 * (writeWords reg 1 env fcount fpos : ℕ) ≤ reg.len.toNat := by
  rw [writeWords]
  split
  · exact Or.inl rfl
  · have bound := rawCount_bound reg fcount nonnegative (by omega)
    rw [if_pos rfl]
    split
    · exact Or.inl rfl
    · omega

/-! ## Sessions -/

section Session

variable {β : Type} (bus : Bus β) (map : FpgaMap) (reg : Ioreg)

/-- What keeps a call in the register.  Calls in raw mode need nothing.  A read
in text mode fetches two bytes for every four characters it has room for,
starting at the position; these have to end in the register.  A write in text
mode needs a register of four bytes. -/
def OpConfined (s : Session β) : Op → Prop
  | .read count env =>
      ∀ fcount, rwVerifyArea count s.fpos = some fcount → Reaches reg env → s.ioregMode = 0 →
        textChars reg fcount s.fpos < 4 ∨
          s.fpos + 2 * (textChars reg fcount s.fpos / 4 : ℕ) ≤ reg.len.toNat
  | .write count env =>
      ∀ fcount, rwVerifyArea count s.fpos = some fcount → Reaches reg env → s.ioregMode ≠ 1 →
        reg.len ≠ 0 → TextAccepted env fcount s.fpos → 4 ≤ reg.len.toNat
  | .lseek _ _ => True
  | .mode _ => True

theorem nonneg_of_rwVerifyArea {count fcount : ℕ} {fpos : ℤ}
    (accepted : rwVerifyArea count fpos = some fcount) : 0 ≤ fpos := by
  unfold rwVerifyArea at accepted
  split at accepted
  · contradiction
  · split at accepted
    · contradiction
    · omega

theorem eq_min_of_rwVerifyArea {count fcount : ℕ} {fpos : ℤ}
    (accepted : rwVerifyArea count fpos = some fcount) : fcount = min count MAX_RW_COUNT := by
  unfold rwVerifyArea at accepted
  split at accepted
  · contradiction
  · split at accepted
    · contradiction
    · exact (Option.some.inj accepted).symm

theorem le_of_rwVerifyArea {count fcount : ℕ} {fpos : ℤ}
    (accepted : rwVerifyArea count fpos = some fcount) : fcount ≤ count :=
  (eq_min_of_rwVerifyArea accepted).trans_le (min_le_left _ _)

theorem eq_of_rwVerifyArea {count fcount : ℕ} {fpos : ℤ}
    (accepted : rwVerifyArea count fpos = some fcount) (le : count ≤ MAX_RW_COUNT) :
    fcount = count :=
  (eq_min_of_rwVerifyArea accepted).trans (min_eq_left le)

/-- A request that the VFS has nothing to do with. -/
theorem rwVerifyArea_of_le {count : ℕ} {fpos : ℤ} (nonnegative : 0 ≤ fpos)
    (small : fpos < 2 ^ 32) (le : count ≤ MAX_RW_COUNT) :
    rwVerifyArea count fpos = some count := by
  have size : MAX_RW_COUNT < 2 ^ 31 := by decide
  have total : ¬ (fpos < 0 ∨ toS64 (fpos + count) < 0) := by
    simp only [toS64, wrapSigned]
    omega
  rw [rwVerifyArea, if_neg (by omega), if_neg total, Nat.min_eq_left le]

/-- A call whose accesses stay in the register under a condition. -/
theorem confined_call_iff {before after : List IoEvent} {addrs : List UInt32} {env : IoEnv}
    {allowed : Prop}
    (appended : accesses after = accesses before ++ if Reaches reg env then addrs else [])
    (inside : (∀ addr ∈ addrs, InRegister map reg addr ∧ InRegister map reg (addr + 1)) ↔
      allowed) :
    Confined map reg after ↔ Confined map reg before ∧ (Reaches reg env → allowed) := by
  simp only [Confined, appended, List.forall_mem_append]
  by_cases reaches : Reaches reg env
  · rw [if_pos reaches, inside]
    simp only [reaches, true_implies]
  · simp [reaches]

/-- A read keeps to the register exactly if it does so in text mode. -/
theorem read_confined_iff (mode : ℤ) (fcount : ℕ) {fpos : ℤ} (nonnegative : 0 ≤ fpos) :
    (∀ addr ∈ wordAddrs (getMappedLocation map reg.loc + UInt32.ofInt fpos)
        (readWords reg mode fcount fpos),
      InRegister map reg addr ∧ InRegister map reg (addr + 1)) ↔
      (mode = 0 → textChars reg fcount fpos < 4 ∨
        fpos + 2 * (textChars reg fcount fpos / 4 : ℕ) ≤ reg.len.toNat) := by
  by_cases text : mode = 0
  · subst text
    rw [readWords_text, wordAddrs_confined_iff map reg nonnegative (textChars_bound reg _ _)]
    simp only [true_implies, Nat.div_eq_zero_iff]
    omega
  · have bound := readWords_raw reg text fcount fpos
    have := reg.len.toNat_lt
    rw [wordAddrs_confined_iff map reg nonnegative (by omega)]
    exact iff_of_true bound (fun zero => absurd zero text)

theorem write_confined_iff (mode : ℤ) (env : IoEnv) (fcount : ℕ) {fpos : ℤ}
    (nonnegative : 0 ≤ fpos) :
    (∀ addr ∈ wordAddrs (getMappedLocation map reg.loc + UInt32.ofInt fpos)
        (writeWords reg mode env fcount fpos),
      InRegister map reg addr ∧ InRegister map reg (addr + 1)) ↔
      (mode ≠ 1 → reg.len ≠ 0 → TextAccepted env fcount fpos → 4 ≤ reg.len.toNat) := by
  have empty : reg.len = 0 ↔ reg.len.toNat = 0 := UInt32.toNat_inj.symm
  by_cases raw : mode = 1
  · subst raw
    have bound := writeWords_raw reg env fcount nonnegative
    have := reg.len.toNat_lt
    rw [wordAddrs_confined_iff map reg nonnegative (by omega)]
    exact iff_of_true bound (fun text => absurd rfl text)
  by_cases beyond : (reg.len.toNat : ℤ) ≤ fpos
  · rw [writeWords, if_pos beyond]
    apply iff_of_true (fun addr mem => absurd mem List.not_mem_nil)
    intro _ nonempty accepted
    have start := accepted.1
    exact absurd (empty.mpr (by omega)) nonempty
  · rw [writeWords, if_neg beyond, if_neg raw]
    by_cases accepted : TextAccepted env fcount fpos
    · have start := accepted.1
      rw [if_pos accepted, wordAddrs_confined_iff map reg nonnegative (by omega)]
      have nonempty : reg.len ≠ 0 := by
        rw [ne_eq, empty]
        omega
      simp only [raw, nonempty, accepted, ne_eq, not_false_eq_true, true_implies]
      omega
    · rw [if_neg accepted]
      exact iff_of_true (fun addr mem => absurd mem List.not_mem_nil)
        (fun _ _ text => absurd text accepted)

/-- One call keeps the accesses in the register exactly if it meets the guard. -/
theorem next_confined_iff (s : Session β) (op : Op) :
    Confined map reg (s.next bus map reg op).io.trace ↔
      Confined map reg s.io.trace ∧ OpConfined reg s op := by
  cases op with
  | read count env =>
      cases accepted : rwVerifyArea count s.fpos with
      | none => simp [Session.next, OpConfined, accepted]
      | some fcount =>
          have nonnegative := nonneg_of_rwVerifyArea accepted
          simp only [Session.next, OpConfined, accepted, Option.some.injEq, forall_eq']
          exact confined_call_iff map reg
            (ioregRegRead_accesses bus map reg s.ioregMode env fcount s.fpos s.io)
            (read_confined_iff map reg s.ioregMode fcount nonnegative)
  | write count env =>
      cases accepted : rwVerifyArea count s.fpos with
      | none => simp [Session.next, OpConfined, accepted]
      | some fcount =>
          have nonnegative := nonneg_of_rwVerifyArea accepted
          simp only [Session.next, OpConfined, accepted, Option.some.injEq, forall_eq']
          exact confined_call_iff map reg
            (ioregRegWrite_accesses bus map reg s.ioregMode env fcount s.fpos s.io)
            (write_confined_iff map reg s.ioregMode env fcount nonnegative)
  | lseek off whence => simp [Session.next, OpConfined]
  | mode c => simp [Session.next, OpConfined]

/-- From the opening of a register file on, whatever the register, the mode, the
device and the calls, every access falls into the register exactly if every
call meets the guard. -/
theorem session_confined_iff (mode : ℤ) (device : β) (ops : List Op) :
    Always (fun s op => some (Session.next bus map reg s op))
        (fun s => Confined map reg s.io.trace) ⟨0, mode, ⟨device, []⟩⟩ ops ↔
      Along (fun s op => some (Session.next bus map reg s op)) (OpConfined reg)
        ⟨0, mode, ⟨device, []⟩⟩ ops := by
  apply always_iff_along (fun s : Session β => Confined map reg s.io.trace)
  · intro s confined
    exact confined
  · intro s op next confined guarded taken
    cases taken
    exact (next_confined_iff bus map reg s op).mpr ⟨confined, guarded⟩
  · intro s op next confined unguarded taken after
    cases taken
    exact unguarded ((next_confined_iff bus map reg s op).mp after).2
  · intro addr mem
    exact absurd mem List.not_mem_nil
  · exact run_total _ _ _

end Session

/-- A map of the three windows. -/
def sampleMap : FpgaMap where
  cs0Virtual := 0xD0000000
  cs1Virtual := 0xE0000000
  cs2Virtual := 0xF0000000
  kernel := by
    intro virtual mem
    simp only [List.mem_cons, List.not_mem_nil, or_false] at mem
    rcases mem with rfl | rfl | rfl <;> decide
  guarded := by
    intro virtual mem other otherMem
    simp only [List.mem_cons, List.not_mem_nil, or_false] at mem otherMem
    rcases mem with rfl | rfl | rfl <;> rcases otherMem with rfl | rfl | rfl <;> decide

/-- A bus on which nothing answers. -/
def idleBus : Bus Unit where
  readw := fun _ device => (0, device)
  writew := fun _ _ device => device

/-- The register `reg_led` of `gpmc_test_top.sym`: two bytes. -/
def regLed : Ioreg where
  strtab := []
  name := 0
  mode := 3
  loc := 0x08800000
  len := 2
  hwraddr := ⟨0, 0⟩

/-- A call that finds everything, with the digit 1 in the memory of the user. -/
def writesOne : IoEnv where
  task := true
  info := true
  hwrops := .complete
  iobuf := true
  user := fun _ => 49
  fault := false
  stack := fun _ => 0

/-- Writing `1` in text mode to the register of two bytes stores two bytes behind
it as well. -/
theorem text_write_leaves_reg_led :
    ¬ Always (fun s op => some (Session.next idleBus sampleMap regLed s op))
      (fun s => Confined sampleMap regLed s.io.trace) ⟨0, 0, ⟨(), []⟩⟩ [.write 1 writesOne] := by
  intro always
  have confined := Always.head _ (always.2 _ rfl)
  exact absurd confined (by decide +kernel)

end Rhino.Ioreg
