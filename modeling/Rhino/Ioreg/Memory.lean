import Rhino.Bytes.AddressSpace
import Rhino.Ioreg.Confinement

/-!
# Registers that are memory

A device on the bus is memory if a 16-bit read finds the two bytes that are
stored at its address, low byte first, and a 16-bit write stores them there.
Over such a device the transfers of `hwrtype_rhino.c` fetch and deposit whole
ranges of bytes.

The second half says what a call of a register file comes to, on any device:
one that does not get through to the buffer leaves everything as it was, and one
that does makes a single transfer.
-/

namespace Rhino.Ioreg

open Rhino.Bof Rhino.Bytes Rhino.Kernel Rhino.Loader

variable {β : Type}

/-- The device holds `cells` and nothing else that matters on the bus. -/
structure Bus.IsMemory (bus : Bus β) (cells : β → UInt32 → UInt8) : Prop where
  readw_fst : ∀ addr device, (bus.readw addr device).1 = u16At (fetch (cells device) addr 2) 0
  readw_snd : ∀ addr device, cells (bus.readw addr device).2 = cells device
  writew : ∀ value addr device,
    cells (bus.writew value addr device) = deposit (cells device) addr (u16Bytes value)

/-- The device that is nothing but its cells. -/
def memoryBus : Bus (UInt32 → UInt8) where
  readw addr cells := (u16At (fetch cells addr 2) 0, cells)
  writew value addr cells := deposit cells addr (u16Bytes value)

theorem memoryBus_isMemory : memoryBus.IsMemory id where
  readw_fst _ _ := rfl
  readw_snd _ _ := rfl
  writew _ _ _ := rfl

/-! ## Stores -/

/-- The bytes that an event stores to. -/
def IoEvent.stored : IoEvent → List UInt32
  | .writew _ addr => [addr, addr + 1]
  | _ => []

/-- The addresses of the bytes that have been written, in order. -/
def stores (trace : List IoEvent) : List UInt32 :=
  trace.flatMap IoEvent.stored

@[simp]
theorem stores_append (first second : List IoEvent) :
    stores (first ++ second) = stores first ++ stores second :=
  List.flatMap_append

/-- Consecutive bytes from `base` on. -/
def byteAddrs (base : UInt32) (count : ℕ) : List UInt32 :=
  (List.range count).map fun k => base + UInt32.ofNat k

theorem byteAddrs_two_mul_succ (base : UInt32) (count : ℕ) :
    byteAddrs base (2 * (count + 1)) = [base, base + 1] ++ byteAddrs (base + 2) (2 * count) := by
  rw [byteAddrs, byteAddrs, Nat.mul_succ, Nat.add_comm (2 * count), List.range_add,
    List.map_append, List.map_map]
  congr 1
  · simp [List.range_succ]
  · apply List.map_congr_left
    intro k _
    rw [Function.comp_apply, UInt32.ofNat_add, ← UInt32.add_assoc]
    rfl

/-! ## Transfers -/

section Transfers

variable {bus : Bus β}

theorem recvWords_stores (count : ℕ) (src : UInt32) (s : IoState β) :
    stores (recvWords bus count src s).2.trace = stores s.trace := by
  induction count generalizing src s with
  | zero => rfl
  | succ count ih =>
      simp only [recvWords, ih, stores_append]
      simp [stores, IoEvent.stored]

theorem sendWords_stores (count : ℕ) (data : List UInt8) (dst : UInt32) (s : IoState β) :
    stores (sendWords bus count data dst s).trace =
      stores s.trace ++ byteAddrs dst (2 * count) := by
  induction count generalizing data dst s with
  | zero => simp [sendWords, byteAddrs]
  | succ count ih =>
      simp only [sendWords, ih, stores_append, byteAddrs_two_mul_succ]
      simp [stores, IoEvent.stored]

variable {cells : β → UInt32 → UInt8} (memory : bus.IsMemory cells)

include memory

/-- Receiving finds the bytes and leaves them. -/
theorem recvWords_of_memory (count : ℕ) (src : UInt32) (s : IoState β) :
    (recvWords bus count src s).1 = fetch (cells s.bus) src (2 * count) ∧
      cells (recvWords bus count src s).2.bus = cells s.bus := by
  induction count generalizing src s with
  | zero => exact ⟨rfl, rfl⟩
  | succ count ih =>
      have word : u16Bytes (bus.readw src s.bus).1 = fetch (cells s.bus) src 2 := by
        rw [memory.readw_fst, u16Bytes_u16At (by simp), slice_whole (by simp)]
      have next := ih (src + 2) ⟨(bus.readw src s.bus).2, s.trace ++ [.readw src]⟩
      simp only [memory.readw_snd] at next
      constructor
      · rw [Nat.mul_succ, Nat.add_comm (2 * count), fetch_add, ← word]
        exact congrArg (u16Bytes (bus.readw src s.bus).1 ++ ·) next.1
      · exact next.2

/-- Sending stores the bytes of the words. -/
theorem sendWords_of_memory (count : ℕ) {data : List UInt8} (dst : UInt32) (s : IoState β)
    (enough : 2 * count ≤ data.length) (small : 2 * count < 2 ^ 32) :
    cells (sendWords bus count data dst s).bus =
      deposit (cells s.bus) dst (data.take (2 * count)) := by
  induction count generalizing data dst s with
  | zero => simp [sendWords]
  | succ count ih =>
      have word : u16Bytes (u16At data 0) = data.take 2 := u16Bytes_u16At (by omega)
      have front : (data.take 2).length = 2 := by
        rw [List.length_take]
        omega
      have parts : data.take (2 * (count + 1)) = data.take 2 ++ (data.drop 2).take (2 * count) := by
        rw [Nat.mul_succ, Nat.add_comm (2 * count), List.take_add]
      have fits : (data.take 2).length + ((data.drop 2).take (2 * count)).length < 2 ^ 32 := by
        rw [front, List.length_take]
        omega
      rw [sendWords, ih (dst + 2) _ (by rw [List.length_drop]; omega) (by omega), memory.writew,
        word, parts, ← deposit_deposit _ _ fits, front]
      rfl

end Transfers

/-! ## What a call comes to -/

/-- The call gets through to the buffer: the register is not a pipe that is
accessed at a position of the caller's, the task, its record and the operations
are there and the semaphore is acquired. -/
structure Served (reg : Ioreg) (own : Bool) (env : IoEnv) : Prop where
  position : reg.mode &&& IORM_PIPE = 0 ∨ own = true
  task : env.task = true
  info : env.info = true
  hwrops : env.hwrops = .complete
  iobuf : env.iobuf = true

theorem Served.not_refused {reg : Ioreg} {own : Bool} {env : IoEnv} (served : Served reg own env) :
    ¬ (reg.mode &&& IORM_PIPE ≠ 0 ∧ own = false) := by
  rintro ⟨pipe, copy⟩
  rcases served.position with stream | file
  · exact pipe stream
  · exact Bool.false_ne_true (copy.symm.trans file)

@[simp]
theorem leave_log (s : IoState β) (first second : List IoEvent) (fpos retval : ℤ) :
    Call.leave (s.log first) fpos second retval = .leave s fpos (first ++ second) retval := by
  simp [Call.leave, IoState.log]

/-- The call has returned with nothing done on the bus, nothing copied and the
position where it was. -/
def Call.Idle (call : Call β) (s : IoState β) (fpos : ℤ) : Prop :=
  ∃ events retval, events.all (·.access.isNone) = true ∧ call = .leave s fpos events retval

theorem leave_idle (s : IoState β) (fpos : ℤ) {events : List IoEvent}
    (silent : events.all (·.access.isNone) = true) (retval : ℤ) :
    (Call.leave s fpos events retval).Idle s fpos :=
  ⟨events, retval, silent, rfl⟩

theorem IoEvent.stored_of_access {event : IoEvent} (none : event.access = none) :
    event.stored = [] := by
  cases event with
  | writew => cases none
  | _ => rfl

namespace Call.Idle

variable {call : Call β} {s : IoState β} {fpos : ℤ} (idle : call.Idle s fpos)

include idle

theorem fpos_eq : call.fpos = fpos := by
  rcases idle with ⟨_, _, _, rfl⟩
  rfl

theorem copied_eq : call.copied = [] := by
  rcases idle with ⟨_, _, _, rfl⟩
  rfl

theorem bus_eq : call.io.bus = s.bus := by
  rcases idle with ⟨_, _, _, rfl⟩
  rfl

theorem stores_eq : stores call.io.trace = stores s.trace := by
  rcases idle with ⟨events, _, silent, rfl⟩
  have none : stores events = [] := by
    rw [stores, List.flatMap_eq_nil_iff]
    intro event mem
    apply IoEvent.stored_of_access
    exact Option.isNone_iff_eq_none.mp (List.all_eq_true.mp silent event mem)
  rw [leave, IoState.log, stores_append, none, List.append_nil]

end Call.Idle

section Calls

variable (bus : Bus β) (map : FpgaMap)

/-! ### Reading -/

/-- The transfer of a raw read. -/
theorem readIobuf_raw (reg : Ioreg) {mode : ℤ} (raw : mode ≠ 0) (fcount : ℕ) (fpos : ℤ)
    (s : IoState β) :
    let r := recvWords bus (fcount / 2) (getMappedLocation map reg.loc + UInt32.ofInt fpos)
      (s.log [.getTask, .getHwrops, .down])
    readIobuf bus map reg mode fcount fpos s =
      { retval := (2 * (fcount / 2) : ℕ)
        fpos := if reg.mode &&& IORM_PIPE ≠ 0 then 0 else fpos + (2 * (fcount / 2) : ℕ)
        copied := r.1
        io := r.2.log [.up, .putHwrops, .putTask] } := by
  intro r
  have length : r.1.length = 2 * (fcount / 2) := recvWords_length _ _ _ _
  have nonnegative : ¬ ((fcount / 2 : ℕ) : ℤ) * 2 < 0 := by omega
  simp only [readIobuf, rhinoRecvIobuf, if_pos raw, if_neg raw, if_neg nonnegative]
  rw [length]

/-- The transfer of a read in text mode, which hands out nothing but whole
registers of four bytes. -/
theorem readIobuf_text (reg : Ioreg) (fcount : ℕ) (fpos : ℤ) (s : IoState β) :
    let r := recvWords bus (fcount / 2 / 2) (getMappedLocation map reg.loc + UInt32.ofInt fpos)
      (s.log [.getTask, .getHwrops, .down])
    readIobuf bus map reg 0 fcount fpos s =
      if fcount / 2 / 2 = 2 then
        { retval := 9
          fpos := if reg.mode &&& IORM_PIPE ≠ 0 then 0 else fpos + 9
          copied := hexDigits (u32At r.1 0).toNat 8 ++ [10]
          io := r.2.log [.up, .putHwrops, .putTask] }
      else .leave r.2 fpos [.up, .putHwrops, .putTask] (-einval) := by
  intro r
  have nonnegative : ¬ ((fcount / 2 / 2 : ℕ) : ℤ) * 2 < 0 := by omega
  simp only [readIobuf, rhinoRecvIobuf, if_neg nonnegative, if_true, ne_eq, not_true, if_false,
    toAscii]
  by_cases word : fcount / 2 / 2 = 2
  · rw [if_neg (by omega), if_pos word]
    rfl
  · rw [if_pos (by omega), if_neg word]

theorem ioregRegRead_of_served {reg : Ioreg} {own : Bool} {env : IoEnv}
    (served : Served reg own env) (mode : ℤ) (fcount : ℕ) (fpos : ℤ) (s : IoState β) :
    ioregRegRead bus map reg mode env own fcount fpos s =
      if regblen mode reg < fpos + fcount ∧ regblen mode reg ≤ fpos then
        .leave s fpos [.getTask, .putTask] 0
      else readIobuf bus map reg mode (cappedCount mode reg fcount fpos) fpos s := by
  simp [ioregRegRead, served.not_refused, served.task, served.info, served.hwrops, served.iobuf]

/-- A read that does not get through leaves everything as it was. -/
theorem ioregRegRead_of_not_served {reg : Ioreg} {own : Bool} {env : IoEnv}
    (blocked : ¬ Served reg own env) (mode : ℤ) (fcount : ℕ) (fpos : ℤ) (s : IoState β) :
    (ioregRegRead bus map reg mode env own fcount fpos s).Idle s fpos ∧
      (ioregRegRead bus map reg mode env own fcount fpos s).retval =
        if reg.mode &&& IORM_PIPE ≠ 0 ∧ own = false then -espipe else 0 := by
  rw [ioregRegRead]
  by_cases pipe : reg.mode &&& IORM_PIPE ≠ 0 ∧ own = false
  · rw [if_pos pipe, if_pos pipe]
    exact ⟨leave_idle s fpos rfl _, rfl⟩
  rw [if_neg pipe, if_neg pipe]
  by_cases task : env.task = false
  · rw [if_pos task]
    exact ⟨leave_idle s fpos rfl _, rfl⟩
  rw [if_neg task]
  by_cases info : env.info = false
  · rw [if_pos info]
    exact ⟨leave_idle s fpos rfl _, rfl⟩
  rw [if_neg info]
  split
  · exact ⟨leave_idle s fpos rfl _, rfl⟩
  · cases hwrops : env.hwrops with
    | absent => exact ⟨leave_idle s fpos rfl _, rfl⟩
    | incomplete => exact ⟨leave_idle s fpos rfl _, rfl⟩
    | complete =>
        by_cases iobuf : env.iobuf = false
        · simp only [if_pos iobuf]
          exact ⟨leave_idle s fpos rfl _, rfl⟩
        · exact absurd ⟨by grind, by grind, by grind, hwrops, by grind⟩ blocked

/-! ### Writing -/

/-- The transfer of a write. -/
theorem writeIobuf_eq (reg : Ioreg) (size : ℕ) (data : List UInt8) (fpos : ℤ) (s : IoState β) :
    writeIobuf bus map reg size data fpos s =
      { retval := (2 * (size / 2) : ℕ)
        fpos := if reg.mode &&& IORM_PIPE ≠ 0 ∧ 2 ≤ size then 0
          else fpos + (2 * (size / 2) : ℕ)
        copied := []
        io := (sendWords bus (size / 2) data (getMappedLocation map reg.loc + UInt32.ofInt fpos)
          s).log [.up, .putHwrops, .putTask] } := by
  have total : ((size / 2 : ℕ) : ℤ) * 2 = (2 * (size / 2) : ℕ) := by omega
  simp only [writeIobuf, rhinoSendIobuf, total]
  by_cases short : size < 2
  · have none : 2 * (size / 2) = 0 := by omega
    rw [none, if_pos (by decide), if_neg (by omega), Call.leave]
    simp
  · rw [if_neg (by omega)]
    simp [Nat.le_of_not_lt short]

/-- A write at the end of the register or behind it is reported as done. -/
theorem ioregRegWrite_of_beyond {reg : Ioreg} {fpos : ℤ} (beyond : (reg.len.toNat : ℤ) ≤ fpos)
    (mode : ℤ) (env : IoEnv) (own : Bool) (fcount : ℕ) (s : IoState β) :
    (ioregRegWrite bus map reg mode env own fcount fpos s).Idle s fpos ∧
      (ioregRegWrite bus map reg mode env own fcount fpos s).retval ≤ fcount := by
  have negative : -espipe ≤ fcount := le_trans (by decide) (Int.natCast_nonneg fcount)
  rw [ioregRegWrite, if_pos beyond]
  split
  · exact ⟨leave_idle s fpos rfl _, negative⟩
  · exact ⟨leave_idle s fpos rfl _, le_refl _⟩

/-- A write that does not get through leaves everything as it was. -/
theorem ioregRegWrite_of_not_served {reg : Ioreg} {own : Bool} {env : IoEnv}
    (blocked : ¬ Served reg own env) {fpos : ℤ} (below : fpos < reg.len.toNat) (mode : ℤ)
    (fcount : ℕ) (s : IoState β) :
    (ioregRegWrite bus map reg mode env own fcount fpos s).Idle s fpos ∧
      (ioregRegWrite bus map reg mode env own fcount fpos s).retval < 0 := by
  have left (events : List IoEvent) (silent : events.all (·.access.isNone) = true) :
      (Call.leave s fpos events (-einval)).Idle s fpos ∧
        (Call.leave s fpos events (-einval)).retval < 0 :=
    ⟨leave_idle s fpos silent _, (by decide : -einval < 0)⟩
  rw [ioregRegWrite]
  by_cases pipe : reg.mode &&& IORM_PIPE ≠ 0 ∧ own = false
  · rw [if_pos pipe]
    exact ⟨leave_idle s fpos rfl _, (by decide : -espipe < 0)⟩
  rw [if_neg pipe, if_neg (not_le.mpr below)]
  by_cases task : env.task = false
  · rw [if_pos task]
    exact left _ rfl
  rw [if_neg task]
  by_cases info : env.info = false
  · rw [if_pos info]
    exact left _ rfl
  rw [if_neg info]
  cases hwrops : env.hwrops with
  | absent => exact left _ rfl
  | incomplete => exact left _ rfl
  | complete =>
      have iobuf : env.iobuf = false := by
        by_contra acquired
        exact blocked ⟨by grind, by grind, by grind, hwrops, by grind⟩
      have copied : (if mode = 1 then ioregRegCpUdataRaw reg env fcount fpos
          else ioregRegCpUdataAscii env fcount fpos) = (none, []) := by
        rw [ioregRegCpUdataRaw, ioregRegCpUdataAscii_eq]
        simp [iobuf]
      simp only [copied, leave_log]
      exact left _ rfl

theorem ioregRegWrite_raw {reg : Ioreg} {own : Bool} {env : IoEnv} (served : Served reg own env)
    {fpos : ℤ} (below : fpos < reg.len.toNat) (fcount : ℕ) (s : IoState β) :
    ioregRegWrite bus map reg 1 env own fcount fpos s =
      if env.fault then
        .leave s fpos [.getTask, .getHwrops, .down, .putHwrops, .putTask] (-einval)
      else writeIobuf bus map reg (rawCount reg fcount fpos)
        ((List.range (rawCount reg fcount fpos)).map env.user) fpos
        (s.log [.getTask, .getHwrops, .down]) := by
  cases fault : env.fault <;>
    simp [ioregRegWrite, served.not_refused, not_le.mpr below, served.task, served.info,
      served.hwrops, served.iobuf, ioregRegCpUdataRaw, fault]

/-- A write that reports bytes has got through. -/
theorem served_of_written {reg : Ioreg} {own : Bool} {env : IoEnv} {fpos : ℤ}
    (below : fpos < reg.len.toNat) {mode : ℤ} {fcount : ℕ} {s : IoState β}
    (written : 0 < (ioregRegWrite bus map reg mode env own fcount fpos s).retval) :
    Served reg own env := by
  by_contra blocked
  exact absurd (ioregRegWrite_of_not_served bus map blocked below mode fcount s).2
    (not_lt.mpr written.le)

/-- A raw write that reports bytes has copied them. -/
theorem copied_of_written {reg : Ioreg} {own : Bool} {env : IoEnv} (served : Served reg own env)
    {fpos : ℤ} (below : fpos < reg.len.toNat) {fcount : ℕ} {s : IoState β}
    (written : 0 < (ioregRegWrite bus map reg 1 env own fcount fpos s).retval) :
    env.fault = false := by
  by_contra fault
  rw [ioregRegWrite_raw bus map served below, if_pos (Bool.eq_true_of_not_eq_false fault)]
    at written
  exact absurd written (by decide : ¬ 0 < -einval)

/-- The number that a write in text mode makes of its input. -/
def IoEnv.number (env : IoEnv) (fcount : ℕ) : ℤ :=
  convertInput (fun i => if i < fcount then env.user i else env.stack i) fcount

theorem ioregRegWrite_text {reg : Ioreg} {own : Bool} {env : IoEnv} (served : Served reg own env)
    {mode : ℤ} (text : mode ≠ 1) {fpos : ℤ} (below : fpos < reg.len.toNat) (fcount : ℕ)
    (s : IoState β) :
    ioregRegWrite bus map reg mode env own fcount fpos s =
      if TextAccepted env fcount fpos then
        writeIobuf bus map reg 4 (u32Bytes (UInt32.ofInt (env.number fcount))) fpos
          (s.log [.getTask, .getHwrops, .down])
      else .leave s fpos [.getTask, .getHwrops, .putHwrops, .putTask] (-einval) := by
  by_cases accepted : TextAccepted env fcount fpos <;>
    simp [ioregRegWrite, served.not_refused, not_le.mpr below, served.task, served.info,
      served.hwrops, served.iobuf, ioregRegCpUdataAscii_eq, text, accepted, IoEnv.number]

end Calls

end Rhino.Ioreg
