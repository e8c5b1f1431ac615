import Rhino.Bof.Format
import Rhino.Kernel.File

/-!
# Configuring the FPGA

`rhino_configure` of `kernel/hwr/hwrtype_rhino.c` reads the bitstream page by
page and hands every page to `spi_async`.  The callback of a message,
`spi_transfer_completed`, runs later, in the order of submission that the SPI
core promises for one device, and at any point between two actions of the
sending loop.

A schedule says who moves next.  One move of the sender is one turn of its
loop: the callbacks share with it only `config_transfer_parts`, which a turn
touches once, and the completion, which it touches only after the loop.  So a
callback that runs inside a turn has the effect of one that runs before or
after it.
-/

namespace Rhino.Hwr.Configure

open Rhino.Bof Rhino.Bytes Rhino.Kernel

def PAGE_SIZE : ℕ := 4096

def CFG_INITB_WAIT : ℕ := 4000000

def CFG_DONE_WAIT : ℕ := 100000

/-- What one call of `rhino_configure` meets: whether the SPI device has been
probed and the mutex acquired, the levels of the pins at every sample, the
outcome of every `kernel_read`, the completion status of every SPI message, and
what an earlier call has left in the completion. -/
structure ConfigEnv where
  spiDevice : Bool
  interrupted : Bool
  readyInitB : ℕ → Bool
  readIo : ℕ → ReadIo
  status : ℕ → ℤ
  crcInitB : Bool
  done : ℕ → Bool
  staleDone : ℕ

/-- `struct config_transfer_part` with the data of its page. -/
structure Part where
  number : ℕ
  data : List UInt8
  last : Bool
  deriving DecidableEq, Repr

/-- Where the sender is. -/
inductive Pc where
  | sending
  | waiting
  | crcCheck
  | startup
  | returned (retval : ℤ)
  deriving DecidableEq, Repr

/-- The variables of the sender, `config_transfer_parts`, the messages that the
SPI core holds, those whose callback has run with their status, and the count
of `configuration_data_sent`. -/
structure Transfer where
  pc : Pc
  offset : UInt32
  len : UInt32
  retval : ℤ
  number : ℕ
  parts : ℤ
  inflight : List Part
  completed : List (Part × ℤ)
  done : ℕ

/-- Who moves next. -/
inductive Move where
  | sender
  | callback
  deriving DecidableEq, Repr

/-! ## The sending loop -/

/-- The `kernel_read` of part `number`, at the current offset. -/
def readPart (file : File) (env : ConfigEnv) (number : ℕ) (offset len : UInt32) :
    ℤ × List UInt8 :=
  kernelRead file (env.readIo number) offset.toNat (min PAGE_SIZE len.toNat)

/-- One turn of the sending loop, from the test of `len` to `spi_async`.  The
byte count is left in `retval`, also when the turn ends at the failure that a
callback has reported through `config_transfer_parts`. -/
def sendPart (file : File) (env : ConfigEnv) (t : Transfer) : Transfer :=
  if t.len = 0 then
    { t with pc := .waiting }
  else
    let number := t.number + 1
    let (retval, data) := readPart file env number t.offset t.len
    if retval < 0 then
      { t with pc := .returned retval, retval := retval, number := number }
    else
      let count := UInt32.ofNat data.length
      let sent := { t with
        retval := retval
        number := number
        len := t.len - count
        offset := t.offset + count
        parts := t.parts + 1 }
      if t.parts + 1 = 0 then
        { sent with pc := .returned retval }
      else
        { sent with inflight := t.inflight ++ [⟨number, data, data.length < PAGE_SIZE⟩] }

/-- `wait_for_completion`: the sender goes on only if the count is positive. -/
def waitForCompletion (t : Transfer) : Transfer :=
  if t.done = 0 then t else { t with pc := .crcCheck, done := t.done - 1 }

/-- The CRC check. -/
def crcCheck (env : ConfigEnv) (t : Transfer) : Transfer :=
  if env.crcInitB then { t with pc := .startup } else { t with pc := .returned t.retval }

/-- The loop over DONE: both branches of its body leave it, so the bound
`CFG_DONE_WAIT` is never used up. -/
def pollDone (samples : ℕ → Bool) (i : ℕ) : ℕ → Bool
  | 0 => true
  | _ + 1 => if samples i then true else false

/-- The startup sequence. -/
def startup (env : ConfigEnv) (t : Transfer) : Transfer :=
  if pollDone env.done 0 (CFG_DONE_WAIT + 1) then { t with pc := .returned 0, retval := 0 }
  else { t with pc := .returned t.retval }

/-- One move of the sender. -/
def senderMove (file : File) (env : ConfigEnv) (t : Transfer) : Transfer :=
  match t.pc with
  | .sending => sendPart file env t
  | .waiting => waitForCompletion t
  | .crcCheck => crcCheck env t
  | .startup => startup env t
  | .returned _ => t

/-! ## The callback -/

/-- `spi_transfer_completed` for the message at the head of the queue. -/
def spiTransferCompleted (env : ConfigEnv) (t : Transfer) : Transfer :=
  match t.inflight with
  | [] => t
  | part :: rest =>
      let status := env.status part.number
      { t with
        inflight := rest
        completed := t.completed ++ [(part, status)]
        parts := if status = 0 then t.parts - 1 else -1
        done := if part.last ∨ status ≠ 0 then t.done + 1 else t.done }

/-- One move of a schedule. -/
def move (file : File) (env : ConfigEnv) (t : Transfer) : Move → Transfer
  | .sender => senderMove file env t
  | .callback => spiTransferCompleted env t

/-! ## The whole call -/

/-- The loop that waits for INIT_B to go high; it fails when the last of its
samples is low too. -/
def pollInitB (samples : ℕ → Bool) (i : ℕ) : ℕ → Bool
  | 0 => false
  | left + 1 => if samples i then true else pollInitB samples (i + 1) left

/-- The call gets past its checks and takes the mutex. -/
def entered (addr : HwrAddr) (env : ConfigEnv) : Bool :=
  addr.addr = 0 && env.spiDevice && !env.interrupted

/-- The call also sees INIT_B high and starts to send.  The loop that first
waits for INIT_B to go low only prints a warning. -/
def started (addr : HwrAddr) (env : ConfigEnv) : Bool :=
  entered addr env && pollInitB env.readyInitB 0 (CFG_INITB_WAIT + 1)

/-- The state in which the sending loop is entered. -/
def Transfer.start (env : ConfigEnv) (offset len : UInt32) : Transfer where
  pc := .sending
  offset := offset
  len := len
  retval := -eio
  number := 0
  parts := 0
  inflight := []
  completed := []
  done := env.staleDone

/-- The value that a call in this state has returned, if it has. -/
def Pc.result : Pc → Option ℤ
  | .returned retval => some retval
  | _ => none

theorem Pc.result_eq_some_iff {pc : Pc} {retval : ℤ} :
    pc.result = some retval ↔ pc = .returned retval := by
  cases pc <;> simp [Pc.result]

/-- `rhino_configure` under a schedule, when the SPI core holds no message of an
earlier call: the value it returns, if it does, and the state of the transfer. -/
def rhinoConfigure (addr : HwrAddr) (file : File) (offset len : UInt32) (env : ConfigEnv)
    (schedule : List Move) : Option ℤ × Transfer :=
  let start := Transfer.start env offset len
  if started addr env then
    let t := schedule.foldl (move file env) start
    (t.pc.result, t)
  else
    (some (-eio), start)

/-- Every part of the payload has been submitted and has completed with
status 0.  A part that has been read but not submitted is counted in `number`. -/
def Transfer.AllTransferred (t : Transfer) : Prop :=
  t.len = 0 ∧ t.inflight = [] ∧ t.completed.length = t.number ∧
    ∀ entry ∈ t.completed, entry.2 = 0

/-- The bytes that the FPGA has received. -/
def Transfer.received (t : Transfer) : List UInt8 :=
  ((t.completed.filter fun entry => entry.2 = 0).map fun entry => entry.1.data).flatten

/-! ## A call behind messages of earlier ones -/

/-- `spi_transfer_completed` for a message of an earlier call, which shares the
counter and the completion with the current one. -/
def Transfer.strayCompleted (part : Part) (status : ℤ) (t : Transfer) : Transfer :=
  { t with
    parts := if status = 0 then t.parts - 1 else -1
    done := if part.last ∨ status ≠ 0 then t.done + 1 else t.done }

/-- A transfer, and the messages of earlier calls that the SPI core still holds,
each with the status that it will complete with. -/
structure Behind where
  t : Transfer
  backlog : List (Part × ℤ)

/-- The SPI core completes the messages in the order in which it got them. -/
def Behind.callback (env : ConfigEnv) (b : Behind) : Behind :=
  match b.backlog with
  | [] => { b with t := spiTransferCompleted env b.t }
  | (part, status) :: rest => ⟨b.t.strayCompleted part status, rest⟩

/-- One move of a schedule. -/
def Behind.move (file : File) (env : ConfigEnv) (b : Behind) : Move → Behind
  | .sender => { b with t := senderMove file env b.t }
  | .callback => b.callback env

/-- `rhino_configure` under a schedule, with messages of earlier calls still in
flight.  A call that has been left early leaves them behind. -/
def rhinoConfigureBehind (backlog : List (Part × ℤ)) (addr : HwrAddr) (file : File)
    (offset len : UInt32) (env : ConfigEnv) (schedule : List Move) : Option ℤ × Transfer :=
  let start := Transfer.start env offset len
  if started addr env then
    let b := schedule.foldl (Behind.move file env) ⟨start, backlog⟩
    (b.t.pc.result, b.t)
  else
    (some (-eio), start)

theorem foldl_behind_nil (file : File) (env : ConfigEnv) (t : Transfer)
    (schedule : List Move) :
    schedule.foldl (Behind.move file env) ⟨t, []⟩ = ⟨schedule.foldl (move file env) t, []⟩ := by
  induction schedule generalizing t with
  | nil => rfl
  | cons who rest ih =>
      rw [List.foldl_cons, List.foldl_cons, ← ih]
      cases who <;> rfl

@[simp]
theorem rhinoConfigureBehind_nil (addr : HwrAddr) (file : File) (offset len : UInt32)
    (env : ConfigEnv) (schedule : List Move) :
    rhinoConfigureBehind [] addr file offset len env schedule =
      rhinoConfigure addr file offset len env schedule := by
  simp only [rhinoConfigureBehind, rhinoConfigure, foldl_behind_nil]

/-- A call that does not get started returns an error at once. -/
theorem rhinoConfigureBehind_of_not_started {backlog : List (Part × ℤ)} {addr : HwrAddr}
    {file : File} {offset len : UInt32} {env : ConfigEnv} {schedule : List Move}
    (idle : ¬ started addr env = true) :
    (rhinoConfigureBehind backlog addr file offset len env schedule).1 = some (-eio) := by
  simp only [rhinoConfigureBehind, if_neg idle]

end Rhino.Hwr.Configure
