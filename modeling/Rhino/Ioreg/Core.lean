import Rhino.Ioreg.Bus

/-!
# Register files

The file operations of `/proc/<pid>/hw/ioreg/*` in `fs/proc/proc_borph.c`, under
the checks of `fs/read_write.c`.  With `ioreg_mode` 0 a register is read as
text, with any other mode as raw bytes; it is written as raw bytes with mode 1
and as text with any other.

The kernel is a 32-bit one: `size_t` and `ssize_t` have 32 bits, `loff_t` has 64.
A count that gets past `rw_verify_area` is below 2^31 and a position is not
negative, so that conversions of these are written only where they can change a
value.
-/

namespace Rhino.Ioreg

open Rhino.Bof Rhino.Bytes Rhino.Kernel Rhino.Loader

/-- Conversion to a signed type of the given width. -/
def wrapSigned (bits : ℕ) (value : ℤ) : ℤ :=
  let low := value % 2 ^ bits
  if low < 2 ^ (bits - 1) then low else low - 2 ^ bits

/-- Conversion to `int` or `ssize_t`. -/
def toS32 (value : ℤ) : ℤ :=
  wrapSigned 32 value

/-- Conversion to `loff_t`. -/
def toS64 (value : ℤ) : ℤ :=
  wrapSigned 64 value

def PAGE_SIZE : ℕ := 4096

/-- `offsetof(struct hwr_iobuf, data)`. -/
def DATA_OFFSET : ℕ := 12

/-- The size that `rhino_get_iobuf` gives the buffer. -/
def IOBUF_SIZE : ℕ := PAGE_SIZE - 12

def NUMTMPBUF : ℕ := 12

/-- What `get_hwrops` finds: nothing, operations of which one that the I/O needs
is missing, or all of them. -/
inductive Hwrops where
  | absent
  | incomplete
  | complete
  deriving DecidableEq, Repr

/-- What one call meets: whether the task and its `borph_info` are there, what
`get_hwrops` finds, whether the semaphore of the buffer is acquired, the memory
behind the user's pointer, whether copying from it faults, and what is on the
stack. -/
structure IoEnv where
  task : Bool
  info : Bool
  hwrops : Hwrops
  iobuf : Bool
  user : ℕ → UInt8
  fault : Bool
  stack : ℕ → UInt8

/-- The end of a call: the value it returns, the position it leaves, and the
bytes it has copied to the user. -/
structure Call (β : Type) where
  retval : ℤ
  fpos : ℤ
  copied : List UInt8
  io : IoState β

/-- Add events to the trace. -/
def IoState.log {β : Type} (s : IoState β) (events : List IoEvent) : IoState β :=
  { s with trace := s.trace ++ events }

/-- A call that returns before it has copied anything or moved the position. -/
def Call.leave {β : Type} (s : IoState β) (fpos : ℤ) (events : List IoEvent) (retval : ℤ) :
    Call β :=
  ⟨retval, fpos, [], s.log events⟩

/-! ## Text -/

/-- The digit loop of `to_ascii`, from the last digit on. -/
def hexDigits (value : ℕ) : ℕ → List UInt8
  | 0 => []
  | digits + 1 =>
      let m := value % 16
      hexDigits (value / 16) digits ++ [UInt8.ofNat (if 10 ≤ m then 65 - 10 + m else 48 + m)]

/-- `to_ascii`: a word of four bytes becomes eight digits and a newline. -/
def toAscii (data : List UInt8) (length : ℤ) : Option (List UInt8) :=
  if length ≠ 4 then none
  else some (hexDigits (u32At data 0).toNat 8 ++ [10])

/-- The value that a digit adds in the hexadecimal loop of `convert_input`.  The
letters count from zero like the digits. -/
def hexValue (c : UInt8) : ℤ :=
  if 97 ≤ c ∧ c ≤ 102 then c.toNat - 97
  else if 65 ≤ c ∧ c ≤ 70 then c.toNat - 65
  else if 48 ≤ c ∧ c ≤ 57 then c.toNat - 48
  else 0

/-- The loop of `convert_input` for hexadecimal input. -/
def convertHex (text : ℕ → UInt8) : ℕ → ℕ → ℤ → ℤ
  | 0, _, num => num
  | cnt + 1, i, num =>
      let c := text i
      convertHex text cnt (i + 1)
        (if c ≠ 10 then toS32 (toS32 (num * 16) + hexValue c) else num)

/-- The loop for binary input; another character than a digit is an error. -/
def convertBin (text : ℕ → UInt8) : ℕ → ℕ → ℤ → ℤ
  | 0, _, num => num
  | cnt + 1, i, num =>
      let c := text i
      if c ≠ 10 then
        if 48 ≤ c ∧ c ≤ 49 then
          convertBin text cnt (i + 1) (toS32 (toS32 (num * 2) + (c.toNat - 48)))
        else -einval
      else convertBin text cnt (i + 1) num

/-- The loop for decimal input. -/
def convertDec (text : ℕ → UInt8) : ℕ → ℕ → ℤ → ℤ
  | 0, _, num => num
  | cnt + 1, i, num =>
      let c := text i
      convertDec text cnt (i + 1)
        (if 48 ≤ c ∧ c ≤ 57 then toS32 (toS32 (num * 10) + (c.toNat - 48)) else num)

/-- `convert_input`.  With a base letter the loops run over `cnt` characters
behind the letter, one more than there are. -/
def convertInput (text : ℕ → UInt8) (cnt : ℕ) : ℤ :=
  if text 0 = 120 then
    if cnt < 2 then -einval else convertHex text cnt 1 0
  else if text 0 = 98 then
    if cnt < 2 then -einval else convertBin text cnt 1 0
  else convertDec text cnt 0 0

/-! ## Reading -/

section Calls

variable {β : Type} (bus : Bus β) (map : FpgaMap)

/-- The length of a register file in characters or bytes, as the `ssize_t`
`regblen`. -/
def regblen (mode : ℤ) (reg : Ioreg) : ℤ :=
  if mode = 0 then toS32 (reg.len <<< 1).toNat else toS32 reg.len.toNat

/-- The count of `ioreg_reg_read` after its caps. -/
def cappedCount (mode : ℤ) (reg : Ioreg) (fcount : ℕ) (fpos : ℤ) : ℕ :=
  let fcount := if regblen mode reg < fpos + fcount then (regblen mode reg - fpos).toNat
    else fcount
  if PAGE_SIZE - DATA_OFFSET < fcount then PAGE_SIZE - DATA_OFFSET else fcount

/-- The part of `ioreg_reg_read` that holds the buffer. -/
def readIobuf (reg : Ioreg) (mode : ℤ) (fcount : ℕ) (fpos : ℤ) (s : IoState β) : Call β :=
  let iobuf : HwrIobuf :=
    { location := reg.loc
      offset := UInt32.ofInt fpos
      size := if mode ≠ 0 then fcount else fcount / 2
      data := [] }
  let (retval, data, s) := rhinoRecvIobuf bus map iobuf (s.log [.getTask, .getHwrops, .down])
  let leave : List IoEvent := [.up, .putHwrops, .putTask]
  if retval < 0 then .leave s fpos leave retval
  else
    match if mode = 0 then toAscii data retval else some data with
    | none => .leave s fpos leave (-einval)
    | some data =>
        { retval := data.length
          fpos := if reg.mode &&& IORM_PIPE ≠ 0 then 0 else fpos + data.length
          copied := data
          io := s.log leave }

/-- `ioreg_reg_read`; `own` says whether `fpos` is the position in the file
itself. -/
def ioregRegRead (reg : Ioreg) (mode : ℤ) (env : IoEnv) (own : Bool) (fcount : ℕ) (fpos : ℤ)
    (s : IoState β) : Call β :=
  if reg.mode &&& IORM_PIPE ≠ 0 ∧ own = false then .leave s fpos [] (-espipe)
  else if env.task = false then .leave s fpos [] 0
  else if env.info = false then .leave s fpos [.getTask, .putTask] 0
  else if regblen mode reg < fpos + fcount ∧ regblen mode reg ≤ fpos then
    .leave s fpos [.getTask, .putTask] 0
  else
    match env.hwrops with
    | .absent => .leave s fpos [.getTask, .putTask] 0
    | .incomplete => .leave s fpos [.getTask, .getHwrops, .putHwrops, .putTask] 0
    | .complete =>
        if env.iobuf = false then
          .leave s fpos [.getTask, .getHwrops, .putHwrops, .putTask] 0
        else readIobuf bus map reg mode (cappedCount mode reg fcount fpos) fpos s

/-! ## Writing -/

/-- `datacnt` of `ioreg_reg_cp_udata_raw` after its caps.  The comparison with
`PAGE_SIZE` and the one with the size of the buffer are unsigned. -/
def rawCount (reg : Ioreg) (fcount : ℕ) (fpos : ℤ) : ℕ :=
  let lenInByte := toS32 reg.len.toNat
  let datacnt : ℤ := if lenInByte - fpos < fcount then toS32 (lenInByte - fpos) else fcount
  let datacnt := if PAGE_SIZE < (UInt32.ofInt datacnt).toNat then PAGE_SIZE
    else (UInt32.ofInt datacnt).toNat
  if IOBUF_SIZE < datacnt then IOBUF_SIZE else datacnt

/-- `ioreg_reg_cp_udata_raw`: the buffer with the data, if all goes well, and
the events. -/
def ioregRegCpUdataRaw (reg : Ioreg) (env : IoEnv) (fcount : ℕ) (fpos : ℤ) :
    Option (ℕ × List UInt8) × List IoEvent :=
  let datacnt := rawCount reg fcount fpos
  if env.iobuf = false then (none, [])
  else if env.fault then (none, [.down])
  else (some (datacnt, (List.range datacnt).map env.user), [.down])

/-- `ioreg_reg_cp_udata_ascii`. -/
def ioregRegCpUdataAscii (env : IoEnv) (fcount : ℕ) (fpos : ℤ) :
    Option (ℕ × List UInt8) × List IoEvent :=
  if fpos ≠ 0 then (none, [])
  else if NUMTMPBUF < fcount then (none, [])
  else if env.fault then (none, [])
  else
    let tmpbuf := fun i => if i < fcount then env.user i else env.stack i
    let num := convertInput tmpbuf fcount
    if num < 0 then (none, [])
    else if env.iobuf = false then (none, [])
    else if IOBUF_SIZE < fcount then (none, [.down])
    else (some (4, u32Bytes (UInt32.ofInt num)), [.down])

/-- The part of `ioreg_reg_write` that sends the buffer. -/
def writeIobuf (reg : Ioreg) (size : ℕ) (data : List UInt8) (fpos : ℤ) (s : IoState β) :
    Call β :=
  let iobuf : HwrIobuf :=
    { location := reg.loc
      offset := UInt32.ofInt fpos
      size := size
      data := data }
  let (retval, s) := rhinoSendIobuf bus map iobuf s
  let leave : List IoEvent := [.up, .putHwrops, .putTask]
  if retval ≤ 0 then .leave s fpos leave retval
  else
    { retval := retval
      fpos := if reg.mode &&& IORM_PIPE ≠ 0 then 0 else fpos + retval
      copied := []
      io := s.log leave }

/-- `ioreg_reg_write`. -/
def ioregRegWrite (reg : Ioreg) (mode : ℤ) (env : IoEnv) (own : Bool) (fcount : ℕ) (fpos : ℤ)
    (s : IoState β) : Call β :=
  if reg.mode &&& IORM_PIPE ≠ 0 ∧ own = false then .leave s fpos [] (-espipe)
  else if (reg.len.toNat : ℤ) ≤ fpos then .leave s fpos [] fcount
  else if env.task = false then .leave s fpos [] (-einval)
  else if env.info = false then .leave s fpos [.getTask, .putTask] (-einval)
  else
    match env.hwrops with
    | .absent => .leave s fpos [.getTask, .putTask] (-einval)
    | .incomplete => .leave s fpos [.getTask, .getHwrops, .putHwrops, .putTask] (-einval)
    | .complete =>
        let (iobuf, events) :=
          if mode = 1 then ioregRegCpUdataRaw reg env fcount fpos
          else ioregRegCpUdataAscii env fcount fpos
        let s := s.log ([.getTask, .getHwrops] ++ events)
        match iobuf with
        | none => .leave s fpos [.putHwrops, .putTask] (-einval)
        | some (size, data) => writeIobuf bus map reg size data fpos s

/-! ## An open register file -/

/-- The checks and the cap of `rw_verify_area`: the count that reaches the file
operation, if the call is accepted. -/
def rwVerifyArea (count : ℕ) (fpos : ℤ) : Option ℕ :=
  if 2 ^ 31 ≤ count then none
  else if fpos < 0 ∨ toS64 (fpos + count) < 0 then none
  else some (min count MAX_RW_COUNT)

/-- An open register file, the mode of its process, and the world outside. -/
structure Session (β : Type) where
  fpos : ℤ
  ioregMode : ℤ
  io : IoState β

/-- What a user can do: `read`, `write`, `lseek`, and a write to `ioreg_mode`. -/
inductive Op where
  | read (count : ℕ) (env : IoEnv)
  | write (count : ℕ) (env : IoEnv)
  | lseek (off : ℤ) (whence : ℕ)
  | mode (c : UInt8)

/-- `ioreg_reg_lseek`: the new position, if it is accepted. -/
def ioregRegLseek (reg : Ioreg) (off : ℤ) (whence : ℕ) (fpos : ℤ) : Option ℤ :=
  if reg.mode &&& IORM_PIPE ≠ 0 then none
  else
    let newpos :=
      match whence with
      | 0 => some (toS64 off)
      | 1 => some (toS64 (fpos + off))
      | 2 => some (toS64 (reg.len.toNat + off))
      | _ => none
    newpos.filter (0 ≤ ·)

/-- `ioregmode_write` of one character. -/
def ioregmodeWrite (c : UInt8) (mode : ℤ) : ℤ :=
  if c < 48 ∨ 57 < c then mode else c.toNat - 48

/-- One system call.  `sys_read` and `sys_write` hand on a copy of the position
and store it back. -/
def Session.next (reg : Ioreg) (s : Session β) : Op → Session β
  | .read count env =>
      match rwVerifyArea count s.fpos with
      | none => s
      | some fcount =>
          let call := ioregRegRead bus map reg s.ioregMode env false fcount s.fpos s.io
          { s with fpos := call.fpos, io := call.io }
  | .write count env =>
      match rwVerifyArea count s.fpos with
      | none => s
      | some fcount =>
          let call := ioregRegWrite bus map reg s.ioregMode env false fcount s.fpos s.io
          { s with fpos := call.fpos, io := call.io }
  | .lseek off whence => { s with fpos := (ioregRegLseek reg off whence s.fpos).getD s.fpos }
  | .mode c => { s with ioregMode := ioregmodeWrite c s.ioregMode }

end Calls

end Rhino.Ioreg
