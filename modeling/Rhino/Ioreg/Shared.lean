import Rhino.Ioreg.Core
import Rhino.Transition.Section

/-!
# Register calls step by step

`ioreg_reg_read` and `ioreg_reg_write` with the functions that they call, cut
into the steps between which another call can run.  All calls use the one buffer
of `hwrtype_rhino.c`, whose fields are filled in different functions, and every
one of them only because it believes to hold `rhino_mutex`.

The end of a call is `done`, or `kept` if it has left without `put_iobuf`.
-/

namespace Rhino.Ioreg

open Rhino.Bof Rhino.Bytes Rhino.Kernel Rhino.Loader Rhino.Transition

/-- The static `iobuf` in `rhino_page`; `data` is the memory from its field of
this name on. -/
structure RhinoPage where
  location : UInt32
  offset : UInt32
  size : ℕ
  data : ℕ → UInt8

/-- What the calls share: the buffer and the device on the bus. -/
structure Shared (β : Type) where
  page : RhinoPage
  device : β

/-- Which of the two functions is called. -/
inductive Direction where
  | read
  | write
  deriving DecidableEq, Repr

/-- A call with its arguments, the register and the mode of the process, and what
it meets.  Whether it gets the semaphore is not part of this. -/
structure Request where
  direction : Direction
  reg : Ioreg
  mode : ℤ
  env : IoEnv
  own : Bool
  fcount : ℕ
  fpos : ℤ

/-- What a call leaves to its caller. -/
structure Ending where
  retval : ℤ
  fpos : ℤ
  copied : List UInt8
  deriving DecidableEq, Repr

/-- Where a call is, with the variables that are not computed from its arguments
alone. -/
inductive Stage where
  | enter
  | getIobuf
  | initSize
  | readLocation
  | readOffset
  | readSize
  | recv
  | recvWord (i count : ℕ) (src : UInt32)
  | received (retval : ℤ)
  | copyOut (count : ℕ)
  | fill
  | writeSize (size : ℕ)
  | writeOffset
  | writeLocation
  | send
  | sendWord (i count : ℕ) (dst : UInt32)
  | sent (retval : ℤ)
  | putIobuf (ending : Ending)
  | done (ending : Ending)
  | kept (ending : Ending)
  deriving DecidableEq

/-- What a call that has returned has left to its caller. -/
def Stage.ended : Stage → Option Ending
  | .done ending => some ending
  | .kept ending => some ending
  | _ => none

namespace Request

/-- A call that returns without having moved any data. -/
def leave (req : Request) (retval : ℤ) : Ending :=
  ⟨retval, req.fpos, []⟩

/-- The position behind `count` bytes. -/
def advance (req : Request) (count : ℤ) : ℤ :=
  if req.reg.mode &&& IORM_PIPE ≠ 0 then 0 else req.fpos + count

/-- `ioreg_reg_read` up to `get_iobuf`. -/
def readEntry (req : Request) : Stage :=
  if req.reg.mode &&& IORM_PIPE ≠ 0 ∧ req.own = false then .done (req.leave (-espipe))
  else if req.env.task = false then .done (req.leave 0)
  else if req.env.info = false then .done (req.leave 0)
  else if regblen req.mode req.reg < req.fpos + req.fcount ∧
    regblen req.mode req.reg ≤ req.fpos then .done (req.leave 0)
  else
    match req.env.hwrops with
    | .absent => .done (req.leave 0)
    | .incomplete => .done (req.leave 0)
    | .complete => .getIobuf

/-- The number that `ioreg_reg_cp_udata_ascii` makes of the text. -/
def num (req : Request) : ℤ :=
  convertInput (fun i => if i < req.fcount then req.env.user i else req.env.stack i) req.fcount

/-- `ioreg_reg_write` up to `get_iobuf`. -/
def writeEntry (req : Request) : Stage :=
  if req.reg.mode &&& IORM_PIPE ≠ 0 ∧ req.own = false then .done (req.leave (-espipe))
  else if (req.reg.len.toNat : ℤ) ≤ req.fpos then .done (req.leave req.fcount)
  else if req.env.task = false then .done (req.leave (-einval))
  else if req.env.info = false then .done (req.leave (-einval))
  else
    match req.env.hwrops with
    | .absent => .done (req.leave (-einval))
    | .incomplete => .done (req.leave (-einval))
    | .complete =>
        if req.mode = 1 then .getIobuf
        else if req.fpos ≠ 0 then .done (req.leave (-einval))
        else if NUMTMPBUF < req.fcount then .done (req.leave (-einval))
        else if req.env.fault then .done (req.leave (-einval))
        else if req.num < 0 then .done (req.leave (-einval))
        else .getIobuf

/-- The function up to `get_iobuf`. -/
def entry (req : Request) : Stage :=
  match req.direction with
  | .read => req.readEntry
  | .write => req.writeEntry

/-- The end of a call that is interrupted in `get_iobuf`. -/
def refused (req : Request) : Ending :=
  match req.direction with
  | .read => req.leave 0
  | .write => req.leave (-einval)

/-- `datacnt` of `ioreg_reg_cp_udata_raw` before it asks for the buffer. -/
def datacnt (req : Request) : ℕ :=
  let lenInByte := toS32 req.reg.len.toNat
  let datacnt : ℤ :=
    if lenInByte - req.fpos < req.fcount then toS32 (lenInByte - req.fpos) else req.fcount
  if PAGE_SIZE < (UInt32.ofInt datacnt).toNat then PAGE_SIZE else (UInt32.ofInt datacnt).toNat

end Request

section Steps

variable {β : Type} (bus : Bus β) (map : FpgaMap)

/-- `ioreg_reg_cp_udata_raw` and `ioreg_reg_cp_udata_ascii` from `get_iobuf` on.
What a fault leaves in the buffer is not said: the semaphore is kept, so that
nobody looks at it. -/
def Request.fillPage (req : Request) (r : Shared β) : Stage × Shared β :=
  if req.mode = 1 then
    let datacnt := if r.page.size < req.datacnt then r.page.size else req.datacnt
    if r.page.size = 0 then (.kept (req.leave (-einval)), r)
    else if req.env.fault then (.kept (req.leave (-einval)), r)
    else
      (.writeSize datacnt,
        { r with page.data := storeAt r.page.data 0 (loadAt req.env.user 0 datacnt) })
  else if r.page.size < req.fcount then (.kept (req.leave (-einval)), r)
  else
    (.writeSize 4,
      { r with page.data := storeAt r.page.data 0 (u32Bytes (UInt32.ofInt req.num)) })

/-- `to_ascii` in the buffer. -/
def Request.convertPage (req : Request) (retval : ℤ) (r : Shared β) : Stage × Shared β :=
  match toAscii (loadAt r.page.data 0 retval.toNat) retval with
  | none => (.putIobuf (req.leave (-einval)), r)
  | some text => (.copyOut text.length, { r with page.data := storeAt r.page.data 0 text })

/-- The next step of a call. -/
def Request.next (req : Request) : Stage → Act Stage (Shared β)
  | .enter => .inner req.entry
  | .getIobuf => .acquire .initSize (.done req.refused)
  | .initSize => .work fun r =>
      (match req.direction with
        | .read => .readLocation
        | .write => .fill,
        { r with page.size := IOBUF_SIZE })
  | .readLocation => .work fun r => (.readOffset, { r with page.location := req.reg.loc })
  | .readOffset => .work fun r =>
      (.readSize, { r with page.offset := UInt32.ofInt req.fpos })
  | .readSize => .work fun r =>
      let fcount := cappedCount req.mode req.reg req.fcount req.fpos
      (.recv, { r with page.size := if req.mode ≠ 0 then fcount else fcount / 2 })
  | .recv => .work fun r =>
      (.recvWord 0 (r.page.size / 2) (getMappedLocation map r.page.location + r.page.offset), r)
  | .recvWord i count src =>
      if i < count then .work fun r =>
        let (word, device) := bus.readw src r.device
        (.recvWord (i + 1) count (src + 2),
          { page := { r.page with data := storeAt r.page.data (2 * i) (u16Bytes word) }
            device := device })
      else .inner (.received (count * 2))
  | .received retval =>
      if retval < 0 then .inner (.putIobuf (req.leave retval))
      else if req.mode = 0 then .work (req.convertPage retval)
      else .inner (.copyOut retval.toNat)
  | .copyOut count => .work fun r =>
      (.putIobuf ⟨count, req.advance count, loadAt r.page.data 0 count⟩, r)
  | .fill => .work req.fillPage
  | .writeSize size => .work fun r => (.writeOffset, { r with page.size := size })
  | .writeOffset => .work fun r =>
      (.writeLocation, { r with page.offset := UInt32.ofInt req.fpos })
  | .writeLocation => .work fun r => (.send, { r with page.location := req.reg.loc })
  | .send => .work fun r =>
      (.sendWord 0 (r.page.size / 2) (getMappedLocation map r.page.location + r.page.offset), r)
  | .sendWord i count dst =>
      if i < count then .work fun r =>
        (.sendWord (i + 1) count (dst + 2),
          { r with device := bus.writew (u16At (loadAt r.page.data (2 * i) 2) 0) dst r.device })
      else .inner (.sent (count * 2))
  | .sent retval =>
      .inner (.putIobuf (if retval ≤ 0 then req.leave retval else ⟨retval, req.advance retval, []⟩))
  | .putIobuf ending => .release (.done ending)
  | .done _ => .stop
  | .kept _ => .stop

theorem next_of_ended {req : Request} {stage : Stage} {ending : Ending}
    (ended : stage.ended = some ending) :
    req.next bus map stage = (.stop : Act Stage (Shared β)) := by
  unfold Stage.ended at ended
  split at ended
  · rfl
  · rfl
  · contradiction

/-- Where a call is with respect to `rhino_mutex`. -/
def Stage.phase : Stage → Phase
  | .enter => .before
  | .getIobuf => .before
  | .done _ => .after
  | _ => .inside

theorem phase_fillPage (req : Request) (r : Shared β) : (req.fillPage r).1.phase = .inside := by
  unfold Request.fillPage
  split
  · dsimp only
    split
    · rfl
    · split
      · rfl
      · rfl
  · split
    · rfl
    · rfl

theorem phase_convertPage (req : Request) (retval : ℤ) (r : Shared β) :
    (req.convertPage retval r).1.phase = .inside := by
  unfold Request.convertPage
  split
  · rfl
  · rfl

/-- Where a call gets to before `get_iobuf`: it returns, or it has found the
process and its record. -/
inductive Request.Enters (req : Request) : Stage → Prop where
  | returned (ending : Ending) : req.Enters (.done ending)
  | found (task : req.env.task = true) (info : req.env.info = true) : req.Enters .getIobuf

theorem Request.Enters.unless {req : Request} {condition : Prop} [Decidable condition]
    {ending : Ending} {stage : Stage} (otherwise : ¬ condition → req.Enters stage) :
    req.Enters (if condition then .done ending else stage) := by
  split
  · exact .returned _
  · exact otherwise ‹_›

theorem enters_readEntry (req : Request) : req.Enters req.readEntry := by
  unfold Request.readEntry
  refine .unless fun _ => .unless fun task => .unless fun info => .unless fun _ => ?_
  cases req.env.hwrops with
  | absent => exact .returned _
  | incomplete => exact .returned _
  | complete =>
      exact .found (Bool.eq_true_of_not_eq_false task) (Bool.eq_true_of_not_eq_false info)

theorem enters_writeEntry (req : Request) : req.Enters req.writeEntry := by
  unfold Request.writeEntry
  refine .unless fun _ => .unless fun _ => .unless fun task => .unless fun info => ?_
  have found : req.Enters .getIobuf :=
    .found (Bool.eq_true_of_not_eq_false task) (Bool.eq_true_of_not_eq_false info)
  cases req.env.hwrops with
  | absent => exact .returned _
  | incomplete => exact .returned _
  | complete =>
      dsimp only
      split
      · exact found
      · -- Text is converted before the buffer is asked for.
        exact .unless fun _ => .unless fun _ => .unless fun _ => .unless fun _ => found

theorem enters_entry (req : Request) : req.Enters req.entry := by
  unfold Request.entry
  cases req.direction with
  | read => exact enters_readEntry req
  | write => exact enters_writeEntry req

theorem phase_entry (req : Request) :
    req.entry.phase = .before ∨ req.entry.phase = .after := by
  have enters := enters_entry req
  generalize req.entry = stage at enters ⊢
  cases enters with
  | returned ending => exact Or.inr rfl
  | found task info => exact Or.inl rfl

/-- Every step that uses the buffer or the bus lies between `down` and `up`. -/
theorem next_disciplined (req : Request) (stage : Stage) :
    (req.next bus map stage).Disciplined Stage.phase stage := by
  cases stage with
  | enter =>
      rcases phase_entry req with before | after
      · exact Or.inl before
      · exact Or.inr ⟨rfl, after⟩
  | getIobuf => exact ⟨rfl, rfl, rfl⟩
  | initSize =>
      refine ⟨rfl, fun r => ?_⟩
      dsimp only
      split
      · rfl
      · rfl
  | readLocation => exact ⟨rfl, fun _ => rfl⟩
  | readOffset => exact ⟨rfl, fun _ => rfl⟩
  | readSize => exact ⟨rfl, fun _ => rfl⟩
  | recv => exact ⟨rfl, fun _ => rfl⟩
  | recvWord i count src =>
      rw [Request.next]
      split
      · exact ⟨rfl, fun _ => rfl⟩
      · exact Or.inl rfl
  | received retval =>
      rw [Request.next]
      split
      · exact Or.inl rfl
      · split
        · exact ⟨rfl, phase_convertPage req retval⟩
        · exact Or.inl rfl
  | copyOut count => exact ⟨rfl, fun _ => rfl⟩
  | fill => exact ⟨rfl, phase_fillPage req⟩
  | writeSize size => exact ⟨rfl, fun _ => rfl⟩
  | writeOffset => exact ⟨rfl, fun _ => rfl⟩
  | writeLocation => exact ⟨rfl, fun _ => rfl⟩
  | send => exact ⟨rfl, fun _ => rfl⟩
  | sendWord i count dst =>
      rw [Request.next]
      split
      · exact ⟨rfl, fun _ => rfl⟩
      · exact Or.inl rfl
  | sent retval => exact Or.inl rfl
  | putIobuf ending => exact ⟨rfl, rfl⟩
  | done ending => trivial
  | kept ending => trivial

/-- The calls as threads. -/
def ioregProgram {ι : Type} (requests : ι → Request) : Program ι Stage (Shared β) where
  init _ := .enter
  next i := (requests i).next bus map
  phase := Stage.phase
  init_before _ := rfl
  disciplined i := next_disciplined bus map (requests i)

end Steps

end Rhino.Ioreg
