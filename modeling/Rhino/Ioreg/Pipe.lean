import Rhino.Ioreg.Text

/-!
# Pipe registers

A register with `IORM_PIPE` is a stream: reading and writing always start at its
first byte, and access at a position is refused with `-ESPIPE`.  The driver tells
the two apart by the pointer to the position, which for `read` and `write` it
expects to be that of the file.  But `sys_read` and `sys_write` copy the position
and hand on a pointer to the copy, just as `sys_pread64` and `sys_pwrite64` hand
on a pointer to their argument.  So every access to a pipe is refused.
-/

namespace Rhino.Ioreg

open Rhino.Bof Rhino.Kernel Rhino.Loader Rhino.Transition

def eoverflow : ℤ := 75

/-! ## System calls -/

section SystemCalls

variable {β : Type} (bus : Bus β) (map : FpgaMap) (reg : Ioreg)

/-- `vfs_read` of a register file that is open for reading.  `rw_verify_area`
refuses with `-EINVAL`: a sum that `__negative_fpos_check` finds below the
position would need a count of 2^31 or more. -/
def vfsRead (mode : ℤ) (env : IoEnv) (own : Bool) (count : ℕ) (pos : ℤ) (io : IoState β) :
    Call β :=
  match rwVerifyArea count pos with
  | none => .leave io pos [] (-einval)
  | some fcount => ioregRegRead bus map reg mode env own fcount pos io

/-- `vfs_write` of a register file that is open for writing. -/
def vfsWrite (mode : ℤ) (env : IoEnv) (own : Bool) (count : ℕ) (pos : ℤ) (io : IoState β) :
    Call β :=
  match rwVerifyArea count pos with
  | none => .leave io pos [] (-einval)
  | some fcount => ioregRegWrite bus map reg mode env own fcount pos io

/-- `sys_read`, with a copy of the position that is stored back. -/
def sysRead (s : Session β) (count : ℕ) (env : IoEnv) : ℤ × Session β :=
  let call := vfsRead bus map reg s.ioregMode env false count s.fpos s.io
  (call.retval, { s with fpos := call.fpos, io := call.io })

/-- `sys_write`. -/
def sysWrite (s : Session β) (count : ℕ) (env : IoEnv) : ℤ × Session β :=
  let call := vfsWrite bus map reg s.ioregMode env false count s.fpos s.io
  (call.retval, { s with fpos := call.fpos, io := call.io })

/-- `sys_pread64`, which leaves the position of the file alone. -/
def sysPread64 (s : Session β) (count : ℕ) (env : IoEnv) (pos : ℤ) : ℤ × Session β :=
  if pos < 0 then (-einval, s)
  else
    let call := vfsRead bus map reg s.ioregMode env false count pos s.io
    (call.retval, { s with io := call.io })

/-- `sys_pwrite64`. -/
def sysPwrite64 (s : Session β) (count : ℕ) (env : IoEnv) (pos : ℤ) : ℤ × Session β :=
  if pos < 0 then (-einval, s)
  else
    let call := vfsWrite bus map reg s.ioregMode env false count pos s.io
    (call.retval, { s with io := call.io })

/-- `sys_lseek`, which returns an `off_t` of 32 bits. -/
def sysLseek (s : Session β) (off : ℤ) (whence : ℕ) : ℤ × Session β :=
  if 2 < whence then (-einval, s)
  else
    match ioregRegLseek reg off whence s.fpos with
    | none => (if reg.mode &&& IORM_PIPE ≠ 0 then -espipe else -einval, s)
    | some newpos =>
        (if toS32 newpos = newpos then newpos else -eoverflow, { s with fpos := newpos })

theorem sysRead_snd (s : Session β) (count : ℕ) (env : IoEnv) :
    (sysRead bus map reg s count env).2 = Session.next bus map reg s (.read count env) := by
  simp only [sysRead, vfsRead, Session.next]
  cases rwVerifyArea count s.fpos with
  | none => simp [Call.leave, IoState.log]
  | some fcount => rfl

theorem sysWrite_snd (s : Session β) (count : ℕ) (env : IoEnv) :
    (sysWrite bus map reg s count env).2 = Session.next bus map reg s (.write count env) := by
  simp only [sysWrite, vfsWrite, Session.next]
  cases rwVerifyArea count s.fpos with
  | none => simp [Call.leave, IoState.log]
  | some fcount => rfl

theorem ioregRegLseek_of_whence {whence : ℕ} (unknown : 2 < whence) (off fpos : ℤ) :
    ioregRegLseek reg off whence fpos = none := by
  unfold ioregRegLseek
  split
  · rfl
  · split
    · contradiction
    · contradiction
    · contradiction
    · rfl

theorem sysLseek_snd (s : Session β) (off : ℤ) (whence : ℕ) :
    (sysLseek reg s off whence).2 = Session.next bus map reg s (.lseek off whence) := by
  rw [sysLseek, Session.next]
  split
  · rename_i unknown
    rw [ioregRegLseek_of_whence reg unknown]
    rfl
  · cases ioregRegLseek reg off whence s.fpos with
    | none => rfl
    | some newpos => rfl

end SystemCalls

/-! ## Sequential access -/

/-- A `read` or `write` on an open register file. -/
inductive SysCall where
  | read (count : ℕ) (env : IoEnv)
  | write (count : ℕ) (env : IoEnv)

namespace SysCall

def count : SysCall → ℕ
  | read count _ => count
  | write count _ => count

def env : SysCall → IoEnv
  | read _ env => env
  | write _ env => env

/-- The words that the driver moves for the call at the start of a register. -/
def words (reg : Ioreg) (mode : ℤ) (call : SysCall) : ℕ :=
  match rwVerifyArea call.count 0, call with
  | none, _ => 0
  | some fcount, read _ _ => readWords reg mode fcount 0
  | some fcount, write _ env => writeWords reg mode env fcount 0

end SysCall

section Sequential

variable {β : Type} (bus : Bus β) (map : FpgaMap) (reg : Ioreg)

/-- What the call returns, and the file behind it. -/
def SysCall.perform (s : Session β) : SysCall → ℤ × Session β
  | read count env => sysRead bus map reg s count env
  | write count env => sysWrite bus map reg s count env

/-- The call is not taken for a positioned one: it moves its words at offset 0 of
the register, if nothing is missing, and leaves the position at 0. -/
def Sequential (s : Session β) (call : SysCall) : Prop :=
  let done := call.perform bus map reg s
  done.1 ≠ -espipe ∧ done.2.fpos = 0 ∧
    (Served reg true call.env → accesses done.2.io.trace = accesses s.io.trace ++
      wordAddrs (getMappedLocation map reg.loc) (call.words reg s.ioregMode))

/-- Every access at a position is refused with `-ESPIPE` and changes nothing. -/
def PositionedRefused (s : Session β) : Prop :=
  (∀ count env pos, 0 ≤ pos → (rwVerifyArea count pos).isSome = true →
    sysPread64 bus map reg s count env pos = (-espipe, s) ∧
      sysPwrite64 bus map reg s count env pos = (-espipe, s)) ∧
  ∀ off whence, whence ≤ 2 → sysLseek reg s off whence = (-espipe, s)

variable {reg} (pipe : reg.mode &&& IORM_PIPE ≠ 0)

include pipe

/-- A copy of the position is never the position of the file. -/
theorem vfsRead_of_pipe (mode : ℤ) (env : IoEnv) {count fcount : ℕ} {pos : ℤ}
    (accepted : rwVerifyArea count pos = some fcount) (io : IoState β) :
    vfsRead bus map reg mode env false count pos io = .leave io pos [] (-espipe) := by
  rw [vfsRead, accepted]
  exact if_pos ⟨pipe, rfl⟩

theorem vfsWrite_of_pipe (mode : ℤ) (env : IoEnv) {count fcount : ℕ} {pos : ℤ}
    (accepted : rwVerifyArea count pos = some fcount) (io : IoState β) :
    vfsWrite bus map reg mode env false count pos io = .leave io pos [] (-espipe) := by
  rw [vfsWrite, accepted]
  exact if_pos ⟨pipe, rfl⟩

theorem positionedRefused_of_pipe (s : Session β) : PositionedRefused bus map reg s := by
  constructor
  · intro count env pos nonnegative accepted
    rcases Option.isSome_iff_exists.mp accepted with ⟨fcount, accepted⟩
    have same : s.io.log [] = s.io := by simp [IoState.log]
    rw [sysPread64, sysPwrite64, if_neg (not_lt.mpr nonnegative), if_neg (not_lt.mpr nonnegative),
      vfsRead_of_pipe bus map pipe _ _ accepted, vfsWrite_of_pipe bus map pipe _ _ accepted]
    simp [Call.leave, same]
  · intro off whence known
    have none : ioregRegLseek reg off whence s.fpos = none := if_pos pipe
    rw [sysLseek, if_neg (not_lt.mpr known), none, if_pos pipe]

/-- A call on a pipe that gets past the VFS is refused by the driver. -/
theorem perform_of_pipe (s : Session β) (call : SysCall) :
    call.perform bus map reg s =
      (if (rwVerifyArea call.count s.fpos).isSome then -espipe else -einval, s) := by
  have same : s.io.log [] = s.io := by simp [IoState.log]
  cases call with
  | read count env =>
      change sysRead bus map reg s count env =
        (if (rwVerifyArea count s.fpos).isSome then -espipe else -einval, s)
      cases accepted : rwVerifyArea count s.fpos with
      | none => simp [sysRead, vfsRead, accepted, Call.leave, same]
      | some fcount =>
          simp [sysRead, vfsRead_of_pipe bus map pipe _ _ accepted, Call.leave, same]
  | write count env =>
      change sysWrite bus map reg s count env =
        (if (rwVerifyArea count s.fpos).isSome then -espipe else -einval, s)
      cases accepted : rwVerifyArea count s.fpos with
      | none => simp [sysWrite, vfsWrite, accepted, Call.leave, same]
      | some fcount =>
          simp [sysWrite, vfsWrite_of_pipe bus map pipe _ _ accepted, Call.leave, same]

omit pipe in
theorem rwVerifyArea_zero_isSome_iff (count : ℕ) :
    (rwVerifyArea count 0).isSome = true ↔ count < 2 ^ 31 := by
  constructor
  · intro accepted
    by_contra large
    rw [rwVerifyArea, if_pos (not_lt.mp large)] at accepted
    contradiction
  · intro small
    have total : ¬ ((0 : ℤ) < 0 ∨ toS64 (0 + count) < 0) := by
      simp only [toS64, wrapSigned]
      omega
    rw [rwVerifyArea, if_neg (not_le.mpr small), if_neg total]
    rfl

/-- A call on a pipe goes wrong as soon as the VFS accepts it. -/
theorem sequential_iff_of_pipe {s : Session β} (start : s.fpos = 0) (call : SysCall) :
    Sequential bus map reg s call ↔ 2 ^ 31 ≤ call.count := by
  have done := perform_of_pipe bus map pipe s call
  rw [start] at done
  constructor
  · rintro ⟨returned, -⟩
    by_contra small
    rw [done, (rwVerifyArea_zero_isSome_iff call.count).mpr (not_le.mp small), if_pos rfl]
      at returned
    exact returned rfl
  · intro large
    have refused : rwVerifyArea call.count 0 = none := if_pos large
    have none : call.words reg s.ioregMode = 0 := by
      unfold SysCall.words
      rw [refused]
    rw [refused] at done
    simp only [Sequential, done, none]
    exact ⟨by decide, start, fun _ => (List.append_nil _).symm⟩

/-- `read` and `write` on a pipe work, and only positioned access is refused,
exactly if no call gets past the VFS. -/
theorem pipe_sequential_iff {s : Session β} (start : s.fpos = 0) (calls : List SysCall) :
    Along (fun s call => some (call.perform bus map reg s).2) (Sequential bus map reg) s calls ∧
        PositionedRefused bus map reg s ↔
      ∀ call ∈ calls, 2 ^ 31 ≤ call.count := by
  rw [and_iff_left (positionedRefused_of_pipe bus map pipe s)]
  induction calls with
  | nil => simp [Along]
  | cons call rest ih =>
      have kept : (call.perform bus map reg s).2 = s := by
        rw [perform_of_pipe bus map pipe]
      rw [List.forall_mem_cons, Along, sequential_iff_of_pipe bus map pipe start, ← ih]
      apply and_congr_right
      intro _
      simp only [Option.some.injEq, forall_eq', kept]

end Sequential

/-- Before any call, and with a count that the VFS does not let through. -/
theorem pipe_sequential_of_huge_count :
    Along (fun s call => some (SysCall.perform idleBus sampleMap pipeWord s call).2)
        (Sequential idleBus sampleMap pipeWord) ⟨0, 1, ⟨(), []⟩⟩ [.read (2 ^ 31) writesOne] ∧
      PositionedRefused idleBus sampleMap pipeWord ⟨0, 1, ⟨(), []⟩⟩ :=
  (pipe_sequential_iff idleBus sampleMap (by decide : pipeWord.mode &&& IORM_PIPE ≠ 0) rfl
    [.read (2 ^ 31) writesOne]).mpr (by simp [SysCall.count])

/-- An ordinary `read` of a pipe is refused. -/
theorem read_of_pipe_refused :
    Served pipeWord true writesOne ∧
      (sysRead idleBus sampleMap pipeWord ⟨0, 1, ⟨(), []⟩⟩ 4 writesOne).1 = -espipe ∧
      accesses (sysRead idleBus sampleMap pipeWord ⟨0, 1, ⟨(), []⟩⟩ 4 writesOne).2.io.trace = [] :=
  ⟨⟨Or.inr rfl, rfl, rfl, rfl, rfl⟩, by decide, by decide⟩

end Rhino.Ioreg
