import Rhino.Ioreg.Events
import Rhino.Ioreg.Serial

/-!
# The value of rhino_mutex

`down` in `get_iobuf` and `up` in `put_iobuf` are made in different functions.
`ioreg_reg_cp_udata_raw` asks for the buffer before it copies the data from the
user, and returns an error pointer when this faults: the caller cannot see that
there is a buffer to give back.

For one call the value of the semaphore is computed from the trace.  For any
interleaving of calls the question is whether the semaphore can become free
again, which is answered by `Completes.can_release_iff`.
-/

namespace Rhino.Ioreg

open Rhino.Bof Rhino.Bytes Rhino.Kernel Rhino.Loader Rhino.Transition

/-- What an event adds to the value of `rhino_mutex`. -/
def IoEvent.change : IoEvent → ℤ
  | .down => -1
  | .up => 1
  | _ => 0

/-- The value of `rhino_mutex`, which is one at first. -/
def IoState.mutex {β : Type} (s : IoState β) : ℤ :=
  1 + (s.trace.map IoEvent.change).sum

/-! ## One call -/

section Calls

variable {β : Type} (bus : Bus β) (map : FpgaMap)

theorem mutex_eq_weight (s : IoState β) : s.mutex = 1 + s.weight IoEvent.change :=
  rfl

theorem paired_change : Paired IoEvent.change where
  task := rfl
  hwrops := rfl
  buffer := rfl
  readw _ := rfl
  writew _ _ := rfl

theorem ioregRegRead_mutex (reg : Ioreg) (mode : ℤ) (env : IoEnv) (own : Bool) (fcount : ℕ)
    (fpos : ℤ) (s : IoState β) :
    (ioregRegRead bus map reg mode env own fcount fpos s).io.mutex = s.mutex := by
  rw [mutex_eq_weight, mutex_eq_weight, paired_change.ioregRegRead]

/-- Only a write can change the value of the semaphore, and only by a fault while
it has the buffer. -/
theorem ioregRegWrite_mutex_iff (reg : Ioreg) (mode : ℤ) (env : IoEnv) (own : Bool)
    (fcount : ℕ) (fpos : ℤ) (s : IoState β) :
    (ioregRegWrite bus map reg mode env own fcount fpos s).io.mutex = s.mutex ↔
      ¬ (FaultsInBuffer reg mode env own fpos ∧ env.iobuf = true) := by
  rw [mutex_eq_weight, mutex_eq_weight, add_right_inj]
  rcases paired_change.ioregRegWrite bus map reg mode env own fcount fpos s with
    ⟨lost, less⟩ | ⟨safe, same⟩
  · rw [less]
    exact iff_of_false (by simp [IoEvent.change]) (not_not.mpr lost)
  · exact iff_of_true same safe

end Calls

/-! ## Any number of calls -/

/-- The calls that keep the buffer are those that fault while they have it. -/
theorem keeps_iff (req : Request) :
    req.Keeps ↔
      req.direction = .write ∧ FaultsInBuffer req.reg req.mode req.env req.own req.fpos := by
  have payload_iff : req.payload = none ↔ req.mode = 1 ∧ req.env.fault = true := by
    unfold Request.payload
    by_cases raw : req.mode = 1
    · cases fault : req.env.fault <;> simp [raw]
    · simp [raw]
  unfold Request.Keeps
  rw [payload_iff]
  constructor
  · rintro ⟨write, entry, raw, fault⟩
    refine ⟨write, ?_⟩
    rw [Request.entry, write] at entry
    dsimp only at entry
    unfold Request.writeEntry at entry
    by_cases pipe : req.reg.mode &&& IORM_PIPE ≠ 0 ∧ req.own = false
    · rw [if_pos pipe] at entry
      contradiction
    rw [if_neg pipe] at entry
    by_cases past : (req.reg.len.toNat : ℤ) ≤ req.fpos
    · rw [if_pos past] at entry
      contradiction
    rw [if_neg past] at entry
    cases task : req.env.task with
    | false => simp [task] at entry
    | true =>
        cases info : req.env.info with
        | false => simp [task, info] at entry
        | true =>
            cases hwrops : req.env.hwrops with
            | absent => simp [task, info, hwrops] at entry
            | incomplete => simp [task, info, hwrops] at entry
            | complete => exact ⟨pipe, not_le.mp past, task, info, hwrops, raw, fault⟩
  · rintro ⟨write, faults⟩
    refine ⟨write, ?_, faults.raw, faults.fault⟩
    rw [Request.entry, write]
    dsimp only
    rw [Request.writeEntry, if_neg faults.position, if_neg (not_le.mpr faults.below)]
    simp [faults.task, faults.info, faults.hwrops, faults.raw]

/-- Every other call that acquires the semaphore gives it back. -/
theorem phase_callOutcome_iff {β : Type} (bus : Bus β) (map : FpgaMap) {ι : Type}
    (requests : ι → Request) (i : ι) (device : β) :
    (callOutcome bus map requests i false device).1.phase = .after ↔ ¬ (requests i).Keeps := by
  unfold callOutcome Request.last
  by_cases keeps : (requests i).Keeps
  · simp [keeps, Stage.phase]
  · simp [keeps, Stage.phase]

/-- A call of `ioreg_reg_read` leaves the semaphore as it was, and so does a call
of `ioreg_reg_write` unless it faults while it has the buffer.  When any number of
calls are made at the same time, the semaphore can become free again from
wherever they get to, unless one of them has faulted with it or is going to. -/
theorem rhinoMutex_balanced_iff {β : Type} (bus : Bus β) (map : FpgaMap) :
    (∀ reg mode env own fcount fpos s,
      (ioregRegRead bus map reg mode env own fcount fpos s).io.mutex = s.mutex ∧
        ((ioregRegWrite bus map reg mode env own fcount fpos s).io.mutex = s.mutex ↔
          ¬ (FaultsInBuffer reg mode env own fpos ∧ env.iobuf = true))) ∧
      ∀ {ι : Type} [DecidableEq ι] (requests : ι → Request) (page : RhinoPage) (device : β)
        (labels : List (ι × Bool)) (s : Program.State ι Stage (Shared β)),
        run (ioregProgram bus map requests).step
          ((ioregProgram bus map requests).start ⟨page, device⟩) labels = some s →
        ((∃ more t, run (ioregProgram bus map requests).step s more = some t ∧
            t.held = false) ↔
          ∀ i ∈ s.order, ¬ ((requests i).direction = .write ∧
            FaultsInBuffer (requests i).reg (requests i).mode (requests i).env
              (requests i).own (requests i).fpos)) := by
  refine ⟨?_, ?_⟩
  · intro reg mode env own fcount fpos s
    exact ⟨ioregRegRead_mutex bus map reg mode env own fcount fpos s,
      ioregRegWrite_mutex_iff bus map reg mode env own fcount fpos s⟩
  · intro ι _ requests page device labels s ran
    have completes := ioregProgram_completes bus map requests
    simp only [← keeps_iff]
    exact completes.can_release_iff (phase_callOutcome_iff bus map requests) ran

/-- Whoever has the semaphore can give it back: here the write of `writeAndRead`,
right after it has acquired it. -/
theorem rhinoMutex_balanced_writeAndRead :
    ∃ s, run (ioregProgram registerBus sampleMap writeAndRead).step
        ((ioregProgram registerBus sampleMap writeAndRead).start ⟨⟨0, 0, 0, fun _ => 0⟩, 0⟩)
        [(false, false), (false, false)] = some s ∧ s.held = true ∧
      ∃ more t, run (ioregProgram registerBus sampleMap writeAndRead).step s more = some t ∧
        t.held = false := by
  obtain ⟨s, ran, held, order⟩ : ∃ s, run (ioregProgram registerBus sampleMap writeAndRead).step
      ((ioregProgram registerBus sampleMap writeAndRead).start ⟨⟨0, 0, 0, fun _ => 0⟩, 0⟩)
      [(false, false), (false, false)] = some s ∧ s.held = true ∧ s.order = [false] :=
    ⟨_, rfl, rfl, rfl⟩
  refine ⟨s, ran, held, ?_⟩
  apply ((rhinoMutex_balanced_iff registerBus sampleMap).2 writeAndRead _ _ _ s ran).mpr
  rw [order]
  rintro i mem ⟨-, faults⟩
  obtain rfl := List.mem_singleton.mp mem
  exact Bool.false_ne_true faults.fault

/-- A raw write of two bytes to `reg_led` from memory that cannot be read. -/
def faultingWrite : Request :=
  ⟨.write, regLed, 1, { writesOne with fault := true }, false, 2, 0⟩

/-- The write returns an error and the semaphore stays at zero.  No call will ever
acquire it again. -/
theorem faulting_write_keeps_mutex :
    (ioregRegWrite idleBus sampleMap regLed 1 { writesOne with fault := true } false 2 0
      ⟨(), []⟩).io.mutex ≠ IoState.mutex ⟨(), []⟩ ∧
      ∃ s, run (ioregProgram idleBus sampleMap fun _ : Unit => faultingWrite).step
          ((ioregProgram idleBus sampleMap fun _ : Unit => faultingWrite).start
            ⟨⟨0, 0, 0, fun _ => 0⟩, ()⟩) (List.replicate 4 ((), false)) = some s ∧
        s.threads () = .kept ⟨-einval, 0, []⟩ ∧
        ∀ more t, run (ioregProgram idleBus sampleMap fun _ : Unit => faultingWrite).step s more =
          some t → t.held = true := by
  refine ⟨by decide, ?_⟩
  obtain ⟨s, ran, ended, order⟩ :
      ∃ s, run (ioregProgram idleBus sampleMap fun _ : Unit => faultingWrite).step
          ((ioregProgram idleBus sampleMap fun _ : Unit => faultingWrite).start
            ⟨⟨0, 0, 0, fun _ => 0⟩, ()⟩) (List.replicate 4 ((), false)) = some s ∧
        s.threads () = .kept ⟨-einval, 0, []⟩ ∧ s.order = [()] := ⟨_, rfl, rfl, rfl⟩
  refine ⟨s, ran, ended, ?_⟩
  intro more t onward
  have mem : () ∈ s.order := by
    rw [order]
    exact List.mem_singleton_self ()
  apply (Program.inv_of_run (run_append _ ran onward)).held_of_keeps
    (ioregProgram_completes idleBus sampleMap fun _ => faultingWrite)
    (Program.mem_order_of_run mem onward)
  intro seen after
  exact (phase_callOutcome_iff idleBus sampleMap (fun _ => faultingWrite) () seen).mp after
    (by decide)

end Rhino.Ioreg
