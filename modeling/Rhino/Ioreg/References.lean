import Rhino.Ioreg.Directory
import Rhino.Ioreg.Events

/-!
# References to tasks

Every handler under `/proc/<pid>/hw` starts with `get_proc_task`, which takes a
reference to the task if there still is one.  The handlers for registers and for their
directory test the result and give the reference back; `status_write`,
`ioregmode_write` and `proc_tgid_bphhw_readdir` do neither.
-/

namespace Rhino.Ioreg

open Rhino.Bof Rhino.Bytes Rhino.Hwr Rhino.Kernel Rhino.Loader

/-- A `get_proc_task` that returns a task, a `put_task_struct`, or a use of a task that
is `NULL`. -/
inductive TaskEvent where
  | get
  | put
  | null
  deriving DecidableEq, Repr

/-- Every reference is given back, and `NULL` is never used. -/
structure Balanced (events : List TaskEvent) : Prop where
  counts : events.count .put = events.count .get
  safe : .null ∉ events

/-! ## Instantiating entries -/

/-- `pid_revalidate`. -/
def pidRevalidate (alive : Bool) : List TaskEvent :=
  if alive then [.get, .put] else []

/-- What `proc_fill_cache` meets for an entry: whether it is in the cache, whether there
is memory for the dentry and for the inode, and whether the task is still alive. -/
structure Instantiation where
  cached : Bool
  dentry : Bool
  inode : Bool
  alive : Bool

/-- `proc_ioreg_instantiate` and `proc_pident_instantiate`. -/
def instantiate (inst : Instantiation) : List TaskEvent :=
  if inst.inode then pidRevalidate inst.alive else []

/-- `proc_fill_cache`. -/
def procFillCache (inst : Instantiation) : List TaskEvent :=
  if inst.cached then [] else if inst.dentry then instantiate inst else []

/-! ## Handlers that give the reference back -/

/-- The reference to a task is held while something else is done. -/
def holding (events : List TaskEvent) : List TaskEvent :=
  .get :: events ++ [.put]

/-- `proc_ioreg_lookup`, with the references it takes and drops. -/
def lookupTraced (target : Option ProcTask) (name : List UInt8) (inst : Instantiation) :
    Option (List TaskEvent × Except ℤ Ioreg) :=
  match target with
  | none => some ([], .error (-einval))
  | some task =>
      match task.borphInfo with
      | none => some (holding [], .error (-einval))
      | some bi => (lookupIoreg name bi.ioreg).map fun found =>
          (holding (if found.toOption.isSome then instantiate inst else []), found)

/-- The loop of `proc_ioreg_readdir`, with the references it takes and drops. -/
def cacheIoregs (fill : ℕ → List UInt8 → Bool) (inst : ℕ → Instantiation) (pos : ℕ) :
    ℕ → ℕ → List Ioreg → Option (List TaskEvent × ℤ × ℕ)
  | _, fpos, [] => some ([], 1, fpos)
  | i, fpos, reg :: rest =>
      if pos ≤ i then do
        let regnamelen ← strlen reg.strtab reg.name
        if fill i (slice reg.name regnamelen reg.strtab) then
          (cacheIoregs fill inst pos (i + 1) (fpos + 1) rest).map fun later =>
            (procFillCache (inst i) ++ later.1, later.2)
        else
          some (procFillCache (inst i), 0, fpos)
      else
        cacheIoregs fill inst pos (i + 1) fpos rest

/-- What `proc_ioreg_readdir` does with the reference. -/
def readdirHeld (task : ProcTask) (fill : ℕ → List UInt8 → Bool) (inst : ℕ → Instantiation)
    (fpos : ℕ) : Option (List TaskEvent × ℤ × ℕ) :=
  let pos := fpos % 2 ^ 32
  if task.pid = 0 then some ([], -enoent, fpos)
  else if pos = 0 ∧ ¬ fill 0 [46] then some ([], 0, fpos)
  else
    let fpos := if pos = 0 then fpos + 1 else fpos
    if pos ≤ 1 ∧ ¬ fill 1 [46, 46] then some ([], 0, fpos)
    else
      let fpos := if pos ≤ 1 then fpos + 1 else fpos
      match task.borphInfo with
      | none => some ([], 1, fpos)
      | some bi => cacheIoregs fill inst pos 2 fpos bi.ioreg

/-- `proc_ioreg_readdir`, with the references it takes and drops. -/
def readdirTraced (target : Option ProcTask) (fill : ℕ → List UInt8 → Bool)
    (inst : ℕ → Instantiation) (fpos : ℕ) : Option (List TaskEvent × ℤ × ℕ) :=
  match target with
  | none => some ([], -enoent, fpos)
  | some task => (readdirHeld task fill inst fpos).map fun ended => (holding ended.1, ended.2)

/-- The references of `ioreg_reg_read` and `ioreg_reg_write` among their events. -/
def IoEvent.reference : IoEvent → Option TaskEvent
  | .getTask => some .get
  | .putTask => some .put
  | _ => none

/-- What the register file operations find of the task. -/
def IoEnv.ofTarget (env : IoEnv) (target : Option ProcTask) : IoEnv :=
  { env with
    task := target.isSome
    info := (target.bind ProcTask.borphInfo).isSome }

/-! ## Handlers that do not -/

/-- `status_write`. -/
def statusWrite (target : Option ProcTask) (fcount : ℕ) : List TaskEvent × Option ℤ :=
  match target with
  | none => ([.null], none)
  | some task => ([.get], some (if task.borphInfo.isSome then fcount else -einval))

/-- `ioregmode_write`: the value it returns and the mode it leaves.  The user's character
is missing if it cannot be read. -/
def ioregmodeWriteTraced (target : Option ProcTask) (fcount : ℕ) (user : Option UInt8) :
    List TaskEvent × Option (ℤ × Option ℤ) :=
  match target with
  | none => ([.null], none)
  | some task =>
      match task.borphInfo with
      | none => ([.get], some (-einval, none))
      | some bi =>
          if fcount = 0 then ([.get], some (0, some bi.ioregMode))
          else
            match user with
            | none => ([.get], some (-efault, some bi.ioregMode))
            | some c =>
                ([.get], some (if c < 48 ∨ 57 < c then -einval else fcount,
                  some (ioregmodeWrite c bi.ioregMode)))

/-- The loop of `proc_pident_readdir` over the entries from the `i`-th on, of which
`left` are left; the listing has two others in front. -/
def fillEntries (fill : ℕ → Bool) (inst : ℕ → Instantiation) : ℕ → ℕ → List TaskEvent
  | _, 0 => []
  | i, left + 1 =>
      procFillCache (inst i) ++ if fill (i + 2) then fillEntries fill inst (i + 1) left else []

/-- `proc_pident_readdir` for a table of `nents` entries.  It asks for the task once
more. -/
def procPidentReaddir (nents : ℕ) (alive : Bool) (fill : ℕ → Bool) (inst : ℕ → Instantiation)
    (fpos : ℕ) : List TaskEvent :=
  let i := fpos % 2 ^ 32
  if alive = false then []
  else if i = 0 ∧ ¬ fill 0 then holding []
  else if i ≤ 1 ∧ ¬ fill 1 then holding []
  else holding (fillEntries fill inst (i - 2) (nents - (i - 2)))

/-- The number of entries of `bphhw_stuff`. -/
def BPHHW_ENTRIES : ℕ := 4

/-- `proc_tgid_bphhw_readdir`. -/
def procTgidBphhwReaddir (target : Option ProcTask) (alive : Bool) (fill : ℕ → Bool)
    (inst : ℕ → Instantiation) (fpos : ℕ) : List TaskEvent :=
  match target with
  | none => [.null]
  | some task =>
      if task.borphInfo.isSome then .get :: procPidentReaddir BPHHW_ENTRIES alive fill inst fpos
      else [.get]

/-! ## Agreement with the untraced handlers -/

theorem lookupTraced_snd (target : Option ProcTask) (name : List UInt8) (inst : Instantiation) :
    (lookupTraced target name inst).map Prod.snd = procIoregLookup target name := by
  cases target with
  | none => rfl
  | some task =>
      simp only [lookupTraced, procIoregLookup]
      cases task.borphInfo with
      | none => rfl
      | some bi => rw [Option.map_map, Function.comp_def, Option.map_id']

theorem cacheIoregs_snd (fill : ℕ → List UInt8 → Bool) (inst : ℕ → Instantiation)
    (pos i fpos : ℕ) (regs : List Ioreg) :
    (cacheIoregs fill inst pos i fpos regs).map Prod.snd =
      readdirIoregs fill pos i fpos regs := by
  induction regs generalizing i fpos with
  | nil => rfl
  | cons reg rest ih =>
      rw [cacheIoregs, readdirIoregs]
      split
      · cases strlen reg.strtab reg.name with
        | none => rfl
        | some regnamelen =>
            simp only [Option.bind_eq_bind, Option.bind_some]
            split
            · rw [← ih, Option.map_map]
              rfl
            · rfl
      · exact ih (i + 1) fpos

theorem readdirTraced_snd (target : Option ProcTask) (fill : ℕ → List UInt8 → Bool)
    (inst : ℕ → Instantiation) (fpos : ℕ) :
    (readdirTraced target fill inst fpos).map Prod.snd = procIoregReaddir target fill fpos := by
  cases target with
  | none => rfl
  | some task =>
      rw [readdirTraced, Option.map_map]
      change (readdirHeld task fill inst fpos).map Prod.snd = _
      simp only [readdirHeld, procIoregReaddir]
      split
      · rfl
      · split
        · rfl
        · split
          · rfl
          · cases task.borphInfo with
            | none => rfl
            | some bi => exact cacheIoregs_snd fill inst _ _ _ _

/-! ## Balance -/

namespace Balanced

variable {events first second : List TaskEvent}

theorem nil : Balanced [] :=
  ⟨rfl, List.not_mem_nil⟩

theorem append (one : Balanced first) (two : Balanced second) : Balanced (first ++ second) := by
  constructor
  · rw [List.count_append, List.count_append, one.counts, two.counts]
  · rw [List.mem_append, not_or]
    exact ⟨one.safe, two.safe⟩

theorem holding (balanced : Balanced events) : Balanced (holding events) := by
  constructor
  · simp [Ioreg.holding, balanced.counts]
  · simp [Ioreg.holding, balanced.safe]

theorem pidRevalidate (alive : Bool) : Balanced (pidRevalidate alive) := by
  cases alive with
  | false => exact nil
  | true => exact nil.holding

theorem instantiate (inst : Instantiation) : Balanced (instantiate inst) := by
  unfold Ioreg.instantiate
  split
  · exact pidRevalidate inst.alive
  · exact nil

theorem procFillCache (inst : Instantiation) : Balanced (procFillCache inst) := by
  unfold Ioreg.procFillCache
  split
  · exact nil
  · split
    · exact instantiate inst
    · exact nil

theorem fillEntries (fill : ℕ → Bool) (inst : ℕ → Instantiation) (i left : ℕ) :
    Balanced (fillEntries fill inst i left) := by
  induction left generalizing i with
  | zero => exact nil
  | succ left ih =>
      apply (procFillCache (inst i)).append
      split
      · exact ih (i + 1)
      · exact nil

theorem procPidentReaddir (nents : ℕ) (alive : Bool) (fill : ℕ → Bool)
    (inst : ℕ → Instantiation) (fpos : ℕ) :
    Balanced (procPidentReaddir nents alive fill inst fpos) := by
  simp only [Ioreg.procPidentReaddir]
  split
  · exact nil
  · split
    · exact nil.holding
    · split
      · exact nil.holding
      · exact (fillEntries fill inst _ _).holding

theorem lookupTraced {target : Option ProcTask} {name : List UInt8} {inst : Instantiation}
    {ended : List TaskEvent × Except ℤ Ioreg}
    (traced : lookupTraced target name inst = some ended) : Balanced ended.1 := by
  cases target with
  | none =>
      cases traced
      exact nil
  | some task =>
      simp only [Ioreg.lookupTraced] at traced
      cases info : task.borphInfo with
      | none =>
          rw [info] at traced
          cases traced
          exact nil.holding
      | some bi =>
          rw [info] at traced
          rcases Option.map_eq_some_iff.mp traced with ⟨found, -, rfl⟩
          apply holding
          split
          · exact instantiate inst
          · exact nil

theorem cacheIoregs {fill : ℕ → List UInt8 → Bool} {inst : ℕ → Instantiation} {pos i fpos : ℕ}
    {regs : List Ioreg} {ended : List TaskEvent × ℤ × ℕ}
    (traced : cacheIoregs fill inst pos i fpos regs = some ended) : Balanced ended.1 := by
  induction regs generalizing i fpos ended with
  | nil =>
      cases traced
      exact nil
  | cons reg rest ih =>
      rw [Ioreg.cacheIoregs] at traced
      split at traced
      · rcases Option.bind_eq_some_iff.mp traced with ⟨regnamelen, -, listed⟩
        split at listed
        · rcases Option.map_eq_some_iff.mp listed with ⟨later, goesOn, rfl⟩
          exact (procFillCache (inst i)).append (ih goesOn)
        · cases listed
          exact procFillCache (inst i)
      · exact ih traced

theorem readdirTraced {target : Option ProcTask} {fill : ℕ → List UInt8 → Bool}
    {inst : ℕ → Instantiation} {fpos : ℕ} {ended : List TaskEvent × ℤ × ℕ}
    (traced : readdirTraced target fill inst fpos = some ended) : Balanced ended.1 := by
  cases target with
  | none =>
      cases traced
      exact nil
  | some task =>
      rcases Option.map_eq_some_iff.mp traced with ⟨held, done, rfl⟩
      apply holding
      simp only [readdirHeld] at done
      split at done
      · cases done
        exact nil
      · split at done
        · cases done
          exact nil
        · split at done
          · cases done
            exact nil
          · split at done
            · cases done
              exact nil
            · exact cacheIoregs done

end Balanced

/-! ## Register files -/

/-- What an event adds to the number of references. -/
def IoEvent.tasks : IoEvent → ℤ
  | .getTask => 1
  | .putTask => -1
  | _ => 0

theorem paired_tasks : Paired IoEvent.tasks where
  task := rfl
  hwrops := rfl
  buffer := rfl
  readw _ := rfl
  writew _ _ := rfl

theorem count_reference (events : List IoEvent) :
    ((events.filterMap IoEvent.reference).count .get : ℤ) =
      (events.filterMap IoEvent.reference).count .put + (events.map IoEvent.tasks).sum := by
  induction events with
  | nil => rfl
  | cons event rest ih =>
      cases event with
      | getTask =>
          have taken : IoEvent.reference .getTask = some .get := rfl
          have differ : TaskEvent.get ≠ .put := nofun
          rw [List.filterMap_cons_some taken, List.count_cons_self, List.count_cons_of_ne differ,
            List.map_cons, List.sum_cons, Nat.cast_succ, ih, IoEvent.tasks]
          omega
      | putTask =>
          have dropped : IoEvent.reference .putTask = some .put := rfl
          have differ : TaskEvent.put ≠ .get := nofun
          rw [List.filterMap_cons_some dropped, List.count_cons_self, List.count_cons_of_ne differ,
            List.map_cons, List.sum_cons, Nat.cast_succ, ih, IoEvent.tasks]
          omega
      | getHwrops | putHwrops | down | up | readw addr | writew value addr =>
          rw [List.filterMap_cons_none rfl, List.map_cons, List.sum_cons]
          simpa only [IoEvent.tasks, zero_add] using ih

/-- Events that outweigh each other give back what they take. -/
theorem Balanced.of_weight {β : Type} {s : IoState β} (zero : s.weight IoEvent.tasks = 0) :
    Balanced (s.trace.filterMap IoEvent.reference) := by
  rw [IoState.weight] at zero
  have counted := count_reference s.trace
  constructor
  · omega
  · simp only [List.mem_filterMap, not_exists, not_and]
    intro event _
    cases event with
    | getTask | putTask | getHwrops | putHwrops | down | up => simp [IoEvent.reference]
    | readw addr | writew value addr => simp [IoEvent.reference]

/-! ## The seven handlers -/

/-- A call of a handler, with its arguments and what it meets besides the task. -/
inductive Handler where
  | regRead (reg : Option Ioreg) (mode : ℤ) (env : IoEnv) (own : Bool) (fcount : ℕ) (fpos : ℤ)
  | regWrite (reg : Option Ioreg) (mode : ℤ) (env : IoEnv) (own : Bool) (fcount : ℕ) (fpos : ℤ)
  | lookup (name : List UInt8) (inst : Instantiation)
  | readdir (fill : ℕ → List UInt8 → Bool) (inst : ℕ → Instantiation) (fpos : ℕ)
  | statusWrite (fcount : ℕ)
  | ioregmodeWrite (fcount : ℕ) (user : Option UInt8)
  | bphhwReaddir (alive : Bool) (fill : ℕ → Bool) (inst : ℕ → Instantiation) (fpos : ℕ)

section Handlers

variable {β : Type} (bus : Bus β) (map : FpgaMap) (device : β)

/-- The references that a call takes and drops. -/
def Handler.events (target : Option ProcTask) : Handler → Option (List TaskEvent)
  | .regRead none _ _ _ _ _ => some []
  | .regRead (some reg) mode env own fcount fpos =>
      some ((ioregRegRead bus map reg mode (env.ofTarget target) own fcount fpos
        ⟨device, []⟩).io.trace.filterMap IoEvent.reference)
  | .regWrite none _ _ _ _ _ => some []
  | .regWrite (some reg) mode env own fcount fpos =>
      some ((ioregRegWrite bus map reg mode (env.ofTarget target) own fcount fpos
        ⟨device, []⟩).io.trace.filterMap IoEvent.reference)
  | .lookup name inst => (lookupTraced target name inst).map Prod.fst
  | .readdir fill inst fpos => (readdirTraced target fill inst fpos).map Prod.fst
  | .statusWrite fcount => some (Ioreg.statusWrite target fcount).1
  | .ioregmodeWrite fcount user => some (ioregmodeWriteTraced target fcount user).1
  | .bphhwReaddir alive fill inst fpos => some (procTgidBphhwReaddir target alive fill inst fpos)

/-- The handlers that release the task again. -/
def Handler.Releases : Handler → Prop
  | .statusWrite _ => False
  | .ioregmodeWrite _ _ => False
  | .bphhwReaddir _ _ _ _ => False
  | _ => True

theorem ioregmodeWriteTraced_fst (task : ProcTask) (fcount : ℕ) (user : Option UInt8) :
    (ioregmodeWriteTraced (some task) fcount user).1 = [.get] := by
  simp only [ioregmodeWriteTraced]
  split
  · rfl
  · split
    · rfl
    · split
      · rfl
      · rfl

/-- A reference that is taken first and never dropped. -/
theorem not_balanced_get {events : List TaskEvent} (balanced : Balanced events) :
    ¬ Balanced (.get :: events) := by
  intro unbalanced
  have counts := unbalanced.counts
  simp [balanced.counts] at counts

theorem not_balanced_null : ¬ Balanced [.null] := by
  intro balanced
  exact balanced.safe (List.mem_singleton_self _)

/-- Whatever has become of the task, the references of a call are balanced exactly if it
is one of the four handlers for registers and their directory. -/
theorem references_balanced_iff (handler : Handler) (target : Option ProcTask) :
    (∀ events, handler.events bus map device target = some events → Balanced events) ↔
      handler.Releases := by
  cases handler with
  | regRead reg mode env own fcount fpos =>
      refine iff_of_true ?_ trivial
      cases reg with
      | none =>
          rintro events ⟨⟩
          exact Balanced.nil
      | some reg =>
          rintro events ⟨⟩
          apply Balanced.of_weight
          exact paired_tasks.ioregRegRead bus map reg mode _ own fcount fpos ⟨device, []⟩
  | regWrite reg mode env own fcount fpos =>
      refine iff_of_true ?_ trivial
      cases reg with
      | none =>
          rintro events ⟨⟩
          exact Balanced.nil
      | some reg =>
          rintro events ⟨⟩
          apply Balanced.of_weight
          rcases paired_tasks.ioregRegWrite bus map reg mode (env.ofTarget target) own fcount fpos
            ⟨device, []⟩ with ⟨-, same⟩ | ⟨-, same⟩
          · exact same
          · exact same
  | lookup name inst =>
      refine iff_of_true ?_ trivial
      intro events traced
      rcases Option.map_eq_some_iff.mp traced with ⟨ended, found, rfl⟩
      exact Balanced.lookupTraced found
  | readdir fill inst fpos =>
      refine iff_of_true ?_ trivial
      intro events traced
      rcases Option.map_eq_some_iff.mp traced with ⟨ended, listed, rfl⟩
      exact Balanced.readdirTraced listed
  | statusWrite fcount =>
      refine iff_of_false ?_ id
      intro balanced
      cases target with
      | none => exact not_balanced_null (balanced _ rfl)
      | some task => exact not_balanced_get Balanced.nil (balanced _ rfl)
  | ioregmodeWrite fcount user =>
      refine iff_of_false ?_ id
      intro balanced
      cases target with
      | none => exact not_balanced_null (balanced _ rfl)
      | some task =>
          have kept := balanced _ rfl
          rw [ioregmodeWriteTraced_fst] at kept
          exact not_balanced_get Balanced.nil kept
  | bphhwReaddir alive fill inst fpos =>
      refine iff_of_false ?_ id
      intro balanced
      cases target with
      | none => exact not_balanced_null (balanced _ rfl)
      | some task =>
          have kept := balanced _ rfl
          rw [procTgidBphhwReaddir] at kept
          split at kept
          · exact not_balanced_get (Balanced.procPidentReaddir _ alive fill inst fpos) kept
          · exact not_balanced_get Balanced.nil kept

end Handlers

/-- Writing to `status` keeps a task for ever, and oopses if the task is gone. -/
theorem status_write_keeps_task :
    (statusWrite (some ⟨1, none⟩) 1).1.count .get = 1 ∧
      (statusWrite (some ⟨1, none⟩) 1).1.count .put = 0 ∧
      .null ∈ (statusWrite none 1).1 := by
  decide

end Rhino.Ioreg
