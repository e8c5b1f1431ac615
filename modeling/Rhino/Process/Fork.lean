import Rhino.Loader.Board
import Rhino.Transition.Run
import Mathlib.Data.List.Nodup

/-!
# Hardware processes across exec, fork and exit

`borph_info` is one pointer in `task_struct`.  `borph_load_hw` sets it when a
task execs a BOF file, `dup_task_struct` copies it to every child and thread,
and `do_exit` hands it to `borph_exit_fpga`, which takes it for the only one.

`Good` is what a task may expect that has exec'ed a BOF file: as long as it
lives, its FPGA and its registers are there.  `execution_good_iff` says which
runs keep it: those in which no task exits with a pointer that it got by a
fork.
-/

namespace Rhino.Process

open Rhino.Hwr Rhino.Loader Rhino.Transition

/-- Where a task is in its life. -/
inductive Life where
  | unborn
  | alive
  | dead
  deriving DecidableEq, Repr

/-- A successful exec of a BOF file: the task, the record that was allocated
for it, and the registers that were entered. -/
structure Exec where
  task : Task
  bi : ℕ
  ioreg : List Ioreg
  deriving DecidableEq, Repr

/-- The kernel, the lives of the tasks, and the execs so far. -/
structure State where
  kernel : KernelState RhinoDev
  life : Task → Life
  execs : List Exec

/-- A step of a run. -/
inductive Label where
  | exec (item : ExecqItem) (env : LoadEnv ConfigRun)
  | fork (parent child : Task)
  | exit (task : Task)

/-- `dup_task_struct`: the child gets a copy of the parent's `task_struct`. -/
def dupTaskStruct (parent child : Task) (kernel : KernelState RhinoDev) :
    KernelState RhinoDev :=
  { kernel with
    borphInfo := Function.update kernel.borphInfo child (kernel.borphInfo parent) }

/-- One step: a living task execs a file of at least one chip and the load
succeeds, a living task gives birth to a new one, or a living task exits. -/
def step (s : State) : Label → Option State
  | .exec item env =>
      match borphLoadHw rhinoPlatform.drivers item env s.kernel with
      | (.loaded, kernel) =>
          if s.life item.task = .alive ∧ 0 < item.bprm.buf.bNumchip then
            some { s with
              kernel := kernel
              execs := ⟨item.task, s.kernel.nextInfo,
                (kernel.infos s.kernel.nextInfo).ioreg⟩ :: s.execs }
          else none
      | _ => none
  | .fork parent child =>
      if s.life parent = .alive ∧ s.life child = .unborn then
        some { s with
          kernel := dupTaskStruct parent child s.kernel
          life := Function.update s.life child .alive }
      else none
  | .exit task =>
      if s.life task = .alive then
        some { s with
          kernel := borphExitFpga rhinoPlatform.drivers task s.kernel
          life := Function.update s.life task .dead }
      else none

/-! ## The property and its guard -/

/-- Every living task that has exec'ed a BOF file still has its FPGA and its
registers, and no record has been torn down twice. -/
structure Good (s : State) : Prop where
  kept : ∀ e ∈ s.execs, s.life e.task = .alive →
    1 ≤ (s.kernel.hw.board.phyhwrs rhinoAddr).count ∧
    (s.kernel.hw.board.phyhwrs rhinoAddr).active = 1 ∧
    s.kernel.hw.board.dev.Powered ∧
    (s.kernel.infos e.bi).ioreg = e.ioreg
  once : s.kernel.freed.Nodup

/-- A task that exits has no record, or one that it has exec'ed itself. -/
def ExitsOwn (s : State) : Label → Prop
  | .exit task => ∀ bi, s.kernel.borphInfo task = some bi →
      ∃ e ∈ s.execs, e.task = task ∧ e.bi = bi
  | _ => True

instance (s : State) : (label : Label) → Decidable (ExitsOwn s label)
  | .exec _ _ => isTrue trivial
  | .fork _ _ => isTrue trivial
  | .exit task => decidable_of_iff
      (∀ bi ∈ s.kernel.borphInfo task, ∃ e ∈ s.execs, e.task = task ∧ e.bi = bi) Iff.rfl

/-- No task has a hardware process yet. -/
structure Initial (s : State) : Prop where
  only : RhinoOnly s.kernel.hw
  idle : ∀ task, s.kernel.borphInfo task = none
  execs : s.execs = []
  freed : s.kernel.freed = []

/-! ## The invariant -/

/-- The process of an exec is as the load left it. -/
structure Intact (s : State) (e : Exec) : Prop where
  pointer : s.kernel.borphInfo e.task = some e.bi
  regions : (s.kernel.infos e.bi).hwRegion.map HwRegion.addr = [rhinoAddr]
  reserved : (s.kernel.hw.board.phyhwrs rhinoAddr).count = 1
  active : (s.kernel.hw.board.phyhwrs rhinoAddr).active = 1
  powered : s.kernel.hw.board.dev.Powered
  ioreg : (s.kernel.infos e.bi).ioreg = e.ioreg

/-- Pointers come from execs, the process of a living exec'er is intact, that
of a dead one has been torn down once, and there is at most one living
exec'er. -/
structure Inv (s : State) : Prop where
  only : RhinoOnly s.kernel.hw
  pointers : ∀ task bi, s.kernel.borphInfo task = some bi → ∃ e ∈ s.execs, e.bi = bi
  old : ∀ e ∈ s.execs, e.bi < s.kernel.nextInfo
  distinct : ∀ e ∈ s.execs, ∀ f ∈ s.execs, e.bi = f.bi → e = f
  born : ∀ e ∈ s.execs, s.life e.task ≠ .unborn
  intact : ∀ e ∈ s.execs, s.life e.task = .alive → Intact s e
  single : ∀ e ∈ s.execs, ∀ f ∈ s.execs,
    s.life e.task = .alive → s.life f.task = .alive → e = f
  buried : ∀ e ∈ s.execs, s.life e.task = .dead → e.bi ∈ s.kernel.freed
  freed : ∀ bi ∈ s.kernel.freed, ∃ e ∈ s.execs, e.bi = bi ∧ s.life e.task = .dead
  once : s.kernel.freed.Nodup

theorem Initial.inv {s : State} (initial : Initial s) : Inv s where
  only := initial.only
  pointers task bi pointer := by
    rw [initial.idle task] at pointer
    contradiction
  old := by simp [initial.execs]
  distinct := by simp [initial.execs]
  born := by simp [initial.execs]
  intact := by simp [initial.execs]
  single := by simp [initial.execs]
  buried := by simp [initial.execs]
  freed := by simp [initial.freed]
  once := by simp [initial.freed]

theorem Inv.good {s : State} (inv : Inv s) : Good s where
  kept e mem alive := by
    have intact := inv.intact e mem alive
    exact ⟨intact.reserved.ge, intact.active, intact.powered, intact.ioreg⟩
  once := inv.once

/-! ## What the steps do -/

theorem step_exec_eq_some_iff {s next : State} {item : ExecqItem} {env : LoadEnv ConfigRun} :
    step s (.exec item env) = some next ↔
      ∃ kernel, borphLoadHw rhinoPlatform.drivers item env s.kernel = (.loaded, kernel) ∧
        s.life item.task = .alive ∧ 0 < item.bprm.buf.bNumchip ∧
        next = { s with
          kernel := kernel
          execs := ⟨item.task, s.kernel.nextInfo,
            (kernel.infos s.kernel.nextInfo).ioreg⟩ :: s.execs } := by
  rcases ended : borphLoadHw rhinoPlatform.drivers item env s.kernel with ⟨outcome, kernel⟩
  simp only [step, ended]
  cases outcome with
  | loaded =>
      by_cases enabled : s.life item.task = .alive ∧ 0 < item.bprm.buf.bNumchip
      · simp [enabled, eq_comm]
      · simp only [if_neg enabled, reduceCtorEq, false_iff]
        rintro ⟨_, -, alive, chips, -⟩
        exact enabled ⟨alive, chips⟩
  | delregion => simp
  | oops => simp
  | stuck => simp

theorem step_fork_eq_some_iff {s next : State} {parent child : Task} :
    step s (.fork parent child) = some next ↔
      s.life parent = .alive ∧ s.life child = .unborn ∧
        next = { s with
          kernel := dupTaskStruct parent child s.kernel
          life := Function.update s.life child .alive } := by
  by_cases enabled : s.life parent = .alive ∧ s.life child = .unborn
  · simp [step, enabled, eq_comm]
  · simp only [step, if_neg enabled, reduceCtorEq, false_iff]
    rintro ⟨alive, unborn, -⟩
    exact enabled ⟨alive, unborn⟩

theorem step_exit_eq_some_iff {s next : State} {task : Task} :
    step s (.exit task) = some next ↔
      s.life task = .alive ∧
        next = { s with
          kernel := borphExitFpga rhinoPlatform.drivers task s.kernel
          life := Function.update s.life task .dead } := by
  by_cases enabled : s.life task = .alive
  · simp [step, enabled, eq_comm]
  · simp [step, enabled]

/-- While a process is intact, the FPGA is taken and no load succeeds. -/
theorem Intact.not_started {s : State} {e : Exec} {item : ExecqItem}
    {after : KernelState RhinoDev} (intact : Intact s e) : ¬ Started item s.kernel after := by
  intro started
  have free := started.free
  rw [intact.reserved] at free
  contradiction

/-- The teardown of an intact process frees the FPGA. -/
theorem Intact.exitFpga {s : State} {e : Exec} (only : RhinoOnly s.kernel.hw)
    (intact : Intact s e) {task : Task} (pointer : s.kernel.borphInfo task = some e.bi) :
    RhinoOnly (borphExitFpga rhinoPlatform.drivers task s.kernel).hw ∧
      ((borphExitFpga rhinoPlatform.drivers task s.kernel).hw.board.phyhwrs rhinoAddr).count =
        -1 := by
  rcases List.map_eq_singleton_iff.mp intact.regions with ⟨region, regions_eq, addr_eq⟩
  have present : rhinoPlatform.Present s.kernel.hw region.addr :=
    (present_iff_rhinoAddr only).mpr addr_eq
  have reserved : (s.kernel.hw.board.phyhwrs region.addr).count = 1 := by
    rw [addr_eq]
    exact intact.reserved
  simp only [borphExitFpga, pointer, regions_eq, List.foldl_cons, List.foldl_nil,
    exitRegion_eq rhinoPlatform present reserved]
  constructor
  · unfold RhinoOnly
    simp only [HwState.setHwr, HwState.withBoard, cleared_hwrtypes]
    exact only
  · simp [HwState.setHwr, HwState.withBoard, addr_eq]

/-! ## Preservation -/

theorem Inv.exec {s next : State} {item : ExecqItem} {env : LoadEnv ConfigRun} (inv : Inv s)
    (taken : step s (.exec item env) = some next) : Inv next := by
  rcases step_exec_eq_some_iff.mp taken with ⟨kernel, loaded, alive, chips, rfl⟩
  have started := started_of_loaded chips loaded
  -- The FPGA was free, so no exec'er is left alive.
  have extinct (e : Exec) (mem : e ∈ s.execs) : s.life e.task ≠ .alive := by
    intro survives
    exact (inv.intact e mem survives).not_started started
  have fresh (e : Exec) (mem : e ∈ s.execs) : e.bi ≠ s.kernel.nextInfo := (inv.old e mem).ne
  constructor
  case only =>
    unfold RhinoOnly
    rw [started.hwrtypes]
    exact inv.only
  case pointers =>
    intro task bi pointer
    simp only [started.borphInfo] at pointer
    by_cases own : task = item.task
    · subst own
      rw [Function.update_self] at pointer
      exact ⟨_, List.mem_cons_self, Option.some.inj pointer⟩
    · rw [Function.update_of_ne own] at pointer
      rcases inv.pointers task bi pointer with ⟨e, mem, bi_eq⟩
      exact ⟨e, List.mem_cons_of_mem _ mem, bi_eq⟩
  case old =>
    intro e mem
    simp only [started.nextInfo]
    rcases List.mem_cons.mp mem with rfl | mem
    · exact Nat.lt_succ_self _
    · exact Nat.lt_succ_of_lt (inv.old e mem)
  case distinct =>
    intro e memE f memF same
    rcases List.mem_cons.mp memE with rfl | memE
    · rcases List.mem_cons.mp memF with rfl | memF
      · rfl
      · exact absurd same.symm (fresh f memF)
    · rcases List.mem_cons.mp memF with rfl | memF
      · exact absurd same (fresh e memE)
      · exact inv.distinct e memE f memF same
  case born =>
    intro e mem
    rcases List.mem_cons.mp mem with rfl | mem
    · rw [alive]
      decide
    · exact inv.born e mem
  case intact =>
    intro e mem survives
    rcases List.mem_cons.mp mem with rfl | mem
    · exact
        { pointer := by simp [started.borphInfo]
          regions := started.regions
          reserved := started.reserved
          active := started.active
          powered := started.powered
          ioreg := rfl }
    · exact absurd survives (extinct e mem)
  case single =>
    intro e memE f memF survivesE survivesF
    rcases List.mem_cons.mp memE with rfl | memE
    · rcases List.mem_cons.mp memF with rfl | memF
      · rfl
      · exact absurd survivesF (extinct f memF)
    · exact absurd survivesE (extinct e memE)
  case buried =>
    intro e mem dead
    simp only [started.freed]
    rcases List.mem_cons.mp mem with rfl | mem
    · rw [alive] at dead
      contradiction
    · exact inv.buried e mem dead
  case freed =>
    intro bi mem
    simp only [started.freed] at mem
    rcases inv.freed bi mem with ⟨e, memE, bi_eq, dead⟩
    exact ⟨e, List.mem_cons_of_mem _ memE, bi_eq, dead⟩
  case once =>
    simp only [started.freed]
    exact inv.once

/-- Lives and pointers may change, as long as those of the exec'ers do not and
no pointer is made up. -/
theorem Inv.retask {s : State} (inv : Inv s) {borphInfo : Task → Option ℕ} {life : Task → Life}
    (copied : ∀ task bi, borphInfo task = some bi →
      ∃ other, s.kernel.borphInfo other = some bi)
    (lives : ∀ e ∈ s.execs, life e.task = s.life e.task)
    (pointers : ∀ e ∈ s.execs, borphInfo e.task = s.kernel.borphInfo e.task) :
    Inv { s with kernel := { s.kernel with borphInfo := borphInfo }, life := life } := by
  constructor
  case only => exact inv.only
  case pointers =>
    intro task bi pointer
    rcases copied task bi pointer with ⟨other, pointer⟩
    exact inv.pointers other bi pointer
  case old => exact inv.old
  case distinct => exact inv.distinct
  case born =>
    intro e mem
    simp only [lives e mem]
    exact inv.born e mem
  case intact =>
    intro e mem survives
    have intact := inv.intact e mem ((lives e mem).symm.trans survives)
    exact { intact with pointer := (pointers e mem).trans intact.pointer }
  case single =>
    intro e memE f memF survivesE survivesF
    exact inv.single e memE f memF ((lives e memE).symm.trans survivesE)
      ((lives f memF).symm.trans survivesF)
  case buried =>
    intro e mem dead
    exact inv.buried e mem ((lives e mem).symm.trans dead)
  case freed =>
    intro bi mem
    rcases inv.freed bi mem with ⟨e, memE, bi_eq, dead⟩
    exact ⟨e, memE, bi_eq, (lives e memE).trans dead⟩
  case once => exact inv.once

theorem Inv.fork {s next : State} {parent child : Task} (inv : Inv s)
    (taken : step s (.fork parent child) = some next) : Inv next := by
  rcases step_fork_eq_some_iff.mp taken with ⟨-, unborn, rfl⟩
  have elder (e : Exec) (mem : e ∈ s.execs) : e.task ≠ child := by
    intro same
    exact inv.born e mem (same ▸ unborn)
  apply inv.retask
  · intro task bi pointer
    by_cases new : task = child
    · subst new
      rw [Function.update_self] at pointer
      exact ⟨parent, pointer⟩
    · rw [Function.update_of_ne new] at pointer
      exact ⟨task, pointer⟩
  · intro e mem
    exact Function.update_of_ne (elder e mem) _ _
  · intro e mem
    exact Function.update_of_ne (elder e mem) _ _

/-- The exit of a task that has no record changes nothing but its life. -/
theorem Inv.exit_idle {s : State} {task : Task} (inv : Inv s) (alive : s.life task = .alive)
    (idle : s.kernel.borphInfo task = none) :
    Inv { s with life := Function.update s.life task .dead } := by
  apply inv.retask
  · intro other bi pointer
    exact ⟨other, pointer⟩
  · intro e mem
    apply Function.update_of_ne
    rintro rfl
    have pointer := (inv.intact e mem alive).pointer
    rw [idle] at pointer
    contradiction
  · intro e mem
    rfl

/-- The exit of a task with a record that it has exec'ed itself. -/
theorem Inv.exit_own {s : State} {own : Exec} (inv : Inv s) (mem : own ∈ s.execs)
    (alive : s.life own.task = .alive) :
    Inv { s with
      kernel := borphExitFpga rhinoPlatform.drivers own.task s.kernel
      life := Function.update s.life own.task .dead } := by
  have intact := inv.intact own mem alive
  have exited := intact.exitFpga inv.only intact.pointer
  have freed_eq : (borphExitFpga rhinoPlatform.drivers own.task s.kernel).freed =
      s.kernel.freed ++ [own.bi] := by
    simp only [borphExitFpga, intact.pointer]
  have pointers_eq : (borphExitFpga rhinoPlatform.drivers own.task s.kernel).borphInfo =
      Function.update s.kernel.borphInfo own.task none := by
    simp only [borphExitFpga, intact.pointer]
  have nextInfo_eq : (borphExitFpga rhinoPlatform.drivers own.task s.kernel).nextInfo =
      s.kernel.nextInfo := by
    simp only [borphExitFpga, intact.pointer]
    rfl
  -- The task was the one living exec'er, so none is left.
  have extinct (e : Exec) (memE : e ∈ s.execs) :
      Function.update s.life own.task .dead e.task ≠ .alive := by
    intro survives
    by_cases same : e.task = own.task
    · rw [same, Function.update_self] at survives
      contradiction
    · rw [Function.update_of_ne same] at survives
      exact same (congrArg Exec.task (inv.single e memE own mem survives alive))
  have unfreed : own.bi ∉ s.kernel.freed := by
    intro memFreed
    rcases inv.freed own.bi memFreed with ⟨e, memE, bi_eq, dead⟩
    rcases inv.distinct e memE own mem bi_eq with rfl
    rw [alive] at dead
    contradiction
  constructor
  case only => exact exited.1
  case pointers =>
    intro task bi pointer
    simp only [pointers_eq] at pointer
    by_cases self : task = own.task
    · subst self
      rw [Function.update_self] at pointer
      contradiction
    · rw [Function.update_of_ne self] at pointer
      exact inv.pointers task bi pointer
  case old =>
    simp only [nextInfo_eq]
    exact inv.old
  case distinct => exact inv.distinct
  case born =>
    intro e memE
    by_cases same : e.task = own.task
    · simp [same]
    · simp only [Function.update_of_ne same]
      exact inv.born e memE
  case intact =>
    intro e memE survives
    exact absurd survives (extinct e memE)
  case single =>
    intro e memE f memF survives _
    exact absurd survives (extinct e memE)
  case buried =>
    intro e memE dead
    simp only [freed_eq, List.mem_append, List.mem_singleton]
    by_cases same : e.task = own.task
    · right
      rw [inv.single e memE own mem (same ▸ alive) alive]
    · left
      simp only [Function.update_of_ne same] at dead
      exact inv.buried e memE dead
  case freed =>
    intro bi memFreed
    simp only [freed_eq, List.mem_append, List.mem_singleton] at memFreed
    rcases memFreed with memFreed | rfl
    · rcases inv.freed bi memFreed with ⟨e, memE, bi_eq, dead⟩
      refine ⟨e, memE, bi_eq, ?_⟩
      by_cases same : e.task = own.task
      · simp [same]
      · simp only [Function.update_of_ne same]
        exact dead
    · exact ⟨own, mem, rfl, Function.update_self _ _ _⟩
  case once =>
    simp only [freed_eq]
    refine List.nodup_append.mpr ⟨inv.once, List.nodup_singleton _, ?_⟩
    intro bi memFreed last memLast
    rw [List.mem_singleton.mp memLast]
    exact ne_of_mem_of_not_mem memFreed unfreed

theorem Inv.step {s next : State} {label : Label} (inv : Inv s) (own : ExitsOwn s label)
    (taken : step s label = some next) : Inv next := by
  cases label with
  | exec item env => exact inv.exec taken
  | fork parent child => exact inv.fork taken
  | exit task =>
      rcases step_exit_eq_some_iff.mp taken with ⟨alive, rfl⟩
      cases pointer : s.kernel.borphInfo task with
      | none =>
          have unchanged : borphExitFpga rhinoPlatform.drivers task s.kernel = s.kernel := by
            simp only [borphExitFpga, pointer]
          rw [unchanged]
          exact inv.exit_idle alive pointer
      | some bi =>
          rcases own bi pointer with ⟨e, mem, rfl, rfl⟩
          exact inv.exit_own mem alive

/-- A task that exits with an inherited record takes it away from the task that
exec'ed it, or frees it a second time. -/
theorem Inv.not_good_of_inherited {s next : State} {label : Label} (inv : Inv s)
    (inherited : ¬ ExitsOwn s label) (taken : Process.step s label = some next) :
    ¬ Good next := by
  cases label with
  | exec item env => exact absurd trivial inherited
  | fork parent child => exact absurd trivial inherited
  | exit task =>
      rcases step_exit_eq_some_iff.mp taken with ⟨alive, rfl⟩
      simp only [ExitsOwn, not_forall] at inherited
      rcases inherited with ⟨bi, pointer, foreign⟩
      rcases inv.pointers task bi pointer with ⟨e, mem, rfl⟩
      have other : e.task ≠ task := by
        intro same
        exact foreign ⟨e, mem, same, rfl⟩
      intro good
      cases life_eq : s.life e.task with
      | unborn => exact inv.born e mem life_eq
      | alive =>
          have kept := (good.kept e mem (by
            simp only [Function.update_of_ne other]
            exact life_eq)).1
          simp only [((inv.intact e mem life_eq).exitFpga inv.only pointer).2] at kept
          contradiction
      | dead =>
          have once := good.once
          simp only [borphExitFpga, pointer] at once
          exact (List.nodup_append.mp once).2.2 e.bi (inv.buried e mem life_eq) e.bi
            (List.mem_singleton_self _) rfl

/-- In a run from a kernel without hardware processes, everyone who has exec'ed
a BOF file keeps the FPGA and the registers for life, and no record is torn
down twice, exactly if no task exits with a record that it has inherited. -/
theorem execution_good_iff {s final : State} {labels : List Label} (initial : Initial s)
    (finished : run step s labels = some final) :
    Always step Good s labels ↔ Along step ExitsOwn s labels := by
  apply always_iff_along Inv _ _ _ initial.inv finished
  · intro state inv
    exact inv.good
  · intro state label next inv own taken
    exact inv.step own taken
  · intro state label next inv inherited taken
    exact inv.not_good_of_inherited inherited taken

/-- Task 1 is alive in a kernel that has just come up. -/
def boot : State where
  kernel := bootKernel
  life := fun task => if task = 1 then .alive else .unborn
  execs := []

theorem boot_initial : Initial boot where
  only := bootKernel_rhinoOnly
  idle _ := rfl
  execs := rfl
  freed := rfl

/-- Task 1 execs a file of one region. -/
def execFirst : Label :=
  .exec (sampleItem 1 1 loneRegion [0xaa]) (calmLoad smoothConfig)

/-- Task 1 forks, execs the file and forks again; then its first child and it itself
exit, and its second child stays behind. -/
def forksAround : List Label := [.fork 1 2, execFirst, .fork 1 3, .exit 2, .exit 1]

theorem execution_good_of_forks :
    Initial boot ∧ (∃ final, run step boot forksAround = some final) ∧
      Always step Good boot forksAround := by
  have finishes : (run step boot forksAround).isSome = true := by
    decide +kernel
  rcases Option.isSome_iff_exists.mp finishes with ⟨final, finished⟩
  refine ⟨boot_initial, ⟨final, finished⟩, ?_⟩
  apply (execution_good_iff boot_initial finished).mpr
  decide +kernel

/-- Task 1 execs the file and forks, and its child exits. -/
def childExits : List Label := [execFirst, .fork 1 2, .exit 2]

theorem childExits_finishes : (run step boot childExits).isSome = true := by
  decide +kernel

/-- The exit of the child takes the FPGA away from its parent. -/
theorem child_exit_frees_fpga_of_parent :
    ¬ ∀ (labels : List Label) (final : State),
      run step boot labels = some final → Good final := by
  intro always
  have good := always childExits _ (Option.some_get childExits_finishes).symm
  have kept := (good.kept ⟨1, 0, []⟩ (by decide +kernel) (by decide +kernel)).1
  exact absurd kept (by decide +kernel)

end Rhino.Process
