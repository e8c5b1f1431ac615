import Rhino.Access.Core

/-!
# The life of a process

A process has no record, is being loaded, runs, or is being torn down.  `Life`
says what each of these means for the FPGA, and the theorems below follow a
process through the stages of its load and of its exit.

What one process does is none of another's business.  `Turn` says so: a step on
behalf of a task leaves alone every other record, and the FPGA as well if it is
reserved for someone else.
-/

namespace Rhino.Access

open Rhino.Bof Rhino.Hwr Rhino.Kernel Rhino.Loader

/-! ## Ownership of the FPGA -/

section Ownership

variable {kernel next : KernelState RhinoDev} {task other : Task}

theorem OwnsFpga.congr (owns : OwnsFpga kernel task) (same : next.hw = kernel.hw) :
    OwnsFpga next task where
  reserved := by
    unfold ReservedFor
    rw [same]
    exact owns.reserved
  active := by
    rw [same]
    exact owns.active
  powered := by
    rw [same]
    exact owns.powered
  configured := by
    rw [same]
    exact owns.configured

theorem eq_of_reservedFor (first : ReservedFor kernel task rhinoAddr)
    (second : ReservedFor kernel other rhinoAddr) : other = task :=
  Option.some.inj (second.2.symm.trans first.2)

theorem not_reservedFor_of_free (free : (kernel.hw.board.phyhwrs rhinoAddr).count = -1) :
    ¬ ReservedFor kernel task rhinoAddr := by
  intro reserved
  have used := reserved.1
  rw [free] at used
  contradiction

/-- The list is empty, or it names the FPGA and the FPGA is reserved for the
task. -/
def Lists (kernel : KernelState RhinoDev) (task : Task) (regions : List HwRegion) : Prop :=
  regions = [] ∨
    (∃ strtab, regions = [⟨rhinoAddr, strtab⟩]) ∧ ReservedFor kernel task rhinoAddr

theorem Lists.mono {regions : List HwRegion} (lists : Lists kernel task regions)
    (kept : ReservedFor kernel task rhinoAddr → ReservedFor next task rhinoAddr) :
    Lists next task regions :=
  lists.imp id (And.imp id kept)

theorem Lists.eq_nil {regions : List HwRegion} (lists : Lists kernel task regions)
    (free : (kernel.hw.board.phyhwrs rhinoAddr).count = -1) : regions = [] := by
  rcases lists with empty | ⟨-, reserved⟩
  · exact empty
  · exact absurd reserved (not_reservedFor_of_free free)

end Ownership

/-! ## Lives -/

/-- The load has reserved the FPGA and not yet configured it. -/
structure Load.Waits (load : Load) (kernel : KernelState RhinoDev) : Prop where
  addr : load.hwrhdr.addr = rhinoAddr
  reserved : ReservedFor kernel load.item.task rhinoAddr
  off : (kernel.hw.board.phyhwrs rhinoAddr).active = 0

/-- What a load has made of the FPGA and of its record, stage by stage. -/
def Load.Holds (load : Load) (kernel : KernelState RhinoDev) : Prop :=
  match load.stage with
  | .prepare => Lists kernel load.item.task (kernel.infos load.bi).hwRegion ∧
      (load.turn ≠ 0 → OwnsFpga kernel load.item.task)
  | .declare => load.Waits kernel ∧ (kernel.infos load.bi).hwRegion = []
  | .configure => load.Waits kernel ∧
      Lists kernel load.item.task (kernel.infos load.bi).hwRegion

/-- Where a process is.  The status of its record is set by the load, once it is
complete. -/
inductive Life (kernel : KernelState RhinoDev) (task : Task) :
    Option Exit → Option Load → Prop where
  | absent (pointer : kernel.borphInfo task = none) : Life kernel task none none
  | resident {bi : ℕ} (pointer : kernel.borphInfo task = some bi)
      (lists : Lists kernel task (kernel.infos bi).hwRegion)
      (ready : (kernel.infos bi).status ≠ 0 → OwnsFpga kernel task) :
      Life kernel task none none
  | loading {load : Load} (own : load.item.task = task)
      (pointer : kernel.borphInfo task = some load.bi)
      (status : (kernel.infos load.bi).status = 0)
      (chips : 0 < load.item.bprm.buf.bNumchip.toNat) (holds : load.Holds kernel) :
      Life kernel task none (some load)
  | exiting {exit : Exit} (pointer : kernel.borphInfo task = some exit.bi)
      (lists : Lists kernel task exit.regions)
      (off : exit.stage ≠ .deactivate → exit.regions ≠ [] →
        (kernel.hw.board.phyhwrs rhinoAddr).active = 0) :
      Life kernel task (some exit) none

/-- A step that is none of the task's business. -/
structure Untouched (task : Task) (before after : KernelState RhinoDev) : Prop where
  pointer : after.borphInfo task = before.borphInfo task
  info : ∀ bi, before.borphInfo task = some bi → after.infos bi = before.infos bi
  hw : ReservedFor before task rhinoAddr → after.hw = before.hw

section Untouched

variable {task : Task} {before after : KernelState RhinoDev}
  (untouched : Untouched task before after)
include untouched

theorem Untouched.reservedFor (reserved : ReservedFor before task rhinoAddr) :
    ReservedFor after task rhinoAddr := by
  unfold ReservedFor
  rw [untouched.hw reserved]
  exact reserved

theorem Untouched.trans {last : KernelState RhinoDev} (second : Untouched task after last) :
    Untouched task before last where
  pointer := second.pointer.trans untouched.pointer
  info bi found :=
    (second.info bi (untouched.pointer.trans found)).trans (untouched.info bi found)
  hw reserved := (second.hw (untouched.reservedFor reserved)).trans (untouched.hw reserved)

theorem Untouched.ownsFpga (owns : OwnsFpga before task) : OwnsFpga after task :=
  owns.congr (untouched.hw owns.reserved)

theorem Untouched.waits {load : Load} (own : load.item.task = task)
    (waits : load.Waits before) : load.Waits after := by
  subst own
  refine ⟨waits.addr, untouched.reservedFor waits.reserved, ?_⟩
  rw [untouched.hw waits.reserved]
  exact waits.off

theorem Untouched.holds {load : Load} (own : load.item.task = task)
    (same : after.infos load.bi = before.infos load.bi) (holds : load.Holds before) :
    load.Holds after := by
  subst own
  unfold Load.Holds at holds ⊢
  rw [same]
  split at holds
  · exact ⟨holds.1.mono untouched.reservedFor, fun turn => untouched.ownsFpga (holds.2 turn)⟩
  · exact ⟨untouched.waits rfl holds.1, holds.2⟩
  · exact ⟨untouched.waits rfl holds.1, holds.2.mono untouched.reservedFor⟩

/-- A process lives on through the steps of the others. -/
theorem Untouched.life {exit : Option Exit} {load : Option Load}
    (life : Life before task exit load) : Life after task exit load := by
  cases life with
  | absent pointer =>
      apply Life.absent
      rw [untouched.pointer, pointer]
  | resident pointer lists ready =>
      have same := untouched.info _ pointer
      rw [← same] at lists ready
      apply Life.resident (untouched.pointer.trans pointer)
      · exact lists.mono untouched.reservedFor
      · intro status
        exact untouched.ownsFpga (ready status)
  | loading own pointer status chips holds =>
      have same := untouched.info _ pointer
      rw [← same] at status
      exact Life.loading own (untouched.pointer.trans pointer) status chips
        (untouched.holds own same holds)
  | exiting pointer lists off =>
      apply Life.exiting (untouched.pointer.trans pointer)
      · exact lists.mono untouched.reservedFor
      · intro stage left
        rcases lists with empty | ⟨-, reserved⟩
        · exact absurd empty left
        · rw [untouched.hw reserved]
          exact off stage left

end Untouched

/-! ## Steps on behalf of a task -/

/-- The FPGA is in use or free, and off if it is free. -/
structure Registry (hw : HwState RhinoDev) : Prop where
  only : RhinoOnly hw
  counted : (hw.board.phyhwrs rhinoAddr).count = 1 ∨
    (hw.board.phyhwrs rhinoAddr).count = -1 ∧ (hw.board.phyhwrs rhinoAddr).active = 0

/-- Every record has been allocated, and no two tasks share one. -/
structure Pointers (kernel : KernelState RhinoDev) : Prop where
  allocated : ∀ task bi, kernel.borphInfo task = some bi → bi < kernel.nextInfo
  distinct : ∀ task other bi, kernel.borphInfo task = some bi →
    kernel.borphInfo other = some bi → task = other

/-- A step on behalf of a task. -/
structure Turn (task : Task) (before after : KernelState RhinoDev) : Prop where
  registry : Registry after.hw
  pointers : Pointers after
  others : ∀ other, other ≠ task → Untouched other before after

section Turn

variable {kernel : KernelState RhinoDev} {task : Task}

theorem Turn.trans {middle last : KernelState RhinoDev} (first : Turn task kernel middle)
    (second : Turn task middle last) : Turn task kernel last where
  registry := second.registry
  pointers := second.pointers
  others other ne := (first.others other ne).trans (second.others other ne)

theorem Registry.present (registry : Registry kernel.hw) :
    rhinoPlatform.Present kernel.hw rhinoAddr :=
  (present_iff_rhinoAddr registry.only).mpr rfl

theorem Registry.off_of_free (registry : Registry kernel.hw)
    (free : (kernel.hw.board.phyhwrs rhinoAddr).count = -1) :
    (kernel.hw.board.phyhwrs rhinoAddr).active = 0 := by
  rcases registry.counted with used | ⟨-, off⟩
  · rw [used] at free
    contradiction
  · exact off

theorem Registry.count_of_reserved (registry : Registry kernel.hw)
    (reserved : ReservedFor kernel task rhinoAddr) :
    (kernel.hw.board.phyhwrs rhinoAddr).count = 1 := by
  rcases registry.counted with used | ⟨free, -⟩
  · exact used
  · exact absurd reserved (not_reservedFor_of_free free)

variable (registry : Registry kernel.hw) (pointers : Pointers kernel)
include registry pointers

theorem Turn.refl : Turn task kernel kernel :=
  ⟨registry, pointers, fun _ _ => ⟨rfl, fun _ _ => rfl, fun _ => rfl⟩⟩

/-- The task writes to its record. -/
theorem Turn.modifyInfo {bi : ℕ} (pointer : kernel.borphInfo task = some bi)
    (change : BorphInfo → BorphInfo) : Turn task kernel (kernel.modifyInfo bi change) := by
  refine ⟨registry, ⟨pointers.allocated, pointers.distinct⟩, ?_⟩
  intro other ne
  refine ⟨rfl, ?_, fun _ => rfl⟩
  intro record found
  have apart : record ≠ bi := by
    rintro rfl
    exact ne (pointers.distinct _ _ _ found pointer)
  exact Function.update_of_ne apart _ _

omit registry in
/-- The task changes the hardware while nobody else has the FPGA. -/
theorem Turn.setHw {hw : HwState RhinoDev} (kept : Registry hw)
    (alone : ∀ other, other ≠ task → ¬ ReservedFor kernel other rhinoAddr) :
    Turn task kernel { kernel with hw := hw } := by
  refine ⟨kept, ⟨pointers.allocated, pointers.distinct⟩, ?_⟩
  intro other ne
  exact ⟨rfl, fun _ _ => rfl, fun reserved => absurd reserved (alone other ne)⟩

omit registry pointers in
theorem not_reservedFor_of_reserved (reserved : ReservedFor kernel task rhinoAddr) (other : Task)
    (ne : other ≠ task) : ¬ ReservedFor kernel other rhinoAddr := by
  intro second
  exact ne (eq_of_reservedFor reserved second)

end Turn

/-! ## Loads -/

/-- A step of a load: the FPGA is left alone once the task owns it, and the task
keeps a record whose status is not set. -/
structure Load.Kept (load : Load) (before after : KernelState RhinoDev) : Prop where
  turn : Turn load.item.task before after
  owned : OwnsFpga before load.item.task → after.hw = before.hw
  pointer : after.borphInfo load.item.task = some load.bi
  status : (after.infos load.bi).status = 0

/-- A stage of a load goes on to the next one or leaves a record that lists what
the task holds. -/
inductive Load.Ends (load : Load) (kernel : KernelState RhinoDev) :
    Except (Halt RhinoDev) (LoadState RhinoDev) → Prop where
  | goesOn {s : LoadState RhinoDev} (kept : load.Kept kernel s.kernel)
      (holds : (load.advance s).Holds s.kernel) : load.Ends kernel (.ok s)
  | stops {stop : Stop} {s : LoadState RhinoDev} (kept : load.Kept kernel s.kernel)
      (lists : Lists s.kernel load.item.task (s.kernel.infos load.bi).hwRegion) :
      load.Ends kernel (.error ⟨stop, s⟩)

/-- The record that a load allocates is nobody's yet. -/
theorem Turn.loadStart {kernel : KernelState RhinoDev} (registry : Registry kernel.hw)
    (pointers : Pointers kernel) (item : ExecqItem) (env : LoadEnv ConfigRun) :
    Turn item.task kernel (loadStart item env kernel).kernel := by
  have pointer : (Loader.loadStart item env kernel).kernel.borphInfo item.task =
    some kernel.nextInfo := Function.update_self _ _ _
  have older {other : Task} (ne : other ≠ item.task) :
      (Loader.loadStart item env kernel).kernel.borphInfo other = kernel.borphInfo other :=
    Function.update_of_ne ne _ _
  have apart {other : Task} {bi : ℕ} (ne : other ≠ item.task)
      (found : (Loader.loadStart item env kernel).kernel.borphInfo other = some bi) :
      bi < kernel.nextInfo := by
    rw [older ne] at found
    exact pointers.allocated other bi found
  constructor
  · exact registry
  · constructor
    · intro other bi found
      by_cases same : other = item.task
      · rw [same, pointer] at found
        cases found
        exact Nat.lt_succ_self _
      · exact Nat.lt_succ_of_lt (apart same found)
    · intro first second bi found found'
      by_cases same : first = item.task
      · rw [same, pointer] at found
        cases found
        by_cases same' : second = item.task
        · rw [same, same']
        · exact absurd (apart same' found') (lt_irrefl _)
      · by_cases same' : second = item.task
        · rw [same', pointer] at found'
          cases found'
          exact absurd (apart same found) (lt_irrefl _)
        · rw [older same] at found
          rw [older same'] at found'
          exact pointers.distinct first second bi found found'
  · intro other ne
    constructor
    · exact older ne
    · intro bi found
      exact Function.update_of_ne (pointers.allocated other bi found).ne _ _
    · intro _
      rfl

section Load

variable {load : Load} {kernel : KernelState RhinoDev}
  (registry : Registry kernel.hw) (pointers : Pointers kernel)
  (pointer : kernel.borphInfo load.item.task = some load.bi)
  (status : (kernel.infos load.bi).status = 0)
include registry pointers pointer status

theorem Load.Kept.refl : load.Kept kernel kernel :=
  ⟨Turn.refl registry pointers, fun _ => rfl, pointer, status⟩

omit registry in
/-- The step of a load that changes the hardware. -/
theorem Load.Kept.setHw {hw : HwState RhinoDev} (kept : Registry hw)
    (alone : ∀ other, other ≠ load.item.task → ¬ ReservedFor kernel other rhinoAddr)
    (unowned : ¬ OwnsFpga kernel load.item.task) : load.Kept kernel { kernel with hw := hw } :=
  ⟨Turn.setHw pointers kept alone, fun owns => absurd owns unowned, pointer, status⟩

/-- A reservation takes the FPGA only if it is free. -/
theorem Load.ends_prepare (stage : load.stage = .prepare) (holds : load.Holds kernel) :
    load.Ends kernel (load.run kernel) := by
  simp only [Load.Holds, stage] at holds
  simp only [Load.run, stage]
  have unchanged := Load.Kept.refl registry pointers pointer status
  rcases prepareRegion_cases rhinoPlatform load.item (load.env.region load.turn)
    (load.state kernel) with
    ⟨-, failed⟩ | ⟨-, exit, next, failed, same, -⟩ | ⟨-, next, ok, free, taken⟩
  · rw [failed]
    exact .stops unchanged holds.1
  · have same : next.kernel = kernel := same
    rw [failed]
    exact .stops (same ▸ unchanged) (same ▸ holds.1)
  · rw [ok]
    have addr := eq_rhinoAddr_of_present free.1
    have taken : next.kernel =
        { kernel with hw := claimed kernel.hw next.hwrhdr.addr load.item.task } := taken
    rw [addr] at free taken
    have idle : (kernel.hw.board.phyhwrs rhinoAddr).count = -1 := free.2
    have record : (claimed kernel.hw rhinoAddr load.item.task).board.phyhwrs rhinoAddr =
        { kernel.hw.board.phyhwrs rhinoAddr with count := 1, task := some load.item.task } :=
      Board.setHwr_same _ _ _
    apply Load.Ends.goesOn
    · rw [taken]
      apply Load.Kept.setHw pointers pointer status
      · refine ⟨registry.only, Or.inl ?_⟩
        rw [record]
      · intro other _
        exact not_reservedFor_of_free idle
      · intro owns
        exact not_reservedFor_of_free idle owns.reserved
    · simp only [Load.advance, stage]
      rw [taken]
      refine ⟨⟨addr, ?_, ?_⟩, holds.1.eq_nil idle⟩
      · rw [ReservedFor, record]
        exact ⟨le_refl 1, rfl⟩
      · rw [record]
        exact registry.off_of_free idle

/-- The region and its registers are entered while the FPGA waits. -/
theorem Load.Kept.declared {next : LoadState RhinoDev}
    (waits : load.Waits kernel) (empty : (kernel.infos load.bi).hwRegion = [])
    (declared : Declared load.bi (load.state kernel) next) :
    load.Kept kernel next.kernel ∧ next.kernel.hw = kernel.hw ∧
      Lists next.kernel load.item.task (next.kernel.infos load.bi).hwRegion := by
  obtain ⟨strtab, regs, kernel_eq⟩ := declared.kernel
  have kernel_eq : next.kernel = kernel.modifyInfo load.bi fun info =>
      { info with
        hwRegion := ⟨load.hwrhdr.addr, strtab⟩ :: info.hwRegion
        ioreg := regs ++ info.ioreg } := kernel_eq
  rw [kernel_eq]
  refine ⟨⟨Turn.modifyInfo registry pointers pointer _, fun _ => rfl, pointer, ?_⟩, rfl, ?_⟩
  · simp [KernelState.modifyInfo, status]
  · right
    refine ⟨⟨strtab, ?_⟩, waits.reserved⟩
    simp [KernelState.modifyInfo, empty, waits.addr]

theorem Load.ends_declare (stage : load.stage = .declare) (holds : load.Holds kernel) :
    load.Ends kernel (load.run kernel) := by
  simp only [Load.Holds, stage] at holds
  rcases holds with ⟨waits, empty⟩
  simp only [Load.run, stage]
  have unchanged := Load.Kept.refl registry pointers pointer status
  have unlisted : Lists kernel load.item.task (kernel.infos load.bi).hwRegion := Or.inl empty
  rcases declareRegion_cases load.item (load.env.region load.turn) load.bi
    (load.state kernel) with
    ⟨-, exit, next, failed, same, -⟩ | ⟨-, -, next, failed, same | declared⟩ |
    ⟨-, -, exit, next, failed, declared, -⟩ | ⟨-, -, next, ok, declared⟩
  · have same : next.kernel = kernel := same
    rw [failed]
    exact .stops (same ▸ unchanged) (same ▸ unlisted)
  · have same : next.kernel = kernel := same
    rw [failed]
    exact .stops (same ▸ unchanged) (same ▸ unlisted)
  · obtain ⟨kept, -, lists⟩ :=
      Load.Kept.declared registry pointers pointer status waits empty declared
    rw [failed]
    exact .stops kept lists
  · obtain ⟨kept, -, lists⟩ :=
      Load.Kept.declared registry pointers pointer status waits empty declared
    rw [failed]
    exact .stops kept lists
  · obtain ⟨kept, same, lists⟩ :=
      Load.Kept.declared registry pointers pointer status waits empty declared
    obtain ⟨left, hwrhdr_eq⟩ := declared.hwrhdr
    rw [ok]
    apply Load.Ends.goesOn kept
    simp only [Load.advance, stage]
    refine ⟨⟨?_, ?_, ?_⟩, lists⟩
    · change next.hwrhdr.addr = rhinoAddr
      rw [hwrhdr_eq]
      exact waits.addr
    · unfold ReservedFor
      rw [same]
      exact waits.reserved
    · rw [same]
      exact waits.off

/-- A configuration ends with the FPGA still reserved; if it succeeds, the task
owns it. -/
theorem Load.ends_configure (stage : load.stage = .configure) (holds : load.Holds kernel) :
    load.Ends kernel (load.run kernel) := by
  simp only [Load.Holds, stage] at holds
  rcases holds with ⟨waits, lists⟩
  simp only [Load.run, stage]
  have unowned : ¬ OwnsFpga kernel load.item.task := by
    intro owns
    have on := owns.active
    rw [waits.off] at on
    contradiction
  have count := registry.count_of_reserved waits.reserved
  have kept {hw : HwState RhinoDev} (only : RhinoOnly hw)
      (same : (hw.board.phyhwrs rhinoAddr).count = (kernel.hw.board.phyhwrs rhinoAddr).count) :
      load.Kept kernel { kernel with hw := hw } :=
    Load.Kept.setHw pointers pointer status ⟨only, Or.inl (same.trans count)⟩
      (not_reservedFor_of_reserved waits.reserved) unowned
  have addr : (load.state kernel).hwrhdr.addr = rhinoAddr := waits.addr
  have present : rhinoPlatform.Present (load.state kernel).kernel.hw
      (load.state kernel).hwrhdr.addr := by
    rw [addr]
    exact registry.present
  have used : ((load.state kernel).kernel.hw.board.phyhwrs
      (load.state kernel).hwrhdr.addr).count ≠ 0 := by
    rw [addr]
    change (kernel.hw.board.phyhwrs rhinoAddr).count ≠ 0
    rw [count]
    decide
  rcases configureRegion_cases rhinoPlatform load.item.bprm.file (load.env.region load.turn)
    present used with
    ⟨absent, -⟩ | ⟨run, op, result, board, ran, records, ended⟩
  · rw [addr] at absent
    cases absent
  · rw [addr] at op ran ended
    rcases Option.some.inj op with rfl
    have records : board.phyhwrs = kernel.hw.board.phyhwrs := records
    have lists' {hw : HwState RhinoDev} (same : hw.board.phyhwrs = kernel.hw.board.phyhwrs) :
        Lists { kernel with hw := hw } load.item.task (kernel.infos load.bi).hwRegion := by
      apply lists.mono
      unfold ReservedFor
      rw [same]
      exact id
    have used_still : (board.phyhwrs rhinoAddr).count =
        (kernel.hw.board.phyhwrs rhinoAddr).count := by
      rw [records]
    rcases ended with ⟨-, next, raised, failed, kernel_eq⟩ | ⟨retval, -, -, failed⟩ |
      ⟨retval, rfl, nonnegative, ok⟩
    · have kernel_eq : next.kernel = { kernel with
          hw := configured (kernel.hw.setCount rhinoAddr.cls raised) rhinoAddr board } :=
        kernel_eq
      rw [failed]
      apply Load.Ends.stops
      · rw [kernel_eq]
        exact kept (registry.only.setCount raised) used_still
      · rw [kernel_eq]
        exact lists' records
    · have left : load.Kept kernel
          { kernel with hw := configured kernel.hw rhinoAddr board } :=
        kept registry.only used_still
      rw [failed]
      exact .stops left (lists' records)
    · let hw := activated (configured kernel.hw rhinoAddr board) rhinoAddr
      have record : hw.board.phyhwrs rhinoAddr =
          { kernel.hw.board.phyhwrs rhinoAddr with active := 1 } := by
        simp [hw, activated, configured, HwState.setHwr, HwState.withBoard, records]
      have only : RhinoOnly hw := registry.only
      have goes : load.Kept kernel { kernel with hw := hw } := kept only (by rw [record])
      have powered : board.dev.Powered := powered_of_rhinoConfigureOp nonnegative ran
      have reserved : ReservedFor { kernel with hw := hw } load.item.task rhinoAddr := by
        rw [ReservedFor, record]
        exact waits.reserved
      have owns : OwnsFpga { kernel with hw := hw } load.item.task := by
        refine ⟨reserved, ?_, powered, ?_⟩
        · rw [record]
        · exact List.getLast?_concat
      rw [ok]
      apply Load.Ends.goesOn goes
      simp only [Load.advance, stage]
      exact ⟨lists.mono fun _ => reserved, fun _ => owns⟩

theorem Load.ends (holds : load.Holds kernel) : load.Ends kernel (load.run kernel) := by
  cases stage : load.stage with
  | prepare => exact Load.ends_prepare registry pointers pointer status stage holds
  | declare => exact Load.ends_declare registry pointers pointer status stage holds
  | configure => exact Load.ends_configure registry pointers pointer status stage holds

end Load

/-! ## Exits -/

section Exit

variable {kernel : KernelState RhinoDev} {task : Task}
  (registry : Registry kernel.hw) (pointers : Pointers kernel)
include registry pointers

/-- The process enters `borph_exit_fpga`. -/
theorem Life.exitBegin {bi : ℕ} (pointer : kernel.borphInfo task = some bi)
    (lists : Lists kernel task (kernel.infos bi).hwRegion) :
    Turn task kernel (Access.exitBegin kernel bi).1 ∧
      Life (Access.exitBegin kernel bi).1 task (some (Access.exitBegin kernel bi).2) none := by
  refine ⟨Turn.modifyInfo registry pointers pointer fun info => { info with ioreg := [] }, ?_⟩
  apply Life.exiting pointer
  · exact lists
  · intro later
    exact absurd rfl later

/-- The last step of an exit clears the pointer. -/
theorem Turn.clear (freed : List ℕ) :
    Turn task kernel { kernel with
      freed := freed
      borphInfo := Function.update kernel.borphInfo task none } := by
  have older {other : Task} {bi : ℕ}
      (found : Function.update kernel.borphInfo task none other = some bi) :
      kernel.borphInfo other = some bi := by
    by_cases same : other = task
    · rw [same, Function.update_self] at found
      contradiction
    · rwa [Function.update_of_ne same] at found
  refine ⟨registry, ⟨?_, ?_⟩, ?_⟩
  · intro other bi found
    exact pointers.allocated other bi (older found)
  · intro first second bi found found'
    exact pointers.distinct first second bi (older found) (older found')
  · intro other ne
    exact ⟨Function.update_of_ne ne _ _, fun _ _ => rfl, fun _ => rfl⟩

omit registry in
/-- A step of an exit at its only region that switches the FPGA off or finds it
off. -/
theorem Life.exitHw {bi : ℕ} {strtab : List UInt8} {stage : ExitStage} {hw : HwState RhinoDev}
    (pointer : kernel.borphInfo task = some bi) (reserved : ReservedFor kernel task rhinoAddr)
    (only : RhinoOnly hw)
    (record : hw.board.phyhwrs rhinoAddr =
      { kernel.hw.board.phyhwrs rhinoAddr with count := 1, active := 0 }) :
    Turn task kernel { kernel with hw := hw } ∧
      Life { kernel with hw := hw } task (some ⟨bi, [⟨rhinoAddr, strtab⟩], stage⟩) none := by
  constructor
  · apply Turn.setHw pointers _ (not_reservedFor_of_reserved reserved)
    exact ⟨only, Or.inl (by rw [record])⟩
  · refine Life.exiting pointer (Or.inr ⟨⟨strtab, rfl⟩, ?_⟩) fun _ _ => ?_
    · rw [ReservedFor, record]
      exact ⟨le_refl 1, reserved.2⟩
    · rw [record]

/-- An exit switches the FPGA off, clears it and gives it back, and keeps to its
own process. -/
theorem Life.exitStep {exit : Exit} (life : Life kernel task (some exit) none) :
    Turn task kernel (Access.exitStep task kernel exit).1 ∧
      Life (Access.exitStep task kernel exit).1 task (Access.exitStep task kernel exit).2 none := by
  cases life with
  | exiting pointer lists off =>
      rcases lists with empty | ⟨⟨strtab, single⟩, reserved⟩
      · simp only [Access.exitStep, empty]
        refine ⟨Turn.clear registry pointers _, Life.absent ?_⟩
        exact Function.update_self _ _ _
      · have count := registry.count_of_reserved reserved
        have present := registry.present
        have left : exit.regions ≠ [] := by
          rw [single]
          exact List.cons_ne_nil _ _
        cases stage : exit.stage with
        | deactivate =>
            have used : (kernel.hw.board.phyhwrs rhinoAddr).count ≠ 0 := by
              rw [count]
              decide
            have switched : hwrDeactivate rhinoPlatform.drivers rhinoAddr kernel.hw = _ :=
              setActive_eq rhinoPlatform present used 0
            simp only [Access.exitStep, single, stage]
            rw [switched]
            apply Life.exitHw pointers pointer reserved
            · exact registry.only
            · rw [← count]
              exact Board.setHwr_same _ _ _
        | unconfigure =>
            have idle := off (by rw [stage]; nofun) left
            simp only [Access.exitStep, single, stage]
            rw [putHwrops_unconfigureRegion rhinoPlatform present]
            apply Life.exitHw pointers pointer reserved
            · rw [RhinoOnly, cleared_hwrtypes]
              exact registry.only
            · rw [cleared_phyhwrs, ← count, ← idle]
        | release =>
            have idle := off (by rw [stage]; nofun) left
            have given : releaseHwr rhinoPlatform.drivers rhinoAddr kernel.hw =
                kernel.hw.setHwr rhinoAddr ⟨-1, 0, none⟩ := by
              rw [releaseHwr_eq rhinoPlatform present, PhyHwr.put, count, idle]
              rfl
            have first := Turn.modifyInfo registry pointers pointer
              fun info => { info with hwRegion := [] }
            simp only [Access.exitStep, single, stage]
            constructor
            · apply first.trans
              apply Turn.setHw first.pointers
              · change Registry (releaseHwr rhinoPlatform.drivers rhinoAddr kernel.hw)
                rw [given]
                refine ⟨registry.only, Or.inr ?_⟩
                simp [HwState.setHwr, HwState.withBoard]
              · exact not_reservedFor_of_reserved reserved
            · exact Life.exiting pointer (Or.inl rfl) fun _ some => absurd rfl some

end Exit

end Rhino.Access
