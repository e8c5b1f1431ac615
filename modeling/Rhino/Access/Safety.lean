import Rhino.Access.Life
import Rhino.Ioreg.Serial

/-!
# No access after exit

A call looks up the process once and goes to the bus later, and nothing that
`borph_exit_fpga` does waits for it.  `AccessOwned` therefore fails in general.
It holds in every run whose steps come in the order that `Orderly` describes.

The invariant has two parts.  The lives of all processes agree with the kernel,
so that a process whose status is set and that is not exiting owns the FPGA.  And
a call in flight is on a register of a process that owns it: the steps of other
processes leave the FPGA alone while it is reserved, and of those of the process
itself only its exit does not.
-/

namespace Rhino.Access

open Rhino.Bof Rhino.Hwr Rhino.Ioreg Rhino.Kernel Rhino.Loader Rhino.Transition

variable {ι β : Type}

/-! ## Calls -/

/-- A call goes on to the semaphore only if it has found a record. -/
theorem found_of_inFlight_entry {req : Request} (inFlight : InFlight req.entry) :
    req.env.task = true ∧ req.env.info = true := by
  have enters := enters_entry req
  generalize req.entry = stage at enters inFlight
  cases enters with
  | returned ending => exact absurd inFlight.2 nofun
  | found task info => exact ⟨task, info⟩

theorem inFlight_of_accesses {stage : Stage} (access : accesses stage = true) :
    InFlight stage := by
  unfold accesses at access
  split at access
  · exact ⟨nofun, rfl⟩
  · exact ⟨nofun, rfl⟩
  · contradiction

/-! ## The invariant -/

/-- Every process has a life. -/
structure Books (w : World ι β) : Prop where
  registry : Registry w.kernel.hw
  pointers : Pointers w.kernel
  life : ∀ task, Life w.kernel task (w.exits task) (w.loadOf task)

/-- The calls in flight are on registers of processes that own the FPGA. -/
structure Inv (owner : ι → Task) (w : World ι β) : Prop extends Books w where
  flights : ∀ i, InFlight (w.calls.threads i) → OwnsFpga w.kernel (owner i)

theorem Life.eq_none_of_absent {kernel : KernelState RhinoDev} {task : Task}
    {exit : Option Exit} {load : Option Load} (life : Life kernel task exit load)
    (pointer : kernel.borphInfo task = none) : exit = none := by
  cases life with
  | absent _ => rfl
  | resident _ _ _ => rfl
  | loading _ _ _ _ _ => rfl
  | exiting found _ _ =>
      rw [pointer] at found
      contradiction

theorem Life.eq_none_of_exiting {kernel : KernelState RhinoDev} {task : Task} {exit : Exit}
    {load : Option Load} (life : Life kernel task (some exit) load) : load = none := by
  cases life with
  | exiting _ _ _ => rfl

section Invariant

variable {owner : ι → Task} {w next : World ι β} {task : Task}

theorem loadOf_of_busy {load : Load} (busy : w.daemon = .busy load) :
    w.loadOf load.item.task = some load := by
  rw [World.loadOf, busy]
  exact if_pos rfl

theorem loadOf_of_ne {load : Load} (busy : w.daemon = .busy load)
    (ne : task ≠ load.item.task) : w.loadOf task = none := by
  rw [World.loadOf, busy]
  exact if_neg (Ne.symm ne)

theorem Inv.congr (inv : Inv owner w) (kernel : next.kernel = w.kernel)
    (threads : next.calls.threads = w.calls.threads) (exits : next.exits = w.exits)
    (loads : next.loadOf = w.loadOf) : Inv owner next := by
  constructor
  · constructor
    · rw [kernel]
      exact inv.registry
    · rw [kernel]
      exact inv.pointers
    · rw [kernel, exits, loads]
      exact inv.life
  · rw [kernel, threads]
    exact inv.flights

/-- A step on behalf of a task keeps the invariant if the task is accounted for
and its calls in flight, if any, are spared. -/
theorem Inv.act (inv : Inv owner w) (turn : Turn task w.kernel next.kernel)
    (threads : next.calls.threads = w.calls.threads)
    (exits : ∀ other, other ≠ task → next.exits other = w.exits other)
    (loads : ∀ other, other ≠ task → next.loadOf other = w.loadOf other)
    (life : Life next.kernel task (next.exits task) (next.loadOf task))
    (spared : ∀ i, owner i = task → InFlight (w.calls.threads i) → OwnsFpga w.kernel task →
      next.kernel.hw = w.kernel.hw) : Inv owner next := by
  refine ⟨⟨turn.registry, turn.pointers, ?_⟩, ?_⟩
  · intro other
    by_cases same : other = task
    · rw [same]
      exact life
    · rw [exits other same, loads other same]
      exact (turn.others other same).life (inv.life other)
  · intro i inFlight
    rw [threads] at inFlight
    have owns := inv.flights i inFlight
    by_cases same : owner i = task
    · exact owns.congr (spared i same inFlight (same ▸ owns))
    · exact (turn.others _ same).ownsFpga owns

/-! ## Steps -/

theorem Inv.beginExit (inv : Inv owner w) (idle : w.exits task = none)
    (unloaded : w.loadOf task = none) : Inv owner (w.beginExit task) := by
  unfold World.beginExit
  split
  · exact inv
  · next bi pointer =>
      have life := inv.life task
      rw [idle, unloaded] at life
      cases life with
      | absent missing =>
          rw [pointer] at missing
          contradiction
      | resident found lists _ =>
          rcases Option.some.inj (pointer.symm.trans found) with rfl
          obtain ⟨turn, exiting⟩ := Life.exitBegin inv.registry inv.pointers pointer lists
          apply inv.act turn
          · rfl
          · intro other ne
            exact Function.update_of_ne ne _ _
          · intro other _
            rfl
          · change Life _ task (Function.update w.exits task _ task) (w.loadOf task)
            rw [Function.update_self, unloaded]
            exact exiting
          · intro _ _ _ _
            rfl

/-- The daemon takes an item for a process without a record. -/
theorem Inv.beginLoad (inv : Inv owner w) (idle : w.daemon = .idle) {item : ExecqItem}
    (env : LoadEnv ConfigRun) (absent : w.kernel.borphInfo item.task = none)
    (chips : 0 < item.bprm.buf.bNumchip.toNat) : Inv owner (w.beginLoad item env) := by
  have unloaded (other : Task) : w.loadOf other = none := by
    rw [World.loadOf, idle]
  have exits := (inv.life item.task).eq_none_of_absent absent
  unfold World.beginLoad
  split
  · dsimp only
    apply inv.act (Turn.loadStart inv.registry inv.pointers item env)
    · rfl
    · intro other _
      rfl
    · intro other ne
      rw [unloaded]
      exact if_neg (Ne.symm ne)
    · change Life _ _ (w.exits item.task) (if item.task = item.task then some _ else none)
      rw [exits, if_pos rfl]
      apply Life.loading
      · rfl
      · exact Function.update_self _ _ _
      · simp [loadStart, BorphInfo.fresh]
      · exact chips
      · constructor
        · left
          simp [loadStart, BorphInfo.fresh]
        · intro later
          exact absurd rfl later
    · intro _ _ _ _
      rfl
  · refine inv.congr rfl rfl rfl ?_
    funext other
    exact (unloaded other).symm

theorem Load.item_advance (load : Load) (s : LoadState RhinoDev) :
    (load.advance s).item = load.item := by
  unfold Load.advance
  split <;> rfl

theorem Load.bi_advance (load : Load) (s : LoadState RhinoDev) :
    (load.advance s).bi = load.bi := by
  unfold Load.advance
  split <;> rfl

/-- A load that fails leaves its process with a record whose status is not set. -/
theorem Inv.leave {load : Load} (inv : Inv owner w) (busy : w.daemon = .busy load)
    (kept : load.Kept w.kernel next.kernel)
    (lists : Lists next.kernel load.item.task (next.kernel.infos load.bi).hwRegion)
    (idle : w.exits load.item.task = none) (threads : next.calls.threads = w.calls.threads)
    (exits : next.exits = w.exits) (unloaded : ∀ other, next.loadOf other = none) :
    Inv owner next := by
  apply inv.act kept.turn threads
  · intro other _
    rw [exits]
  · intro other ne
    rw [unloaded, loadOf_of_ne busy ne]
  · rw [unloaded, exits, idle]
    apply Life.resident kept.pointer lists
    intro set
    exact absurd kept.status set
  · intro _ _ _ owns
    exact kept.owned owns

/-- The daemon after a stage. -/
theorem Inv.afterStage {load : Load} (inv : Inv owner w) (busy : w.daemon = .busy load)
    (idle : w.exits load.item.task = none) (chips : 0 < load.item.bprm.buf.bNumchip.toNat)
    {result : Except (Halt RhinoDev) (LoadState RhinoDev)}
    (ends : load.Ends w.kernel result) : Inv owner (w.afterStage load result) := by
  cases ends with
  | @goesOn s kept holds =>
      have own : (load.advance s).item.task = load.item.task := by rw [load.item_advance]
      have found : (w.afterStage load (.ok s)).loadOf load.item.task = some (load.advance s) := by
        rw [← own]
        exact loadOf_of_busy rfl
      apply inv.act kept.turn
      · rfl
      · intro other _
        rfl
      · intro other ne
        rw [loadOf_of_ne busy ne]
        apply loadOf_of_ne rfl
        rw [own]
        exact ne
      · rw [found]
        change Life s.kernel _ (w.exits load.item.task) _
        rw [idle]
        apply Life.loading own
        · rw [load.bi_advance]
          exact kept.pointer
        · rw [load.bi_advance]
          exact kept.status
        · rw [load.item_advance]
          exact chips
        · exact holds
      · intro _ _ _ owns
        exact kept.owned owns
  | @stops stop s kept lists =>
      cases stop with
      | delregion exit =>
          apply Inv.beginExit
          · exact inv.leave busy kept lists idle rfl rfl fun _ => rfl
          · exact idle
          · rfl
      | oops => exact inv.leave busy kept lists idle rfl rfl fun _ => rfl
      | stuck => exact inv.leave busy kept lists idle rfl rfl fun _ => rfl

theorem Inv.stepLoad {load : Load} (inv : Inv owner w) (busy : w.daemon = .busy load)
    (taken : w.stepLoad load = some next) : Inv owner next := by
  have life := inv.life load.item.task
  rw [loadOf_of_busy busy] at life
  generalize idle : w.exits load.item.task = exit at life
  cases life with
  | loading _ pointer status chips holds =>
      unfold World.stepLoad at taken
      split at taken
      · next complete =>
          cases taken
          rcases complete with ⟨stage, turns⟩
          simp only [Load.Holds, stage] at holds
          have owns := holds.2 (by rw [turns]; exact chips.ne')
          apply inv.act (Turn.modifyInfo inv.registry inv.pointers pointer
            fun info => { info with status := info.status ||| 1 })
          · rfl
          · intro other _
            rfl
          · intro other ne
            rw [loadOf_of_ne busy ne]
            rfl
          · change Life _ load.item.task (w.exits load.item.task) none
            rw [idle]
            apply Life.resident
            · exact pointer
            · have lists : Lists (w.kernel.modifyInfo load.bi
                  fun info => { info with status := info.status ||| 1 }) load.item.task
                    (w.kernel.infos load.bi).hwRegion := holds.1
              simpa [KernelState.modifyInfo] using lists
            · intro _
              exact owns.congr rfl
          · intro _ _ _ _
            rfl
      · split at taken
        · contradiction
        · cases taken
          exact inv.afterStage busy idle chips
            (Load.ends inv.registry inv.pointers pointer status holds)

/-- An exit goes on while no call is in flight on its process. -/
theorem Inv.stepExit (inv : Inv owner w) (taken : w.stepExit task = some next)
    (quiet : ∀ i, owner i = task → ¬ InFlight (w.calls.threads i)) : Inv owner next := by
  obtain ⟨exit, found, rfl⟩ := Option.map_eq_some_iff.mp taken
  have life := inv.life task
  rw [found] at life
  have unloaded := life.eq_none_of_exiting
  rw [unloaded] at life
  obtain ⟨turn, lives⟩ := Life.exitStep inv.registry inv.pointers life
  apply inv.act turn
  · rfl
  · intro other ne
    exact Function.update_of_ne ne _ _
  · intro other _
    rfl
  · change Life _ task (Function.update w.exits task _ task) (w.loadOf task)
    rw [Function.update_self, unloaded]
    exact lives
  · intro i own inFlight
    exact absurd inFlight (quiet i own)

/-- A call goes on, or looks up a process that owns the FPGA. -/
theorem Inv.call [DecidableEq ι] (inv : Inv owner w) {bus : Bus β} {map : FpgaMap}
    {requests : ι → Request} {i : ι} {gaveUp : Bool} {calls : Program.State ι Stage (Shared β)}
    (taken : (ioregProgram bus map requests).step w.calls (i, gaveUp) = some calls)
    (lookup : w.calls.threads i = .enter → InFlight (requests i).entry →
      OwnsFpga w.kernel (owner i)) : Inv owner { w with calls := calls } := by
  obtain ⟨after, alone, threads⟩ := Program.alone_of_step taken
  refine ⟨⟨inv.registry, inv.pointers, inv.life⟩, ?_⟩
  intro j inFlight
  change InFlight (calls.threads j) at inFlight
  rw [threads] at inFlight
  by_cases same : j = i
  · subst same
    rw [Function.update_self] at inFlight
    by_cases enter : w.calls.threads j = .enter
    · rw [enter] at alone
      cases alone
      exact lookup enter inFlight
    · apply inv.flights j
      refine ⟨enter, ?_⟩
      -- A call that has returned makes no step.
      by_contra ended
      obtain ⟨ending, returned⟩ := Option.ne_none_iff_exists'.mp ended
      have stopped : (ioregProgram bus map requests).next j (w.calls.threads j) = .stop :=
        next_of_ended bus map returned
      simp [Program.alone, stopped] at alone
  · rw [Function.update_of_ne same] at inFlight
    exact inv.flights j inFlight

/-- A process that is ready owns the FPGA. -/
theorem Inv.ownsFpga_of_ready (inv : Inv owner w) (ready : w.ready task = true) :
    OwnsFpga w.kernel task := by
  unfold World.ready at ready
  rw [Bool.and_eq_true, Option.isNone_iff_eq_none, Option.any_eq_true] at ready
  obtain ⟨idle, bi, pointer, status⟩ := ready
  have status : (w.kernel.infos bi).status ≠ 0 := of_decide_eq_true status
  have life := inv.life task
  rw [idle] at life
  generalize w.loadOf task = load at life
  cases life with
  | absent missing =>
      rw [pointer] at missing
      contradiction
  | resident found _ owns =>
      rcases Option.some.inj (pointer.symm.trans found) with rfl
      exact owns status
  | loading _ found unset =>
      rcases Option.some.inj (pointer.symm.trans found) with rfl
      exact absurd unset status

theorem Inv.step [DecidableEq ι] {bus : Bus β} {map : FpgaMap} {requests : ι → Request}
    {label : Label ι} (inv : Inv owner w) (orderly : Orderly requests owner w label)
    (taken : step bus map requests owner w label = some next) : Inv owner next := by
  cases label with
  | call i gaveUp =>
      simp only [Access.step] at taken
      split at taken
      · contradiction
      · obtain ⟨calls, stepped, rfl⟩ := Option.map_eq_some_iff.mp taken
        apply inv.call stepped
        intro enter inFlight
        obtain ⟨task, info⟩ := found_of_inFlight_entry inFlight
        exact inv.ownsFpga_of_ready (orderly enter task info)
  | load item env =>
      simp only [Access.step] at taken
      split at taken
      · next idle =>
          cases taken
          exact inv.beginLoad idle env orderly.1 orderly.2
      · contradiction
  | daemon =>
      simp only [Access.step] at taken
      split at taken
      · next load busy => exact inv.stepLoad busy taken
      · contradiction
  | exit task =>
      simp only [Access.step] at taken
      split at taken
      · contradiction
      · next idle =>
          cases taken
          exact inv.beginExit (Option.not_isSome_iff_eq_none.mp idle)
            (Option.isNone_iff_eq_none.mp orderly)
  | teardown task => exact inv.stepExit taken orderly

end Invariant

theorem inv_boot (bus : Bus β) (map : FpgaMap) (requests : ι → Request) (owner : ι → Task)
    (page : RhinoPage) (device : β) : Inv owner (boot bus map requests page device) := by
  constructor
  · constructor
    · exact ⟨bootKernel_rhinoOnly, Or.inr ⟨rfl, rfl⟩⟩
    · exact ⟨nofun, nofun⟩
    · intro task
      exact Life.absent rfl
  · intro i inFlight
    exact absurd rfl inFlight.1

/-- Register calls of any number of processes, interleaved with the steps of loads
and of exits in any order that is orderly, make every access to the bus while the
process of the register owns the configured, powered FPGA. -/
theorem access_owned_of_orderly {ι β : Type} [DecidableEq ι] (bus : Bus β) (map : FpgaMap)
    (requests : ι → Request) (owner : ι → Task) (page : RhinoPage) (device : β)
    (labels : List (Label ι))
    (orderly : Along (step bus map requests owner) (Orderly requests owner)
      (boot bus map requests page device) labels) :
    Along (step bus map requests owner) (AccessOwned owner)
      (boot bus map requests page device) labels := by
  apply Along.imp (Inv owner) _ _ (inv_boot bus map requests owner page device) orderly
  · intro w label inv _
    cases label with
    | call i gaveUp =>
        intro access
        exact inv.flights i (inFlight_of_accesses access)
    | load item env => trivial
    | daemon => trivial
    | exit task => trivial
    | teardown task => trivial
  · intro w label next inv orderly taken
    exact inv.step orderly taken

/-! ## Runs -/

/-- The daemon loads a file of one region for the process, in four steps. -/
def loads (task : Task) : List (Label Bool) :=
  .load (sampleItem task 1 loneRegion [0xaa]) (calmLoad smoothConfig) ::
    List.replicate 4 .daemon

/-- The process exits, in four steps. -/
def exits (task : Task) : List (Label Bool) :=
  .exit task :: List.replicate 4 (.teardown task)

/-- The writing call of `writeAndRead`, from the semaphore on. -/
def writes : List (Label Bool) :=
  List.replicate 11 (.call false false)

/-- The state of the board before process 1 is loaded. -/
def bootBoard : World Bool UInt16 :=
  boot registerBus sampleMap writeAndRead ⟨0, 0, 0, fun _ => 0⟩ 0

/-- Process 1 is loaded, a register of it is written, and it exits. -/
theorem access_owned_write_before_exit :
    (run (step registerBus sampleMap writeAndRead fun _ => 1) bootBoard
        (loads 1 ++ .call false false :: writes ++ exits 1)).map (·.calls.res.device) =
      some 0x3131 ∧
    Along (step registerBus sampleMap writeAndRead fun _ => 1) (AccessOwned fun _ => 1)
      bootBoard (loads 1 ++ .call false false :: writes ++ exits 1) :=
  ⟨by decide +kernel, access_owned_of_orderly registerBus sampleMap writeAndRead (fun _ => 1) _ _ _
    (by decide +kernel)⟩

/-- The call has looked up process 1 when this process exits and process 2 is
loaded.  It then writes to the FPGA of process 2. -/
theorem write_after_exit :
    (run (step registerBus sampleMap writeAndRead fun _ => 1) bootBoard
        (loads 1 ++ .call false false :: exits 1 ++ loads 2 ++ writes)).any
      (fun w => w.calls.res.device = 0x3131 ∧ OwnsFpga w.kernel 2) = true ∧
    ¬ Along (step registerBus sampleMap writeAndRead fun _ => 1) (AccessOwned fun _ => 1)
      bootBoard (loads 1 ++ .call false false :: exits 1 ++ loads 2 ++ writes) := by
  constructor
  · decide +kernel
  · decide +kernel

end Rhino.Access
