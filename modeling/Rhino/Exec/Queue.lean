import Rhino.Exec.Handoff

/-!
# The queue of the daemon

Tasks append to `execq_list`, the daemon takes from its front: what it hands to
`borph_load_hw` is, item by item, what was appended.

The daemon goes to sleep when it finds the queue empty, and the test and the
sleep are two steps.  It is on the wait queue and marked as a sleeper before the
test, so that a task that appends its item behind the test makes the daemon
runnable with its `wake_up`.
-/

namespace Rhino.Exec

open Rhino.Hwr Rhino.Transition

/-! ## Order -/

/-- The item that the daemon is about to hand to `borph_load_hw`. -/
def DaemonPc.toLoad : DaemonPc → List Item
  | .loading item => [item]
  | _ => []

/-- The items that have been appended and not been handed on. -/
def State.unloaded (s : State) : List Item :=
  s.daemon.pc.toLoad ++ s.queue

/-- The item that a step appends to the queue. -/
def appends (s : State) : Label → List Item
  | .exec task fileErr => [⟨s.nextItem, task, fileErr⟩]
  | _ => []

/-- The item with which a step calls `borph_load_hw`. -/
def loads (s : State) : Label → List Item
  | .daemon _ => s.daemon.pc.toLoad
  | _ => []

theorem Daemon.wake_toLoad (d : Daemon) : d.wake.pc.toLoad = d.pc.toLoad := by
  unfold Daemon.wake
  split
  · cases d.pc <;> rfl
  · rfl

/-- A step of a task leaves the queue alone; the daemon notices only the
`wake_up`, and that only on the wait queue. -/
theorem taskStep_daemon {s next : State} {task : Task} (taken : taskStep task s = some next) :
    next.queue = s.queue ∧
      ((∃ item, (s.tasks task).pc = .appended item ∧
          next.daemon = if s.daemon.waitQueued then s.daemon.wake else s.daemon) ∨
        (∀ item, (s.tasks task).pc ≠ .appended item) ∧ next.daemon = s.daemon) := by
  cases place : (s.tasks task).pc with
  | outside => simp [taskStep, place] at taken
  | asleep item => simp [taskStep, place] at taken
  | appended item =>
      simp only [taskStep, place, Option.some.injEq] at taken
      subst taken
      exact ⟨rfl, Or.inl ⟨item, rfl, rfl⟩⟩
  | notified item | testing item =>
      simp only [taskStep, place, Option.some.injEq] at taken
      subst taken
      exact ⟨rfl, Or.inr ⟨by simp, rfl⟩⟩
  | marked item =>
      simp only [taskStep, place] at taken
      split at taken
      · rcases Option.some.inj taken with rfl
        exact ⟨rfl, Or.inr ⟨by simp, rfl⟩⟩
      · rcases Option.some.inj taken with rfl
        exact ⟨rfl, Or.inr ⟨by simp, rfl⟩⟩

theorem DaemonPc.toLoad_eq_of_inHand {pc : DaemonPc} (free : pc.inHand = []) : pc.toLoad = [] := by
  cases pc with
  | loading item => simp [DaemonPc.inHand] at free
  | _ => rfl

theorem daemonStep_unloaded {s next : State} {retval : ℤ}
    (taken : daemonStep retval s = some next) :
    s.unloaded = s.daemon.pc.toLoad ++ next.unloaded ∧ next.nextItem = s.nextItem := by
  cases daemonMove_of_step taken with
  | walk walks =>
      obtain ⟨before, after⟩ := walks.inHand_eq
      simp [State.unloaded, DaemonPc.toLoad_eq_of_inHand before,
        DaemonPc.toLoad_eq_of_inHand after]
  | take pc queue_eq => simp [State.unloaded, pc, DaemonPc.toLoad, queue_eq]
  | load pc | store pc => simp [State.unloaded, pc, DaemonPc.toLoad]
  | wake pc => simp [State.unloaded, pc, DaemonPc.toLoad, State.setTask]

/-- The buffer between tasks and loader: a step adds at its end what it appends
and takes from its front what it loads. -/
theorem step_unloaded {s next : State} {label : Label} (taken : step s label = some next) :
    s.unloaded ++ appends s label = loads s label ++ next.unloaded := by
  cases label with
  | exec task fileErr =>
      simp only [step, Option.ite_none_right_eq_some, Option.some.injEq] at taken
      rcases taken with ⟨-, rfl⟩
      simp [State.unloaded, appends, loads, enqueue, State.setTask]
  | task task =>
      rcases taskStep_daemon taken with ⟨queue_eq, ⟨_, _, daemon_eq⟩ | ⟨_, daemon_eq⟩⟩
      · simp only [State.unloaded, appends, loads, queue_eq, daemon_eq]
        split <;> simp [Daemon.wake_toLoad]
      · simp [State.unloaded, appends, loads, queue_eq, daemon_eq]
  | daemon retval =>
      exact (List.append_nil _).trans (daemonStep_unloaded taken).1
  | signal task =>
      rcases Option.some.inj taken with rfl
      simp [State.unloaded, appends, loads, signalTask, State.setTask]
  | deliver task =>
      simp only [step, Option.ite_none_right_eq_some, Option.some.injEq] at taken
      rcases taken with ⟨-, rfl⟩
      simp [State.unloaded, appends, loads, State.setTask]
  | signalDaemon =>
      rcases Option.some.inj taken with rfl
      simp [State.unloaded, appends, loads, Daemon.wake_toLoad]

theorem step_nextItem {s next : State} {label : Label} (taken : step s label = some next) :
    next.nextItem = s.nextItem + (appends s label).length := by
  cases label with
  | exec task fileErr =>
      simp only [step, Option.ite_none_right_eq_some, Option.some.injEq] at taken
      rcases taken with ⟨-, rfl⟩
      rfl
  | task task =>
      rcases taskStep_cases taken with ⟨_, _, _, _, nextItem_eq, _⟩
      exact nextItem_eq
  | daemon retval => exact (daemonStep_unloaded taken).2
  | signal task =>
      rcases Option.some.inj taken with rfl
      rfl
  | deliver task =>
      simp only [step, Option.ite_none_right_eq_some, Option.some.injEq] at taken
      rcases taken with ⟨-, rfl⟩
      rfl
  | signalDaemon =>
      rcases Option.some.inj taken with rfl
      rfl

/-- The items of a run are numbered in the order in which they are appended. -/
theorem history_appends_number {labels : List Label} {s final : State}
    (finished : run step s labels = some final) :
    (history step appends s labels).map Item.number =
      List.range' s.nextItem (history step appends s labels).length := by
  induction labels generalizing s with
  | nil => rfl
  | cons label rest ih =>
      obtain ⟨next, taken, finished⟩ := (run_cons_eq_some_iff step).mp finished
      have later := ih finished
      rw [step_nextItem taken] at later
      rw [history_cons taken, List.map_append, later, List.length_append]
      cases label with
      | exec task fileErr =>
          simp only [appends, List.length_singleton, List.map_singleton, List.singleton_append]
          rw [Nat.add_comm 1, List.range'_succ]
      | task | daemon | signal | deliver | signalDaemon => simp [appends]

theorem nodup_history_appends {labels : List Label} {s final : State}
    (finished : run step s labels = some final) :
    (history step appends s labels).Nodup := by
  apply List.Nodup.of_map Item.number
  rw [history_appends_number finished]
  exact List.nodup_range'

/-! ## Sleep -/

/-- The daemon sleeps on a queue that is not empty, and every task that has
appended an item has done its `wake_up`. -/
def Overslept (s : State) : Prop :=
  s.daemon.pc = .asleep ∧ s.queue ≠ [] ∧ ∀ task item, (s.tasks task).pc ≠ .appended item

/-- There is nothing in the queue, or a task is about to wake the daemon. -/
def Answered (s : State) : Prop :=
  s.queue = [] ∨ ∃ task item, (s.tasks task).pc = .appended item

/-- Between its test of the queue and its sleep the daemon can be woken, and if
it has not been then there is no need to. -/
structure Alert (s : State) : Prop where
  queued : s.daemon.pc = .listed ∨ s.daemon.pc = .blocking ∨ s.daemon.pc = .asleep →
    s.daemon.waitQueued = true
  sleeps : s.daemon.pc = .asleep → s.daemon.interruptible = true
  answered : s.daemon.pc = .blocking ∨ s.daemon.pc = .asleep →
    s.daemon.interruptible = true → Answered s

theorem Alert.not_overslept {s : State} (alert : Alert s) : ¬ Overslept s := by
  rintro ⟨sleeps, nonempty, notified⟩
  rcases alert.answered (Or.inr sleeps) (alert.sleeps sleeps) with empty | ⟨task, item, appended⟩
  · exact nonempty empty
  · exact notified task item appended

/-- A daemon that can be woken is awake afterwards and not marked as a sleeper;
else the wake-up leaves it where it is, and on the wait queue if it is there. -/
theorem Daemon.wake_awake {d : Daemon} (sleeps : d.pc = .asleep → d.interruptible = true) :
    d.wake.pc ≠ .asleep ∧ d.wake.interruptible = false ∧ d.wake.waitQueued = d.waitQueued ∧
      (d.wake.pc = .resumed ∨ d.wake.pc = d.pc) := by
  unfold Daemon.wake
  cases awake : d.interruptible with
  | true =>
      cases place : d.pc <;> simp [DaemonPc.wake]
  | false =>
      refine ⟨?_, awake, rfl, Or.inr rfl⟩
      intro asleep
      rw [sleeps asleep] at awake
      contradiction

theorem Alert.wake {s next : State} (alert : Alert s)
    (daemon_eq : next.daemon = s.daemon.wake) : Alert next := by
  rcases Daemon.wake_awake alert.sleeps with ⟨awake, unmarked, queued_eq, place_eq⟩
  rw [← daemon_eq] at awake unmarked queued_eq place_eq
  constructor
  · intro place
    rw [queued_eq]
    apply alert.queued
    rcases place_eq with resumed | same
    · rw [resumed] at place
      simp at place
    · rwa [same] at place
  · intro asleep
    exact absurd asleep awake
  · intro _ interruptible
    rw [unmarked] at interruptible
    contradiction

/-- A step that leaves the daemon as it is. -/
theorem Alert.same {s next : State} (alert : Alert s) (daemon_eq : next.daemon = s.daemon)
    (answered : Answered s → Answered next) : Alert next := by
  constructor
  · rw [daemon_eq]
    exact alert.queued
  · rw [daemon_eq]
    exact alert.sleeps
  · rw [daemon_eq]
    intro place interruptible
    exact answered (alert.answered place interruptible)

/-- Off the wait queue there is nothing to answer for. -/
theorem Alert.unlisted {s next : State} (alert : Alert s)
    (off : s.daemon.waitQueued = false) (daemon_eq : next.daemon = s.daemon) : Alert next := by
  have elsewhere (place : s.daemon.pc = .listed ∨ s.daemon.pc = .blocking ∨
      s.daemon.pc = .asleep) : False := by
    rw [alert.queued place] at off
    contradiction
  constructor
  · rw [daemon_eq]
    exact fun place => (elsewhere place).elim
  · rw [daemon_eq]
    exact fun place => (elsewhere (Or.inr (Or.inr place))).elim
  · rw [daemon_eq]
    exact fun place => (elsewhere (Or.inr place)).elim

/-- The steps of the daemon itself: it enters the wait queue in front of the
test, and goes on to sleep only behind a test that found the queue empty. -/
theorem Alert.daemon {s next : State} (alert : Alert s) {retval : ℤ}
    (taken : daemonStep retval s = some next) : Alert next := by
  cases daemonMove_of_step taken with
  | take pc queue_eq => constructor <;> simp
  | load pc => constructor <;> simp
  | store pc => constructor <;> simp
  | wake pc => constructor <;> simp
  | walk walks =>
      cases walks with
      | block pc empty =>
          have queued := alert.queued (Or.inl pc)
          exact ⟨fun _ => queued, by simp, fun _ _ => Or.inl empty⟩
      | sleep pc interruptible =>
          have queued := alert.queued (Or.inr (Or.inl pc))
          have answered := alert.answered (Or.inl pc) interruptible
          exact ⟨fun _ => queued, fun _ => interruptible, fun _ _ => answered⟩
      | mark | enlist | pass | resume | unmark | delist | stop | check | serve | again =>
          constructor <;> simp

/-- Another state of a task that is not about to wake the daemon. -/
theorem Answered.setTask {s : State} (answered : Answered s) {task : Task} (t : TaskState)
    (kept : ∀ item, (s.tasks task).pc = .appended item → t.pc = .appended item) :
    Answered (s.setTask task t) := by
  rcases answered with empty | ⟨other, item, appended⟩
  · exact Or.inl empty
  · refine Or.inr ⟨other, item, ?_⟩
    by_cases same : other = task
    · subst same
      rw [setTask_same]
      exact kept item appended
    · rwa [setTask_other _ _ same]

theorem TaskState.wake_appended {t : TaskState} {item : Item} (appended : t.pc = .appended item) :
    t.wake.pc = .appended item := by
  unfold TaskState.wake
  split
  · simp [appended, TaskPc.wake]
  · exact appended

theorem Alert.step {s next : State} {label : Label} (alert : Alert s)
    (taken : step s label = some next) : Alert next := by
  cases label with
  | exec task fileErr =>
      simp only [Exec.step, Option.ite_none_right_eq_some, Option.some.injEq] at taken
      rcases taken with ⟨-, rfl⟩
      apply Alert.same alert
      case daemon_eq => rfl
      intro _
      -- The task that appends has its `wake_up` still to come.
      exact Or.inr ⟨task, ⟨s.nextItem, task, fileErr⟩, by simp [enqueue]⟩
  | task task =>
      rcases taskStep_daemon taken with ⟨queue_eq, ⟨item, appended, daemon_eq⟩ |
        ⟨notAppended, daemon_eq⟩⟩
      · cases queued : s.daemon.waitQueued with
        | true =>
            rw [queued, if_pos rfl] at daemon_eq
            exact alert.wake daemon_eq
        | false =>
            rw [queued, if_neg Bool.false_ne_true] at daemon_eq
            exact alert.unlisted queued daemon_eq
      · rcases taskStep_cases taken with ⟨t, -, tasks_eq, -⟩
        apply alert.same daemon_eq
        rintro (empty | ⟨other, item, appended⟩)
        · exact Or.inl (queue_eq.trans empty)
        · refine Or.inr ⟨other, item, ?_⟩
          have ne : other ≠ task := by
            rintro rfl
            exact notAppended item appended
          rwa [tasks_eq, Function.update_of_ne ne]
  | daemon retval => exact alert.daemon taken
  | signal task =>
      rcases Option.some.inj taken with rfl
      apply Alert.same alert
      case daemon_eq => rfl
      intro answered
      exact answered.setTask _ fun item appended => TaskState.wake_appended appended
  | deliver task =>
      simp only [Exec.step, Option.ite_none_right_eq_some, Option.some.injEq] at taken
      rcases taken with ⟨-, rfl⟩
      apply Alert.same alert
      case daemon_eq => rfl
      intro answered
      exact answered.setTask _ fun item appended => appended
  | signalDaemon =>
      rcases Option.some.inj taken with rfl
      have marked : Alert { s with daemon := { s.daemon with pending := true } } :=
        ⟨alert.queued, alert.sleeps, alert.answered⟩
      exact marked.wake rfl

theorem Initial.alert {s : State} (initial : Initial s) : Alert s := by
  constructor <;> simp [initial.daemon]

/-- In every run, whatever signals are sent, the items handed to `borph_load_hw`
are the first of those appended, in their order and each once; and the daemon
does not sleep on a queue that every task has announced. -/
theorem execq_in_order {s final : State} (initial : Initial s) {labels : List Label}
    (finished : run step s labels = some final) :
    history step loads s labels <+: history step appends s labels ∧
      (history step appends s labels).Nodup ∧ ¬ Overslept final := by
  refine ⟨⟨final.unloaded, ?_⟩, nodup_history_appends finished, ?_⟩
  · have conserved := history_conserved State.unloaded
      (fun _ _ _ taken => step_unloaded taken) finished
    have empty : s.unloaded = [] := by
      simp [State.unloaded, initial.daemon, initial.queue, DaemonPc.toLoad]
    rw [empty, List.nil_append] at conserved
    exact conserved.symm
  · have alert := run_invariant Alert (fun _ _ _ alert taken => alert.step taken)
      initial.alert finished
    exact alert.not_overslept

theorem execq_in_order_exchange :
    Initial quiet ∧ (run step quiet exchange).isSome = true ∧
      history step loads quiet exchange <+: history step appends quiet exchange :=
  ⟨quiet_initial, exchange_finishes,
    (execq_in_order quiet_initial (Option.some_get exchange_finishes).symm).1⟩

end Rhino.Exec
