import Mathlib.Logic.Function.Basic
import Mathlib.Logic.Relation
import Rhino.Transition.Run

/-!
# Threads that share a resource behind a lock

A thread is a program over private states: it stops, makes a private step, takes
the lock, works on the shared resource, or gives the lock back.  Nothing but the
program of a thread keeps it from working on the resource without the lock.  A
`Program` carries the proof that its threads do so only between taking the lock
and giving it back, and that none takes it twice.  A thread may stop without
giving the lock back, and a thread that waits for the lock may give up.

`Inv` is the invariant of every interleaving: the resource and the threads are
as if the sections had been run one at a time, in the order in which the lock
was taken.
-/

namespace Rhino.Transition

universe u v w x

/-- The next action of a thread. -/
inductive Act (π : Type u) (ρ : Type v) where
  | stop
  | inner (next : π)
  | acquire (got gaveUp : π)
  | work (run : ρ → π × ρ)
  | release (next : π)

/-- Where a thread is with respect to its section. -/
inductive Phase where
  | before
  | inside
  | after
  deriving DecidableEq, Repr

/-- The action respects the lock. -/
def Act.Disciplined {π : Type u} {ρ : Type v} (phase : π → Phase) (state : π) : Act π ρ → Prop
  | .stop => True
  | .inner next =>
      phase next = phase state ∨ (phase state = .before ∧ phase next = .after)
  | .acquire got gaveUp =>
      phase state = .before ∧ phase got = .inside ∧ phase gaveUp = .after
  | .work run => phase state = .inside ∧ ∀ res, phase (run res).1 = .inside
  | .release next => phase state = .inside ∧ phase next = .after

/-- Threads that respect the lock. -/
structure Program (ι : Type u) (π : Type v) (ρ : Type w) where
  init : ι → π
  next : ι → π → Act π ρ
  phase : π → Phase
  init_before : ∀ i, phase (init i) = .before
  disciplined : ∀ i state, (next i state).Disciplined phase state

namespace Program

variable {ι : Type u} {π : Type v} {ρ : Type w} (program : Program ι π ρ)

/-! ## A thread on its own -/

/-- One step of a thread that has the resource to itself; `gaveUp` says how its
wait for the lock ends. -/
def alone (i : ι) (gaveUp : Bool) (s : π × ρ) : Option (π × ρ) :=
  match program.next i s.1 with
  | .stop => none
  | .inner next => some (next, s.2)
  | .acquire got left => some (if gaveUp then left else got, s.2)
  | .work run => some (run s.2)
  | .release next => some (next, s.2)

/-- What a thread that has the resource to itself can get to. -/
def Reaches (i : ι) (gaveUp : Bool) : π × ρ → π × ρ → Prop :=
  Relation.ReflTransGen fun s t => program.alone i gaveUp s = some t

variable {program}

theorem Reaches.step {i : ι} {gaveUp : Bool} {s t : π × ρ}
    (taken : program.alone i gaveUp s = some t) : program.Reaches i gaveUp s t :=
  Relation.ReflTransGen.single taken

theorem Reaches.head {i : ι} {gaveUp : Bool} {first middle last : π × ρ}
    (taken : program.alone i gaveUp first = some middle)
    (reaches : program.Reaches i gaveUp middle last) : program.Reaches i gaveUp first last :=
  Relation.ReflTransGen.head taken reaches

/-- What the last step adds to what a thread has reached. -/
theorem Reaches.then {i : ι} {gaveUp : Bool} {first middle last : π × ρ}
    (reaches : program.Reaches i gaveUp first middle)
    (taken : program.alone i gaveUp middle = some last) : program.Reaches i gaveUp first last :=
  reaches.tail taken

/-- A thread that has stopped gets nowhere. -/
theorem Reaches.eq_of_stop {i : ι} {gaveUp : Bool} {s t : π × ρ}
    (reaches : program.Reaches i gaveUp s t) (stopped : program.next i s.1 = .stop) : t = s := by
  rcases Relation.ReflTransGen.cases_head reaches with rfl | ⟨next, taken, -⟩
  · rfl
  · simp [alone, stopped] at taken

/-- A thread that is past its section stays there and leaves the resource alone. -/
theorem Reaches.of_after {i : ι} {gaveUp : Bool} {s t : π × ρ}
    (reaches : program.Reaches i gaveUp s t) (after : program.phase s.1 = .after) :
    program.phase t.1 = .after ∧ t.2 = s.2 := by
  induction reaches with
  | refl => exact ⟨after, rfl⟩
  | tail _ taken ih =>
      rename_i middle last _
      have disciplined := program.disciplined i middle.1
      unfold alone at taken
      cases action : program.next i middle.1 with
      | stop => simp [action] at taken
      | inner next =>
          simp only [action, Option.some.injEq] at taken disciplined
          subst taken
          rcases disciplined with same | ⟨before, -⟩
          · exact ⟨same.trans ih.1, ih.2⟩
          · rw [ih.1] at before
            contradiction
      | acquire _ _ | work _ | release _ =>
          rw [action] at disciplined
          have phase := disciplined.1
          rw [ih.1] at phase
          contradiction

/-- Of two states that a thread gets to, one comes before the other. -/
theorem Reaches.total {i : ι} {gaveUp : Bool} {s t u : π × ρ}
    (first : program.Reaches i gaveUp s t) (second : program.Reaches i gaveUp s u) :
    program.Reaches i gaveUp t u ∨ program.Reaches i gaveUp u t := by
  apply Relation.ReflTransGen.total_of_right_unique _ first second
  intro a b c toB toC
  exact Option.some.inj (toB.symm.trans toC)

/-- A thread gets to the end of its program whatever else it gets to. -/
theorem Reaches.to_stop {i : ι} {gaveUp : Bool} {s t last : π × ρ}
    (reaches : program.Reaches i gaveUp s t) (ends : program.Reaches i gaveUp s last)
    (stopped : program.next i last.1 = .stop) : program.Reaches i gaveUp t last := by
  rcases reaches.total ends with onward | back
  · exact onward
  · rw [back.eq_of_stop stopped]
    exact Relation.ReflTransGen.refl

/-! ## All threads -/

variable (program)

/-- The threads, the lock, the resource, and the order in which the lock has
been taken. -/
structure State (ι : Type u) (π : Type v) (ρ : Type w) where
  threads : ι → π
  held : Bool
  res : ρ
  order : List ι

/-- Nothing has happened yet. -/
def start (res : ρ) : State ι π ρ where
  threads := program.init
  held := false
  res := res
  order := []

/-- The resource after complete sections of the given threads, one at a time. -/
inductive Served (res : ρ) : List ι → ρ → Prop where
  | nil : Served res [] res
  | snoc {order : List ι} {i : ι} {last next : ρ} {state : π} :
      Served res order last → program.Reaches i false (program.init i, last) (state, next) →
      program.phase state = .after → Served res (order ++ [i]) next

/-- The threads that never took the lock are as they would be with any resource.
A thread that took it is as it would be on its own, with the resource as the
threads before it left it; if it is inside, then it is the last one, and the
resource is its own. -/
structure Inv (res : ρ) (s : State ι π ρ) : Prop where
  fresh : ∀ i ∉ s.order, program.phase (s.threads i) = .before →
    ∀ gaveUp r, program.Reaches i gaveUp (program.init i, r) (s.threads i, r)
  outside : ∀ i ∉ s.order, program.phase (s.threads i) ≠ .inside ∧
    ∀ r, program.Reaches i true (program.init i, r) (s.threads i, r)
  served : ∀ earlier i later, s.order = earlier ++ i :: later →
    program.phase (s.threads i) ≠ .before ∧ ∃ r next, program.Served res earlier r ∧
      program.Reaches i false (program.init i, r) (s.threads i, next) ∧
      (program.phase (s.threads i) = .inside → later = [] ∧ s.held = true ∧ next = s.res)
  free : s.held = false → program.Served res s.order s.res
  holder : s.held = true → ∃ earlier i, s.order = earlier ++ [i] ∧
    program.phase (s.threads i) = .inside
  nodup : s.order.Nodup

variable {program} {res : ρ} {s : State ι π ρ}

theorem Inv.start (res : ρ) : program.Inv res (program.start res) where
  fresh _ _ _ _ _ := Relation.ReflTransGen.refl
  outside i _ := by
    refine ⟨?_, fun _ => Relation.ReflTransGen.refl⟩
    change program.phase (program.init i) ≠ .inside
    rw [program.init_before]
    exact Phase.noConfusion
  served earlier i later order := by
    have empty := congrArg List.length order
    simp [Program.start] at empty
  free _ := .nil
  holder held := Bool.noConfusion held
  nodup := List.nodup_nil

/-- The thread that is inside is the last one that took the lock. -/
theorem Inv.last_of_inside (inv : program.Inv res s) {i : ι}
    (inside : program.phase (s.threads i) = .inside) :
    ∃ earlier, s.order = earlier ++ [i] ∧ s.held = true ∧ ∃ r, program.Served res earlier r ∧
      program.Reaches i false (program.init i, r) (s.threads i, s.res) := by
  have mem : i ∈ s.order := by
    by_contra out
    exact (inv.outside i out).1 inside
  obtain ⟨earlier, later, order⟩ := List.append_of_mem mem
  obtain ⟨-, r, next, served, reaches, last⟩ := inv.served earlier i later order
  obtain ⟨rfl, held, rfl⟩ := last inside
  exact ⟨earlier, order, held, r, served, reaches⟩

theorem Inv.inside_unique (inv : program.Inv res s) {i j : ι}
    (first : program.phase (s.threads i) = .inside)
    (second : program.phase (s.threads j) = .inside) : j = i := by
  obtain ⟨earlier, order, -⟩ := inv.last_of_inside first
  obtain ⟨earlier', order', -⟩ := inv.last_of_inside second
  exact (List.append_singleton_inj.mp (order'.symm.trans order)).2

section Step

variable [DecidableEq ι]

/-- Replace the private state of a thread. -/
def State.set (s : State ι π ρ) (i : ι) (state : π) : State ι π ρ :=
  { s with threads := Function.update s.threads i state }

@[simp]
theorem State.set_threads_self (s : State ι π ρ) (i : ι) (state : π) :
    (s.set i state).threads i = state := by
  simp [State.set]

@[simp]
theorem State.set_threads_of_ne (s : State ι π ρ) {i j : ι} (ne : j ≠ i) (state : π) :
    (s.set i state).threads j = s.threads j := by
  simp [State.set, ne]

variable (program) in
/-- Thread `i` performs its next action.  A thread that would take the lock may
give up instead, and can take it only while it is free. -/
def step (s : State ι π ρ) (label : ι × Bool) : Option (State ι π ρ) :=
  let i := label.1
  match program.next i (s.threads i) with
  | .stop => none
  | .inner next => some (s.set i next)
  | .acquire got gaveUp =>
      if label.2 then some (s.set i gaveUp)
      else if s.held then none
      else some { s.set i got with held := true, order := s.order ++ [i] }
  | .work run => some { s.set i (run s.res).1 with res := (run s.res).2 }
  | .release next => some { s.set i next with held := false }

/-- A step of the system is a step of the thread that makes it. -/
theorem alone_of_step {s next : State ι π ρ} {i : ι} {gaveUp : Bool}
    (taken : program.step s (i, gaveUp) = some next) :
    ∃ after, program.alone i gaveUp (s.threads i, s.res) = some after ∧
      next.threads = Function.update s.threads i after.1 := by
  unfold Program.step at taken
  unfold alone
  dsimp only at taken ⊢
  split at taken
  · contradiction
  · cases taken
    exact ⟨_, rfl, rfl⟩
  · split at taken
    · next gaveUp =>
        cases taken
        rw [if_pos gaveUp]
        exact ⟨_, rfl, rfl⟩
    · next waits =>
        split at taken
        · contradiction
        · cases taken
          rw [if_neg waits]
          exact ⟨_, rfl, rfl⟩
  · cases taken
    exact ⟨_, rfl, rfl⟩
  · cases taken
    exact ⟨_, rfl, rfl⟩

section Keeps

variable (inv : program.Inv res s)
include inv

/-- A step that does not take the lock concerns only the thread that makes it,
as long as no other one is inside whose resource has changed. -/
theorem Inv.update (next : State ι π ρ) {i : ι} {state : π}
    (threads : next.threads = Function.update s.threads i state)
    (order : next.order = s.order)
    (others : ∀ j ≠ i, program.phase (s.threads j) = .inside →
      next.held = s.held ∧ next.res = s.res)
    (fresh : i ∉ s.order → program.phase state = .before →
      ∀ gaveUp r, program.Reaches i gaveUp (program.init i, r) (state, r))
    (outside : i ∉ s.order → program.phase state ≠ .inside ∧
      ∀ r, program.Reaches i true (program.init i, r) (state, r))
    (served : ∀ earlier later, s.order = earlier ++ i :: later →
      program.phase state ≠ .before ∧ ∃ r after, program.Served res earlier r ∧
        program.Reaches i false (program.init i, r) (state, after) ∧
        (program.phase state = .inside → later = [] ∧ next.held = true ∧ after = next.res))
    (free : next.held = false → program.Served res next.order next.res)
    (holder : next.held = true → ∃ earlier j, s.order = earlier ++ [j] ∧
      program.phase (next.threads j) = .inside) : program.Inv res next where
  fresh j out before := by
    rw [order] at out
    rw [threads] at before ⊢
    by_cases same : j = i
    · subst same
      rw [Function.update_self] at before ⊢
      exact fresh out before
    · rw [Function.update_of_ne same] at before ⊢
      exact inv.fresh j out before
  outside j out := by
    rw [order] at out
    rw [threads]
    by_cases same : j = i
    · subst same
      rw [Function.update_self]
      exact outside out
    · rw [Function.update_of_ne same]
      exact inv.outside j out
  served earlier j later split := by
    rw [order] at split
    rw [threads]
    by_cases same : j = i
    · subst same
      rw [Function.update_self]
      exact served earlier later split
    · rw [Function.update_of_ne same]
      obtain ⟨past, r, after, before, reaches, last⟩ := inv.served earlier j later split
      refine ⟨past, r, after, before, reaches, ?_⟩
      intro inside
      obtain ⟨held, res⟩ := others j same inside
      rw [held, res]
      exact last inside
  free := free
  holder held := by
    rw [order]
    exact holder held
  nodup := by
    rw [order]
    exact inv.nodup

theorem Inv.inner {i : ι} {state : π}
    (action : program.next i (s.threads i) = .inner state) : program.Inv res (s.set i state) := by
  have disciplined := program.disciplined i (s.threads i)
  rw [action] at disciplined
  have onward (gaveUp : Bool) (r : ρ) :
      program.alone i gaveUp (s.threads i, r) = some (state, r) := by
    simp [alone, action]
  apply inv.update (s.set i state) rfl rfl
  · intro _ _ _
    exact ⟨rfl, rfl⟩
  · intro out before gaveUp r
    have was : program.phase (s.threads i) = .before := by
      rcases disciplined with same | ⟨-, after⟩
      · exact same.symm.trans before
      · rw [before] at after
        contradiction
    exact (inv.fresh i out was gaveUp r).then (onward gaveUp r)
  · intro out
    refine ⟨?_, fun r => ((inv.outside i out).2 r).then (onward true r)⟩
    rcases disciplined with same | ⟨-, after⟩
    · rw [same]
      exact (inv.outside i out).1
    · rw [after]
      exact Phase.noConfusion
  · intro earlier later split
    obtain ⟨past, r, after, served, reaches, last⟩ := inv.served earlier i later split
    have same : program.phase state = program.phase (s.threads i) := by
      rcases disciplined with same | ⟨before, -⟩
      · exact same
      · exact absurd before past
    rw [same]
    exact ⟨past, r, after, served, reaches.then (onward false after), last⟩
  · exact inv.free
  · intro held
    obtain ⟨earlier, j, order, inside⟩ := inv.holder held
    refine ⟨earlier, j, order, ?_⟩
    by_cases same : j = i
    · subst same
      rw [State.set_threads_self]
      rcases disciplined with kept | ⟨before, -⟩
      · exact kept.trans inside
      · rw [inside] at before
        contradiction
    · rw [State.set_threads_of_ne s same]
      exact inside

theorem Inv.gaveUp {i : ι} {got left : π}
    (action : program.next i (s.threads i) = .acquire got left) :
    program.Inv res (s.set i left) := by
  have disciplined := program.disciplined i (s.threads i)
  rw [action] at disciplined
  obtain ⟨before, -, after⟩ := disciplined
  apply inv.update (s.set i left) rfl rfl
  · intro _ _ _
    exact ⟨rfl, rfl⟩
  · intro _ before'
    rw [after] at before'
    contradiction
  · intro out
    refine ⟨?_, fun r => ((inv.outside i out).2 r).then (by simp [alone, action])⟩
    rw [after]
    exact Phase.noConfusion
  · intro earlier later split
    exact absurd before (inv.served earlier i later split).1
  · exact inv.free
  · intro held
    obtain ⟨earlier, j, order, inside⟩ := inv.holder held
    refine ⟨earlier, j, order, ?_⟩
    by_cases same : j = i
    · subst same
      rw [before] at inside
      contradiction
    · rw [State.set_threads_of_ne s same]
      exact inside

theorem Inv.work {i : ι} {run : ρ → π × ρ} (action : program.next i (s.threads i) = .work run) :
    program.Inv res { s.set i (run s.res).1 with res := (run s.res).2 } := by
  have disciplined := program.disciplined i (s.threads i)
  rw [action] at disciplined
  obtain ⟨inside, stays⟩ := disciplined
  obtain ⟨earlier, order, held, r, served, reaches⟩ := inv.last_of_inside inside
  have mem : i ∈ s.order := by
    rw [order]
    exact List.mem_append_right earlier List.mem_cons_self
  apply inv.update { s.set i (run s.res).1 with res := (run s.res).2 } rfl rfl
  · intro j ne other
    exact absurd (inv.inside_unique inside other) ne
  · intro out
    exact absurd mem out
  · intro out
    exact absurd mem out
  · intro earlier' later split
    obtain ⟨-, r, after, served, reaches, last⟩ := inv.served earlier' i later split
    obtain ⟨final, held, rfl⟩ := last inside
    refine ⟨?_, r, (run s.res).2, served, reaches.then (by simp [alone, action]), ?_⟩
    · rw [stays]
      exact Phase.noConfusion
    · intro _
      exact ⟨final, held, rfl⟩
  · intro free
    exact absurd (held.symm.trans free) Bool.noConfusion
  · intro _
    refine ⟨earlier, i, order, ?_⟩
    change program.phase ((s.set i (run s.res).1).threads i) = .inside
    rw [State.set_threads_self]
    exact stays s.res

theorem Inv.release {i : ι} {state : π} (action : program.next i (s.threads i) = .release state) :
    program.Inv res { s.set i state with held := false } := by
  have disciplined := program.disciplined i (s.threads i)
  rw [action] at disciplined
  obtain ⟨inside, after⟩ := disciplined
  obtain ⟨earlier, order, held, r, served, reaches⟩ := inv.last_of_inside inside
  have mem : i ∈ s.order := by
    rw [order]
    exact List.mem_append_right earlier List.mem_cons_self
  have onward (r : ρ) : program.alone i false (s.threads i, r) = some (state, r) := by
    simp [alone, action]
  apply inv.update { s.set i state with held := false } rfl rfl
  · intro j ne other
    exact absurd (inv.inside_unique inside other) ne
  · intro out
    exact absurd mem out
  · intro out
    exact absurd mem out
  · intro earlier' later split
    obtain ⟨-, r, last, served, reaches, -⟩ := inv.served earlier' i later split
    refine ⟨?_, r, last, served, reaches.then (onward last), ?_⟩
    · rw [after]
      exact Phase.noConfusion
    · intro inside'
      rw [after] at inside'
      contradiction
  · intro _
    change program.Served res s.order s.res
    rw [order]
    exact served.snoc (reaches.then (onward s.res)) after
  · intro held
    exact Bool.noConfusion held

theorem Inv.acquire {i : ι} {got left : π}
    (action : program.next i (s.threads i) = .acquire got left) (free : s.held = false) :
    program.Inv res { s.set i got with held := true, order := s.order ++ [i] } := by
  have disciplined := program.disciplined i (s.threads i)
  rw [action] at disciplined
  obtain ⟨before, inside, -⟩ := disciplined
  have out : i ∉ s.order := by
    intro mem
    obtain ⟨earlier, later, order⟩ := List.append_of_mem mem
    exact (inv.served earlier i later order).1 before
  have others {j : ι} (mem : j ∉ s.order ++ [i]) : j ∉ s.order ∧ j ≠ i := by
    rw [List.mem_append, List.mem_singleton, not_or] at mem
    exact mem
  constructor
  · intro j mem
    obtain ⟨before, ne⟩ := others mem
    change program.phase ((s.set i got).threads j) = .before → ∀ gaveUp r,
      program.Reaches j gaveUp (program.init j, r) ((s.set i got).threads j, r)
    rw [State.set_threads_of_ne s ne]
    exact inv.fresh j before
  · intro j mem
    obtain ⟨before, ne⟩ := others mem
    change program.phase ((s.set i got).threads j) ≠ .inside ∧ ∀ r,
      program.Reaches j true (program.init j, r) ((s.set i got).threads j, r)
    rw [State.set_threads_of_ne s ne]
    exact inv.outside j before
  · intro earlier j later split
    dsimp only at split ⊢
    rcases List.eq_nil_or_concat later with rfl | ⟨later, k, rfl⟩
    · obtain ⟨rfl, rfl⟩ := List.append_singleton_inj.mp split
      rw [State.set_threads_self]
      refine ⟨?_, s.res, s.res, inv.free free, ?_, ?_⟩
      · rw [inside]
        exact Phase.noConfusion
      · exact (inv.fresh i out before false s.res).then (by simp [alone, action])
      · intro _
        exact ⟨rfl, rfl, rfl⟩
    · -- The thread took the lock before, so it is not inside any more.
      rw [List.concat_eq_append, ← List.cons_append, ← List.append_assoc] at split
      obtain ⟨order, rfl⟩ := List.append_singleton_inj.mp split
      have ne : j ≠ i := by
        rintro rfl
        apply out
        rw [order]
        exact List.mem_append_right earlier List.mem_cons_self
      rw [State.set_threads_of_ne s ne]
      obtain ⟨past, r, after, served, reaches, last⟩ := inv.served earlier j later order
      refine ⟨past, r, after, served, reaches, ?_⟩
      intro held
      have contra := (last held).2.1
      rw [free] at contra
      contradiction
  · intro held
    exact Bool.noConfusion held
  · intro _
    refine ⟨s.order, i, rfl, ?_⟩
    change program.phase ((s.set i got).threads i) = .inside
    rw [State.set_threads_self]
    exact inside
  · exact List.nodup_append.mpr ⟨inv.nodup, List.pairwise_singleton _ i, by
      intro j mem k single
      rw [List.mem_singleton] at single
      rintro rfl
      rw [single] at mem
      exact out mem⟩

/-- Every action of a thread keeps the invariant. -/
theorem Inv.step {label : ι × Bool} {next : State ι π ρ}
    (taken : program.step s label = some next) : program.Inv res next := by
  unfold Program.step at taken
  dsimp only at taken
  split at taken
  · contradiction
  · next state action =>
      cases taken
      exact inv.inner action
  · next got left action =>
      split at taken
      · cases taken
        exact inv.gaveUp action
      · split at taken
        · contradiction
        · next free =>
            cases taken
            exact inv.acquire action (Bool.eq_false_iff.mpr free)
  · next run action =>
      cases taken
      exact inv.work action
  · next state action =>
      cases taken
      exact inv.release action

end Keeps

theorem inv_of_run {labels : List (ι × Bool)}
    (ran : run program.step (program.start res) labels = some s) : program.Inv res s :=
  run_invariant (program.Inv res) (fun _ _ _ inv taken => inv.step taken) (Inv.start res) ran

/-- Who has taken the lock has taken it ever after. -/
theorem mem_order_of_run {i : ι} {s t : State ι π ρ} {labels : List (ι × Bool)}
    (mem : i ∈ s.order) (ran : run program.step s labels = some t) : i ∈ t.order := by
  apply run_invariant (fun s => i ∈ s.order) _ mem ran
  intro s label next mem taken
  unfold Program.step at taken
  dsimp only at taken
  split at taken
  · contradiction
  · cases taken
    exact mem
  · split at taken
    · cases taken
      exact mem
    · split at taken
      · contradiction
      · cases taken
        exact List.mem_append_left _ mem
  · cases taken
    exact mem
  · cases taken
    exact mem

/-- A thread inside its section that would come to the end of it on its own can
give the lock back. -/
theorem exists_release {i : ι} {s : State ι π ρ} {last : π × ρ}
    (inside : program.phase (s.threads i) = .inside)
    (reaches : program.Reaches i false (s.threads i, s.res) last)
    (after : program.phase last.1 = .after) :
    ∃ labels t, run program.step s labels = some t ∧ t.held = false := by
  generalize first : (s.threads i, s.res) = first at reaches
  induction reaches using Relation.ReflTransGen.head_induction_on generalizing s with
  | refl =>
      subst first
      rw [inside] at after
      contradiction
  | head taken _ ih =>
      subst first
      have disciplined := program.disciplined i (s.threads i)
      cases action : program.next i (s.threads i) with
      | stop => simp [alone, action] at taken
      | inner next =>
          simp only [alone, action, Option.some.injEq] at taken
          simp only [action, Act.Disciplined, inside, reduceCtorEq, false_and, or_false]
            at disciplined
          have moved : program.step s (i, false) = some (s.set i next) := by
            simp [Program.step, action]
          obtain ⟨labels, t, ran, free⟩ := ih (s := s.set i next) (by simpa using disciplined)
            (by simpa [State.set] using taken)
          exact ⟨(i, false) :: labels, t, (run_cons_eq_some_iff _).mpr ⟨_, moved, ran⟩, free⟩
      | acquire got left =>
          simp [action, Act.Disciplined, inside] at disciplined
      | work work =>
          simp only [alone, action, Option.some.injEq] at taken
          simp only [action, Act.Disciplined, inside, true_and] at disciplined
          have moved : program.step s (i, false) =
              some { s.set i (work s.res).1 with res := (work s.res).2 } := by
            simp [Program.step, action]
          obtain ⟨labels, t, ran, free⟩ :=
            ih (s := { s.set i (work s.res).1 with res := (work s.res).2 })
              (by simpa [State.set] using disciplined s.res) (by simpa [State.set] using taken)
          exact ⟨(i, false) :: labels, t, (run_cons_eq_some_iff _).mpr ⟨_, moved, ran⟩, free⟩
      | release next =>
          have moved : program.step s (i, false) = some { s.set i next with held := false } := by
            simp [Program.step, action]
          exact ⟨[(i, false)], _, (run_cons_eq_some_iff _).mpr ⟨_, moved, rfl⟩, rfl⟩

end Step

/-! ## Running the sections one at a time -/

section Outcome

variable {ω : Type x} (program) (view : ρ → ω) (outcome : ι → Bool → ω → π × ω)

/-- Every thread comes to its end on its own, and where it ends and what it
leaves depends only on a view of the resource. -/
structure Completes : Prop where
  reaches : ∀ i gaveUp r, ∃ next, program.Reaches i gaveUp (program.init i, r)
    ((outcome i gaveUp (view r)).1, next) ∧ view next = (outcome i gaveUp (view r)).2
  stops : ∀ i gaveUp seen, program.next i (outcome i gaveUp seen).1 = .stop

/-- What the given threads leave, one at a time. -/
def serial (order : List ι) (seen : ω) : ω :=
  order.foldl (fun seen i => (outcome i false seen).2) seen

variable {program view outcome}

variable (completes : program.Completes view outcome)
include completes

theorem Completes.of_stop {i : ι} {gaveUp : Bool} {r next : ρ} {state : π}
    (reaches : program.Reaches i gaveUp (program.init i, r) (state, next))
    (stopped : program.next i state = .stop) :
    state = (outcome i gaveUp (view r)).1 ∧ view next = (outcome i gaveUp (view r)).2 := by
  obtain ⟨last, ends, seen⟩ := completes.reaches i gaveUp r
  have same := (reaches.to_stop ends (completes.stops i gaveUp (view r))).eq_of_stop stopped
  rw [Prod.mk.injEq] at same
  exact ⟨same.1.symm, same.2 ▸ seen⟩

theorem Completes.of_after {i : ι} {gaveUp : Bool} {r next : ρ} {state : π}
    (reaches : program.Reaches i gaveUp (program.init i, r) (state, next))
    (after : program.phase state = .after) : view next = (outcome i gaveUp (view r)).2 := by
  obtain ⟨last, ends, seen⟩ := completes.reaches i gaveUp r
  have onward := reaches.to_stop ends (completes.stops i gaveUp (view r))
  have same : last = next := (onward.of_after after).2
  rw [← same, seen]

theorem Completes.served {order : List ι} {r : ρ}
    (served : program.Served res order r) : view r = serial outcome order (view res) := by
  induction served with
  | nil => rfl
  | snoc _ reaches after ih =>
      rw [serial, List.foldl_append, List.foldl_cons, List.foldl_nil, ← serial, ← ih]
      exact completes.of_after reaches after

/-- A thread that has come to its end and took the lock is as it would be on its
own, on what the threads before it leave. -/
theorem Inv.result (inv : program.Inv res s)
    {earlier later : List ι} {i : ι} (order : s.order = earlier ++ i :: later)
    (stopped : program.next i (s.threads i) = .stop) :
    s.threads i = (outcome i false (serial outcome earlier (view res))).1 := by
  obtain ⟨-, r, next, served, reaches, -⟩ := inv.served earlier i later order
  rw [← completes.served served]
  exact (completes.of_stop reaches stopped).1

/-- One that did not take the lock is as it would be on its own, on anything. -/
theorem Inv.result_of_notMem (inv : program.Inv res s) {i : ι} (out : i ∉ s.order)
    (stopped : program.next i (s.threads i) = .stop) (r : ρ) :
    s.threads i = (outcome i true (view r)).1 ∧ (outcome i true (view r)).2 = view r := by
  have result := completes.of_stop ((inv.outside i out).2 r) stopped
  exact ⟨result.1, result.2.symm⟩

/-- Once every thread that took the lock has come to its end, the resource is as
they leave it one at a time. -/
theorem Inv.final (inv : program.Inv res s)
    (stopped : ∀ i ∈ s.order, program.next i (s.threads i) = .stop) :
    view s.res = serial outcome s.order (view res) := by
  cases held : s.held with
  | false => exact completes.served (inv.free held)
  | true =>
      obtain ⟨earlier, i, order, inside⟩ := inv.holder held
      obtain ⟨-, r, next, served, reaches, last⟩ := inv.served earlier i [] order
      obtain ⟨-, -, rfl⟩ := last inside
      have mem : i ∈ s.order := by
        rw [order]
        exact List.mem_append_right earlier List.mem_cons_self
      rw [order, serial, List.foldl_append, List.foldl_cons, List.foldl_nil, ← serial,
        ← completes.served served]
      exact (completes.of_stop reaches (stopped i mem)).2

/-- A thread that does not give the lock back on its own never gives it back. -/
theorem Inv.held_of_keeps (inv : program.Inv res s) {i : ι} (mem : i ∈ s.order)
    (keeps : ∀ seen, program.phase (outcome i false seen).1 ≠ .after) : s.held = true := by
  obtain ⟨earlier, later, order⟩ := List.append_of_mem mem
  obtain ⟨entered, r, next, -, reaches, last⟩ := inv.served earlier i later order
  have inside : program.phase (s.threads i) = .inside := by
    cases phase : program.phase (s.threads i) with
    | before => exact absurd phase entered
    | inside => rfl
    | after =>
        obtain ⟨final, ends, -⟩ := completes.reaches i false r
        have onward := reaches.to_stop ends (completes.stops i false (view r))
        exact absurd (onward.of_after phase).1 (keeps (view r))
  exact (last inside).2.1

/-- The lock can still become free exactly if no thread that has taken it is one
that keeps it. -/
theorem Completes.can_release_iff [DecidableEq ι] {keeps : ι → Prop}
    (keeps_iff : ∀ i seen, program.phase (outcome i false seen).1 = .after ↔ ¬ keeps i)
    {labels : List (ι × Bool)}
    (ran : run program.step (program.start res) labels = some s) :
    (∃ more t, run program.step s more = some t ∧ t.held = false) ↔
      ∀ i ∈ s.order, ¬ keeps i := by
  constructor
  · rintro ⟨more, t, onward, free⟩ i mem kept
    have held := (inv_of_run (run_append _ ran onward)).held_of_keeps completes
      (mem_order_of_run mem onward) fun seen after => (keeps_iff i seen).mp after kept
    rw [free] at held
    contradiction
  · intro none_keeps
    cases held : s.held with
    | false => exact ⟨[], s, rfl, held⟩
    | true =>
        have inv := inv_of_run ran
        obtain ⟨earlier, i, order, inside⟩ := inv.holder held
        obtain ⟨-, r, next, -, reaches, last⟩ := inv.served earlier i [] order
        obtain ⟨-, -, rfl⟩ := last inside
        obtain ⟨final, ends, -⟩ := completes.reaches i false r
        have mem : i ∈ s.order := by
          rw [order]
          exact List.mem_append_right earlier List.mem_cons_self
        exact exists_release inside (reaches.to_stop ends (completes.stops i false (view r)))
          ((keeps_iff i (view r)).mpr (none_keeps i mem))

end Outcome

end Program

end Rhino.Transition
