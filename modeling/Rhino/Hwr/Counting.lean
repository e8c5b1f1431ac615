import Rhino.Hwr.RhinoDriver
import Rhino.Transition.Run

/-!
# Counting the uses of a region, one atomic operation at a time

`rhino_reserve_hwr`, `rhino_release_hwr`, `get_hwr` and `put_hwr` on the record of
one region.  Each of them makes one or two atomic operations on the use count,
and other threads run in between.  A reservation that fails has added one to the
count and takes it away again; a release that comes in between does not see the
zero it waits for, or has its `-1` taken down further.

`View` is what the count is meant to say.  The threads follow it, and the only
way off it is a release that crosses a reservation that fails.
-/

namespace Rhino.Hwr.Counting

open Rhino.Bof Rhino.Transition

/-- A thread, or the process that a thread acts for. -/
abbrev Thread := ℕ

/-- Where a thread is between two atomic operations of a call. -/
inductive Stage where
  | outside
  | won
  | refused
  | inUse
  | freeing
  deriving DecidableEq, Repr

/-- The record, where every thread is, and which threads have reserved the
region and not released it. -/
structure State where
  hwr : PhyHwr
  stage : Thread → Stage
  holds : Thread → Bool

/-- The first atomic operation of a call, or the next one of the call that the
thread is in. -/
inductive Label where
  | reserve (t : Thread)
  | release (t : Thread)
  | get (t : Thread)
  | next (t : Thread)
  deriving DecidableEq, Repr

/-- An atomic operation leaves the count at `count` and the thread at `stage`. -/
def State.atomic (s : State) (t : Thread) (count : ℤ) (stage : Stage) : State :=
  { s with
    hwr := { s.hwr with count := count }
    stage := Function.update s.stage t stage }

/-- `atomic_dec_and_test`; at zero the record is to be freed. -/
def State.decAndTest (s : State) (t : Thread) : State :=
  let count := s.hwr.count - 1
  s.atomic t count (if count = 0 then .freeing else .outside)

/-- One atomic operation.  The store of `task` goes with the `atomic_set` behind
it. -/
def step (s : State) : Label → Option State
  | .reserve t =>
      if s.stage t = .outside then
        let count := s.hwr.count + 1
        some (s.atomic t count (if count = 0 then .won else .refused))
      else none
  | .release t =>
      if s.stage t = .outside then
        some { s.decAndTest t with holds := Function.update s.holds t false }
      else none
  | .get t =>
      if s.stage t = .outside then some (s.atomic t (s.hwr.count + 1) .inUse) else none
  | .next t =>
      match s.stage t with
      | .outside => none
      | .won =>
          some { s.atomic t (s.hwr.count + 1) .outside with
            holds := Function.update s.holds t true }
      | .refused => some (s.atomic t (s.hwr.count - 1) .outside)
      | .inUse => some (s.decAndTest t)
      | .freeing =>
          let s := s.atomic t (-1) .outside
          some { s with hwr := { s.hwr with task := none } }

/-! ## The calls that are made, and what is expected of them -/

/-- One reservation at a time; the region is released and used by its holder. -/
def Allowed (s : State) : Label → Prop
  | .reserve _ => ∀ t, s.stage t ≠ .won ∧ s.stage t ≠ .refused
  | .release t => s.holds t = true
  | .get t => s.holds t = true
  | .next _ => True

/-- A release makes its atomic operations while no reservation is about to take
back what it has added. -/
def Apart (s : State) : Label → Prop
  | .release _ => ∀ u, s.stage u ≠ .refused
  | .next t => s.stage t = .freeing → ∀ u, s.stage u ≠ .refused
  | _ => True

/-- The region is free and nobody is about to change this. -/
structure Initial (s : State) : Prop where
  count : s.hwr.count = -1
  stage : ∀ t, s.stage t = .outside
  holds : ∀ t, s.holds t = false

/-- No call is in progress. -/
def Quiet (s : State) : Prop :=
  ∀ t, s.stage t = .outside

/-- There is at most one holder. -/
def AtMostOne (s : State) : Prop :=
  ∀ t u, s.holds t = true → s.holds u = true → t = u

/-- Between calls the count tells whether there is a holder, and a region
without one can be reserved. -/
structure Consistent (s : State) : Prop where
  held : Quiet s → (∃ t, s.holds t = true) → s.hwr.count = 1
  free : Quiet s → (∀ t, s.holds t = false) → s.hwr.count = -1
  again : Quiet s → (∀ t, s.holds t = false) → ∀ t, ∃ next,
    run step s [.reserve t, .next t] = some next ∧ next.holds t = true

/-! ## Calls without interference -/

/-- The region of the board passes the checks of both calls. -/
theorem rhinoReserveHwr_rhinoAddr {δ : Type} (board : Board δ) :
    rhinoReserveHwr rhinoAddr board =
      if (board.phyhwrs rhinoAddr).count + 1 ≠ 0 then
        (none, board.setHwr rhinoAddr { board.phyhwrs rhinoAddr with
          count := (board.phyhwrs rhinoAddr).count + 1 - 1 })
      else
        (some rhinoAddr, board.setHwr rhinoAddr { board.phyhwrs rhinoAddr with
          count := (board.phyhwrs rhinoAddr).count + 1 + 1 }) := by
  have ours : ¬ rhinoAddr.cls ≠ HAC_RHINO := not_not_intro rfl
  have inside : ¬ 1 ≤ rhinoAddr.addr.toNat := by decide
  rw [rhinoReserveHwr, if_neg ours, if_neg inside]

theorem rhinoReleaseHwr_rhinoAddr {δ : Type} (board : Board δ) :
    rhinoReleaseHwr rhinoAddr board = board.decCount rhinoAddr := by
  have ours : ¬ rhinoAddr.cls ≠ HAC_RHINO := not_not_intro rfl
  have inside : ¬ 1 ≤ rhinoAddr.addr.toNat := by decide
  rw [rhinoReleaseHwr, if_neg ours, if_neg inside]

/-- A reservation on its own is `rhino_reserve_hwr` on the record. -/
theorem run_reserve {δ : Type} {s : State} (t : Thread) (outside : s.stage t = .outside)
    {board : Board δ} (record : board.phyhwrs rhinoAddr = s.hwr) :
    ∃ next, run step s [.reserve t, .next t] = some next ∧
      next.hwr = (rhinoReserveHwr rhinoAddr board).2.phyhwrs rhinoAddr ∧
      next.holds = if (rhinoReserveHwr rhinoAddr board).1.isSome then
        Function.update s.holds t true else s.holds := by
  rw [rhinoReserveHwr_rhinoAddr]
  by_cases zero : s.hwr.count + 1 = 0
  · simp [run, step, outside, zero, State.atomic, record]
  · simp [run, step, outside, zero, State.atomic, record]

/-- A release on its own is `rhino_release_hwr` on the record. -/
theorem run_release {δ : Type} {s : State} (t : Thread) (outside : s.stage t = .outside)
    {board : Board δ} (record : board.phyhwrs rhinoAddr = s.hwr) :
    ∃ next, run step s (if s.hwr.count - 1 = 0 then [.release t, .next t] else [.release t]) =
        some next ∧
      next.hwr = (rhinoReleaseHwr rhinoAddr board).phyhwrs rhinoAddr := by
  rw [rhinoReleaseHwr_rhinoAddr]
  by_cases zero : s.hwr.count - 1 = 0
  · simp [run, step, outside, zero, State.decAndTest, State.atomic, Board.decCount, PhyHwr.put,
      record]
  · simp [run, step, outside, zero, State.decAndTest, State.atomic, Board.decCount, PhyHwr.put,
      record]

/-- A use of a region that is not at zero is `get_hwr` and `put_hwr` on the
record. -/
theorem run_use {δ : Type} {s : State} (t : Thread) (outside : s.stage t = .outside)
    (used : s.hwr.count ≠ 0) {board : Board δ} {addr : HwrAddr}
    (record : board.phyhwrs addr = s.hwr) :
    ∃ next, run step s [.get t, .next t] = some next ∧
      next.hwr = ((board.incCount addr).decCount addr).phyhwrs addr := by
  simp [run, step, outside, used, State.decAndTest, State.atomic, Board.incCount,
    Board.decCount, PhyHwr.put, record]

/-! ## What the count is meant to say -/

/-- Who has the region.  Once the count is spoilt it stays where it is. -/
inductive Owner where
  | free
  | taking (t : Thread)
  | held (t : Thread)
  | inUse (t : Thread)
  | freeing (t : Thread)
  | spoilt (count : ℤ)
  deriving DecidableEq, Repr

/-- The owner, and the thread whose reservation has failed and not yet returned. -/
structure View where
  owner : Owner
  refused : Option Thread
  deriving DecidableEq, Repr

namespace Owner

/-- The count without the reservation that has failed. -/
def count : Owner → ℤ
  | free => -1
  | taking _ => 0
  | held _ => 1
  | inUse _ => 2
  | freeing _ => 0
  | spoilt count => count

/-- Where a thread is on account of the owner. -/
def stage : Owner → Thread → Stage
  | taking t, u => if u = t then .won else .outside
  | inUse t, u => if u = t then .inUse else .outside
  | freeing t, u => if u = t then .freeing else .outside
  | _, _ => .outside

def holds : Owner → Thread → Bool
  | held t, u => u = t
  | inUse t, u => u = t
  | _, _ => false

def isSpoilt : Owner → Bool
  | spoilt _ => true
  | _ => false

end Owner

/-- Where a thread is. -/
def View.stage (v : View) (u : Thread) : Stage :=
  if v.refused = some u then .refused else v.owner.stage u

/-- What an atomic operation makes of the view. -/
def View.next (v : View) : Label → View
  | .reserve t =>
      match v.owner with
      | .free => ⟨.taking t, none⟩
      | owner => ⟨owner, some t⟩
  | .release t =>
      match v.refused with
      | none => ⟨.freeing t, none⟩
      | some u => ⟨.spoilt 0, some u⟩
  | .get t => ⟨.inUse t, v.refused⟩
  | .next t =>
      if v.refused = some t then ⟨v.owner, none⟩
      else
        match v.owner with
        | .taking u => ⟨.held u, v.refused⟩
        | .inUse u => ⟨.held u, v.refused⟩
        | .freeing _ =>
            match v.refused with
            | none => ⟨.free, none⟩
            | some u => ⟨.spoilt (-2), some u⟩
        | owner => ⟨owner, v.refused⟩

/-- The state is as the view says. -/
structure Shows (s : State) (v : View) : Prop where
  count : s.hwr.count = v.owner.count + if v.refused.isSome then 1 else 0
  stage : ∀ u, s.stage u = v.stage u
  holds : ∀ u, s.holds u = v.owner.holds u
  apart : ∀ u, v.refused = some u → v.owner.stage u = .outside
  single : ∀ t, v.owner = .taking t → v.refused = none
  spoilt : ∀ count, v.owner = .spoilt count → count = 0 ∨ count = -2

theorem Initial.shows {s : State} (initial : Initial s) : Shows s ⟨.free, none⟩ := by
  constructor
  · exact initial.count
  · exact initial.stage
  · exact initial.holds
  all_goals simp

/-- The owner is the only thread that is somewhere on account of it. -/
theorem Owner.stage_cases (owner : Owner) (t : Thread) :
    owner.stage t = .outside ∨ (owner = .taking t ∧ owner.stage t = .won) ∨
      (owner = .inUse t ∧ owner.stage t = .inUse) ∨
      (owner = .freeing t ∧ owner.stage t = .freeing) := by
  cases owner with
  | taking u | inUse u | freeing u => by_cases same : t = u <;> simp [Owner.stage, same]
  | free | held u | spoilt count => exact Or.inl rfl

namespace Shows

variable {s next : State} {v : View} {t : Thread} (shows : Shows s v)
include shows

theorem stage_of_refused (refused : v.refused = some t) :
    s.stage t = .refused := by
  rw [shows.stage t, View.stage, if_pos refused]

theorem stage_of_not_refused (other : v.refused ≠ some t) :
    s.stage t = v.owner.stage t := by
  rw [shows.stage t, View.stage, if_neg other]

/-- Nobody has been refused, as far as the states of the threads tell. -/
theorem refused_eq_none_iff :
    v.refused = none ↔ ∀ u, s.stage u ≠ .refused := by
  constructor
  · intro none_refused u stage
    rw [shows.stage_of_not_refused (by simp [none_refused])] at stage
    rcases Owner.stage_cases v.owner u with at_owner | ⟨-, at_owner⟩ | ⟨-, at_owner⟩ |
      ⟨-, at_owner⟩ <;> simp [at_owner] at stage
  · intro nobody
    cases refused : v.refused with
    | none => rfl
    | some u => exact absurd (shows.stage_of_refused refused) (nobody u)

/-- A thread outside any call has no part in the view but that it may be the
holder. -/
theorem of_outside (outside : s.stage t = .outside) :
    v.refused ≠ some t ∧ v.owner.stage t = .outside := by
  have other : v.refused ≠ some t := by
    intro refused
    rw [shows.stage_of_refused refused] at outside
    contradiction
  exact ⟨other, (shows.stage_of_not_refused other).symm.trans outside⟩

theorem nobody_of_spoilt {count : ℤ} (owner : v.owner = .spoilt count)
    (t : Thread) : s.holds t = false := by
  rw [shows.holds t, owner]
  rfl

/-- What another thread is at is left alone. -/
theorem stage_update {stage : Stage} {after : View}
    (moved : after.stage t = stage) (kept : ∀ u, u ≠ t → after.stage u = v.stage u) (u : Thread) :
    Function.update s.stage t stage u = after.stage u := by
  by_cases same : u = t
  · subst same
    simp [moved]
  · simp [same, shows.stage u, kept u same]

theorem reserve (allowed : Allowed s (.reserve t))
    (taken : step s (.reserve t) = some next) : Shows next (v.next (.reserve t)) := by
  simp only [step, Option.ite_none_right_eq_some, Option.some.injEq] at taken
  rcases taken with ⟨outside, rfl⟩
  have none_refused : v.refused = none :=
    shows.refused_eq_none_iff.mpr fun u => (allowed u).2
  have not_taking (u : Thread) : v.owner ≠ .taking u := by
    intro owner
    have stage : s.stage u = v.owner.stage u := shows.stage_of_not_refused (by simp [none_refused])
    rw [owner, Owner.stage, if_pos rfl] at stage
    exact absurd stage (allowed u).1
  have count := shows.count
  simp only [none_refused, Option.isSome_none, Bool.false_eq_true, if_false, add_zero] at count
  obtain ⟨-, owner_outside⟩ := shows.of_outside outside
  by_cases free : v.owner = .free
  · have zero : s.hwr.count + 1 = 0 := by
      rw [count, free]
      rfl
    have after : v.next (.reserve t) = ⟨.taking t, none⟩ := by
      simp [View.next, free]
    rw [if_pos zero, after]
    refine ⟨zero, ?_, ?_, by simp, by simp, by simp⟩
    · apply shows.stage_update
      · simp [View.stage, Owner.stage]
      · intro u other
        simp [View.stage, none_refused, Owner.stage, free, other]
    · intro u
      exact (shows.holds u).trans (by simp [free, Owner.holds])
  · -- Nobody but a free region brings the count to zero.
    have nonzero : s.hwr.count + 1 ≠ 0 := by
      rw [count]
      cases owner : v.owner with
      | free => exact absurd owner free
      | taking u => exact absurd owner (not_taking u)
      | held u | inUse u | freeing u => simp [Owner.count]
      | spoilt count =>
          rcases shows.spoilt count owner with rfl | rfl <;> simp [Owner.count]
    have after : v.next (.reserve t) = ⟨v.owner, some t⟩ := by
      cases owner : v.owner with
      | free => exact absurd owner free
      | taking u | held u | inUse u | freeing u | spoilt count => simp [View.next, owner]
    rw [if_neg nonzero, after]
    refine ⟨by simp [State.atomic, count], ?_, shows.holds, ?_, ?_, shows.spoilt⟩
    · apply shows.stage_update
      · simp [View.stage]
      · intro u other
        simp [View.stage, none_refused, Ne.symm other]
    · intro u same
      rw [← Option.some.inj same]
      exact owner_outside
    · intro u owner
      exact absurd owner (not_taking u)

/-- A thread that holds the region and is outside any call. -/
theorem owner_of_holds (outside : s.stage t = .outside)
    (holds : s.holds t = true) : v.owner = .held t := by
  have owner_holds := (shows.holds t).symm.trans holds
  have owner_outside := (shows.of_outside outside).2
  cases owner : v.owner with
  | held u =>
      have same : t = u := by simpa [owner, Owner.holds] using owner_holds
      rw [same]
  | inUse u =>
      have same : t = u := by simpa [owner, Owner.holds] using owner_holds
      simp [owner, Owner.stage, same] at owner_outside
  | free | taking u | freeing u | spoilt count => simp [owner, Owner.holds] at owner_holds

theorem release (allowed : Allowed s (.release t))
    (taken : step s (.release t) = some next) : Shows next (v.next (.release t)) := by
  simp only [step, Option.ite_none_right_eq_some, Option.some.injEq] at taken
  rcases taken with ⟨outside, rfl⟩
  have owner := shows.owner_of_holds outside allowed
  have count := shows.count
  have dropped (u : Thread) : Function.update s.holds t false u = false := by
    by_cases same : u = t
    · simp [same]
    · simpa [same, owner, Owner.holds] using shows.holds u
  cases refused : v.refused with
  | none =>
      have zero : s.hwr.count - 1 = 0 := by
        simp [count, owner, refused, Owner.count]
      simp only [View.next, refused, State.decAndTest, zero, if_true]
      refine ⟨rfl, ?_, dropped, by simp, by simp, by simp⟩
      apply shows.stage_update
      · simp [View.stage, Owner.stage]
      · intro u other
        simp [View.stage, refused, Owner.stage, owner, other]
  | some w =>
      have one : s.hwr.count - 1 = 1 := by
        simp [count, owner, refused, Owner.count]
      simp only [View.next, refused, State.decAndTest, one, one_ne_zero, if_false]
      have other : w ≠ t := by
        rintro rfl
        exact (shows.of_outside outside).1 refused
      refine ⟨rfl, ?_, dropped, fun _ _ => rfl, by simp, ?_⟩
      · apply shows.stage_update
        · simp [View.stage, Owner.stage, other]
        · intro u _
          simp [View.stage, refused, Owner.stage, owner]
      · intro count same
        cases same
        exact Or.inl rfl

theorem get (allowed : Allowed s (.get t))
    (taken : step s (.get t) = some next) : Shows next (v.next (.get t)) := by
  simp only [step, Option.ite_none_right_eq_some, Option.some.injEq] at taken
  rcases taken with ⟨outside, rfl⟩
  have owner := shows.owner_of_holds outside allowed
  have other := (shows.of_outside outside).1
  refine ⟨?_, ?_, ?_, ?_, by simp [View.next], by simp [View.next]⟩
  · simp only [State.atomic, shows.count, owner, Owner.count, View.next]
    rw [add_right_comm]
    rfl
  · apply shows.stage_update
    · simp [View.stage, View.next, other, Owner.stage]
    · intro u ne
      simp [View.stage, View.next, Owner.stage, owner, ne]
  · intro u
    exact (shows.holds u).trans (by simp [owner, View.next, Owner.holds])
  · intro u refused
    have ne : u ≠ t := by
      rintro rfl
      exact other refused
    simp [View.next, Owner.stage, ne]

/-- A reservation that has failed takes back what it has added. -/
theorem next_refused (refused : v.refused = some t)
    (taken : step s (.next t) = some next) : Shows next (v.next (.next t)) := by
  simp only [step, shows.stage_of_refused refused, Option.some.injEq] at taken
  subst taken
  simp only [View.next, if_pos refused]
  refine ⟨?_, ?_, shows.holds, by simp, by simp, shows.spoilt⟩
  · simp [State.atomic, shows.count, refused]
  · apply shows.stage_update
    · simp [View.stage, shows.apart t refused]
    · intro u ne
      simp [View.stage, refused, Ne.symm ne]

theorem next_won (owner : v.owner = .taking t)
    (taken : step s (.next t) = some next) : Shows next (v.next (.next t)) := by
  have none_refused := shows.single t owner
  have stage : s.stage t = .won := by
    simp [shows.stage t, View.stage, none_refused, owner, Owner.stage]
  simp only [step, stage, Option.some.injEq] at taken
  subst taken
  simp only [View.next, owner, none_refused]
  refine ⟨?_, ?_, ?_, by simp, by simp, by simp⟩
  · simp [State.atomic, shows.count, owner, none_refused, Owner.count]
  · apply shows.stage_update
    · simp [View.stage, Owner.stage]
    · intro u ne
      simp [View.stage, none_refused, owner, Owner.stage, ne]
  · intro u
    by_cases same : u = t
    · simp [same, Owner.holds]
    · simpa [same, Owner.holds, owner] using shows.holds u

/-- The use that ends is never the last one. -/
theorem next_inUse (owner : v.owner = .inUse t) (other : v.refused ≠ some t)
    (taken : step s (.next t) = some next) : Shows next (v.next (.next t)) := by
  have stage : s.stage t = .inUse := by
    simp [shows.stage_of_not_refused other, owner, Owner.stage]
  have nonzero : s.hwr.count - 1 ≠ 0 := by
    rw [shows.count, owner, Owner.count]
    split <;> decide
  simp only [step, stage, Option.some.injEq, State.decAndTest, if_neg nonzero] at taken
  subst taken
  simp only [View.next, if_neg other, owner]
  refine ⟨?_, ?_, ?_, fun _ _ => rfl, by simp, by simp⟩
  · simp only [State.atomic, shows.count, owner, Owner.count]
    split <;> rfl
  · apply shows.stage_update
    · simp [View.stage, other, Owner.stage]
    · intro u ne
      simp [View.stage, owner, Owner.stage, ne]
  · intro u
    exact (shows.holds u).trans (by simp [owner, Owner.holds])

theorem next_freeing (owner : v.owner = .freeing t)
    (other : v.refused ≠ some t) (taken : step s (.next t) = some next) :
    Shows next (v.next (.next t)) := by
  have stage : s.stage t = .freeing := by
    simp [shows.stage_of_not_refused other, owner, Owner.stage]
  simp only [step, stage, Option.some.injEq] at taken
  subst taken
  have nobody (u : Thread) : s.holds u = false :=
    (shows.holds u).trans (by simp [owner, Owner.holds])
  cases refused : v.refused with
  | none =>
      simp only [View.next, owner, refused]
      refine ⟨rfl, ?_, nobody, by simp, by simp, by simp⟩
      apply shows.stage_update
      · simp [View.stage, Owner.stage]
      · intro u ne
        simp [View.stage, refused, owner, Owner.stage, ne]
  | some w =>
      -- The `-1` is on top of what the other thread has added.
      rw [refused] at other
      simp only [View.next, owner, refused, if_neg other]
      refine ⟨rfl, ?_, nobody, fun _ _ => rfl, by simp, ?_⟩
      · apply shows.stage_update
        · simp only [View.stage, if_neg other, Owner.stage]
        · intro u ne
          simp [View.stage, refused, owner, Owner.stage, ne]
      · intro count same
        cases same
        exact Or.inr rfl

/-- The threads follow the view. -/
theorem step {label : Label} (allowed : Allowed s label)
    (taken : Counting.step s label = some next) : Shows next (v.next label) := by
  cases label with
  | reserve t => exact shows.reserve allowed taken
  | release t => exact shows.release allowed taken
  | get t => exact shows.get allowed taken
  | next t =>
      by_cases refused : v.refused = some t
      · exact shows.next_refused refused taken
      · have stage := shows.stage_of_not_refused refused
        rcases Owner.stage_cases v.owner t with outside | ⟨owner, -⟩ | ⟨owner, -⟩ | ⟨owner, -⟩
        · simp [Counting.step, stage.trans outside] at taken
        · exact shows.next_won owner taken
        · exact shows.next_inUse owner refused taken
        · exact shows.next_freeing owner refused taken

/-! ## The way off the view -/

theorem atMostOne : AtMostOne s := by
  intro t u holds_t holds_u
  have owner_t := (shows.holds t).symm.trans holds_t
  have owner_u := (shows.holds u).symm.trans holds_u
  cases owner : v.owner with
  | held w | inUse w =>
      simp only [owner, Owner.holds, decide_eq_true_eq] at owner_t owner_u
      exact owner_t.trans owner_u.symm
  | free | taking w | freeing w | spoilt count => simp [owner, Owner.holds] at owner_t

/-- Between calls the owner is known from the holder. -/
theorem owner_of_quiet (quiet : Quiet s) :
    v.refused = none ∧ (v.owner = .free ∨ (∃ t, v.owner = .held t) ∨ v.owner.isSpoilt = true) := by
  have none_refused : v.refused = none := by
    apply shows.refused_eq_none_iff.mpr
    intro u
    rw [quiet u]
    decide
  refine ⟨none_refused, ?_⟩
  have outside (t : Thread) := (shows.of_outside (quiet t)).2
  cases owner : v.owner with
  | free => exact Or.inl rfl
  | held t => exact Or.inr (Or.inl ⟨t, rfl⟩)
  | spoilt count => exact Or.inr (Or.inr rfl)
  | taking t | inUse t | freeing t =>
      have stage := outside t
      simp [owner, Owner.stage] at stage

theorem consistent (sane : v.owner.isSpoilt = false) : Consistent s := by
  have free (quiet : Quiet s) (nobody : ∀ t, s.holds t = false) : s.hwr.count = -1 := by
    obtain ⟨refused, owner | ⟨t, owner⟩ | spoilt⟩ := shows.owner_of_quiet quiet
    · simp [shows.count, owner, refused, Owner.count]
    · have holds := shows.holds t
      simp [owner, Owner.holds, nobody t] at holds
    · rw [sane] at spoilt
      contradiction
  constructor
  · rintro quiet ⟨u, holds⟩
    obtain ⟨refused, owner | ⟨t, owner⟩ | spoilt⟩ := shows.owner_of_quiet quiet
    · have holds_u := (shows.holds u).symm.trans holds
      simp [owner, Owner.holds] at holds_u
    · simp [shows.count, owner, refused, Owner.count]
    · rw [sane] at spoilt
      contradiction
  · exact free
  · intro quiet nobody t
    simp [run, Counting.step, quiet t, free quiet nobody, State.atomic]

/-- A spoilt count shows as soon as no call is in progress. -/
theorem not_consistent (spoilt : v.owner.isSpoilt = true) (quiet : Quiet s) :
    ¬ Consistent s := by
  intro consistent
  cases owner : v.owner with
  | spoilt count =>
      have refused := (shows.owner_of_quiet quiet).1
      have expected := consistent.free quiet (shows.nobody_of_spoilt owner)
      rw [shows.count, owner, refused] at expected
      rcases shows.spoilt count owner with rfl | rfl <;> simp [Owner.count] at expected
  | free | taking t | held t | inUse t | freeing t => simp [owner, Owner.isSpoilt] at spoilt

/-- The count is spoilt by exactly the steps that are not apart. -/
theorem isSpoilt_next (sane : v.owner.isSpoilt = false) {label : Label}
    (taken : Counting.step s label = some next) :
    (v.next label).owner.isSpoilt = false ↔ Apart s label := by
  cases label with
  | reserve t =>
      apply iff_of_true _ trivial
      cases owner : v.owner <;> simp [View.next, owner, Owner.isSpoilt] at sane ⊢
  | get t => exact iff_of_true rfl trivial
  | release t =>
      have apart_iff : Apart s (.release t) ↔ v.refused = none := shows.refused_eq_none_iff.symm
      rw [apart_iff]
      cases refused : v.refused <;> simp [View.next, refused, Owner.isSpoilt]
  | next t =>
      by_cases refused : v.refused = some t
      · have apart : Apart s (.next t) := by
          intro freeing
          rw [shows.stage_of_refused refused] at freeing
          contradiction
        simp only [View.next, if_pos refused, sane, apart]
      · have stage := shows.stage_of_not_refused refused
        rcases Owner.stage_cases v.owner t with at_owner | ⟨owner, at_owner⟩ |
          ⟨owner, at_owner⟩ | ⟨owner, at_owner⟩
        · simp [Counting.step, stage.trans at_owner] at taken
        · simp [View.next, refused, owner, Owner.isSpoilt, Apart, stage.trans at_owner]
        · simp [View.next, refused, owner, Owner.isSpoilt, Apart, stage.trans at_owner]
        · have apart_iff : Apart s (.next t) ↔ v.refused = none := by
            rw [shows.refused_eq_none_iff]
            simp [Apart, stage.trans at_owner]
          rw [apart_iff]
          cases other : v.refused with
          | none => simp [View.next, other, owner, Owner.isSpoilt]
          | some u =>
              rw [other] at refused
              simp only [View.next, other, owner, if_neg refused, Owner.isSpoilt]
              simp

/-- There is no way back. -/
theorem isSpoilt_of_spoilt (spoilt : v.owner.isSpoilt = true) {label : Label}
    (allowed : Allowed s label) : (v.next label).owner.isSpoilt = true := by
  cases owner : v.owner with
  | spoilt count =>
      have nobody := shows.nobody_of_spoilt owner
      cases label with
      | reserve t => simp [View.next, owner, Owner.isSpoilt]
      | release t => exact absurd allowed (by simp [Allowed, nobody t])
      | get t => exact absurd allowed (by simp [Allowed, nobody t])
      | next t =>
          simp only [View.next, owner]
          split <;> rfl
  | free | taking t | held t | inUse t | freeing t => simp [owner, Owner.isSpoilt] at spoilt

end Shows

/-- In every interleaving of calls that are allowed there is at most one holder.
If no release crosses a reservation that fails, then the count says between the
calls what it should; and if one does, then it does not once all calls have come
to their end. -/
theorem reservations_consistent_iff {s final : State} {labels : List Label} (initial : Initial s)
    (allowed : Along step Allowed s labels) (finished : run step s labels = some final) :
    Always step AtMostOne s labels ∧
      (Along step Apart s labels → Always step Consistent s labels) ∧
      (Quiet final → Always step Consistent s labels → Along step Apart s labels) := by
  refine ⟨?_, ?_, ?_⟩
  · apply always_of_along (fun s => ∃ v, Shows s v) _ _ ⟨_, initial.shows⟩ allowed
    · rintro s ⟨v, shows⟩
      exact shows.atMostOne
    · rintro s label next ⟨v, shows⟩ allowed taken
      exact ⟨v.next label, shows.step allowed taken⟩
  · intro apart
    have both : Along step (fun s label => Allowed s label ∧ Apart s label) s labels :=
      allowed.and apart
    apply always_of_along (fun s => ∃ v, Shows s v ∧ v.owner.isSpoilt = false) _ _
      ⟨_, initial.shows, rfl⟩ both
    · rintro s ⟨v, shows, sane⟩
      exact shows.consistent sane
    · rintro s label next ⟨v, shows, sane⟩ ⟨allowed, apart⟩ taken
      exact ⟨v.next label, shows.step allowed taken, (shows.isSpoilt_next sane taken).mpr apart⟩
  · intro quiet
    apply Iff.mp
    apply always_iff_along_of_trap (fun s => ∃ v, Shows s v ∧ v.owner.isSpoilt = false)
      (fun s => ∃ v, Shows s v ∧ v.owner.isSpoilt = true) _ _ _ _ ⟨_, initial.shows, rfl⟩ allowed
      finished
    · rintro ⟨v, shows, spoilt⟩
      exact shows.not_consistent spoilt quiet
    · rintro s ⟨v, shows, sane⟩
      exact shows.consistent sane
    · rintro s label next ⟨v, shows, sane⟩ allowed apart taken
      exact ⟨v.next label, shows.step allowed taken, (shows.isSpoilt_next sane taken).mpr apart⟩
    · rintro s label next ⟨v, shows, sane⟩ allowed crossed taken
      refine ⟨v.next label, shows.step allowed taken, ?_⟩
      rw [← Bool.not_eq_false]
      exact fun kept => crossed ((shows.isSpoilt_next sane taken).mp kept)
    · rintro s label next ⟨v, shows, spoilt⟩ allowed taken
      exact ⟨v.next label, shows.step allowed taken, shows.isSpoilt_of_spoilt spoilt allowed⟩

/-- A region that nobody has used yet. -/
def unused : State where
  hwr := ⟨-1, 0, none⟩
  stage := fun _ => .outside
  holds := fun _ => false

theorem unused_initial : Initial unused :=
  ⟨rfl, fun _ => rfl, fun _ => rfl⟩

/-- Two processes have the region one after the other. -/
theorem reservations_consistent_in_turn :
    Always step Consistent unused
      [.reserve 1, .next 1, .get 1, .next 1, .release 1, .next 1, .reserve 2, .next 2] := by
  have allowed : Along step Allowed unused
      [.reserve 1, .next 1, .get 1, .next 1, .release 1, .next 1, .reserve 2, .next 2] := by
    simp [Along, step, unused, Allowed, State.atomic, State.decAndTest]
  have apart : Along step Apart unused
      [.reserve 1, .next 1, .get 1, .next 1, .release 1, .next 1, .reserve 2, .next 2] := by
    simp [Along, step, unused, Apart, State.atomic, State.decAndTest, Function.update_apply]
    intro u
    split <;> simp
  exact (reservations_consistent_iff unused_initial allowed rfl).2.1 apart

/-- The first process releases the region while the reservation of the second is
between its two atomic operations: the count is left at zero, and nobody can
reserve the region any more. -/
theorem release_crosses_reservation :
    Initial unused ∧
      Along step Allowed unused [.reserve 1, .next 1, .reserve 2, .release 1, .next 2] ∧
      ¬ Always step Consistent unused
        [.reserve 1, .next 1, .reserve 2, .release 1, .next 2] := by
  refine ⟨unused_initial, ?_, ?_⟩
  · simp [Along, step, unused, Allowed, State.atomic, State.decAndTest]
  · intro always
    obtain ⟨final, finished, count, quiet, nobody⟩ : ∃ final, run step unused
        [.reserve 1, .next 1, .reserve 2, .release 1, .next 2] = some final ∧
          final.hwr.count = 0 ∧ Quiet final ∧ ∀ t, final.holds t = false := by
      simp [run, step, unused, State.atomic, State.decAndTest, Quiet, Function.update_apply]
      exact fun _ ne _ => ne
    have expected := (always.last step finished).free quiet nobody
    rw [count] at expected
    contradiction

end Rhino.Hwr.Counting
