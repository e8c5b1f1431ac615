import Mathlib.Logic.Basic
import Mathlib.Tactic.ByContra

/-!
# Runs of a labelled step function

A system is a partial step function: a label is an action of one of its
parties, and `none` means that the action is not enabled.  A run performs a
list of labels one after another.

Safety is proved by an invariant that every step keeps.  `always_iff_along`
is the form for a system that is safe only as long as its steps meet a guard:
it makes the guard exact by also asking that the first step against it breaks
the property.
-/

namespace Rhino.Transition

universe u v w

variable {σ : Type u} {α : Type v} (step : σ → α → Option σ)

/-- Perform a list of labels; the run is undefined if one is not enabled. -/
def run : σ → List α → Option σ
  | state, [] => some state
  | state, label :: rest => (step state label).bind fun next => run next rest

theorem run_cons_eq_some_iff {state final : σ} {label : α} {rest : List α} :
    run step state (label :: rest) = some final ↔
      ∃ next, step state label = some next ∧ run step next rest = some final := by
  simp [run, Option.bind_eq_some_iff]

/-- One run after another. -/
theorem run_append {state middle final : σ} {first second : List α}
    (finished : run step state first = some middle)
    (goesOn : run step middle second = some final) :
    run step state (first ++ second) = some final := by
  induction first generalizing state with
  | nil =>
      cases finished
      exact goesOn
  | cons label rest ih =>
      obtain ⟨next, taken, finished⟩ := (run_cons_eq_some_iff step).mp finished
      exact (run_cons_eq_some_iff step).mpr ⟨next, taken, ih finished⟩

/-- Labels that change nothing. -/
theorem run_of_fixed {state : σ} {labels : List α}
    (fixed : ∀ label ∈ labels, step state label = some state) :
    run step state labels = some state := by
  induction labels with
  | nil => rfl
  | cons label rest ih =>
      refine (run_cons_eq_some_iff step).mpr ⟨state, fixed label List.mem_cons_self, ih ?_⟩
      exact fun other mem => fixed other (List.mem_cons_of_mem _ mem)

/-- Labels of which the first leads to a state and the others stay in it. -/
theorem run_settles {state target : σ} {labels : List α} (nonempty : labels ≠ [])
    (reaches : ∀ label ∈ labels, step state label = some target)
    (stays : ∀ label ∈ labels, step target label = some target) :
    run step state labels = some target := by
  cases labels with
  | nil => exact absurd rfl nonempty
  | cons label rest =>
      refine (run_cons_eq_some_iff step).mpr ⟨target, reaches label List.mem_cons_self, ?_⟩
      exact run_of_fixed step fun other mem => stays other (List.mem_cons_of_mem _ mem)

/-- Every label of the run meets the guard in the state it is performed in. -/
def Along (guard : σ → α → Prop) : σ → List α → Prop
  | _, [] => True
  | state, label :: rest =>
      guard state label ∧ ∀ next, step state label = some next → Along guard next rest

/-- A guard that every step meets is met along every run. -/
theorem along_of_forall {guard : σ → α → Prop} (always : ∀ state label, guard state label)
    (state : σ) (labels : List α) : Along step guard state labels := by
  induction labels generalizing state with
  | nil => trivial
  | cons label rest ih => exact ⟨always state label, fun next _ => ih next⟩

/-- The states of a run are computed, so a guard can be checked along it. -/
instance Along.decidable {guard : σ → α → Prop} [∀ state label, Decidable (guard state label)] :
    ∀ state labels, Decidable (Along step guard state labels)
  | _, [] => isTrue trivial
  | state, label :: rest =>
      match taken : step state label with
      | none => decidable_of_iff (guard state label)
          ⟨fun guarded => ⟨guarded, fun _ reached => nomatch taken.symm.trans reached⟩, And.left⟩
      | some next =>
          have : Decidable (Along step guard next rest) := Along.decidable next rest
          decidable_of_iff (guard state label ∧ Along step guard next rest)
            ⟨fun ⟨guarded, along⟩ => ⟨guarded, fun _ reached =>
                Option.some.inj (taken.symm.trans reached) ▸ along⟩,
              fun ⟨guarded, along⟩ => ⟨guarded, along next taken⟩⟩

/-- The property holds in every state of the run, the first one included. -/
def Always (property : σ → Prop) : σ → List α → Prop
  | state, [] => property state
  | state, label :: rest =>
      property state ∧ ∀ next, step state label = some next → Always property next rest

theorem Always.head {property : σ → Prop} {state : σ} {labels : List α}
    (always : Always step property state labels) : property state := by
  cases labels with
  | nil => exact always
  | cons label rest => exact always.1

theorem Always.last {property : σ → Prop} {state final : σ} {labels : List α}
    (always : Always step property state labels) (finished : run step state labels = some final) :
    property final := by
  induction labels generalizing state with
  | nil =>
      cases finished
      exact always
  | cons label rest ih =>
      obtain ⟨next, taken, finished⟩ := (run_cons_eq_some_iff step).mp finished
      exact ih (always.2 next taken) finished

variable {step}

theorem along_cons_iff {guard : σ → α → Prop} {state next : σ} {label : α} {rest : List α}
    (taken : step state label = some next) :
    Along step guard state (label :: rest) ↔ guard state label ∧ Along step guard next rest := by
  simp only [Along, taken, Option.some.injEq, forall_eq']

theorem always_cons_iff {property : σ → Prop} {state next : σ} {label : α} {rest : List α}
    (taken : step state label = some next) :
    Always step property state (label :: rest) ↔
      property state ∧ Always step property next rest := by
  simp only [Always, taken, Option.some.injEq, forall_eq']

variable (step)

/-- What the steps of a run put out, in their order. -/
def history {β : Type w} (emit : σ → α → List β) : σ → List α → List β
  | _, [] => []
  | state, label :: rest =>
      emit state label ++ (step state label).elim [] fun next => history emit next rest

variable {step}

theorem history_cons {β : Type w} {emit : σ → α → List β} {state next : σ} {label : α}
    (taken : step state label = some next) (rest : List α) :
    history step emit state (label :: rest) =
      emit state label ++ history step emit next rest := by
  rw [history, taken]
  rfl

/-- Where every step is simulated by what it puts out, a run is. -/
theorem run_history {τ : Type*} {β : Type w} {abstract : τ → β → Option τ} (project : σ → τ)
    {emit : σ → α → List β}
    (simulates : ∀ state label next, step state label = some next →
      run abstract (project state) (emit state label) = some (project next))
    {labels : List α} {state final : σ} (finished : run step state labels = some final) :
    run abstract (project state) (history step emit state labels) = some (project final) := by
  induction labels generalizing state with
  | nil =>
      cases finished
      rfl
  | cons label rest ih =>
      obtain ⟨next, taken, finished⟩ := (run_cons_eq_some_iff step).mp finished
      rw [history_cons taken]
      exact run_append abstract (simulates state label next taken) (ih finished)

/-- Everything that a run puts out has a property if every step only puts out such. -/
theorem forall_mem_history_iff {β : Type w} {emit : σ → α → List β} {property : β → Prop}
    {state : σ} {labels : List α} :
    (∀ item ∈ history step emit state labels, property item) ↔
      Along step (fun state label => ∀ item ∈ emit state label, property item) state labels := by
  induction labels generalizing state with
  | nil => exact iff_of_true (List.forall_mem_nil property) trivial
  | cons label rest ih =>
      rw [history, List.forall_mem_append, Along]
      apply and_congr_right'
      cases taken : step state label with
      | none => exact iff_of_true (List.forall_mem_nil property) nofun
      | some next => simp only [Option.elim_some, ih, Option.some.injEq, forall_eq']

/-- A buffer from which every step takes at the front and to which it adds at
the back puts out, in order, what was put in. -/
theorem history_conserved {β : Type w} (content : σ → List β)
    {entering leaving : σ → α → List β}
    (balance : ∀ state label next, step state label = some next →
      content state ++ entering state label = leaving state label ++ content next)
    {labels : List α} {state final : σ} (finished : run step state labels = some final) :
    content state ++ history step entering state labels =
      history step leaving state labels ++ content final := by
  induction labels generalizing state with
  | nil =>
      cases finished
      simp [history]
  | cons label rest ih =>
      obtain ⟨next, taken, finished⟩ := (run_cons_eq_some_iff step).mp finished
      calc content state ++ history step entering state (label :: rest)
        _ = (content state ++ entering state label) ++ history step entering next rest := by
            rw [history_cons taken, List.append_assoc]
        _ = leaving state label ++ (content next ++ history step entering next rest) := by
            rw [balance state label next taken, List.append_assoc]
        _ = history step leaving state (label :: rest) ++ content final := by
            rw [ih finished, history_cons taken, List.append_assoc]

/-- A system whose actions are always enabled runs to the end. -/
theorem run_total (next : σ → α → σ) (state : σ) (labels : List α) :
    run (fun state label => some (next state label)) state labels =
      some (labels.foldl next state) := by
  induction labels generalizing state with
  | nil => rfl
  | cons label rest ih => exact ih (next state label)

theorem along_total_append (next : σ → α → σ) {guard : σ → α → Prop} {state : σ}
    {first second : List α} :
    Along (fun state label => some (next state label)) guard state (first ++ second) ↔
      Along (fun state label => some (next state label)) guard state first ∧
        Along (fun state label => some (next state label)) guard (first.foldl next state)
          second := by
  induction first generalizing state with
  | nil => exact (and_iff_right trivial).symm
  | cons label rest ih =>
      rw [List.cons_append, along_cons_iff rfl, along_cons_iff rfl, ih, List.foldl_cons, and_assoc]

/-- The same for a total step function, as a fold over a schedule. -/
theorem foldl_invariant (next : σ → α → σ) (invariant : σ → Prop)
    (preserved : ∀ state label, invariant state → invariant (next state label))
    {state : σ} (initial : invariant state) (schedule : List α) :
    invariant (schedule.foldl next state) := by
  induction schedule generalizing state with
  | nil => exact initial
  | cons label rest ih => exact ih (preserved state label initial)

/-- What every step keeps holds at the end of a run. -/
theorem run_invariant (invariant : σ → Prop)
    (preserved : ∀ state label next, invariant state → step state label = some next →
      invariant next)
    {labels : List α} {state final : σ} (initial : invariant state)
    (finished : run step state labels = some final) : invariant final := by
  induction labels generalizing state with
  | nil =>
      cases finished
      exact initial
  | cons label rest ih =>
      obtain ⟨next, taken, finished⟩ := (run_cons_eq_some_iff step).mp finished
      exact ih (preserved state label next initial taken) finished

theorem Along.and {first second : σ → α → Prop} {labels : List α} {state : σ}
    (alongFirst : Along step first state labels) (alongSecond : Along step second state labels) :
    Along step (fun state label => first state label ∧ second state label) state labels := by
  induction labels generalizing state with
  | nil => trivial
  | cons label rest ih =>
      refine ⟨⟨alongFirst.1, alongSecond.1⟩, ?_⟩
      intro next taken
      exact ih (alongFirst.2 next taken) (alongSecond.2 next taken)

/-- Under an invariant of the guarded runs, a guard implies another. -/
theorem Along.imp {guard weaker : σ → α → Prop} (invariant : σ → Prop)
    (sound : ∀ state label, invariant state → guard state label → weaker state label)
    (preserved : ∀ state label next, invariant state → guard state label →
      step state label = some next → invariant next)
    {labels : List α} {state : σ} (initial : invariant state)
    (along : Along step guard state labels) : Along step weaker state labels := by
  induction labels generalizing state with
  | nil => trivial
  | cons label rest ih =>
      refine ⟨sound state label initial along.1, ?_⟩
      intro next taken
      exact ih (preserved state label next initial along.1 taken) (along.2 next taken)

/-- A guard is met along a run if it is met wherever the run gets to. -/
theorem along_iff_reached {guard : σ → α → Prop} {labels : List α} {state : σ} :
    Along step guard state labels ↔ ∀ i label reached, labels[i]? = some label →
      run step state (labels.take i) = some reached → guard reached label := by
  induction labels generalizing state with
  | nil => exact iff_of_true trivial nofun
  | cons label rest ih =>
      constructor
      · rintro ⟨guarded, along⟩ i other reached there came
        cases i with
        | zero =>
            cases there
            cases came
            exact guarded
        | succ i =>
            obtain ⟨next, taken, came⟩ := (run_cons_eq_some_iff step).mp came
            exact ih.mp (along next taken) i other reached there came
      · intro everywhere
        refine ⟨everywhere 0 label state rfl rfl, ?_⟩
        intro next taken
        rw [ih]
        intro i other reached there came
        exact everywhere (i + 1) other reached there
          ((run_cons_eq_some_iff step).mpr ⟨next, taken, came⟩)

section Guarded

variable {guard : σ → α → Prop} (invariant : σ → Prop) {property : σ → Prop}
  (sound : ∀ state, invariant state → property state)
  (preserved : ∀ state label next, invariant state → guard state label →
    step state label = some next → invariant next)
include sound preserved

/-- What every guarded step keeps holds in every state of a guarded run. -/
theorem always_of_along {labels : List α} {state : σ} (initial : invariant state)
    (along : Along step guard state labels) : Always step property state labels := by
  induction labels generalizing state with
  | nil => exact sound state initial
  | cons label rest ih =>
      refine ⟨sound state initial, ?_⟩
      intro next taken
      exact ih (preserved state label next initial along.1 taken) (along.2 next taken)

/-- If, besides, a step against the guard always breaks the property, then the
guard is exactly what safety of a run needs. -/
theorem always_iff_along
    (broken : ∀ state label next, invariant state → ¬ guard state label →
      step state label = some next → ¬ property next)
    {labels : List α} {state final : σ} (initial : invariant state)
    (finished : run step state labels = some final) :
    Always step property state labels ↔ Along step guard state labels := by
  constructor
  · intro always
    induction labels generalizing state with
    | nil => trivial
    | cons label rest ih =>
        obtain ⟨next, taken, finished⟩ := (run_cons_eq_some_iff step).mp finished
        have later := ((always_cons_iff taken).mp always).2
        have guarded : guard state label := by
          by_contra unguarded
          exact broken state label next initial unguarded taken (Always.head step later)
        have kept := preserved state label next initial guarded taken
        exact (along_cons_iff taken).mpr ⟨guarded, ih kept finished later⟩
  · exact always_of_along invariant sound preserved initial

end Guarded

/-- If a step against the guard does not break the property at once, but leads to
where no run gets out of again, then the guard is what the runs need that end
where this shows.  `allowed` is what is known of the steps of the run. -/
theorem always_iff_along_of_trap {allowed guard : σ → α → Prop} (invariant trap : σ → Prop)
    {property : σ → Prop}
    (sound : ∀ state, invariant state → property state)
    (preserved : ∀ state label next, invariant state → allowed state label → guard state label →
      step state label = some next → invariant next)
    (trapped : ∀ state label next, invariant state → allowed state label →
      ¬ guard state label → step state label = some next → trap next)
    (closed : ∀ state label next, trap state → allowed state label →
      step state label = some next → trap next)
    {labels : List α} {state final : σ} (initial : invariant state)
    (along : Along step allowed state labels) (finished : run step state labels = some final)
    (shows : trap final → ¬ property final) :
    Always step property state labels ↔ Along step guard state labels := by
  have lost {labels : List α} {state : σ} (inside : trap state)
      (along : Along step allowed state labels) (finished : run step state labels = some final) :
      ¬ Always step property state labels := by
    induction labels generalizing state with
    | nil =>
        cases finished
        exact shows inside
    | cons label rest ih =>
        obtain ⟨next, taken, finished⟩ := (run_cons_eq_some_iff step).mp finished
        intro always
        exact ih (closed state label next inside along.1 taken) (along.2 next taken) finished
          (always.2 next taken)
  induction labels generalizing state with
  | nil => exact iff_of_true (sound state initial) trivial
  | cons label rest ih =>
      obtain ⟨next, taken, finished⟩ := (run_cons_eq_some_iff step).mp finished
      by_cases guarded : guard state label
      · rw [always_cons_iff taken, along_cons_iff taken,
          and_iff_right (sound state initial), and_iff_right guarded]
        exact ih (preserved state label next initial along.1 guarded taken) (along.2 next taken)
          finished
      · have inside := trapped state label next initial along.1 guarded taken
        apply iff_of_false
        · intro always
          exact lost inside (along.2 next taken) finished (always.2 next taken)
        · intro kept
          exact guarded kept.1

end Rhino.Transition
