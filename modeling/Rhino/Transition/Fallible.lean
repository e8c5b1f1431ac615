import Mathlib.Logic.Basic
import Mathlib.Data.Nat.Notation

/-!
# Loops that may be left

A body that returns `error` leaves its loop for good, as a `goto` out of it
does.  The body of a counted loop is told the number of its turn.  A loop that was left was left
in a definite turn, which `repeatTurns_eq_error_iff` names; this is what a case
analysis over the exits of a loop starts from.
-/

namespace Rhino.Transition

universe u v w

variable {ε : Type u} {σ : Type v} {τ : Type w}

theorem bind_eq_ok_iff {first : Except ε σ} {rest : σ → Except ε τ} {result : τ} :
    first.bind rest = .ok result ↔ ∃ state, first = .ok state ∧ rest state = .ok result := by
  cases first with
  | error stop => simp [Except.bind]
  | ok state => simp [Except.bind]

theorem bind_eq_error_iff {first : Except ε σ} {rest : σ → Except ε τ} {stop : ε} :
    first.bind rest = .error stop ↔
      first = .error stop ∨ ∃ state, first = .ok state ∧ rest state = .error stop := by
  cases first with
  | error stop => simp [Except.bind]
  | ok state => simp [Except.bind]

/-- A computation is known to succeed once something is known of its result. -/
theorem exists_ok_of_map_toOption {result : Except ε σ} {look : σ → τ} {seen : τ}
    (known : result.toOption.map look = some seen) :
    ∃ state, result = .ok state ∧ look state = seen := by
  cases result with
  | error stop => contradiction
  | ok state => exact ⟨state, rfl, Option.some.inj known⟩

/-- The state in which a loop ends, be it left or not. -/
def settled : Except σ σ → σ
  | .error state => state
  | .ok state => state

/-- What every turn keeps holds when a loop over a list has run to its end. -/
theorem foldlM_invariant {α : Type w} {body : σ → α → Except ε σ} (invariant : σ → Prop)
    (preserved : ∀ state item next, invariant state → body state item = .ok next →
      invariant next)
    {items : List α} {start final : σ} (initial : invariant start)
    (finished : items.foldlM body start = .ok final) : invariant final := by
  induction items generalizing start with
  | nil =>
      cases finished
      exact initial
  | cons item rest ih =>
      rw [List.foldlM_cons] at finished
      rcases bind_eq_ok_iff.mp finished with ⟨next, taken, finished⟩
      exact ih (preserved start item next initial taken) finished

/-- The first `count` turns of a loop. -/
def repeatTurns (body : ℕ → σ → Except ε σ) (start : σ) : ℕ → Except ε σ
  | 0 => .ok start
  | count + 1 => (repeatTurns body start count).bind (body count)

variable {body : ℕ → σ → Except ε σ} {start : σ}

theorem repeatTurns_succ_eq_ok_iff {count : ℕ} {final : σ} :
    repeatTurns body start (count + 1) = .ok final ↔
      ∃ state, repeatTurns body start count = .ok state ∧ body count state = .ok final :=
  bind_eq_ok_iff

/-- A loop that ran to its end got through every turn before. -/
theorem repeatTurns_ok_of_le {count turn : ℕ} {final : σ} (le : turn ≤ count)
    (finished : repeatTurns body start count = .ok final) :
    ∃ state, repeatTurns body start turn = .ok state := by
  induction count generalizing final with
  | zero =>
      rw [Nat.le_zero.mp le]
      exact ⟨start, rfl⟩
  | succ count ih =>
      obtain ⟨state, reached, -⟩ := repeatTurns_succ_eq_ok_iff.mp finished
      rcases Nat.lt_or_eq_of_le le with lt | rfl
      · exact ih (Nat.le_of_lt_succ lt) reached
      · exact ⟨final, finished⟩

/-- What every turn keeps holds when the loop has run to its end. -/
theorem repeatTurns_invariant (invariant : ℕ → σ → Prop) (initial : invariant 0 start)
    (preserved : ∀ turn state next, invariant turn state → body turn state = .ok next →
      invariant (turn + 1) next)
    {count : ℕ} {final : σ} (finished : repeatTurns body start count = .ok final) :
    invariant count final := by
  induction count generalizing final with
  | zero =>
      cases finished
      exact initial
  | succ count ih =>
      obtain ⟨state, reached, taken⟩ := repeatTurns_succ_eq_ok_iff.mp finished
      exact preserved count state final (ih reached) taken

/-- A loop is left in the turn whose body leaves it. -/
theorem repeatTurns_eq_error_iff {count : ℕ} {stop : ε} :
    repeatTurns body start count = .error stop ↔
      ∃ turn < count, ∃ state, repeatTurns body start turn = .ok state ∧
        body turn state = .error stop := by
  induction count with
  | zero => simp [repeatTurns]
  | succ count ih =>
      rw [repeatTurns, bind_eq_error_iff, ih]
      constructor
      · rintro (⟨turn, lt, left⟩ | ⟨state, reached, left⟩)
        · exact ⟨turn, Nat.lt_succ_of_lt lt, left⟩
        · exact ⟨count, Nat.lt_succ_self count, state, reached, left⟩
      · rintro ⟨turn, lt, state, reached, left⟩
        rcases Nat.lt_succ_iff_lt_or_eq.mp lt with before | rfl
        · exact Or.inl ⟨turn, before, state, reached, left⟩
        · exact Or.inr ⟨state, reached, left⟩

/-- A turn that is reached goes on to the next one or is the last of the loop. -/
theorem turn_ok_or_last {count turn : ℕ} {state : σ} (lt : turn < count)
    (reached : repeatTurns body start turn = .ok state) :
    (∃ next, body turn state = .ok next) ∨
      ∃ stop, body turn state = .error stop ∧ repeatTurns body start count = .error stop := by
  cases ended : body turn state with
  | ok next => exact Or.inl ⟨next, rfl⟩
  | error stop =>
      refine Or.inr ⟨stop, rfl, ?_⟩
      exact repeatTurns_eq_error_iff.mpr ⟨turn, lt, state, reached, ended⟩

section Result

variable {turn : σ → Except ε σ} {next : σ} {result : ε}

/-- A loop whose body is not told the number of its turn can be begun with its first turn. -/
theorem repeatTurns_const_succ (turn : σ → Except ε σ) (start : σ) (count : ℕ) :
    repeatTurns (fun _ => turn) start (count + 1) =
      (turn start).bind fun next => repeatTurns (fun _ => turn) next count := by
  induction count with
  | zero =>
      change turn start = _
      cases turn start with
      | error stop => rfl
      | ok next => rfl
  | succ count ih =>
      rw [repeatTurns, ih]
      cases turn start with
      | error stop => rfl
      | ok next => rfl

/-- The result with which a loop is left, if it is left in that many turns. -/
def resultWithin (turn : σ → Except ε σ) (start : σ) (turns : ℕ) : Option ε :=
  match repeatTurns (fun _ => turn) start turns with
  | .error result => some result
  | .ok _ => none

theorem resultWithin_eq_some_iff {turns : ℕ} :
    resultWithin turn start turns = some result ↔
      repeatTurns (fun _ => turn) start turns = .error result := by
  unfold resultWithin
  cases repeatTurns (fun _ => turn) start turns with
  | error stop => simp
  | ok state => simp

theorem resultWithin_of_ok (taken : turn start = .ok next) (turns : ℕ) :
    resultWithin turn start (turns + 1) = resultWithin turn next turns := by
  rw [resultWithin, repeatTurns_const_succ, taken]
  rfl

theorem resultWithin_of_error (left : turn start = .error result) (turns : ℕ) :
    resultWithin turn start (turns + 1) = some result := by
  rw [resultWithin, repeatTurns_const_succ, left]
  rfl

/-- More turns than are needed change nothing. -/
theorem resultWithin_mono {turns more : ℕ} (enough : turns ≤ more)
    (ends : resultWithin turn start turns = some result) :
    resultWithin turn start more = some result := by
  rw [resultWithin_eq_some_iff] at ends ⊢
  obtain ⟨last, before, state, reached, left⟩ := repeatTurns_eq_error_iff.mp ends
  exact repeatTurns_eq_error_iff.mpr ⟨last, Nat.lt_of_lt_of_le before enough, state, reached, left⟩

end Result

end Rhino.Transition
