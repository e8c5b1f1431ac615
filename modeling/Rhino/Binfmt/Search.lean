import Rhino.Binfmt.Core

/-!
# Rules for a search

`search_binary_handler` and the loop over the formats do little with an exec
themselves: they count searches, take `mm` and `file` from the handlers and call
`load_bof_binary`.  What holds at the end of a search follows from what each call of
the handler does up to its own search.  There is a rule for what every call keeps, and
one for a bound on the levels: a rank that every call counts down when it goes on.
-/

namespace Rhino.Binfmt

open Rhino.Bof Rhino.Hwr Rhino.Kernel Rhino.Loader

variable {δ ε : Type}

/-! ## One level -/

/-- A call that returns leaves an exec of which the property holds; it is out of levels
only if that is allowed. -/
def Ends (holds : ExecState δ ε → Prop) (deepAllowed : Prop) : ExecEnd δ ε → Prop
  | .returned _ s => holds s
  | .lost => True
  | .deep => deepAllowed

theorem Ends.imp {holds weaker : ExecState δ ε → Prop} {deepAllowed : Prop}
    {ended : ExecEnd δ ε} (ends : Ends holds deepAllowed ended)
    (weakens : ∀ s, holds s → weaker s) : Ends weaker deepAllowed ended := by
  cases ended with
  | returned retval s => exact weakens s ends
  | lost => trivial
  | deep => exact ends

/-- The same for the loop over the formats. -/
def TryEnds (holds : ExecState δ ε → Prop) (deepAllowed : Prop) :
    Except (ExecEnd δ ε) (ℤ × ExecState δ ε) → Prop
  | .error ended => Ends holds deepAllowed ended
  | .ok result => holds result.2

/-- The property does not look at what the search itself and the other handlers
change. -/
def Framed (holds : ExecState δ ε → Prop) : Prop :=
  ∀ s mm file searches, holds s →
    holds { s with mm := mm, file := file, searches := searches }

/-- The BOF handler is called with these answers in one of the two tries. -/
def SearchEnv.Calls (answers : SearchEnv ε) (env : BofEnv ε) : Prop :=
  .bof env ∈ answers.first ∨ .bof env ∈ answers.second

section Level

variable {drivers : UInt16 → HwrDriver δ ε} {task : Task} {holds : ExecState δ ε → Prop}
  {deepAllowed : Prop}

/-- The loop over the formats keeps what each call of the BOF handler keeps. -/
theorem tryFormats_ends {search : ExecState δ ε → ExecEnd δ ε} (framed : Framed holds)
    {handlers : List (Handler ε)}
    (calls : ∀ env, .bof env ∈ handlers → ∀ s, holds s →
      Ends holds deepAllowed (loadBofBinary drivers task env search s))
    (retval : ℤ) {s : ExecState δ ε} (initial : holds s) :
    TryEnds holds deepAllowed (tryFormats drivers task search handlers retval s) := by
  induction handlers generalizing retval s with
  | nil => exact initial
  | cons handler rest ih =>
      have called : Ends holds deepAllowed (loadBinary drivers task search handler s) := by
        cases handler with
        | bof env => exact calls env List.mem_cons_self s initial
        | other ends => exact framed s ends.mm ends.file s.searches initial
      rw [tryFormats]
      cases result : loadBinary drivers task search handler s with
      | returned value after =>
          rw [result] at called
          change holds after at called
          dsimp only
          split
          · exact framed after after.mm false after.searches called
          · split
            · exact called
            · split
              · exact called
              · exact ih (fun env mem => calls env (List.mem_cons_of_mem handler mem)) _ called
      | lost => trivial
      | deep =>
          rw [result] at called
          exact called

/-- So does a level of the search. -/
theorem searchBinaryHandler_succ_ends (framed : Framed holds) {envs : ℕ → SearchEnv ε}
    {levels : ℕ} {s : ExecState δ ε}
    (calls : ∀ env, (envs s.searches).Calls env → ∀ s, holds s → Ends holds deepAllowed
      (loadBofBinary drivers task env (searchBinaryHandler drivers task envs levels) s))
    (initial : holds s) :
    Ends holds deepAllowed (searchBinaryHandler drivers task envs (levels + 1) s) := by
  have begun : holds { s with searches := s.searches + 1 } :=
    framed s s.mm s.file (s.searches + 1) initial
  have first := tryFormats_ends framed (fun env mem => calls env (Or.inl mem)) (-enoent) begun
  rw [searchBinaryHandler]
  split
  · exact begun
  · split
    · next ended left =>
      rw [left] at first
      exact first
    · next retval next left =>
      rw [left] at first
      split
      · exact first
      · split
        · exact first
        · have second := tryFormats_ends framed (fun env mem => calls env (Or.inr mem)) retval
            first
          split
          · next ended left =>
            rw [left] at second
            exact second
          · next left =>
            rw [left] at second
            exact second

end Level

/-! ## Whole searches -/

/-- The property holds of the exec where the handler stops or goes on. -/
def StageKeeps (holds : ExecState δ ε → Prop) : Stage δ ε → Prop
  | .lost => True
  | .ends _ s => holds s
  | .goesOn s => holds s

section Invariant

variable {drivers : UInt16 → HwrDriver δ ε} {task : Task} {holds : ExecState δ ε → Prop}
  {envs : ℕ → SearchEnv ε}

/-- The handler keeps what the daemon, the hardware half and the read of the ELF header
keep. -/
theorem stageKeeps_of_half {env : BofEnv ε}
    (performs : ∀ s event next, holds s → Performs drivers task s event next → holds next)
    (through : ∀ s half, holds s → hardwareHalf drivers task env s = some half → holds half)
    (overwrite : ∀ s bytes, holds s → holds (s.overwrite bytes)) {s : ExecState δ ε}
    (initial : holds s) : StageKeeps holds (bofStage drivers task env s) := by
  have performed (s : ExecState δ ε) (initial : holds s) (events : List (DaemonEvent ε)) :
      holds (s.perform drivers task events) := perform_invariant holds performs initial events
  have entered := performed s initial env.entry
  have ends : StageEnds drivers task env s (bofStage drivers task env s) := stageEnds s
  cases stage : bofStage drivers task env s with
  | lost => trivial
  | ends retval next =>
      rw [stage] at ends
      cases ends with
      | foreign => exact entered
      | error _ returned => exact through _ _ entered returned
      | unread _ returned => exact performed _ (through _ _ entered returned) env.reading
  | goesOn next =>
      rw [stage] at ends
      cases ends with
      | search _ returned =>
          exact overwrite _ _ (performed _ (through _ _ entered returned) env.reading)

theorem loadBofBinary_ends {env : BofEnv ε} {search : ExecState δ ε → ExecEnd δ ε}
    {deepAllowed : Prop} (inner : ∀ s, holds s → Ends holds deepAllowed (search s))
    {s : ExecState δ ε} (stage : StageKeeps holds (bofStage drivers task env s)) :
    Ends holds deepAllowed (loadBofBinary drivers task env search s) := by
  rw [loadBofBinary]
  cases ended : bofStage drivers task env s with
  | lost => trivial
  | ends retval next =>
      rw [ended] at stage
      exact stage
  | goesOn next =>
      rw [ended] at stage
      exact inner next stage

/-- What every call of the handler keeps holds at the end of the search. -/
theorem searchBinaryHandler_invariant (allowed : BofEnv ε → Prop) (framed : Framed holds)
    (stage : ∀ env, allowed env → ∀ s, holds s →
      StageKeeps holds (bofStage drivers task env s))
    (answers : ∀ n env, (envs n).Calls env → allowed env) (levels : ℕ) {s : ExecState δ ε}
    (initial : holds s) :
    Ends holds True (searchBinaryHandler drivers task envs levels s) := by
  induction levels generalizing s with
  | zero => trivial
  | succ levels ih =>
      refine searchBinaryHandler_succ_ends framed ?_ initial
      intro env called state holding
      exact loadBofBinary_ends (fun _ => ih) (stage env (answers _ env called) state holding)

end Invariant

/-! ## A bound on the levels -/

/-- The exec is within a rank, and where the handler goes on, within a smaller one. -/
def StageDescends (within : ℕ → ExecState δ ε → Prop) (n : ℕ) : Stage δ ε → Prop
  | .lost => True
  | .ends _ s => within n s
  | .goesOn s => ∃ m, n = m + 1 ∧ within m s

/-- A rank of the execs that every call of the handler counts down when it goes on. -/
structure Descent (drivers : UInt16 → HwrDriver δ ε) (task : Task) (allowed : BofEnv ε → Prop)
    where
  within : ℕ → ExecState δ ε → Prop
  framed : ∀ n, Framed (within n)
  succ : ∀ {n s}, within n s → within (n + 1) s
  stage : ∀ {env n s}, allowed env → within n s →
    StageDescends within n (bofStage drivers task env s)

namespace Descent

variable {drivers : UInt16 → HwrDriver δ ε} {task : Task} {allowed : BofEnv ε → Prop}
  (descent : Descent drivers task allowed)

theorem loadBofBinary_ends {env : BofEnv ε} (fine : allowed env)
    {search : ExecState δ ε → ExecEnd δ ε} {n : ℕ}
    (inner : ∀ m, n = m + 1 → ∀ s, descent.within m s →
      Ends (descent.within m) False (search s))
    {s : ExecState δ ε} (within : descent.within n s) :
    Ends (descent.within n) False (loadBofBinary drivers task env search s) := by
  have stage := descent.stage fine within
  rw [loadBofBinary]
  cases ended : bofStage drivers task env s with
  | lost => trivial
  | ends retval next =>
      rw [ended] at stage
      exact stage
  | goesOn next =>
      rw [ended] at stage
      rcases stage with ⟨m, rfl, smaller⟩
      -- what the search leaves is within the rank of this level, too
      exact (inner m rfl next smaller).imp fun _ => descent.succ

/-- A search with more levels than the rank is never out of them. -/
theorem searchBinaryHandler_ends {envs : ℕ → SearchEnv ε}
    (answers : ∀ n env, (envs n).Calls env → allowed env) {levels n : ℕ} (enough : n ≤ levels)
    {s : ExecState δ ε} (within : descent.within n s) :
    Ends (descent.within n) False
      (searchBinaryHandler drivers task envs (levels + 1) s) := by
  induction levels generalizing n s with
  | zero =>
      refine searchBinaryHandler_succ_ends (descent.framed n) ?_ within
      intro env called state stands
      refine descent.loadBofBinary_ends (answers _ env called) ?_ stands
      intro m positive
      rw [positive] at enough
      exact absurd enough (Nat.not_succ_le_zero m)
  | succ levels ih =>
      refine searchBinaryHandler_succ_ends (descent.framed n) ?_ within
      intro env called state stands
      refine descent.loadBofBinary_ends (answers _ env called) ?_ stands
      rintro m rfl other smaller
      exact ih (Nat.le_of_succ_le_succ enough) smaller

theorem not_deep {envs : ℕ → SearchEnv ε}
    (answers : ∀ n env, (envs n).Calls env → allowed env) {n : ℕ} {s : ExecState δ ε}
    (within : descent.within n s) :
    searchBinaryHandler drivers task envs (n + 1) s ≠ .deep := by
  intro deep
  have ends := descent.searchBinaryHandler_ends answers (Nat.le_refl n) within
  rw [deep] at ends
  exact ends

end Descent

end Rhino.Binfmt
