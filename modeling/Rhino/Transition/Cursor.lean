import Mathlib.Data.List.Basic

/-!
# Walks that are taken up again

A list is handed out in portions.  Each portion starts at the position that the
one before has left and goes on until an item is refused or the list ends.  What
has been handed out is a front of the list at any time, and the whole list as
soon as a portion ends without a refusal.
-/

namespace Rhino.Transition

universe u

variable {α : Type u}

/-- What one portion comes to: whether it has reached the end of the list, the
position that it leaves, and the items that it has handed out. -/
structure Portion (α : Type u) where
  finished : Bool
  position : ℕ
  emitted : List α

/-- A portion with an item in front. -/
def Portion.after (item : α) (portion : Portion α) : Portion α :=
  { portion with emitted := item :: portion.emitted }

/-- Hand out the items, the first of which has the number `position`, until one is
refused. -/
def portion (accepts : ℕ → α → Bool) : ℕ → List α → Portion α
  | position, [] => ⟨true, position, []⟩
  | position, item :: rest =>
      if accepts position item then (portion accepts (position + 1) rest).after item
      else ⟨false, position, []⟩

/-- Portions in a row, one for every pattern of refusals. -/
def portions (items : List α) : ℕ → List (ℕ → α → Bool) → List (Portion α)
  | _, [] => []
  | position, accepts :: rest =>
      let first := portion accepts position (items.drop position)
      first :: portions items first.position rest

theorem portion_position (accepts : ℕ → α → Bool) (position : ℕ) (items : List α) :
    (portion accepts position items).position =
      position + (portion accepts position items).emitted.length := by
  induction items generalizing position with
  | nil => rfl
  | cons item rest ih =>
      rw [portion]
      split
      · rw [Portion.after, ih, List.length_cons, Nat.add_right_comm, Nat.add_assoc]
      · rfl

/-- The items of a portion and those behind it are all there are. -/
theorem portion_emitted_append (accepts : ℕ → α → Bool) (position : ℕ) (items : List α) :
    (portion accepts position items).emitted ++
      items.drop (portion accepts position items).emitted.length = items := by
  induction items generalizing position with
  | nil => rfl
  | cons item rest ih =>
      rw [portion]
      split
      · rw [Portion.after, List.length_cons, List.drop_succ_cons, List.cons_append, ih]
      · rfl

/-- The position stays inside the list. -/
theorem portion_position_le (accepts : ℕ → α → Bool) {position : ℕ} {items : List α}
    (inside : position ≤ items.length) :
    (portion accepts position (items.drop position)).position ≤ items.length := by
  have total := congrArg List.length
    (portion_emitted_append accepts position (items.drop position))
  rw [List.length_append, List.length_drop, List.length_drop] at total
  rw [portion_position]
  omega

theorem portion_emitted_of_finished {accepts : ℕ → α → Bool} {position : ℕ} {items : List α}
    (finished : (portion accepts position items).finished = true) :
    (portion accepts position items).emitted = items := by
  induction items generalizing position with
  | nil => rfl
  | cons item rest ih =>
      rw [portion] at finished ⊢
      split at finished
      · rename_i accepted
        rw [if_pos accepted, Portion.after, ih finished]
      · contradiction

/-- What stands behind a portion is what stands behind its position. -/
theorem drop_portion_position (accepts : ℕ → α → Bool) (position : ℕ) (items : List α) :
    items.drop (portion accepts position (items.drop position)).position =
      (items.drop position).drop
        (portion accepts position (items.drop position)).emitted.length := by
  rw [portion_position, List.drop_drop]

/-- Nothing is left out and nothing comes twice. -/
theorem portions_emitted_isFront (items : List α) (position : ℕ)
    (calls : List (ℕ → α → Bool)) :
    (portions items position calls).flatMap Portion.emitted <+: items.drop position := by
  induction calls generalizing position with
  | nil => exact List.nil_prefix
  | cons accepts rest ih =>
      have later := ih (portion accepts position (items.drop position)).position
      rw [drop_portion_position] at later
      rw [portions, List.flatMap_cons]
      conv_rhs => rw [← portion_emitted_append accepts position (items.drop position)]
      exact (List.prefix_append_right_inj _).mpr later

/-- A walk whose last portion is not refused has handed out everything. -/
theorem portions_emitted_of_finished {items : List α} {position : ℕ}
    {calls : List (ℕ → α → Bool)} {last : Portion α}
    (ends : (portions items position calls).getLast? = some last)
    (finished : last.finished = true) :
    (portions items position calls).flatMap Portion.emitted = items.drop position := by
  induction calls generalizing position with
  | nil => contradiction
  | cons accepts rest ih =>
      rw [portions, List.flatMap_cons]
      cases rest with
      | nil =>
          rcases Option.some.inj ends with rfl
          exact (List.append_nil _).trans (portion_emitted_of_finished finished)
      | cons next rest =>
          rw [portions, portions, List.getLast?_cons_cons] at ends
          rw [ih ends, drop_portion_position, portion_emitted_append]

end Rhino.Transition
