import Mathlib.Order.Lattice

/-!
# Searches for a cheapest candidate

A search is offered candidates one after another and holds at most one of them.
Which candidate takes the place of the one held is a relation that agrees with the
cost: a cheaper candidate always does, a dearer one never, and the relation may
decide either way between two of the same cost.  Whatever it decides, the search
ends with a candidate of least cost.
-/

namespace Rhino.Transition

universe u v

variable {α : Type u} {κ : Type v}

/-- Offer a candidate.  The first one is held, and every other if it takes the place of
the one held. -/
def offer (takes : α → α → Prop) [DecidableRel takes] : Option α → α → Option α
  | none, candidate => some candidate
  | some held, candidate => if takes candidate held then some candidate else some held

/-- What is held is a cheapest of the candidates offered, and nothing only if there was
none. -/
def Cheapest [LE κ] (cost : α → κ) (offered : List α) : Option α → Prop
  | none => offered = []
  | some held => held ∈ offered ∧ ∀ other ∈ offered, cost held ≤ cost other

/-- The rule by which candidates are replaced agrees with their cost. -/
structure Agrees [LinearOrder κ] (takes : α → α → Prop) (cost : α → κ) : Prop where
  of_lt : ∀ {candidate held}, cost candidate < cost held → takes candidate held
  le : ∀ {candidate held}, takes candidate held → cost candidate ≤ cost held

variable [LinearOrder κ] {takes : α → α → Prop} [DecidableRel takes] {cost : α → κ}

/-- One more candidate. -/
theorem Cheapest.offer (agrees : Agrees takes cost) {offered : List α} {held : Option α}
    (cheapest : Cheapest cost offered held) (candidate : α) :
    Cheapest cost (offered ++ [candidate]) (offer takes held candidate) := by
  cases held with
  | none =>
      have first : offered = [] := cheapest
      subst first
      simp [Transition.offer, Cheapest]
  | some held =>
      obtain ⟨member, least⟩ := cheapest
      simp only [Transition.offer]
      by_cases replaced : takes candidate held
      · have cheaper := agrees.le replaced
        rw [if_pos replaced]
        refine ⟨by simp, fun other listed => ?_⟩
        rcases List.mem_append.mp listed with listed | listed
        · exact le_trans cheaper (least other listed)
        · rw [List.mem_singleton.mp listed]
      · have dearer : cost held ≤ cost candidate :=
          le_of_not_gt fun cheaper => replaced (agrees.of_lt cheaper)
        rw [if_neg replaced]
        refine ⟨List.mem_append_left _ member, fun other listed => ?_⟩
        rcases List.mem_append.mp listed with listed | listed
        · exact least other listed
        · rw [List.mem_singleton.mp listed]
          exact dearer

/-- A search that goes on from what it holds. -/
theorem Cheapest.foldl_offer (agrees : Agrees takes cost) (candidates : List α)
    {offered : List α} {held : Option α} (cheapest : Cheapest cost offered held) :
    Cheapest cost (offered ++ candidates) (candidates.foldl (Transition.offer takes) held) := by
  induction candidates generalizing offered held with
  | nil => simpa using cheapest
  | cons candidate rest ih =>
      have next := ih (cheapest.offer agrees candidate)
      simpa using next

/-- A search ends with a cheapest candidate. -/
theorem cheapest_foldl_offer (agrees : Agrees takes cost) (candidates : List α) :
    Cheapest cost candidates (candidates.foldl (offer takes) none) := by
  have start : Cheapest cost ([] : List α) none := rfl
  exact start.foldl_offer agrees candidates

end Rhino.Transition
