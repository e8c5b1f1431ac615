import Mathlib.Data.Int.Order.Basic
import Mathlib.Data.List.GetD
import Rhino.Codec.Rate
import Rhino.Transition.Search

/-!
# The settings that `find_rate` chooses from

A setting is a divisor of the master clock, a rate code that `sr_valid_mask` allows with
it, and whether the clock is halved in front.  It suits a request if both of its rates are
within one thirty-second of those wanted, and its error is the sum of the two differences.
Rates are taken as `find_rate` computes them: the quotient of clock and divisor is cut to
an integer before it is multiplied, and half a rate is cut again.
-/

namespace Rhino.Codec

open Transition

/-- A combination that `sr_valid_mask` allows. -/
structure Setting where
  divisor : ℕ
  rateCode : ℕ
  halved : Bool
  valid : (srValidMask.getD divisor 0 >>> rateCode) &&& 1 = 1
  deriving DecidableEq

/-- A rate asked for, times `SR_MULT`. -/
def want (rate : UInt32) : ℕ :=
  SR_MULT * rate.toNat

/-- The rate is at most one thirty-second away from the one wanted. -/
def Within (rate : ℤ) (need : ℕ) : Prop :=
  32 * (rate - need).natAbs ≤ need

instance Within.decidable (rate : ℤ) (need : ℕ) : Decidable (Within rate need) :=
  inferInstanceAs (Decidable (_ ≤ _))

namespace Setting

/-- A rate times `SR_MULT` with the clock as it is, from the multipliers of a converter. -/
def product (setting : Setting) (multTable : List ℤ) (mclk : ℤ) : ℤ :=
  mclk / bosrUsbDivisorTable.getD setting.divisor 1 * multTable.getD setting.rateCode 0

/-- A rate times `SR_MULT`. -/
def rate (setting : Setting) (multTable : List ℤ) (mclk : ℤ) : ℤ :=
  if setting.halved then setting.product multTable mclk / 2 else setting.product multTable mclk

def adcRate (setting : Setting) (mclk : ℤ) : ℤ :=
  setting.rate srAdcMultTable mclk

def dacRate (setting : Setting) (mclk : ℤ) : ℤ :=
  setting.rate srDacMultTable mclk

/-- Both rates are within one thirty-second of those asked for. -/
def Suits (setting : Setting) (mclk : ℤ) (needAdc needDac : UInt32) : Prop :=
  Within (setting.adcRate mclk) (want needAdc) ∧ Within (setting.dacRate mclk) (want needDac)

instance Suits.decidable (setting : Setting) (mclk : ℤ) (needAdc needDac : UInt32) :
    Decidable (setting.Suits mclk needAdc needDac) :=
  inferInstanceAs (Decidable (_ ∧ _))

/-- The sum of the absolute errors. -/
def error (setting : Setting) (mclk : ℤ) (needAdc needDac : UInt32) : ℕ :=
  (setting.adcRate mclk - want needAdc).natAbs + (setting.dacRate mclk - want needDac).natAbs

/-- The setting as `find_rate` returns it. -/
def code (setting : Setting) : ℕ :=
  setting.rateCode <<< 2 ||| setting.divisor ||| setting.halved.toNat <<< 6

/-- A later setting of the same error takes the place of an earlier one if it halves the
clock. -/
def Takes (mclk : ℤ) (needAdc needDac : UInt32) (setting held : Setting) : Prop :=
  if setting.halved then
    setting.error mclk needAdc needDac ≤ held.error mclk needAdc needDac
  else setting.error mclk needAdc needDac < held.error mclk needAdc needDac

instance Takes.decidable (mclk : ℤ) (needAdc needDac : UInt32) (setting held : Setting) :
    Decidable (Takes mclk needAdc needDac setting held) :=
  inferInstanceAs (Decidable (ite _ _ _))

theorem divisor_lt (setting : Setting) : setting.divisor < 4 := by
  by_contra beyond
  have valid := setting.valid
  have noMask : srValidMask.getD setting.divisor 0 = 0 :=
    List.getD_eq_default _ _ (Nat.le_of_not_lt beyond)
  rw [noMask, Nat.zero_shiftRight] at valid
  cases valid

theorem rateCode_lt (setting : Setting) : setting.rateCode < 16 := by
  by_contra beyond
  have valid := setting.valid
  have narrow : ∀ divisor < 4, srValidMask.getD divisor 0 < 2 ^ 16 := by decide
  have shifted : srValidMask.getD setting.divisor 0 >>> setting.rateCode = 0 := by
    rw [Nat.shiftRight_eq_div_pow]
    apply Nat.div_eq_of_lt
    exact Nat.lt_of_lt_of_le (narrow _ setting.divisor_lt)
      (Nat.pow_le_pow_right Nat.two_pos (Nat.le_of_not_lt beyond))
  rw [shifted] at valid
  cases valid

end Setting

/-- The settings of one turn of the inner loop, in the order in which they are tried. -/
def settingsAt (i j : ℕ) : List Setting :=
  if valid : (srValidMask.getD i 0 >>> j) &&& 1 = 1 then
    [⟨i, j, false, valid⟩, ⟨i, j, true, valid⟩]
  else []

def settings : List Setting :=
  (List.range bosrUsbDivisorTable.length).flatMap fun i =>
    (List.range srAdcMultTable.length).flatMap fun j => settingsAt i j

/-- The loops come past every setting. -/
theorem mem_settings (setting : Setting) : setting ∈ settings := by
  have tried : setting ∈ settingsAt setting.divisor setting.rateCode := by
    rw [settingsAt, dif_pos setting.valid]
    cases halved : setting.halved with
    | false => exact List.mem_cons.mpr (Or.inl (by rw [← halved]))
    | true => exact List.mem_cons_of_mem _ (List.mem_singleton.mpr (by rw [← halved]))
  refine List.mem_flatMap.mpr ⟨setting.divisor, List.mem_range.mpr setting.divisor_lt, ?_⟩
  exact List.mem_flatMap.mpr
    ⟨setting.rateCode, List.mem_range.mpr setting.rateCode_lt, tried⟩

/-- The settings that suit a request. -/
def suiting (mclk : ℤ) (needAdc needDac : UInt32) : List Setting :=
  settings.filter fun setting => setting.Suits mclk needAdc needDac

@[simp]
theorem mem_suiting_iff {mclk : ℤ} {needAdc needDac : UInt32} {setting : Setting} :
    setting ∈ suiting mclk needAdc needDac ↔ setting.Suits mclk needAdc needDac := by
  simp [suiting, mem_settings]

/-- The search among the settings that suit the request. -/
def chosen (mclk : ℤ) (needAdc needDac : UInt32) : Option Setting :=
  (suiting mclk needAdc needDac).foldl (offer (Setting.Takes mclk needAdc needDac)) none

end Rhino.Codec
