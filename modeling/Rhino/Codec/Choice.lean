import Mathlib.Algebra.Order.Ring.Int
import Rhino.Codec.Setting

/-!
# The setting that `find_rate` returns

For clocks of up to 2 GHz and rates of up to 96 kHz no computation of `find_rate` leaves
its type.  Its loops are then the search among the settings that suit the request: the
variables of the best setting record what the search holds, and the score `UINT_MAX`,
which no setting has, that it holds none.
-/

namespace Rhino.Codec

open Transition Setting

/-- The clocks and rates for which `find_rate` computes without overflow. -/
structure InRange (mclk : ℤ) (needAdc needDac : UInt32) : Prop where
  clock_pos : 0 < mclk
  clock_le : mclk ≤ 2000000000
  adc_le : needAdc.toNat ≤ 96000
  dac_le : needDac.toNat ≤ 96000

theorem toInt_eq_self {value : ℤ} (lower : -2147483648 ≤ value) (upper : value < 2147483648) :
    toInt value = value := by
  apply Int.bmod_eq_of_le
  · exact lower
  · exact upper

/-! ### The request -/

theorem want_le {rate : UInt32} (le : rate.toNat ≤ 96000) : want rate ≤ 12672000 :=
  Nat.mul_le_mul_left SR_MULT le

theorem wanted_eq {rate : UInt32} (le : rate.toNat ≤ 96000) :
    wanted rate =
      ⟨want rate, (want rate - want rate / 32 : ℕ), (want rate + want rate / 32 : ℕ)⟩ := by
  have bound := want_le le
  have need : (rate * UInt32.ofNat SR_MULT).toNat = want rate := by
    rw [UInt32.toNat_mul, Nat.mul_comm]
    exact Nat.mod_eq_of_lt (Nat.lt_of_le_of_lt bound (by decide))
  have part : ((rate * UInt32.ofNat SR_MULT) >>> 5).toNat = want rate / 32 := by
    rw [UInt32.toNat_shiftRight, need]
    exact Nat.shiftRight_eq_div_pow _ 5
  have low : (rate * UInt32.ofNat SR_MULT - (rate * UInt32.ofNat SR_MULT) >>> 5).toNat =
      want rate - want rate / 32 := by
    rw [UInt32.toNat_sub_of_le, need, part]
    rw [UInt32.le_iff_toNat_le, need, part]
    exact Nat.div_le_self _ _
  have high : (rate * UInt32.ofNat SR_MULT + (rate * UInt32.ofNat SR_MULT) >>> 5).toNat =
      want rate + want rate / 32 := by
    rw [UInt32.toNat_add, need, part]
    apply Nat.mod_eq_of_lt
    omega
  simp only [wanted, need, low, high]
  rw [toInt_eq_self, toInt_eq_self, toInt_eq_self] <;> omega

/-- The limits of `find_rate` are those of one thirty-second. -/
theorem within_iff {rate : ℤ} {need : ℕ} :
    Within rate need ↔ rate ≥ (need - need / 32 : ℕ) ∧ rate ≤ (need + need / 32 : ℕ) := by
  unfold Within
  omega

/-- A score is the sum of the errors, or `UINT_MAX` if one of the rates is too far away. -/
theorem getScore_eq {needAdc needDac : UInt32} (adc_le : needAdc.toNat ≤ 96000)
    (dac_le : needDac.toNat ≤ 96000) (adc dac : ℤ) :
    getScore adc (wanted needAdc) dac (wanted needDac) =
      if Within adc (want needAdc) ∧ Within dac (want needDac) then
        (adc - want needAdc).natAbs + (dac - want needDac).natAbs
      else UINT_MAX := by
  have adcBound := want_le adc_le
  have dacBound := want_le dac_le
  rw [wanted_eq adc_le, wanted_eq dac_le]
  simp only [getScore, within_iff, and_assoc]
  split
  · rw [toInt_eq_self, toInt_eq_self] <;> omega
  · rfl

/-! ### The rates of a setting -/

/-- What the multipliers of a converter have in common. -/
def Multipliers (multTable : List ℤ) : Prop :=
  ∀ code < 16, 0 ≤ multTable.getD code 0 ∧ multTable.getD code 0 ≤ 132

theorem multipliers_adc : Multipliers srAdcMultTable := by
  unfold Multipliers
  decide

theorem multipliers_dac : Multipliers srDacMultTable := by
  unfold Multipliers
  decide

namespace Setting

section

variable {mclk : ℤ} {needAdc needDac : UInt32} (setting : Setting)
  (range : InRange mclk needAdc needDac)
include range

theorem quotient_bounds :
    0 ≤ mclk / bosrUsbDivisorTable.getD setting.divisor 1 ∧
      mclk / bosrUsbDivisorTable.getD setting.divisor 1 ≤ 16000000 := by
  have divisors : ∀ divisor < 4, 125 ≤ bosrUsbDivisorTable.getD divisor 1 := by decide
  have large := divisors setting.divisor setting.divisor_lt
  have positive := range.clock_pos
  have bound := range.clock_le
  constructor
  · exact Int.ediv_nonneg (by omega) (by omega)
  · exact Int.ediv_le_of_le_mul (by omega) (by omega)

theorem product_bounds {multTable : List ℤ} (multipliers : Multipliers multTable) :
    0 ≤ setting.product multTable mclk ∧ setting.product multTable mclk ≤ 2112000000 := by
  obtain ⟨nonneg, bound⟩ := setting.quotient_bounds range
  obtain ⟨multNonneg, multBound⟩ := multipliers setting.rateCode setting.rateCode_lt
  constructor
  · exact Int.mul_nonneg nonneg multNonneg
  · exact Int.mul_le_mul bound multBound multNonneg (by decide)

theorem rate_bounds {multTable : List ℤ} (multipliers : Multipliers multTable) :
    0 ≤ setting.rate multTable mclk ∧ setting.rate multTable mclk ≤ 2112000000 := by
  have bounds := setting.product_bounds range multipliers
  unfold rate
  split <;> omega

/-- The error of a setting is never the score that stands for none. -/
theorem error_lt :
    setting.error mclk needAdc needDac < UINT_MAX := by
  have adcBounds := setting.rate_bounds range multipliers_adc
  have dacBounds := setting.rate_bounds range multipliers_dac
  have adcNeed := want_le range.adc_le
  have dacNeed := want_le range.dac_le
  have sentinel : UINT_MAX = 4294967295 := rfl
  rw [sentinel]
  unfold error adcRate dacRate
  omega

/-- The product as the loop computes it. -/
theorem toInt_product {multTable : List ℤ} (multipliers : Multipliers multTable) :
    toInt (toInt (mclk.tdiv (bosrUsbDivisorTable.getD setting.divisor 1)) *
      multTable.getD setting.rateCode 0) = setting.product multTable mclk := by
  have quotient := setting.quotient_bounds range
  have bounds := setting.product_bounds range multipliers
  rw [Int.tdiv_eq_ediv_of_nonneg (Int.le_of_lt range.clock_pos)]
  have kept : toInt (mclk / bosrUsbDivisorTable.getD setting.divisor 1) =
      mclk / bosrUsbDivisorTable.getD setting.divisor 1 :=
    toInt_eq_self (by omega) (by omega)
  rw [kept]
  change toInt (setting.product multTable mclk) = setting.product multTable mclk
  exact toInt_eq_self (by omega) (by omega)

end

end Setting

/-! ### The loops -/

/-- The variables of the best setting after an assignment. -/
def Setting.toBest (setting : Setting) (score : ℕ) : Best :=
  ⟨setting.divisor, setting.rateCode, setting.halved.toNat, score⟩

/-- The variables of the best setting when the search holds the given one. -/
def record (mclk : ℤ) (needAdc needDac : UInt32) : Option Setting → Best
  | none => ⟨-1, -1, 0, UINT_MAX⟩
  | some setting => setting.toBest (setting.error mclk needAdc needDac)

/-- The score that the loop computes for a setting. -/
def scoreOf (mclk : ℤ) (needAdc needDac : UInt32) (setting : Setting) : ℕ :=
  getScore (setting.adcRate mclk) (wanted needAdc) (setting.dacRate mclk) (wanted needDac)

/-- Offer a setting to the search, which passes over those that do not suit. -/
def consider (mclk : ℤ) (needAdc needDac : UInt32) (held : Option Setting)
    (setting : Setting) : Option Setting :=
  if setting.Suits mclk needAdc needDac then
    offer (Setting.Takes mclk needAdc needDac) held setting
  else held

section

variable {mclk : ℤ} {needAdc needDac : UInt32} (range : InRange mclk needAdc needDac)

include range

theorem scoreOf_eq (setting : Setting) :
    scoreOf mclk needAdc needDac setting =
      if setting.Suits mclk needAdc needDac then setting.error mclk needAdc needDac
      else UINT_MAX :=
  getScore_eq range.adc_le range.dac_le _ _

theorem record_score_le (held : Option Setting) :
    (record mclk needAdc needDac held).score ≤ UINT_MAX := by
  cases held with
  | none => exact Nat.le_refl _
  | some held => exact Nat.le_of_lt (held.error_lt range)

/-- With the clock as it is, only a better setting is recorded. -/
theorem record_consider_whole (held : Option Setting) {setting : Setting}
    (whole : setting.halved = false) :
    (if (record mclk needAdc needDac held).score > scoreOf mclk needAdc needDac setting then
        setting.toBest (scoreOf mclk needAdc needDac setting)
      else record mclk needAdc needDac held) =
      record mclk needAdc needDac (consider mclk needAdc needDac held setting) := by
  rw [scoreOf_eq range, consider]
  by_cases suits : setting.Suits mclk needAdc needDac
  · rw [if_pos suits, if_pos suits]
    cases held with
    | none => exact if_pos (setting.error_lt range)
    | some held =>
        simp only [offer, Setting.Takes, whole, Bool.false_eq_true, if_false,
          apply_ite (record mclk needAdc needDac)]
        rfl
  · -- `UINT_MAX` is below no score, so the comparison alone passes the setting over
    rw [if_neg suits, if_neg suits]
    exact if_neg (Nat.not_lt.mpr (record_score_le range held))

/-- With the clock halved, a setting as good as the one recorded is recorded too. -/
theorem record_consider_halved (held : Option Setting) {setting : Setting}
    (halved : setting.halved = true) :
    (if scoreOf mclk needAdc needDac setting ≠ UINT_MAX ∧
          (record mclk needAdc needDac held).score ≥ scoreOf mclk needAdc needDac setting then
        setting.toBest (scoreOf mclk needAdc needDac setting)
      else record mclk needAdc needDac held) =
      record mclk needAdc needDac (consider mclk needAdc needDac held setting) := by
  rw [scoreOf_eq range, consider]
  by_cases suits : setting.Suits mclk needAdc needDac
  · have scored := Nat.ne_of_lt (setting.error_lt range)
    rw [if_pos suits, if_pos suits]
    cases held with
    | none => exact if_pos ⟨scored, Nat.le_of_lt (setting.error_lt range)⟩
    | some held =>
        simp only [offer, Setting.Takes, halved, if_true, scored, ne_eq, not_false_eq_true,
          true_and, apply_ite (record mclk needAdc needDac)]
        rfl
  · -- here the comparison would let `UINT_MAX` through while nothing is held
    rw [if_neg suits, if_neg suits]
    exact if_neg fun scored => scored.1 rfl

/-- One turn of the inner loop. -/
theorem tryRate_record (i j : ℕ) (held : Option Setting) :
    tryRate mclk (wanted needAdc) (wanted needDac) i (record mclk needAdc needDac held) j =
      record mclk needAdc needDac
        ((settingsAt i j).foldl (consider mclk needAdc needDac) held) := by
  by_cases valid : (srValidMask.getD i 0 >>> j) &&& 1 = 1
  · have adc := Setting.toInt_product ⟨i, j, false, valid⟩ range multipliers_adc
    have dac := Setting.toInt_product ⟨i, j, false, valid⟩ range multipliers_dac
    have unmasked : ¬ (srValidMask.getD i 0 >>> j) &&& 1 = 0 := by
      rw [valid]
      decide
    have whole : getScore (product ⟨i, j, false, valid⟩ srAdcMultTable mclk) (wanted needAdc)
        (product ⟨i, j, false, valid⟩ srDacMultTable mclk) (wanted needDac) =
        scoreOf mclk needAdc needDac ⟨i, j, false, valid⟩ := rfl
    have halved : getScore (product ⟨i, j, false, valid⟩ srAdcMultTable mclk >>> (1 : ℕ))
        (wanted needAdc) (product ⟨i, j, false, valid⟩ srDacMultTable mclk >>> (1 : ℕ))
        (wanted needDac) = scoreOf mclk needAdc needDac ⟨i, j, true, valid⟩ := by
      rw [Int.shiftRight_eq_div_pow, Int.shiftRight_eq_div_pow]
      rfl
    rw [settingsAt, dif_pos valid, List.foldl_cons, List.foldl_cons, List.foldl_nil,
      ← record_consider_halved range _ rfl, ← record_consider_whole range _ rfl]
    simp only [tryRate, if_neg unmasked, adc, dac, whole, halved]
    rfl
  · have masked : (srValidMask.getD i 0 >>> j) &&& 1 = 0 := by
      rw [Nat.and_one_is_mod] at valid ⊢
      omega
    rw [settingsAt, dif_neg valid]
    exact if_pos masked

/-- The loops of `find_rate` are the search. -/
theorem bestRate_eq_record_chosen :
    bestRate mclk (wanted needAdc) (wanted needDac) =
      record mclk needAdc needDac (chosen mclk needAdc needDac) := by
  have inner (held : Option Setting) (i : ℕ) :
      (List.range srAdcMultTable.length).foldl (tryRate mclk (wanted needAdc) (wanted needDac) i)
        (record mclk needAdc needDac held) =
      record mclk needAdc needDac
        (((List.range srAdcMultTable.length).flatMap (settingsAt i)).foldl
          (consider mclk needAdc needDac) held) := by
    rw [List.foldl_flatMap]
    exact List.foldl_hom (record mclk needAdc needDac) fun held j =>
      tryRate_record range i j held
  have search : chosen mclk needAdc needDac =
      settings.foldl (consider mclk needAdc needDac) none := by
    simp only [chosen, suiting, List.foldl_filter, decide_eq_true_eq]
    rfl
  have start : (⟨-1, -1, 0, UINT_MAX⟩ : Best) = record mclk needAdc needDac none := rfl
  rw [bestRate, start, search, settings, List.foldl_flatMap]
  refine List.foldl_hom (record mclk needAdc needDac) fun held i => ?_
  exact inner held i

end

/-! ### The value returned -/

/-- The fields of a setting do not overlap in the value returned. -/
theorem code_eq_fields (setting : Setting) :
    setting.code % 4 = setting.divisor ∧ setting.code / 4 % 16 = setting.rateCode ∧
      setting.code.testBit 6 = setting.halved := by
  have fields : ∀ divisor < 4, ∀ rateCode < 16, ∀ halved : Bool,
      let code := rateCode <<< 2 ||| divisor ||| halved.toNat <<< 6
      code % 4 = divisor ∧ code / 4 % 16 = rateCode ∧ code.testBit 6 = halved := by
    decide +kernel
  exact fields _ setting.divisor_lt _ setting.rateCode_lt _

theorem code_injective : Function.Injective Setting.code := by
  intro left right same
  obtain ⟨leftDivisor, leftRate, leftHalved⟩ := code_eq_fields left
  obtain ⟨rightDivisor, rightRate, rightHalved⟩ := code_eq_fields right
  rw [same] at leftDivisor leftRate leftHalved
  cases left
  cases right
  congr
  · exact leftDivisor.symm.trans rightDivisor
  · exact leftRate.symm.trans rightRate
  · exact leftHalved.symm.trans rightHalved

/-- `find_rate` returns what its search has chosen. -/
theorem findRate_eq_chosen {mclk : ℤ} {needAdc needDac : UInt32}
    (range : InRange mclk needAdc needDac) :
    findRate mclk needAdc needDac =
      (chosen mclk needAdc needDac).elim (-1 : ℤ) fun setting => setting.code := by
  have encoded : ∀ divisor < 4, ∀ rateCode < 16, ∀ halved : Bool,
      ((Int32.ofInt (rateCode : ℕ) <<< 2) ||| Int32.ofInt (divisor : ℕ) |||
        (Int32.ofInt halved.toNat <<< TLV320AIC23_CLKIN_SHIFT)).toInt =
      ((rateCode <<< 2 ||| divisor ||| halved.toNat <<< 6 : ℕ) : ℤ) := by
    decide +kernel
  unfold findRate
  rw [bestRate_eq_record_chosen range]
  cases chosen mclk needAdc needDac with
  | none =>
      change ((Int32.ofInt (-1) <<< 2) ||| Int32.ofInt (-1) |||
        (Int32.ofInt 0 <<< TLV320AIC23_CLKIN_SHIFT)).toInt = -1
      decide
  | some setting =>
      exact encoded _ setting.divisor_lt _ setting.rateCode_lt setting.halved

theorem takes_agrees (mclk : ℤ) (needAdc needDac : UInt32) :
    Agrees (Takes mclk needAdc needDac) fun setting => setting.error mclk needAdc needDac where
  of_lt {setting held} less := by
    unfold Takes
    split
    · exact Nat.le_of_lt less
    · exact less
  le {setting held} takes := by
    unfold Takes at takes
    split at takes
    · exact takes
    · exact Nat.le_of_lt takes

theorem chosen_cheapest (mclk : ℤ) (needAdc needDac : UInt32) :
    Cheapest (fun setting => setting.error mclk needAdc needDac)
      (suiting mclk needAdc needDac) (chosen mclk needAdc needDac) :=
  cheapest_foldl_offer (takes_agrees mclk needAdc needDac) _

/-- `find_rate` fails exactly if no setting suits the request, and otherwise returns one of
least error among those that do. -/
theorem findRate_least_error {mclk : ℤ} {needAdc needDac : UInt32} (clock_pos : 0 < mclk)
    (clock_le : mclk ≤ 2000000000) (adc_le : needAdc.toNat ≤ 96000)
    (dac_le : needDac.toNat ≤ 96000) :
    (findRate mclk needAdc needDac < 0 ↔
      ∀ setting : Setting, ¬ setting.Suits mclk needAdc needDac) ∧
    (0 ≤ findRate mclk needAdc needDac →
      ∃ best : Setting, best.Suits mclk needAdc needDac ∧
        findRate mclk needAdc needDac = best.code ∧
        ∀ other : Setting, other.Suits mclk needAdc needDac →
          best.error mclk needAdc needDac ≤ other.error mclk needAdc needDac) := by
  have cheapest := chosen_cheapest mclk needAdc needDac
  rw [findRate_eq_chosen ⟨clock_pos, clock_le, adc_le, dac_le⟩]
  cases found : chosen mclk needAdc needDac with
  | none =>
      rw [found] at cheapest
      have noneSuits : ∀ setting : Setting, ¬ setting.Suits mclk needAdc needDac := by
        intro setting suits
        have listed := mem_suiting_iff.mpr suits
        rw [show suiting mclk needAdc needDac = [] from cheapest] at listed
        cases listed
      constructor
      · exact ⟨fun _ => noneSuits, fun _ => Int.negSucc_lt_zero 0⟩
      · intro nonneg
        exact absurd nonneg (by decide)
  | some best =>
      rw [found] at cheapest
      obtain ⟨listed, least⟩ := cheapest
      have suits := mem_suiting_iff.mp listed
      have nonneg : (0 : ℤ) ≤ best.code := Int.natCast_nonneg _
      constructor
      · constructor
        · exact fun negative => absurd nonneg (Int.not_le.mpr negative)
        · exact fun noneSuits => absurd suits (noneSuits best)
      · intro _
        refine ⟨best, suits, rfl, fun other otherSuits => ?_⟩
        exact least other (mem_suiting_iff.mpr otherSuits)

/-- For 8 kHz out of a crystal of 12 MHz there is a setting. -/
theorem findRate_least_error_usb_8000 :
    ∃ best : Setting, best.Suits 12000000 8000 8000 ∧
      findRate 12000000 8000 8000 = best.code ∧
      ∀ other : Setting, other.Suits 12000000 8000 8000 →
        best.error 12000000 8000 8000 ≤ other.error 12000000 8000 8000 :=
  (findRate_least_error (by decide) (by decide) (by decide) (by decide)).2 (by decide +kernel)

/-- A setting closer to the request in total is passed over if one of its rates is out of
reach.  Here it has 48 kHz exactly, and 8 kHz in place of 8.5 kHz. -/
theorem findRate_passes_over_closer :
    0 ≤ findRate 12000000 48000 8500 ∧
      ¬ ∃ best : Setting, findRate 12000000 48000 8500 = best.code ∧
        ∀ other : Setting,
          best.error 12000000 48000 8500 ≤ other.error 12000000 48000 8500 := by
  have returned : findRate 12000000 48000 8500 = (⟨0, 9, false, by decide⟩ : Setting).code := by
    decide +kernel
  rw [returned]
  refine ⟨Int.natCast_nonneg _, ?_⟩
  rintro ⟨best, same, least⟩
  have only := code_injective (Int.natCast_inj.mp same)
  subst only
  exact absurd (least ⟨1, 1, false, by decide⟩) (by decide +kernel)

end Rhino.Codec
