import Mathlib.Algebra.Group.Nat.Defs
import Mathlib.Data.Int.Notation

/-!
# Sample rates of the codec

`find_rate` of `sound/soc/codecs/tlv320aic23_spi.c` tries every divisor of the master
clock with every rate code, with the clock as it is and halved, and keeps the setting
whose two rates are closest to those wanted.  Rates are compared after multiplication
by 132, of which every divisor of a rate code is a factor.
-/

namespace Rhino.Codec

/-- A value as an `int`, which wraps around. -/
def toInt (value : ℤ) : ℤ :=
  value.bmod (2 ^ 32)

def UINT_MAX : ℕ := 2 ^ 32 - 1

def bosrUsbDivisorTable : List ℤ := [128, 125, 192, 136]

def LOWER_GROUP : ℕ :=
  (1 <<< 0) ||| (1 <<< 1) ||| (1 <<< 2) ||| (1 <<< 3) ||| (1 <<< 6) ||| (1 <<< 7)

def UPPER_GROUP : ℕ :=
  (1 <<< 8) ||| (1 <<< 9) ||| (1 <<< 10) ||| (1 <<< 11) ||| (1 <<< 15)

def srValidMask : List ℕ :=
  [LOWER_GROUP ||| UPPER_GROUP, LOWER_GROUP, LOWER_GROUP ||| UPPER_GROUP, UPPER_GROUP]

def SR_MULT : ℕ := 11 * 12

/-- The macro `A`. -/
def multOf (x : ℕ) : ℤ :=
  (SR_MULT / x : ℕ)

def srAdcMultTable : List ℤ :=
  [multOf 2, multOf 2, multOf 12, multOf 12, 0, 0, multOf 3, multOf 1,
    multOf 2, multOf 2, multOf 11, multOf 11, 0, 0, 0, multOf 1]

def srDacMultTable : List ℤ :=
  [multOf 2, multOf 12, multOf 2, multOf 12, 0, 0, multOf 3, multOf 1,
    multOf 2, multOf 11, multOf 2, multOf 11, 0, 0, 0, multOf 1]

/-- A rate times `SR_MULT`, and the limits one thirty-second below and above. -/
structure Wanted where
  need : ℤ
  low : ℤ
  high : ℤ

/-- The front of `find_rate`, for one of the rates. -/
def wanted (rate : UInt32) : Wanted :=
  let need := rate * UInt32.ofNat SR_MULT
  { need := toInt need.toNat
    low := toInt (need - (need >>> 5)).toNat
    high := toInt (need + (need >>> 5)).toNat }

def getScore (adc : ℤ) (wantedAdc : Wanted) (dac : ℤ) (wantedDac : Wanted) : ℕ :=
  if adc ≥ wantedAdc.low ∧ adc ≤ wantedAdc.high ∧
      dac ≥ wantedDac.low ∧ dac ≤ wantedDac.high then
    let diffAdc := toInt (wantedAdc.need - adc)
    let diffDac := toInt (wantedDac.need - dac)
    (diffAdc.natAbs + diffDac.natAbs) % 2 ^ 32
  else UINT_MAX

/-- The variables that `find_rate` keeps the best setting in. -/
structure Best where
  i : ℤ
  j : ℤ
  div : ℤ
  score : ℕ
  deriving DecidableEq

/-- The body of the inner loop of `find_rate`. -/
def tryRate (mclk : ℤ) (wantedAdc wantedDac : Wanted) (i : ℕ) (best : Best) (j : ℕ) : Best :=
  let base := toInt (mclk.tdiv (bosrUsbDivisorTable.getD i 1))
  if (srValidMask.getD i 0 >>> j) &&& 1 = 0 then best
  else
    let adc := toInt (base * srAdcMultTable.getD j 0)
    let dac := toInt (base * srDacMultTable.getD j 0)
    let score := getScore adc wantedAdc dac wantedDac
    let best := if best.score > score then ⟨i, j, 0, score⟩ else best
    let score := getScore (adc >>> (1 : ℕ)) wantedAdc (dac >>> (1 : ℕ)) wantedDac
    if score ≠ UINT_MAX ∧ best.score ≥ score then ⟨i, j, 1, score⟩ else best

/-- The loops of `find_rate`. -/
def bestRate (mclk : ℤ) (wantedAdc wantedDac : Wanted) : Best :=
  (List.range bosrUsbDivisorTable.length).foldl
    (fun best i => (List.range srAdcMultTable.length).foldl
      (tryRate mclk wantedAdc wantedDac i) best)
    ⟨-1, -1, 0, UINT_MAX⟩

def TLV320AIC23_CLKIN_SHIFT : Int32 := 6

def findRate (mclk : ℤ) (needAdc needDac : UInt32) : ℤ :=
  let best := bestRate mclk (wanted needAdc) (wanted needDac)
  ((Int32.ofInt best.j <<< 2) ||| Int32.ofInt best.i |||
    (Int32.ofInt best.div <<< TLV320AIC23_CLKIN_SHIFT)).toInt

end Rhino.Codec
