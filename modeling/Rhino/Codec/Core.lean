import Rhino.Codec.Rate
import Rhino.Kernel.File
import Rhino.Transition.Run

/-!
# The sample rate of the codec

`tlv320aic23_spi_hw_params` and `tlv320aic23_spi_shutdown`.  Playback and capture share
one clock setting, so a request for one stream is tried together with the rate that is
remembered for the other.  The request is remembered before it is tried, and stays so if
it is refused.
-/

namespace Rhino.Codec

open Rhino.Kernel Rhino.Transition

inductive Stream where
  | playback
  | capture
  deriving DecidableEq, Repr

/-- The formats that `hw_params` tells apart. -/
inductive Format where
  | s16Le
  | s20Le3
  | s24Le
  | s32Le
  | other
  deriving DecidableEq, Repr

/-- `struct aic23` with the register cache, and the pairs of bytes sent to the device.
The requested rates are `int`s that only unsigned rates are assigned to. -/
structure Aic23 where
  mclk : ℤ
  requestedAdc : UInt32
  requestedDac : UInt32
  regCache : List UInt16
  sent : List (UInt8 × UInt8)
  deriving DecidableEq

/-- `tlv320aic23_spi_reg`. -/
def spiReg : List UInt16 :=
  [0x0097, 0x0097, 0x00F9, 0x00F9,
    0x001A, 0x0004, 0x0007, 0x0001,
    0x0020, 0x0000, 0x0000, 0x0000,
    0x0000, 0x0000, 0x0000, 0x0000]

def TLV320AIC23_DIGT_FMT : ℕ := 0x07

def TLV320AIC23_SRATE : ℕ := 0x08

def TLV320AIC23_ACTIVE : ℕ := 0x09

/-! ## Registers -/

def spiReadRegCache (s : Aic23) (reg : ℕ) : UInt32 :=
  if reg ≥ spiReg.length then 0xFFFFFFFF else (s.regCache.getD reg 0).toUInt32

def spiWriteRegCache (s : Aic23) (reg : ℕ) (value : UInt16) : Aic23 :=
  if reg ≥ spiReg.length then s else { s with regCache := s.regCache.set reg value }

/-- `tlv320aic23_spi_write`, where `rc` is what `hw_write` returns. -/
def spiWrite (s : Aic23) (reg : ℕ) (value : UInt32) (rc : ℤ) : ℤ × Aic23 :=
  if reg > 9 ∧ reg ≠ 15 then (-1, s)
  else
    let data := ((UInt32.ofNat reg <<< 1 ||| (value >>> 8 &&& 0x01)).toUInt8,
      (value &&& 0xFF).toUInt8)
    let s := { s with sent := s.sent ++ [data] }
    if rc ≠ 0 then (-eio, s) else (0, spiWriteRegCache s reg value.toUInt16)

/-! ## Rates -/

def setSampleRateControl (s : Aic23) (sampleRateAdc sampleRateDac : UInt32) (rc : ℤ) :
    ℤ × Aic23 :=
  let data := findRate s.mclk sampleRateAdc sampleRateDac
  if data < 0 then (-einval, s)
  else (0, (spiWrite s TLV320AIC23_SRATE (UInt32.ofInt data) rc).2)

/-- The rate remembered for a stream. -/
def Aic23.requested (s : Aic23) : Stream → UInt32
  | .playback => s.requestedDac
  | .capture => s.requestedAdc

def Aic23.remember (s : Aic23) (rate : UInt32) : Stream → Aic23
  | .playback => { s with requestedDac := rate }
  | .capture => { s with requestedAdc := rate }

/-- `sample_rate_adc` and `sample_rate_dac` for a request.  A stream without a rate goes
along with the other. -/
def Aic23.rates (s : Aic23) (rate : UInt32) : Stream → UInt32 × UInt32
  | .playback => (if s.requestedAdc = 0 then rate else s.requestedAdc, rate)
  | .capture => (rate, if s.requestedDac = 0 then rate else s.requestedDac)

/-- The bits of the word length. -/
def Format.bits : Format → UInt16
  | .s16Le => 0
  | .s20Le3 => (0x01 : UInt16) <<< 2
  | .s24Le => (0x02 : UInt16) <<< 2
  | .s32Le => (0x03 : UInt16) <<< 2
  | .other => 0

/-- `tlv320aic23_spi_hw_params`; the two results are those of `hw_write`. -/
def hwParams (s : Aic23) (stream : Stream) (rate : UInt32) (format : Format)
    (rateRc ifaceRc : ℤ) : ℤ × Aic23 :=
  let rates := s.rates rate stream
  let set := setSampleRateControl (s.remember rate stream) rates.1 rates.2 rateRc
  if set.1 < 0 then set
  else
    let ifaceReg :=
      (spiReadRegCache set.2 TLV320AIC23_DIGT_FMT &&& ~~~((0x03 : UInt32) <<< 2)).toUInt16 |||
        format.bits
    (0, (spiWrite set.2 TLV320AIC23_DIGT_FMT ifaceReg.toUInt32 ifaceRc).2)

/-- `tlv320aic23_spi_shutdown`. -/
def shutdown (s : Aic23) (stream : Stream) (active : Bool) (rc : ℤ) : Aic23 :=
  let s := if active then s else (spiWrite s TLV320AIC23_ACTIVE 0x0 rc).2
  s.remember 0 stream

/-! ## Refused requests -/

/-- A request that `hw_params` does not refuse. -/
def Aic23.Accepts (s : Aic23) (stream : Stream) (rate : UInt32) : Prop :=
  0 ≤ findRate s.mclk (s.rates rate stream).1 (s.rates rate stream).2

section HwParams

variable (s : Aic23) (stream : Stream) (rate : UInt32) (format : Format) (rateRc ifaceRc : ℤ)

theorem remember_mclk : (s.remember rate stream).mclk = s.mclk := by
  cases stream with
  | playback => rfl
  | capture => rfl

theorem hwParams_of_refused (refused : ¬ s.Accepts stream rate) :
    hwParams s stream rate format rateRc ifaceRc = (-einval, s.remember rate stream) := by
  rw [Aic23.Accepts, Int.not_le] at refused
  have set : setSampleRateControl (s.remember rate stream) (s.rates rate stream).1
      (s.rates rate stream).2 rateRc = (-einval, s.remember rate stream) := by
    rw [setSampleRateControl, remember_mclk]
    exact if_pos refused
  simp only [hwParams]
  rw [set]
  rfl

theorem hwParams_of_accepted (accepted : s.Accepts stream rate) :
    (hwParams s stream rate format rateRc ifaceRc).1 = 0 := by
  have set : (setSampleRateControl (s.remember rate stream) (s.rates rate stream).1
      (s.rates rate stream).2 rateRc).1 = 0 := by
    rw [setSampleRateControl, remember_mclk, if_neg (Int.not_lt.mpr accepted)]
  simp only [hwParams]
  rw [if_neg]
  rw [set]
  decide

theorem hwParams_fst_lt_zero_iff :
    (hwParams s stream rate format rateRc ifaceRc).1 < 0 ↔ ¬ s.Accepts stream rate := by
  by_cases accepted : s.Accepts stream rate
  · rw [hwParams_of_accepted s stream rate format rateRc ifaceRc accepted]
    exact iff_of_false (Int.lt_irrefl 0) (not_not.mpr accepted)
  · rw [hwParams_of_refused s stream rate format rateRc ifaceRc accepted]
    have negative : -einval < 0 := by decide
    exact iff_of_true negative accepted

/-- What a refused call leaves behind: the two rates and the registers as they were, and
no request turned away that would have been accepted. -/
structure Untouched (before after : Aic23) : Prop where
  requestedAdc : after.requestedAdc = before.requestedAdc
  requestedDac : after.requestedDac = before.requestedDac
  regCache : after.regCache = before.regCache
  accepts : ∀ stream rate, before.Accepts stream rate → after.Accepts stream rate

theorem remember_requested (remembered : s.requested stream = rate) :
    s.remember rate stream = s := by
  subst remembered
  cases stream with
  | playback => rfl
  | capture => rfl

theorem untouched_remember_iff :
    Untouched s (s.remember rate stream) ↔ s.requested stream = rate := by
  constructor
  · intro untouched
    cases stream with
    | playback => exact untouched.requestedDac.symm
    | capture => exact untouched.requestedAdc.symm
  · intro remembered
    rw [remember_requested s stream rate remembered]
    exact ⟨rfl, rfl, rfl, fun _ _ => id⟩

end HwParams

/-! ## Runs -/

/-- A call on one of the streams. -/
inductive Label where
  | hwParams (stream : Stream) (rate : UInt32) (format : Format) (rateRc ifaceRc : ℤ)
  | shutdown (stream : Stream) (active : Bool) (rc : ℤ)
  deriving DecidableEq

def step (s : Aic23) : Label → Aic23
  | .hwParams stream rate format rateRc ifaceRc =>
      (Codec.hwParams s stream rate format rateRc ifaceRc).2
  | .shutdown stream active rc => Codec.shutdown s stream active rc

/-- The call returns an error. -/
def Label.Refused (s : Aic23) : Label → Prop
  | .hwParams stream rate format rateRc ifaceRc =>
      (Codec.hwParams s stream rate format rateRc ifaceRc).1 < 0
  | .shutdown _ _ _ => False

/-- The call asks for a rate that can be set, or for the one that is remembered for its
stream already. -/
def Label.Asks (s : Aic23) : Label → Prop
  | .hwParams stream rate _ _ _ => s.Accepts stream rate ∨ s.requested stream = rate
  | .shutdown _ _ _ => True

theorem untouched_step_iff (s : Aic23) (label : Label) :
    (label.Refused s → Untouched s (step s label)) ↔ label.Asks s := by
  cases label with
  | hwParams stream rate format rateRc ifaceRc =>
      rw [Label.Refused, hwParams_fst_lt_zero_iff, Label.Asks, or_iff_not_imp_left]
      apply forall_congr'
      intro refused
      rw [step, hwParams_of_refused s stream rate format rateRc ifaceRc refused]
      exact untouched_remember_iff s stream rate
  | shutdown stream active rc => exact iff_of_true False.elim trivial

/-- In a run, refused calls leave the codec untouched exactly if every call asks for a rate
that can be set or for the one that is remembered for its stream already. -/
theorem refused_rates_untouched_iff (s : Aic23) (labels : List Label) :
    Along (fun s label => some (step s label))
        (fun s label => label.Refused s → Untouched s (step s label)) s labels ↔
      Along (fun s label => some (step s label)) (fun s label => label.Asks s) s labels := by
  have same : (fun (s : Aic23) (label : Label) => label.Refused s → Untouched s (step s label)) =
      fun s label => label.Asks s := by
    funext s label
    exact propext (untouched_step_iff s label)
  rw [same]

/-- With a master clock of 12 MHz playback at 11025 Hz is refused.  After that, capture at
8000 Hz is refused too, which would have been accepted before. -/
theorem refused_playback_blocks_capture :
    let fresh : Aic23 := ⟨12000000, 0, 0, spiReg, []⟩
    let refused := hwParams fresh .playback 11025 .s16Le 0 0
    refused.1 = -einval ∧ refused.2.requestedDac = 11025 ∧
      (hwParams fresh .capture 8000 .s16Le 0 0).1 = 0 ∧
      (hwParams refused.2 .capture 8000 .s16Le 0 0).1 = -einval := by
  decide +kernel

end Rhino.Codec
