import Rhino.I2c.Core
import Mathlib.Data.Int.Notation
import Mathlib.Data.Nat.Notation

/-!
# Sensors on the I2C bus

The drivers `ina219.c`, `max1668.c` and `tc654.c` of `utils/util`.  Most of their functions
read one register and return non-zero, with the output set to 0, if the bus does not
deliver it.  The power and the fan speeds are put together from two registers, and there
the second half of the work is not checked.
-/

namespace Rhino.I2c

universe u v

/-- `i2c_read` as the drivers see it.  Besides the value returned, it gives the bytes that
are in the buffer then. -/
structure Bus (σ : Type u) where
  read (adr reg : UInt8) (bufLen : ℤ) : σ → ℤ × (ℕ → UInt8) × σ

/-- The value that a function returns, its output, and for each transaction on the bus
whether it succeeded. -/
structure Reading (σ : Type u) (α : Type v) where
  result : ℤ
  output : α
  succeeded : List Bool
  bus : σ

/-- Zero is returned only if every transaction succeeded, and otherwise the output is
zero. -/
structure Reading.Reports {σ : Type u} {α : Type v} [OfNat α 0] (reading : Reading σ α) :
    Prop where
  success : reading.result = 0 → ∀ ok ∈ reading.succeeded, ok = true
  failure : reading.result ≠ 0 → reading.output = 0

section Drivers

variable {σ : Type u} {α : Type v} [OfNat α 0] (bus : Bus σ) (adr : UInt8)

/-! ## Functions for one register -/

/-- Read `len` bytes of a register. -/
def readRegister (reg : UInt8) (len : ℤ) (convert : (ℕ → UInt8) → α) (s : σ) : Reading σ α :=
  let read := bus.read adr reg len s
  if read.1 ≠ len then ⟨1, 0, [false], read.2.2⟩
  else ⟨0, convert read.2.1, [true], read.2.2⟩

/-- Read a register of one byte into the output itself. -/
def readByte (reg : UInt8) : σ → Reading σ UInt8 :=
  readRegister bus adr reg 1 fun byte => byte 0

def INA219_VOLT_REG : UInt8 := 0x02

def INA219_CURR_REG : UInt8 := 0x04

def ina219ReadVoltage : σ → Reading σ UInt16 :=
  readRegister bus adr INA219_VOLT_REG 2 fun reg =>
    (((reg 0).toUInt16 <<< 5) + ((reg 1) >>> 3).toUInt16) * 4

def ina219ReadCurrent : σ → Reading σ Int16 :=
  readRegister bus adr INA219_CURR_REG 2 fun reg =>
    (((reg 0).toUInt16 <<< 8) + (reg 1).toUInt16).toInt16

def max1668ReadLocalTemp : σ → Reading σ UInt8 :=
  readByte bus adr 0x00

def max1668ReadDX1Temp : σ → Reading σ UInt8 :=
  readByte bus adr 0x01

def max1668ReadDX2Temp : σ → Reading σ UInt8 :=
  readByte bus adr 0x02

def max1668ReadDX3Temp : σ → Reading σ UInt8 :=
  readByte bus adr 0x03

def max1668ReadDX4Temp : σ → Reading σ UInt8 :=
  readByte bus adr 0x04

def TC654_RPM1 : UInt8 := 0x00

def TC654_RPM2 : UInt8 := 0x01

def TC654_CONFIG : UInt8 := 0x04

def tc654ReadFault (reg : UInt8) : σ → Reading σ UInt16 :=
  readRegister bus adr reg 1 fun tt => (tt 0).toUInt16 * 50

def tc654ReadFault1 : σ → Reading σ UInt16 :=
  tc654ReadFault bus adr 0x02

def tc654ReadFault2 : σ → Reading σ UInt16 :=
  tc654ReadFault bus adr 0x03

def tc654ReadConfig : σ → Reading σ UInt8 :=
  readByte bus adr TC654_CONFIG

def tc654ReadStatus : σ → Reading σ UInt8 :=
  readByte bus adr 0x05

def tc654ReadDutyCycle : σ → Reading σ UInt8 :=
  readByte bus adr 0x06

def tc654ReadManufacturerID : σ → Reading σ UInt8 :=
  readByte bus adr 0x07

def tc654ReadVersionID : σ → Reading σ UInt8 :=
  readByte bus adr 0x08

/-! ## Functions for two registers -/

/-- The results of the two functions that it calls are not looked at. -/
def ina219ReadPower (s : σ) : Reading σ ℤ :=
  let millivolts := ina219ReadVoltage bus adr s
  let milliamps := ina219ReadCurrent bus adr millivolts.bus
  ⟨0, ((millivolts.output.toNat : ℤ) * milliamps.output.toInt).tdiv 1000,
    millivolts.succeeded ++ milliamps.succeeded, milliamps.bus⟩

/-- The factor for a fan counter.  The configuration is only looked at if reading it has
failed. -/
def rpmMult (config : Reading σ UInt8) : UInt8 :=
  if config.result ≠ 0 then
    if config.output &&& 0x40 ≠ 0 then 25 else 50
  else 50

/-- `TC654readRPM1` and `TC654readRPM2` once the counter has been asked for. -/
def rpmOfCounter (trpm : Reading σ UInt8) : Reading σ UInt16 :=
  if trpm.result ≠ 0 then ⟨1, 0, trpm.succeeded, trpm.bus⟩
  else
    let config := tc654ReadConfig bus adr trpm.bus
    ⟨0, trpm.output.toUInt16 * (rpmMult config).toUInt16, trpm.succeeded ++ config.succeeded,
      config.bus⟩

def tc654ReadRPM (reg : UInt8) (s : σ) : Reading σ UInt16 :=
  rpmOfCounter bus adr (readByte bus adr reg s)

def tc654ReadRPM1 : σ → Reading σ UInt16 :=
  tc654ReadRPM bus adr TC654_RPM1

def tc654ReadRPM2 : σ → Reading σ UInt16 :=
  tc654ReadRPM bus adr TC654_RPM2

/-! ## What is reported -/

/-- The bus delivers all the bytes that are asked for. -/
def Delivers (reg : UInt8) (len : ℤ) (s : σ) : Prop :=
  (bus.read adr reg len s).1 = len

instance (reg : UInt8) (len : ℤ) (s : σ) : Decidable (Delivers bus adr reg len s) :=
  inferInstanceAs (Decidable ((bus.read adr reg len s).1 = len))

section ReadRegister

variable {reg : UInt8} {len : ℤ} (convert : (ℕ → UInt8) → α) {s : σ}

theorem readRegister_of_delivers (read : Delivers bus adr reg len s) :
    readRegister bus adr reg len convert s =
      ⟨0, convert (bus.read adr reg len s).2.1, [true], (bus.read adr reg len s).2.2⟩ :=
  if_neg (not_not.mpr read)

theorem readRegister_of_not_delivers (failed : ¬ Delivers bus adr reg len s) :
    readRegister bus adr reg len convert s =
      ⟨1, 0, [false], (bus.read adr reg len s).2.2⟩ :=
  if_pos failed

@[simp]
theorem readRegister_bus :
    (readRegister bus adr reg len convert s).bus = (bus.read adr reg len s).2.2 := by
  by_cases read : Delivers bus adr reg len s
  · rw [readRegister_of_delivers bus adr convert read]
  · rw [readRegister_of_not_delivers bus adr convert read]

@[simp]
theorem readRegister_succeeded :
    (readRegister bus adr reg len convert s).succeeded = [decide (Delivers bus adr reg len s)] := by
  by_cases read : Delivers bus adr reg len s
  · rw [readRegister_of_delivers bus adr convert read, decide_eq_true read]
  · rw [readRegister_of_not_delivers bus adr convert read, decide_eq_false read]

/-- A function for one register reports whether it was read. -/
theorem readRegister_reports : (readRegister bus adr reg len convert s).Reports := by
  by_cases read : Delivers bus adr reg len s
  · rw [readRegister_of_delivers bus adr convert read]
    exact ⟨fun _ => List.forall_mem_singleton.mpr rfl, (absurd rfl ·)⟩
  · rw [readRegister_of_not_delivers bus adr convert read]
    exact ⟨nofun, fun _ => rfl⟩

end ReadRegister

theorem readByte_reports (reg : UInt8) (s : σ) : (readByte bus adr reg s).Reports :=
  readRegister_reports bus adr _

theorem tc654ReadFault_reports (reg : UInt8) (s : σ) : (tc654ReadFault bus adr reg s).Reports :=
  readRegister_reports bus adr _

theorem ina219ReadPower_reports_iff (s : σ) :
    (ina219ReadPower bus adr s).Reports ↔ Delivers bus adr INA219_VOLT_REG 2 s ∧
      Delivers bus adr INA219_CURR_REG 2 (bus.read adr INA219_VOLT_REG 2 s).2.2 := by
  have succeeded : (ina219ReadPower bus adr s).succeeded =
      [decide (Delivers bus adr INA219_VOLT_REG 2 s),
        decide (Delivers bus adr INA219_CURR_REG 2 (bus.read adr INA219_VOLT_REG 2 s).2.2)] := by
    simp [ina219ReadPower, ina219ReadVoltage, ina219ReadCurrent]
  constructor
  · intro reports
    have all := reports.success rfl
    rw [succeeded] at all
    simpa using all
  · rintro ⟨volts, amps⟩
    refine ⟨?_, (absurd rfl ·)⟩
    rw [succeeded]
    simp [volts, amps]

theorem rpmMult_of_reports {config : Reading σ UInt8} (reports : config.Reports) :
    rpmMult config = 50 := by
  unfold rpmMult
  split
  · next failed =>
      rw [reports.failure failed]
      rfl
  · rfl

/-- A fan speed is delivered whatever comes of the configuration, and never at the
resolution that it gives. -/
theorem tc654ReadRPM_of_delivers {reg : UInt8} {s : σ} (read : Delivers bus adr reg 1 s) :
    tc654ReadRPM bus adr reg s =
      ⟨0, ((bus.read adr reg 1 s).2.1 0).toUInt16 * 50,
        [true, decide (Delivers bus adr TC654_CONFIG 1 (bus.read adr reg 1 s).2.2)],
        (bus.read adr TC654_CONFIG 1 (bus.read adr reg 1 s).2.2).2.2⟩ := by
  have counter : readByte bus adr reg s = ⟨0, _, [true], _⟩ :=
    readRegister_of_delivers bus adr _ read
  rw [tc654ReadRPM, counter, rpmOfCounter, if_neg (not_not.mpr rfl)]
  dsimp only [tc654ReadConfig]
  rw [rpmMult_of_reports (readByte_reports bus adr TC654_CONFIG _), readByte,
    readRegister_succeeded, readRegister_bus]
  rfl

theorem tc654ReadRPM_reports_iff (reg : UInt8) (s : σ) :
    (tc654ReadRPM bus adr reg s).Reports ↔
      (Delivers bus adr reg 1 s → Delivers bus adr TC654_CONFIG 1 (bus.read adr reg 1 s).2.2) := by
  by_cases read : Delivers bus adr reg 1 s
  · rw [tc654ReadRPM_of_delivers bus adr read, imp_iff_right read]
    constructor
    · intro reports
      simpa using reports.success rfl
    · intro config
      exact ⟨fun _ => by simp [config], (absurd rfl ·)⟩
  · have counter : readByte bus adr reg s = ⟨1, 0, [false], _⟩ :=
      readRegister_of_not_delivers bus adr _ read
    refine iff_of_true ?_ (absurd · read)
    rw [tc654ReadRPM, counter, rpmOfCounter, if_pos Int.one_ne_zero]
    exact ⟨nofun, fun _ => rfl⟩

end Drivers

/-! ## All functions -/

/-- The functions that deliver a reading. -/
inductive Helper where
  | ina219ReadVoltage
  | ina219ReadCurrent
  | ina219ReadPower
  | max1668ReadLocalTemp
  | max1668ReadDX1Temp
  | max1668ReadDX2Temp
  | max1668ReadDX3Temp
  | max1668ReadDX4Temp
  | tc654ReadRPM1
  | tc654ReadRPM2
  | tc654ReadFault1
  | tc654ReadFault2
  | tc654ReadConfig
  | tc654ReadStatus
  | tc654ReadDutyCycle
  | tc654ReadManufacturerID
  | tc654ReadVersionID

section Helpers

variable {σ : Type u} (bus : Bus σ) (adr : UInt8) (s : σ)

def Helper.Reports : Helper → Prop
  | .ina219ReadVoltage => (I2c.ina219ReadVoltage bus adr s).Reports
  | .ina219ReadCurrent => (I2c.ina219ReadCurrent bus adr s).Reports
  | .ina219ReadPower => (I2c.ina219ReadPower bus adr s).Reports
  | .max1668ReadLocalTemp => (I2c.max1668ReadLocalTemp bus adr s).Reports
  | .max1668ReadDX1Temp => (I2c.max1668ReadDX1Temp bus adr s).Reports
  | .max1668ReadDX2Temp => (I2c.max1668ReadDX2Temp bus adr s).Reports
  | .max1668ReadDX3Temp => (I2c.max1668ReadDX3Temp bus adr s).Reports
  | .max1668ReadDX4Temp => (I2c.max1668ReadDX4Temp bus adr s).Reports
  | .tc654ReadRPM1 => (I2c.tc654ReadRPM1 bus adr s).Reports
  | .tc654ReadRPM2 => (I2c.tc654ReadRPM2 bus adr s).Reports
  | .tc654ReadFault1 => (I2c.tc654ReadFault1 bus adr s).Reports
  | .tc654ReadFault2 => (I2c.tc654ReadFault2 bus adr s).Reports
  | .tc654ReadConfig => (I2c.tc654ReadConfig bus adr s).Reports
  | .tc654ReadStatus => (I2c.tc654ReadStatus bus adr s).Reports
  | .tc654ReadDutyCycle => (I2c.tc654ReadDutyCycle bus adr s).Reports
  | .tc654ReadManufacturerID => (I2c.tc654ReadManufacturerID bus adr s).Reports
  | .tc654ReadVersionID => (I2c.tc654ReadVersionID bus adr s).Reports

/-- What the bus must deliver for the errors of a function to be reported. -/
def Helper.Needs : Helper → Prop
  | .ina219ReadPower => Delivers bus adr INA219_VOLT_REG 2 s ∧
      Delivers bus adr INA219_CURR_REG 2 (bus.read adr INA219_VOLT_REG 2 s).2.2
  | .tc654ReadRPM1 => Delivers bus adr TC654_RPM1 1 s →
      Delivers bus adr TC654_CONFIG 1 (bus.read adr TC654_RPM1 1 s).2.2
  | .tc654ReadRPM2 => Delivers bus adr TC654_RPM2 1 s →
      Delivers bus adr TC654_CONFIG 1 (bus.read adr TC654_RPM2 1 s).2.2
  | _ => True

/-- A function reports the errors of the bus, except that the power does not report any
and a fan speed none of the configuration. -/
theorem sensor_errors_reported_iff (helper : Helper) :
    helper.Reports bus adr s ↔ helper.Needs bus adr s := by
  cases helper with
  | ina219ReadPower => exact ina219ReadPower_reports_iff bus adr s
  | tc654ReadRPM1 => exact tc654ReadRPM_reports_iff bus adr TC654_RPM1 s
  | tc654ReadRPM2 => exact tc654ReadRPM_reports_iff bus adr TC654_RPM2 s
  | ina219ReadVoltage | ina219ReadCurrent =>
      exact iff_of_true (readRegister_reports bus adr _) trivial
  | max1668ReadLocalTemp | max1668ReadDX1Temp | max1668ReadDX2Temp | max1668ReadDX3Temp
  | max1668ReadDX4Temp =>
      exact iff_of_true (readByte_reports bus adr _ s) trivial
  | tc654ReadFault1 | tc654ReadFault2 =>
      exact iff_of_true (tc654ReadFault_reports bus adr _ s) trivial
  | tc654ReadConfig | tc654ReadStatus | tc654ReadDutyCycle | tc654ReadManufacturerID
  | tc654ReadVersionID =>
      exact iff_of_true (readByte_reports bus adr _ s) trivial

end Helpers

/-! ## On the bus of `i2c.c` -/

/-- The function of `i2c.c`, with what its system calls will return; then they fail. -/
def i2cBus : Bus (Statics × List Sys) where
  read adr reg bufLen
    | (s, []) => (-1, fun _ => 0, s, [])
    | (s, sys :: rest) =>
        ((i2cRead adr reg bufLen sys s).result, sys.buf, (i2cRead adr reg bufLen sys s).statics,
          rest)

/-- System calls that fail. -/
def Sys.failed : Sys where
  ioctl := -1
  write := -1
  read := -1
  buf := fun _ => 0

/-- Neither register can be read, and the power is 0 with success; the configuration
cannot be read, and the fan speed is delivered with success. -/
theorem power_and_speed_hide_errors :
    let power := ina219ReadPower i2cBus 64 (.initial, [.failed, .failed])
    let speed := tc654ReadRPM1 i2cBus 27 (.initial, [.done 1, .failed])
    (power.result = 0 ∧ power.succeeded = [false, false]) ∧
      speed.result = 0 ∧ speed.succeeded = [true, false] := by
  decide

end Rhino.I2c
