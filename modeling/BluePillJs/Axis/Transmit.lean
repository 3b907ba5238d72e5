import BluePillJs.Calibration.Machine

/-! From a heading to the joystick report: `cal_apply`, the axis and brake mapping,
and `transmit`. -/

namespace BluePill.Axis
open PartialRuns TruncatedByte Calibration

structure HidData where
  x : Int8
  y : Int8
  z : Int8
  button : UInt8
  deriving DecidableEq, Repr

structure Device where
  calibrator : Calibrator
  hidInData : HidData
  usbInitState : UInt8
  padE12 : Bool
  deriving DecidableEq, Repr

def powerOn : Device where
  calibrator := Calibration.powerOn
  hidInData := ⟨0, 0, 0, 0⟩
  usbInitState := 0
  padE12 := false

def jsMax : ℚ := 127
def jsMin : ℚ := -128
def jsBrakepoint : ℚ := 32
def jsBrakepointPos : ℚ := jsMax - jsBrakepoint
def jsBrakepointNeg : ℚ := jsMin + jsBrakepoint
def jsBrakeRatio : ℚ := 256 / jsBrakepoint

def limit (val : ℚ) : ℚ := if val < -128 then -128 else if val > 127 then 127 else val

def calApply (cal : CalData) (val : ℚ) : ℚ :=
  let val := normalise val cal.offset
  limit (if val < 0 then val * cal.mNeg else val * cal.mPos)

def readButtons (port : UInt16) : UInt8 := (~~~port).toUInt8

/-- The pair `brake_neg`, `brake_pos`: at most one of them leaves the rest position. -/
def brakes (hdg : ℚ) : ℚ × ℚ :=
  if hdg < jsBrakepointNeg then ((-hdg + jsBrakepointNeg) * jsBrakeRatio + jsMin, jsMin)
  else if hdg > jsBrakepointPos then (jsMin, (hdg - jsBrakepointPos) * jsBrakeRatio + jsMin)
  else (jsMin, jsMin)

def report (hdg : ℚ) (button : UInt8) : HidData where
  x := toByte hdg
  y := toByte (limit (brakes hdg).1)
  z := toByte (limit (brakes hdg).2)
  button := button

/-- The new device state; its `hidInData` is the report handed to endpoint 3. -/
def transmit (jscalSwitch : Bool) (port : UInt16) (hdg : ℚ) (d : Device) : Option Device := do
  let calibrator ← calibrate jscalSwitch hdg d.calibrator
  let hdg := calApply calibrator.calData hdg
  some { d with calibrator := calibrator, hidInData := report hdg (readButtons port) }

structure TransmitCall extends Call where
  port : UInt16
  deriving DecidableEq

def transmitCall (c : TransmitCall) (d : Device) : Option Device :=
  transmit c.jscalSwitch c.port c.heading d

def transmitRun : List TransmitCall → Device → Option Device := run transmitCall

theorem transmit_eq_some {sw : Bool} {port : UInt16} {hdg : ℚ} {d d' : Device}
    (h : transmit sw port hdg d = some d') :
    ∃ m, calibrate sw hdg d.calibrator = some m ∧
      d' = { d with
        calibrator := m
        hidInData := report (calApply m.calData hdg) (readButtons port) } := by
  obtain ⟨m, hm, hd⟩ := Option.bind_eq_some_iff.mp h
  exact ⟨m, hm, (Option.some.inj hd).symm⟩

theorem transmit_calibrator (sw : Bool) (port : UInt16) (hdg : ℚ) (d : Device) :
    calibrate sw hdg d.calibrator = (transmit sw port hdg d).map Device.calibrator := by
  unfold transmit
  cases calibrate sw hdg d.calibrator <;> rfl

theorem transmitRun_calibrator (calls : List TransmitCall) (d : Device) :
    run (fun c : TransmitCall => calibrateCall c.toCall) calls d.calibrator =
      (transmitRun calls d).map Device.calibrator :=
  run_map Device.calibrator (fun c d => transmit_calibrator c.jscalSwitch c.port c.heading d) calls d

theorem transmit_idle {hdg : ℚ} {d : Device} (port : UInt16) (h : d.calibrator.state = .off) :
    transmit false port hdg d = some { d with
      calibrator := { d.calibrator with cs := d.calibrator.cs.carried hdg }
      hidInData := report (calApply d.calibrator.calData hdg) (readButtons port) } := by
  rw [transmit, calibrate_idle h]
  rfl

theorem limit_mem (val : ℚ) : -128 ≤ limit val ∧ limit val ≤ 127 := by
  unfold limit
  split_ifs <;> constructor <;> linarith

theorem limit_of_mem {val : ℚ} (hl : -128 ≤ val) (hu : val ≤ 127) : limit val = val := by
  rw [limit, if_neg (not_lt.mpr hl), if_neg (not_lt.mpr hu)]

end BluePill.Axis
