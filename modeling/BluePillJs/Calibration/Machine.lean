import BluePillJs.Library.CircleArc
import BluePillJs.Library.PartialRuns
import BluePillJs.Library.TruncatedByte

/-! The calibration state machine of `joystick.c`. Floats are exact rationals, a
division by zero is an error, and the three recorded fields are wrapping bytes. -/

namespace BluePill.Calibration
open CircleArc PartialRuns TruncatedByte

inductive JsState where
  | off
  | on
  | ending
  deriving DecidableEq, Repr

structure CalState where
  min : Int8
  max : Int8
  offset : Int8
  deriving DecidableEq, Repr

structure CalData where
  offset : ℚ
  mNeg : ℚ
  mPos : ℚ
  deriving DecidableEq, Repr

structure Calibrator where
  state : JsState
  cs : CalState
  calData : CalData
  led : Bool
  deriving DecidableEq, Repr

def powerOn : Calibrator where
  state := .off
  cs := ⟨0, 0, 0⟩
  calData := ⟨0, 1, 1⟩
  led := true

def normalise (val offset : ℚ) : ℚ :=
  let res := val + offset
  let res := if res < -128 then res + 256 else res
  if res > 128 then res - 256 else res

def preventWraparound (v : ℚ) (c : CalState) : ℚ × CalState :=
  if v < -96 then
    (v + 64, { min := c.min + 64, max := c.max + 64, offset := c.offset + 64 })
  else if v > 96 then
    (v - 64, { min := c.min - 64, max := c.max - 64, offset := c.offset - 64 })
  else (v, c)

def toByte (v : ℚ) : Int8 := Int8.ofInt (truncate v)

def fdiv (a b : ℚ) : Option ℚ := if b = 0 then none else some (a / b)

def CalState.record (c : CalState) (val : ℚ) : CalState where
  min := if (c.min.toInt : ℚ) > val then toByte val else c.min
  max := if (c.max.toInt : ℚ) < val then toByte val else c.max
  offset := c.offset

def calibrate (jscalSwitch : Bool) (val : ℚ) (m : Calibrator) : Option Calibrator :=
  let (val, cs) := preventWraparound (normalise val m.cs.offset.toInt) m.cs
  match m.state with
  | .off =>
    if !jscalSwitch then some { m with cs := cs }
    else some { m with
      -- `val` was adjusted with the offset that is dropped here
      cs := { min := toByte val, max := toByte val, offset := 0 }
      state := .on
      led := false }
  | .on =>
    some { m with
      state := if !jscalSwitch then .ending else .on
      cs := cs.record val }
  | .ending => do
    let mNeg ← fdiv (-128) (cs.min.toInt - val)
    let mPos ← fdiv 128 (cs.max.toInt - val)
    some {
      state := .off
      cs := { min := 0, max := 0, offset := 0 }
      calData := { offset := cs.offset.toInt - val, mNeg := mNeg, mPos := mPos }
      led := true }

theorem normalise_eq_recentre (val offset : ℚ) :
    normalise val offset = recentre 256 (val + offset) := by
  unfold normalise recentre
  simp only
  split_ifs <;> linarith

def seamShift (v : ℚ) : ℤ := if v < -96 then 64 else if v > 96 then -64 else 0

def CalState.shift (c : CalState) (d : Int8) : CalState where
  min := c.min + d
  max := c.max + d
  offset := c.offset + d

def adjusted (offset : Int8) (val : ℚ) : ℚ :=
  normalise val offset.toInt + seamShift (normalise val offset.toInt)

def CalState.carried (c : CalState) (val : ℚ) : CalState :=
  c.shift (Int8.ofInt (seamShift (normalise val c.offset.toInt)))

theorem seamShift_cases (v : ℚ) :
    (v < -96 ∧ seamShift v = 64) ∨ (96 < v ∧ seamShift v = -64) ∨
      (|v| ≤ 96 ∧ seamShift v = 0) := by
  rcases lt_or_ge v (-96) with hl | hl
  · exact .inl ⟨hl, if_pos hl⟩
  · rcases lt_or_ge 96 v with hu | hu
    · exact .inr (.inl ⟨hu, by rw [seamShift, if_neg (not_lt.mpr hl), if_pos hu]⟩)
    · refine .inr (.inr ⟨abs_le.mpr ⟨hl, hu⟩, ?_⟩)
      rw [seamShift, if_neg (not_lt.mpr hl), if_neg (not_lt.mpr hu)]

theorem seamShift_mem (v : ℚ) : -64 ≤ seamShift v ∧ seamShift v ≤ 64 := by
  rcases seamShift_cases v with ⟨_, h⟩ | ⟨_, h⟩ | ⟨_, h⟩ <;> rw [h] <;> decide

theorem preventWraparound_eq (v : ℚ) (c : CalState) :
    preventWraparound v c = (v + seamShift v, c.shift (Int8.ofInt (seamShift v))) := by
  rcases seamShift_cases v with ⟨hv, hs⟩ | ⟨hv, hs⟩ | ⟨hv, hs⟩
  · rw [preventWraparound, if_pos hv, hs]
    rfl
  · rw [preventWraparound, if_neg (by linarith), if_pos hv, hs]
    have hneg (a : Int8) : a - 64 = a + Int8.ofInt (-64) := by
      rw [Int8.sub_eq_add_neg]
      rfl
    simp only [hneg, CalState.shift, Int.cast_neg, Int.cast_ofNat, sub_eq_add_neg]
  · obtain ⟨hl, hu⟩ := abs_le.mp hv
    rw [preventWraparound, if_neg (not_lt.mpr hl), if_neg (not_lt.mpr hu), hs]
    simp [CalState.shift]

theorem toInt_ofInt_seamShift (v : ℚ) : (Int8.ofInt (seamShift v)).toInt = seamShift v := by
  obtain ⟨hl, hu⟩ := seamShift_mem v
  exact toInt_ofInt_of_mem (by omega) (by omega)

theorem seamShift_abs_le {v : ℚ} (h : |v| ≤ 128) : |v + seamShift v| ≤ 96 := by
  obtain ⟨hl, hu⟩ := abs_le.mp h
  rcases seamShift_cases v with ⟨hv, hs⟩ | ⟨hv, hs⟩ | ⟨hv, hs⟩
  · rw [hs, abs_le]
    constructor <;> push_cast <;> linarith
  · rw [hs, abs_le]
    constructor <;> push_cast <;> linarith
  · rw [hs, Int.cast_zero, add_zero]
    exact hv

theorem normalise_modEq (val offset : ℚ) : normalise val offset ≡ val + offset [PMOD 256] := by
  rw [normalise_eq_recentre]
  exact recentre_modEq _ _

theorem normalise_abs_le {val offset : ℚ} (h : |val + offset| ≤ 384) :
    |normalise val offset| ≤ 128 := by
  rw [normalise_eq_recentre]
  have hr := recentre_abs_le (p := 256) (x := val + offset) (by linarith)
  linarith

theorem abs_toInt_le (a : Int8) : |(a.toInt : ℚ)| ≤ 128 := by
  obtain ⟨hl, hu⟩ := toInt_mem a
  have hl' : (-128 : ℚ) ≤ a.toInt := by exact_mod_cast hl
  have hu' : (a.toInt : ℚ) ≤ 127 := by exact_mod_cast hu
  exact abs_le.mpr ⟨hl', by linarith⟩

theorem normalise_byte_abs_le {val : ℚ} (h : |val| ≤ 128) (offset : Int8) :
    |normalise val offset.toInt| ≤ 128 := by
  apply normalise_abs_le
  linarith [abs_add_le val offset.toInt, abs_toInt_le offset]

theorem adjusted_abs_le {val : ℚ} (h : |val| ≤ 128) (offset : Int8) :
    |adjusted offset val| ≤ 96 :=
  seamShift_abs_le (normalise_byte_abs_le h offset)

/-- The adjusted heading is the heading turned by the offset the call leaves. -/
theorem adjusted_modEq (c : CalState) (val : ℚ) :
    adjusted c.offset val ≡ val + (c.carried val).offset.toInt [PMOD 256] := by
  have hn := (normalise_modEq val c.offset.toInt).add_right
    (seamShift (normalise val c.offset.toInt) : ℚ)
  have ho := (toInt_add_modEq c.offset
    (Int8.ofInt (seamShift (normalise val c.offset.toInt)))).add_left val
  rw [toInt_ofInt_seamShift] at ho
  exact (hn.trans (by rw [add_assoc])).trans ho.symm

/-! A heading clear of the seam is not turned at offset zero. -/

theorem seamShift_of_abs_le {v : ℚ} (h : |v| ≤ 96) : seamShift v = 0 := by
  obtain ⟨hl, hu⟩ := abs_le.mp h
  rcases seamShift_cases v with ⟨hv, _⟩ | ⟨hv, _⟩ | ⟨_, hs⟩
  · linarith
  · linarith
  · exact hs

theorem normalise_byte_zero {val : ℚ} (h : |val| ≤ 128) : normalise val (0 : Int8).toInt = val := by
  rw [normalise_eq_recentre]
  simpa using recentre_of_abs_le (p := 256) (x := val) (by linarith)

theorem adjusted_zero {val : ℚ} (h : |val| ≤ 96) : adjusted 0 val = val := by
  rw [adjusted, normalise_byte_zero (by linarith), seamShift_of_abs_le h, Int.cast_zero, add_zero]

theorem toInt_toByte_of_mem {v : ℚ} (hl : -128 ≤ v) (hu : v ≤ 127) :
    (toByte v).toInt = truncate v := by
  obtain ⟨ht, hb⟩ := truncate_mem_Icc (a := -128) (b := 127) (by simpa using hl) (by simpa using hu)
  exact toInt_ofInt_of_mem ht hb

theorem toInt_toByte {v : ℚ} (h : |v| ≤ 96) : (toByte v).toInt = truncate v := by
  obtain ⟨hl, hu⟩ := abs_le.mp h
  exact toInt_toByte_of_mem (by linarith) (by linarith)

theorem record_min {c : CalState} {v : ℚ} (h : |v| ≤ 96) :
    (c.record v).min.toInt = min c.min.toInt (truncate v) := by
  rw [← ite_truncate_eq_min (K := ℚ), ← toInt_toByte h]
  exact apply_ite Int8.toInt _ _ _

theorem record_max {c : CalState} {v : ℚ} (h : |v| ≤ 96) :
    (c.record v).max.toInt = max c.max.toInt (truncate v) := by
  rw [← ite_truncate_eq_max (K := ℚ), ← toInt_toByte h]
  exact apply_ite Int8.toInt _ _ _

@[simp] theorem record_offset (c : CalState) (v : ℚ) : (c.record v).offset = c.offset := rfl

/-! ## What a call does in each state -/

theorem calibrate_eq (sw : Bool) (val : ℚ) (m : Calibrator) :
    calibrate sw val m = match m.state with
      | .off =>
        if !sw then some { m with cs := m.cs.carried val }
        else some { m with
          cs := ⟨toByte (adjusted m.cs.offset val), toByte (adjusted m.cs.offset val), 0⟩
          state := .on
          led := false }
      | .on => some { m with
          state := if !sw then .ending else .on
          cs := (m.cs.carried val).record (adjusted m.cs.offset val) }
      | .ending =>
        (fdiv (-128) ((m.cs.carried val).min.toInt - adjusted m.cs.offset val)).bind fun mNeg =>
          (fdiv 128 ((m.cs.carried val).max.toInt - adjusted m.cs.offset val)).bind fun mPos =>
            some ⟨.off, ⟨0, 0, 0⟩,
              ⟨(m.cs.carried val).offset.toInt - adjusted m.cs.offset val, mNeg, mPos⟩, true⟩ := by
  rw [calibrate, preventWraparound_eq]
  rfl

section Calls
variable {val : ℚ} {m m' : Calibrator}

theorem calibrate_idle (h : m.state = .off) :
    calibrate false val m = some { m with cs := m.cs.carried val } := by
  rw [calibrate_eq, h]
  rfl

theorem calibrate_open (h : m.state = .off) :
    calibrate true val m = some { m with
      cs := ⟨toByte (adjusted m.cs.offset val), toByte (adjusted m.cs.offset val), 0⟩
      state := .on
      led := false } := by
  rw [calibrate_eq, h]
  rfl

theorem calibrate_on (h : m.state = .on) (sw : Bool) :
    calibrate sw val m = some { m with
      state := if !sw then .ending else .on
      cs := (m.cs.carried val).record (adjusted m.cs.offset val) } := by
  rw [calibrate_eq, h]

theorem calibrate_ending (h : m.state = .ending) (sw : Bool)
    (hmin : ((m.cs.carried val).min.toInt : ℚ) ≠ adjusted m.cs.offset val)
    (hmax : ((m.cs.carried val).max.toInt : ℚ) ≠ adjusted m.cs.offset val) :
    calibrate sw val m = some ⟨.off, ⟨0, 0, 0⟩,
      ⟨(m.cs.carried val).offset.toInt - adjusted m.cs.offset val,
        -128 / ((m.cs.carried val).min.toInt - adjusted m.cs.offset val),
        128 / ((m.cs.carried val).max.toInt - adjusted m.cs.offset val)⟩, true⟩ := by
  rw [calibrate_eq, h]
  simp only [fdiv, if_neg (sub_ne_zero.mpr hmin), if_neg (sub_ne_zero.mpr hmax), Option.bind_some]

theorem calibrate_ending_some (h : m.state = .ending) {sw : Bool}
    (hm : calibrate sw val m = some m') :
    ((m.cs.carried val).min.toInt : ℚ) ≠ adjusted m.cs.offset val ∧
      ((m.cs.carried val).max.toInt : ℚ) ≠ adjusted m.cs.offset val := by
  rw [calibrate_eq, h] at hm
  obtain ⟨mNeg, hneg, hrest⟩ := Option.bind_eq_some_iff.mp hm
  obtain ⟨mPos, hpos, _⟩ := Option.bind_eq_some_iff.mp hrest
  constructor
  · intro he
    simp [fdiv, he] at hneg
  · intro he
    simp [fdiv, he] at hpos

end Calls

/-! ## Runs -/

/-- The headings the sensors can hand over. -/
abbrev Heading : Type := Set.Icc (-128 : ℚ) 128

def Heading.ofByte (b : Int8) : Heading :=
  ⟨b.toInt, by
    have hlo : (-128 : ℚ) ≤ b.toInt := by exact_mod_cast (toInt_mem b).1
    have hhi : (b.toInt : ℚ) ≤ 127 := by exact_mod_cast (toInt_mem b).2
    exact ⟨hlo, by linarith⟩⟩

@[simp] theorem Heading.coe_ofByte (b : Int8) : (Heading.ofByte b : ℚ) = b.toInt := rfl

theorem heading_abs_le (h : Heading) : |(h : ℚ)| ≤ 128 := abs_le.mpr ⟨h.2.1, h.2.2⟩

structure Call where
  heading : Heading
  jscalSwitch : Bool
  deriving DecidableEq

def JsState.next : JsState → Bool → JsState
  | .off, sw => if sw then .on else .off
  | .on, sw => if sw then .on else .ending
  | .ending, _ => .off

theorem calibrate_state {sw : Bool} {val : ℚ} {m m' : Calibrator}
    (h : calibrate sw val m = some m') : m'.state = m.state.next sw := by
  cases hs : m.state with
  | off =>
    cases sw with
    | false =>
      rw [calibrate_idle hs] at h
      exact Option.some.inj h ▸ hs
    | true =>
      rw [calibrate_open hs] at h
      exact Option.some.inj h ▸ rfl
  | on =>
    rw [calibrate_on hs] at h
    cases sw <;> exact Option.some.inj h ▸ rfl
  | ending =>
    obtain ⟨hmin, hmax⟩ := calibrate_ending_some hs h
    rw [calibrate_ending hs sw hmin hmax] at h
    exact Option.some.inj h ▸ rfl

def calibrateCall (c : Call) (m : Calibrator) : Option Calibrator :=
  calibrate c.jscalSwitch c.heading m

def calibrateRun : List Call → Calibrator → Option Calibrator := run calibrateCall

end BluePill.Calibration
