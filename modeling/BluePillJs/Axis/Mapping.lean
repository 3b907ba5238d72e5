import BluePillJs.Axis.Transmit
import BluePillJs.Calibration.Multipliers

/-! The axis and brake mapping of `transmit`: order, ranges, and what happens at the ends. -/

namespace BluePill.Axis
open TruncatedByte Calibration

theorem limit_mono : Monotone limit := by
  intro v w h
  unfold limit
  split_ifs <;> linarith

theorem limit_eq_low_iff (w : ℚ) : limit w = -128 ↔ w ≤ -128 := by
  unfold limit
  split_ifs with h₁ h₂
  · exact ⟨fun _ => h₁.le, fun _ => rfl⟩
  · constructor <;> intro h <;> linarith
  · exact ⟨fun h => h.le, fun h => le_antisymm h (not_lt.mp h₁)⟩

theorem limit_eq_high_iff (w : ℚ) : limit w = 127 ↔ 127 ≤ w := by
  unfold limit
  split_ifs with h₁ h₂
  · constructor <;> intro h <;> linarith
  · exact ⟨fun _ => h₂.le, fun _ => rfl⟩
  · exact ⟨fun h => h.ge, fun h => le_antisymm (not_lt.mp h₂) h⟩

theorem toByte_eq_low_iff {v : ℚ} (hl : -128 ≤ v) (hu : v ≤ 127) :
    toByte v = -128 ↔ v = -128 := by
  constructor
  · intro h
    have ht : truncate v = -128 := (toInt_toByte_of_mem hl hu).symm.trans (congrArg Int8.toInt h)
    rcases le_total 0 v with hv | hv
    · rw [truncate_of_nonneg hv] at ht
      have := Int.floor_nonneg.mpr hv
      omega
    · rw [truncate_of_nonpos hv] at ht
      have hc := Int.le_ceil v
      rw [ht] at hc
      exact le_antisymm (by simpa using hc) hl
  · rintro rfl
    decide +kernel

theorem toByte_eq_high_iff {v : ℚ} (hl : -128 ≤ v) (hu : v ≤ 127) :
    toByte v = 127 ↔ v = 127 := by
  constructor
  · intro h
    have ht : truncate v = 127 := (toInt_toByte_of_mem hl hu).symm.trans (congrArg Int8.toInt h)
    rcases le_total 0 v with hv | hv
    · rw [truncate_of_nonneg hv] at ht
      have hf := Int.floor_le v
      rw [ht] at hf
      exact le_antisymm hu (by simpa using hf)
    · rw [truncate_of_nonpos hv] at ht
      have : ⌈v⌉ ≤ 0 := Int.ceil_le.mpr (by simpa using hv)
      omega
  · rintro rfl
    decide +kernel

theorem toByte_mono {v w : ℚ} (hv : -128 ≤ v) (hw : w ≤ 127) (h : v ≤ w) :
    toByte v ≤ toByte w := by
  rw [Int8.le_iff_toInt_le, toInt_toByte_of_mem hv (h.trans hw),
    toInt_toByte_of_mem (hv.trans h) hw]
  exact truncate_mono h

theorem toByte_limit_mono {v w : ℚ} (h : v ≤ w) : toByte (limit v) ≤ toByte (limit w) :=
  toByte_mono (limit_mem v).1 (limit_mem w).2 (limit_mono h)

theorem toByte_limit_eq_low_iff (w : ℚ) : toByte (limit w) = -128 ↔ w ≤ -128 :=
  (toByte_eq_low_iff (limit_mem w).1 (limit_mem w).2).trans (limit_eq_low_iff w)

theorem toByte_limit_eq_high_iff (w : ℚ) : toByte (limit w) = 127 ↔ 127 ≤ w :=
  (toByte_eq_high_iff (limit_mem w).1 (limit_mem w).2).trans (limit_eq_high_iff w)

theorem low_lt_iff (a : Int8) : -128 < a ↔ a ≠ -128 := by
  have hlow := a.le_toInt
  rw [Int8.lt_iff_toInt_lt, ne_eq, ← Int8.toInt_inj]
  have hmin : (-128 : Int8).toInt = -128 := rfl
  omega

theorem calApply_mono {cal : CalData} (hcal : Positive cal) {h₁ h₂ : ℚ}
    (h : normalise h₁ cal.offset ≤ normalise h₂ cal.offset) :
    calApply cal h₁ ≤ calApply cal h₂ := by
  apply limit_mono
  have hneg := hcal.mNeg
  have hpos := hcal.mPos
  split_ifs with h₁ h₂ h₂
  · exact mul_le_mul_of_nonneg_right h hneg.le
  · exact (mul_neg_of_neg_of_pos h₁ hneg).le.trans (mul_nonneg (not_lt.mp h₂) hpos.le)
  · exact absurd (h.trans_lt h₂) h₁
  · exact mul_le_mul_of_nonneg_right h hpos.le

theorem brakes_fst_antitone {v w : ℚ} (h : v ≤ w) : (brakes w).1 ≤ (brakes v).1 := by
  unfold brakes jsBrakeRatio jsBrakepointPos jsBrakepointNeg jsBrakepoint jsMax jsMin
  split_ifs <;> linarith

theorem brakes_snd_mono {v w : ℚ} (h : v ≤ w) : (brakes v).2 ≤ (brakes w).2 := by
  unfold brakes jsBrakeRatio jsBrakepointPos jsBrakepointNeg jsBrakepoint jsMax jsMin
  split_ifs <;> linarith

theorem brakes_fst_le_iff (v : ℚ) : (brakes v).1 ≤ -128 ↔ -96 ≤ v := by
  unfold brakes jsBrakeRatio jsBrakepointPos jsBrakepointNeg jsBrakepoint jsMax jsMin
  split_ifs with hn hp
  · constructor <;> intro h <;> linarith
  · exact iff_of_true le_rfl (by linarith)
  · exact iff_of_true le_rfl (by linarith)

theorem brakes_snd_le_iff (v : ℚ) : (brakes v).2 ≤ -128 ↔ v ≤ 95 := by
  unfold brakes jsBrakeRatio jsBrakepointPos jsBrakepointNeg jsBrakepoint jsMax jsMin
  split_ifs with hn hp
  · exact iff_of_true le_rfl (by linarith)
  · constructor <;> intro h <;> linarith
  · exact iff_of_true le_rfl (by linarith)

section Report
variable {v w : ℚ} {b b' : UInt8}

theorem report_mono (hl : -128 ≤ v) (hu : w ≤ 127) (h : v ≤ w) :
    (report v b).x ≤ (report w b').x ∧ (report w b').y ≤ (report v b).y ∧
      (report v b).z ≤ (report w b').z :=
  ⟨toByte_mono hl hu h, toByte_limit_mono (brakes_fst_antitone h),
    toByte_limit_mono (brakes_snd_mono h)⟩

theorem report_y_iff (v : ℚ) (b : UInt8) : -128 < (report v b).y ↔ v < -96 := by
  rw [low_lt_iff, ne_eq, ← not_le (a := (-96 : ℚ))]
  exact not_congr ((toByte_limit_eq_low_iff _).trans (brakes_fst_le_iff v))

theorem report_z_iff (v : ℚ) (b : UInt8) : -128 < (report v b).z ↔ 95 < v := by
  rw [low_lt_iff, ne_eq, ← not_le (a := v)]
  exact not_congr ((toByte_limit_eq_low_iff _).trans (brakes_snd_le_iff v))

theorem report_y_of_low (hl : -128 ≤ v) (hu : v ≤ 127) (h : (report v b).x = -128) :
    (report v b).y = 127 := by
  obtain rfl := (toByte_eq_low_iff hl hu).mp h
  exact (toByte_limit_eq_high_iff _).mpr (by decide +kernel)

theorem report_z_of_high (hl : -128 ≤ v) (hu : v ≤ 127) (h : (report v b).x = 127) :
    (report v b).z = 127 := by
  obtain rfl := (toByte_eq_high_iff hl hu).mp h
  exact (toByte_limit_eq_high_iff _).mpr (by decide +kernel)

end Report

/-! ## Calls of `transmit` -/

/-- `r` is the report of a call at heading `h` that leaves the calibration `cal`. -/
def Reports (cal : CalData) (h : ℚ) (r : HidData) : Prop :=
  ∃ sw port d d', transmit sw port h d = some d' ∧ d'.calibrator.calData = cal ∧ d'.hidInData = r

theorem Reports.eq_report {cal : CalData} {h : ℚ} {r : HidData} (hr : Reports cal h r) :
    ∃ b, r = report (calApply cal h) b := by
  obtain ⟨sw, port, d, d', ht, hcal, rfl⟩ := hr
  obtain ⟨m, _, rfl⟩ := transmit_eq_some ht
  exact ⟨readButtons port, by rw [← hcal]⟩

theorem calApply_mem (cal : CalData) (h : ℚ) : -128 ≤ calApply cal h ∧ calApply cal h ≤ 127 :=
  limit_mem _

structure ExactReport (v : ℚ) (r : HidData) : Prop where
  x_arg : -128 ≤ v ∧ v ≤ 127
  y_arg : -128 ≤ limit (brakes v).1 ∧ limit (brakes v).1 ≤ 127
  z_arg : -128 ≤ limit (brakes v).2 ∧ limit (brakes v).2 ≤ 127
  converted : r.x.toInt = truncate v ∧ r.y.toInt = truncate (limit (brakes v).1) ∧
    r.z.toInt = truncate (limit (brakes v).2)
  y_iff : -128 < r.y ↔ v < -96
  z_iff : -128 < r.z ↔ 95 < v
  exclusive : r.y = -128 ∨ r.z = -128
  low : r.x = -128 → r.y = 127
  high : r.x = 127 → r.z = 127

theorem exactReport_report {v : ℚ} (hl : -128 ≤ v) (hu : v ≤ 127) (b : UInt8) :
    ExactReport v (report v b) where
  x_arg := ⟨hl, hu⟩
  y_arg := limit_mem _
  z_arg := limit_mem _
  converted := ⟨toInt_toByte_of_mem hl hu, toInt_toByte_of_mem (limit_mem _).1 (limit_mem _).2,
    toInt_toByte_of_mem (limit_mem _).1 (limit_mem _).2⟩
  y_iff := report_y_iff v b
  z_iff := report_z_iff v b
  exclusive := by
    rcases le_total v 0 with h | h
    · exact .inr ((toByte_limit_eq_low_iff _).mpr ((brakes_snd_le_iff v).mpr (by linarith)))
    · exact .inl ((toByte_limit_eq_low_iff _).mpr ((brakes_fst_le_iff v).mpr (by linarith)))
  low := report_y_of_low hl hu
  high := report_z_of_high hl hu

theorem transmit_monotone_exact {cal : CalData} (hcal : Positive cal) :
    (∀ h₁ h₂ r₁ r₂, Reports cal h₁ r₁ → Reports cal h₂ r₂ →
      normalise h₁ cal.offset ≤ normalise h₂ cal.offset →
      r₁.x ≤ r₂.x ∧ r₂.y ≤ r₁.y ∧ r₁.z ≤ r₂.z) ∧
    ∀ h r, Reports cal h r → ExactReport (calApply cal h) r := by
  refine ⟨fun h₁ h₂ r₁ r₂ hr₁ hr₂ hle => ?_, fun h r hr => ?_⟩
  · obtain ⟨b₁, rfl⟩ := hr₁.eq_report
    obtain ⟨b₂, rfl⟩ := hr₂.eq_report
    exact report_mono (calApply_mem cal h₁).1 (calApply_mem cal h₂).2 (calApply_mono hcal hle)
  · obtain ⟨b, rfl⟩ := hr.eq_report
    exact exactReport_report (calApply_mem cal h).1 (calApply_mem cal h).2 b

theorem transmit_monotone_exact_powerOn :
    ∃ r₁ r₂, Reports ⟨0, 1, 1⟩ 10 r₁ ∧ Reports ⟨0, 1, 1⟩ 100 r₂ ∧
      (r₁.x ≤ r₂.x ∧ r₂.y ≤ r₁.y ∧ r₁.z ≤ r₂.z) ∧ ExactReport (calApply ⟨0, 1, 1⟩ 100) r₂ := by
  have h₁ : Reports ⟨0, 1, 1⟩ 10 ⟨10, -128, -128, 0⟩ :=
    ⟨false, 0xFFFF, powerOn, { powerOn with hidInData := ⟨10, -128, -128, 0⟩ },
      by decide +kernel, rfl, rfl⟩
  have h₂ : Reports ⟨0, 1, 1⟩ 100 ⟨100, -128, -88, 0⟩ :=
    ⟨false, 0xFFFF, powerOn, { powerOn with
      calibrator := { Calibration.powerOn with cs := ⟨-64, -64, -64⟩ }
      hidInData := ⟨100, -128, -88, 0⟩ }, by decide +kernel, rfl, rfl⟩
  have hcal : Positive ⟨0, 1, 1⟩ := ⟨by decide +kernel, by decide +kernel⟩
  obtain ⟨hmono, hexact⟩ := transmit_monotone_exact hcal
  exact ⟨_, _, h₁, h₂, hmono _ _ _ _ h₁ h₂ (by decide +kernel), hexact _ _ h₂⟩

end BluePill.Axis
