import BluePillJs.Calibration.Machine
import BluePillJs.Library.CircleArc
import Mathlib.Analysis.CStarAlgebra.Classes
import Mathlib.Analysis.Complex.Arg

/-! `xy_to_hdg`. With the exact arc tangent the heading is the direction of the field, in
steps of which `256` make a turn. -/

namespace BluePill.Sensor
open Calibration CircleArc

section
variable {K : Type*} [Field K] [LinearOrder K]

def xyToHdg (atan2f : K → K → K) (mPi x y : K) : K :=
  let hdg := atan2f y x / mPi
  let hdg := if hdg < -1 then hdg + (2 : ℤ) else hdg
  let hdg := if hdg > 1 then hdg - (2 : ℤ) else hdg
  hdg * -128

variable [IsStrictOrderedRing K] {atan2f : K → K → K} {mPi x y : K}

theorem xyToHdg_eq_recentre :
    xyToHdg atan2f mPi x y = recentre 2 (atan2f y x / mPi) * -128 := by
  unfold xyToHdg recentre
  generalize atan2f y x / mPi = hdg
  have hhalf : (2 : K) / 2 = 1 := div_self two_ne_zero
  dsimp only
  rw [hhalf, Int.cast_two]
  by_cases hlow : hdg < -1
  · -- turned up by two, the heading is below one
    have hhigh : ¬hdg + 2 > 1 := by linarith
    rw [if_pos hlow, if_neg hhigh, if_pos hlow]
  · rw [if_neg hlow, if_neg hlow]

theorem xyToHdg_abs_le (hpi : 0 < mPi) (h : |atan2f y x| ≤ 3 * mPi) :
    |xyToHdg atan2f mPi x y| ≤ 128 := by
  have hquot : |atan2f y x / mPi| ≤ 3 * (2 / 2) := by
    rw [abs_div, abs_of_pos hpi, div_le_iff₀ hpi, div_self two_ne_zero, mul_one]
    exact h
  have hback : |recentre 2 (atan2f y x / mPi)| ≤ 1 := by
    have hle := recentre_abs_le hquot
    linarith
  rw [xyToHdg_eq_recentre, abs_mul, abs_neg, abs_of_pos (by norm_num : (0 : K) < 128)]
  linarith

theorem xyToHdg_of_abs_le (hpi : 0 < mPi) (h : |atan2f y x| ≤ mPi) :
    xyToHdg atan2f mPi x y = atan2f y x / mPi * -128 := by
  have hquot : |atan2f y x / mPi| ≤ 2 / 2 := by
    rw [abs_div, abs_of_pos hpi, div_le_iff₀ hpi, div_self two_ne_zero, one_mul]
    exact h
  rw [xyToHdg_eq_recentre, recentre_of_abs_le hquot]

end

/-- The arc tangent of the C library, which may round beyond the half turn. -/
structure Libm where
  atan2f : ℚ → ℚ → ℚ
  mPi : ℚ
  mPi_pos : 0 < mPi
  atan2f_range : ∀ y x, |atan2f y x| ≤ 3 * mPi

def Libm.heading (m : Libm) (x y : Int16) : Heading :=
  ⟨xyToHdg m.atan2f m.mPi x.toInt y.toInt,
    abs_le.mp (xyToHdg_abs_le m.mPi_pos (m.atan2f_range _ _))⟩

/-! ## The direction of the field -/

noncomputable section

def atan2 (y x : ℝ) : ℝ := Complex.arg ⟨x, y⟩

def fieldHeading (z : ℂ) : ℝ := xyToHdg atan2 Real.pi z.re z.im

theorem fieldHeading_eq (z : ℂ) : fieldHeading z = z.arg / Real.pi * -128 := by
  have harg : |atan2 z.im z.re| ≤ Real.pi := Complex.abs_arg_le_pi z
  exact xyToHdg_of_abs_le Real.pi_pos harg

theorem fieldHeading_mem (z : ℂ) : -128 ≤ fieldHeading z ∧ fieldHeading z < 128 := by
  have hlow : -1 < z.arg / Real.pi := by
    rw [lt_div_iff₀ Real.pi_pos, neg_one_mul]
    exact Complex.neg_pi_lt_arg z
  have hhigh : z.arg / Real.pi ≤ 1 := (div_le_one Real.pi_pos).mpr (Complex.arg_le_pi z)
  rw [fieldHeading_eq]
  constructor <;> linarith

theorem fieldHeading_eq_iff {z w : ℂ} (hz : z ≠ 0) (hw : w ≠ 0) :
    fieldHeading z = fieldHeading w ↔ SameRay ℝ z w := by
  have hfactor : (-128 : ℝ) / Real.pi ≠ 0 := div_ne_zero (by norm_num) Real.pi_ne_zero
  have hscaled (v : ℂ) : fieldHeading v = v.arg * (-128 / Real.pi) := by
    rw [fieldHeading_eq]
    ring
  rw [Complex.sameRay_iff, hscaled, hscaled, mul_left_inj' hfactor]
  simp only [hz, hw, false_or]

theorem fieldHeading_turn {z : ℂ} (hz : z ≠ 0) (θ : ℝ) :
    fieldHeading (z * Complex.exp (θ * Complex.I)) ≡
      fieldHeading z - θ / Real.pi * 128 [PMOD 256] := by
  have hexp : Complex.exp (θ * Complex.I) = Complex.cos θ + Complex.sin θ * Complex.I :=
    Complex.exp_mul_I θ
  have hturn : (Complex.arg (Complex.exp (θ * Complex.I)) : Real.Angle) = θ := by
    have hcoe := Complex.arg_cos_add_sin_mul_I_coe_angle (θ : Real.Angle)
    rw [hexp]
    simpa using hcoe
  have hangle : ((z * Complex.exp (θ * Complex.I)).arg : Real.Angle) = (z.arg + θ : ℝ) := by
    rw [Complex.arg_mul_coe_angle hz (Complex.exp_ne_zero _), hturn, Real.Angle.coe_add]
  obtain ⟨k, hk⟩ := Real.Angle.angle_eq_iff_two_pi_dvd_sub.mp hangle
  rw [AddCommGroup.modEq_iff_zsmul]
  refine ⟨k, ?_⟩
  rw [zsmul_eq_mul, fieldHeading_eq, fieldHeading_eq, eq_add_of_sub_eq hk]
  field_simp [Real.pi_ne_zero]
  ring

/-- The heading tells the direction of the field and nothing about its strength. -/
theorem fieldHeading_direction {z w : ℂ} (hz : z ≠ 0) (hw : w ≠ 0) :
    (-128 ≤ fieldHeading z ∧ fieldHeading z < 128) ∧
      (fieldHeading z = fieldHeading w ↔ SameRay ℝ z w) ∧
      ∀ θ : ℝ, fieldHeading (z * Complex.exp (θ * Complex.I)) ≡
        fieldHeading z - θ / Real.pi * 128 [PMOD 256] :=
  ⟨fieldHeading_mem z, fieldHeading_eq_iff hz hw, fieldHeading_turn hz⟩

theorem fieldHeading_direction_one :
    (-128 ≤ fieldHeading 1 ∧ fieldHeading 1 < 128) ∧
      (fieldHeading 1 = fieldHeading 2 ↔ SameRay ℝ (1 : ℂ) 2) ∧
      ∀ θ : ℝ, fieldHeading (1 * Complex.exp (θ * Complex.I)) ≡
        fieldHeading 1 - θ / Real.pi * 128 [PMOD 256] :=
  fieldHeading_direction one_ne_zero two_ne_zero

def field (x y : Int16) : ℂ := ⟨x.toInt, y.toInt⟩

@[simp]
theorem field_re (x y : Int16) : (field x y).re = x.toInt := rfl

@[simp]
theorem field_im (x y : Int16) : (field x y).im = y.toInt := rfl

theorem abs_arg_le_arcsin {q : ℂ} {ρ : ℝ} (hρ : ρ ≤ 1) (h : ‖q - 1‖ ≤ ρ) :
    |q.arg| ≤ Real.arcsin ρ := by
  have hρ₀ : 0 ≤ ρ := (norm_nonneg _).trans h
  have hsq : (q.re - 1) ^ 2 + q.im ^ 2 ≤ ρ ^ 2 := by
    have hnorm := pow_le_pow_left₀ (norm_nonneg _) h 2
    rw [← Complex.normSq_eq_norm_sq, Complex.normSq_apply] at hnorm
    simp only [Complex.sub_re, Complex.sub_im, Complex.one_re, Complex.one_im, sub_zero] at hnorm
    nlinarith
  have hle : ρ ^ 2 ≤ 1 := pow_le_one₀ hρ₀ hρ
  have hre : 0 ≤ q.re := by nlinarith [sq_nonneg q.im]
  have him : |q.im| ≤ ρ * ‖q‖ := by
    apply abs_le_of_sq_le_sq _ (mul_nonneg hρ₀ (norm_nonneg q))
    rw [mul_pow, ← Complex.normSq_eq_norm_sq, Complex.normSq_apply]
    have hscaled := mul_le_mul_of_nonneg_left hsq (sub_nonneg.mpr hle)
    nlinarith [sq_nonneg (q.re - 1 + ρ ^ 2)]
  have hsin : |q.im / ‖q‖| ≤ ρ := by
    rw [abs_div, abs_norm]
    exact div_le_of_le_mul₀ (norm_nonneg q) hρ₀ him
  rw [Complex.arg_of_re_nonneg hre, abs_le, ← Real.arcsin_neg]
  exact ⟨Real.arcsin_le_arcsin (abs_le.mp hsin).1, Real.arcsin_le_arcsin (abs_le.mp hsin).2⟩

/-- A field that is off by a share `ρ` of its strength turns the heading by no more than the
angle of sine `ρ`. -/
theorem fieldHeading_near {z w : ℂ} {ρ : ℝ} (hz : z ≠ 0) (hρ : ρ < 1) (h : ‖w - z‖ ≤ ρ * ‖z‖) :
    ∃ e : ℝ, |e| ≤ Real.arcsin ρ / Real.pi * 128 ∧
      fieldHeading w ≡ fieldHeading z + e [PMOD 256] := by
  have hq : ‖w / z - 1‖ ≤ ρ := by
    rw [div_sub_one hz, norm_div, div_le_iff₀ (norm_pos_iff.mpr hz)]
    exact h
  have hne : w / z ≠ 0 := by
    intro hzero
    rw [hzero, zero_sub, norm_neg, norm_one] at hq
    exact absurd hq (not_le.mpr hρ)
  have hw : w ≠ 0 := (div_ne_zero_iff.mp hne).1
  -- `w` is `z`, turned by the angle between them and stretched
  have hpolar : w = ‖w / z‖ • (z * Complex.exp ((w / z).arg * Complex.I)) := by
    rw [Complex.real_smul, mul_left_comm, Complex.norm_mul_exp_arg_mul_I, mul_div_cancel₀ _ hz]
  have hray : SameRay ℝ w (z * Complex.exp ((w / z).arg * Complex.I)) := by
    nth_rewrite 1 [hpolar]
    exact SameRay.sameRay_nonneg_smul_left _ (norm_nonneg _)
  have hturn := fieldHeading_turn hz (w / z).arg
  rw [← (fieldHeading_eq_iff hw (mul_ne_zero hz (Complex.exp_ne_zero _))).mpr hray,
    sub_eq_add_neg] at hturn
  refine ⟨_, ?_, hturn⟩
  rw [abs_neg, abs_mul, abs_div, abs_of_pos Real.pi_pos, abs_of_pos (by norm_num : (0 : ℝ) < 128)]
  have harg := abs_arg_le_arcsin hρ.le hq
  gcongr

theorem norm_field_sub_le {a b x y : Int16} (hx : |a.toInt - x.toInt| ≤ 7)
    (hy : |b.toInt - y.toInt| ≤ 7) : ‖field a b - field x y‖ ≤ √98 := by
  have hx₂ : (a.toInt - x.toInt) ^ 2 ≤ 7 ^ 2 := sq_le_sq' (abs_le.mp hx).1 (abs_le.mp hx).2
  have hy₂ : (b.toInt - y.toInt) ^ 2 ≤ 7 ^ 2 := sq_le_sq' (abs_le.mp hy).1 (abs_le.mp hy).2
  have hsum : (a.toInt - x.toInt) ^ 2 + (b.toInt - y.toInt) ^ 2 ≤ 98 := by linarith
  apply Real.le_sqrt_of_sq_le
  rw [← Complex.normSq_eq_norm_sq, Complex.normSq_apply, ← sq, ← sq]
  simp only [Complex.sub_re, Complex.sub_im, field_re, field_im]
  exact_mod_cast hsum

theorem sqrt_lt_norm_field {x y : Int16} (h : 98 < x.toInt ^ 2 + y.toInt ^ 2) :
    √98 < ‖field x y‖ := by
  rw [Real.sqrt_lt' (norm_pos_iff.mpr ?_), ← Complex.normSq_eq_norm_sq, Complex.normSq_apply,
    ← sq, ← sq, field_re, field_im]
  · exact_mod_cast h
  · intro hzero
    have hx : (x.toInt : ℝ) = 0 := congrArg Complex.re hzero
    have hy : (y.toInt : ℝ) = 0 := congrArg Complex.im hzero
    norm_cast at hx hy
    rw [hx, hy] at h
    exact absurd h (by decide)

/-- Axes within the dead band of a field beyond it show its heading up to an angle that
shrinks with the strength of the field. -/
theorem fieldHeading_of_band {a b x y : Int16} (hx : |a.toInt - x.toInt| ≤ 7)
    (hy : |b.toInt - y.toInt| ≤ 7) (h : 98 < x.toInt ^ 2 + y.toInt ^ 2) :
    ∃ e : ℝ, |e| ≤ Real.arcsin (√98 / ‖field x y‖) / Real.pi * 128 ∧
      fieldHeading (field a b) ≡ fieldHeading (field x y) + e [PMOD 256] := by
  have hstrong : √98 < ‖field x y‖ := sqrt_lt_norm_field h
  have hpos : 0 < ‖field x y‖ := (Real.sqrt_nonneg _).trans_lt hstrong
  apply fieldHeading_near (norm_pos_iff.mp hpos) ((div_lt_one hpos).mpr hstrong)
  rw [div_mul_cancel₀ _ hpos.ne']
  exact norm_field_sub_le hx hy

end

end BluePill.Sensor
