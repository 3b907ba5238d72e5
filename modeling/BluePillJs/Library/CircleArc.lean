import Mathlib.Algebra.Group.ModEq
import Mathlib.Algebra.Order.Field.Basic
import Mathlib.Tactic.Linarith
import Mathlib.Tactic.Ring

/-! Representatives of a point of a circle of circumference `p`: a single
correction by `±p` brings every value within three half turns back to the
half-open arc around zero, and two representatives closer than a turn are equal. -/

namespace CircleArc
variable {K : Type*} [Field K] [LinearOrder K]

def recentre (p x : K) : K :=
  if x < -(p / 2) then x + p else if x > p / 2 then x - p else x

theorem recentre_modEq (p x : K) : recentre p x ≡ x [PMOD p] := by
  unfold recentre
  split_ifs
  · exact AddCommGroup.modEq_iff_zsmul.mpr ⟨-1, by simp⟩
  · exact AddCommGroup.modEq_iff_zsmul.mpr ⟨1, by simp⟩
  · rfl

variable [IsStrictOrderedRing K]

theorem recentre_abs_le {p x : K} (h : |x| ≤ 3 * (p / 2)) : |recentre p x| ≤ p / 2 := by
  obtain ⟨hl, hu⟩ := abs_le.mp h
  rw [abs_le]
  unfold recentre
  split_ifs <;> constructor <;> linarith

theorem recentre_of_abs_le {p x : K} (h : |x| ≤ p / 2) : recentre p x = x := by
  obtain ⟨hl, hu⟩ := abs_le.mp h
  rw [recentre, if_neg (not_lt.mpr hl), if_neg (not_lt.mpr hu)]

theorem eq_of_modEq {p a b : K} (h : a ≡ b [PMOD p]) (hd : |a - b| < p) : a = b := by
  have hp : 0 < p := (abs_nonneg _).trans_lt hd
  obtain ⟨z, hz⟩ := AddCommGroup.modEq_iff_zsmul.mp h
  have habs : |(z : K)| * p < 1 * p := by
    rw [← abs_of_pos hp, ← abs_mul, ← zsmul_eq_mul, abs_of_pos hp, hz, abs_sub_comm, one_mul]
    exact hd
  have hz1 : |z| < 1 := by exact_mod_cast lt_of_mul_lt_mul_right habs hp.le
  rw [Int.abs_lt_one_iff.mp hz1, zero_zsmul] at hz
  exact (sub_eq_zero.mp hz.symm).symm

/-- Recentring finds any representative that lies strictly inside the arc. -/
theorem recentre_eq_of_modEq {p x y : K} (hx : |x| ≤ 3 * (p / 2)) (hy : |y| < p / 2)
    (h : x ≡ y [PMOD p]) : recentre p x = y := by
  apply eq_of_modEq ((recentre_modEq p x).trans h)
  have hr := abs_le.mp (recentre_abs_le hx)
  obtain ⟨hl, hu⟩ := abs_lt.mp hy
  exact abs_lt.mpr ⟨by linarith, by linarith⟩

end CircleArc
