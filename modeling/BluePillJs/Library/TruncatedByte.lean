import Mathlib.Algebra.Group.ModEq
import Mathlib.Algebra.Order.Floor.Ring
import Mathlib.Data.Rat.Floor
import Mathlib.Tactic.Linarith

/-! Conversion of a number to a signed byte: truncation toward zero, then wrap
modulo `256`. -/

namespace TruncatedByte

section Truncate
variable {K : Type*} [Field K] [LinearOrder K] [FloorRing K]

def truncate (q : K) : ℤ := if 0 ≤ q then ⌊q⌋ else ⌈q⌉

theorem truncate_of_nonneg {q : K} (h : 0 ≤ q) : truncate q = ⌊q⌋ := if_pos h

variable [IsStrictOrderedRing K]

theorem truncate_of_nonpos {q : K} (h : q ≤ 0) : truncate q = ⌈q⌉ := by
  rcases h.eq_or_lt with rfl | hlt
  · simp [truncate]
  · exact if_neg (not_le.mpr hlt)

theorem truncate_intCast (z : ℤ) : truncate (z : K) = z := by
  unfold truncate
  split_ifs
  · exact Int.floor_intCast z
  · exact Int.ceil_intCast z

theorem abs_truncate_sub_lt (q : K) : |(truncate q : K) - q| < 1 := by
  rw [abs_lt]
  unfold truncate
  split_ifs
  · exact ⟨by linarith [Int.lt_floor_add_one q], by linarith [Int.floor_le q]⟩
  · exact ⟨by linarith [Int.le_ceil q], by linarith [Int.ceil_lt_add_one q]⟩

theorem truncate_mono {q r : K} (h : q ≤ r) : truncate q ≤ truncate r := by
  rcases le_total 0 q with hq | hq
  · rw [truncate_of_nonneg hq, truncate_of_nonneg (hq.trans h)]
    exact Int.floor_mono h
  · rcases le_total 0 r with hr | hr
    · rw [truncate_of_nonpos hq, truncate_of_nonneg hr]
      have h0 : ⌈q⌉ ≤ 0 := Int.ceil_le.mpr (by simpa using hq)
      exact h0.trans (Int.floor_nonneg.mpr hr)
    · rw [truncate_of_nonpos hq, truncate_of_nonpos hr]
      exact Int.ceil_mono h

theorem truncate_mem_Icc {q : K} {a b : ℤ} (ha : (a : K) ≤ q) (hb : q ≤ (b : K)) :
    a ≤ truncate q ∧ truncate q ≤ b := by
  have hl := truncate_mono ha
  have hu := truncate_mono hb
  rw [truncate_intCast] at hl hu
  exact ⟨hl, hu⟩

/-- Storing a smaller sample by truncation keeps the integer minimum of the samples. -/
theorem ite_truncate_eq_min (m : ℤ) (q : K) :
    (if (m : K) > q then truncate q else m) = min m (truncate q) := by
  split_ifs with h
  · have hle : truncate q ≤ m := by
      simpa only [truncate_intCast] using truncate_mono (K := K) h.le
    exact (min_eq_right hle).symm
  · have hle : m ≤ truncate q := by
      simpa only [truncate_intCast] using truncate_mono (K := K) (not_lt.mp h)
    exact (min_eq_left hle).symm

theorem ite_truncate_eq_max (m : ℤ) (q : K) :
    (if (m : K) < q then truncate q else m) = max m (truncate q) := by
  split_ifs with h
  · have hle : m ≤ truncate q := by
      simpa only [truncate_intCast] using truncate_mono (K := K) h.le
    exact (max_eq_right hle).symm
  · have hle : truncate q ≤ m := by
      simpa only [truncate_intCast] using truncate_mono (K := K) (not_lt.mp h)
    exact (max_eq_left hle).symm

end Truncate

section Wrap

theorem toInt_mem (a : Int8) : -128 ≤ a.toInt ∧ a.toInt ≤ 127 :=
  ⟨a.le_toInt, a.toInt_le⟩

theorem bmod_of_mem {z : ℤ} (hl : -128 ≤ z) (hu : z ≤ 127) : z.bmod 256 = z :=
  Int.bmod_eq_of_le (by omega) (by omega)

theorem bmod_modEq (z : ℤ) : (z.bmod 256 : ℚ) ≡ z [PMOD 256] := by
  obtain ⟨k, hk⟩ : (256 : ℤ) ∣ z - z.bmod 256 := by
    rw [Int.bmod_def]
    split <;> omega
  refine AddCommGroup.modEq_iff_zsmul.mpr ⟨k, ?_⟩
  have hq : (z : ℚ) - (z.bmod 256 : ℤ) = 256 * k := by exact_mod_cast hk
  rw [hq, zsmul_eq_mul, mul_comm]

theorem toInt_ofInt_of_mem {z : ℤ} (hl : -128 ≤ z) (hu : z ≤ 127) :
    (Int8.ofInt z).toInt = z := by
  rw [Int8.toInt_ofInt]
  exact bmod_of_mem hl hu

theorem toInt_add_of_mem {a b : Int8} (hl : -128 ≤ a.toInt + b.toInt)
    (hu : a.toInt + b.toInt ≤ 127) : (a + b).toInt = a.toInt + b.toInt := by
  rw [Int8.toInt_add]
  exact bmod_of_mem hl hu

theorem toInt_add_modEq (a b : Int8) :
    ((a + b).toInt : ℚ) ≡ a.toInt + b.toInt [PMOD 256] := by
  rw [Int8.toInt_add]
  exact_mod_cast bmod_modEq (a.toInt + b.toInt)

end Wrap

end TruncatedByte
