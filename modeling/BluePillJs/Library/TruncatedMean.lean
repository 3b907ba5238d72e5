import Mathlib.Algebra.Order.Group.Int
import Mathlib.Algebra.Order.Group.Abs
import Mathlib.Data.List.MinMax
import Mathlib.Logic.Function.Iterate
import Mathlib.Tactic.Linarith
import Mathlib.Tactic.Ring

/-! A running mean of integers with truncating division. A step lands between the state
and the sample; under a constant sample the state stops at the edge of a dead band that
lies on the side of zero. -/

theorem Function.iterate_eq_of_measure {α : Type*} {f r : α → α} {m : α → ℕ}
    (hrest : ∀ a, m a = 0 → r a = a) (hkeep : ∀ a, r (f a) = r a)
    (hless : ∀ a, m (f a) ≤ m a - 1) {a : α} {n : ℕ} (hn : m a ≤ n) : f^[n] a = r a := by
  induction n generalizing a with
  | zero => exact (hrest a (Nat.le_zero.mp hn)).symm
  | succ n ih =>
    have hstep := hless a
    rw [Function.iterate_succ_apply, ih (by omega), hkeep]

theorem List.foldr_min_le_base {α : Type*} [LinearOrder α] (as : List α) (b : α) :
    as.foldr min b ≤ b := by
  induction as with
  | nil => exact le_rfl
  | cons a as ih => exact (min_le_right _ _).trans ih

theorem List.base_le_foldr_max {α : Type*} [LinearOrder α] (as : List α) (b : α) :
    b ≤ as.foldr max b := by
  induction as with
  | nil => exact le_rfl
  | cons a as ih => exact ih.trans (le_max_right _ _)

namespace TruncatedMean
variable {k b d m x : ℤ}

theorem tdiv_le_of_le_mul (hk : 0 ≤ k) (h : x ≤ m * (k + 1)) : x.tdiv (k + 1) ≤ m :=
  (Int.tdiv_le_tdiv (by omega) h).trans_eq (Int.mul_tdiv_cancel m (by omega))

theorem le_tdiv_of_mul_le (hk : 0 ≤ k) (h : m * (k + 1) ≤ x) : m ≤ x.tdiv (k + 1) :=
  Int.le_tdiv_of_mul_le (by omega) h

theorem tdiv_le_of_lt_mul (hk : 0 ≤ k) (hm : 0 ≤ m) (h : x < (m + 1) * (k + 1)) :
    x.tdiv (k + 1) ≤ m := by
  rcases le_total 0 x with hx | hx
  · rw [Int.tdiv_eq_ediv_of_nonneg hx]
    exact Int.lt_add_one_iff.mp (Int.ediv_lt_of_lt_mul (by omega) h)
  · exact tdiv_le_of_le_mul hk (hx.trans (mul_nonneg hm (by omega)))

theorem le_tdiv_of_mul_lt (hk : 0 ≤ k) (hm : m ≤ 0) (h : (m - 1) * (k + 1) < x) :
    m ≤ x.tdiv (k + 1) := by
  have hneg := tdiv_le_of_lt_mul (x := -x) (m := -m) hk (by omega) (by linarith)
  rw [Int.neg_tdiv] at hneg
  omega

def mean (k b d : ℤ) : ℤ := (b * k + d).tdiv (k + 1)

theorem mean_neg (k b d : ℤ) : mean k (-b) (-d) = -mean k b d := by
  rw [mean, mean, ← Int.neg_tdiv]
  congr 1
  ring

theorem mean_mem (hk : 0 ≤ k) (b d : ℤ) : min b d ≤ mean k b d ∧ mean k b d ≤ max b d := by
  constructor
  · apply le_tdiv_of_mul_le hk
    have hb := mul_le_mul_of_nonneg_right (min_le_left b d) hk
    linarith [min_le_right b d]
  · apply tdiv_le_of_le_mul hk
    have hb := mul_le_mul_of_nonneg_right (le_max_left b d) hk
    linarith [le_max_right b d]

theorem foldl_mean_mem (hk : 0 ≤ k) {lo hi : ℤ} {ds : List ℤ} (hb : lo ≤ b ∧ b ≤ hi)
    (hds : ∀ d ∈ ds, lo ≤ d ∧ d ≤ hi) :
    lo ≤ ds.foldl (mean k) b ∧ ds.foldl (mean k) b ≤ hi := by
  induction ds generalizing b with
  | nil => exact hb
  | cons d ds ih =>
    have hd := hds d List.mem_cons_self
    have hmean := mean_mem hk b d
    refine ih ⟨?_, ?_⟩ fun d hmem => hds d (List.mem_cons_of_mem _ hmem)
    · exact (le_min hb.1 hd.1).trans hmean.1
    · exact hmean.2.trans (max_le hb.2 hd.2)

theorem foldl_mean_mem_extremes (hk : 0 ≤ k) (b : ℤ) (ds : List ℤ) :
    ds.foldr min b ≤ ds.foldl (mean k) b ∧ ds.foldl (mean k) b ≤ ds.foldr max b := by
  have hbase : ds.foldr min b ≤ b ∧ b ≤ ds.foldr max b :=
    ⟨ds.foldr_min_le_base b, ds.base_le_foldr_max b⟩
  apply foldl_mean_mem hk hbase
  intro d hd
  exact ⟨List.min_le_of_le' b hd le_rfl, List.le_max_of_le' b hd le_rfl⟩

theorem abs_mean_sub_le (hk : 0 ≤ k) (b d : ℤ) : |mean k b d - d| ≤ |b - d| := by
  obtain ⟨hl, hu⟩ := mean_mem hk b d
  rcases le_total b d with h | h
  · rw [min_eq_left h] at hl
    rw [max_eq_right h] at hu
    rw [abs_of_nonpos (by omega), abs_of_nonpos (by omega)]
    omega
  · rw [min_eq_right h] at hl
    rw [max_eq_left h] at hu
    rw [abs_of_nonneg (by omega), abs_of_nonneg (by omega)]
    omega

def low (k d : ℤ) : ℤ := min d (max 0 (d - k))

def high (k d : ℤ) : ℤ := max d (min 0 (d + k))

/-- Where the state comes to rest. -/
def rest (k d b : ℤ) : ℤ := max (low k d) (min (high k d) b)

theorem low_neg (k d : ℤ) : low k (-d) = -high k d := by
  rw [low, high]
  omega

theorem low_le_high (hk : 0 ≤ k) (d : ℤ) : low k d ≤ high k d := by
  rw [low, high]
  omega

theorem mean_of_lt_low (hk : 0 ≤ k) (h : b < low k d) : b < mean k b d ∧ mean k b d ≤ low k d := by
  rw [low] at h ⊢
  have hbd : b < d := by omega
  constructor
  · rcases (by omega : b < 0 ∨ b + k < d) with hneg | hfar
    · exact Int.add_one_le_iff.mp (le_tdiv_of_mul_lt hk (by omega) (by linarith))
    · exact Int.add_one_le_iff.mp (le_tdiv_of_mul_le hk (by linarith))
  · refine le_min ((mean_mem hk b d).2.trans_eq (max_eq_right hbd.le)) ?_
    rcases le_total 0 (d - k) with hd | hd
    · rw [max_eq_right hd]
      have hmul : b * k ≤ (d - k - 1) * k := mul_le_mul_of_nonneg_right (by omega) hk
      exact tdiv_le_of_le_mul hk (by linarith)
    · rw [max_eq_left hd]
      have hmul : b * k ≤ -1 * k := mul_le_mul_of_nonneg_right (by omega) hk
      exact tdiv_le_of_lt_mul hk le_rfl (by linarith)

theorem mean_of_high_lt (hk : 0 ≤ k) (h : high k d < b) :
    high k d ≤ mean k b d ∧ mean k b d < b := by
  have hlow : -b < low k (-d) := by
    rw [low_neg]
    omega
  obtain ⟨hl, hu⟩ := mean_of_lt_low hk hlow
  rw [mean_neg] at hl hu
  rw [low_neg] at hu
  omega

theorem mean_of_mem (hk : 0 ≤ k) (hl : low k d ≤ b) (hu : b ≤ high k d) : mean k b d = b := by
  rw [low] at hl
  rw [high] at hu
  rcases le_total 0 d with hd | hd
  · apply le_antisymm
    · exact tdiv_le_of_lt_mul hk (by omega) (by linarith [(by omega : d - k ≤ b)])
    · exact le_tdiv_of_mul_le hk (by linarith [(by omega : b ≤ d)])
  · apply le_antisymm
    · exact tdiv_le_of_le_mul hk (by linarith [(by omega : d ≤ b)])
    · exact le_tdiv_of_mul_lt hk (by omega) (by linarith [(by omega : b ≤ d + k)])

theorem mean_eq_iff (hk : 0 ≤ k) : mean k b d = b ↔ low k d ≤ b ∧ b ≤ high k d := by
  constructor
  · intro h
    refine ⟨not_lt.mp fun hl => ?_, not_lt.mp fun hu => ?_⟩
    · exact (mean_of_lt_low hk hl).1.ne' h
    · exact (mean_of_high_lt hk hu).2.ne h
  · rintro ⟨hl, hu⟩
    exact mean_of_mem hk hl hu

theorem rest_mean (hk : 0 ≤ k) (b d : ℤ) : rest k d (mean k b d) = rest k d b := by
  have hband := low_le_high hk d
  unfold rest
  rcases lt_or_ge b (low k d) with hl | hl
  · have h := mean_of_lt_low hk hl
    omega
  · rcases lt_or_ge (high k d) b with hu | hu
    · have h := mean_of_high_lt hk hu
      omega
    · rw [mean_of_mem hk hl hu]

theorem distance_mean (hk : 0 ≤ k) (b d : ℤ) :
    (mean k b d - rest k d (mean k b d)).natAbs ≤ (b - rest k d b).natAbs - 1 := by
  have hband := low_le_high hk d
  rw [rest_mean hk]
  unfold rest
  rcases lt_or_ge b (low k d) with hl | hl
  · have h := mean_of_lt_low hk hl
    omega
  · rcases lt_or_ge (high k d) b with hu | hu
    · have h := mean_of_high_lt hk hu
      omega
    · rw [mean_of_mem hk hl hu]
      omega

/-- Under a constant sample the state comes to rest at its nearest point of the band. -/
theorem iterate_mean (hk : 0 ≤ k) {n : ℕ} (hn : (b - rest k d b).natAbs ≤ n) :
    (fun b => mean k b d)^[n] b = rest k d b := by
  have harrived : ∀ a, (a - rest k d a).natAbs = 0 → rest k d a = a := by
    intro a ha
    exact (sub_eq_zero.mp (Int.natAbs_eq_zero.mp ha)).symm
  apply Function.iterate_eq_of_measure (m := fun b => (b - rest k d b).natAbs) harrived
  · intro a
    exact rest_mean hk a d
  · intro a
    exact distance_mean hk a d
  · exact hn

theorem abs_rest_sub_le (hk : 0 ≤ k) (d b : ℤ) : |rest k d b - d| ≤ k := by
  rw [rest, low, high, abs_le]
  omega

theorem abs_rest_sub_rest_le (hk : 0 ≤ k) (d b b' : ℤ) : |rest k d b - rest k d b'| ≤ k := by
  rw [rest, rest, low, high, abs_le]
  omega

end TruncatedMean
