import Mathlib.Algebra.Group.Nat.Even
import Mathlib.Data.BitVec
import Mathlib.Data.List.GetD

/-! Words cut out of a bit stream, most significant bit first, and the parity of the
number of their one bits. -/

namespace BitWindow

def window : (w : ℕ) → (ℕ → Bool) → ℕ → BitVec w
  | 0, _, _ => 0#0
  | w + 1, s, p => BitVec.cons (s p) (window w s (p + 1))

theorem getLsbD_window {w i : ℕ} (s : ℕ → Bool) (p : ℕ) (h : i < w) :
    (window w s p).getLsbD i = s (p + (w - 1 - i)) := by
  induction w generalizing p with
  | zero => omega
  | succ w ih =>
    rw [window, BitVec.getLsbD_cons]
    split_ifs with hi
    · rw [hi, Nat.add_sub_cancel, Nat.sub_self, Nat.add_zero]
    · rw [ih (p + 1) (by omega)]
      congr 1
      omega

theorem window_xor (w : ℕ) (s t : ℕ → Bool) (p : ℕ) :
    window w (fun k => xor (s k) (t k)) p = window w s p ^^^ window w t p := by
  apply BitVec.eq_of_getLsbD_eq
  intro i hi
  rw [BitVec.getLsbD_xor, getLsbD_window _ p hi, getLsbD_window _ p hi, getLsbD_window _ p hi]

/-- Shifting a word left and filling in from the next word moves the window. -/
theorem window_stitch {w k : ℕ} (s : ℕ → Bool) (p : ℕ) (hk : k ≤ w) :
    (window w s p <<< k) + (window w s (p + w) >>> (w - k)) = window w s (p + k) := by
  have hdisj : (window w s p <<< k) &&& (window w s (p + w) >>> (w - k)) = 0#w := by
    apply BitVec.eq_of_getLsbD_eq
    intro i hi
    rw [BitVec.getLsbD_and, BitVec.getLsbD_shiftLeft, BitVec.getLsbD_ushiftRight]
    rcases lt_or_ge i k with hik | hik
    · simp [hik]
    · rw [BitVec.getLsbD_of_ge _ (w - k + i) (by omega)]
      simp
  rw [BitVec.add_eq_or_of_and_eq_zero _ _ hdisj]
  apply BitVec.eq_of_getLsbD_eq
  intro i hi
  rw [BitVec.getLsbD_or, BitVec.getLsbD_shiftLeft, BitVec.getLsbD_ushiftRight,
    getLsbD_window _ _ hi]
  rcases lt_or_ge i k with hik | hik
  · rw [getLsbD_window s (p + w) (by omega)]
    simp only [hik, decide_true, Bool.not_true, Bool.and_false, Bool.false_and, Bool.false_or]
    congr 1
    omega
  · rw [getLsbD_window s p (by omega), BitVec.getLsbD_of_ge _ (w - k + i) (by omega)]
    simp only [hi, not_lt.mpr hik, decide_true, decide_false, Bool.not_false, Bool.true_and,
      Bool.or_false]
    congr 1
    omega

theorem getD_flatMap {α : Type*} {f : α → List Bool} {m : ℕ} (hf : ∀ a, (f a).length = m)
    {l : List α} {i : Fin l.length} {k : ℕ} (hk : k < m) :
    (l.flatMap f).getD (m * i + k) false = (f (l.get i)).getD k false := by
  obtain ⟨i, hi⟩ := i
  induction l generalizing i with
  | nil => exact absurd hi (Nat.not_lt_zero i)
  | cons a l ih =>
    rw [List.flatMap_cons]
    cases i with
    | zero =>
      rw [List.getD_append _ _ _ _ (by rw [hf]; simpa using hk), mul_zero, zero_add]
      rfl
    | succ i =>
      rw [List.getD_append_right _ _ _ _ (by rw [hf]; simp only; rw [mul_add]; omega), hf]
      have hpos : m * (i + 1) + k - m = m * i + k := by
        rw [mul_add]
        omega
      simp only [hpos]
      exact ih i (Nat.lt_of_succ_lt_succ hi)

def ones {w : ℕ} (v : BitVec w) : ℕ := (List.range w).countP v.getLsbD

theorem ones_window (w : ℕ) (s : ℕ → Bool) (p : ℕ) :
    ones (window w s p) = (List.range w).countP fun k => s (p + k) := by
  have hreverse : (List.range w).reverse = (List.range w).map fun k => w - 1 - k := by
    conv_lhs => rw [List.range_eq_range', List.reverse_range', zero_add]
  rw [← List.countP_reverse (l := List.range w) (p := fun k => s (p + k)), hreverse,
    List.countP_map]
  apply List.countP_congr
  intro i hi
  rw [getLsbD_window s p (List.mem_range.mp hi)]
  rfl

theorem countP_xor (p q : ℕ → Bool) (l : List ℕ) :
    Even (l.countP fun i => xor (p i) (q i)) ↔ (Even (l.countP p) ↔ Even (l.countP q)) := by
  induction l with
  | nil => simp
  | cons a l ih =>
    simp only [List.countP_cons]
    cases p a <;> cases q a <;>
      simp only [Bool.xor_false, Bool.xor_true, Bool.not_false, Bool.not_true, Bool.false_eq_true,
        ↓reduceIte, add_zero, Nat.even_add_one, ih] <;> tauto

theorem even_ones_xor {w : ℕ} (a b : BitVec w) :
    Even (ones (a ^^^ b)) ↔ (Even (ones a) ↔ Even (ones b)) := by
  have hcount : ones (a ^^^ b) =
      (List.range w).countP fun i => xor (a.getLsbD i) (b.getLsbD i) :=
    congrArg (List.countP · (List.range w)) (funext fun _ => BitVec.getLsbD_xor)
  rw [hcount]
  exact countP_xor a.getLsbD b.getLsbD _

end BitWindow
