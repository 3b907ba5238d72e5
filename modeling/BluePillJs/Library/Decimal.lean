import Mathlib.Data.Nat.Digits.Lemmas

/-! Decimal numerals of natural numbers, padded with zeros on the left, and their values. -/

namespace Decimal

def digits (n : ℕ) : List ℕ := if n = 0 then [0] else (Nat.digits 10 n).reverse

def numeral (n : ℕ) : List Char := (digits n).map Nat.digitChar

def padded (width n : ℕ) : List Char := (numeral n).leftpad width '0'

def digit (c : Char) : ℕ := c.toNat - 48

def value (s : List Char) : ℕ := Nat.ofDigits 10 (s.map digit).reverse

def IsDigit (c : Char) : Prop := 48 ≤ c.toNat ∧ c.toNat ≤ 57

variable {width n d : ℕ} {c : Char}

theorem isDigit_digitChar (h : d < 10) : IsDigit d.digitChar := by
  have hall : ∀ k < 10, IsDigit (Nat.digitChar k) := by
    unfold IsDigit
    decide
  exact hall d h

theorem digit_digitChar (h : d < 10) : digit d.digitChar = d := by
  have hall : ∀ k < 10, digit (Nat.digitChar k) = k := by decide
  exact hall d h

theorem digits_lt (h : d ∈ digits n) : d < 10 := by
  unfold digits at h
  split_ifs at h
  · rw [List.mem_singleton.mp h]
    decide
  · exact Nat.digits_lt_base (by decide) (List.mem_reverse.mp h)

theorem isDigit_of_mem_numeral (h : c ∈ numeral n) : IsDigit c := by
  obtain ⟨d, hd, rfl⟩ := List.mem_map.mp h
  exact isDigit_digitChar (digits_lt hd)

theorem isDigit_of_mem_padded (h : c ∈ padded width n) : IsDigit c := by
  rw [padded, List.leftpad] at h
  rcases List.mem_append.mp h with hzero | hnumeral
  · rw [List.eq_of_mem_replicate hzero]
    exact ⟨by decide, by decide⟩
  · exact isDigit_of_mem_numeral hnumeral

theorem ofDigits_reverse_digits (n : ℕ) : Nat.ofDigits 10 (digits n).reverse = n := by
  unfold digits
  split_ifs with h
  · rw [h]
    rfl
  · rw [List.reverse_reverse, Nat.ofDigits_digits]

theorem map_digit_numeral (n : ℕ) : (numeral n).map digit = digits n := by
  rw [numeral, List.map_map]
  have hid : ∀ d ∈ digits n, (digit ∘ Nat.digitChar) d = id d := by
    intro d hd
    exact digit_digitChar (digits_lt hd)
  rw [List.map_congr_left hid, List.map_id]

theorem value_padded (width n : ℕ) : value (padded width n) = n := by
  have hzero : digit '0' = 0 := rfl
  rw [value, padded, List.leftpad, List.map_append, List.map_replicate, hzero,
    map_digit_numeral, List.reverse_append, List.reverse_replicate,
    Nat.ofDigits_append_replicate_zero, ofDigits_reverse_digits]

theorem value_numeral (n : ℕ) : value (numeral n) = n := by
  have hpadded : padded 0 n = numeral n := by
    rw [padded, List.leftpad, Nat.zero_sub]
    rfl
  rw [← hpadded, value_padded]

theorem numeral_ne_nil (n : ℕ) : numeral n ≠ [] := by
  unfold numeral digits
  split_ifs with h
  · exact List.cons_ne_nil _ _
  · simpa [Nat.digits_ne_nil_iff_ne_zero] using h

theorem length_numeral_le (hwidth : 0 < width) (h : n < 10 ^ width) : (numeral n).length ≤ width := by
  rw [numeral, List.length_map]
  unfold digits
  split_ifs
  · exact hwidth
  · rw [List.length_reverse]
    exact (Nat.digits_length_le_iff (by decide) n).mpr h

theorem length_padded (hwidth : 0 < width) (h : n < 10 ^ width) : (padded width n).length = width := by
  rw [padded, List.length_leftpad, max_eq_left (length_numeral_le hwidth h)]

end Decimal
