import Mathlib.Algebra.Order.Ring.Int
import Mathlib.Data.List.Basic

/-! Cells that are written in address order and may stop at any of them, and a comparison
of byte strings that stops at the terminator. -/

namespace FlashCells
variable {α : Type*}

/-- The cells after the first `k` values of the payload were programmed. -/
def program (payload : List α) (k : ℕ) (cells : ℕ → α) : ℕ → α :=
  fun i => ((payload.take k)[i]?).getD (cells i)

def readCells (cells : ℕ → α) (len : ℕ) : List α := (List.range len).map cells

theorem length_readCells (cells : ℕ → α) (len : ℕ) : (readCells cells len).length = len := by
  rw [readCells, List.length_map, List.length_range]

theorem program_of_le {payload : List α} {k i : ℕ} (cells : ℕ → α) (h : k ≤ i) :
    program payload k cells i = cells i := by
  have hnone : (payload.take k)[i]? = none := by
    rw [List.getElem?_eq_none_iff]
    exact (List.length_take_le k payload).trans h
  rw [program, hnone, Option.getD_none]

theorem program_of_lt {payload : List α} {k i : ℕ} (cells : ℕ → α) (hk : i < k)
    (hi : i < payload.length) : program payload k cells i = payload[i] := by
  have hsome : (payload.take k)[i]? = some payload[i] := by
    rw [List.getElem?_take_of_lt hk, List.getElem?_eq_getElem hi]
  rw [program, hsome, Option.getD_some]

theorem program_zero (payload : List α) (k : ℕ) (cells : ℕ → α) :
    program payload k cells 0 = cells 0 ∨ some (program payload k cells 0) = payload[0]? := by
  cases k with
  | zero => exact .inl (program_of_le cells le_rfl)
  | succ k =>
    cases payload with
    | nil => exact .inl rfl
    | cons a l => exact .inr rfl

theorem readCells_program {payload : List α} {k : ℕ} (cells : ℕ → α) (h : payload.length ≤ k) :
    readCells (program payload k cells) payload.length = payload := by
  apply List.ext_getElem (length_readCells _ _)
  intro i hi hi'
  simp only [readCells, List.getElem_map, List.getElem_range]
  exact program_of_lt cells (hi'.trans_le h) hi'

theorem readCells_program_blank (payload : List α) (k n : ℕ) (blank : α)
    (h : payload.length ≤ n) : readCells (program payload k fun _ => blank) n =
      payload.take k ++ List.replicate (n - (payload.take k).length) blank := by
  have hle : (payload.take k).length ≤ n := (List.length_take_le' k payload).trans h
  apply List.ext_getElem
  · rw [length_readCells, List.length_append, List.length_replicate]
    omega
  · intro i hi hi'
    simp only [readCells, List.getElem_map, List.getElem_range, program]
    rcases lt_or_ge i (payload.take k).length with hlt | hge
    · rw [List.getElem_append_left hlt, List.getElem?_eq_getElem hlt, Option.getD_some]
    · rw [List.getElem_append_right hge, List.getElem?_eq_none_iff.mpr hge, Option.getD_none,
        List.getElem_replicate]

theorem complete_of_last_ne {payload : List α} {k n : ℕ} {cells : ℕ → α}
    (hn : payload.length = n + 1) (h : program payload k cells n ≠ cells n) :
    payload.length ≤ k := by
  by_contra hk
  exact h (program_of_le cells (by omega))

section
variable {old new : List α} {k j a n : ℕ}

/-- Of `j` copied cells the first `k` are old ones. -/
def torn (old new : List α) (k j : ℕ) : List α := old.take k ++ (new.take j).drop k

theorem torn_self (payload : List α) (h : k ≤ j) : torn payload payload k j = payload.take j := by
  have hsplit := List.take_append_drop k (payload.take j)
  rw [List.take_take, Nat.min_eq_left h] at hsplit
  exact hsplit

theorem torn_fresh (old new : List α) (j : ℕ) : torn old new j j = old.take j := by
  rw [torn, List.drop_of_length_le (List.length_take_le j new), List.append_nil]

theorem torn_succ (h : k ≤ j) (hj : j < new.length) :
    torn old new k (j + 1) = torn old new k j ++ [new[j]] := by
  have hlen : k ≤ (new.take j).length := by
    rw [List.length_take, Nat.min_eq_left hj.le]
    exact h
  rw [torn, torn, List.take_succ_eq_append_getElem hj, List.drop_append_of_le_length hlen,
    List.append_assoc]

theorem getElem?_torn (hk : k ≤ old.length) (hj : new.length ≤ j) (i : ℕ) :
    (torn old new k j)[i]? = if i < k then old[i]? else new[i]? := by
  have hlen : (old.take k).length = k := List.length_take_of_le hk
  rw [torn, List.take_of_length_le hj]
  split_ifs with hi
  · rw [List.getElem?_append_left (hlen.symm ▸ hi), List.getElem?_take_of_lt hi]
  · rw [List.getElem?_append_right (hlen.symm ▸ Nat.le_of_not_lt hi), hlen, List.getElem?_drop,
      Nat.add_sub_cancel' (Nat.le_of_not_lt hi)]

theorem getElem?_slice (l : List α) (a n i : ℕ) :
    ((l.drop a).take n)[i]? = if i < n then l[a + i]? else none := by
  rw [List.getElem?_take, List.getElem?_drop]

theorem slice_torn_old (hk : k ≤ old.length) (hj : new.length ≤ j) (h : a + n ≤ k) :
    ((torn old new k j).drop a).take n = (old.drop a).take n := by
  apply List.ext_getElem?
  intro i
  rw [getElem?_slice, getElem?_slice]
  split_ifs with hi
  · rw [getElem?_torn hk hj, if_pos (by omega)]
  · rfl

theorem slice_torn_new (hk : k ≤ old.length) (hj : new.length ≤ j) (h : k ≤ a) :
    ((torn old new k j).drop a).take n = (new.drop a).take n := by
  apply List.ext_getElem?
  intro i
  rw [getElem?_slice, getElem?_slice]
  split_ifs with hi
  · rw [getElem?_torn hk hj, if_neg (by omega)]
  · rfl

theorem slice_torn_agree (hk : k ≤ old.length) (hj : new.length ≤ j)
    (h : (old.drop a).take n = (new.drop a).take n) :
    ((torn old new k j).drop a).take n = (new.drop a).take n := by
  apply List.ext_getElem?
  intro i
  have hi : ((old.drop a).take n)[i]? = ((new.drop a).take n)[i]? := congrArg (·[i]?) h
  rw [getElem?_slice, getElem?_slice] at hi
  rw [getElem?_slice, getElem?_slice]
  split_ifs at hi ⊢ with hn
  · rw [getElem?_torn hk hj, hi, ite_self]
  · rfl

end

def strncmp : (n : ℕ) → List UInt8 → List UInt8 → ℤ
  | n + 1, a :: as, b :: bs =>
    -- nothing is compared behind a terminator
    if a ≠ b then a.toNat - b.toNat else if a = 0 then 0 else strncmp n as bs
  | _, _, _ => 0

theorem strncmp_self (n : ℕ) (a : List UInt8) : strncmp n a a = 0 := by
  induction n generalizing a with
  | zero => rfl
  | succ n ih =>
    cases a with
    | nil => rfl
    | cons x as =>
      rw [strncmp, if_neg (not_not.mpr rfl), ih]
      exact ite_self 0

theorem strncmp_eq_zero_iff {n : ℕ} {a b : List UInt8} (ha : a.length = n + 1)
    (hb : b.length = n) (hpos : 0 ∉ b) :
    strncmp (n + 1) a (b ++ [0]) = 0 ↔ a = b ++ [0] := by
  constructor
  · intro h
    induction n generalizing a b with
    | zero =>
      obtain ⟨x, rfl⟩ := List.length_eq_one_iff.mp ha
      rw [List.length_eq_zero_iff.mp hb] at h ⊢
      rw [List.nil_append, strncmp] at h
      by_contra hne
      have hx : x ≠ 0 := fun hx => hne (by rw [hx, List.nil_append])
      rw [if_pos hx] at h
      have : x.toNat = 0 := by simpa using h
      exact hx (UInt8.toNat_inj.mp this)
    | succ n ih =>
      obtain ⟨x, as, rfl⟩ := List.exists_cons_of_length_eq_add_one ha
      obtain ⟨y, bs, rfl⟩ := List.exists_cons_of_length_eq_add_one hb
      rw [List.mem_cons, not_or] at hpos
      rw [List.cons_append, strncmp] at h
      by_cases hxy : x = y
      · subst hxy
        rw [if_neg (not_not.mpr rfl), if_neg (Ne.symm hpos.1)] at h
        rw [ih (Nat.succ.inj ha) (Nat.succ.inj hb) hpos.2 h, List.cons_append]
      · rw [if_pos hxy] at h
        have : x.toNat = y.toNat := by omega
        exact absurd (UInt8.toNat_inj.mp this) hxy
  · rintro rfl
    exact strncmp_self _ _

end FlashCells
