import BluePillJs.Library.BitWindow

/-! The EMS22A frame layout, its parity check, and the in-place conversion of the
received 17-bit chain into 16-bit frames. -/

namespace BluePill.Encoder
open BitWindow

abbrev Ems22aFrame : Type := BitVec 16

namespace Ems22aFrame

def parity (f : Ems22aFrame) : Bool := f.getLsbD 0
def magDecrease (f : Ems22aFrame) : Bool := f.getLsbD 1
def magIncrease (f : Ems22aFrame) : Bool := f.getLsbD 2
def linearityAlarm (f : Ems22aFrame) : Bool := f.getLsbD 3
def cordicOflow (f : Ems22aFrame) : Bool := f.getLsbD 4
def endOffstComp (f : Ems22aFrame) : Bool := f.getLsbD 5
def value (f : Ems22aFrame) : ℕ := (f.extractLsb' 6 10).toNat

def setParity (f : Ems22aFrame) (p : UInt8) : Ems22aFrame :=
  -- the bit-field keeps the low bit of what is assigned to it
  if p % 2 = 1 then f ||| 1#16 else f &&& ~~~1#16

end Ems22aFrame

open Ems22aFrame

def ems22aCheckParity (f : Ems22aFrame) : UInt8 :=
  let pctr := (List.range' 1 15).foldl
    (fun pctr i => if f &&& (1#16 <<< i) ≠ 0#16 then pctr + 1 else pctr) 0
  if pctr % 2 = f.parity.toNat then 0 else 1

/-- One pass of the conversion loop. A shift by the word width or more leaves nothing. -/
def convertStep (frames : ℕ → Ems22aFrame) (i : ℕ) : ℕ → Ems22aFrame :=
  -- only keep the bits which move to the previous frame
  let tmp := frames i >>> (16 - i)
  let frames := Function.update frames i (frames i <<< (i + 1))
  if i > 0 then
    let frames := Function.update frames (i - 1) (frames (i - 1) + tmp)
    Function.update frames (i - 1)
      ((frames (i - 1)).setParity (ems22aCheckParity (frames (i - 1))))
  else frames

def spiReceive (wire frames : ℕ → Ems22aFrame) (count : ℕ) : ℕ → Ems22aFrame :=
  fun i => if i < count then wire i else frames i

def ems22aReceive (wire frames : ℕ → Ems22aFrame) (frameCount : ℕ) : ℕ → Ems22aFrame :=
  (List.range (frameCount + 1)).foldl convertStep (spiReceive wire frames (frameCount + 1))

theorem and_bit_ne_zero_iff (f : Ems22aFrame) {i : ℕ} (h : i < 16) :
    f &&& (1#16 <<< i) ≠ 0#16 ↔ f.getLsbD i = true := by
  constructor
  · intro hne
    by_contra hbit
    apply hne
    apply BitVec.eq_of_getLsbD_eq
    intro k hk
    rw [BitVec.getLsbD_and, BitVec.getLsbD_shiftLeft]
    rcases eq_or_ne k i with rfl | hki
    · simp [hbit]
    · rcases lt_or_gt_of_ne hki with hlt | hgt
      · simp [hlt]
      · have : k - i ≠ 0 := by omega
        simp [this]
  · intro hbit hzero
    have hk : (f &&& (1#16 <<< i)).getLsbD i = (0#16).getLsbD i := by rw [hzero]
    rw [BitVec.getLsbD_and, BitVec.getLsbD_shiftLeft, hbit, BitVec.getLsbD_zero, Nat.sub_self]
      at hk
    simp [h] at hk

theorem foldl_count (p : ℕ → Prop) [DecidablePred p] (l : List ℕ) (n : ℕ) :
    l.foldl (fun pctr i => if p i then pctr + 1 else pctr) n = n + l.countP (p ·) := by
  induction l generalizing n with
  | nil => rfl
  | cons a l ih =>
    rw [List.foldl_cons, ih, List.countP_cons]
    by_cases ha : p a
    · simp only [ha, ↓reduceIte, decide_true]
      omega
    · simp only [ha, ↓reduceIte, decide_false, Bool.false_eq_true, add_zero]

theorem ones_eq (f : Ems22aFrame) :
    ones f = (List.range' 1 15).countP f.getLsbD + f.parity.toNat := by
  have hrange : List.range 16 = 0 :: List.range' 1 15 := rfl
  rw [ones, hrange, List.countP_cons, parity]
  cases f.getLsbD 0 <;> rfl

theorem ems22aCheckParity_eq (f : Ems22aFrame) :
    ems22aCheckParity f = if Even (ones f) then 0 else 1 := by
  have hcount : (List.range' 1 15).countP (fun i => decide (f &&& (1#16 <<< i) ≠ 0#16)) =
      (List.range' 1 15).countP f.getLsbD := by
    apply List.countP_congr
    intro i hi
    rw [decide_eq_true_iff]
    exact and_bit_ne_zero_iff f (by simp at hi; omega)
  have hiff : (List.range' 1 15).countP f.getLsbD % 2 = f.parity.toNat ↔ Even (ones f) := by
    rw [ones_eq, Nat.even_iff]
    have := f.parity.toNat_lt
    omega
  rw [ems22aCheckParity, foldl_count, zero_add, hcount]
  exact if_congr hiff rfl rfl

theorem getLsbD_one (k : ℕ) : (1#16).getLsbD k = decide (k = 0) := by
  rw [BitVec.getLsbD_one]
  simp

theorem getLsbD_setParity_of_pos (f : Ems22aFrame) (p : UInt8) {k : ℕ} (h : 0 < k) :
    (f.setParity p).getLsbD k = f.getLsbD k := by
  have hone : (1#16).getLsbD k = false := by
    rw [getLsbD_one]
    exact decide_eq_false h.ne'
  unfold setParity
  split_ifs
  · rw [BitVec.getLsbD_or, hone, Bool.or_false]
  · rw [BitVec.getLsbD_and, BitVec.getLsbD_not, hone]
    rcases lt_or_ge k 16 with hk | hk
    · simp [hk]
    · simp [BitVec.getLsbD_of_ge f k hk]

theorem parity_setParity (f : Ems22aFrame) (p : UInt8) :
    (f.setParity p).parity = decide (p % 2 = 1) := by
  unfold setParity parity
  split_ifs with h <;> simp [h]

def checked (f : Ems22aFrame) : Ems22aFrame := f.setParity (ems22aCheckParity f)

theorem getLsbD_checked (f : Ems22aFrame) {k : ℕ} (h : 0 < k) :
    (checked f).getLsbD k = f.getLsbD k := getLsbD_setParity_of_pos f _ h

theorem parity_checked (f : Ems22aFrame) : (checked f).parity = false ↔ Even (ones f) := by
  rw [checked, parity_setParity, ems22aCheckParity_eq]
  split_ifs with h
  · exact ⟨fun _ => h, fun _ => rfl⟩
  · exact ⟨fun hp => absurd hp (by decide), fun he => absurd he h⟩

def stitched (frames : ℕ → Ems22aFrame) (j : ℕ) : Ems22aFrame :=
  (frames j <<< (j + 1)) + (frames (j + 1) >>> (16 - (j + 1)))

theorem convertStep_zero (frames : ℕ → Ems22aFrame) :
    convertStep frames 0 = Function.update frames 0 (frames 0 <<< 1) := rfl

theorem convertStep_succ (frames : ℕ → Ems22aFrame) (i j : ℕ) :
    convertStep frames (i + 1) j =
      if j = i then checked (frames i + (frames (i + 1) >>> (16 - (i + 1))))
      else if j = i + 1 then frames (i + 1) <<< (i + 2) else frames j := by
  have hne : i ≠ i + 1 := by omega
  simp only [convertStep, gt_iff_lt, Nat.zero_lt_succ, ↓reduceIte, Nat.add_sub_cancel,
    Function.update_self, Function.update_of_ne hne, checked]
  rcases eq_or_ne j i with rfl | hji
  · rw [Function.update_self, if_pos rfl]
  · rw [Function.update_of_ne hji, Function.update_of_ne hji, if_neg hji]
    rcases eq_or_ne j (i + 1) with rfl | hjs
    · rw [Function.update_self, if_pos rfl]
    · rw [Function.update_of_ne hjs, if_neg hjs]

/-- After `n` passes every earlier frame is final, and the latest is only shifted. -/
theorem convert_range (frames : ℕ → Ems22aFrame) (n j : ℕ) :
    (List.range n).foldl convertStep frames j =
      if j + 1 < n then checked (stitched frames j)
      else if j < n then frames j <<< (j + 1) else frames j := by
  induction n generalizing j with
  | zero => simp
  | succ n ih =>
    rw [List.range_succ, List.foldl_append, List.foldl_cons, List.foldl_nil]
    cases n with
    | zero =>
      rw [List.range_zero, List.foldl_nil, convertStep_zero]
      rcases eq_or_ne j 0 with rfl | hj
      · rw [Function.update_self]
        rfl
      · rw [Function.update_of_ne hj, if_neg (by omega), if_neg (by omega)]
    | succ i =>
      have hprev : (List.range (i + 1)).foldl convertStep frames i = frames i <<< (i + 1) := by
        rw [ih, if_neg (by omega), if_pos (by omega)]
      have hnext : (List.range (i + 1)).foldl convertStep frames (i + 1) = frames (i + 1) := by
        rw [ih, if_neg (by omega), if_neg (by omega)]
      rw [convertStep_succ, hprev, hnext]
      rcases eq_or_ne j i with rfl | hji
      · rw [if_pos rfl, if_pos (by omega)]
        rfl
      rcases eq_or_ne j (i + 1) with rfl | hjs
      · rw [if_neg hji, if_pos rfl, if_neg (by omega), if_pos (by omega)]
      · rw [if_neg hji, if_neg hjs, ih]
        -- neither the last frame nor the one before it: the two bounds agree
        rcases lt_or_gt_of_ne hji with hlt | hgt
        · rw [if_pos (by omega), if_pos (by omega)]
        · rw [if_neg (by omega), if_neg (by omega), if_neg (by omega), if_neg (by omega)]

theorem ems22aReceive_eq (wire frames : ℕ → Ems22aFrame) {n i : ℕ} (h : i < n) :
    ems22aReceive wire frames n i = checked (stitched wire i) := by
  rw [ems22aReceive, convert_range, if_pos (by omega)]
  unfold stitched spiReceive
  rw [if_pos (by omega), if_pos (by omega)]

end BluePill.Encoder
