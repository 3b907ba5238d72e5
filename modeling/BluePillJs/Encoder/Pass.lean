import BluePillJs.Calibration.Machine
import BluePillJs.Encoder.Deframing

/-! One pass of `ems22a_thread`: which devices it reports as faulty, which headings it
hands to `transmit`, and how bits flipped on the wire show up in them. -/

namespace BluePill.Encoder
open BitWindow Ems22aFrame Calibration

def Ems22aFrame.faulty (f : Ems22aFrame) : Bool :=
  f.cordicOflow || f.linearityAlarm || f.magIncrease || f.magDecrease || f.parity

theorem value_lt (f : Ems22aFrame) : f.value < 1024 := (f.extractLsb' 6 10).isLt

theorem heading_mem (f : Ems22aFrame) :
    (-128 : ℚ) ≤ f.value / 4 - 128 ∧ (f.value : ℚ) / 4 - 128 ≤ 127.75 := by
  have hnonneg : (0 : ℚ) ≤ f.value := Nat.cast_nonneg _
  have hle : (f.value : ℚ) ≤ 1023 := by exact_mod_cast Nat.lt_succ_iff.mp (value_lt f)
  constructor <;> linarith

def Ems22aFrame.heading (f : Ems22aFrame) : Heading :=
  ⟨f.value / 4 - 128, (heading_mem f).1, (heading_mem f).2.trans (by norm_num)⟩

inductive PassEvent where
  | error (device : ℕ) (frame : Ems22aFrame)
  | transmit (device : ℕ) (hdg : Heading)

def passEvent (i : ℕ) (f : Ems22aFrame) : PassEvent :=
  if f.faulty then .error i f else .transmit i f.heading

def ems22aPass (wire frames : ℕ → Ems22aFrame) (chainLen : ℕ) : List PassEvent :=
  let rxbuf := ems22aReceive wire frames chainLen
  (List.range chainLen).map fun i => passEvent i (rxbuf i)

namespace PassEvent

def device? : PassEvent → Option ℕ
  | .error _ _ => none
  | .transmit i _ => some i

def heading? (i : ℕ) : PassEvent → Option Heading
  | .error _ _ => none
  | .transmit k hdg => if k = i then some hdg else none

end PassEvent

theorem passEvent_heading? (i : ℕ) (f : Ems22aFrame) :
    (passEvent i f).heading? i = if f.faulty then none else some f.heading := by
  unfold passEvent
  split_ifs with h
  · rfl
  · exact if_pos rfl

theorem passEvent_heading?_of_ne {i k : ℕ} (f : Ems22aFrame) (h : k ≠ i) :
    (passEvent k f).heading? i = none := by
  unfold passEvent
  split_ifs
  · rfl
  · exact if_neg h

theorem passEvent_device? {i k : ℕ} {f : Ems22aFrame} (h : (passEvent i f).device? = some k) :
    k = i := by
  unfold passEvent at h
  split_ifs at h
  · exact nomatch h
  · exact (Option.some.inj h).symm

theorem filterMap_range_single {α : Type*} {g : ℕ → Option α} {i n : ℕ} (hi : i < n)
    (hg : ∀ k, k ≠ i → g k = none) : (List.range n).filterMap g = (g i).toList := by
  induction n with
  | zero => exact absurd hi (Nat.not_lt_zero i)
  | succ n ih =>
    rw [List.range_succ, List.filterMap_append]
    rcases Nat.lt_succ_iff_lt_or_eq.mp hi with hlt | rfl
    · rw [ih hlt, List.filterMap_cons, hg n hlt.ne']
      exact List.append_nil _
    · have hnone : (List.range i).filterMap g = [] := by
        rw [List.filterMap_eq_nil_iff]
        intro k hk
        exact hg k (List.mem_range.mp hk).ne
      rw [hnone]
      cases h : g i <;> simp [h]

theorem ems22aPass_heading? (wire frames : ℕ → Ems22aFrame) {n i : ℕ} (hi : i < n) :
    (ems22aPass wire frames n).filterMap (PassEvent.heading? i) =
      if (checked (stitched wire i)).faulty then [] else [(checked (stitched wire i)).heading] := by
  have hone := filterMap_range_single (g := fun k =>
    (passEvent k (ems22aReceive wire frames n k)).heading? i) hi
    fun k hk => passEvent_heading?_of_ne _ hk
  rw [ems22aPass, List.filterMap_map]
  refine hone.trans ?_
  simp only [passEvent_heading?, ems22aReceive_eq wire frames hi]
  split_ifs <;> rfl

theorem ems22aPass_ordered (wire frames : ℕ → Ems22aFrame) (n : ℕ) :
    ((ems22aPass wire frames n).filterMap PassEvent.device?).Pairwise (· < ·) := by
  rw [ems22aPass, List.filterMap_map, List.pairwise_filterMap]
  refine List.pairwise_lt_range.imp ?_
  intro i j hij a ha b hb
  rw [passEvent_device? ha, passEvent_device? hb]
  exact hij

theorem heading_checked (f : Ems22aFrame) : (checked f).heading = f.heading := by
  have hvalue : (checked f).value = f.value :=
    congrArg BitVec.toNat (extractLsb'_checked f 10 (by omega))
  simp only [Ems22aFrame.heading, hvalue]

theorem faulty_checked_of_odd {f : Ems22aFrame} (h : ¬Even (ones f)) :
    (checked f).faulty = true := by
  have hparity : (checked f).parity = true := by
    by_contra hfalse
    exact h ((parity_checked f).mp (Bool.not_eq_true _ ▸ hfalse))
  rw [Ems22aFrame.faulty, hparity, Bool.or_true]

/-- What a healthy device sends: even parity, and no status bit raised. -/
structure Clean (f : Ems22aFrame) : Prop where
  even : Even (ones f)
  status : f.extractLsb' 1 4 = 0#4

theorem Clean.faulty_checked {f : Ems22aFrame} (h : Clean f) : (checked f).faulty = false := by
  have hstatus {k : ℕ} (hk : k < 4) : (checked f).getLsbD (1 + k) = false := by
    have hbit := congrArg (BitVec.getLsbD · k) h.status
    simp only [BitVec.getLsbD_extractLsb', hk, decide_true, Bool.true_and] at hbit
    rw [getLsbD_checked f (by omega), hbit]
    exact BitVec.getLsbD_zero
  rw [Ems22aFrame.faulty, (parity_checked f).mpr h.even, cordicOflow, linearityAlarm,
    magIncrease, magDecrease, hstatus (k := 3) (by omega), hstatus (k := 2) (by omega),
    hstatus (k := 1) (by omega), hstatus (k := 0) (by omega)]
  rfl

/-! ## Errors on the wire -/

structure CleanChain extends Chain where
  clean : ∀ i, Clean (toChain.word i)

def flipped (flips : ℕ → Bool) (i : ℕ) : ℕ :=
  (List.range 16).countP fun k => flips (17 * i + 1 + k)

def Chain.received (c : Chain) (flips : ℕ → Bool) : ℕ → Ems22aFrame :=
  spiWords fun k => xor (c.stream k) (flips k)

theorem Chain.stitched_received (c : Chain) (flips : ℕ → Bool) (i : Fin c.slots.length) :
    stitched (c.received flips) i = c.word i ^^^ window 16 flips (17 * i + 1) := by
  have hi : (i : ℕ) < 16 := lt_of_lt_of_le i.isLt c.slots_le
  rw [Chain.received, stitched_spiWords _ hi, window_xor, c.window_stream]

theorem window_eq_zero {flips : ℕ → Bool} {i : ℕ} (h : flipped flips i = 0) :
    window 16 flips (17 * i + 1) = 0#16 := by
  apply BitVec.eq_of_getLsbD_eq
  intro k hk
  rw [getLsbD_window flips _ hk, BitVec.getLsbD_zero]
  have hnone := List.countP_eq_zero.mp h (15 - k) (List.mem_range.mpr (by omega))
  exact Bool.not_eq_true _ ▸ hnone

theorem CleanChain.even_ones_iff (c : CleanChain) (flips : ℕ → Bool)
    (i : Fin c.slots.length) :
    Even (ones (stitched (c.received flips) i)) ↔ Even (flipped flips i) := by
  rw [c.stitched_received flips i, even_ones_xor, iff_true_left (c.clean i).even, ones_window]
  rfl

theorem ems22aPass_isolates (c : CleanChain) (flips : ℕ → Bool) (frames : ℕ → Ems22aFrame) :
    let pass := ems22aPass (c.received flips) frames c.slots.length
    (∀ i : Fin c.slots.length, Odd (flipped flips i) → pass.filterMap (PassEvent.heading? i) = []) ∧
    (∀ i : Fin c.slots.length, flipped flips i = 0 →
      ∃ hdg : Heading, pass.filterMap (PassEvent.heading? i) = [hdg] ∧
        (hdg : ℚ) = (c.word i).value / 4 - 128 ∧ -128 ≤ (hdg : ℚ) ∧ (hdg : ℚ) ≤ 127.75) ∧
    (pass.filterMap PassEvent.device?).Pairwise (· < ·) := by
  refine ⟨fun i hodd => ?_, fun i hzero => ?_, ems22aPass_ordered _ _ _⟩
  · rw [ems22aPass_heading? _ _ i.isLt, if_pos]
    apply faulty_checked_of_odd
    rw [c.even_ones_iff flips i, Nat.not_even_iff_odd]
    exact hodd
  · refine ⟨(c.word i).heading, ?_, rfl, heading_mem _⟩
    have hword : stitched (c.received flips) i = c.word i := by
      rw [c.stitched_received flips i, window_eq_zero hzero, BitVec.xor_zero]
    rw [ems22aPass_heading? _ _ i.isLt, hword, (c.clean i).faulty_checked, heading_checked,
      if_neg Bool.false_ne_true]

end BluePill.Encoder
