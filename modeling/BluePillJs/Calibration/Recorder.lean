import BluePillJs.Calibration.Machine
import Mathlib.Order.Bounds.Image

/-! What a session is meant to remember: every truncated reading since its opening,
carried along by the quarter-turn shifts without wrapping. The machine keeps only the
two extremes, in bytes, and refines this recorder as long as the readings fit. -/

namespace BluePill.Calibration
open TruncatedByte

structure Recorder where
  state : JsState
  offset : Int8
  readings : Set ℤ

namespace Recorder

def initial : Recorder := ⟨.off, 0, ∅⟩

def turn (r : Recorder) (h : ℚ) : ℤ := seamShift (normalise h r.offset.toInt)

def value (r : Recorder) (h : ℚ) : ℚ := adjusted r.offset h

def carried (r : Recorder) (h : ℚ) : Set ℤ := (· + r.turn h) '' r.readings

def turned (r : Recorder) (h : ℚ) : Int8 := r.offset + Int8.ofInt (r.turn h)

def step (r : Recorder) (c : Call) : Recorder :=
  match r.state with
  | .off =>
    if c.jscalSwitch then ⟨.on, 0, {truncate (r.value c.heading)}⟩
    else ⟨.off, r.turned c.heading, ∅⟩
  | .on =>
    ⟨JsState.on.next c.jscalSwitch, r.turned c.heading,
      insert (truncate (r.value c.heading)) (r.carried c.heading)⟩
  | .ending => ⟨.off, 0, ∅⟩

def Fits (r : Recorder) (c : Call) : Prop :=
  ∀ x ∈ r.carried c.heading, -128 ≤ x ∧ x ≤ 127

def Straddles (r : Recorder) (c : Call) : Prop :=
  (∃ x ∈ r.carried c.heading, (x : ℚ) < r.value c.heading) ∧
    ∃ x ∈ r.carried c.heading, r.value c.heading < (x : ℚ)

end Recorder

structure Tracks (r : Recorder) (m : Calibrator) : Prop where
  state : m.state = r.state
  offset : m.cs.offset = r.offset
  least : r.state ≠ .off → IsLeast r.readings m.cs.min.toInt
  greatest : r.state ≠ .off → IsGreatest r.readings m.cs.max.toInt

theorem tracks_powerOn : Tracks Recorder.initial powerOn :=
  ⟨rfl, rfl, fun h => absurd rfl h, fun h => absurd rfl h⟩

theorem toInt_carried {a : Int8} {v : ℚ} (hl : -128 ≤ a.toInt + seamShift v)
    (hu : a.toInt + seamShift v ≤ 127) :
    (a + Int8.ofInt (seamShift v)).toInt = a.toInt + seamShift v := by
  rw [← toInt_ofInt_seamShift v] at hl hu
  rw [toInt_add_of_mem hl hu, toInt_ofInt_seamShift]

namespace Tracks
variable {r : Recorder} {m m' : Calibrator} {c : Call}

theorem turn_eq (h : Tracks r m) (val : ℚ) :
    seamShift (normalise val m.cs.offset.toInt) = r.turn val := by
  rw [h.offset]
  rfl

theorem value_eq (h : Tracks r m) (val : ℚ) : adjusted m.cs.offset val = r.value val := by
  rw [h.offset]
  rfl

theorem offset_eq (h : Tracks r m) (val : ℚ) : (m.cs.carried val).offset = r.turned val := by
  change m.cs.offset + Int8.ofInt (seamShift (normalise val m.cs.offset.toInt)) = _
  rw [h.offset]
  rfl

theorem toInt_turned (h : Tracks r m) {a : Int8} {val : ℚ}
    (hfit : -128 ≤ a.toInt + r.turn val ∧ a.toInt + r.turn val ≤ 127) :
    (a + Int8.ofInt (seamShift (normalise val m.cs.offset.toInt))).toInt =
      a.toInt + r.turn val := by
  rw [← h.turn_eq] at hfit ⊢
  exact toInt_carried hfit.1 hfit.2

theorem carried_least (h : Tracks r m) (hs : r.state ≠ .off) (hfit : r.Fits c) :
    IsLeast (r.carried c.heading) (m.cs.carried c.heading).min.toInt := by
  have hleast := h.least hs
  have hcarry : (m.cs.carried c.heading).min.toInt = m.cs.min.toInt + r.turn c.heading :=
    h.toInt_turned (hfit _ (Set.mem_image_of_mem _ hleast.1))
  rw [hcarry]
  exact Monotone.map_isLeast (fun _ _ hxy => by simpa using hxy) hleast

theorem carried_greatest (h : Tracks r m) (hs : r.state ≠ .off) (hfit : r.Fits c) :
    IsGreatest (r.carried c.heading) (m.cs.carried c.heading).max.toInt := by
  have hgreatest := h.greatest hs
  have hcarry : (m.cs.carried c.heading).max.toInt = m.cs.max.toInt + r.turn c.heading :=
    h.toInt_turned (hfit _ (Set.mem_image_of_mem _ hgreatest.1))
  rw [hcarry]
  exact Monotone.map_isGreatest (fun _ _ hxy => by simpa using hxy) hgreatest

theorem value_abs_le (r : Recorder) (h : Heading) : |r.value h| ≤ 96 :=
  adjusted_abs_le (heading_abs_le h) r.offset

/-- The machine follows the recorder through every call that carries bytes to bytes. -/
theorem step (h : Tracks r m) (hfit : r.state ≠ .off → r.Fits c)
    (hstep : calibrateCall c m = some m') : Tracks (r.step c) m' := by
  have hv := value_abs_le r c.heading
  unfold calibrateCall at hstep
  unfold Recorder.step
  cases hr : r.state with
  | off =>
    have hm : m.state = .off := h.state.trans hr
    cases hw : c.jscalSwitch with
    | false =>
      rw [hw, calibrate_idle hm] at hstep
      obtain rfl := Option.some.inj hstep
      exact ⟨hm, h.offset_eq c.heading, fun hn => absurd rfl hn, fun hn => absurd rfl hn⟩
    | true =>
      rw [hw, calibrate_open hm, h.value_eq] at hstep
      obtain rfl := Option.some.inj hstep
      refine ⟨rfl, rfl, fun _ => ?_, fun _ => ?_⟩
      · simp only [↓reduceIte, toInt_toByte hv]
        exact isLeast_singleton
      · simp only [↓reduceIte, toInt_toByte hv]
        exact isGreatest_singleton
  | on =>
    have hs : r.state ≠ .off := by rw [hr]; decide
    have hm : m.state = .on := h.state.trans hr
    rw [calibrate_on hm, h.value_eq] at hstep
    obtain rfl := Option.some.inj hstep
    refine ⟨?_, h.offset_eq c.heading, fun _ => ?_, fun _ => ?_⟩
    · cases c.jscalSwitch <;> rfl
    · simp only [record_min hv]
      rw [min_comm]
      exact (h.carried_least hs (hfit hs)).insert _
    · simp only [record_max hv]
      rw [max_comm]
      exact (h.carried_greatest hs (hfit hs)).insert _
  | ending =>
    have hm : m.state = .ending := h.state.trans hr
    obtain ⟨hmin, hmax⟩ := calibrate_ending_some hm hstep
    rw [calibrate_ending hm _ hmin hmax] at hstep
    obtain rfl := Option.some.inj hstep
    exact ⟨rfl, rfl, fun hn => absurd rfl hn, fun hn => absurd rfl hn⟩

theorem inside_iff_straddles (h : Tracks r m) (hs : r.state ≠ .off) (hfit : r.Fits c) :
    ((m.cs.carried c.heading).min.toInt : ℚ) < adjusted m.cs.offset c.heading ∧
      adjusted m.cs.offset c.heading < (m.cs.carried c.heading).max.toInt ↔ r.Straddles c := by
  have hleast := h.carried_least hs hfit
  have hgreatest := h.carried_greatest hs hfit
  rw [h.value_eq]
  constructor
  · rintro ⟨hmin, hmax⟩
    exact ⟨⟨_, hleast.1, hmin⟩, ⟨_, hgreatest.1, hmax⟩⟩
  · rintro ⟨⟨x, hx, hxv⟩, y, hy, hvy⟩
    have hxq : ((m.cs.carried c.heading).min.toInt : ℚ) ≤ x := by exact_mod_cast hleast.2 hx
    have hyq : (y : ℚ) ≤ (m.cs.carried c.heading).max.toInt := by exact_mod_cast hgreatest.2 hy
    exact ⟨hxq.trans_lt hxv, hvy.trans_le hyq⟩

end Tracks

end BluePill.Calibration
