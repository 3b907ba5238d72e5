import BluePillJs.Axis.Mapping
import BluePillJs.Calibration.Sweep

/-! What `transmit` reports at the ends and at the centre of a completed calibration. -/

namespace BluePill.Axis
open CircleArc PartialRuns TruncatedByte Calibration

theorem report_centre (b : UInt8) : report 0 b = ⟨0, -128, -128, b⟩ := by
  have hx : toByte 0 = 0 := by decide +kernel
  have hy : toByte (limit (brakes 0).1) = -128 := by decide +kernel
  have hz : toByte (limit (brakes 0).2) = -128 := by decide +kernel
  rw [report, hx, hy, hz]

theorem report_low (b : UInt8) : report (-128) b = ⟨-128, 127, -128, b⟩ := by
  have hx : toByte (-128) = -128 := by decide +kernel
  have hy : toByte (limit (brakes (-128)).1) = 127 := by decide +kernel
  have hz : toByte (limit (brakes (-128)).2) = -128 := by decide +kernel
  rw [report, hx, hy, hz]

theorem report_high (b : UInt8) : report 127 b = ⟨127, -128, 127, b⟩ := by
  have hx : toByte 127 = 127 := by decide +kernel
  have hy : toByte (limit (brakes 127).1) = -128 := by decide +kernel
  have hz : toByte (limit (brakes 127).2) = 127 := by decide +kernel
  rw [report, hx, hy, hz]

theorem transmit_off {d : Device} (hd : d.calibrator.state = .off) (sw : Bool) (port : UInt16)
    (h : ℚ) : ∃ d', transmit sw port h d = some d' ∧
      d'.hidInData = report (calApply d.calibrator.calData h) (readButtons port) := by
  unfold transmit
  cases sw with
  | false =>
    rw [calibrate_idle hd]
    exact ⟨_, rfl, rfl⟩
  | true =>
    rw [calibrate_open hd]
    exact ⟨_, rfl, rfl⟩

theorem report_limit_low_iff (w : ℚ) (b : UInt8) : (report (limit w) b).x = -128 ↔ w ≤ -128 :=
  toByte_limit_eq_low_iff w

theorem report_limit_high_iff (w : ℚ) (b : UInt8) : (report (limit w) b).x = 127 ↔ 127 ≤ w :=
  toByte_limit_eq_high_iff w

section Scaled
variable {c u : ℚ} {cal : CalData}

theorem calApply_below (hc : Centred c cal) {h : Heading} (hu : (h : ℚ) ≡ u [PMOD 256])
    (hd : |u - c| < 128) (hlt : u < c) : calApply cal h = limit ((u - c) * cal.mNeg) := by
  rw [calApply, hc.normalise_eq h hu hd, if_pos (by linarith)]

theorem calApply_above (hc : Centred c cal) {h : Heading} (hu : (h : ℚ) ≡ u [PMOD 256])
    (hd : |u - c| < 128) (hle : c ≤ u) : calApply cal h = limit ((u - c) * cal.mPos) := by
  rw [calApply, hc.normalise_eq h hu hd, if_neg (by linarith)]

end Scaled

theorem neg_slope_le_iff {a c l : ℚ} (h : a < c) :
    (l - c) * (-128 / (a - c)) ≤ -128 ↔ l ≤ a := by
  have hac : a - c < 0 := by linarith
  rw [mul_div_assoc', div_le_iff_of_neg hac]
  constructor <;> intro hl <;> linarith

theorem le_pos_slope_iff {b c u : ℚ} (h : c < b) :
    127 ≤ (u - c) * (128 / (b - c)) ↔ 127 * (b - c) ≤ 128 * (u - c) := by
  have hcb : 0 < b - c := by linarith
  rw [mul_div_assoc', le_div_iff₀ hcb, mul_comm (u - c)]

end BluePill.Axis

namespace BluePill.Calibration.Sweep
open CircleArc PartialRuns TruncatedByte Axis

def Readings (w : Sweep) : Set ℤ := {x | ∃ f ∈ w.framed, x = reading f}

theorem mem_samples_of_framed (w : Sweep) {f : Sample × ℤ} (hf : f ∈ w.framed) :
    f.1 ∈ w.opening :: (w.recorded ++ [w.closing]) :=
  mem_cons_iff_framed.mpr ⟨f, hf, rfl⟩

theorem exists_framed (w : Sweep) {p : Sample}
    (hp : p ∈ w.opening :: (w.recorded ++ [w.closing])) : ∃ f ∈ w.framed, f.1 = p :=
  mem_cons_iff_framed.mp hp

theorem least_below_centre (w : Sweep) {lo : ℤ} (h : IsLeast w.Readings lo) :
    (lo : ℚ) < w.centre.unwrapped := by
  obtain ⟨f, hf, hp⟩ := w.exists_framed w.low_mem
  have hle : (lo : ℚ) ≤ reading f := by exact_mod_cast h.2 ⟨f, hf, rfl⟩
  have hr := (abs_lt.mp (abs_reading_sub_lt f)).2
  rw [hp] at hr
  linarith [w.low_below]

theorem centre_below_greatest (w : Sweep) {hi : ℤ} (h : IsGreatest w.Readings hi) :
    w.centre.unwrapped < (hi : ℚ) := by
  obtain ⟨f, hf, hp⟩ := w.exists_framed w.high_mem
  have hle : (reading f : ℚ) ≤ hi := by exact_mod_cast h.2 ⟨f, hf, rfl⟩
  have hr := (abs_lt.mp (abs_reading_sub_lt f)).1
  rw [hp] at hr
  linarith [w.high_above]

theorem isLeast_unframed {fs : List (Sample × ℤ)} {s a : ℤ}
    (h : IsLeast {x | ∃ f ∈ fs, x = reading f + s} a) :
    IsLeast {x | ∃ f ∈ fs, x = reading f} (a - s) := by
  obtain ⟨⟨f, hf, rfl⟩, hle⟩ := h
  refine ⟨⟨f, hf, by ring⟩, ?_⟩
  rintro x ⟨g, hg, rfl⟩
  have := hle ⟨g, hg, rfl⟩
  omega

theorem isGreatest_unframed {fs : List (Sample × ℤ)} {s a : ℤ}
    (h : IsGreatest {x | ∃ f ∈ fs, x = reading f + s} a) :
    IsGreatest {x | ∃ f ∈ fs, x = reading f} (a - s) := by
  obtain ⟨⟨f, hf, rfl⟩, hle⟩ := h
  refine ⟨⟨f, hf, by ring⟩, ?_⟩
  rintro x ⟨g, hg, rfl⟩
  have := hle ⟨g, hg, rfl⟩
  omega

theorem run_session (w : Sweep) {m : Calibrator} (hm : m.state = .off)
    (hcs : m.cs = ⟨0, 0, 0⟩) :
    ∃ lo hi m', IsLeast w.Readings lo ∧ IsGreatest w.Readings hi ∧
      calibrateRun w.session.calls m = some m' ∧ m'.state = .off ∧
      Centred w.centre.unwrapped m'.calData ∧
      m'.calData.mNeg = -128 / (lo - w.centre.unwrapped) ∧
      m'.calData.mPos = 128 / (hi - w.centre.unwrapped) := by
  obtain ⟨s, r, m₁, hrun, hs, htrack, hr, hnear⟩ := w.run_to_end hm hcs
  have hmem : w.centre ∈ w.opening :: (w.recorded ++ [w.closing, w.centre]) := by simp
  have hne : r.state ≠ .off := by rw [hr]; decide
  have hfit := hs.fits hnear w.spans hmem w.endSwitch
  have hleast := htrack.carried_least hne hfit
  have hgreatest := htrack.carried_greatest hne hfit
  have hvalue := (htrack.value_eq w.centre.heading).trans (hs.value_eq hnear)
  simp only [hs.carried_eq hnear] at hleast hgreatest
  have hlo := isLeast_unframed hleast
  have hhi := isGreatest_unframed hgreatest
  have hbelow := w.least_below_centre hlo
  have habove := w.centre_below_greatest hhi
  push_cast at hbelow habove
  have hmin : ((m₁.cs.carried w.centre.heading).min.toInt : ℚ) ≠
      adjusted m₁.cs.offset w.centre.heading := by
    rw [hvalue]
    exact ne_of_lt (by linarith)
  have hmax : ((m₁.cs.carried w.centre.heading).max.toInt : ℚ) ≠
      adjusted m₁.cs.offset w.centre.heading := by
    rw [hvalue]
    exact ne_of_gt (by linarith)
  refine ⟨_, _, _, hlo, hhi, hrun.trans
    (calibrate_ending (htrack.state.trans hr) w.endSwitch hmin hmax), rfl, ?_, ?_, ?_⟩
  · exact (centred_ending m₁.cs w.centre.heading _ _).of_modEq w.centre.modEq
  · simp only [hvalue]
    push_cast
    ring_nf
  · simp only [hvalue]
    push_cast
    ring_nf

structure FullDeflection (w : Sweep) (d : Device) : Prop where
  centre : ∀ (sw : Bool) (port : UInt16) (h : Heading), (h : ℚ) ≡ w.centre.unwrapped [PMOD 256] →
    ∃ d', transmit sw port h d = some d' ∧
      d'.hidInData.x = 0 ∧ d'.hidInData.y = -128 ∧ d'.hidInData.z = -128
  low : ∀ (sw : Bool) (port : UInt16) (h : Heading), (h : ℚ) ≡ w.low.unwrapped [PMOD 256] →
    ∃ d', transmit sw port h d = some d' ∧ d'.hidInData.x = -128 ∧ d'.hidInData.y = 127
  high : ∀ (sw : Bool) (port : UInt16) (h : Heading), (h : ℚ) ≡ w.high.unwrapped [PMOD 256] →
    ∃ d', transmit sw port h d = some d' ∧ d'.hidInData.x = 127 ∧ d'.hidInData.z = 127

/-- No sample read as a positive value rounds below the lowest heading, and none read as
a negative value rounds up past the highest by more than the clamp forgives. -/
structure RoundsInside (w : Sweep) : Prop where
  low : ∀ f ∈ w.framed, 0 < f.1.unwrapped + f.2 → w.low.unwrapped ≤ ⌊f.1.unwrapped⌋
  high : ∀ f ∈ w.framed, f.1.unwrapped + f.2 < 0 →
    127 * (⌈f.1.unwrapped⌉ - w.centre.unwrapped) ≤ 128 * (w.high.unwrapped - w.centre.unwrapped)

theorem low_le_least_iff (w : Sweep) {lo : ℤ} (h : IsLeast w.Readings lo) :
    w.low.unwrapped ≤ lo ↔
      ∀ f ∈ w.framed, 0 < f.1.unwrapped + f.2 → w.low.unwrapped ≤ ⌊f.1.unwrapped⌋ := by
  constructor
  · intro hle f hf hpos
    have hlo : (lo : ℚ) ≤ reading f := by exact_mod_cast h.2 ⟨f, hf, rfl⟩
    rw [reading_of_nonneg hpos.le] at hlo
    exact hle.trans hlo
  · intro hall
    obtain ⟨f, hf, rfl⟩ := h.1
    rcases lt_or_ge 0 (f.1.unwrapped + f.2) with hpos | hneg
    · rw [reading_of_nonneg hpos.le]
      exact hall f hf hpos
    · rw [reading_of_nonpos hneg]
      exact (w.low_le f.1 (w.mem_samples_of_framed hf)).trans (Int.le_ceil _)

theorem greatest_slope_iff (w : Sweep) {hi : ℤ} (h : IsGreatest w.Readings hi) :
    127 * (hi - w.centre.unwrapped) ≤ 128 * (w.high.unwrapped - w.centre.unwrapped) ↔
      ∀ f ∈ w.framed, f.1.unwrapped + f.2 < 0 →
        127 * (⌈f.1.unwrapped⌉ - w.centre.unwrapped) ≤
          128 * (w.high.unwrapped - w.centre.unwrapped) := by
  constructor
  · intro hle f hf hneg
    have hhi : (reading f : ℚ) ≤ hi := by exact_mod_cast h.2 ⟨f, hf, rfl⟩
    rw [reading_of_nonpos hneg.le] at hhi
    linarith
  · intro hall
    obtain ⟨f, hf, rfl⟩ := h.1
    rcases lt_or_ge (f.1.unwrapped + f.2) 0 with hneg | hpos
    · rw [reading_of_nonpos hneg.le]
      exact hall f hf hneg
    · rw [reading_of_nonneg hpos]
      have hf' := w.le_high f.1 (w.mem_samples_of_framed hf)
      linarith [Int.floor_le f.1.unwrapped, w.high_above]

section EndPoints
variable {w : Sweep} {d : Device} {lo hi : ℤ}

theorem reports_centre (hoff : d.calibrator.state = .off)
    (hc : Centred w.centre.unwrapped d.calibrator.calData) (sw : Bool) (port : UInt16)
    (h : Heading) (hh : (h : ℚ) ≡ w.centre.unwrapped [PMOD 256]) :
    ∃ d', transmit sw port h d = some d' ∧
      d'.hidInData.x = 0 ∧ d'.hidInData.y = -128 ∧ d'.hidInData.z = -128 := by
  obtain ⟨d', hd', hrep⟩ := transmit_off hoff sw port h
  have hzero : calApply d.calibrator.calData h = 0 := by
    rw [calApply_above hc hh (by simp) le_rfl, sub_self, zero_mul]
    exact limit_of_mem (by norm_num) (by norm_num)
  refine ⟨d', hd', ?_⟩
  rw [hrep, hzero, report_centre]
  exact ⟨rfl, rfl, rfl⟩

theorem reports_low_iff (hoff : d.calibrator.state = .off)
    (hc : Centred w.centre.unwrapped d.calibrator.calData)
    (hneg : d.calibrator.calData.mNeg = -128 / (lo - w.centre.unwrapped))
    (hlo : (lo : ℚ) < w.centre.unwrapped) :
    (∀ (sw : Bool) (port : UInt16) (h : Heading), (h : ℚ) ≡ w.low.unwrapped [PMOD 256] →
      ∃ d', transmit sw port h d = some d' ∧ d'.hidInData.x = -128 ∧ d'.hidInData.y = 127) ↔
    w.low.unwrapped ≤ lo := by
  have hlow : w.low.unwrapped < w.centre.unwrapped := by linarith [w.low_below]
  have hslope := neg_slope_le_iff (l := w.low.unwrapped) hlo
  rw [← hneg] at hslope
  constructor
  · intro hall
    obtain ⟨d', hd', hx, _⟩ := hall false 0 w.low.heading w.low.modEq
    obtain ⟨d'', hd'', hrep⟩ := transmit_off hoff false 0 w.low.heading
    obtain rfl := Option.some.inj (hd'.symm.trans hd'')
    rwa [hrep, calApply_below hc w.low.modEq (w.near_centre _ w.low_mem) hlow,
      report_limit_low_iff, hslope] at hx
  · intro hle sw port h hh
    obtain ⟨d', hd', hrep⟩ := transmit_off hoff sw port h
    have hfull : calApply d.calibrator.calData h = -128 := by
      rwa [calApply_below hc hh (w.near_centre _ w.low_mem) hlow, limit_eq_low_iff, hslope]
    refine ⟨d', hd', ?_⟩
    rw [hrep, hfull, report_low]
    exact ⟨rfl, rfl⟩

theorem reports_high_iff (hoff : d.calibrator.state = .off)
    (hc : Centred w.centre.unwrapped d.calibrator.calData)
    (hpos : d.calibrator.calData.mPos = 128 / (hi - w.centre.unwrapped))
    (hhi : w.centre.unwrapped < hi) :
    (∀ (sw : Bool) (port : UInt16) (h : Heading), (h : ℚ) ≡ w.high.unwrapped [PMOD 256] →
      ∃ d', transmit sw port h d = some d' ∧ d'.hidInData.x = 127 ∧ d'.hidInData.z = 127) ↔
    127 * (hi - w.centre.unwrapped) ≤ 128 * (w.high.unwrapped - w.centre.unwrapped) := by
  have hhigh : w.centre.unwrapped ≤ w.high.unwrapped := by linarith [w.high_above]
  -- the slope aims at `128` and `limit` clips at `127`, so a little excess is forgiven
  have hslope := le_pos_slope_iff (u := w.high.unwrapped) hhi
  rw [← hpos] at hslope
  constructor
  · intro hall
    obtain ⟨d', hd', hx, _⟩ := hall false 0 w.high.heading w.high.modEq
    obtain ⟨d'', hd'', hrep⟩ := transmit_off hoff false 0 w.high.heading
    obtain rfl := Option.some.inj (hd'.symm.trans hd'')
    rwa [hrep, calApply_above hc w.high.modEq (w.near_centre _ w.high_mem) hhigh,
      report_limit_high_iff, hslope] at hx
  · intro hle sw port h hh
    obtain ⟨d', hd', hrep⟩ := transmit_off hoff sw port h
    have hfull : calApply d.calibrator.calData h = 127 := by
      rwa [calApply_above hc hh (w.near_centre _ w.high_mem) hhigh, limit_eq_high_iff, hslope]
    refine ⟨d', hd', ?_⟩
    rw [hrep, hfull, report_high]
    exact ⟨rfl, rfl⟩

end EndPoints

/-- With the calibration of a sweep, the ends report full deflection and the centre zero
exactly when truncation rounds no reading outside the recorded range. -/
theorem deflection_iff_roundsInside (w : Sweep) (cal : CalData) (led : Bool) (d : Device) :
    ∃ m, calibrateRun w.session.calls ⟨.off, ⟨0, 0, 0⟩, cal, led⟩ = some m ∧
      (w.FullDeflection { d with calibrator := m } ↔ w.RoundsInside) := by
  obtain ⟨lo, hi, m, hlo, hhi, hrun, hoff, hc, hneg, hpos⟩ :=
    w.run_session (m := ⟨.off, ⟨0, 0, 0⟩, cal, led⟩) rfl rfl
  have hlow := (reports_low_iff (d := { d with calibrator := m }) hoff hc hneg
    (w.least_below_centre hlo)).trans (w.low_le_least_iff hlo)
  have hhigh := (reports_high_iff (d := { d with calibrator := m }) hoff hc hpos
    (w.centre_below_greatest hhi)).trans (w.greatest_slope_iff hhi)
  refine ⟨m, hrun, fun h => ⟨hlow.mp h.low, hhigh.mp h.high⟩, fun h => ?_⟩
  exact ⟨reports_centre hoff hc, hlow.mpr h.low, hhigh.mpr h.high⟩

def still (h : Heading) : Sample := ⟨h, h, AddCommGroup.modEq_rfl⟩

theorem toInt_ten : (10 : Int8).toInt = 10 := rfl

theorem toInt_twenty : (20 : Int8).toInt = 20 := rfl

/-- From `10` down to `7/2`, up to `20` and back: the lower end point is recorded as `3`. -/
def roundedSweep : Sweep where
  opening := still (.ofByte 10)
  recorded := [still ⟨7 / 2, by norm_num⟩, still (.ofByte 20)]
  closing := still (.ofByte 10)
  centre := still (.ofByte 10)
  endSwitch := false
  low := still ⟨7 / 2, by norm_num⟩
  high := still (.ofByte 20)
  opening_eq := rfl
  opening_clear := by norm_num [still, toInt_ten, toInt_twenty]
  slow := by norm_num [still, Near, toInt_ten, toInt_twenty]
  spans := by
    simp only [Spans, still, List.cons_append, List.nil_append, List.forall_mem_cons,
      List.not_mem_nil, false_imp_iff, implies_true]
    norm_num [toInt_ten, toInt_twenty]
  near_centre := by
    simp only [still, List.cons_append, List.nil_append, List.forall_mem_cons,
      List.not_mem_nil, false_imp_iff, implies_true]
    norm_num [toInt_ten, toInt_twenty]
  low_mem := by simp
  low_le := by
    simp only [still, List.cons_append, List.nil_append, List.forall_mem_cons,
      List.not_mem_nil, false_imp_iff, implies_true]
    norm_num [toInt_ten, toInt_twenty]
  low_below := by norm_num [still, toInt_ten, toInt_twenty]
  high_mem := by simp
  le_high := by
    simp only [still, List.cons_append, List.nil_append, List.forall_mem_cons,
      List.not_mem_nil, false_imp_iff, implies_true]
    norm_num [toInt_ten, toInt_twenty]
  high_above := by norm_num [still, toInt_ten, toInt_twenty]

theorem roundedSweep_misses_low :
    ∃ m, calibrateRun roundedSweep.session.calls Calibration.powerOn = some m ∧
      ¬ roundedSweep.FullDeflection { Axis.powerOn with calibrator := m } := by
  refine ⟨⟨.off, ⟨0, 0, 0⟩, ⟨-10, 128 / 7, 64 / 5⟩, true⟩, by decide +kernel, fun h => ?_⟩
  obtain ⟨d', hd', hx, _⟩ := h.low false 0 roundedSweep.low.heading roundedSweep.low.modEq
  have hval := congrArg (Option.map fun d : Device => d.hidInData.x) hd'
  rw [Option.map_some, hx] at hval
  revert hval
  decide +kernel

end BluePill.Calibration.Sweep
