import BluePillJs.Axis.Mapping
import Mathlib.Data.List.Induction

/-! The thread that stands in for a sensor: it drives the axis and both brakes through their
whole range, again and again. -/

namespace BluePill.Sensor
open Axis Calibration PartialRuns TruncatedByte

structure Dummy where
  hdg : Int8
  add : Int8

def Dummy.start : Dummy := ⟨0, 1⟩

def Dummy.next (t : Dummy) : Dummy :=
  let add := if t.hdg = 127 then -1 else t.add
  let add := if t.hdg = -128 then 1 else add
  ⟨t.hdg + add, add⟩

structure DummyInput where
  jscalSwitch : Bool
  port : UInt16

def dummyStep (e : DummyInput) (w : Dummy × Device) :
    Option (List (Int8 × Int8) × Dummy × Device) :=
  let t := w.1.next
  (transmit e.jscalSwitch e.port t.hdg.toInt w.2).map fun d => ([(t.hdg, t.add)], t, d)

def phase (n : ℕ) : ℕ :=
  -- a period begins at the lower end
  (n + 128) % 510

def wave (n : ℕ) : ℤ := min ((phase n : ℤ) - 128) (382 - phase n)

def brakeAxis (travel : ℤ) : ℤ := min 127 (8 * max 0 travel - 128)

theorem phase_lt (n : ℕ) : phase n < 510 := Nat.mod_lt _ (by decide)

theorem phase_succ (n : ℕ) : phase (n + 1) = if phase n = 509 then 0 else phase n + 1 := by
  unfold phase
  split_ifs <;> omega

theorem wave_mem (n : ℕ) : -128 ≤ wave n ∧ wave n ≤ 127 := by
  have hlt := phase_lt n
  unfold wave
  omega

theorem wave_succ (n : ℕ) : wave (n + 1) - wave n =
    if 1 ≤ phase (n + 1) ∧ phase (n + 1) ≤ 255 then 1 else -1 := by
  have hlt := phase_lt n
  unfold wave
  rw [phase_succ]
  split_ifs <;> omega

structure OnWave (n : ℕ) (t : Dummy) : Prop where
  hdg : t.hdg.toInt = wave n
  add : t.add.toInt = if 1 ≤ phase n ∧ phase n ≤ 255 then 1 else -1

theorem onWave_start : OnWave 0 .start := ⟨by decide, by decide⟩

/-- The thread turns round where the wave does, and its byte does not overflow. -/
theorem onWave_next {n : ℕ} {t : Dummy} (h : OnWave n t) : OnWave (n + 1) t.next := by
  have hlt := phase_lt n
  have hmem := wave_mem (n + 1)
  have hstep := wave_succ n
  have hhigh : t.hdg = 127 ↔ phase n = 255 := by
    rw [← Int8.toInt_inj, h.hdg, show (127 : Int8).toInt = 127 from rfl, wave]
    omega
  have hlow : t.hdg = -128 ↔ phase n = 0 := by
    rw [← Int8.toInt_inj, h.hdg, show (-128 : Int8).toInt = -128 from rfl, wave]
    omega
  have hadd : t.next.add.toInt = wave (n + 1) - wave n := by
    have hone : (1 : Int8).toInt = 1 := rfl
    have hneg : (-1 : Int8).toInt = -1 := rfl
    have hkeep := h.add
    rw [hstep, phase_succ]
    unfold Dummy.next
    dsimp only
    simp only [hhigh, hlow]
    split_ifs at hkeep ⊢ <;> omega
  have hsum : t.hdg.toInt + t.next.add.toInt = wave (n + 1) := by
    rw [h.hdg, hadd]
    ring
  refine ⟨?_, hadd.trans hstep⟩
  have hnext : t.next.hdg = t.hdg + t.next.add := rfl
  rw [hnext, toInt_add_of_mem (by omega) (by omega), hsum]

theorem limit_intCast {z : ℤ} (h : -128 ≤ z) : limit (z : ℚ) = (min 127 z : ℤ) := by
  have hlow : ¬(z : ℚ) < -128 := by
    rw [not_lt]
    exact_mod_cast h
  unfold limit
  rw [if_neg hlow]
  split_ifs with hhigh
  · have hz : (127 : ℤ) < z := by exact_mod_cast hhigh
    rw [min_eq_left hz.le]
    rfl
  · have hz : z ≤ 127 := by exact_mod_cast not_lt.mp hhigh
    rw [min_eq_right hz]

theorem brakes_intCast (h : ℤ) : brakes (h : ℚ) =
    (((8 * max 0 (-96 - h) - 128 : ℤ) : ℚ), ((8 * max 0 (h - 95) - 128 : ℤ) : ℚ)) := by
  unfold brakes jsBrakeRatio jsBrakepointPos jsBrakepointNeg jsBrakepoint jsMax jsMin
  split_ifs with hneg hpos
  · have hn : h < -96 := by
      have hq : (h : ℚ) < -96 := by linarith
      exact_mod_cast hq
    rw [max_eq_right (by omega), max_eq_left (by omega)]
    push_cast
    refine Prod.ext ?_ ?_ <;> ring
  · have hp : 95 < h := by
      have hq : (95 : ℚ) < h := by linarith
      exact_mod_cast hq
    rw [max_eq_left (by omega), max_eq_right (by omega)]
    push_cast
    refine Prod.ext ?_ ?_ <;> ring
  · have hn : -96 ≤ h := by
      have hq : (-96 : ℚ) ≤ h := by linarith [not_lt.mp hneg]
      exact_mod_cast hq
    have hp : h ≤ 95 := by
      have hq : (h : ℚ) ≤ 95 := by linarith [not_lt.mp hpos]
      exact_mod_cast hq
    rw [max_eq_left (by omega), max_eq_left (by omega)]
    norm_num

/-- The joystick stands where the heading `h` puts it without a calibration. -/
structure Uncalibrated (h : ℤ) (r : HidData) : Prop where
  x : r.x.toInt = h
  y : r.y.toInt = brakeAxis (-96 - h)
  z : r.z.toInt = brakeAxis (h - 95)

theorem uncalibrated_report {h : ℤ} (hl : -128 ≤ h) (hu : h ≤ 127) (b : UInt8) :
    Uncalibrated h (report (h : ℚ) b) := by
  have hlq : (-128 : ℚ) ≤ h := by exact_mod_cast hl
  have huq : (h : ℚ) ≤ 127 := by exact_mod_cast hu
  obtain ⟨hx, hy, hz⟩ := (exactReport_report hlq huq b).converted
  rw [brakes_intCast] at hy hz
  refine ⟨?_, ?_, ?_⟩
  · rw [hx, truncate_intCast]
  · rw [hy, limit_intCast (by omega), truncate_intCast]
    rfl
  · rw [hz, limit_intCast (by omega), truncate_intCast]
    rfl

theorem calApply_uncalibrated {h : ℤ} (hl : -128 ≤ h) (hu : h ≤ 127) :
    calApply ⟨0, 1, 1⟩ (h : ℚ) = h := by
  have hlq : (-128 : ℚ) ≤ h := by exact_mod_cast hl
  have huq : (h : ℚ) ≤ 127 := by exact_mod_cast hu
  have hnormal : normalise (h : ℚ) 0 = h := by
    have hlow : ¬(h : ℚ) < -128 := not_lt.mpr hlq
    have hhigh : ¬(h : ℚ) > 128 := not_lt.mpr (by linarith)
    simp only [normalise, add_zero, if_neg hlow, if_neg hhigh]
  unfold calApply
  dsimp only
  rw [hnormal, mul_one, ite_self, limit_of_mem hlq huq]

structure Driven (n : ℕ) (w : Dummy × Device) : Prop where
  onWave : OnWave n w.1
  state : w.2.calibrator.state = .off
  calData : w.2.calibrator.calData = ⟨0, 1, 1⟩
  report : 0 < n → Uncalibrated (wave n) w.2.hidInData

theorem driven_step {n : ℕ} {w : Dummy × Device} {e : DummyInput} (he : e.jscalSwitch = false)
    (hw : Driven n w) : ∃ w' printed, dummyStep e w = some ([printed], w') ∧ Driven (n + 1) w' := by
  obtain ⟨t, d⟩ := w
  have hnext := onWave_next hw.onWave
  have hcal : d.calibrator.calData = ⟨0, 1, 1⟩ := hw.calData
  have hstep : dummyStep e (t, d) = some ([(t.next.hdg, t.next.add)], t.next, { d with
      calibrator := { d.calibrator with cs := d.calibrator.cs.carried t.next.hdg.toInt }
      hidInData := report (calApply d.calibrator.calData t.next.hdg.toInt)
        (readButtons e.port) }) := by
    rw [dummyStep, he, transmit_idle e.port hw.state]
    rfl
  obtain ⟨hl, hu⟩ := wave_mem (n + 1)
  refine ⟨_, _, hstep, hnext, hw.state, hw.calData, fun _ => ?_⟩
  rw [hcal, hnext.hdg, calApply_uncalibrated hl hu]
  exact uncalibrated_report hl hu _

theorem onWave_iterate (n : ℕ) : OnWave n (Dummy.next^[n] .start) := by
  induction n with
  | zero => exact onWave_start
  | succ n ih =>
    rw [Function.iterate_succ_apply']
    exact onWave_next ih

theorem dummyStep_printed {e : DummyInput} {w w' : Dummy × Device} {printed : List (Int8 × Int8)}
    (h : dummyStep e w = some (printed, w')) :
    printed = [(w.1.next.hdg, w.1.next.add)] ∧ w'.1 = w.1.next := by
  obtain ⟨d, _, heq⟩ := Option.map_eq_some_iff.mp h
  obtain ⟨rfl, rfl⟩ := Prod.mk.inj heq
  exact ⟨rfl, rfl⟩

theorem trace_printed (es : List DummyInput) {d : Device} {printed : List (Int8 × Int8)}
    {w : Dummy × Device} (hrun : trace dummyStep es (.start, d) = some (printed, w)) :
    w.1 = Dummy.next^[es.length] .start ∧ printed = (List.range es.length).map fun n =>
      ((Dummy.next^[n + 1] .start).hdg, (Dummy.next^[n + 1] .start).add) := by
  induction es using List.reverseRecOn generalizing printed w with
  | nil =>
    obtain ⟨rfl, rfl⟩ := Prod.mk.inj (Option.some.inj hrun)
    exact ⟨rfl, rfl⟩
  | append_singleton es e ih =>
    obtain ⟨ps, v, qs, hbefore, hlast, rfl⟩ := trace_append_eq_some hrun
    rw [trace_singleton] at hlast
    obtain ⟨hv, rfl⟩ := ih hbefore
    obtain ⟨rfl, hw⟩ := dummyStep_printed hlast
    have hnext : v.1.next = Dummy.next^[es.length + 1] .start := by
      rw [hv, Function.iterate_succ_apply']
    rw [List.length_append, List.length_singleton, List.range_succ, List.map_append]
    exact ⟨hw.trans hnext, by rw [hnext, List.map_singleton]⟩

theorem idle_driven (es : List DummyInput) (hes : ∀ e ∈ es, e.jscalSwitch = false) :
    ∃ printed w, trace dummyStep es (.start, powerOn) = some (printed, w) ∧ Driven es.length w := by
  induction es using List.reverseRecOn with
  | nil => exact ⟨[], _, rfl, onWave_start, rfl, rfl, fun h => absurd h (lt_irrefl 0)⟩
  | append_singleton es e ih =>
    rw [List.forall_mem_append] at hes
    obtain ⟨printed, w, hrun, hw⟩ := ih hes.1
    obtain ⟨w', p, hstep, hw'⟩ := driven_step (hes.2 e (List.mem_singleton_self e)) hw
    refine ⟨printed ++ [p], w', ?_, ?_⟩
    · rw [trace_append, hrun, Option.bind_some, trace_singleton, hstep]
      rfl
    · rw [List.length_append]
      exact hw'

/-- The two variables of the thread are on the wave at every turn, and so is every line of a
run, whatever the switch does. Without a calibration the joystick is on the wave too. -/
theorem dummy_drives_wave (es : List DummyInput) :
    (∀ n, (Dummy.next^[n] .start).hdg.toInt = wave n ∧
      (Dummy.next^[n + 1] .start).add.toInt = wave (n + 1) - wave n) ∧
    (∀ printed w, trace dummyStep es (.start, powerOn) = some (printed, w) →
      w.1 = Dummy.next^[es.length] .start ∧ printed.map (Prod.map Int8.toInt Int8.toInt) =
        (List.range es.length).map fun n => (wave (n + 1), wave (n + 1) - wave n)) ∧
    ((∀ e ∈ es, e.jscalSwitch = false) →
      ∃ printed w, trace dummyStep es (.start, powerOn) = some (printed, w) ∧
        (es ≠ [] → Uncalibrated (wave es.length) w.2.hidInData)) := by
  have hwave (n : ℕ) : (Dummy.next^[n] .start).hdg.toInt = wave n ∧
      (Dummy.next^[n + 1] .start).add.toInt = wave (n + 1) - wave n := by
    refine ⟨(onWave_iterate n).hdg, ?_⟩
    rw [(onWave_iterate (n + 1)).add, wave_succ]
  refine ⟨hwave, fun printed w hrun => ?_, fun hes => ?_⟩
  · obtain ⟨hthread, hprinted⟩ := trace_printed es hrun
    refine ⟨hthread, ?_⟩
    rw [hprinted, List.map_map]
    apply List.map_congr_left
    intro n _
    exact Prod.ext (hwave (n + 1)).1 (hwave n).2
  · obtain ⟨printed, w, hrun, hw⟩ := idle_driven es hes
    exact ⟨printed, w, hrun, fun hne => hw.report (List.length_pos_iff.mpr hne)⟩

theorem dummy_drives_wave_turning : ∃ printed w,
    trace dummyStep (List.replicate 130 ⟨false, 0xFFFF⟩) (.start, powerOn) = some (printed, w) ∧
      (printed.map (Prod.map Int8.toInt Int8.toInt)).drop 125 =
        [(126, 1), (127, 1), (126, -1), (125, -1), (124, -1)] ∧
      w.2.hidInData.x.toInt = 124 ∧ w.2.hidInData.y.toInt = -128 ∧
      w.2.hidInData.z.toInt = 104 := by
  obtain ⟨_, hprinted, hidle⟩ := dummy_drives_wave (List.replicate 130 ⟨false, 0xFFFF⟩)
  have hoff : ∀ e ∈ List.replicate 130 (⟨false, 0xFFFF⟩ : DummyInput), e.jscalSwitch = false := by
    intro e he
    rw [List.eq_of_mem_replicate he]
  obtain ⟨printed, w, hrun, hreport⟩ := hidle hoff
  have hwave : wave (List.replicate 130 (⟨false, 0xFFFF⟩ : DummyInput)).length = 124 := by
    rw [List.length_replicate]
    decide
  rw [hwave] at hreport
  obtain ⟨hx, hy, hz⟩ := hreport (by simp)
  refine ⟨printed, w, hrun, ?_, hx, hy, hz⟩
  rw [(hprinted printed w hrun).2, List.length_replicate]
  decide +kernel

end BluePill.Sensor
