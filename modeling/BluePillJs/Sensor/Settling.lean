import BluePillJs.Axis.Transmit
import BluePillJs.Sensor.Heading
import BluePillJs.Sensor.Lsm303

/-! A magnetometer thread with the joystick behind it: a field that stands still leaves the
axes standing still. -/

namespace BluePill.Sensor
open Axis Calibration PartialRuns TruncatedMean

structure TurnInput where
  reply : Reply
  jscalSwitch : Bool
  port : UInt16

structure Joystick where
  thread : Thread
  device : Device

def handOver (m : Libm) (e : TurnInput) : Output → Device → Option Device
  | .transmit x y, d => transmit e.jscalSwitch e.port (m.heading x y) d
  -- the other outputs go to the bus and the console
  | _, d => some d

def joystickStep (m : Libm) (s : Chip) (e : TurnInput) (w : Joystick) : Option Joystick :=
  (threadStep s e.reply w.thread).bind fun (outputs, thread) =>
    (run (handOver m e) outputs w.device).map fun device => ⟨thread, device⟩

/-- The field stands at `d`: a read delivers it or fails, and nobody calibrates. -/
structure Still (d : Sample) (e : TurnInput) : Prop where
  sample : e.reply.res = .ok → e.reply.sample = d
  switch : e.jscalSwitch = false

/-- The state after `n` turns of a field that stands at `d`, which the thread has read. -/
structure Held (d : Sample) (x y : Int16) (cal : CalData) (n : ℕ) (w : Joystick) : Prop where
  pending : w.thread.pending = []
  exited : w.thread.exited = false
  data : w.thread.data = some d
  x : w.thread.x = (fun b => filterStep b d.x)^[n] x
  y : w.thread.y = (fun b => filterStep b d.y)^[n] y
  state : w.device.calibrator.state = .off
  calData : w.device.calibrator.calData = cal

variable {m : Libm} {s : Chip} {d : Sample} {x y : Int16} {cal : CalData} {n : ℕ}
  {e : TurnInput} {w : Joystick}

theorem run_handOver_read (m : Libm) (s : Chip) (e : TurnInput) (data : Option Sample)
    (vx vy : Int16) (dev : Device) :
    run (handOver m e) ((lsm303Read s.addr s.startReg e.reply data).2.1 ++ [.transmit vx vy]) dev =
      transmit e.jscalSwitch e.port (m.heading vx vy) dev := by
  have hread : run (handOver m e) (lsm303Read s.addr s.startReg e.reply data).2.1 dev =
      some dev := by
    unfold lsm303Read i2cWrite
    cases e.reply.res <;> rfl
  rw [run_append, hread, Option.bind_some, run_singleton]
  rfl

theorem held_step (m : Libm) (s : Chip) (he : Still d e) (hw : Held d x y cal n w) :
    ∃ w', joystickStep m s e w = some w' ∧ Held d x y cal (n + 1) w' ∧
      w'.device.hidInData =
        report (calApply cal (m.heading w'.thread.x w'.thread.y)) (readButtons e.port) := by
  -- a read that fails leaves the sample, which is the same one
  have hsample : (if e.reply.res = .ok then some e.reply.sample else w.thread.data) = some d := by
    split_ifs with hok
    · rw [he.sample hok]
    · exact hw.data
  have hthread := threadStep_loop (s := s) (r := e.reply) hw.pending hw.exited
  rw [hsample, Option.bind_some] at hthread
  have hx : filterStep w.thread.x d.x = (fun b => filterStep b d.x)^[n + 1] x := by
    rw [Function.iterate_succ_apply', ← hw.x]
  have hy : filterStep w.thread.y d.y = (fun b => filterStep b d.y)^[n + 1] y := by
    rw [Function.iterate_succ_apply', ← hw.y]
  rw [joystickStep, hthread, Option.bind_some]
  dsimp only
  rw [run_handOver_read, he.switch, transmit_idle e.port hw.state]
  refine ⟨_, rfl, ⟨hw.pending, hw.exited, rfl, hx, hy, hw.state, hw.calData⟩, ?_⟩
  rw [← hw.calData]

theorem held_run (m : Libm) (s : Chip) (hw : Held d x y cal 0 w) (es : List TurnInput)
    (hes : ∀ e ∈ es, Still d e) :
    ∃ w', run (joystickStep m s) es w = some w' ∧ Held d x y cal es.length w' ∧
      (es ≠ [] → ∃ b, w'.device.hidInData =
        report (calApply cal (m.heading w'.thread.x w'.thread.y)) b) := by
  induction es using List.reverseRecOn with
  | nil => exact ⟨w, rfl, hw, fun h => absurd rfl h⟩
  | append_singleton es e ih =>
    rw [List.forall_mem_append] at hes
    obtain ⟨w₁, hrun, hheld, _⟩ := ih hes.1
    obtain ⟨w₂, hstep, hheld', hreport⟩ :=
      held_step m s (hes.2 e (List.mem_singleton_self e)) hheld
    refine ⟨w₂, ?_, ?_, fun _ => ⟨_, hreport⟩⟩
    · rw [run_append, hrun, Option.bind_some, run_singleton, hstep]
    · rw [List.length_append]
      exact hheld'

theorem exists_settled (d b : Int16) : ∃ v : Int16, |v.toInt - d.toInt| ≤ 7 ∧
    ∃ steps, ∀ n, steps ≤ n → (fun b => filterStep b d)^[n] b = v := by
  obtain ⟨steps, hsteps⟩ := exists_rest d b
  refine ⟨(fun b => filterStep b d)^[steps] b, ?_, steps, fun n hn => ?_⟩
  · rw [hsteps steps le_rfl]
    exact abs_rest_sub_le (by decide) _ _
  · exact Int16.toInt_inj.mp ((hsteps n hn).trans (hsteps steps le_rfl).symm)

theorem exists_rest_run (m : Libm) (s : Chip) (hw : Held d x y cal 0 w) :
    ∃ vx vy : Int16, |vx.toInt - d.x.toInt| ≤ 7 ∧ |vy.toInt - d.y.toInt| ≤ 7 ∧
      ∃ steps, ∀ es : List TurnInput, steps ≤ es.length → (∀ e ∈ es, Still d e) →
        ∃ w' b, run (joystickStep m s) es w = some w' ∧ w'.thread.x = vx ∧ w'.thread.y = vy ∧
          w'.device.hidInData = report (calApply cal (m.heading vx vy)) b := by
  obtain ⟨vx, hrestx, nx, hnx⟩ := exists_settled d.x x
  obtain ⟨vy, hresty, ny, hny⟩ := exists_settled d.y y
  refine ⟨vx, vy, hrestx, hresty, max nx ny + 1, fun es hlen hes => ?_⟩
  obtain ⟨w', hrun, hheld, hreport⟩ := held_run m s hw es hes
  have hne : es ≠ [] := by
    rintro rfl
    exact absurd hlen (Nat.not_succ_le_zero _)
  obtain ⟨b, hb⟩ := hreport hne
  have hx : w'.thread.x = vx := by
    rw [hheld.x]
    exact hnx es.length (by omega)
  have hy : w'.thread.y = vy := by
    rw [hheld.y]
    exact hny es.length (by omega)
  rw [hx, hy] at hb
  exact ⟨w', b, hrun, hx, hy, hb⟩

/-- While the field stands still, the axes come to rest at a report that belongs to a
reading no more than `7` away from the field, however many of the reads fail. -/
theorem joystick_settles (m : Libm) (s : Chip) {d : Sample} {w : Joystick}
    (hpending : w.thread.pending = []) (hexited : w.thread.exited = false)
    (hdata : w.thread.data = some d) (hoff : w.device.calibrator.state = .off) :
    ∃ vx vy : Int16, |vx.toInt - d.x.toInt| ≤ 7 ∧ |vy.toInt - d.y.toInt| ≤ 7 ∧
      ∃ steps, ∀ es : List TurnInput, steps ≤ es.length → (∀ e ∈ es, Still d e) →
        ∃ w' b, run (joystickStep m s) es w = some w' ∧
          w'.device.hidInData = report (calApply w.device.calibrator.calData (m.heading vx vy)) b := by
  have hstart : Held d w.thread.x w.thread.y w.device.calibrator.calData 0 w :=
    ⟨hpending, hexited, hdata, rfl, rfl, hoff, rfl⟩
  obtain ⟨vx, vy, hvx, hvy, steps, hsteps⟩ := exists_rest_run m s hstart
  refine ⟨vx, vy, hvx, hvy, steps, fun es hlen hes => ?_⟩
  obtain ⟨w', b, hrun, _, _, hreport⟩ := hsteps es hlen hes
  exact ⟨w', b, hrun, hreport⟩

def alongAxis : Libm where
  atan2f _ _ := 0
  mPi := 3.141592653589793
  mPi_pos := by norm_num
  atan2f_range _ _ := by norm_num

def ahead : Joystick := ⟨⟨[], false, some ⟨100, 0, 0⟩, 0, 0⟩, powerOn⟩

theorem joystick_settles_ahead :
    ∃ vx vy : Int16, |vx.toInt - 100| ≤ 7 ∧ |vy.toInt - 0| ≤ 7 ∧
      ∃ steps, ∀ es : List TurnInput, steps ≤ es.length → (∀ e ∈ es, Still ⟨100, 0, 0⟩ e) →
        ∃ w' b, run (joystickStep alongAxis lsm303c) es ahead = some w' ∧
          w'.device.hidInData = report (calApply ⟨0, 1, 1⟩ (alongAxis.heading vx vy)) b :=
  joystick_settles alongAxis lsm303c (d := ⟨100, 0, 0⟩) (w := ahead) rfl rfl rfl rfl

/-- A field beyond the dead band is shown in its own direction, up to an angle whose sine is the
diagonal of the band over the strength of the field. -/
theorem heading_settles (m : Libm) (s : Chip) {d : Sample} {w : Joystick}
    (hpending : w.thread.pending = []) (hexited : w.thread.exited = false)
    (hdata : w.thread.data = some d) (hoff : w.device.calibrator.state = .off)
    (hstrong : 98 < d.x.toInt ^ 2 + d.y.toInt ^ 2) :
    ∃ steps, ∀ es : List TurnInput, steps ≤ es.length → (∀ e ∈ es, Still d e) →
      ∃ w' b, ∃ ε : ℝ, run (joystickStep m s) es w = some w' ∧
        w'.device.hidInData = report (calApply w.device.calibrator.calData
          (m.heading w'.thread.x w'.thread.y)) b ∧
        |ε| ≤ Real.arcsin (√98 / ‖field d.x d.y‖) / Real.pi * 128 ∧
        fieldHeading (field w'.thread.x w'.thread.y) ≡
          fieldHeading (field d.x d.y) + ε [PMOD 256] := by
  have hstart : Held d w.thread.x w.thread.y w.device.calibrator.calData 0 w :=
    ⟨hpending, hexited, hdata, rfl, rfl, hoff, rfl⟩
  obtain ⟨vx, vy, hvx, hvy, steps, hsteps⟩ := exists_rest_run m s hstart
  obtain ⟨ε, hε, hheading⟩ := fieldHeading_of_band hvx hvy hstrong
  refine ⟨steps, fun es hlen hes => ?_⟩
  obtain ⟨w', b, hrun, rfl, rfl, hreport⟩ := hsteps es hlen hes
  exact ⟨w', b, ε, hrun, hreport, hε, hheading⟩

theorem heading_settles_ahead :
    ∃ steps, ∀ es : List TurnInput, steps ≤ es.length → (∀ e ∈ es, Still ⟨100, 0, 0⟩ e) →
      ∃ w' b, ∃ ε : ℝ, run (joystickStep alongAxis lsm303c) es ahead = some w' ∧
        w'.device.hidInData = report (calApply ⟨0, 1, 1⟩
          (alongAxis.heading w'.thread.x w'.thread.y)) b ∧
        |ε| ≤ Real.arcsin (√98 / ‖field 100 0‖) / Real.pi * 128 ∧
        fieldHeading (field w'.thread.x w'.thread.y) ≡ fieldHeading (field 100 0) + ε [PMOD 256] :=
  heading_settles alongAxis lsm303c (d := ⟨100, 0, 0⟩) (w := ahead) rfl rfl rfl rfl (by decide)

end BluePill.Sensor
