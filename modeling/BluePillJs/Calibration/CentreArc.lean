import BluePillJs.Axis.Transmit

/-! The stored offset turns every heading into its signed arc from the latest centre. -/

namespace BluePill.Calibration
open CircleArc PartialRuns Axis

/-- The heading of the latest closing call, next to the state that tells which calls close. -/
def centreStep (p : JsState × Heading) (c : Call) : JsState × Heading :=
  (p.1.next c.jscalSwitch, if p.1 = .ending then c.heading else p.2)

def latestCentre (calls : List Call) : Heading :=
  (calls.foldl centreStep (.off, .ofByte 0)).2

structure Centred (c : ℚ) (cal : CalData) : Prop where
  modEq : cal.offset ≡ -c [PMOD 256]
  bounded : |cal.offset| ≤ 224

theorem centred_powerOn : Centred (Heading.ofByte 0) Axis.powerOn.calibrator.calData :=
  ⟨by simp [Axis.powerOn, powerOn], by norm_num [Axis.powerOn, powerOn]⟩

theorem centred_ending (cs : CalState) (h : Heading) (mNeg mPos : ℚ) :
    Centred h ⟨(cs.carried h).offset.toInt - adjusted cs.offset h, mNeg, mPos⟩ := by
  constructor
  · have hv := (adjusted_modEq cs h).sub_left ((cs.carried h).offset.toInt : ℚ)
    simpa using hv
  · have ha := adjusted_abs_le (heading_abs_le h) cs.offset
    have ho := abs_toInt_le (cs.carried h).offset
    have hs := abs_sub ((cs.carried h).offset.toInt : ℚ) (adjusted cs.offset h)
    simp only
    linarith

theorem calibrate_centred (c : Call) (p : JsState × Heading) (m m' : Calibrator)
    (hm : p.1 = m.state ∧ Centred p.2 m.calData) (hstep : calibrateCall c m = some m') :
    (centreStep p c).1 = m'.state ∧ Centred (centreStep p c).2 m'.calData := by
  obtain ⟨hst, hcal⟩ := hm
  refine ⟨by rw [calibrate_state hstep, centreStep, hst], ?_⟩
  unfold calibrateCall at hstep
  cases hs : m.state with
  | off =>
    rw [centreStep, if_neg (by rw [hst, hs]; decide)]
    cases hw : c.jscalSwitch with
    | false =>
      rw [hw, calibrate_idle hs] at hstep
      exact Option.some.inj hstep ▸ hcal
    | true =>
      rw [hw, calibrate_open hs] at hstep
      exact Option.some.inj hstep ▸ hcal
  | on =>
    rw [centreStep, if_neg (by rw [hst, hs]; decide)]
    rw [calibrate_on hs] at hstep
    exact Option.some.inj hstep ▸ hcal
  | ending =>
    rw [centreStep, if_pos (by rw [hst, hs])]
    obtain ⟨hmin, hmax⟩ := calibrate_ending_some hs hstep
    rw [calibrate_ending hs _ hmin hmax] at hstep
    exact Option.some.inj hstep ▸ centred_ending m.cs c.heading _ _

theorem transmitRun_centred {calls : List TransmitCall} {d : Device}
    (hrun : transmitRun calls Axis.powerOn = some d) :
    Centred (latestCentre (calls.map TransmitCall.toCall)) d.calibrator.calData := by
  have hcal := transmitRun_calibrator calls Axis.powerOn
  rw [hrun, Option.map_some] at hcal
  rw [latestCentre, List.foldl_map]
  exact (run_history (fun p (c : TransmitCall) => centreStep p c.toCall)
    (P := fun p m => p.1 = m.state ∧ Centred p.2 m.calData)
    (c := (.off, .ofByte 0))
    (fun c p m m' => calibrate_centred c.toCall p m m') calls ⟨rfl, centred_powerOn⟩ hcal).2

theorem Centred.normalise_abs_le {c : ℚ} {cal : CalData} (hc : Centred c cal) (h : Heading) :
    |normalise h cal.offset| ≤ 128 := by
  apply Calibration.normalise_abs_le
  linarith [abs_add_le (h : ℚ) cal.offset, heading_abs_le h, hc.bounded]

theorem Centred.normalise_modEq {c : ℚ} {cal : CalData} (hc : Centred c cal) (h : ℚ) :
    normalise h cal.offset ≡ h - c [PMOD 256] := by
  rw [sub_eq_add_neg]
  exact (Calibration.normalise_modEq h cal.offset).trans (hc.modEq.add_left h)

theorem Centred.normalise_eq {c u : ℚ} {cal : CalData} (hc : Centred c cal) (h : Heading)
    (hu : (h : ℚ) ≡ u [PMOD 256]) (hd : |u - c| < 128) : normalise h cal.offset = u - c := by
  apply eq_of_modEq ((hc.normalise_modEq h).trans (hu.sub_right c))
  obtain ⟨hl, hu⟩ := abs_lt.mp hd
  obtain ⟨hnl, hnu⟩ := abs_le.mp (hc.normalise_abs_le h)
  exact abs_lt.mpr ⟨by linarith, by linarith⟩

theorem Centred.of_modEq {c c' : ℚ} {cal : CalData} (hc : Centred c cal) (h : c ≡ c' [PMOD 256]) :
    Centred c' cal :=
  ⟨hc.modEq.trans h.neg, hc.bounded⟩

theorem Centred.calApply_centre {c : Heading} {cal : CalData} (hc : Centred c cal) :
    calApply cal c = 0 := by
  have hn : normalise c cal.offset = 0 := by
    rw [hc.normalise_eq c AddCommGroup.modEq_rfl (by norm_num), sub_self]
  simp [calApply, hn, limit_of_mem]

/-- The calibrated angle is the signed arc from the latest centre, wherever the seam lies. -/
theorem transmitRun_signed_arc (calls : List TransmitCall) (d : Device)
    (hrun : transmitRun calls Axis.powerOn = some d) (h : Heading) :
    |d.calibrator.calData.offset| ≤ 224 ∧
      |normalise h d.calibrator.calData.offset| ≤ 128 ∧
      normalise h d.calibrator.calData.offset ≡
        h - latestCentre (calls.map TransmitCall.toCall) [PMOD 256] ∧
      |normalise h d.calibrator.cs.offset.toInt| ≤ 128 ∧
      normalise h d.calibrator.cs.offset.toInt ≡ h + d.calibrator.cs.offset.toInt [PMOD 256] ∧
      calApply d.calibrator.calData (latestCentre (calls.map TransmitCall.toCall)) = 0 := by
  have hc := transmitRun_centred hrun
  exact ⟨hc.bounded, hc.normalise_abs_le h, hc.normalise_modEq h,
    normalise_byte_abs_le (heading_abs_le h) _, normalise_modEq _ _, hc.calApply_centre⟩

theorem transmitRun_signed_arc_seam :
    let call (h : Heading) (sw : Bool) : TransmitCall := ⟨⟨h, sw⟩, 0⟩
    let calls := [call (.ofByte 80) true, call (.ofByte 120) false, call (.ofByte 100) false]
    ∃ d, transmitRun calls Axis.powerOn = some d ∧
      normalise (-100) d.calibrator.calData.offset ≡
        -100 - latestCentre (calls.map TransmitCall.toCall) [PMOD 256] := by
  intro call calls
  have hsome : (transmitRun calls Axis.powerOn).isSome := by decide +kernel
  obtain ⟨d, hd⟩ := Option.isSome_iff_exists.mp hsome
  exact ⟨d, hd, (transmitRun_signed_arc calls d hd (.ofByte (-100))).2.2.1⟩

end BluePill.Calibration
