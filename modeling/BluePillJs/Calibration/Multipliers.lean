import BluePillJs.Calibration.Recorder

/-! The calibration multipliers along every run of calibrations, saves and loads. -/

namespace BluePill.Calibration
open PartialRuns TruncatedByte

inductive Op where
  | call (c : Call)
  | save
  | load (i : ℕ)

structure Memory where
  calibrator : Calibrator
  saved : List CalData

def Memory.start : Memory := ⟨powerOn, []⟩

/-- A load restores a triple that was saved before, or fails and changes nothing. -/
def opStep : Op → Memory → Option Memory
  | .call c, s => (calibrateCall c s.calibrator).map fun m => { s with calibrator := m }
  | .save, s => some { s with saved := s.saved ++ [s.calibrator.calData] }
  | .load i, s => some { s with
      calibrator := { s.calibrator with calData := s.saved[i]?.getD s.calibrator.calData } }

def Inside (c : Call) (m : Calibrator) : Prop :=
  let (val, cs) := preventWraparound (normalise c.heading m.cs.offset.toInt) m.cs
  (cs.min.toInt : ℚ) < val ∧ val < cs.max.toInt

def ClosesInside (m : Calibrator) : Op → Prop
  | .call c => m.state = .ending → Inside c m
  | _ => True

structure Positive (d : CalData) : Prop where
  mNeg : 0 < d.mNeg
  mPos : 0 < d.mPos

/-- Every state of the run has positive multipliers, and no call divides by zero. -/
def Usable : List Op → Memory → Prop
  | [], s => Positive s.calibrator.calData
  | op :: ops, s => Positive s.calibrator.calData ∧ ClosesInside s.calibrator op ∧
      ∃ s', opStep op s = some s' ∧ Usable ops s'

def Along (P : Recorder → Call → Prop) : Recorder → List Op → Prop
  | _, [] => True
  | r, .call c :: ops => P r c ∧ Along P (r.step c) ops
  | r, .save :: ops => Along P r ops
  | r, .load _ :: ops => Along P r ops

def FitsInSession (r : Recorder) (c : Call) : Prop := r.state ≠ .off → r.Fits c

def StraddlesAtEnd (r : Recorder) (c : Call) : Prop := r.state = .ending → r.Straddles c

theorem inside_iff {r : Recorder} {m : Calibrator} {c : Call} (h : Tracks r m)
    (hr : r.state ≠ .off) (hfit : r.Fits c) : Inside c m ↔ r.Straddles c := by
  rw [Inside, preventWraparound_eq]
  exact h.inside_iff_straddles hr hfit

theorem Usable.tail {op : Op} {ops : List Op} {s t : Memory} (h : Usable (op :: ops) s)
    (ht : opStep op s = some t) : Usable ops t := by
  obtain ⟨s', hs, hrest⟩ := h.2.2
  exact Option.some.inj (hs.symm.trans ht) ▸ hrest

theorem Usable.run_isSome {ops : List Op} {s : Memory} (h : Usable ops s) :
    (run opStep ops s).isSome := by
  induction ops generalizing s with
  | nil => rfl
  | cons op ops ih =>
    obtain ⟨s', hs, hrest⟩ := h.2.2
    rw [run_cons, hs, Option.bind_some]
    exact ih hrest

theorem positive_ending {v : ℚ} {lo hi : ℤ} (offset : ℚ) (hlo : (lo : ℚ) < v)
    (hhi : v < (hi : ℚ)) : Positive ⟨offset, -128 / (lo - v), 128 / (hi - v)⟩ :=
  ⟨div_pos_of_neg_of_neg (by norm_num) (by linarith), div_pos (by norm_num) (by linarith)⟩

theorem call_positive {c : Call} {m : Calibrator} (hpos : Positive m.calData)
    (hin : m.state = .ending → Inside c m) :
    ∃ m', calibrateCall c m = some m' ∧ Positive m'.calData := by
  unfold calibrateCall
  cases hm : m.state with
  | off =>
    cases c.jscalSwitch with
    | false => exact ⟨_, calibrate_idle hm, hpos⟩
    | true => exact ⟨_, calibrate_open hm, hpos⟩
  | on => exact ⟨_, calibrate_on hm _, hpos⟩
  | ending =>
    have hi := hin hm
    rw [Inside, preventWraparound_eq] at hi
    exact ⟨_, calibrate_ending hm _ hi.1.ne hi.2.ne', positive_ending _ hi.1 hi.2⟩

structure Sound (r : Recorder) (s : Memory) : Prop where
  tracks : Tracks r s.calibrator
  positive : Positive s.calibrator.calData
  saved : ∀ d ∈ s.saved, Positive d

theorem sound_start : Sound Recorder.initial Memory.start :=
  ⟨tracks_powerOn, ⟨by decide +kernel, by decide +kernel⟩, fun _ hd => nomatch hd⟩

theorem Sound.save {r : Recorder} {s : Memory} (h : Sound r s) :
    Sound r { s with saved := s.saved ++ [s.calibrator.calData] } := by
  refine ⟨h.tracks, h.positive, fun d hd => ?_⟩
  rcases List.mem_append.mp hd with hold | hnew
  · exact h.saved d hold
  · rw [List.mem_singleton.mp hnew]
    exact h.positive

theorem Sound.load {r : Recorder} {s : Memory} (h : Sound r s) (i : ℕ) :
    Sound r { s with
      calibrator := { s.calibrator with calData := s.saved[i]?.getD s.calibrator.calData } } := by
  refine ⟨⟨h.tracks.state, h.tracks.offset, h.tracks.least, h.tracks.greatest⟩, ?_, h.saved⟩
  cases hi : s.saved[i]? with
  | none => exact h.positive
  | some d => exact h.saved d (List.mem_of_getElem? hi)

theorem Sound.call {r : Recorder} {s : Memory} {c : Call} (h : Sound r s)
    (hfit : FitsInSession r c) (hin : s.calibrator.state = .ending → Inside c s.calibrator) :
    ∃ s', opStep (.call c) s = some s' ∧ Sound (r.step c) s' := by
  obtain ⟨m', hm, hpos⟩ := call_positive h.positive hin
  refine ⟨{ s with calibrator := m' }, ?_, h.tracks.step hfit hm, hpos, h.saved⟩
  rw [opStep, hm, Option.map_some]

theorem Sound.closesInside_iff {r : Recorder} {s : Memory} {c : Call} (h : Sound r s)
    (hfit : FitsInSession r c) :
    ClosesInside s.calibrator (.call c) ↔ StraddlesAtEnd r c := by
  rw [ClosesInside, StraddlesAtEnd, h.tracks.state]
  refine forall_congr' fun hr => ?_
  have hne : r.state ≠ .off := by rw [hr]; decide
  exact inside_iff h.tracks hne (hfit hne)

theorem Sound.usable_iff {r : Recorder} {s : Memory} {ops : List Op} (h : Sound r s)
    (hfit : Along FitsInSession r ops) : Usable ops s ↔ Along StraddlesAtEnd r ops := by
  induction ops generalizing r s with
  | nil => exact ⟨fun _ => trivial, fun _ => h.positive⟩
  | cons op ops ih =>
    cases op with
    | save =>
      rw [Along, ← ih h.save hfit]
      exact ⟨fun hu => hu.tail rfl, fun hu => ⟨h.positive, trivial, _, rfl, hu⟩⟩
    | load i =>
      rw [Along, ← ih (h.load i) hfit]
      exact ⟨fun hu => hu.tail rfl, fun hu => ⟨h.positive, trivial, _, rfl, hu⟩⟩
    | call c =>
      obtain ⟨hfit₀, hfits⟩ := hfit
      rw [Along, ← h.closesInside_iff hfit₀]
      constructor
      · intro hu
        obtain ⟨t, ht, hsound⟩ := h.call hfit₀ hu.2.1
        exact ⟨hu.2.1, (ih hsound hfits).mp (hu.tail ht)⟩
      · rintro ⟨hin, hrest⟩
        obtain ⟨s', hs, hsound⟩ := h.call hfit₀ hin
        exact ⟨h.positive, hin, s', hs, (ih hsound hfits).mpr hrest⟩

/-- From power-on, in every run whose recorded readings stay bytes. -/
theorem multipliers_usable_iff (ops : List Op)
    (hfit : Along FitsInSession Recorder.initial ops) :
    Usable ops Memory.start ↔ Along StraddlesAtEnd Recorder.initial ops :=
  sound_start.usable_iff hfit

section Still
variable {r : Recorder}

theorem Recorder.carried_still (ho : r.offset = 0) {h : ℚ} (hv : |h| ≤ 96) :
    r.carried h = r.readings := by
  rw [Recorder.carried, Recorder.turn, ho, normalise_byte_zero (by linarith),
    seamShift_of_abs_le hv]
  simp

theorem Recorder.step_on_still (hr : r.state = .on) (ho : r.offset = 0) {c : Call}
    (hv : |(c.heading : ℚ)| ≤ 96) : r.step c =
      ⟨JsState.on.next c.jscalSwitch, 0, insert (truncate (c.heading : ℚ)) r.readings⟩ := by
  rw [Recorder.step, hr, Recorder.carried_still ho hv, Recorder.value, Recorder.turned,
    Recorder.turn, ho, adjusted_zero hv, normalise_byte_zero (by linarith),
    seamShift_of_abs_le hv]
  rfl

theorem Recorder.step_open_still (hr : r.state = .off) (ho : r.offset = 0) {h : Heading}
    (hv : |(h : ℚ)| ≤ 96) : r.step ⟨h, true⟩ = ⟨.on, 0, {truncate (h : ℚ)}⟩ := by
  rw [Recorder.step, hr, Recorder.value, ho, adjusted_zero hv]
  rfl

end Still

def sweepOps : List Op :=
  [.call ⟨.ofByte 0, true⟩, .call ⟨.ofByte 40, true⟩,
    .call ⟨.ofByte (-20), false⟩, .save, .call ⟨.ofByte 10, false⟩, .load 0]

theorem multipliers_usable_sweep : Usable sweepOps Memory.start := by
  have hz : truncate (Heading.ofByte 0 : ℚ) = 0 := truncate_intCast _
  have h40 : truncate (Heading.ofByte 40 : ℚ) = 40 := truncate_intCast _
  have h20 : truncate (Heading.ofByte (-20) : ℚ) = -20 := truncate_intCast _
  have h₁ := Recorder.step_open_still (r := Recorder.initial) (h := .ofByte 0) rfl rfl
    (by decide +kernel)
  have h₂ := Recorder.step_on_still (r := ⟨.on, 0, {0}⟩) (c := ⟨.ofByte 40, true⟩) rfl rfl
    (by decide +kernel)
  have h₃ := Recorder.step_on_still (r := ⟨.on, 0, {40, 0}⟩) (c := ⟨.ofByte (-20), false⟩)
    rfl rfl (by decide +kernel)
  simp only [hz, h40, h20, JsState.next, ↓reduceIte, Bool.false_eq_true] at h₁ h₂ h₃
  refine (multipliers_usable_iff sweepOps ?_).mpr ?_
  · simp only [sweepOps, Along, h₁, h₂, h₃]
    refine ⟨fun h => absurd rfl h, fun _ => ?_, fun _ => ?_, fun _ => ?_, trivial⟩ <;>
      rw [Recorder.Fits, Recorder.carried_still rfl (by decide +kernel)] <;> simp
  · simp only [sweepOps, Along, h₁, h₂, h₃]
    refine ⟨nofun, nofun, nofun, fun _ => ?_, trivial⟩
    rw [Recorder.Straddles, Recorder.carried_still rfl (by decide +kernel), Recorder.value,
      adjusted_zero (by decide +kernel)]
    exact ⟨⟨-20, by simp, by decide +kernel⟩, 40, by simp, by decide +kernel⟩

theorem resting_session_divides_by_zero :
    ¬ Usable [.call ⟨.ofByte 10, true⟩, .call ⟨.ofByte 10, false⟩,
      .call ⟨.ofByte 10, false⟩] Memory.start := by
  intro h
  have hrun := h.run_isSome
  revert hrun
  decide +kernel

end BluePill.Calibration
