import BluePillJs.Calibration.Session

/-! What a calibration session keeps of the idle calls before it: the offset they
left turns the opening heading, and the opening call then drops that offset. -/

namespace BluePill.Calibration
open CircleArc PartialRuns TruncatedByte

/-- The value the opening call of a session stores into both recorded end points. -/
def openingValue (hist : List Heading) (h₀ : Heading) : ℚ :=
  (preventWraparound (normalise h₀ (idleState hist).offset.toInt) (idleState hist)).1

theorem openingValue_eq (hist : List Heading) (h₀ : Heading) :
    openingValue hist h₀ = adjusted (idleState hist).offset h₀ := by
  rw [openingValue, preventWraparound_eq]
  rfl

structure SameCalibration (a b : CalData) : Prop where
  offset : a.offset ≡ b.offset [PMOD 256]
  mNeg : a.mNeg = b.mNeg
  mPos : a.mPos = b.mPos

def openedState (hist : List Heading) (h₀ : Heading) : CalState :=
  ⟨toByte (openingValue hist h₀), toByte (openingValue hist h₀), 0⟩

def opened (c : CalState) : Calibrator := { powerOn with state := .on, cs := c, led := false }

theorem sessionRun_opened (hist : List Heading) (s : Session) :
    sessionRun hist s =
      (calibrateRun s.calls.tail (opened (openedState hist s.opening))).map Calibrator.calData := by
  rw [sessionRun_eq, openedState, openingValue_eq, Session.calls, List.tail_cons]
  unfold calibrateRun
  rw [run_cons, calibrateCall, calibrate_open rfl, Option.bind_some]
  rfl

theorem dvd_seamShift (v : ℚ) : 64 ∣ seamShift v := by
  rcases seamShift_cases v with ⟨_, h⟩ | ⟨_, h⟩ | ⟨_, h⟩ <;> rw [h] <;> decide

theorem dvd_carried_offset {c : CalState} (h : 64 ∣ c.offset.toInt) (val : ℚ) :
    64 ∣ (c.carried val).offset.toInt := by
  have hs := dvd_seamShift (normalise val c.offset.toInt)
  simp only [CalState.carried, CalState.shift, Int8.toInt_add, toInt_ofInt_seamShift]
  rw [Int.bmod_def]
  split <;> omega

theorem dvd_idle_offset (hist : List Heading) : 64 ∣ (idleState hist).offset.toInt := by
  suffices h : ∀ c : CalState, 64 ∣ c.offset.toInt →
      64 ∣ (hist.foldl idleStep c).offset.toInt from h ⟨0, 0, 0⟩ (by decide)
  induction hist with
  | nil => exact fun c hc => hc
  | cons h hs ih =>
    intro c hc
    rw [List.foldl_cons, idleStep_eq]
    exact ih _ (dvd_carried_offset hc h)

theorem intCast_modEq_zero {z : ℤ} (h : 64 ∣ z) : (z : ℚ) ≡ 0 [PMOD 64] := by
  obtain ⟨k, rfl⟩ := h
  refine AddCommGroup.modEq_zero_iff_eq_zsmul.mpr ⟨k, ?_⟩
  rw [zsmul_eq_mul, Int.cast_mul, mul_comm, Int.cast_ofNat]

theorem adjusted_modEq_quarter {offset : Int8} (h : 64 ∣ offset.toInt) (val : ℚ) :
    adjusted offset val ≡ val [PMOD 64] := by
  have hn : normalise val offset.toInt ≡ val + offset.toInt [PMOD 64] := by
    apply AddCommGroup.ModEq.of_nsmul (n := 4)
    rw [show (4 • (64 : ℚ)) = 256 by norm_num]
    exact normalise_modEq val offset.toInt
  have ho := hn.trans ((intCast_modEq_zero h).add_left val)
  have hs := ho.add (intCast_modEq_zero (dvd_seamShift (normalise val offset.toInt)))
  rwa [add_zero, add_zero] at hs

theorem openingValue_eq_of_toByte {hist₁ hist₂ : List Heading} {h₀ : Heading}
    (h : toByte (openingValue hist₁ h₀) = toByte (openingValue hist₂ h₀)) :
    openingValue hist₁ h₀ = openingValue hist₂ h₀ := by
  have hb := congrArg Int8.toInt h
  rw [openingValue_eq, openingValue_eq, toInt_toByte (adjusted_abs_le (heading_abs_le h₀) _),
    toInt_toByte (adjusted_abs_le (heading_abs_le h₀) _)] at hb
  rw [openingValue_eq, openingValue_eq]
  -- the values differ by a multiple of `64`, and by less than `2` when they truncate alike
  apply eq_of_modEq (p := 64)
  · exact (adjusted_modEq_quarter (dvd_idle_offset hist₁) h₀).trans
      (adjusted_modEq_quarter (dvd_idle_offset hist₂) h₀).symm
  · have h₁ := abs_lt.mp (abs_truncate_sub_lt (adjusted (idleState hist₁).offset (h₀ : ℚ)))
    have h₂ := abs_lt.mp (abs_truncate_sub_lt (adjusted (idleState hist₂).offset (h₀ : ℚ)))
    rw [hb] at h₁
    rw [abs_lt]
    constructor <;> linarith [h₁.1, h₁.2, h₂.1, h₂.2]

/-! ## Two runs of one session -/

def onStep (c : CalState) (h : Heading) : CalState :=
  let (val, c) := preventWraparound (normalise h c.offset.toInt) c
  c.record val

theorem onStep_eq (c : CalState) (h : Heading) :
    onStep c h = (c.carried h).record (adjusted c.offset h) := by
  rw [onStep, preventWraparound_eq]
  rfl

/-- Some reading of the calls reaches the field in both runs, and is stored there. -/
def Overwritten (field : CalState → Int8) (reaches : ℤ → ℤ → Prop) :
    List Heading → CalState → CalState → Prop
  | [], _, _ => False
  | h :: hs, c₁, c₂ =>
    reaches (truncate (adjusted c₁.offset h)) (field (c₁.carried h)).toInt ∧
        reaches (truncate (adjusted c₂.offset h)) (field (c₂.carried h)).toInt ∨
      Overwritten field reaches hs (onStep c₁ h) (onStep c₂ h)

section TwoRuns
variable {c₁ c₂ : CalState}

/-! Under one offset both runs carry a field by the same shift. -/

theorem carried_offset_eq (ho : c₁.offset = c₂.offset) (h : Heading) :
    (c₁.carried h).offset = (c₂.carried h).offset := by
  simp only [CalState.carried, CalState.shift, ho]

theorem carried_min_iff (ho : c₁.offset = c₂.offset) (h : Heading) :
    (c₁.carried h).min.toInt = (c₂.carried h).min.toInt ↔ c₁.min = c₂.min := by
  simp only [CalState.carried, CalState.shift, ho, Int8.toInt_inj, Int8.add_left_inj]

theorem carried_max_iff (ho : c₁.offset = c₂.offset) (h : Heading) :
    (c₁.carried h).max.toInt = (c₂.carried h).max.toInt ↔ c₁.max = c₂.max := by
  simp only [CalState.carried, CalState.shift, ho, Int8.toInt_inj, Int8.add_left_inj]

theorem onStep_offset (ho : c₁.offset = c₂.offset) (h : Heading) :
    (onStep c₁ h).offset = (onStep c₂ h).offset := by
  rw [onStep_eq, onStep_eq, record_offset, record_offset]
  exact carried_offset_eq ho h

theorem onStep_min_iff (h : Heading) (ho : c₁.offset = c₂.offset) :
    (onStep c₁ h).min = (onStep c₂ h).min ↔ c₁.min = c₂.min ∨
      truncate (adjusted c₁.offset h) ≤ (c₁.carried h).min.toInt ∧
        truncate (adjusted c₂.offset h) ≤ (c₂.carried h).min.toInt := by
  have hv := adjusted_abs_le (heading_abs_le h) c₂.offset
  rw [onStep_eq, onStep_eq, ← Int8.toInt_inj, ← carried_min_iff ho h, ho, record_min hv,
    record_min hv]
  omega

theorem onStep_max_iff (h : Heading) (ho : c₁.offset = c₂.offset) :
    (onStep c₁ h).max = (onStep c₂ h).max ↔ c₁.max = c₂.max ∨
      truncate (adjusted c₁.offset h) ≥ (c₁.carried h).max.toInt ∧
        truncate (adjusted c₂.offset h) ≥ (c₂.carried h).max.toInt := by
  have hv := adjusted_abs_le (heading_abs_le h) c₂.offset
  rw [onStep_eq, onStep_eq, ← Int8.toInt_inj, ← carried_max_iff ho h, ho, record_max hv,
    record_max hv]
  omega

theorem foldl_onStep_iff {f : CalState → Int8} {r : ℤ → ℤ → Prop}
    (hstep : ∀ (h : Heading) {c₁ c₂ : CalState}, c₁.offset = c₂.offset →
      (f (onStep c₁ h) = f (onStep c₂ h) ↔ f c₁ = f c₂ ∨
        r (truncate (adjusted c₁.offset h)) (f (c₁.carried h)).toInt ∧
          r (truncate (adjusted c₂.offset h)) (f (c₂.carried h)).toInt))
    (hs : List Heading) (ho : c₁.offset = c₂.offset) :
    f (hs.foldl onStep c₁) = f (hs.foldl onStep c₂) ↔
      f c₁ = f c₂ ∨ Overwritten f r hs c₁ c₂ := by
  induction hs generalizing c₁ c₂ with
  | nil => rw [List.foldl_nil, List.foldl_nil, Overwritten, or_false]
  | cons h hs ih =>
    rw [List.foldl_cons, List.foldl_cons, ih (onStep_offset ho h), hstep h ho, or_assoc,
      Overwritten]

theorem foldl_onStep_offset (hs : List Heading) (ho : c₁.offset = c₂.offset) :
    (hs.foldl onStep c₁).offset = (hs.foldl onStep c₂).offset := by
  induction hs generalizing c₁ c₂ with
  | nil => exact ho
  | cons h hs ih => exact ih (onStep_offset ho h)

end TwoRuns

def closedState (hist : List Heading) (s : Session) : CalState :=
  (s.recorded ++ [s.closing]).foldl onStep (openedState hist s.opening)

theorem on_run (hs : List Heading) {m : Calibrator} (hm : m.state = .on) :
    calibrateRun (hs.map (⟨·, true⟩)) m = some { m with cs := hs.foldl onStep m.cs } := by
  induction hs generalizing m with
  | nil => rfl
  | cons h hs ih =>
    rw [calibrateRun, List.map_cons, run_cons, calibrateCall, calibrate_on hm, Option.bind_some,
      List.foldl_cons, onStep_eq]
    exact (ih rfl).trans (by rw [hm]; rfl)

theorem sessionRun_closed (hist : List Heading) (s : Session) :
    sessionRun hist s = (calibrate s.endSwitch s.centre
      { opened (closedState hist s) with state := .ending }).map Calibrator.calData := by
  rw [sessionRun_opened, Session.calls, List.tail_cons, calibrateRun, run_append,
    ← calibrateRun, on_run s.recorded rfl, Option.bind_some, calibrateRun, run_cons, calibrateCall,
    calibrate_on rfl, Option.bind_some, run_singleton, closedState, List.foldl_append,
    List.foldl_cons, List.foldl_nil, onStep_eq]
  rfl

theorem sessionRun_eq_some {hist : List Heading} {s : Session} {a : CalData}
    (ha : a ∈ sessionRun hist s) :
    a = ⟨((closedState hist s).carried s.centre).offset.toInt -
          adjusted (closedState hist s).offset s.centre,
        -128 / (((closedState hist s).carried s.centre).min.toInt -
          adjusted (closedState hist s).offset s.centre),
        128 / (((closedState hist s).carried s.centre).max.toInt -
          adjusted (closedState hist s).offset s.centre)⟩ := by
  rw [sessionRun_closed] at ha
  obtain ⟨m, hm, rfl⟩ := Option.map_eq_some_iff.mp ha
  obtain ⟨hmin, hmax⟩ := calibrate_ending_some rfl hm
  rw [calibrate_ending rfl _ hmin hmax] at hm
  exact congrArg Calibrator.calData (Option.some.inj hm).symm

theorem eq_of_div_eq {a b c : ℚ} (ha : a ≠ 0) (h : a / b = a / c) : b = c := by
  rw [div_eq_mul_inv, div_eq_mul_inv] at h
  exact inv_injective (mul_left_cancel₀ ha h)

theorem sameCalibration_iff {hist₁ hist₂ : List Heading} {s : Session} {a b : CalData}
    (ha : a ∈ sessionRun hist₁ s) (hb : b ∈ sessionRun hist₂ s) :
    SameCalibration a b ↔ (closedState hist₁ s).min = (closedState hist₂ s).min ∧
      (closedState hist₁ s).max = (closedState hist₂ s).max := by
  have ho : (closedState hist₁ s).offset = (closedState hist₂ s).offset :=
    foldl_onStep_offset _ rfl
  rw [sessionRun_eq_some ha, sessionRun_eq_some hb, ← carried_min_iff ho s.centre,
    ← carried_max_iff ho s.centre, carried_offset_eq ho s.centre, ho]
  constructor
  · rintro ⟨_, hn, hp⟩
    have hn' := sub_left_injective (eq_of_div_eq (by norm_num) hn)
    have hp' := sub_left_injective (eq_of_div_eq (by norm_num) hp)
    exact ⟨Int.cast_injective hn', Int.cast_injective hp'⟩
  · rintro ⟨hn, hp⟩
    exact ⟨AddCommGroup.modEq_rfl, by rw [hn], by rw [hp]⟩

/-- The idle offsets show in the result of a session unless both adjust the opening heading
to the same value, or later readings replace both end points in both runs. -/
theorem session_independent_iff (hist₁ hist₂ : List Heading) (s : Session) {a b : CalData}
    (ha : a ∈ sessionRun hist₁ s) (hb : b ∈ sessionRun hist₂ s) :
    SameCalibration a b ↔ openingValue hist₁ s.opening = openingValue hist₂ s.opening ∨
      Overwritten CalState.min (· ≤ ·) (s.recorded ++ [s.closing])
          (openedState hist₁ s.opening) (openedState hist₂ s.opening) ∧
        Overwritten CalState.max (· ≥ ·) (s.recorded ++ [s.closing])
          (openedState hist₁ s.opening) (openedState hist₂ s.opening) := by
  have hoffset : (openedState hist₁ s.opening).offset = (openedState hist₂ s.opening).offset := rfl
  have hmin := foldl_onStep_iff (f := CalState.min) (r := (· ≤ ·))
    (fun h _ _ ho => onStep_min_iff h ho) (s.recorded ++ [s.closing])
    hoffset
  have hmax := foldl_onStep_iff (f := CalState.max) (r := (· ≥ ·))
    (fun h _ _ ho => onStep_max_iff h ho) (s.recorded ++ [s.closing])
    hoffset
  have hopening : toByte (openingValue hist₁ s.opening) = toByte (openingValue hist₂ s.opening) ↔
      openingValue hist₁ s.opening = openingValue hist₂ s.opening :=
    ⟨openingValue_eq_of_toByte, congrArg toByte⟩
  rw [sameCalibration_iff ha hb, closedState, closedState, hmin, hmax, ← hopening]
  exact or_and_left.symm

def wideSession : Session where
  opening := .ofByte 0
  recorded := [.ofByte 40, .ofByte (-80)]
  closing := .ofByte 0
  centre := .ofByte 10
  endSwitch := false

theorem session_independent_wide : SameCalibration ⟨-10, 64 / 45, 64 / 15⟩ ⟨-10, 64 / 45, 64 / 15⟩ :=
  (session_independent_iff [] [.ofByte 100] wideSession (by decide +kernel)
    (by decide +kernel)).mpr (.inr ⟨.inr (.inl (by decide +kernel)), .inl (by decide +kernel)⟩)

/-- One idle reading at `100` moves the lower end point of the session that follows. -/
theorem idle_reading_leaks :
    let s : Session := {
      opening := .ofByte 0
      recorded := [.ofByte 40]
      closing := .ofByte (-20)
      centre := .ofByte 10
      endSwitch := false }
    ∃ a ∈ sessionRun [] s, ∃ b ∈ sessionRun [.ofByte 100] s, ¬ SameCalibration a b := by
  refine ⟨⟨-10, 64 / 15, 64 / 15⟩, ?_, ⟨-10, 64 / 37, 64 / 15⟩, ?_, fun h => ?_⟩
  · decide +kernel
  · decide +kernel
  · exact absurd h.mNeg (by norm_num)

end BluePill.Calibration
