import BluePillJs.Calibration.Machine

/-! Calibration sessions and the idle calls that may come before them. -/

namespace BluePill.Calibration
open PartialRuns

/-- One pass `JSCAL_OFF → JSCAL_ON → JSCAL_END → JSCAL_OFF`: the switch is set for the
opening and the recorded calls, and cleared at the closing one. -/
structure Session where
  opening : Heading
  recorded : List Heading
  closing : Heading
  centre : Heading
  endSwitch : Bool

def Session.calls (s : Session) : List Call :=
  ⟨s.opening, true⟩ :: (s.recorded.map (⟨·, true⟩) ++ [⟨s.closing, false⟩, ⟨s.centre, s.endSwitch⟩])

def idleCalls (hist : List Heading) : List Call := hist.map (⟨·, false⟩)

def visited (st : JsState) : List Call → List JsState
  | [] => []
  | c :: cs => st.next c.jscalSwitch :: visited (st.next c.jscalSwitch) cs

theorem visited_on_append {calls : List Call} {n : ℕ}
    (h : visited .on calls = List.replicate n .on ++ [.ending, .off]) :
    ∃ (recorded : List Heading) (closing centre : Heading) (endSwitch : Bool),
      calls = recorded.map (⟨·, true⟩) ++ [⟨closing, false⟩, ⟨centre, endSwitch⟩] := by
  induction n generalizing calls with
  | zero =>
    match calls, h with
    | [⟨h₁, false⟩, ⟨h₂, sw⟩], _ => exact ⟨[], h₁, h₂, sw, rfl⟩
    | ⟨_, true⟩ :: _, h => simp [visited, JsState.next] at h
    | [⟨_, false⟩], h => simp [visited] at h
    | ⟨_, false⟩ :: _ :: _ :: _, h => simp [visited] at h
  | succ n ih =>
    match calls, h with
    | ⟨h₁, false⟩ :: _, h => simp [visited, JsState.next, List.replicate_succ] at h
    | ⟨h₁, true⟩ :: cs, h =>
      simp only [visited, JsState.next, ↓reduceIte, List.replicate_succ, List.cons_append,
        List.cons.injEq, true_and] at h
      obtain ⟨recorded, closing, centre, endSwitch, rfl⟩ := ih h
      exact ⟨h₁ :: recorded, closing, centre, endSwitch, rfl⟩

theorem visited_session (s : Session) :
    visited .off s.calls = .on :: (List.replicate s.recorded.length .on ++ [.ending, .off]) := by
  simp only [Session.calls, visited, JsState.next, ↓reduceIte, List.cons.injEq, true_and]
  induction s.recorded with
  | nil => rfl
  | cons h hs ih =>
    simpa [visited, JsState.next, List.replicate_succ] using ih

theorem visited_iff_session (calls : List Call) :
    (∃ n, visited .off calls = .on :: (List.replicate n .on ++ [.ending, .off])) ↔
      ∃ s : Session, calls = s.calls := by
  constructor
  · rintro ⟨n, h⟩
    match calls, h with
    | ⟨_, false⟩ :: _, h => simp [visited, JsState.next] at h
    | ⟨h₀, true⟩ :: cs, h =>
      simp only [visited, JsState.next, ↓reduceIte, List.cons.injEq, true_and] at h
      obtain ⟨recorded, closing, centre, endSwitch, rfl⟩ := visited_on_append h
      exact ⟨⟨h₀, recorded, closing, centre, endSwitch⟩, rfl⟩
  · rintro ⟨s, rfl⟩
    exact ⟨s.recorded.length, visited_session s⟩

def idleStep (c : CalState) (h : Heading) : CalState :=
  (preventWraparound (normalise h c.offset.toInt) c).2

theorem idleStep_eq (c : CalState) (h : Heading) : idleStep c h = c.carried h := by
  rw [idleStep, preventWraparound_eq]
  rfl

def idleState (hist : List Heading) : CalState := hist.foldl idleStep ⟨0, 0, 0⟩

theorem idle_run (hist : List Heading) (m : Calibrator) (hm : m.state = .off) :
    calibrateRun (idleCalls hist) m = some { m with cs := hist.foldl idleStep m.cs } := by
  induction hist generalizing m with
  | nil => rfl
  | cons h hs ih =>
    rw [calibrateRun, idleCalls, List.map_cons, run_cons, calibrateCall, calibrate_idle hm,
      Option.bind_some]
    rw [List.foldl_cons, idleStep_eq]
    exact ih { m with cs := m.cs.carried h } hm

theorem idle_run_powerOn (hist : List Heading) :
    calibrateRun (idleCalls hist) powerOn = some { powerOn with cs := idleState hist } :=
  idle_run hist powerOn rfl

def sessionRun (hist : List Heading) (s : Session) : Option CalData :=
  (calibrateRun (idleCalls hist ++ s.calls) powerOn).map Calibrator.calData

theorem sessionRun_eq (hist : List Heading) (s : Session) :
    sessionRun hist s =
      (calibrateRun s.calls { powerOn with cs := idleState hist }).map Calibrator.calData := by
  have hidle := idle_run_powerOn hist
  unfold sessionRun calibrateRun at *
  rw [run_append, hidle, Option.bind_some]

end BluePill.Calibration
