import BluePillJs.Shell.CalCommand
import Mathlib.Data.List.TakeWhile

/-! Every completed `cal` command that found at least one sample performs exactly one
calibration, over all interleavings with the sensor thread and the keyboard. -/

namespace BluePill.Shell
open Calibration PartialRuns

structure Waiting (sampled : Bool) (marks : List Mark) (w : World) : Prop where
  pc : w.pc.waiting = true
  switch : w.jscalSwitch = true
  session : if sampled then w.calibrator.state = .on ∧ marks = [.opened]
    else w.calibrator.state = .off ∧ marks = []

/-- A session of at least one sample closes within two further calls. -/
def ClosingSession (calls : ℕ) (marks : List Mark) (m : Calibrator) : Prop :=
  m.state = .on ∧ marks = [.opened] ∧ calls = 0 ∨
    m.state = .ending ∧ marks = [.opened] ∧ calls ≤ 1 ∨
    m.state = .off ∧ marks = [.opened, .closed m.calData]

structure Closing (sampled : Bool) (marks : List Mark) (w : World) : Prop where
  switch : w.jscalSwitch = false
  session : ∃ n, w.pc.settled = some n ∧
    if sampled then ClosingSession n marks w.calibrator
    else w.calibrator.state = .off ∧ marks = []

structure Idle (w : World) : Prop where
  pc : w.pc = .idle
  switch : w.jscalSwitch = false
  state : w.calibrator.state = .off

variable {divByZero : ℚ → Calibrator → CalData} {w w' : World} {marks os : List Mark}
  {sampled : Bool} {a : ShellAction}

def Event.isTransmit : Event → Bool
  | .transmit _ => true
  | _ => false

theorem step_waiting (e : Event) (he : e ≠ .shell .clear) (h : Waiting sampled marks w)
    (hstep : step divByZero e w = some (os, w')) :
    Waiting (sampled || e.isTransmit) (marks ++ os) w' := by
  cases e with
  | shell a =>
    obtain ⟨rfl, hpc, hsw, hm⟩ := shellStep_waiting h.pc (fun ha => he (ha ▸ rfl)) hstep
    show Waiting (sampled || false) _ w'
    rw [List.append_nil, Bool.or_false]
    exact ⟨hpc, hsw.trans h.switch, hm ▸ h.session⟩
  | key =>
    cases hstep
    show Waiting (sampled || false) _ _
    rw [List.append_nil, Bool.or_false]
    exact ⟨h.pc, h.switch, h.session⟩
  | transmit hdg =>
    cases hstep
    have hstate := calibrateFloat_state divByZero w.jscalSwitch hdg w.calibrator
    refine ⟨(waiting_count w.pc).trans h.pc, h.switch, ?_⟩
    rw [Event.isTransmit, Bool.or_true, if_pos rfl]
    rw [h.switch] at hstate ⊢
    -- the first sample opens the session, the later ones are recorded in it
    cases sampled with
    | false =>
      obtain ⟨hoff, rfl⟩ := h.session
      rw [hoff] at hstate
      exact ⟨hstate, by rw [sensorMarks, if_pos ⟨hoff, hstate⟩]; rfl⟩
    | true =>
      obtain ⟨hon, rfl⟩ := h.session
      rw [hon] at hstate
      exact ⟨hstate, by simp [sensorMarks, hon]⟩

theorem closingSession_mono {n n' : ℕ} {m : Calibrator} (hn : n' ≤ n)
    (h : ClosingSession n marks m) : ClosingSession n' marks m := by
  rcases h with ⟨hs, hm, h0⟩ | ⟨hs, hm, h1⟩ | h
  · exact .inl ⟨hs, hm, by omega⟩
  · exact .inr (.inl ⟨hs, hm, by omega⟩)
  · exact .inr (.inr h)

theorem closingSession_transmit {n : ℕ} {m : Calibrator} (hdg : ℚ)
    (h : ClosingSession n marks m) :
    ClosingSession (n + 1) (marks ++ sensorMarks m (calibrateFloat divByZero false hdg m))
      (calibrateFloat divByZero false hdg m) := by
  have hstate := calibrateFloat_state divByZero false hdg m
  rcases h with ⟨hs, rfl, rfl⟩ | ⟨hs, rfl, _⟩ | ⟨hs, rfl⟩
  · rw [hs] at hstate
    exact .inr (.inl ⟨hstate, by simp [sensorMarks, hs], le_rfl⟩)
  · rw [hs] at hstate
    exact .inr (.inr ⟨hstate, by simp [sensorMarks, hs]⟩)
  · rw [hs] at hstate
    have hdata := calibrateFloat_calData divByZero (m := m) (by rw [hs]; decide) false hdg
    have hmarks : sensorMarks m (calibrateFloat divByZero false hdg m) = [] := by
      simp [sensorMarks, hs, hstate, JsState.next]
    exact .inr (.inr ⟨hstate, by rw [hmarks, hdata]; rfl⟩)

theorem step_closing (e : Event) (he : e ≠ .shell .report) (h : Closing sampled marks w)
    (hstep : step divByZero e w = some (os, w')) : Closing sampled (marks ++ os) w' := by
  obtain ⟨hsw, n, hn, hsession⟩ := h
  cases e with
  | shell a =>
    obtain ⟨rfl, ⟨n', hn', hle⟩, hsw', hm⟩ :=
      shellStep_closing hn (fun ha => he (ha ▸ rfl)) hstep
    rw [List.append_nil]
    refine ⟨hsw'.trans hsw, n', hn', ?_⟩
    rw [hm]
    cases sampled with
    | false => exact hsession
    | true => exact closingSession_mono hle hsession
  | key =>
    cases hstep
    rw [List.append_nil]
    exact ⟨hsw, n, hn, hsession⟩
  | transmit hdg =>
    cases hstep
    obtain ⟨n', hn', hle⟩ := settled_count hn
    refine ⟨hsw, n', hn', ?_⟩
    show if sampled then ClosingSession n' _ (calibrateFloat divByZero w.jscalSwitch hdg _) else _
    rw [hsw]
    cases sampled with
    | false =>
      obtain ⟨hoff, rfl⟩ := hsession
      have hstate := calibrateFloat_state divByZero false hdg w.calibrator
      rw [hoff] at hstate
      exact ⟨hstate, by simp [sensorMarks, hoff, hstate, JsState.next]⟩
    | true => exact closingSession_mono hle (closingSession_transmit hdg hsession)

theorem Closing.at_report (h : Closing sampled marks w) (hpc : w.pc = .report) :
    w.calibrator.state = .off ∧
      marks = if sampled then [.opened, .closed w.calibrator.calData] else [] := by
  obtain ⟨n, hn, hsession⟩ := h.session
  rw [hpc] at hn
  cases hn
  cases sampled with
  | false => exact hsession
  | true =>
    rcases hsession with ⟨_, _, h0⟩ | ⟨_, _, h1⟩ | h
    · exact absurd h0 (by decide)
    · exact absurd h1 (by decide)
    · exact h

/-! ## Whole runs -/

/-- In every reachable state the shell is idle with the machine off, or inside one command. -/
def Sane (w : World) : Prop :=
  Idle w ∨ (∃ s m, Waiting s m w) ∨ ∃ s m, Closing s m w

theorem sane_boot (cal : CalData) : Sane (boot cal) := .inl ⟨rfl, rfl, rfl⟩

theorem waiting_command (hw : Idle w) :
    Waiting false [] { w with jscalSwitch := true, pc := .announce } :=
  ⟨rfl, rfl, hw.state, rfl⟩

theorem closing_clear (h : Waiting sampled marks w) :
    Closing sampled marks { w with jscalSwitch := false, pc := .complete } := by
  refine ⟨rfl, 0, rfl, ?_⟩
  cases sampled with
  | false => exact h.session
  | true => exact .inl ⟨h.session.1, h.session.2, rfl⟩

theorem idle_report (h : Closing sampled marks w) (hpc : w.pc = .report) :
    Idle { w with pc := .idle } :=
  ⟨rfl, h.switch, (h.at_report hpc).1⟩

theorem step_sane (e : Event) (h : Sane w) (hstep : step divByZero e w = some (os, w')) :
    Sane w' := by
  rcases h with hw | ⟨s, m, hw⟩ | ⟨s, m, hw⟩
  · cases e with
    | shell a =>
      obtain ⟨_, rfl | rfl⟩ := shellStep_idle hw.pc hstep
      · exact .inl hw
      · exact .inr (.inl ⟨_, _, waiting_command hw⟩)
    | key =>
      cases hstep
      exact .inl ⟨hw.pc, hw.switch, hw.state⟩
    | transmit hdg =>
      cases hstep
      have hstate := calibrateFloat_state divByZero w.jscalSwitch hdg w.calibrator
      rw [hw.switch, hw.state] at hstate
      refine .inl ⟨?_, hw.switch, ?_⟩
      · show w.pc.count = .idle
        rw [hw.pc]
        rfl
      · rw [hw.switch]
        exact hstate
  · by_cases he : e = .shell .clear
    · subst he
      obtain ⟨_, rfl⟩ := shellStep_clear hstep
      exact .inr (.inr ⟨_, _, closing_clear hw⟩)
    · exact .inr (.inl ⟨_, _, step_waiting e he hw hstep⟩)
  · by_cases he : e = .shell .report
    · subst he
      obtain ⟨hpc, _, rfl⟩ := shellStep_report hstep
      exact .inl (idle_report hw hpc)
    · exact .inr (.inr ⟨_, _, step_closing e he hw hstep⟩)

theorem trace_sane (events : List Event) (hw : Sane w)
    (hrun : trace (step divByZero) events w = some (os, w')) : Sane w' :=
  trace_history (R := fun (_ : Unit) (_ : List Mark) w => Sane w) (Q := fun _ => True)
    (fun c _ => c) (fun e _ _ _ _ _ _ h hstep => step_sane e h hstep) events
    (fun _ _ => trivial) (c := ()) (a := []) hw hrun

theorem foldl_isTransmit (events : List Event) (sampled : Bool) :
    events.foldl (fun s e => s || e.isTransmit) sampled =
      (sampled || events.any Event.isTransmit) := by
  induction events generalizing sampled with
  | nil => simp
  | cons e es ih => rw [List.foldl_cons, ih, List.any_cons, Bool.or_assoc]

theorem trace_waiting (events : List Event) (hne : ∀ e ∈ events, e ≠ .shell .clear)
    (hw : Waiting sampled marks w) (hrun : trace (step divByZero) events w = some (os, w')) :
    Waiting (sampled || events.any Event.isTransmit) (marks ++ os) w' := by
  have h := trace_history (R := Waiting) (Q := fun e => e ≠ .shell .clear)
    (fun s e => s || e.isTransmit) (fun e _ _ _ _ _ he h hstep => step_waiting e he h hstep)
    events hne hw hrun
  rwa [foldl_isTransmit] at h

theorem trace_closing (events : List Event) (hne : ∀ e ∈ events, e ≠ .shell .report)
    (hw : Closing sampled marks w) (hrun : trace (step divByZero) events w = some (os, w')) :
    Closing sampled (marks ++ os) w' := by
  have h := trace_history (R := Closing) (Q := fun e => e ≠ .shell .report)
    (fun s _ => s) (fun e _ _ _ _ _ he h hstep => step_closing e he h hstep) events hne hw hrun
  rwa [List.foldl_fixed] at h

def commandRun (window : List Event) : List Event :=
  .shell (.command 0) :: (window ++ [.shell .report])

def sampledBeforeClear (window : List Event) : Bool :=
  (window.takeWhile (· ≠ .shell .clear)).any Event.isTransmit

theorem Sane.idle (h : Sane w) (hpc : w.pc = .idle) : Idle w := by
  rcases h with hw | ⟨_, _, hw⟩ | ⟨_, _, hw⟩
  · exact hw
  · have := hw.pc
    rw [hpc] at this
    exact nomatch this
  · obtain ⟨n, hn, _⟩ := hw.session
    rw [hpc] at hn
    exact nomatch hn

theorem trace_window (window : List Event) (hne : ∀ e ∈ window, e ≠ .shell .report)
    (hw : Waiting false [] w) (hrun : trace (step divByZero) window w = some (os, w'))
    (hpc : w'.pc = .report) : Closing (sampledBeforeClear window) os w' := by
  have hbefore : ∀ e ∈ window.takeWhile (· ≠ .shell .clear), e ≠ .shell .clear := by
    intro e he
    exact of_decide_eq_true
      (List.mem_takeWhile_imp (p := fun e => decide (e ≠ Event.shell .clear)) he)
  have hsplit := List.takeWhile_append_dropWhile (p := (· ≠ Event.shell .clear)) (l := window)
  rw [← hsplit] at hrun
  obtain ⟨os₁, w₁, os₂, hfirst, hsecond, rfl⟩ := trace_append_eq_some hrun
  have hw₁ := trace_waiting _ hbefore hw hfirst
  rw [Bool.false_or, List.nil_append] at hw₁
  cases hdrop : window.dropWhile (· ≠ .shell .clear) with
  | nil =>
    -- the switch was never cleared, so the command cannot be at its report
    rw [hdrop] at hsecond
    obtain ⟨_, rfl⟩ := Prod.mk.inj (Option.some.inj hsecond)
    have := hw₁.pc
    rw [hpc] at this
    exact nomatch this
  | cons e after =>
    have hclear : e = .shell .clear := by
      have hhead := List.head_dropWhile_not (fun e => decide (e ≠ Event.shell .clear))
        (l := window) (by rw [hdrop]; exact List.cons_ne_nil e after)
      simp only [hdrop, List.head_cons, decide_eq_false_iff_not, not_not] at hhead
      exact hhead
    subst hclear
    rw [hdrop] at hsecond
    obtain ⟨os₃, w₂, os₄, hstep, hrest, rfl⟩ := trace_cons_eq_some hsecond
    obtain ⟨rfl, rfl⟩ := shellStep_clear hstep
    refine trace_closing after (fun e he => hne e ?_) (closing_clear hw₁) hrest
    rw [← hsplit, hdrop]
    exact List.mem_append_right _ (List.mem_cons_of_mem _ he)

theorem commandRun_marks (window : List Event) (hne : ∀ e ∈ window, e ≠ .shell .report)
    (hw : Sane w) (hrun : trace (step divByZero) (commandRun window) w = some (os, w')) :
    w'.calibrator.state = .off ∧
      os = (if sampledBeforeClear window then [.opened, .closed w'.calibrator.calData] else []) ++
        [.printed w'.calibrator.calData] := by
  obtain ⟨os₁, w₁, os₂, hcommand, hrest, rfl⟩ := trace_cons_eq_some hrun
  obtain ⟨hidle, rfl, rfl⟩ := shellStep_command hcommand
  obtain ⟨os₃, w₂, os₄, hwindow, hreport, rfl⟩ := trace_append_eq_some hrest
  obtain ⟨os₅, w₃, os₆, hstep, hnil, rfl⟩ := trace_cons_eq_some hreport
  obtain ⟨rfl, rfl⟩ := Prod.mk.inj (Option.some.inj hnil)
  obtain ⟨hpc, rfl, rfl⟩ := shellStep_report hstep
  have hclosing := trace_window window hne (waiting_command (hw.idle hidle)) hwindow hpc
  obtain ⟨hoff, hmarks⟩ := hclosing.at_report hpc
  exact ⟨hoff, by rw [hmarks]; rfl⟩

/-- Exactly one session, and the printed values are the ones it stored. -/
structure Calibrated (marks : List Mark) (w : World) : Prop where
  opened : marks.count .opened = 1
  closed : ∃ cal, marks.filter (· matches .closed _) = [.closed cal] ∧
    marks.filter (· matches .printed _) = [.printed cal]
  off : w.calibrator.state = .off

theorem command_calibrates_iff (divByZero : ℚ → Calibrator → CalData) (cal : CalData)
    (hist window : List Event) {marks₀ marks : List Mark} {w w' : World}
    (hhist : trace (step divByZero) hist (boot cal) = some (marks₀, w))
    (hne : ∀ e ∈ window, e ≠ .shell .report)
    (hrun : trace (step divByZero) (commandRun window) w = some (marks, w')) :
    Calibrated marks w' ↔
      ∃ hdg, .transmit hdg ∈ window.takeWhile (· ≠ .shell .clear) := by
  have hsampled : sampledBeforeClear window = true ↔
      ∃ hdg, Event.transmit hdg ∈ window.takeWhile (· ≠ .shell .clear) := by
    rw [sampledBeforeClear, List.any_eq_true]
    constructor
    · rintro ⟨e, he, ht⟩
      cases e with
      | transmit hdg => exact ⟨hdg, he⟩
      | _ => exact nomatch ht
    · rintro ⟨hdg, he⟩
      exact ⟨_, he, rfl⟩
  obtain ⟨hoff, rfl⟩ := commandRun_marks window hne (trace_sane hist (sane_boot cal) hhist) hrun
  rw [← hsampled]
  cases sampledBeforeClear window with
  | false =>
    refine iff_of_false (fun h => ?_) Bool.false_ne_true
    exact Nat.zero_ne_one h.opened
  | true => exact iff_of_true ⟨rfl, ⟨_, rfl, rfl⟩, hoff⟩ rfl

def leftHeading : Heading := .ofByte (-20)
def restHeading : Heading := .ofByte 10
def rightHeading : Heading := .ofByte 20

def sweepWindow : List Event :=
  [.shell .print, .shell (.poll false), .transmit rightHeading, .transmit leftHeading,
    .shell .wake, .key, .shell (.poll false), .shell .clear, .shell .print,
    .transmit restHeading, .transmit restHeading, .shell .wake]

theorem command_calibrates_sweep :
    Calibrated [.opened, .closed ⟨-10, 64 / 15, 64 / 5⟩, .printed ⟨-10, 64 / 15, 64 / 5⟩]
      ⟨.idle, false, 0, { powerOn with calData := ⟨-10, 64 / 15, 64 / 5⟩ }⟩ :=
  (command_calibrates_iff (fun _ m => m.calData) ⟨0, 1, 1⟩ [] sweepWindow
    rfl (by decide) (by decide +kernel)).mpr ⟨rightHeading, by decide⟩

theorem queued_key_skips_session : ∃ marks w w',
    trace (step fun _ m => m.calData) [.key] (boot ⟨0, 1, 1⟩) = some ([], w) ∧
      trace (step fun _ m => m.calData) (commandRun [.shell .print, .shell (.poll false),
        .shell .clear, .shell .print, .transmit restHeading, .transmit restHeading,
        .shell .wake]) w = some (marks, w') ∧ ¬Calibrated marks w' :=
  ⟨[.printed ⟨0, 1, 1⟩], ⟨.idle, false, 1, powerOn⟩, ⟨.idle, false, 0, powerOn⟩, rfl,
    by decide +kernel, fun h => Nat.zero_ne_one h.opened⟩

end BluePill.Shell
