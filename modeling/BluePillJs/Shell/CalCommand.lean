import BluePillJs.Calibration.Machine

/-! The `cal` command and the sensor thread, interleaved step by step. The two share
`jscal_switch`, the calibration machine and the serial input queue. -/

namespace BluePill.Shell
open Calibration PartialRuns

inductive ShellPc where
  | idle
  | announce
  | poll
  | napping (calls : ℕ)
  | clear
  | complete
  | settling (calls : ℕ)
  | report
  deriving DecidableEq

structure World where
  pc : ShellPc
  jscalSwitch : Bool
  keys : ℕ
  calibrator : Calibrator
  deriving DecidableEq

def boot (cal : CalData) : World where
  pc := .idle
  jscalSwitch := false
  keys := 0
  calibrator := { powerOn with calData := cal }

inductive ShellAction where
  | command (argc : ℕ)
  | print
  | poll (reset : Bool)
  | wake
  | clear
  | report
  deriving DecidableEq

inductive Event where
  | shell (a : ShellAction)
  | transmit (hdg : Heading)
  | key
  deriving DecidableEq

inductive Mark where
  | opened
  | closed (cal : CalData)
  | printed (cal : CalData)
  deriving DecidableEq

def ShellPc.count : ShellPc → ShellPc
  | .napping n => .napping (n + 1)
  | .settling n => .settling (n + 1)
  | pc => pc

/-- One step of `cmd_calibrate`; a sleep of 200 ms ends after two `transmit` calls or more. -/
def shellStep (a : ShellAction) (w : World) : Option (List Mark × World) :=
  match w.pc, a with
  | .idle, .command argc =>
    if argc > 0 then some ([], w) else some ([], { w with jscalSwitch := true, pc := .announce })
  | .announce, .print => some ([], { w with pc := .poll })
  | .poll, .poll reset =>
    -- a reset channel answers at once, and not with `Q_TIMEOUT`
    if reset then some ([], { w with pc := .clear })
    else if w.keys = 0 then some ([], { w with pc := .napping 0 })
    else some ([], { w with keys := w.keys - 1, pc := .clear })
  | .napping n, .wake => if 2 ≤ n then some ([], { w with pc := .poll }) else none
  | .clear, .clear => some ([], { w with jscalSwitch := false, pc := .complete })
  | .complete, .print => some ([], { w with pc := .settling 0 })
  | .settling n, .wake => if 2 ≤ n then some ([], { w with pc := .report }) else none
  | .report, .report => some ([.printed w.calibrator.calData], { w with pc := .idle })
  | _, _ => none

section
variable (divByZero : ℚ → Calibrator → CalData)

/-- `calibrate` with float division: `divByZero` is what it stores for a zero divisor. -/
def calibrateFloat (sw : Bool) (val : ℚ) (m : Calibrator) : Calibrator :=
  (calibrate sw val m).getD
    { state := .off, cs := ⟨0, 0, 0⟩, calData := divByZero val m, led := true }

def sensorMarks (m m' : Calibrator) : List Mark :=
  if m.state = .off ∧ m'.state = .on then [.opened]
  else if m.state = .ending then [.closed m'.calData]
  else []

def step : Event → World → Option (List Mark × World)
  | .shell a, w => shellStep a w
  | .transmit hdg, w =>
    let m := calibrateFloat divByZero w.jscalSwitch hdg w.calibrator
    some (sensorMarks w.calibrator m, { w with calibrator := m, pc := w.pc.count })
  | .key, w => some ([], { w with keys := w.keys + 1 })

theorem calibrateFloat_state (sw : Bool) (val : ℚ) (m : Calibrator) :
    (calibrateFloat divByZero sw val m).state = m.state.next sw := by
  unfold calibrateFloat
  cases h : calibrate sw val m with
  | some m' => exact calibrate_state h
  | none =>
    cases hs : m.state with
    | off =>
      cases sw with
      | false => exact nomatch (calibrate_idle hs).symm.trans h
      | true => exact nomatch (calibrate_open hs).symm.trans h
    | on => exact nomatch (calibrate_on hs sw).symm.trans h
    | ending => rfl

theorem calibrateFloat_calData {m : Calibrator} (h : m.state ≠ .ending) (sw : Bool) (val : ℚ) :
    (calibrateFloat divByZero sw val m).calData = m.calData := by
  unfold calibrateFloat
  cases hs : m.state with
  | off =>
    cases sw with
    | false => rw [calibrate_idle hs, Option.getD_some]
    | true => rw [calibrate_open hs, Option.getD_some]
  | on => rw [calibrate_on hs, Option.getD_some]
  | ending => exact absurd hs h

def ShellPc.waiting : ShellPc → Bool
  | .announce | .poll | .napping _ | .clear => true
  | _ => false

def ShellPc.settled : ShellPc → Option ℕ
  | .complete => some 0
  | .settling n => some n
  | .report => some 2
  | _ => none

end

variable {w w' : World} {os : List Mark} {a : ShellAction}

theorem shellStep_waiting (hpc : w.pc.waiting = true) (ha : a ≠ .clear)
    (h : shellStep a w = some (os, w')) :
    os = [] ∧ w'.pc.waiting = true ∧ w'.jscalSwitch = w.jscalSwitch ∧
      w'.calibrator = w.calibrator := by
  unfold shellStep at h
  split at h
  case h_2 => cases h; exact ⟨rfl, rfl, rfl, rfl⟩
  case h_3 =>
    split_ifs at h
    all_goals
      cases h
      exact ⟨rfl, rfl, rfl, rfl⟩
  case h_4 =>
    split_ifs at h
    cases h
    exact ⟨rfl, rfl, rfl, rfl⟩
  case h_5 => exact absurd rfl ha
  case h_9 => exact nomatch h
  -- outside the waiting part of the command
  all_goals
    rename_i hw
    rw [hw] at hpc
    exact nomatch hpc

theorem shellStep_closing {n : ℕ} (hn : w.pc.settled = some n) (ha : a ≠ .report)
    (h : shellStep a w = some (os, w')) :
    os = [] ∧ (∃ n', w'.pc.settled = some n' ∧ n' ≤ n) ∧ w'.jscalSwitch = w.jscalSwitch ∧
      w'.calibrator = w.calibrator := by
  unfold shellStep at h
  split at h
  case h_6 hw =>
    cases h
    exact ⟨rfl, ⟨0, rfl, Nat.zero_le n⟩, rfl, rfl⟩
  case h_7 k hw =>
    rw [hw] at hn
    split_ifs at h with hk
    cases h
    exact ⟨rfl, ⟨2, rfl, Option.some.inj hn ▸ hk⟩, rfl, rfl⟩
  case h_8 => exact absurd rfl ha
  case h_9 => exact nomatch h
  all_goals
    rename_i hw
    rw [hw] at hn
    exact nomatch hn

theorem shellStep_clear (h : shellStep .clear w = some (os, w')) :
    os = [] ∧ w' = { w with jscalSwitch := false, pc := .complete } := by
  cases hpc : w.pc with
  | clear =>
    simp only [shellStep, hpc, Option.some.injEq, Prod.mk.injEq] at h
    exact ⟨h.1.symm, h.2.symm⟩
  | _ => simp [shellStep, hpc] at h

theorem shellStep_report (h : shellStep .report w = some (os, w')) :
    w.pc = .report ∧ os = [.printed w.calibrator.calData] ∧ w' = { w with pc := .idle } := by
  cases hpc : w.pc with
  | report =>
    simp only [shellStep, hpc, Option.some.injEq, Prod.mk.injEq] at h
    exact ⟨rfl, h.1.symm, h.2.symm⟩
  | _ => simp [shellStep, hpc] at h

theorem shellStep_command (h : shellStep (.command 0) w = some (os, w')) :
    w.pc = .idle ∧ os = [] ∧ w' = { w with jscalSwitch := true, pc := .announce } := by
  cases hpc : w.pc with
  | idle =>
    simp only [shellStep, hpc, gt_iff_lt, lt_irrefl, ↓reduceIte, Option.some.injEq,
      Prod.mk.injEq] at h
    exact ⟨rfl, h.1.symm, h.2.symm⟩
  | _ => simp [shellStep, hpc] at h

theorem shellStep_idle (hpc : w.pc = .idle) (h : shellStep a w = some (os, w')) :
    os = [] ∧ (w' = w ∨ w' = { w with jscalSwitch := true, pc := .announce }) := by
  cases a with
  | command argc =>
    simp only [shellStep, hpc] at h
    split_ifs at h with hargc
    · cases h
      exact ⟨rfl, .inl rfl⟩
    · cases h
      exact ⟨rfl, .inr rfl⟩
  | _ => simp [shellStep, hpc] at h

theorem waiting_count (pc : ShellPc) : pc.count.waiting = pc.waiting := by cases pc <;> rfl

theorem settled_count {pc : ShellPc} {n : ℕ} (h : pc.settled = some n) :
    ∃ n', pc.count.settled = some n' ∧ n' ≤ n + 1 := by
  cases pc with
  | settling k => exact ⟨k + 1, rfl, Option.some.inj h ▸ le_rfl⟩
  | complete => exact ⟨0, rfl, Nat.zero_le _⟩
  | report => exact ⟨2, rfl, Option.some.inj h ▸ Nat.le_succ 2⟩
  | _ => exact nomatch h

end BluePill.Shell
