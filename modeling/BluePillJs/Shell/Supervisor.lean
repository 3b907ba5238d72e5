import BluePillJs.Library.PartialRuns
import Mathlib.Logic.Function.Basic

/-! The loop of `main`, which keeps a shell running while the USB device is active and
gives back the memory of the one that has ended. -/

namespace BluePill.Shell
open PartialRuns

inductive ThreadState where
  | running
  | terminated
  deriving DecidableEq

structure Supervisor where
  shelltp : Option ℕ
  threads : ℕ → Option ThreadState
  next : ℕ
  usbActive : Bool

def Supervisor.start : Supervisor := ⟨none, fun _ => none, 0, false⟩

inductive LoopEvent where
  | usb (active : Bool)
  | exit (i : ℕ)
  | turn (memory : Bool)

inductive LoopMark where
  | created (i : ℕ)
  | exited (i : ℕ)
  | released (i : ℕ)

def Supervisor.create (w : Supervisor) : Supervisor := { w with
  shelltp := some w.next
  threads := Function.update w.threads w.next (some .running)
  next := w.next + 1 }

def Supervisor.release (i : ℕ) (w : Supervisor) : Supervisor := { w with
  shelltp := none
  threads := Function.update w.threads i none }

def loopStep : LoopEvent → Supervisor → Option (List LoopMark × Supervisor)
  | .usb active, w => some ([], { w with usbActive := active })
  -- the end of a thread that does not run is an error
  | .exit i, w =>
    if w.threads i = some .running then
      some ([.exited i], { w with threads := Function.update w.threads i (some .terminated) })
    else none
  | .turn memory, w =>
    match w.shelltp with
    | none =>
      -- the creation returns `NULL` when the heap is full
      if w.usbActive = true ∧ memory = true then some ([.created w.next], w.create)
      else some ([], w)
    | some i =>
      match w.threads i with
      -- a look at a thread that was released is an error
      | none => none
      | some .running => some ([], w)
      | some .terminated => some ([.released i], w.release i)

def lives (n : ℕ) : List LoopMark :=
  (List.range n).flatMap fun i => [.created i, .exited i, .released i]

def only (i : ℕ) (s : Option ThreadState) : ℕ → Option ThreadState :=
  Function.update (fun _ => none) i s

/-- One shell at the most, and the marks of all before it. -/
inductive Life (marks : List LoopMark) (w : Supervisor) : Prop where
  | vacant (hptr : w.shelltp = none) (hthreads : w.threads = fun _ => none)
      (hmarks : marks = lives w.next)
  | running (i : ℕ) (hptr : w.shelltp = some i) (hnext : w.next = i + 1)
      (hthreads : w.threads = only i (some .running)) (hmarks : marks = lives i ++ [.created i])
  | ended (i : ℕ) (hptr : w.shelltp = some i) (hnext : w.next = i + 1)
      (hthreads : w.threads = only i (some .terminated))
      (hmarks : marks = lives i ++ [.created i, .exited i])

variable {marks os : List LoopMark} {w w' : Supervisor}

theorem lives_succ (n : ℕ) :
    lives (n + 1) = lives n ++ [.created n, .exited n, .released n] := by
  unfold lives
  exact (congrArg (List.flatMap _) List.range_succ).trans List.flatMap_append

theorem only_self (i : ℕ) (s : Option ThreadState) : only i s i = s := Function.update_self _ _ _

theorem update_only (i : ℕ) (s s' : Option ThreadState) :
    Function.update (only i s) i s' = only i s' := Function.update_idem _ _ _

theorem only_none (i : ℕ) : only i none = fun _ => none := Function.update_eq_self i _

theorem only_ne_none_iff {i k : ℕ} {s : ThreadState} : only i (some s) k ≠ none ↔ i = k := by
  rw [only, Function.update_apply]
  split_ifs with h
  · exact iff_of_true (Option.some_ne_none s) h.symm
  · exact iff_of_false (fun hne => hne rfl) (Ne.symm h)

theorem Life.marks_prefix (h : Life marks w) : marks <+: lives w.next := by
  cases h with
  | vacant hptr hthreads hmarks =>
    exact ⟨[], (List.append_nil marks).trans hmarks⟩
  | running i hptr hnext hthreads hmarks =>
    rw [hnext, lives_succ, hmarks]
    exact ⟨_, List.append_assoc _ _ _⟩
  | ended i hptr hnext hthreads hmarks =>
    rw [hnext, lives_succ, hmarks]
    exact ⟨_, List.append_assoc _ _ _⟩

theorem Life.threads_iff (h : Life marks w) (k : ℕ) : w.threads k ≠ none ↔ w.shelltp = some k := by
  cases h with
  | vacant hptr hthreads hmarks =>
    rw [hptr, hthreads]
    exact iff_of_false (fun hne => hne rfl) fun heq => nomatch heq
  | running i hptr hnext hthreads hmarks =>
    rw [hptr, hthreads, only_ne_none_iff, Option.some_inj]
  | ended i hptr hnext hthreads hmarks =>
    rw [hptr, hthreads, only_ne_none_iff, Option.some_inj]

theorem exit_life {k : ℕ} (h : Life marks w) (hstep : loopStep (.exit k) w = some (os, w')) :
    Life (marks ++ os) w' := by
  rw [loopStep] at hstep
  split_ifs at hstep with hrun
  cases hstep
  have hne : w.threads k ≠ none := by
    rw [hrun]
    exact Option.some_ne_none _
  have hk := (h.threads_iff k).mp hne
  cases h with
  | vacant hptr hthreads hmarks =>
    rw [hptr] at hk
    exact nomatch hk
  | running i hptr hnext hthreads hmarks =>
    obtain rfl : i = k := Option.some.inj (hptr.symm.trans hk)
    refine .ended i hptr hnext ?_ ?_
    · rw [hthreads]
      exact update_only i _ _
    · rw [hmarks, List.append_assoc]
      rfl
  | ended i hptr hnext hthreads hmarks =>
    obtain rfl : i = k := Option.some.inj (hptr.symm.trans hk)
    rw [hthreads, only_self] at hrun
    exact nomatch hrun

theorem turn_life {memory : Bool} (h : Life marks w)
    (hstep : loopStep (.turn memory) w = some (os, w')) : Life (marks ++ os) w' := by
  have hsame : Life (marks ++ []) w := (List.append_nil marks).symm ▸ h
  rw [loopStep] at hstep
  cases h with
  | vacant hptr hthreads hmarks =>
    rw [hptr] at hstep
    dsimp only at hstep
    split_ifs at hstep
    · cases hstep
      refine .running w.next rfl rfl ?_ ?_
      · rw [Supervisor.create, hthreads]
        rfl
      · rw [hmarks]
    · cases hstep
      exact hsame
  | running i hptr hnext hthreads hmarks =>
    rw [hptr, hthreads] at hstep
    dsimp only at hstep
    rw [only_self] at hstep
    cases hstep
    exact hsame
  | ended i hptr hnext hthreads hmarks =>
    rw [hptr, hthreads] at hstep
    dsimp only at hstep
    rw [only_self] at hstep
    cases hstep
    refine .vacant rfl ?_ ?_
    · rw [Supervisor.release, hthreads, update_only, only_none]
    · show _ = lives w.next
      rw [hmarks, hnext, lives_succ, List.append_assoc]
      rfl

theorem loopStep_life (e : LoopEvent) (h : Life marks w) (hstep : loopStep e w = some (os, w')) :
    Life (marks ++ os) w' := by
  cases e with
  | usb active =>
    cases hstep
    rw [List.append_nil]
    cases h with
    | vacant hptr hthreads hmarks => exact .vacant hptr hthreads hmarks
    | running i hptr hnext hthreads hmarks => exact .running i hptr hnext hthreads hmarks
    | ended i hptr hnext hthreads hmarks => exact .ended i hptr hnext hthreads hmarks
  | exit i => exact exit_life h hstep
  | turn memory => exact turn_life h hstep

theorem turn_creates (hptr : w.shelltp = none) (hactive : w.usbActive = true) :
    loopStep (.turn true) w = some ([.created w.next], w.create) := by
  rw [loopStep, hptr]
  exact if_pos ⟨hactive, rfl⟩

theorem create_running (w : Supervisor) : w.create.threads w.next = some .running :=
  Function.update_self _ _ _

theorem Life.respawns (h : Life marks w) (hactive : w.usbActive = true)
    (hidle : ∀ i, w.threads i ≠ some .running) :
    ∃ turns os w' i, turns <+: [.turn true, .turn true] ∧ trace loopStep turns w = some (os, w') ∧
      w'.shelltp = some i ∧ w'.threads i = some .running := by
  cases h with
  | vacant hptr hthreads hmarks =>
    refine ⟨[.turn true], [.created w.next], w.create, w.next, ⟨_, rfl⟩, ?_, rfl,
      create_running w⟩
    rw [trace_singleton, turn_creates hptr hactive]
  | running i hptr hnext hthreads hmarks =>
    refine absurd ?_ (hidle i)
    rw [hthreads, only_self]
  | ended i hptr hnext hthreads hmarks =>
    have hrelease : loopStep (.turn true) w = some ([.released i], w.release i) := by
      rw [loopStep, hptr]
      dsimp only
      rw [hthreads, only_self]
    refine ⟨[.turn true, .turn true], [.released i] ++ [.created w.next], (w.release i).create,
      w.next, List.prefix_rfl, ?_, rfl, create_running (w.release i)⟩
    rw [trace, hrelease, Option.bind_some, trace_singleton,
      turn_creates (w := w.release i) rfl hactive]
    rfl

/-- In every run there is one shell at most; each was started after the one before it had
ended and been released, none is released before it has ended or twice, and a shell that
has ended is replaced as soon as the device is active and there is memory. -/
theorem one_shell_at_a_time (events : List LoopEvent)
    (hrun : trace loopStep events .start = some (marks, w)) :
    marks <+: lives w.next ∧ (∀ i, w.threads i ≠ none ↔ w.shelltp = some i) ∧
      (w.usbActive = true → (∀ i, w.threads i ≠ some .running) →
        ∃ turns os w' i, turns <+: [.turn true, .turn true] ∧
          trace loopStep turns w = some (os, w') ∧
          w'.shelltp = some i ∧ w'.threads i = some .running) := by
  have hlife : Life marks w := by
    have hkept := trace_history (R := fun (_ : Unit) => Life) (Q := fun _ => True) (fun c _ => c)
      (fun e _ _ _ _ _ _ h hstep => loopStep_life e h hstep) events (fun _ _ => trivial)
      (c := ()) (Life.vacant rfl rfl rfl) hrun
    exact hkept
  exact ⟨hlife.marks_prefix, hlife.threads_iff, hlife.respawns⟩

def firstShellEnds : List LoopEvent := [.usb true, .turn true, .exit 0, .turn true, .turn true]

theorem one_shell_at_a_time_twice : ∃ marks w,
    trace loopStep firstShellEnds .start = some (marks, w) ∧ marks <+: lives w.next ∧
      (∀ i, w.threads i ≠ none ↔ w.shelltp = some i) ∧
      (w.usbActive = true → (∀ i, w.threads i ≠ some .running) →
        ∃ turns os w' i, turns <+: [.turn true, .turn true] ∧
          trace loopStep turns w = some (os, w') ∧
          w'.shelltp = some i ∧ w'.threads i = some .running) := by
  obtain ⟨⟨marks, w⟩, hrun⟩ : ∃ p, trace loopStep firstShellEnds .start = some p :=
    Option.isSome_iff_exists.mp rfl
  exact ⟨marks, w, hrun, one_shell_at_a_time firstShellEnds hrun⟩

end BluePill.Shell
