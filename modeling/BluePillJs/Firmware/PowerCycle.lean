import BluePillJs.Axis.Transmit
import BluePillJs.Flash.Refinement
import BluePillJs.Library.PastTime

/-! The firmware between the sensor and the host: calls of `transmit`, the commands that
store the calibration, and the boot after a loss of power, where `main` calls `cal_load`. -/

namespace BluePill.Firmware
open Axis Calibration Flash Keeping PartialRuns PastTime

structure Board where
  state : JsState
  cs : CalState
  led : Bool
  world : World

def Board.start : Board := ⟨.off, ⟨0, 0, 0⟩, true, factory⟩

def Board.reset (b : Board) : Board := { b with state := .off, cs := ⟨0, 0, 0⟩, led := true }

/-- Where the power may go, `reread` says whether the read of the next boot succeeds. -/
inductive BoardEvent where
  | transmit (c : TransmitCall)
  | calSave (argc : ℕ) (d : DriverAnswers) (reread : Bool)
  | flashwrite (argc : ℕ) (d : DriverAnswers) (reread : Bool)
  | calLoad (argc : ℕ) (noError : Bool)
  | powerCycle (reread : Bool)

def BoardEvent.restarts : BoardEvent → Bool
  | .transmit _ | .calLoad _ _ => false
  | .calSave argc d _ | .flashwrite argc d _ => argc == 0 && d.powerLost
  | .powerCycle _ => true

def boot (restarts reread : Bool) : List Flash.Event :=
  if restarts then [.powerCycle, .calLoad 0 reread] else []

def BoardEvent.storage : BoardEvent → List Flash.Event
  | .transmit _ => []
  | .calSave argc d reread => .calSave argc d :: boot (argc == 0 && d.powerLost) reread
  | .flashwrite argc d reread => .flashwrite argc d :: boot (argc == 0 && d.powerLost) reread
  | .calLoad argc noError => [.calLoad argc noError]
  | .powerCycle reread => boot true reread

inductive Mark where
  | closed (cal : CalData)
  | report (c : TransmitCall) (r : HidData)

section
variable (round : CalData → CalWords) (value : CalWords → CalData)

def reportOf (data : CalWords) (c : TransmitCall) : HidData :=
  report (calApply (value data) c.heading) (readButtons c.port)

/-- `transmit`, where `round` makes the floats that a closing call stores and `value` reads
them. -/
def transmitStep (c : TransmitCall) (b : Board) : Option (List Mark × Board) := do
  let m ← calibrateCall c.toCall ⟨b.state, b.cs, value b.world.calFrame.data, b.led⟩
  let closed := if b.state = .ending then [m.calData] else []
  let world := worldAfter (closed.map fun cal => .calibrate (round cal)) b.world
  some (closed.map .closed ++ [.report c (reportOf value world.calFrame.data c)],
    ⟨m.state, m.cs, m.led, world⟩)

def boardStep : BoardEvent → Board → Option (List Mark × Board)
  | .transmit c, b => transmitStep round value c b
  | e, b => some ([], { if e.restarts then b.reset else b with
      world := worldAfter e.storage b.world })

variable {round value} {b b' : Board} {ms : List Mark}

theorem transmitStep_marks {c : TransmitCall} (h : transmitStep round value c b = some (ms, b')) :
    ∃ closed : List CalData,
      ms = closed.map .closed ++ [.report c (reportOf value b'.world.calFrame.data c)] ∧
      b'.world = worldAfter (closed.map fun cal => .calibrate (round cal)) b.world := by
  obtain ⟨m, _, heq⟩ := Option.bind_eq_some_iff.mp h
  obtain ⟨rfl, rfl⟩ := Prod.mk.inj (Option.some.inj heq)
  exact ⟨_, rfl, rfl⟩

theorem boardStep_storage {e : BoardEvent} (he : ∀ c, e ≠ .transmit c) : boardStep round value e b =
    some ([], { if e.restarts then b.reset else b with
      world := worldAfter e.storage b.world }) := by
  cases e with
  | transmit c => exact absurd rfl (he c)
  | _ => rfl

theorem transmitStep_idle {c : TransmitCall} (hb : b.state = .off) (hc : c.jscalSwitch = false) :
    transmitStep round value c b = some ([.report c (reportOf value b.world.calFrame.data c)],
      { b with cs := b.cs.carried c.heading }) := by
  rw [transmitStep, calibrateCall, hc, calibrate_idle hb, hb]
  rfl

/-! ## Where the calibration in use comes from -/

variable (round value) in
def Computed (marks : List Mark) (data : CalWords) : Prop :=
  data = initialFrame.data ∨ ∃ cal, .closed cal ∈ marks ∧ data = round cal

variable (round value) in
/-- A report is made from the heading of its own call and a calibration of the past. -/
def Accounted (before : List Mark) : Mark → Prop
  | .closed _ => True
  | .report c r => ∃ data, Computed round before data ∧ r = reportOf value data c

variable (round) in
def Sourced (marks : List Mark) (w : World) : Prop :=
  ∃ es, worldAfter es factory = w ∧
    ∀ data, .calibrate data ∈ es → ∃ cal, .closed cal ∈ marks ∧ data = round cal

theorem replace_not_mem_write {effect : Option ℕ → List (Op CalWords)} {data : CalWords}
    (heffect : ∀ k, .replace data ∉ effect k) (argc n : ℕ) (d : DriverAnswers) :
    .replace data ∉ if argc > 0 then [] else effect (d.programmed n) ++ restartOps d.powerLost := by
  have hrestart : .replace data ∉ restartOps d.powerLost := by
    unfold restartOps
    split_ifs <;> simp
  split_ifs
  · exact List.not_mem_nil
  · simp [heffect, hrestart]

theorem mem_ops_replace {e : Flash.Event} {data : CalWords} (h : .replace data ∈ e.ops) :
    e = .calibrate data := by
  cases e with
  | calSave argc d =>
    refine absurd h (replace_not_mem_write (fun k => ?_) argc 20 d)
    unfold saveOps
    split
    · simp
    · split_ifs <;> simp
  | flashwrite argc d =>
    refine absurd h (replace_not_mem_write (fun k => ?_) argc 13 d)
    unfold discardOps
    split <;> simp
  | calLoad argc noError =>
    simp only [Event.ops] at h
    split_ifs at h <;> simp at h
  | calibrate data' =>
    rw [Event.ops, List.mem_singleton] at h
    rw [Op.replace.inj h]
  | powerCycle => simp [Event.ops] at h

theorem Sourced.computed {marks : List Mark} {w : World} (h : Sourced round marks w) :
    Computed round marks w.calFrame.data := by
  obtain ⟨es, rfl, hes⟩ := h
  have hall : (keeper (worldAfter es factory)).All (Computed round marks) := by
    rw [← history_world, history_keeper]
    refine Keeper.All.run ⟨.inl rfl, nofun⟩ (.inl rfl) fun data hdata => ?_
    obtain ⟨e, he, hop⟩ := List.mem_flatMap.mp hdata
    exact .inr (hes data (mem_ops_replace hop ▸ he))
  exact hall.used

theorem Sourced.mono {marks : List Mark} {w : World} (h : Sourced round marks w) :
    Sourced round (marks ++ ms) w := by
  obtain ⟨es, hw, hes⟩ := h
  refine ⟨es, hw, fun data hdata => ?_⟩
  obtain ⟨cal, hcal, heq⟩ := hes data hdata
  exact ⟨cal, List.mem_append_left ms hcal, heq⟩

theorem Sourced.append {marks : List Mark} {w : World} (h : Sourced round marks w)
    {es : List Flash.Event}
    (hes : ∀ data, .calibrate data ∈ es → ∃ cal, .closed cal ∈ marks ∧ data = round cal) :
    Sourced round marks (worldAfter es w) := by
  obtain ⟨before, rfl, hbefore⟩ := h
  refine ⟨before ++ es, worldAfter_append before es factory, fun data hdata => ?_⟩
  exact (List.mem_append.mp hdata).elim (hbefore data) (hes data)

theorem storage_computes_nothing {e : BoardEvent} {data : CalWords} :
    .calibrate data ∉ e.storage := by
  have hboot (restarts reread : Bool) : .calibrate data ∉ boot restarts reread := by
    cases restarts <;> simp [boot]
  cases e <;> simp [BoardEvent.storage, hboot]

variable (round value) in
structure Logged (marks : List Mark) (b : Board) : Prop where
  reports : Always (Accounted round value) marks
  sourced : Sourced round marks b.world

theorem Logged.step {marks : List Mark} (h : Logged round value marks b) {e : BoardEvent}
    (hstep : boardStep round value e b = some (ms, b')) :
    Logged round value (marks ++ ms) b' := by
  by_cases he : ∃ c, e = .transmit c
  · obtain ⟨c, rfl⟩ := he
    obtain ⟨closed, rfl, hworld⟩ := transmitStep_marks hstep
    have hsourced : Sourced round (marks ++ closed.map .closed) b'.world := by
      rw [hworld]
      refine h.sourced.mono.append fun data hdata => ?_
      obtain ⟨cal, hcal, heq⟩ := List.mem_map.mp hdata
      exact ⟨cal, List.mem_append_right _ (List.mem_map_of_mem hcal),
        (Flash.Event.calibrate.inj heq).symm⟩
    rw [← List.append_assoc]
    refine ⟨always_append_singleton.mpr ⟨h.reports.append ?_, _, hsourced.computed, rfl⟩, ?_⟩
    · intro before mark after hsplit
      have hmark : mark ∈ closed.map Mark.closed := hsplit ▸ by simp
      obtain ⟨cal, _, rfl⟩ := List.mem_map.mp hmark
      exact trivial
    · exact hsourced.mono
  · rw [boardStep_storage fun c hc => he ⟨c, hc⟩] at hstep
    obtain ⟨rfl, rfl⟩ := Prod.mk.inj (Option.some.inj hstep)
    rw [List.append_nil]
    exact ⟨h.reports, h.sourced.append fun _ hdata => absurd hdata storage_computes_nothing⟩

theorem reports_accounted {events : List BoardEvent} {marks : List Mark}
    (hrun : trace (boardStep round value) events .start = some (marks, b)) :
    Always (Accounted round value) marks := by
  have hstart : Logged round value [] Board.start :=
    ⟨always_nil _, [], rfl, fun _ hdata => absurd hdata List.not_mem_nil⟩
  have hlogged := trace_history (R := fun _ => Logged round value) (Q := fun _ => True)
    (fun (u : Unit) _ => u) (fun e _ marks b ms b' _ h hstep => h.step hstep) events
    (fun _ _ => trivial) (c := ()) hstart hrun
  exact hlogged.reports

/-! ## A calibration that was saved -/

def BoardEvent.Touches : BoardEvent → Prop
  | .calSave argc d _ => argc = 0 ∧ (d.programmed 20).isSome
  | .flashwrite argc d _ => argc = 0 ∧ (d.programmed 13).isSome
  | _ => False

theorem boot_spares (restarts reread : Bool) :
    ∀ op ∈ (boot restarts reread).flatMap Event.ops, op.Spares := by
  cases restarts <;> cases reread <;> simp [boot, Event.ops, Op.Spares]

theorem restartOps_spares (restarts : Bool) : ∀ op ∈ restartOps restarts, op.Spares := by
  cases restarts <;> simp [restartOps, Op.Spares]

theorem write_spares {effect : Option ℕ → List (Op CalWords)} (heffect : effect none = [])
    {argc n : ℕ} {d : DriverAnswers} (h : ¬(argc = 0 ∧ (d.programmed n).isSome)) :
    ∀ op ∈ if argc > 0 then [] else effect (d.programmed n) ++ restartOps d.powerLost,
      op.Spares := by
  rcases Nat.eq_zero_or_pos argc with rfl | hargc
  · have hnone : d.programmed n = none := by simpa using h
    simpa [hnone, heffect] using restartOps_spares d.powerLost
  · simp [hargc]

theorem storage_spares {e : BoardEvent} (he : ¬e.Touches) :
    ∀ op ∈ e.storage.flatMap Event.ops, op.Spares := by
  cases e with
  | transmit c => exact fun op hop => absurd hop List.not_mem_nil
  | calSave argc d reread =>
    rw [BoardEvent.storage, List.flatMap_cons, List.forall_mem_append]
    have hsave : saveOps none = [] := rfl
    exact ⟨write_spares hsave he, boot_spares _ _⟩
  | flashwrite argc d reread =>
    rw [BoardEvent.storage, List.flatMap_cons, List.forall_mem_append]
    have hdiscard : discardOps none = [] := rfl
    exact ⟨write_spares hdiscard he, boot_spares _ _⟩
  | calLoad argc noError =>
    simp only [BoardEvent.storage, List.flatMap_singleton, Event.ops]
    split_ifs <;> simp [Op.Spares]
  | powerCycle reread => exact boot_spares true reread

theorem calibrations_spare (datas : List CalWords) :
    ∀ op ∈ (datas.map Flash.Event.calibrate).flatMap Event.ops, op.Spares := by
  intro op hop
  obtain ⟨e, he, hop⟩ := List.mem_flatMap.mp hop
  obtain ⟨data, _, rfl⟩ := List.mem_map.mp he
  rw [Event.ops, List.mem_singleton] at hop
  exact hop ▸ trivial

theorem boardStep_world {e : BoardEvent} (h : boardStep round value e b = some (ms, b')) :
    ∃ es, b'.world = worldAfter es b.world ∧
      (¬e.Touches → ∀ op ∈ es.flatMap Event.ops, op.Spares) := by
  by_cases he : ∃ c, e = .transmit c
  · obtain ⟨c, rfl⟩ := he
    obtain ⟨closed, _, hworld⟩ := transmitStep_marks h
    refine ⟨_, hworld, fun _ => ?_⟩
    have hspare := calibrations_spare (closed.map round)
    rwa [List.map_map] at hspare
  · rw [boardStep_storage fun c hc => he ⟨c, hc⟩] at h
    obtain ⟨_, rfl⟩ := Prod.mk.inj (Option.some.inj h)
    exact ⟨_, rfl, storage_spares⟩

theorem trace_world {events : List BoardEvent}
    (h : trace (boardStep round value) events b = some (ms, b')) :
    ∃ es, b'.world = worldAfter es b.world ∧
      ((∀ e ∈ events, ¬e.Touches) → ∀ op ∈ es.flatMap Event.ops, op.Spares) := by
  induction events generalizing b ms with
  | nil =>
    obtain ⟨_, rfl⟩ := Prod.mk.inj (Option.some.inj h)
    exact ⟨[], rfl, fun _ op hop => absurd hop List.not_mem_nil⟩
  | cons e events ih =>
    obtain ⟨_, m, _, hstep, hrest, _⟩ := trace_cons_eq_some h
    obtain ⟨es, hm, hfirst⟩ := boardStep_world hstep
    obtain ⟨es', hb', hothers⟩ := ih hrest
    refine ⟨es ++ es', ?_, fun hquiet => ?_⟩
    · rw [hb', hm, worldAfter_append]
    · rw [List.forall_mem_cons] at hquiet
      rw [List.flatMap_append, List.forall_mem_append]
      exact ⟨hfirst hquiet.1, hothers hquiet.2⟩

theorem idle_trace (hb : b.state = .off) {calls : List TransmitCall}
    (hcalls : ∀ c ∈ calls, c.jscalSwitch = false) :
    (trace (boardStep round value) (calls.map .transmit) b).map Prod.fst =
      some (calls.map fun c => .report c (reportOf value b.world.calFrame.data c)) := by
  induction calls generalizing b with
  | nil => rfl
  | cons c calls ih =>
    rw [List.forall_mem_cons] at hcalls
    have hstep : boardStep round value (.transmit c) b = _ := transmitStep_idle hb hcalls.1
    have hrest := ih (b := { b with cs := b.cs.carried c.heading }) hb hcalls.2
    obtain ⟨⟨os, b'⟩, hrun, rfl⟩ := Option.map_eq_some_iff.mp hrest
    rw [List.map_cons, trace, hstep, Option.bind_some, hrun]
    rfl

/-- Once `cal_save` has programmed the whole frame, nothing but another write comes
between it and the calibration that the next boot takes up. -/
theorem saved_calibration_returns {events after : List BoardEvent} (calls : List TransmitCall)
    {marks : List Mark} {b₁ : Board} {d : DriverAnswers} {k : ℕ} {reread : Bool}
    (hrun : trace (boardStep round value) events .start = some (marks, b))
    (hsaved : d.programmed 20 = some k) (hk : 20 ≤ k)
    (hafter : trace (boardStep round value) (.calSave 0 d reread :: after) b = some (ms, b₁))
    (hspared : ∀ e ∈ after, ¬e.Touches) (hoff : b.state = .off)
    (hcalls : ∀ c ∈ calls, c.jscalSwitch = false) :
    (trace (boardStep round value) (.powerCycle true :: calls.map .transmit) b₁).map Prod.fst =
      (trace (boardStep round value) (calls.map .transmit) b).map Prod.fst := by
  obtain ⟨_, m, _, hsave, hrest, _⟩ := trace_cons_eq_some hafter
  obtain ⟨_, rfl⟩ := Prod.mk.inj (Option.some.inj hsave)
  obtain ⟨es, hb₁, hes⟩ := trace_world hrest
  obtain ⟨before, hbefore, _⟩ := trace_world hrun
  have hops : (Flash.Event.calSave 0 d).ops = .save :: restartOps d.powerLost := by
    simp [Event.ops, hsaved, saveOps, hk]
  have hwords : (worldAfter (boot true true) b₁.world).calFrame.data = b.world.calFrame.data := by
    -- between the save and the boot nothing touches the place
    have hspare : ∀ op ∈ restartOps d.powerLost ++
        (boot (0 == 0 && d.powerLost) reread).flatMap Event.ops ++ es.flatMap Event.ops,
        op.Spares := by
      rw [List.forall_mem_append, List.forall_mem_append]
      exact ⟨⟨restartOps_spares _, boot_spares _ _⟩, hes hspared⟩
    have hplace := worldAfter_keeper ⟨before, hbefore.symm⟩
      (BoardEvent.storage (.calSave 0 d reread) ++ es ++ boot true true)
    rw [worldAfter_append, worldAfter_append, List.flatMap_append, List.flatMap_append,
      BoardEvent.storage, List.flatMap_cons, hops] at hplace
    rw [hb₁]
    exact (congrArg Keeper.used hplace).trans (Keeper.restart_load hspare)
  have hstep : boardStep round value (.powerCycle true) b₁ =
    some ([], { b₁.reset with world := worldAfter (boot true true) b₁.world }) := rfl
  have hidle : (trace (boardStep round value) (calls.map .transmit)
    { b₁.reset with world := worldAfter (boot true true) b₁.world }).map Prod.fst = _ :=
    idle_trace rfl hcalls
  rw [idle_trace hoff hcalls, ← hwords, ← hidle, trace, hstep, Option.bind_some, Option.map_map]
  rfl

end

def sweptWords (cal : CalData) : CalWords :=
  if cal = ⟨0, 4, 2⟩ then ⟨0, 0x40800000, 0x40000000⟩ else initialFrame.data

def sweptValue (data : CalWords) : CalData :=
  if data = ⟨0, 0x40800000, 0x40000000⟩ then ⟨0, 4, 2⟩ else ⟨0, 1, 1⟩

def idleAt (h : Int8) : TransmitCall := ⟨⟨.ofByte h, false⟩, 0xFFFF⟩

def sweptSession : List BoardEvent :=
  [.transmit ⟨⟨.ofByte 0, true⟩, 0xFFFF⟩, .transmit ⟨⟨.ofByte 64, true⟩, 0xFFFF⟩,
    .transmit (idleAt (-32)), .transmit (idleAt 0)]

def lostSave : List BoardEvent :=
  sweptSession ++ [.transmit (idleAt 16), .calSave 0 ⟨.noError, .noError, .powerLost 7⟩ true,
    .transmit (idleAt 16)]

theorem reports_accounted_lost : ∃ marks b,
    trace (boardStep sweptWords sweptValue) lostSave .start = some (marks, b) ∧
      Always (Accounted sweptWords sweptValue) marks := by
  have hsome : (trace (boardStep sweptWords sweptValue) lostSave .start).isSome := by
    decide +kernel
  obtain ⟨⟨marks, b⟩, hrun⟩ := Option.isSome_iff_exists.mp hsome
  exact ⟨marks, b, hrun, reports_accounted hrun⟩

def savedSession : List BoardEvent :=
  [.calSave 0 ⟨.noError, .noError, .noError⟩ true, .transmit (idleAt 16), .powerCycle false]

theorem saved_calibration_returns_swept : ∃ marks b ms b₁,
    trace (boardStep sweptWords sweptValue) sweptSession .start = some (marks, b) ∧
    trace (boardStep sweptWords sweptValue) savedSession b = some (ms, b₁) ∧
    (trace (boardStep sweptWords sweptValue) [.powerCycle true, .transmit (idleAt 16)] b₁).map
        Prod.fst =
      (trace (boardStep sweptWords sweptValue) [.transmit (idleAt 16)] b).map Prod.fst := by
  have hsome : (trace (boardStep sweptWords sweptValue) (sweptSession ++ savedSession)
      .start).isSome := by
    decide +kernel
  obtain ⟨⟨_, b₁⟩, hall⟩ := Option.isSome_iff_exists.mp hsome
  obtain ⟨marks, b, ms, hrun, hafter, _⟩ := trace_append_eq_some hall
  have hoff : (trace (boardStep sweptWords sweptValue) sweptSession .start).map (·.2.state) =
      some .off := by
    decide +kernel
  rw [hrun] at hoff
  refine ⟨marks, b, ms, b₁, hrun, hafter,
    saved_calibration_returns [idleAt 16] hrun rfl le_rfl hafter ?_
      (Option.some.inj hoff) ?_⟩
  · simp [BoardEvent.Touches]
  · simp [idleAt]

end BluePill.Firmware
