import BluePillJs.Usb.DataStage

/-! `transmit` fills in the report field by field, and the requests of the host are answered
in an interrupt, at any point in between. -/

namespace BluePill.Usb
open Axis

inductive Action where
  | storeX (v : Int8)
  | storeY (v : Int8)
  | storeZ (v : Int8)
  | storeButton (b : UInt8)
  | start

def actions (r : HidData) : List Action :=
  [.storeX r.x, .storeY r.y, .storeZ r.z, .storeButton r.button, .start]

inductive MicroEvent where
  | action (a : Action)
  | request (setup : Setup)

def MicroEvent.action? : MicroEvent → Option Action
  | .action a => some a
  | .request _ => none

def Action.run : Action → HidData → List HidData × HidData
  | .storeX v, h => ([], { h with x := v })
  | .storeY v, h => ([], { h with y := v })
  | .storeZ v, h => ([], { h with z := v })
  | .storeButton b, h => ([], { h with button := b })
  -- `hid_transmit` hands over the report as it finds it
  | .start, h => ([h], h)

def microStep (sdu : SerialHook) : MicroEvent → Device → List HidData × Device
  | .action a, d => ((a.run d.hidInData).1, { d with hidInData := (a.run d.hidInData).2 })
  | .request setup, d => ([], (hidRequestsHook sdu setup d).device)

def sent (sdu : SerialHook) : List MicroEvent → Device → List HidData
  | [], _ => []
  | e :: es, d => (microStep sdu e d).1 ++ sent sdu es (microStep sdu e d).2

def clearedTo (k : ℕ) (r : HidData) : HidData where
  x := if 0 < k then 0 else r.x
  y := if 1 < k then 0 else r.y
  z := if 2 < k then 0 else r.z
  button := if 3 < k then 0 else r.button

/-- `o` is `r` up to a cleared beginning, and whole if nothing is there to clear it. -/
def TornBy (clears : Prop) (r o : HidData) : Prop :=
  ∃ k, k ≤ 4 ∧ o = clearedTo k r ∧ (k = 0 ∨ clears)

structure Written (r : HidData) (k j : ℕ) (h : HidData) : Prop where
  le : k ≤ j
  x : 0 < j → h.x = (clearedTo k r).x
  y : 1 < j → h.y = (clearedTo k r).y
  z : 2 < j → h.z = (clearedTo k r).z
  button : 3 < j → h.button = (clearedTo k r).button

variable {sdu : SerialHook} {r h : HidData} {k j : ℕ} {d : Device} {clears : Prop}

theorem transmitCall_eq_actions (c : TransmitCall) (d : Device) :
    transmitCall c d = (Calibration.calibrateCall c.toCall d.calibrator).map fun m =>
      let r := report (calApply m.calData c.heading) (readButtons c.port)
      { d with
        calibrator := m
        hidInData := (actions r).foldl (fun h a => (a.run h).2) d.hidInData } := by
  unfold transmitCall transmit Calibration.calibrateCall
  cases Calibration.calibrate c.jscalSwitch c.heading d.calibrator <;> rfl

theorem sent_actions (r : HidData) (d : Device) :
    sent sdu ((actions r).map .action) d = [r] := rfl

theorem written_none (r h : HidData) : Written r 0 0 h where
  le := le_rfl
  x hj := absurd hj (lt_irrefl 0)
  y hj := absurd hj (Nat.not_lt_zero 1)
  z hj := absurd hj (Nat.not_lt_zero 2)
  button hj := absurd hj (Nat.not_lt_zero 3)

theorem written_cleared (r : HidData) (j : ℕ) : Written r j j ⟨0, 0, 0, 0⟩ where
  le := le_rfl
  x hj := (if_pos hj).symm
  y hj := (if_pos hj).symm
  z hj := (if_pos hj).symm
  button hj := (if_pos hj).symm

theorem Written.all (hw : Written r k 4 h) : h = clearedTo k r := by
  obtain ⟨x, y, z, button⟩ := h
  obtain rfl : x = (clearedTo k r).x := hw.x (by decide)
  obtain rfl : y = (clearedTo k r).y := hw.y (by decide)
  obtain rfl : z = (clearedTo k r).z := hw.z (by decide)
  obtain rfl : button = (clearedTo k r).button := hw.button (by decide)
  rfl

theorem Written.store (hw : Written r k j h) {a : Action} {rest : List Action} (hj : j < 4)
    (ha : (actions r).drop j = a :: rest) : Written r k (j + 1) (a.run h).2 ∧ (a.run h).1 = [] ∧
      rest = (actions r).drop (j + 1) := by
  have hk := hw.le
  match j, hj with
  | 0, _ =>
    cases ha
    refine ⟨⟨by omega, fun _ => (if_neg (by omega)).symm, fun h1 => ?_, fun h2 => ?_,
      fun h3 => ?_⟩, rfl, rfl⟩ <;> omega
  | 1, _ =>
    cases ha
    refine ⟨⟨by omega, fun _ => hw.x (by omega), fun _ => (if_neg (by omega)).symm, fun h2 => ?_,
      fun h3 => ?_⟩, rfl, rfl⟩ <;> omega
  | 2, _ =>
    cases ha
    refine ⟨⟨by omega, fun _ => hw.x (by omega), fun _ => hw.y (by omega),
      fun _ => (if_neg (by omega)).symm, fun h3 => ?_⟩, rfl, rfl⟩
    omega
  | 3, _ =>
    cases ha
    exact ⟨⟨by omega, fun _ => hw.x (by omega), fun _ => hw.y (by omega), fun _ => hw.z (by omega),
      fun _ => (if_neg (by omega)).symm⟩, rfl, rfl⟩

theorem hidRequestsHook_hidInData (sdu : SerialHook) (setup : Setup) (d : Device) :
    (hidRequestsHook sdu setup d).device.hidInData = d.hidInData ∨
      IsGetReport setup ∧ (hidRequestsHook sdu setup d).device.hidInData = ⟨0, 0, 0, 0⟩ := by
  unfold hidRequestsHook IsGetReport
  split_ifs with hstd hcls hserial
  · left
    have hframe := getDescriptor_hidInData (setup 3) (setup 2) (usbFetchWord (setup 4) (setup 5)) d
    unfold standardRequest
    split_ifs
    · revert hframe
      rcases getDescriptor (setup 3) (setup 2) (usbFetchWord (setup 4) (setup 5)) d with
        ⟨_ | dp, d'⟩
      · exact id
      · exact id
    · rfl
  · unfold hidClassRequest
    split_ifs with hreport
    · exact .inr ⟨⟨hcls, hreport⟩, rfl⟩
    all_goals exact .inl rfl
  · exact .inl rfl
  · exact .inl rfl

theorem sent_requests {events : List MicroEvent} (h : events.filterMap MicroEvent.action? = [])
    (d : Device) : sent sdu events d = [] := by
  induction events generalizing d with
  | nil => rfl
  | cons e es ih =>
    cases e with
    | action a => exact absurd h (List.cons_ne_nil _ _)
    | request setup => exact ih h _

theorem sent_torn {rest : List HidData} (events : List MicroEvent)
    (hclears : ∀ setup, .request setup ∈ events → IsGetReport setup → clears)
    (hj : j ≤ 4) (hk : k = 0 ∨ clears) (hw : Written r k j d.hidInData)
    (hacts : events.filterMap MicroEvent.action? =
      (actions r).drop j ++ rest.flatMap actions) :
    List.Forall₂ (TornBy clears) (r :: rest) (sent sdu events d) := by
  induction events generalizing r rest k j d with
  | nil =>
    have hnil := (List.append_eq_nil_iff.mp hacts.symm).1
    have hlen := congrArg List.length hnil
    rw [List.length_drop] at hlen
    have hfive : (actions r).length = 5 := rfl
    rw [hfive, List.length_nil] at hlen
    omega
  | cons e es ih =>
    have hrest : ∀ setup, .request setup ∈ es → IsGetReport setup → clears := fun setup hmem =>
      hclears setup (List.mem_cons_of_mem e hmem)
    cases e with
    | request setup =>
      rcases hidRequestsHook_hidInData sdu setup d with hsame | ⟨hget, hzero⟩
      · have hw' : Written r k j (hidRequestsHook sdu setup d).device.hidInData := by
          rw [hsame]
          exact hw
        exact ih hrest hj hk hw' hacts
      · have hw' : Written r j j (hidRequestsHook sdu setup d).device.hidInData := by
          rw [hzero]
          exact written_cleared r j
        exact ih hrest hj (.inr (hclears setup List.mem_cons_self hget)) hw' hacts
    | action a =>
      have hhead : a :: es.filterMap MicroEvent.action? =
          (actions r).drop j ++ rest.flatMap actions := hacts
      rcases lt_or_eq_of_le hj with hlt | rfl
      · have hlen : 0 < ((actions r).drop j).length := by
          rw [List.length_drop]
          show 0 < 5 - j
          omega
        obtain ⟨b, more, hdrop⟩ := List.exists_cons_of_length_pos hlen
        rw [hdrop, List.cons_append] at hhead
        obtain ⟨rfl, htail⟩ := List.cons.inj hhead
        obtain ⟨hw', hquiet, rfl⟩ := hw.store hlt hdrop
        have htorn := ih (d := { d with hidInData := (a.run d.hidInData).2 }) hrest hlt hk hw' htail
        show List.Forall₂ _ _ ((a.run d.hidInData).1 ++ _)
        rw [hquiet]
        exact htorn
      · -- the report is complete and goes out; the next call starts from anything
        have hdrop : (actions r).drop 4 = [.start] := rfl
        rw [hdrop, List.singleton_append] at hhead
        obtain ⟨rfl, htail⟩ := List.cons.inj hhead
        refine List.Forall₂.cons ⟨k, hw.le, hw.all, hk⟩ ?_
        cases rest with
        | nil =>
          rw [List.flatMap_nil] at htail
          show List.Forall₂ _ [] (sent sdu es _)
          rw [sent_requests htail]
          exact .nil
        | cons r' rest =>
          rw [List.flatMap_cons] at htail
          exact ih hrest (Nat.zero_le 4) (.inl rfl) (written_none r' _) htail

/-- Wherever the requests of the host fall, every report that is sent is the computed one
with a beginning of it cleared, and the computed one if no `HID_GET_REPORT` comes. -/
theorem reports_torn_at_most (sdu : SerialHook) (reports : List HidData) (events : List MicroEvent)
    (hacts : events.filterMap MicroEvent.action? = reports.flatMap actions) (d : Device) :
    List.Forall₂ (TornBy (∃ setup, .request setup ∈ events ∧ IsGetReport setup)) reports
      (sent sdu events d) := by
  cases reports with
  | nil =>
    rw [sent_requests hacts]
    exact .nil
  | cons r rest =>
    exact sent_torn events (fun setup hmem hget => ⟨setup, hmem, hget⟩) (Nat.zero_le 4) (.inl rfl)
      (written_none r _) hacts

def fullLeft : HidData := ⟨-128, 127, -128, 3⟩

def askedBetween : List MicroEvent :=
  [.action (.storeX (-128)), .action (.storeY 127), .request ![0xA1, 0x01, 0, 1, 2, 0, 4, 0],
    .action (.storeZ (-128)), .action (.storeButton 3), .action .start]

theorem reports_torn_between :
    List.Forall₂ (TornBy (∃ setup, .request setup ∈ askedBetween ∧ IsGetReport setup)) [fullLeft]
      (sent lineCodingHook askedBetween powerOn) :=
  reports_torn_at_most lineCodingHook [fullLeft] askedBetween rfl powerOn

end BluePill.Usb
