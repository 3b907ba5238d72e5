import BluePillJs.Usb.Requests

/-! The reports a host can read, from the interrupt endpoint and from the control
endpoint, and the brake axes in them. -/

namespace BluePill.Usb
open Axis PartialRuns
open Calibration (toByte)

inductive BusEvent where
  | transmit (c : TransmitCall)
  | request (setup : Setup)

def Outcome.report (o : Outcome) : Option HidData :=
  if o.answer ∧ o.transfer = some ⟨some .hidInData, 4⟩ then some o.device.hidInData else none

def busStep (sdu : SerialHook) : BusEvent → Device → Option (List HidData × Device)
  | .transmit c, d => (transmitCall c d).map fun d' => ([d'.hidInData], d')
  | .request setup, d =>
    let o := hidRequestsHook sdu setup d
    some (o.report.toList, o.device)

def OneBrake (r : HidData) : Prop := r.y = -128 ∨ r.z = -128

def BusEvent.IsGetReport : BusEvent → Prop
  | .transmit _ => False
  | .request setup => Usb.IsGetReport setup

theorem toByte_limit_jsMin : toByte (limit jsMin) = -128 := by decide +kernel

theorem report_oneBrake (hdg : ℚ) (button : UInt8) : OneBrake (report hdg button) := by
  unfold OneBrake report brakes
  split_ifs
  · exact .inr toByte_limit_jsMin
  · exact .inl toByte_limit_jsMin
  · exact .inl toByte_limit_jsMin

theorem transmit_oneBrake {c : TransmitCall} {d d' : Device} (h : transmitCall c d = some d') :
    OneBrake d'.hidInData := by
  obtain ⟨m, _, rfl⟩ := transmit_eq_some h
  exact report_oneBrake _ _

theorem standardRequest_report (setup : Setup) (d : Device) :
    (standardRequest setup d).report = none := by
  unfold standardRequest
  split_ifs
  · rcases getDescriptor (setup 3) (setup 2) (usbFetchWord (setup 4) (setup 5)) d with
      ⟨_ | dp, d'⟩
    · rfl
    · exact if_neg fun h => nomatch h.2
  · rfl

theorem hidClassRequest_report (bRequest : UInt8) (d : Device) :
    (hidClassRequest bRequest d).report =
      if bRequest = hidGetReportRequest then some ⟨0, 0, 0, 0⟩ else none := by
  unfold hidClassRequest
  split_ifs <;> rfl

/-- Among all requests only `HID_GET_REPORT` reads the report, which it clears first. -/
theorem hidRequestsHook_report (sdu : SerialHook) (setup : Setup) (d : Device) :
    (hidRequestsHook sdu setup d).report = some ⟨0, 0, 0, 0⟩ ∧ IsGetReport setup ∨
      (hidRequestsHook sdu setup d).report = none ∧ ¬IsGetReport setup := by
  unfold hidRequestsHook IsGetReport
  split_ifs with hstd hcls hserial
  · refine .inr ⟨standardRequest_report setup d, fun h => ?_⟩
    rw [h.1] at hstd
    exact absurd hstd (by decide)
  · rw [hidClassRequest_report]
    split_ifs with hreport
    · exact .inl ⟨rfl, hcls, hreport⟩
    · exact .inr ⟨rfl, fun h => hreport h.2⟩
  · exact .inr ⟨if_neg fun h => transfer_ne_hidInData _ d 4 h.2, fun h => hcls h.1⟩
  · exact .inr ⟨rfl, fun h => hcls h.1⟩

theorem busStep_oneBrake_iff (sdu : SerialHook) (e : BusEvent) (d : Device)
    (reports : List HidData) (d' : Device) (h : busStep sdu e d = some (reports, d')) :
    (∀ r ∈ reports, OneBrake r) ↔ ¬e.IsGetReport := by
  cases e with
  | transmit c =>
    obtain ⟨d₁, hd, heq⟩ := Option.map_eq_some_iff.mp h
    obtain ⟨rfl, _⟩ := Prod.mk.inj heq
    rw [List.forall_mem_singleton]
    exact iff_of_true (transmit_oneBrake hd) id
  | request setup =>
    obtain ⟨rfl, _⟩ := Prod.mk.inj (Option.some.inj h)
    show _ ↔ ¬Usb.IsGetReport setup
    rcases hidRequestsHook_report sdu setup d with ⟨hr, hget⟩ | ⟨hr, hget⟩
    · -- the cleared report has both brake axes half way
      rw [hr, Option.toList_some, List.forall_mem_singleton]
      refine iff_of_false (fun hbrake => ?_) (not_not.mpr hget)
      exact hbrake.elim (by decide) (by decide)
    · rw [hr]
      exact iff_of_true (fun _ hmem => nomatch hmem) hget

theorem reports_oneBrake_iff (sdu : SerialHook) (events : List BusEvent)
    {reports : List HidData} {d : Device}
    (hrun : trace (busStep sdu) events powerOn = some (reports, d)) :
    (∀ r ∈ reports, r.y = -128 ∨ r.z = -128) ↔ ∀ e ∈ events, ¬e.IsGetReport :=
  trace_forall_iff (busStep_oneBrake_iff sdu) events hrun

def centredCall : TransmitCall where
  heading := .ofByte 10
  jscalSwitch := false
  port := 0xFFFF

def centredReport : HidData := ⟨10, -128, -128, 0⟩

theorem reports_oneBrake_centred : centredReport.y = -128 ∨ centredReport.z = -128 :=
  (reports_oneBrake_iff lineCodingHook [.transmit centredCall, .request getLineCoding.setup]
    (d := { powerOn with hidInData := centredReport }) (by decide +kernel)).mpr (by
    intro e he
    rcases List.mem_pair.mp he with rfl | rfl
    · exact id
    · exact fun h => absurd h.2 (by decide)) centredReport (List.mem_singleton_self centredReport)

def getReport : Setup := ![0xA1, 0x01, 0, 1, 2, 0, 4, 0]

theorem getReport_applies_both : ∃ reports d,
    trace (busStep lineCodingHook) [.request getReport] powerOn = some (reports, d) ∧
      ¬∀ r ∈ reports, r.y = -128 ∨ r.z = -128 :=
  ⟨[⟨0, 0, 0, 0⟩], { powerOn with padE12 := true, usbInitState := 1 }, rfl, by decide⟩

end BluePill.Usb
