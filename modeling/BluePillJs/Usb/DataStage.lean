import BluePillJs.Usb.Requests

/-! Which transfer endpoint 0 goes on with after `hidRequestsHook`: the one the call set
up itself, except for the two protocol requests. -/

namespace BluePill.Usb
open Axis

def dataStage (prior : Transfer) (o : Outcome) : Transfer := o.transfer.getD prior

/-- An accepted request is served from a transfer that its own call has set up, and a
refused one leaves the endpoint and the report alone. -/
structure OwnDataStage (prior : Transfer) (d : Device) (o : Outcome) : Prop where
  accepted : o.answer = true → o.transfer = some (dataStage prior o)
  refused : o.answer = false → o.transfer = none ∧ o.device.hidInData = d.hidInData

variable {prior : Transfer} {d d' : Device}

theorem ownDataStage_refuse (h : d'.hidInData = d.hidInData) : OwnDataStage prior d (refuse d') where
  accepted hans := nomatch hans
  refused _ := ⟨rfl, h⟩

theorem ownDataStage_accept (t : Transfer) : OwnDataStage prior d (accept (some t) d') where
  accepted _ := rfl
  refused hans := nomatch hans

theorem not_ownDataStage_accept_none : ¬OwnDataStage prior d (accept none d') := fun h =>
  nomatch h.accepted rfl

theorem getDescriptor_hidInData (dtype dindex : UInt8) (lang : UInt16) (d : Device) :
    (getDescriptor dtype dindex lang d).2.hidInData = d.hidInData := by
  unfold getDescriptor
  split_ifs <;> rfl

theorem standardRequest_ownDataStage (setup : Setup) :
    OwnDataStage prior d (standardRequest setup d) := by
  unfold standardRequest
  split_ifs
  · have hframe := getDescriptor_hidInData (setup 3) (setup 2) (usbFetchWord (setup 4) (setup 5)) d
    cases hdp : getDescriptor (setup 3) (setup 2) (usbFetchWord (setup 4) (setup 5)) d with
    | mk dp d' =>
      rw [hdp] at hframe
      cases dp with
      | none => exact ownDataStage_refuse hframe
      | some dp => exact ownDataStage_accept _
  · exact ownDataStage_refuse rfl

theorem hidClassRequest_ownDataStage_iff (bRequest : UInt8) :
    OwnDataStage prior d (hidClassRequest bRequest d) ↔
      bRequest ∉ [hidGetProtocolRequest, hidSetProtocolRequest] := by
  simp only [List.mem_cons, List.not_mem_nil, or_false, not_or]
  unfold hidClassRequest
  split_ifs with hreport hidle hget hset hsetIdle hsetProtocol
  · exact iff_of_true (ownDataStage_accept _) (by rw [hreport]; decide)
  · exact iff_of_true (ownDataStage_accept _) (by rw [hidle]; decide)
  · exact iff_of_false not_ownDataStage_accept_none fun h => h.1 hget
  · exact iff_of_true (ownDataStage_accept _) (by rw [hset]; decide)
  · exact iff_of_true (ownDataStage_accept _) (by rw [hsetIdle]; decide)
  · exact iff_of_false not_ownDataStage_accept_none fun h => h.2 hsetProtocol
  · exact iff_of_true (ownDataStage_refuse rfl) ⟨hget, hsetProtocol⟩

theorem serial_ownDataStage {o : SerialOutcome} (ho : o.transfer.isSome = o.answer) :
    OwnDataStage prior d (o.outcome d) := by
  obtain ⟨answer, transfer⟩ := o
  obtain rfl : transfer.isSome = answer := ho
  cases transfer with
  | none => exact ownDataStage_refuse rfl
  | some t => exact ownDataStage_accept _

/-- The two protocol requests are accepted without a transfer, and no others are. -/
theorem hidRequestsHook_ownDataStage_iff {sdu : SerialHook}
    (hsdu : ∀ setup, (sdu setup).transfer.isSome = (sdu setup).answer) (setup : Setup)
    (prior : Transfer) (d : Device) :
    OwnDataStage prior d (hidRequestsHook sdu setup d) ↔ ¬IsProtocolRequest setup := by
  unfold hidRequestsHook IsProtocolRequest
  split_ifs with hstd hcls hserial
  · refine iff_of_true (standardRequest_ownDataStage setup) fun h => ?_
    rw [h.1] at hstd
    exact absurd hstd (by decide)
  · rw [hidClassRequest_ownDataStage_iff, not_and]
    exact ⟨fun h _ => h, fun h => h hcls⟩
  · exact iff_of_true (serial_ownDataStage (hsdu setup)) fun h => hcls h.1
  · exact iff_of_true (ownDataStage_refuse rfl) fun h => hcls h.1

theorem lineCodingHook_transfer (setup : Setup) :
    (lineCodingHook setup).transfer.isSome = (lineCodingHook setup).answer := by
  unfold lineCodingHook
  split_ifs <;> rfl

def getReportDescriptor : Setup := ![0x81, 0x06, 0, 0x22, 2, 0, 44, 0]

theorem getReportDescriptor_ownDataStage : OwnDataStage ⟨none, 0⟩ powerOn
    (hidRequestsHook lineCodingHook getReportDescriptor powerOn) :=
  (hidRequestsHook_ownDataStage_iff lineCodingHook_transfer getReportDescriptor ⟨none, 0⟩
    powerOn).mpr fun h => absurd h.1 (by decide)

def getProtocol : Setup := ![0xA1, 0x03, 0, 0, 2, 0, 1, 0]

theorem getProtocol_resends :
    let first := hidRequestsHook lineCodingHook getReportDescriptor powerOn
    let prior := dataStage ⟨none, 0⟩ first
    let second := hidRequestsHook lineCodingHook getProtocol first.device
    prior = ⟨some (.descriptor .hidGenericJoystickReporter), 44⟩ ∧ second.answer = true ∧
      dataStage prior second = prior ∧ ¬OwnDataStage prior first.device second := by
  refine ⟨rfl, rfl, rfl, ?_⟩
  exact not_ownDataStage_accept_none

end BluePill.Usb
