import BluePillJs.Axis.Transmit
import BluePillJs.Usb.Descriptors

/-! `hidRequestsHook`: which handler answers a SETUP packet, and how far that agrees with
the interface the packet addresses. -/

namespace BluePill.Usb
open Axis

abbrev Setup : Type := Fin 8 → UInt8

def usbRtypeTypeMask : UInt8 := 0x60
def usbRtypeTypeStd : UInt8 := 0x00
def usbRtypeTypeClass : UInt8 := 0x20
def usbRtypeRecipientMask : UInt8 := 0x1F
def usbRtypeRecipientInterface : UInt8 := 0x01
def usbReqGetDescriptor : UInt8 := 6

def hidGetReportRequest : UInt8 := 0x01
def hidGetIdleRequest : UInt8 := 0x02
def hidGetProtocolRequest : UInt8 := 0x03
def hidSetReportRequest : UInt8 := 0x09
def hidSetIdleRequest : UInt8 := 0x0A
def hidSetProtocolRequest : UInt8 := 0x0B

inductive Buffer where
  | hidInData
  | descriptor (dp : UsbDescriptor)
  | serial (address : ℕ)
  deriving DecidableEq

structure Transfer where
  buf : Option Buffer
  n : ℕ
  deriving DecidableEq

/-- The result of a request hook: `transfer` is `none` when none was set up. -/
structure Outcome where
  answer : Bool
  transfer : Option Transfer
  device : Device
  deriving DecidableEq

/-- The serial driver sets up transfers of its own memory only. -/
structure SerialOutcome where
  answer : Bool
  transfer : Option (Option ℕ × ℕ)
  deriving DecidableEq

abbrev SerialHook : Type := Setup → SerialOutcome

def SerialOutcome.outcome (o : SerialOutcome) (d : Device) : Outcome where
  answer := o.answer
  transfer := o.transfer.map fun t => ⟨t.1.map .serial, t.2⟩
  device := d

def usbFetchWord (lo hi : UInt8) : UInt16 := lo.toUInt16 ||| (hi.toUInt16 <<< 8)

def getDescriptor (dtype dindex : UInt8) (_lang : UInt16) (d : Device) :
    Option UsbDescriptor × Device :=
  if dtype = usbDescriptorDevice then (some .cdcDevice, d)
  else if dtype = usbDescriptorConfiguration then (some .cdcConfiguration, d)
  else if dtype = usbDescriptorReport then
    (some .hidGenericJoystickReporter, { d with usbInitState := 1 })
  else if dtype = usbDescriptorString then
    (if h : dindex.toNat < 5 then some (.hidString ⟨dindex.toNat, h⟩) else none, d)
  else (none, d)

def refuse (d : Device) : Outcome := ⟨false, none, d⟩

def accept (transfer : Option Transfer) (d : Device) : Outcome := ⟨true, transfer, d⟩

def standardRequest (setup : Setup) (d : Device) : Outcome :=
  if setup 1 = usbReqGetDescriptor then
    match getDescriptor (setup 3) (setup 2) (usbFetchWord (setup 4) (setup 5)) d with
    | (none, d) => refuse d
    | (some dp, d) => accept (some ⟨some (.descriptor dp), dp.udSize⟩) d
  else refuse d

def hidClassRequest (bRequest : UInt8) (d : Device) : Outcome :=
  if bRequest = hidGetReportRequest then
    accept (some ⟨some .hidInData, 4⟩)
      { d with padE12 := true, hidInData := ⟨0, 0, 0, 0⟩, usbInitState := 1 }
  else if bRequest = hidGetIdleRequest then accept (some ⟨none, 0⟩) d
  else if bRequest = hidGetProtocolRequest then accept none d
  else if bRequest = hidSetReportRequest then accept (some ⟨none, 0⟩) d
  else if bRequest = hidSetIdleRequest then accept (some ⟨none, 0⟩) d
  else if bRequest = hidSetProtocolRequest then accept none d
  else refuse d

def hidRequestsHook (sduRequestsHook : SerialHook) (setup : Setup) (d : Device) : Outcome :=
  if setup 0 &&& (usbRtypeTypeMask ||| usbRtypeRecipientMask) =
      usbRtypeTypeStd ||| usbRtypeRecipientInterface then
    standardRequest setup d
  else if setup 0 &&& (usbRtypeTypeMask ||| usbRtypeRecipientMask) =
      usbRtypeTypeClass ||| usbRtypeRecipientInterface then
    hidClassRequest (setup 1) d
  else if setup 0 &&& usbRtypeTypeMask = usbRtypeTypeClass then
    (sduRequestsHook setup).outcome d
  else refuse d

def IsGetReport (setup : Setup) : Prop :=
  setup 0 &&& (usbRtypeTypeMask ||| usbRtypeRecipientMask) =
      usbRtypeTypeClass ||| usbRtypeRecipientInterface ∧
    setup 1 = hidGetReportRequest

def IsProtocolRequest (setup : Setup) : Prop :=
  setup 0 &&& (usbRtypeTypeMask ||| usbRtypeRecipientMask) =
      usbRtypeTypeClass ||| usbRtypeRecipientInterface ∧
    setup 1 ∈ [hidGetProtocolRequest, hidSetProtocolRequest]

structure ClassRequest where
  setup : Setup
  toInterface : setup 0 &&& (usbRtypeTypeMask ||| usbRtypeRecipientMask) =
    usbRtypeTypeClass ||| usbRtypeRecipientInterface

/-- Every class request to an interface ends in the HID switch, whatever `wIndex` says. -/
theorem hidRequestsHook_class (sdu : SerialHook) (r : ClassRequest) (d : Device) :
    hidRequestsHook sdu r.setup d = hidClassRequest (r.setup 1) d := by
  rw [hidRequestsHook, if_neg, if_pos r.toInterface]
  rw [r.toInterface]
  decide

structure Agrees (o expected : Outcome) : Prop where
  answer : o.answer = expected.answer
  transfer : o.transfer = expected.transfer
  hidInData : o.device.hidInData = expected.device.hidInData
  usbInitState : o.device.usbInitState = expected.device.usbInitState

structure Routed (sdu : SerialHook) (r : ClassRequest) (d : Device) : Prop where
  serial : r.setup 4 ∈ serialInterfaces →
    Agrees (hidRequestsHook sdu r.setup d) ((sdu r.setup).outcome d)
  joystick : r.setup 4 ∈ joystickInterfaces →
    hidRequestsHook sdu r.setup d = hidClassRequest (r.setup 1) d

def AnswersLikeHid (bRequest : UInt8) (o : SerialOutcome) : Prop :=
  if bRequest = hidGetReportRequest then False
  else if bRequest ∈ [hidGetIdleRequest, hidSetReportRequest, hidSetIdleRequest] then
    o = ⟨true, some (none, 0)⟩
  else if bRequest ∈ [hidGetProtocolRequest, hidSetProtocolRequest] then o = ⟨true, none⟩
  else o = ⟨false, none⟩

theorem serialTransfer_injective :
    Function.Injective fun t : Option ℕ × ℕ => (⟨t.1.map Buffer.serial, t.2⟩ : Transfer) := by
  rintro ⟨b, n⟩ ⟨b', n'⟩ h
  obtain ⟨hb, hn⟩ := Transfer.mk.inj h
  have hserial : Function.Injective Buffer.serial := fun a b hab => Buffer.serial.inj hab
  exact Prod.ext (Option.map_injective hserial hb) hn

theorem outcome_agrees_iff (s o : SerialOutcome) (d : Device) :
    Agrees (s.outcome d) (o.outcome d) ↔ o = s := by
  constructor
  · intro h
    obtain ⟨answer, transfer⟩ := s
    obtain rfl : answer = o.answer := h.answer
    rw [show transfer = o.transfer from Option.map_injective serialTransfer_injective h.transfer]
  · rintro rfl
    exact ⟨rfl, rfl, rfl, rfl⟩

theorem transfer_ne_hidInData (o : SerialOutcome) (d : Device) (n : ℕ) :
    (o.outcome d).transfer ≠ some ⟨some .hidInData, n⟩ := by
  intro h
  obtain ⟨⟨b, m⟩, _, ht⟩ := Option.map_eq_some_iff.mp h
  have hb : b.map Buffer.serial = some .hidInData := (Transfer.mk.inj ht).1
  obtain ⟨_, _, hb'⟩ := Option.map_eq_some_iff.mp hb
  exact nomatch hb'

theorem hidClassRequest_agrees_iff (bRequest : UInt8) (o : SerialOutcome) (d : Device) :
    Agrees (hidClassRequest bRequest d) (o.outcome d) ↔ AnswersLikeHid bRequest o := by
  unfold AnswersLikeHid
  split_ifs with hreport hempty hnone
  · rw [iff_false]
    intro h
    rw [hidClassRequest, if_pos hreport] at h
    exact transfer_ne_hidInData o d 4 h.transfer.symm
  · have hswitch : hidClassRequest bRequest d =
        (⟨true, some (none, 0)⟩ : SerialOutcome).outcome d := by
      simp only [List.mem_cons, List.not_mem_nil, or_false] at hempty
      rcases hempty with rfl | rfl | rfl <;> rfl
    rw [hswitch]
    exact outcome_agrees_iff _ o d
  · have hswitch : hidClassRequest bRequest d = (⟨true, none⟩ : SerialOutcome).outcome d := by
      simp only [List.mem_cons, List.not_mem_nil, or_false] at hnone
      rcases hnone with rfl | rfl <;> rfl
    rw [hswitch]
    exact outcome_agrees_iff _ o d
  · have hswitch : hidClassRequest bRequest d = (⟨false, none⟩ : SerialOutcome).outcome d := by
      simp only [List.mem_cons, List.not_mem_nil, or_false, not_or] at hempty hnone
      rw [hidClassRequest, if_neg hreport, if_neg hempty.1, if_neg hnone.1, if_neg hempty.2.1,
        if_neg hempty.2.2, if_neg hnone.2]
      rfl
    rw [hswitch]
    exact outcome_agrees_iff _ o d

theorem routed_iff_answersLikeHid (sdu : SerialHook) (r : ClassRequest) (d : Device) :
    Routed sdu r d ↔
      (r.setup 4 = 0 ∨ r.setup 4 = 1 → AnswersLikeHid (r.setup 1) (sdu r.setup)) := by
  have hmem : r.setup 4 ∈ serialInterfaces ↔ r.setup 4 = 0 ∨ r.setup 4 = 1 := by
    rw [serialInterfaces_eq]
    simp
  have hagrees := hidClassRequest_agrees_iff (r.setup 1) (sdu r.setup) d
  rw [← hidRequestsHook_class sdu r d] at hagrees
  constructor
  · intro h hindex
    exact hagrees.mp (h.serial (hmem.mpr hindex))
  · intro h
    exact ⟨fun hindex => hagrees.mpr (h (hmem.mp hindex)), fun _ => hidRequestsHook_class sdu r d⟩

def lineCodingHook : SerialHook := fun setup =>
  if setup 1 = 0x20 ∨ setup 1 = 0x21 then ⟨true, some (some 0, 7)⟩
  else if setup 1 = 0x22 then ⟨true, some (none, 0)⟩
  else ⟨false, none⟩

def getLineCoding : ClassRequest where
  setup := ![0xA1, 0x21, 0, 0, 0, 0, 7, 0]
  toInterface := by decide

theorem getLineCoding_stalls :
    (∀ setup : Setup, setup 1 = 0x20 ∨ setup 1 = 0x21 ∨ setup 1 = 0x22 →
      (lineCodingHook setup).answer = true) ∧
    ¬Routed lineCodingHook getLineCoding powerOn := by
  refine ⟨fun setup hcode => ?_, fun h => ?_⟩
  · rcases hcode with h | h | h <;> simp [lineCodingHook, h]
  have hserial := h.serial (by rw [serialInterfaces_eq]; decide)
  exact absurd hserial.answer (by decide)

end BluePill.Usb
