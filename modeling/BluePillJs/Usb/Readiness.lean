import BluePillJs.Library.PastTime
import BluePillJs.Usb.DataStage

/-! When `hid_transmit` starts a transfer, and the state of endpoint 3 it finds there:
the code never looks, so everything depends on the order of the events. -/

namespace BluePill.Usb
open Axis PartialRuns PastTime

structure InEndpoint where
  enabled : Bool
  transmitting : Bool
  deriving DecidableEq

inductive UsbEvent where
  | reset
  | address
  | configured
  | unconfigured
  | suspend
  | wakeup
  | stalled
  deriving DecidableEq

/-- The driver's own reaction to a bus event followed by `usb_event`: a reset disables all
endpoints, and `USB_EVENT_CONFIGURED` initialises endpoint 3. -/
def usbEvent : UsbEvent → InEndpoint → InEndpoint
  | .reset, _ => ⟨false, false⟩
  | .configured, ep => { ep with enabled := true }
  | _, ep => ep

def InEndpoint.Ready (ep : InEndpoint) : Prop :=
  -- what `usbStartTransmitI` asks of the endpoint
  ep.enabled = true ∧ ep.transmitting = false

instance : DecidablePred InEndpoint.Ready := fun ep =>
  inferInstanceAs (Decidable (ep.enabled = true ∧ ep.transmitting = false))

def hidTransmit (ep : InEndpoint) : InEndpoint := { ep with transmitting := true }

structure Link where
  device : Device
  initialised : Bool
  ep : InEndpoint

def Link.start : Link := ⟨powerOn, false, ⟨false, false⟩⟩

inductive LinkEvent where
  | bus (e : UsbEvent)
  | request (setup : Setup)
  | initReturns
  | transmit (report : HidData)
  | transmitted

def linkStep (sdu : SerialHook) : LinkEvent → Link → Option (List InEndpoint × Link)
  | .bus e, w => some ([], { w with ep := usbEvent e w.ep })
  | .request setup, w => some ([], { w with device := (hidRequestsHook sdu setup w.device).device })
  -- `usb_init` waits until the host has read the report descriptor or a report
  | .initReturns, w =>
    if w.initialised = false ∧ w.device.usbInitState ≠ 0 then
      some ([], { w with initialised := true })
    else none
  | .transmit report, w =>
    if w.initialised = true then
      some ([w.ep], { w with
        device := { w.device with hidInData := report }
        ep := hidTransmit w.ep })
    else none
  | .transmitted, w =>
    if w.ep.transmitting = true then some ([], { w with ep := { w.ep with transmitting := false } })
    else none

def LinkEvent.isReset : LinkEvent → Bool
  | .bus .reset => true
  | _ => false

def LinkEvent.isConfigured : LinkEvent → Bool
  | .bus .configured => true
  | _ => false

def LinkEvent.isTransmit : LinkEvent → Bool
  | .transmit _ => true
  | _ => false

def LinkEvent.isTransmitted : LinkEvent → Bool
  | .transmitted => true
  | _ => false

/-- Endpoint 3 was enabled by a configured event, and no reset came after it. -/
def ConfiguredSinceReset : List LinkEvent → Prop :=
  Since (fun e => e.isReset = false) (fun e => e.isConfigured = true)

/-- After some `transmit` neither its completion nor a reset has come. -/
def Unfinished : List LinkEvent → Prop :=
  Since (fun e => e.isReset = false ∧ e.isTransmitted = false) (fun e => e.isTransmit = true)

/-- The host configures the device before every `transmit`, and takes one report before
the next is sent. -/
def WellTimed (events : List LinkEvent) : Prop :=
  ∀ before report after, events = before ++ .transmit report :: after →
    ConfiguredSinceReset before ∧ ¬Unfinished before

structure Recorded (hist : List LinkEvent) (w : Link) : Prop where
  enabled : w.ep.enabled = true ↔ ConfiguredSinceReset hist
  transmitting : w.ep.transmitting = true ↔ Unfinished hist

theorem recorded_start : Recorded [] Link.start where
  enabled := iff_of_false Bool.false_ne_true (not_since_nil _ _)
  transmitting := iff_of_false Bool.false_ne_true (not_since_nil _ _)

theorem Recorded.ready_iff {hist : List LinkEvent} {w : Link} (h : Recorded hist w) :
    w.ep.Ready ↔ ConfiguredSinceReset hist ∧ ¬Unfinished hist := by
  rw [InEndpoint.Ready, h.enabled, ← h.transmitting, Bool.not_eq_true]

variable {sdu : SerialHook} {hist : List LinkEvent} {w w' : Link} {os : List InEndpoint}

def LinkEvent.onEndpoint : LinkEvent → InEndpoint → InEndpoint
  | .bus e, ep => usbEvent e ep
  | .transmit _, ep => hidTransmit ep
  | .transmitted, ep => { ep with transmitting := false }
  | _, ep => ep

theorem linkStep_ep (e : LinkEvent) (h : linkStep sdu e w = some (os, w')) :
    w'.ep = e.onEndpoint w.ep ∧ os = if e.isTransmit = true then [w.ep] else [] := by
  cases e with
  | bus e =>
    cases h
    exact ⟨rfl, rfl⟩
  | request setup =>
    cases h
    exact ⟨rfl, rfl⟩
  | initReturns =>
    rw [linkStep] at h
    split_ifs at h
    cases h
    exact ⟨rfl, rfl⟩
  | transmit report =>
    rw [linkStep] at h
    split_ifs at h
    cases h
    exact ⟨rfl, rfl⟩
  | transmitted =>
    rw [linkStep] at h
    split_ifs at h
    cases h
    exact ⟨rfl, rfl⟩

theorem onEndpoint_enabled (e : LinkEvent) (ep : InEndpoint) :
    (e.onEndpoint ep).enabled = true ↔
      e.isConfigured = true ∨ e.isReset = false ∧ ep.enabled = true := by
  cases e with
  | bus e => cases e <;> simp [LinkEvent.onEndpoint, usbEvent, LinkEvent.isConfigured, LinkEvent.isReset]
  | _ => simp [LinkEvent.onEndpoint, hidTransmit, LinkEvent.isConfigured, LinkEvent.isReset]

theorem onEndpoint_transmitting (e : LinkEvent) (ep : InEndpoint) :
    (e.onEndpoint ep).transmitting = true ↔ e.isTransmit = true ∨
      (e.isReset = false ∧ e.isTransmitted = false) ∧ ep.transmitting = true := by
  cases e with
  | bus e => cases e <;>
      simp [LinkEvent.onEndpoint, usbEvent, LinkEvent.isTransmit, LinkEvent.isReset,
        LinkEvent.isTransmitted]
  | _ => simp [LinkEvent.onEndpoint, hidTransmit, LinkEvent.isTransmit, LinkEvent.isReset,
      LinkEvent.isTransmitted]

theorem linkStep_recorded (e : LinkEvent) (hw : Recorded hist w)
    (h : linkStep sdu e w = some (os, w')) : Recorded (hist ++ [e]) w' where
  enabled := by
    rw [(linkStep_ep e h).1, onEndpoint_enabled, hw.enabled, ConfiguredSinceReset,
      since_append_singleton]
  transmitting := by
    rw [(linkStep_ep e h).1, onEndpoint_transmitting, hw.transmitting, Unfinished,
      since_append_singleton]

theorem linkStep_ready_iff (e : LinkEvent) (hw : Recorded hist w)
    (h : linkStep sdu e w = some (os, w')) : (∀ ep ∈ os, ep.Ready) ↔
      (e.isTransmit = true → ConfiguredSinceReset hist ∧ ¬Unfinished hist) := by
  rw [(linkStep_ep e h).2, ← hw.ready_iff]
  split_ifs with htransmit
  · rw [List.forall_mem_singleton]
    exact ⟨fun hready _ => hready, fun hready => hready htransmit⟩
  · exact iff_of_true (fun _ hmem => nomatch hmem) fun htrue => absurd htrue htransmit

theorem starts_ready_iff (sdu : SerialHook) (events : List LinkEvent) {starts : List InEndpoint}
    {w : Link} (hrun : trace (linkStep sdu) events Link.start = some (starts, w)) :
    (∀ ep ∈ starts, ep.Ready) ↔ WellTimed events := by
  rw [trace_forall_before_iff (R := Recorded)
    (fun hist e s os t hs hstep =>
      ⟨linkStep_ready_iff e hs hstep, linkStep_recorded e hs hstep⟩) events recorded_start hrun]
  constructor
  · intro h before report after hsplit
    simpa using h before (.transmit report) after hsplit rfl
  · intro h before e after hsplit htransmit
    cases e with
    | transmit report => simpa using h before report after hsplit
    | _ => exact nomatch htransmit

def oneByOne : List LinkEvent :=
  [.bus .reset, .bus .configured, .request getReportDescriptor, .initReturns,
    .transmit ⟨0, -128, -128, 0⟩, .transmitted, .transmit ⟨0, -128, -128, 0⟩]

theorem starts_ready_oneByOne : WellTimed oneByOne := by
  have hrun : trace (linkStep lineCodingHook) oneByOne Link.start = some
      ([⟨true, false⟩, ⟨true, false⟩], ⟨{ powerOn with
        usbInitState := 1
        hidInData := ⟨0, -128, -128, 0⟩ }, true, ⟨true, true⟩⟩) := rfl
  exact (starts_ready_iff lineCodingHook oneByOne hrun).mp (by decide)

theorem backToBack_not_ready : ∃ starts w,
    trace (linkStep lineCodingHook) [.bus .reset, .bus .configured, .request getReportDescriptor,
      .initReturns, .transmit ⟨0, -128, -128, 0⟩, .transmit ⟨0, -128, -128, 0⟩] Link.start =
        some (starts, w) ∧ ¬∀ ep ∈ starts, ep.Ready :=
  ⟨[⟨true, false⟩, ⟨true, true⟩], ⟨{ powerOn with
    usbInitState := 1
    hidInData := ⟨0, -128, -128, 0⟩ }, true, ⟨true, true⟩⟩, rfl, by decide⟩

end BluePill.Usb
