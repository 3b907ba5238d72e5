import Mathlib.Data.Fin.VecNotation

/-! The descriptors that the firmware declares, and the interfaces a host finds in the
configuration descriptor. -/

namespace BluePill.Usb

def usbDescriptorDevice : UInt8 := 1
def usbDescriptorConfiguration : UInt8 := 2
def usbDescriptorString : UInt8 := 3
def usbDescriptorInterface : UInt8 := 4
def usbDescriptorEndpoint : UInt8 := 5
def usbDescriptorHid : UInt8 := 0x21
def usbDescriptorReport : UInt8 := 0x22

def hidInEpAddress : UInt8 := 3
def hidOutEpAddress : UInt8 := 4
def usbd1DataRequestEp : UInt8 := 1
def usbd1DataAvailableEp : UInt8 := 1
def usbd1InterruptRequestEp : UInt8 := 2

def usbDescWord (w : UInt16) : List UInt8 := [w.toUInt8, (w >>> 8).toUInt8]

def usbDescConfiguration (totalLength : UInt16)
    (numInterfaces value index attributes maxPower : UInt8) : List UInt8 :=
  [9, usbDescriptorConfiguration] ++ usbDescWord totalLength ++
    [numInterfaces, value, index, attributes, maxPower]

def usbDescInterface (number alternate numEndpoints cls subCls protocol index : UInt8) :
    List UInt8 :=
  [9, usbDescriptorInterface, number, alternate, numEndpoints, cls, subCls, protocol, index]

def usbDescEndpoint (address attributes : UInt8) (maxPacketSize : UInt16) (interval : UInt8) :
    List UInt8 :=
  [7, usbDescriptorEndpoint, address, attributes] ++ usbDescWord maxPacketSize ++ [interval]

def usbDescHid (bcdHid : UInt16) (country numDescriptors type : UInt8) (length : UInt16) :
    List UInt8 :=
  [9, usbDescriptorHid] ++ usbDescWord bcdHid ++ [country, numDescriptors, type] ++
    usbDescWord length

def hidUsagePage (page : UInt8) : List UInt8 := [0x05, page]
def hidUsage (usage : UInt8) : List UInt8 := [0x09, usage]
def hidCollection (kind : UInt8) : List UInt8 := [0xA1, kind]
def hidEndCollection : List UInt8 := [0xC0]
def hidUsageMinimum (x : UInt8) : List UInt8 := [0x19, x]
def hidUsageMaximum (x : UInt8) : List UInt8 := [0x29, x]
def hidLogicalMinimum (x : Int8) : List UInt8 := [0x15, x.toUInt8]
def hidLogicalMaximum (x : Int8) : List UInt8 := [0x25, x.toUInt8]
def hidReportCount (x : UInt8) : List UInt8 := [0x95, x]
def hidReportSize (x : UInt8) : List UInt8 := [0x75, x]
def hidInput (x : UInt8) : List UInt8 := [0x81, x]

def hidGenericJoystickReporterData : List UInt8 :=
  hidUsagePage 0x01 ++ hidUsage 0x04 ++ hidCollection 0x01 ++ hidCollection 0x00 ++
    hidUsagePage 0x01 ++ hidUsage 0x30 ++ hidUsage 0x31 ++ hidUsage 0x32 ++
    hidLogicalMinimum (-127) ++ hidLogicalMaximum 127 ++ hidReportSize 8 ++ hidReportCount 3 ++
    hidInput 0x02 ++
    hidUsagePage 0x09 ++ hidUsageMinimum 0x01 ++ hidUsageMaximum 0x08 ++
    hidLogicalMinimum 0 ++ hidLogicalMaximum 1 ++ hidReportSize 1 ++ hidReportCount 8 ++
    hidInput 0x02 ++ hidEndCollection ++ hidEndCollection

def cdcConfigurationDescriptorData : List UInt8 :=
  usbDescConfiguration 0x63 0x03 0x01 0x00 0xC0 0x50 ++
    usbDescInterface 0x00 0x00 0x01 0x02 0x02 0x01 0 ++
    [5, 0x24, 0x00] ++ usbDescWord 0x0110 ++
    [5, 0x24, 0x01, 0x00, 0x01] ++
    [4, 0x24, 0x02, 0x02] ++
    [5, 0x24, 0x06, 0x00, 0x01] ++
    usbDescEndpoint (usbd1InterruptRequestEp ||| 0x80) 0x03 0x0008 0xFF ++
    usbDescInterface 0x01 0x00 0x02 0x0A 0x00 0x00 0x00 ++
    usbDescEndpoint usbd1DataAvailableEp 0x02 0x0040 0x00 ++
    usbDescEndpoint (usbd1DataRequestEp ||| 0x80) 0x02 0x0040 0x00 ++
    usbDescInterface 0x02 0x00 0x02 0x03 0x00 0x00 0x00 ++
    usbDescHid 0x0111 0x00 0x01 0x22 (UInt16.ofNat hidGenericJoystickReporterData.length) ++
    usbDescEndpoint (hidInEpAddress ||| 0x80) 0x03 0x04 0x04 ++
    usbDescEndpoint hidOutEpAddress 0x03 0x04 0x08

inductive UsbDescriptor where
  | cdcDevice
  | cdcConfiguration
  | hidGenericJoystickReporter
  | hidString (dindex : Fin 5)
  deriving DecidableEq

def UsbDescriptor.udSize : UsbDescriptor → ℕ
  | .cdcDevice => 18
  | .cdcConfiguration => cdcConfigurationDescriptorData.length
  | .hidGenericJoystickReporter => hidGenericJoystickReporterData.length
  | .hidString dindex => ![4, 38, 38, 8, 16] dindex

/-- The number and class of every interface descriptor, found by the length bytes. -/
def interfaces : (fuel : ℕ) → List UInt8 → List (UInt8 × UInt8)
  | 0, _ => []
  | fuel + 1, data =>
    match data with
    | [] => []
    | length :: _ =>
      let rest := interfaces fuel (data.drop length.toNat)
      if data[1]? = some usbDescriptorInterface then
        (data.getD 2 0, data.getD 5 0) :: rest
      else rest

def serialInterfaces : List UInt8 :=
  ((interfaces cdcConfigurationDescriptorData.length cdcConfigurationDescriptorData).filter
    fun p => p.2 = 0x02 ∨ p.2 = 0x0A).map Prod.fst

def joystickInterfaces : List UInt8 :=
  ((interfaces cdcConfigurationDescriptorData.length cdcConfigurationDescriptorData).filter
    fun p => p.2 = 0x03).map Prod.fst

theorem serialInterfaces_eq : serialInterfaces = [0, 1] := by decide +kernel

example : joystickInterfaces = [2] := by decide +kernel

example : usbDescWord (UInt16.ofNat cdcConfigurationDescriptorData.length) =
    (cdcConfigurationDescriptorData.drop 2).take 2 := by decide

end BluePill.Usb
