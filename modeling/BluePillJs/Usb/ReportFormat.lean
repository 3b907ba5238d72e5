import BluePillJs.Axis.Mapping
import BluePillJs.Library.ReportDescriptor
import BluePillJs.Usb.Descriptors

/-! The report that `transmit` sends, read by the report descriptor that the device
declares: the fields agree in order and width, but not in range. -/

namespace BluePill.Usb
open Axis ReportDescriptor
open Calibration (CalData)

def reportBytes (r : HidData) : List UInt8 := [r.x.toUInt8, r.y.toUInt8, r.z.toUInt8, r.button]

def reportFields : List Field := inputFields hidGenericJoystickReporterData

def IsAxis (f : Field) : Prop := f.page = 0x01 ∧ f.usage ∈ [0x30, 0x31, 0x32]

def buttonValues (button : UInt8) : List ℤ :=
  (List.range 8).map fun i => ((button.toNat / 2 ^ i % 2 : ℕ) : ℤ)

structure DecodesInOrder (r : HidData) : Prop where
  complete : bits reportFields = 8 * (reportBytes r).length
  values : decode reportFields (reportBytes r) =
    [r.x.toInt, r.y.toInt, r.z.toInt] ++ buttonValues r.button

structure FitsDescriptor (r : HidData) : Prop extends DecodesInOrder r where
  range : ∀ p ∈ reportFields.zip (decode reportFields (reportBytes r)),
    IsAxis p.1 → p.1.minimum ≤ p.2 ∧ p.2 ≤ p.1.maximum

def axisField (usage : ℕ) : Field := ⟨0x01, usage, -127, 127, 8⟩

theorem axisField_minimum (usage : ℕ) : (axisField usage).minimum = -127 := rfl

theorem axisField_maximum (usage : ℕ) : (axisField usage).maximum = 127 := rfl

def buttonField (number : ℕ) : Field := ⟨0x09, number, 0, 1, 1⟩

def buttonFields : List Field := (List.range 8).map fun i => buttonField (i + 1)

theorem reportFields_eq :
    reportFields = axisField 0x30 :: axisField 0x31 :: axisField 0x32 :: buttonFields := by
  decide +kernel

theorem decode_buttonFields (button : UInt8) : decode buttonFields [button] = buttonValues button := by
  have hsize : ∀ f ∈ buttonFields, f.size = 1 := by decide
  have hmin : ∀ f ∈ buttonFields, 0 ≤ f.minimum := by decide
  rw [decode_bits hsize hmin]
  rfl

theorem decode_reportBytes (r : HidData) : decode reportFields (reportBytes r) =
    [r.x.toInt, r.y.toInt, r.z.toInt] ++ buttonValues r.button := by
  have hbyte (usage : ℕ) (a : Int8) : (axisField usage).value a.toUInt8.toNat 0 = a.toInt :=
    value_signed_byte rfl (by rw [axisField_minimum]; decide) a
  rw [reportFields_eq, reportBytes, decode_cons_byte rfl, decode_cons_byte rfl,
    decode_cons_byte rfl, decode_buttonFields, hbyte, hbyte, hbyte]
  rfl

theorem decodesInOrder (r : HidData) : DecodesInOrder r where
  complete := by
    rw [reportFields_eq]
    rfl
  values := decode_reportBytes r

theorem not_isAxis_button {f : Field} (h : f ∈ buttonFields) : ¬IsAxis f := by
  obtain ⟨i, _, rfl⟩ := List.mem_map.mp h
  have hpage : (buttonField (i + 1)).page = 0x09 := rfl
  intro haxis
  rw [IsAxis, hpage] at haxis
  exact absurd haxis.1 (by decide)

theorem zip_decode (r : HidData) : reportFields.zip (decode reportFields (reportBytes r)) =
    (axisField 0x30, r.x.toInt) :: (axisField 0x31, r.y.toInt) :: (axisField 0x32, r.z.toInt) ::
      buttonFields.zip (buttonValues r.button) := by
  rw [decode_reportBytes, reportFields_eq]
  rfl

theorem in_range_iff (usage : ℕ) (a : Int8) :
    (axisField usage).minimum ≤ a.toInt ∧ a.toInt ≤ (axisField usage).maximum ↔ a ≠ -128 := by
  have hlow := a.le_toInt
  have hhigh := a.toInt_le
  have hmin : (-128 : Int8).toInt = -128 := rfl
  have hmax : Int8.maxValue.toInt = 127 := rfl
  rw [axisField_minimum, axisField_maximum, ne_eq, ← Int8.toInt_inj]
  omega

theorem fitsDescriptor_iff (r : HidData) :
    FitsDescriptor r ↔ r.x ≠ -128 ∧ r.y ≠ -128 ∧ r.z ≠ -128 := by
  have hx : IsAxis (axisField 0x30) := ⟨rfl, by decide⟩
  have hy : IsAxis (axisField 0x31) := ⟨rfl, by decide⟩
  have hz : IsAxis (axisField 0x32) := ⟨rfl, by decide⟩
  have hbuttons (p : Field × ℤ) (hp : p ∈ buttonFields.zip (buttonValues r.button)) :
      ¬IsAxis p.1 := not_isAxis_button (List.of_mem_zip hp).1
  constructor
  · intro h
    have hrange := h.range
    simp only [zip_decode, List.forall_mem_cons] at hrange
    exact ⟨(in_range_iff _ _).mp (hrange.1 hx), (in_range_iff _ _).mp (hrange.2.1 hy),
      (in_range_iff _ _).mp (hrange.2.2.1 hz)⟩
  · rintro ⟨h₁, h₂, h₃⟩
    refine ⟨decodesInOrder r, ?_⟩
    simp only [zip_decode, List.forall_mem_cons]
    exact ⟨fun _ => (in_range_iff _ _).mpr h₁, fun _ => (in_range_iff _ _).mpr h₂,
      fun _ => (in_range_iff _ _).mpr h₃, fun p hp haxis => absurd haxis (hbuttons p hp)⟩

/-- Some brake axis always rests at `-128`, so that no report of `transmit` fits. -/
theorem report_never_fits {cal : CalData} {h : ℚ} {r : HidData} (hr : Reports cal h r) :
    DecodesInOrder r ∧ ¬FitsDescriptor r := by
  refine ⟨decodesInOrder r, fun hfits => ?_⟩
  obtain ⟨_, hy, hz⟩ := (fitsDescriptor_iff r).mp hfits
  obtain ⟨b, rfl⟩ := hr.eq_report
  have hv := calApply_mem cal h
  exact (exactReport_report hv.1 hv.2 b).exclusive.elim hy hz

theorem centred_report_never_fits : ∃ r, Reports ⟨0, 1, 1⟩ 10 r ∧
    DecodesInOrder r ∧ ¬FitsDescriptor r := by
  have hr : Reports ⟨0, 1, 1⟩ 10 ⟨10, -128, -128, 0⟩ :=
    ⟨false, 0xFFFF, powerOn, { powerOn with hidInData := ⟨10, -128, -128, 0⟩ },
      by decide +kernel, rfl, rfl⟩
  exact ⟨_, hr, report_never_fits hr⟩

theorem powerOn_report_out_of_range : ∃ d', transmit false 0xFFFF 0 powerOn = some d' ∧
    ¬FitsDescriptor d'.hidInData := by
  refine ⟨{ powerOn with hidInData := ⟨0, -128, -128, 0⟩ }, by decide +kernel, fun h => ?_⟩
  exact ((fitsDescriptor_iff _).mp h).2.1 rfl

end BluePill.Usb
