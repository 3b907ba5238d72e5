import Mathlib.Data.List.Basic
import Mathlib.Tactic.Ring

/-! Report descriptors of the HID class: the short items of a descriptor, the input
fields they declare, and the values of these fields in a report. -/

namespace ReportDescriptor

def word : List UInt8 → ℕ
  | [] => 0
  | b :: bytes => b.toNat + 256 * word bytes

def signedWord (bytes : List UInt8) : ℤ := (word bytes : ℤ).bmod (2 ^ (8 * bytes.length))

/-- A short item; its `tag` is the prefix byte without the two size bits. -/
structure Item where
  tag : UInt8
  data : List UInt8

def dataSize (header : UInt8) : ℕ :=
  if header &&& 3 = 3 then 4 else (header &&& 3).toNat

def items : (fuel : ℕ) → List UInt8 → List Item
  | 0, _ => []
  | _ + 1, [] => []
  | fuel + 1, header :: rest =>
    ⟨header &&& 0xFC, rest.take (dataSize header)⟩ :: items fuel (rest.drop (dataSize header))

structure Field where
  page : ℕ
  usage : ℕ
  minimum : ℤ
  maximum : ℤ
  size : ℕ
  deriving DecidableEq, Repr

structure Declared where
  page : ℕ
  minimum : ℤ
  maximum : ℤ
  size : ℕ
  count : ℕ
  usages : List ℕ
  usageMinimum : ℕ
  fields : List Field

namespace Declared

def initial : Declared := ⟨0, 0, 0, 0, 0, [], 0, []⟩

/-- The usage of the `i`-th field: the last one of a short list is repeated. -/
def usage (s : Declared) (i : ℕ) : ℕ :=
  match s.usages.getLast? with
  | some u => s.usages.getD i u
  | none => s.usageMinimum + i

def field (s : Declared) (i : ℕ) : Field :=
  ⟨s.page, s.usage i, s.minimum, s.maximum, s.size⟩

def clearLocals (s : Declared) : Declared := { s with usages := [], usageMinimum := 0 }

def step (s : Declared) (i : Item) : Declared :=
  if i.tag = 0x04 then { s with page := word i.data }
  else if i.tag = 0x14 then { s with minimum := signedWord i.data }
  else if i.tag = 0x24 then { s with maximum := signedWord i.data }
  else if i.tag = 0x74 then { s with size := word i.data }
  else if i.tag = 0x94 then { s with count := word i.data }
  else if i.tag = 0x08 then { s with usages := s.usages ++ [word i.data] }
  else if i.tag = 0x18 then { s with usageMinimum := word i.data }
  else if i.tag = 0x80 then
    { s with fields := s.fields ++ (List.range s.count).map s.field }.clearLocals
  else if i.tag ∈ [0x90, 0xA0, 0xB0, 0xC0] then s.clearLocals
  else s

end Declared

def inputFields (descriptor : List UInt8) : List Field :=
  ((items descriptor.length descriptor).foldl Declared.step .initial).fields

/-- The field at bit `offset`; a field with a negative minimum is two's complement. -/
def Field.value (f : Field) (w offset : ℕ) : ℤ :=
  if f.minimum < 0 then ((w / 2 ^ offset % 2 ^ f.size : ℕ) : ℤ).bmod (2 ^ f.size)
  else (w / 2 ^ offset % 2 ^ f.size : ℕ)

def values : List Field → (w offset : ℕ) → List ℤ
  | [], _, _ => []
  | f :: fs, w, offset => f.value w offset :: values fs w (offset + f.size)

def decode (fields : List Field) (report : List UInt8) : List ℤ := values fields (word report) 0

def bits (fields : List Field) : ℕ := (fields.map Field.size).sum

theorem word_cons_div (b : UInt8) (bytes : List UInt8) (k : ℕ) :
    word (b :: bytes) / 2 ^ (8 + k) = word bytes / 2 ^ k := by
  have hb := b.toNat_lt
  have hdiv : word (b :: bytes) / 256 = word bytes := by
    rw [word]
    omega
  rw [pow_add, ← Nat.div_div_eq_div_mul, show 2 ^ 8 = 256 by rfl, hdiv]

theorem word_cons_mod (b : UInt8) (bytes : List UInt8) : word (b :: bytes) % 256 = b.toNat := by
  have hb := b.toNat_lt
  rw [word]
  omega

theorem values_cons_shift (fs : List Field) (b : UInt8) (bytes : List UInt8) (offset : ℕ) :
    values fs (word (b :: bytes)) (8 + offset) = values fs (word bytes) offset := by
  induction fs generalizing offset with
  | nil => rfl
  | cons f fs ih =>
    rw [values, values, add_assoc, ih, Field.value, Field.value, word_cons_div]

theorem decode_cons_byte {f : Field} (hf : f.size = 8) (fs : List Field) (b : UInt8)
    (report : List UInt8) :
    decode (f :: fs) (b :: report) = f.value b.toNat 0 :: decode fs report := by
  have hvalue : f.value (word (b :: report)) 0 = f.value b.toNat 0 := by
    have hb : b.toNat % 256 = b.toNat := Nat.mod_eq_of_lt b.toNat_lt
    simp only [Field.value, hf, pow_zero, Nat.div_one, show 2 ^ 8 = 256 by rfl, word_cons_mod, hb]
  rw [decode, values, hf, hvalue, zero_add]
  exact congrArg _ (values_cons_shift fs b report 0)

theorem value_signed_byte {f : Field} (hf : f.size = 8) (hmin : f.minimum < 0) (a : Int8) :
    f.value a.toUInt8.toNat 0 = a.toInt := by
  have ha : a.toUInt8.toNat % 256 = a.toUInt8.toNat := Nat.mod_eq_of_lt a.toUInt8.toNat_lt
  rw [Field.value, if_pos hmin, hf, pow_zero, Nat.div_one, show 2 ^ 8 = 256 by rfl, ha]
  exact (BitVec.toInt_eq_toNat_bmod a.toBitVec).symm

theorem values_bits {fs : List Field} (hsize : ∀ f ∈ fs, f.size = 1)
    (hmin : ∀ f ∈ fs, 0 ≤ f.minimum) (w offset : ℕ) :
    values fs w offset = (List.range fs.length).map fun i => ((w / 2 ^ (offset + i) % 2 : ℕ) : ℤ) := by
  induction fs generalizing offset with
  | nil => rfl
  | cons f fs ih =>
    rw [List.forall_mem_cons] at hsize hmin
    have hvalue : f.value w offset = ((w / 2 ^ (offset + 0) % 2 : ℕ) : ℤ) := by
      rw [Field.value, if_neg (not_lt.mpr hmin.1), hsize.1, pow_one, add_zero]
    have hshift : (fun i => ((w / 2 ^ (offset + 1 + i) % 2 : ℕ) : ℤ)) =
        (fun i => ((w / 2 ^ (offset + i) % 2 : ℕ) : ℤ)) ∘ Nat.succ := by
      funext i
      rw [Function.comp_apply, Nat.succ_eq_add_one, add_assoc, add_comm 1 i]
    rw [values, hsize.1, ih hsize.2 hmin.2, hvalue, hshift, ← List.map_map, List.length_cons,
      List.range_succ_eq_map, List.map_cons]

theorem decode_bits {fs : List Field} (hsize : ∀ f ∈ fs, f.size = 1)
    (hmin : ∀ f ∈ fs, 0 ≤ f.minimum) (b : UInt8) :
    decode fs [b] = (List.range fs.length).map fun i => ((b.toNat / 2 ^ i % 2 : ℕ) : ℤ) := by
  rw [decode, values_bits hsize hmin, word, word, mul_zero, add_zero]
  simp only [zero_add]

end ReportDescriptor
