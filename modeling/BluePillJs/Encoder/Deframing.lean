import BluePillJs.Encoder.Frames

/-! The bit stream a daisy chain sends, and its recovery by `ems22a_receive`: every
device gets its own word back, whatever the dummy bits and the padding are. -/

namespace BluePill.Encoder
open BitWindow Ems22aFrame

/-- One read of the chain: a dummy bit and a word for each device, and the bits that
fill up the extra SPI word. -/
structure Chain where
  slots : List (Bool × Ems22aFrame)
  padding : List Bool
  slots_pos : 0 < slots.length
  slots_le : slots.length ≤ 16
  padding_length : padding.length = 16 - slots.length

def msbFirst (f : Ems22aFrame) : List Bool := (List.range 16).map fun k => f.getLsbD (15 - k)

def slotBits (s : Bool × Ems22aFrame) : List Bool := s.1 :: msbFirst s.2

namespace Chain

def bits (c : Chain) : List Bool := c.slots.flatMap slotBits ++ c.padding

def stream (c : Chain) (k : ℕ) : Bool := c.bits.getD k false

def word (c : Chain) (i : Fin c.slots.length) : Ems22aFrame := (c.slots.get i).2

end Chain

def spiWords (stream : ℕ → Bool) (i : ℕ) : Ems22aFrame := window 16 stream (16 * i)

theorem length_slotBits (s : Bool × Ems22aFrame) : (slotBits s).length = 17 := by
  simp [slotBits, msbFirst]

theorem getD_slotBits (s : Bool × Ems22aFrame) {k : ℕ} (h : k < 16) :
    (slotBits s).getD (k + 1) false = s.2.getLsbD (15 - k) := by
  simp [slotBits, msbFirst, h]

namespace Chain
variable (c : Chain)

theorem length_slots : (c.slots.flatMap slotBits).length = 17 * c.slots.length := by
  induction c.slots with
  | nil => rfl
  | cons s l ih =>
    rw [List.flatMap_cons, List.length_append, length_slotBits, ih, List.length_cons]
    omega

theorem stream_slot (i : Fin c.slots.length) {k : ℕ} (h : k < 17) :
    c.stream (17 * i + k) = (slotBits (c.slots.get i)).getD k false := by
  have hi := i.isLt
  rw [stream, bits, List.getD_append _ _ _ _ (by rw [length_slots]; omega)]
  exact getD_flatMap length_slotBits h

theorem window_stream (i : Fin c.slots.length) : window 16 c.stream (17 * i + 1) = c.word i := by
  apply BitVec.eq_of_getLsbD_eq
  intro k hk
  rw [getLsbD_window c.stream _ hk, add_assoc, c.stream_slot i (by omega), Nat.add_comm 1,
    getD_slotBits _ (by omega)]
  congr 1
  omega

end Chain

theorem stitched_spiWords (stream : ℕ → Bool) {i : ℕ} (h : i < 16) :
    stitched (spiWords stream) i = window 16 stream (17 * i + 1) := by
  unfold stitched spiWords
  rw [mul_add, mul_one, window_stitch stream (16 * i) (by omega)]
  congr 1
  omega

theorem ems22aReceive_spiWords (stream : ℕ → Bool) (frames : ℕ → Ems22aFrame) {n i : ℕ}
    (hn : n ≤ 16) (hi : i < n) :
    ems22aReceive (spiWords stream) frames n i = checked (window 16 stream (17 * i + 1)) := by
  rw [ems22aReceive_eq _ _ hi, stitched_spiWords stream (by omega)]

theorem extractLsb'_checked (f : Ems22aFrame) {start : ℕ} (len : ℕ) (h : 0 < start) :
    (checked f).extractLsb' start len = f.extractLsb' start len := by
  apply BitVec.eq_of_getLsbD_eq
  intro k hk
  rw [BitVec.getLsbD_extractLsb', BitVec.getLsbD_extractLsb', getLsbD_checked f (by omega)]

theorem ems22aReceive_deframes (c : Chain) (frames : ℕ → Ems22aFrame)
    (i : Fin c.slots.length) :
    let received := ems22aReceive (spiWords c.stream) frames c.slots.length i
    received.extractLsb' 1 15 = (c.word i).extractLsb' 1 15 ∧
      (received.parity = false ↔ Even (ones (c.word i))) := by
  have hreceived : ems22aReceive (spiWords c.stream) frames c.slots.length i =
      checked (c.word i) := by
    rw [ems22aReceive_spiWords c.stream frames c.slots_le i.isLt, c.window_stream]
  intro received
  rw [show received = checked (c.word i) from hreceived]
  exact ⟨extractLsb'_checked _ 15 one_pos, parity_checked _⟩

end BluePill.Encoder
