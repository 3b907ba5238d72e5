import BluePillJs.Axis.Transmit
import BluePillJs.Encoder.Pass

/-! The loop of `ems22a_thread` with the joystick behind it. Over any number of turns a
damaged frame costs the readings of its own device and nothing else. -/

namespace BluePill.Encoder
open Axis BitWindow Calibration PartialRuns

structure Inputs where
  jscalSwitch : ℕ → Bool
  port : ℕ → UInt16

structure Thread where
  rxbuf : ℕ → Ems22aFrame
  device : Device

def Inputs.call (inputs : Inputs) (i : ℕ) (hdg : Heading) : TransmitCall where
  heading := hdg
  jscalSwitch := inputs.jscalSwitch i
  port := inputs.port i

def handle (inputs : Inputs) : PassEvent → Device → Option Device
  -- a faulty frame is printed and goes no further
  | .error _ _, d => some d
  | .transmit i hdg, d => transmitCall (inputs.call i hdg) d

def PassEvent.reported? : PassEvent → Option ℕ
  | .error i _ => some i
  | .transmit _ _ => none

def ems22aTurn (n : ℕ) (wire : ℕ → Ems22aFrame) (inputs : Inputs) (t : Thread) :
    Option (List ℕ × Thread) :=
  let events := ems22aPass wire t.rxbuf n
  (run (handle inputs) events t.device).map fun d =>
    (events.filterMap PassEvent.reported?, ⟨ems22aReceive wire t.rxbuf n, d⟩)

/-- What a turn reads: a healthy chain of `n` devices, and the bits flipped on the wire. -/
structure Turn (n : ℕ) where
  chain : CleanChain
  length_slots : chain.slots.length = n
  flips : ℕ → Bool
  inputs : Inputs

namespace Turn
variable {n : ℕ}

def step (p : Turn n) : Thread → Option (List ℕ × Thread) :=
  ems22aTurn n (p.chain.received p.flips) p.inputs

/-- Every frame is either intact or damaged in a way that its parity shows. -/
def Detectable (p : Turn n) : Prop := ∀ i < n, flipped p.flips i = 0 ∨ Odd (flipped p.flips i)

def calls (p : Turn n) : List TransmitCall :=
  (List.finRange p.chain.slots.length).filterMap fun i : Fin p.chain.slots.length =>
    if flipped p.flips i = 0 then some (p.inputs.call i (p.chain.word i).heading) else none

def damaged (p : Turn n) : List ℕ :=
  (List.finRange p.chain.slots.length).filterMap fun i : Fin p.chain.slots.length =>
    if flipped p.flips i = 0 then none else some (i : ℕ)

end Turn

def PassEvent.call? (inputs : Inputs) : PassEvent → Option TransmitCall
  | .error _ _ => none
  | .transmit i hdg => some (inputs.call i hdg)

theorem handle_eq (inputs : Inputs) (e : PassEvent) (d : Device) :
    handle inputs e d = (e.call? inputs).elim (some d) fun c => transmitCall c d := by
  cases e <;> rfl

theorem run_handle (inputs : Inputs) (events : List PassEvent) (d : Device) :
    run (handle inputs) events d = transmitRun (events.filterMap (PassEvent.call? inputs)) d :=
  run_filterMap (PassEvent.call? inputs) (handle_eq inputs) events d

theorem ems22aPass_eq (wire frames : ℕ → Ems22aFrame) (n : ℕ) :
    ems22aPass wire frames n =
      (List.range n).map fun i => passEvent i (checked (stitched wire i)) := by
  apply List.map_congr_left
  intro i hi
  rw [ems22aReceive_eq wire frames (List.mem_range.mp hi)]

namespace Turn
variable {n : ℕ} {p : Turn n}

theorem passEvent_received (hp : p.Detectable) (i : Fin p.chain.slots.length) :
    passEvent i (checked (stitched (p.chain.received p.flips) i)) =
      if flipped p.flips i = 0 then .transmit i (p.chain.word i).heading
      else .error i (checked (stitched (p.chain.received p.flips) i)) := by
  have hi : (i : ℕ) < n := i.isLt.trans_eq p.length_slots
  unfold passEvent
  split_ifs with hfaulty hzero hzero
  · have hword : stitched (p.chain.received p.flips) i = p.chain.word i := by
      rw [p.chain.stitched_received, window_eq_zero hzero, BitVec.xor_zero]
    rw [hword, (p.chain.clean i).faulty_checked] at hfaulty
    exact absurd hfaulty Bool.false_ne_true
  · rfl
  · have hword : stitched (p.chain.received p.flips) i = p.chain.word i := by
      rw [p.chain.stitched_received, window_eq_zero hzero, BitVec.xor_zero]
    rw [hword, heading_checked]
  · have hodd : ¬Even (ones (stitched (p.chain.received p.flips) i)) := by
      rw [p.chain.even_ones_iff, Nat.not_even_iff_odd]
      exact (hp i hi).resolve_left hzero
    exact absurd (faulty_checked_of_odd hodd) hfaulty

theorem events_eq (hp : p.Detectable) (rxbuf : ℕ → Ems22aFrame) :
    ems22aPass (p.chain.received p.flips) rxbuf n =
      (List.finRange p.chain.slots.length).map fun i : Fin p.chain.slots.length =>
        if flipped p.flips i = 0 then .transmit i (p.chain.word i).heading
        else .error i (checked (stitched (p.chain.received p.flips) i)) := by
  have hrange : List.range n =
      (List.finRange p.chain.slots.length).map fun i : Fin p.chain.slots.length => (i : ℕ) := by
    rw [List.map_coe_finRange_eq_range, p.length_slots]
  rw [ems22aPass_eq, hrange, List.map_map]
  apply List.map_congr_left
  intro i _
  exact passEvent_received hp i

theorem filterMap_call? (hp : p.Detectable) (rxbuf : ℕ → Ems22aFrame) :
    (ems22aPass (p.chain.received p.flips) rxbuf n).filterMap (PassEvent.call? p.inputs) =
      p.calls := by
  rw [events_eq hp, List.filterMap_map, calls]
  apply List.filterMap_congr
  intro i _
  rw [Function.comp_apply]
  split_ifs <;> rfl

theorem filterMap_reported? (hp : p.Detectable) (rxbuf : ℕ → Ems22aFrame) :
    (ems22aPass (p.chain.received p.flips) rxbuf n).filterMap PassEvent.reported? = p.damaged := by
  rw [events_eq hp, List.filterMap_map, damaged]
  apply List.filterMap_congr
  intro i _
  rw [Function.comp_apply]
  split_ifs <;> rfl

theorem step_eq (hp : p.Detectable) (t : Thread) :
    p.step t = (transmitRun p.calls t.device).map fun d =>
      (p.damaged, ⟨ems22aReceive (p.chain.received p.flips) t.rxbuf n, d⟩) := by
  rw [step, ems22aTurn, run_handle, filterMap_call? hp, filterMap_reported? hp]

end Turn

/-- The joystick moves as if the damaged frames had never been sent, and the thread names
exactly their devices. -/
theorem thread_masks_damage {n : ℕ} (turns : List (Turn n))
    (hturns : ∀ p ∈ turns, Turn.Detectable p) (t : Thread) :
    (trace Turn.step turns t).map (Prod.map id Thread.device) =
      (transmitRun (turns.flatMap Turn.calls) t.device).map
        (Prod.mk (turns.flatMap Turn.damaged)) := by
  apply trace_flatMap Thread.device turns
  intro p hp t
  rw [Turn.step_eq (hturns p hp), Option.map_map]
  rfl

def twoDevices : CleanChain where
  slots := [(true, 0x0000#16), (false, 0x8040#16)]
  padding := List.replicate 14 true
  slots_pos := by decide
  slots_le := by decide
  padding_length := rfl
  clean i := by
    have hclean (f : Ems22aFrame) (hf : f = 0x0000#16 ∨ f = 0x8040#16) : Clean f := by
      rcases hf with rfl | rfl
      · exact ⟨by decide, by decide⟩
      · exact ⟨by decide, by decide⟩
    apply hclean
    revert i
    simp only [Chain.word]
    decide

def firstDamaged : Turn 2 where
  chain := twoDevices
  length_slots := rfl
  flips k := k = 5
  inputs := ⟨fun _ => false, fun _ => 0xFFFF⟩

theorem thread_masks_damage_first :
    (trace Turn.step [firstDamaged] ⟨fun _ => 0, powerOn⟩).map (Prod.map id Thread.device) =
      (transmitRun firstDamaged.calls powerOn).map (Prod.mk [0]) := by
  have hturns : ∀ p ∈ [firstDamaged], Turn.Detectable p := by
    intro p hp
    rw [List.mem_singleton.mp hp]
    unfold Turn.Detectable
    decide
  have h := thread_masks_damage [firstDamaged] hturns ⟨fun _ => 0, powerOn⟩
  rw [List.flatMap_singleton, List.flatMap_singleton] at h
  exact h

end BluePill.Encoder
