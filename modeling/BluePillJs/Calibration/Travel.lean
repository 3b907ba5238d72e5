import BluePillJs.Calibration.Machine
import BluePillJs.Library.Amortised

/-! How often `prevent_wraparound` moves the offset. Every move is paid for by `64` steps of
travel, so a rudder that trembles at the seam does not keep it busy. -/

namespace BluePill.Calibration
open Amortised CircleArc PartialRuns

def seamMove (c : Call) (m : Calibrator) : Option (List Int8 × Calibrator) :=
  (calibrateCall c m).map fun m' =>
    (if m'.cs.offset = m.cs.offset then [] else [m'.cs.offset], m')

def turned (c c' : Call) : ℚ := |recentre 256 ((c'.heading : ℚ) - c.heading)|

def Steady (sw : Bool) (m : Calibrator) : Prop := m.state.next sw = m.state

/-- How far the heading is from the middle of the circle that the offset turns. -/
def lean (c : Call) (m : Calibrator) : ℚ := |normalise c.heading m.cs.offset.toInt|

theorem abs_le_of_modEq {x y : ℚ} (h : x ≡ y [PMOD 256]) (hx : |x| ≤ 128) : |x| ≤ |y| := by
  rcases lt_or_ge |x - y| 256 with hd | hd
  · rw [eq_of_modEq h hd]
  · have htri := abs_sub x y
    linarith

theorem normalise_carried {val : ℚ} (h : |val| ≤ 128) (cs : CalState) :
    normalise val (cs.carried val).offset.toInt = adjusted cs.offset val := by
  have hsum : |val + (cs.carried val).offset.toInt| ≤ 3 * (256 / 2) := by
    have htri := abs_add_le val (cs.carried val).offset.toInt
    have hbyte := abs_toInt_le (cs.carried val).offset
    linarith
  have hclear : |adjusted cs.offset val| < 256 / 2 := by
    have hle := adjusted_abs_le h cs.offset
    linarith
  rw [normalise_eq_recentre]
  exact recentre_eq_of_modEq hsum hclear (adjusted_modEq cs val).symm

theorem abs_add_seamShift {v : ℚ} :
    |v + seamShift v| + (if seamShift v = 0 then 0 else 64) ≤ |v| := by
  rcases seamShift_cases v with ⟨hv, hs⟩ | ⟨hv, hs⟩ | ⟨_, hs⟩
  · rw [hs, if_neg (by decide), abs_of_neg (by push_cast; linarith), abs_of_neg (by linarith)]
    push_cast
    linarith
  · rw [hs, if_neg (by decide), abs_of_pos (by push_cast; linarith), abs_of_pos (by linarith)]
    push_cast
    linarith
  · rw [hs, if_pos rfl, Int.cast_zero, add_zero, add_zero]

theorem normalise_abs_le_turned (c c' : Call) (offset : Int8) :
    |normalise c'.heading offset.toInt| ≤ |normalise c.heading offset.toInt| + turned c c' := by
  have hmod : normalise c'.heading offset.toInt ≡ normalise c.heading offset.toInt +
      recentre 256 ((c'.heading : ℚ) - c.heading) [PMOD 256] := by
    have hsum := (normalise_modEq c.heading offset.toInt).add
      (recentre_modEq 256 ((c'.heading : ℚ) - c.heading))
    refine (normalise_modEq c'.heading offset.toInt).trans (hsum.trans ?_).symm
    rw [show (c.heading : ℚ) + offset.toInt + (c'.heading - c.heading) =
      c'.heading + offset.toInt by ring]
  have hnear := abs_le_of_modEq hmod (normalise_byte_abs_le (heading_abs_le c'.heading) offset)
  exact hnear.trans (abs_add_le _ _)

theorem calibrateCall_steady {c : Call} {m : Calibrator} (h : Steady c.jscalSwitch m) :
    ∃ m', calibrateCall c m = some m' ∧ m'.state = m.state ∧
      m'.cs.offset = (m.cs.carried c.heading).offset := by
  unfold Steady at h
  unfold calibrateCall
  cases hs : m.state with
  | off =>
    rw [hs] at h
    have hsw : c.jscalSwitch = false := by
      cases hc : c.jscalSwitch with
      | false => rfl
      | true =>
        rw [hc] at h
        exact nomatch h
    rw [hsw, calibrate_idle hs]
    exact ⟨_, rfl, hs, rfl⟩
  | on =>
    rw [hs] at h
    have hsw : c.jscalSwitch = true := by
      cases hc : c.jscalSwitch with
      | true => rfl
      | false =>
        rw [hc] at h
        exact nomatch h
    rw [hsw, calibrate_on hs]
    exact ⟨_, rfl, rfl, rfl⟩
  | ending =>
    rw [hs] at h
    exact nomatch h

/-- A move costs `64` steps of lean, and only travel brings them back. -/
theorem seamMove_paid {sw : Bool} (c c' : Call) {m : Calibrator} (hsw : c'.jscalSwitch = sw)
    (hm : Steady sw m) : ∃ moves m', seamMove c' m = some (moves, m') ∧ Steady sw m' ∧
      64 * (moves.length : ℚ) + lean c' m' ≤ lean c m + turned c c' := by
  subst hsw
  obtain ⟨m', hcall, hstate, hoffset⟩ := calibrateCall_steady hm
  refine ⟨_, m', by rw [seamMove, hcall]; rfl, ?_, ?_⟩
  · unfold Steady
    rw [hstate]
    exact hm
  · have hlean : lean c' m' = |adjusted m.cs.offset c'.heading| := by
      rw [lean, hoffset, normalise_carried (heading_abs_le c'.heading)]
    have hmoves : 64 * ((if m'.cs.offset = m.cs.offset then [] else [m'.cs.offset]).length : ℚ) ≤
        if seamShift (normalise c'.heading m.cs.offset.toInt) = 0 then 0 else 64 := by
      split_ifs with hsame hzero hzero
      · rw [List.length_nil, Nat.cast_zero, mul_zero]
      · rw [List.length_nil, Nat.cast_zero, mul_zero]
        norm_num
      · refine absurd ?_ hsame
        rw [hoffset, CalState.carried, hzero]
        exact Int8.add_zero _
      · rw [List.length_singleton, Nat.cast_one, mul_one]
    have hpaid := abs_add_seamShift (v := normalise c'.heading m.cs.offset.toInt)
    have hturned := normalise_abs_le_turned c c' m.cs.offset
    rw [hlean]
    unfold adjusted lean
    linarith

/-- While the machine is idle, or recording, the offset moves at most once for every `64`
steps of travel, after at most two moves that the first heading may cause. -/
theorem seam_moves_paid {sw : Bool} (first : Call) (calls : List Call)
    (hcalls : ∀ c ∈ first :: calls, c.jscalSwitch = sw) {m : Calibrator} (hm : Steady sw m) :
    ∃ moves m', trace seamMove (first :: calls) m = some (moves, m') ∧
      64 * (moves.length : ℚ) ≤ 128 + path turned first calls := by
  obtain ⟨moves, m', hrun, _, last, hpaid⟩ := trace_paid 64 lean turned
    (fun c c' m hc hm => seamMove_paid c c' hc hm) (first :: calls) hcalls first hm
  refine ⟨moves, m', hrun, ?_⟩
  have hstay : turned first first = 0 := by
    rw [turned, sub_self, recentre_of_abs_le (by norm_num), abs_zero]
  have hstart : lean first m ≤ 128 := normalise_byte_abs_le (heading_abs_le first.heading) _
  have hend : 0 ≤ lean last m' := abs_nonneg _
  rw [path, hstay, zero_add] at hpaid
  linarith

theorem seam_moves_paid_across :
    ∃ moves m', trace seamMove [⟨.ofByte 100, false⟩, ⟨.ofByte (-100), false⟩] powerOn =
      some (moves, m') ∧ 64 * (moves.length : ℚ) ≤
        128 + path turned ⟨.ofByte 100, false⟩ [⟨.ofByte (-100), false⟩] := by
  have hcalls : ∀ c ∈ [Call.mk (.ofByte 100) false, ⟨.ofByte (-100), false⟩],
      c.jscalSwitch = false := by
    intro c hc
    rcases List.mem_pair.mp hc with rfl | rfl <;> rfl
  exact seam_moves_paid ⟨.ofByte 100, false⟩ [⟨.ofByte (-100), false⟩] hcalls rfl

end BluePill.Calibration
