import BluePillJs.Flash.Storage
import BluePillJs.Shell.CalCommand

/-! `cal_save` and `cal_load` run in the shell, and the sensor thread may call `transmit` at
any point of them. The switch is off meanwhile, since the shell does not run `cal`. -/

namespace BluePill.Flash
open Calibration FlashCells PartialRuns

section
variable (zeroDivisor : ℚ → CalState → CalData)

/-- A call of `transmit`, as far as the calibration goes; `zeroDivisor` is what the float
division stores when a divisor is zero. -/
def sensorCall (hdg : ℚ) (m : Calibrator) : Calibrator :=
  Shell.calibrateFloat (fun val m => zeroDivisor val m.cs) false hdg m

theorem sensorCall_state (hdg : ℚ) (m : Calibrator) :
    (sensorCall zeroDivisor hdg m).state = m.state.next false :=
  Shell.calibrateFloat_state _ false hdg m

theorem sensorCall_cases (hdg : ℚ) (m : Calibrator) :
    ((sensorCall zeroDivisor hdg m).calData = m.calData ∧
      (m.state = .off → (sensorCall zeroDivisor hdg m).state = .off)) ∨
    (m.state = .ending ∧ (sensorCall zeroDivisor hdg m).state = .off) := by
  by_cases hm : m.state = .ending
  · refine .inr ⟨hm, ?_⟩
    rw [sensorCall_state, hm]
    rfl
  · refine .inl ⟨Shell.calibrateFloat_calData _ hm false hdg, fun hoff => ?_⟩
    rw [sensorCall_state, hoff]
    rfl

end

/-! ## A save -/

def ramBytes (bits : CalData → CalWords) (cal : CalData) : List UInt8 := (bits cal).frame.stream

structure Saving where
  calibrator : Calibrator
  stored : List UInt8

inductive SaveEvent where
  | program
  | call (hdg : ℚ)

section
variable (zeroDivisor : ℚ → CalState → CalData) (bits : CalData → CalWords)

/-- `flashProgram` takes the next byte from the frame as it is now. -/
def saveStep : SaveEvent → Saving → Option Saving
  | .program, w =>
    (ramBytes bits w.calibrator.calData)[w.stored.length]?.map fun b =>
      { w with stored := w.stored ++ [b] }
  | .call hdg, w => some { w with calibrator := sensorCall zeroDivisor hdg w.calibrator }

def closings : List SaveEvent → Calibrator → ℕ
  | [], _ => 0
  | .program :: events, m => closings events m
  | .call hdg :: events, m =>
    (if m.state = .ending then 1 else 0) + closings events (sensorCall zeroDivisor hdg m)

/-- The calibration has changed once at most, after the first `k` bytes. -/
structure SavedFrom (m : Calibrator) (w : Saving) : Prop where
  stored : ∃ k ≤ w.stored.length, w.stored =
    torn (ramBytes bits m.calData) (ramBytes bits w.calibrator.calData) k w.stored.length
  once : w.calibrator.calData = m.calData ∨ w.calibrator.state = .off

variable {zeroDivisor bits} {m : Calibrator} {v w w' : Saving}

theorem closings_le (zeroDivisor : ℚ → CalState → CalData) (events : List SaveEvent)
    (m : Calibrator) : closings zeroDivisor events m ≤ if m.state = .off then 0 else 1 := by
  induction events generalizing m with
  | nil => exact Nat.zero_le _
  | cons e events ih =>
    cases e with
    | program => exact ih m
    | call hdg =>
      have hrest := ih (sensorCall zeroDivisor hdg m)
      rw [sensorCall_state] at hrest
      rw [closings]
      -- the state only moves towards `off`, through `ending` at the call that closes
      cases hstate : m.state with
      | off | on | ending => simpa [hstate, JsState.next] using hrest

theorem run_calData (events : List SaveEvent)
    (hrun : run (saveStep zeroDivisor bits) events v = some w)
    (hnone : closings zeroDivisor events v.calibrator = 0) :
    w.calibrator.calData = v.calibrator.calData := by
  induction events generalizing v with
  | nil =>
    cases hrun
    rfl
  | cons e events ih =>
    rw [run_cons] at hrun
    obtain ⟨v', hstep, hrest⟩ := Option.bind_eq_some_iff.mp hrun
    cases e with
    | program =>
      obtain ⟨b, _, rfl⟩ := Option.map_eq_some_iff.mp hstep
      have hsame := ih hrest hnone
      exact hsame
    | call hdg =>
      cases hstep
      rw [closings, Nat.add_eq_zero_iff] at hnone
      have hcase : v.calibrator.state ≠ .ending := fun h => absurd (if_pos h ▸ hnone.1) one_ne_zero
      exact (ih hrest hnone.2).trans (Shell.calibrateFloat_calData _ hcase false hdg)

theorem savedFrom_start (bits : CalData → CalWords) (m : Calibrator) :
    SavedFrom bits m ⟨m, []⟩ where
  stored := ⟨0, le_rfl, rfl⟩
  once := .inl rfl

theorem SavedFrom.program {b : UInt8} (h : SavedFrom bits m w)
    (hb : (ramBytes bits w.calibrator.calData)[w.stored.length]? = some b) :
    SavedFrom bits m { w with stored := w.stored ++ [b] } := by
  obtain ⟨k, hk, hstored⟩ := h.stored
  obtain ⟨hlt, hbyte⟩ := List.getElem?_eq_some_iff.mp hb
  refine ⟨⟨k, ?_, ?_⟩, h.once⟩
  · exact hk.trans (List.length_append.symm ▸ Nat.le_add_right _ _)
  · show w.stored ++ [b] = torn _ _ k (w.stored ++ [b]).length
    rw [List.length_append, List.length_singleton, torn_succ hk hlt, ← hstored, hbyte]

theorem SavedFrom.call (h : SavedFrom bits m w) (hdg : ℚ) :
    SavedFrom bits m { w with calibrator := sensorCall zeroDivisor hdg w.calibrator } := by
  rcases sensorCall_cases zeroDivisor hdg w.calibrator with ⟨hsame, hoff⟩ | ⟨hending, hoff⟩
  · refine ⟨?_, h.once.imp hsame.trans hoff⟩
    show ∃ k ≤ _, _ = torn _ (ramBytes bits (sensorCall _ _ _).calData) k _
    rw [hsame]
    exact h.stored
  · -- nothing has changed so far, and nothing will change from now on
    have hfirst : w.calibrator.calData = m.calData :=
      h.once.resolve_right fun hother => nomatch hending.symm.trans hother
    obtain ⟨k, hk, hstored⟩ := h.stored
    rw [hfirst, torn_self _ hk] at hstored
    refine ⟨⟨w.stored.length, le_rfl, ?_⟩, .inr hoff⟩
    show w.stored = torn _ _ w.stored.length w.stored.length
    rw [torn_fresh]
    exact hstored

theorem saveStep_savedFrom (e : SaveEvent) (h : SavedFrom bits m w)
    (hstep : saveStep zeroDivisor bits e w = some w') : SavedFrom bits m w' := by
  cases e with
  | program =>
    obtain ⟨b, hb, rfl⟩ := Option.map_eq_some_iff.mp hstep
    exact h.program hb
  | call hdg =>
    cases hstep
    exact h.call hdg

theorem saveRun_savedFrom (events : List SaveEvent)
    (hrun : run (saveStep zeroDivisor bits) events ⟨m, []⟩ = some w) : SavedFrom bits m w :=
  run_history (P := fun _ => SavedFrom bits m) (c := ()) (fun _ _ => ())
    (fun e _ _ _ h hstep => saveStep_savedFrom e h hstep) events (savedFrom_start bits m) hrun

end

def CalWords.field (data : CalWords) : Fin 3 → UInt32
  | 0 => data.offset
  | 1 => data.mNeg
  | 2 => data.mPos

theorem field_ofStream (bytes : List UInt8) (i : Fin 3) :
    (CalFrame.ofStream bytes).data.field i = bytesWord ((bytes.drop (4 + 4 * i)).take 4) := by
  match i with
  | 0 => rfl
  | 1 => rfl
  | 2 => rfl

theorem field_ramBytes (bits : CalData → CalWords) (cal : CalData) (i : Fin 3) :
    bytesWord (((ramBytes bits cal).drop (4 + 4 * i)).take 4) = (bits cal).field i := by
  rw [← field_ofStream, ramBytes, ofStream_frame]
  rfl

theorem exists_cut (k : ℕ) : ∃ i : Fin 3, ∀ j : Fin 3,
    (j < i → 4 + 4 * (j : ℕ) + 4 ≤ k) ∧ (i < j → k ≤ 4 + 4 * (j : ℕ)) := by
  refine ⟨⟨min 2 ((k - 4) / 4), by omega⟩, fun j => ⟨fun h => ?_, fun h => ?_⟩⟩
  · have hlt : (j : ℕ) < min 2 ((k - 4) / 4) := h
    omega
  · have hlt : min 2 ((k - 4) / 4) < (j : ℕ) := h
    omega

theorem marked_torn {bits : CalData → CalWords} {old new : CalData} {k : ℕ} {s : Sector}
    (hk : k ≤ 20) (hs : readCells s 20 = torn (ramBytes bits old) (ramBytes bits new) k 20) :
    Marked s := by
  have hmarker (a n : ℕ)
      (h : ((ramBytes bits old).drop a).take n = ((ramBytes bits new).drop a).take n) :
      ((readCells s 20).drop a).take n = ((ramBytes bits new).drop a).take n := by
    rw [hs]
    exact slice_torn_agree hk le_rfl h
  have hlen : ((readCells s 20).drop 16).length ≤ 4 := by
    rw [List.length_drop, length_readCells]
  constructor
  · exact hmarker 0 4 rfl
  · rw [← List.take_of_length_le hlen]
    exact hmarker 16 4 rfl

/-- A session can close once while `cal_save` runs. Whatever was stored, `cal_load` accepts it:
the floats before the cut are the old ones, those behind it the new ones, and one may be a
mixture of both. If no session closes, the frame is whole. -/
theorem save_torn_once (zeroDivisor : ℚ → CalState → CalData) (bits : CalData → CalWords)
    (events : List SaveEvent) {m : Calibrator} {w : Saving}
    (hrun : run (saveStep zeroDivisor bits) events ⟨m, []⟩ = some w) (hall : w.stored.length = 20)
    (v : World) (hv : readCells v.sector 20 = w.stored) :
    closings zeroDivisor events m ≤ 1 ∧ (m.state = .off → closings zeroDivisor events m = 0) ∧
      ∃ data, calLoad true v = (true, { v with calFrame := { v.calFrame with data := data } }) ∧
        (∃ i, ∀ j, (j < i → data.field j = (bits m.calData).field j) ∧
          (i < j → data.field j = (bits w.calibrator.calData).field j)) ∧
        (closings zeroDivisor events m = 0 → data = bits m.calData) := by
  obtain ⟨k, hk, hstored⟩ := (saveRun_savedFrom events hrun).stored
  have hclosings := closings_le zeroDivisor events m
  rw [hall] at hk hstored
  have hlen : (ramBytes bits w.calibrator.calData).length ≤ 20 := le_rfl
  refine ⟨hclosings.trans (by split_ifs <;> decide), fun hm => ?_, _,
    calLoad_marked (marked_torn hk (hv.trans hstored)), ?_, fun hnone => ?_⟩
  · rw [if_pos hm] at hclosings
    exact Nat.le_zero.mp hclosings
  · obtain ⟨i, hi⟩ := exists_cut k
    refine ⟨i, fun j => ⟨fun hji => ?_, fun hij => ?_⟩⟩
    · rw [field_ofStream, hv, hstored, slice_torn_old hk hlen ((hi j).1 hji), field_ramBytes]
    · rw [field_ofStream, hv, hstored, slice_torn_new hk hlen ((hi j).2 hij), field_ramBytes]
  · -- the copy was made from a frame that did not change
    have hold : (ramBytes bits m.calData).length ≤ 20 := le_rfl
    have hsame : w.calibrator.calData = m.calData := run_calData events hrun hnone
    rw [hsame, torn_self _ hk, List.take_of_length_le hold] at hstored
    rw [hv, hstored, ramBytes, ofStream_frame]
    rfl

def recorded : Calibrator := ⟨.ending, ⟨-64, 64, 0⟩, ⟨0, 1, 1⟩, false⟩

def twoBits (cal : CalData) : CalWords :=
  if cal = ⟨0, 1, 1⟩ then initialFrame.data else ⟨0, 0x40000000, 0x40000000⟩

def closingSave : List SaveEvent :=
  -- the frame is stored up to the last byte of `m_neg`
  List.replicate 11 .program ++ .call 0 :: List.replicate 9 .program

theorem save_torn_once_closing : ∃ w,
    run (saveStep (fun _ _ => ⟨0, 1, 1⟩) twoBits) closingSave ⟨recorded, []⟩ = some w ∧
      closings (fun _ _ => ⟨0, 1, 1⟩) closingSave recorded ≤ 1 ∧
      (recorded.state = .off → closings (fun _ _ => ⟨0, 1, 1⟩) closingSave recorded = 0) ∧
      ∃ data, calLoad true ⟨program w.stored 20 erasedSector, initialFrame⟩ =
          (true, ⟨program w.stored 20 erasedSector, data.frame⟩) ∧
        (∃ i, ∀ j, (j < i → data.field j = (twoBits recorded.calData).field j) ∧
          (i < j → data.field j = (twoBits w.calibrator.calData).field j)) ∧
        (closings (fun _ _ => ⟨0, 1, 1⟩) closingSave recorded = 0 →
          data = twoBits recorded.calData) := by
  obtain ⟨w, hrun, hall⟩ : ∃ w, run (saveStep (fun _ _ => ⟨0, 1, 1⟩) twoBits) closingSave
      ⟨recorded, []⟩ = some w ∧ w.stored.length = 20 := ⟨_, rfl, rfl⟩
  have hv : readCells (program w.stored 20 erasedSector) 20 = w.stored := by
    have hread := readCells_program erasedSector hall.le
    rw [hall] at hread
    exact hread
  exact ⟨w, hrun, save_torn_once (fun _ _ => ⟨0, 1, 1⟩) twoBits closingSave hrun hall
    ⟨program w.stored 20 erasedSector, initialFrame⟩ hv⟩

/-! ## A load -/

structure Restoring where
  calibrator : Calibrator
  stored : ℕ

inductive LoadEvent where
  | store
  | call (hdg : ℚ)

def loadField (cal : CalData) : Fin 3 → ℚ
  | 0 => cal.mNeg
  | 1 => cal.mPos
  | 2 => cal.offset

def storeField (loaded : CalData) : ℕ → CalData → Option CalData
  -- in the order of the assignments in `cal_load`
  | 0, cal => some { cal with mNeg := loaded.mNeg }
  | 1, cal => some { cal with mPos := loaded.mPos }
  | 2, cal => some { cal with offset := loaded.offset }
  | _, _ => none

section
variable (zeroDivisor : ℚ → CalState → CalData) (loaded : CalData)

def loadStep : LoadEvent → Restoring → Option Restoring
  | .store, w => (storeField loaded w.stored w.calibrator.calData).map fun cal =>
      ⟨{ w.calibrator with calData := cal }, w.stored + 1⟩
  | .call hdg, w => some { w with calibrator := sensorCall zeroDivisor hdg w.calibrator }

def sensorRun (events : List LoadEvent) (m : Calibrator) : Calibrator :=
  events.foldl (fun m e => match e with
    | .store => m
    | .call hdg => sensorCall zeroDivisor hdg m) m

/-- The calibration in use is the loaded one as far as it is stored, over the one of the
sensor thread, which may have overwritten the first `k` fields. -/
structure LoadedOver (m own : Calibrator) (w : Restoring) : Prop where
  machine : w.calibrator = { own with calData := w.calibrator.calData }
  fields : ∃ k ≤ w.stored, (∀ i : Fin 3, loadField w.calibrator.calData i =
    if k ≤ i ∧ i < w.stored then loadField loaded i else loadField own.calData i) ∧
      (k = 0 ∨ m.state ≠ .off ∧ own.state = .off)
  idle : m.state = .off → own.calData = m.calData ∧ own.state = .off

variable {zeroDivisor loaded} {m own : Calibrator} {w w' : Restoring}

/-- `calibrate` does not look at the calibration it leaves or replaces. -/
theorem sensorCall_with (zeroDivisor : ℚ → CalState → CalData) (hdg : ℚ) (own : Calibrator)
    (cal : CalData) :
    sensorCall zeroDivisor hdg { own with calData := cal } =
      { sensorCall zeroDivisor hdg own with
        calData := if own.state = .ending then (sensorCall zeroDivisor hdg own).calData else cal } := by
  unfold sensorCall Shell.calibrateFloat
  obtain ⟨state, cs, calData, led⟩ := own
  cases state with
  | off =>
    rw [calibrate_idle rfl, calibrate_idle rfl]
    rfl
  | on =>
    rw [calibrate_on rfl, calibrate_on rfl]
    rfl
  | ending =>
    have hsame : calibrate false hdg ⟨.ending, cs, cal, led⟩ =
        calibrate false hdg ⟨.ending, cs, calData, led⟩ := by
      rw [calibrate_eq, calibrate_eq]
    dsimp only
    rw [hsame, if_pos rfl]

theorem storeField_field {n : ℕ} {cal cal' : CalData} (h : storeField loaded n cal = some cal')
    (i : Fin 3) : loadField cal' i = if (i : ℕ) = n then loadField loaded i else loadField cal i := by
  unfold storeField at h
  split at h <;> cases h
  all_goals
    match i with
    | 0 => rfl
    | 1 => rfl
    | 2 => rfl

theorem loadedOver_start (loaded : CalData) (m : Calibrator) : LoadedOver loaded m m ⟨m, 0⟩ where
  machine := rfl
  fields := ⟨0, le_rfl, fun _ => (if_neg fun h => Nat.not_lt_zero _ h.2).symm, .inl rfl⟩
  idle h := ⟨rfl, h⟩

theorem LoadedOver.store {cal : CalData} (h : LoadedOver loaded m own w)
    (hcal : storeField loaded w.stored w.calibrator.calData = some cal) :
    LoadedOver loaded m own ⟨{ w.calibrator with calData := cal }, w.stored + 1⟩ := by
  obtain ⟨k, hk, hfields, hcut⟩ := h.fields
  refine ⟨?_, ⟨k, Nat.le_succ_of_le hk, fun i => ?_, hcut⟩, h.idle⟩
  · rw [h.machine]
  · show loadField cal i = if k ≤ i ∧ (i : ℕ) < w.stored + 1 then _ else _
    rw [storeField_field hcal i, hfields i]
    by_cases hi : (i : ℕ) = w.stored
    · rw [if_pos hi, if_pos ⟨hi ▸ hk, hi ▸ Nat.lt_succ_self _⟩]
    · rw [if_neg hi]
      apply if_congr _ rfl rfl
      exact and_congr_right fun _ => ⟨Nat.lt_succ_of_lt, fun hlt => by omega⟩

theorem LoadedOver.call (h : LoadedOver loaded m own w) (hdg : ℚ) :
    LoadedOver loaded m (sensorCall zeroDivisor hdg own)
      { w with calibrator := sensorCall zeroDivisor hdg w.calibrator } := by
  have hwith := sensorCall_with zeroDivisor hdg own w.calibrator.calData
  rw [← h.machine] at hwith
  obtain ⟨k, hk, hfields, hcut⟩ := h.fields
  have hmachine : sensorCall zeroDivisor hdg w.calibrator = { sensorCall zeroDivisor hdg own with
      calData := (sensorCall zeroDivisor hdg w.calibrator).calData } := by
    rw [hwith]
  by_cases hending : own.state = .ending
  · -- the session replaces every field, the stored ones too
    have hbusy : m.state ≠ .off := fun hm => nomatch hending.symm.trans (h.idle hm).2
    have hclosed : (sensorCall zeroDivisor hdg own).state = .off := by
      rw [sensorCall_state, hending]
      rfl
    rw [if_pos hending] at hwith
    refine ⟨hmachine, ⟨w.stored, le_rfl, fun _ => ?_, .inr ⟨hbusy, hclosed⟩⟩, fun hm => ?_⟩
    · show loadField (sensorCall zeroDivisor hdg w.calibrator).calData _ = _
      rw [if_neg fun hi => absurd hi.2 (not_lt.mpr hi.1), hwith]
    · exact absurd hm hbusy
  · rw [if_neg hending] at hwith
    rcases sensorCall_cases zeroDivisor hdg own with ⟨hsame, hoff⟩ | ⟨hother, _⟩
    · refine ⟨hmachine, ⟨k, hk, fun i => ?_, ?_⟩, fun hm => ?_⟩
      · show loadField (sensorCall zeroDivisor hdg w.calibrator).calData i = _
        rw [hwith, hsame]
        exact hfields i
      · exact hcut.imp_right fun hclosed => ⟨hclosed.1, hoff hclosed.2⟩
      · exact ⟨hsame.trans (h.idle hm).1, hoff (h.idle hm).2⟩
    · exact absurd hother hending

theorem loadRun_loadedOver (events : List LoadEvent)
    (hrun : run (loadStep zeroDivisor loaded) events ⟨m, 0⟩ = some w) :
    LoadedOver loaded m (sensorRun zeroDivisor events m) w :=
  run_history (P := LoadedOver loaded m) _ (fun e own v v' h hstep => by
    cases e with
    | store =>
      obtain ⟨cal, hcal, rfl⟩ := Option.map_eq_some_iff.mp hstep
      exact h.store hcal
    | call hdg =>
      cases hstep
      exact h.call hdg) events (loadedOver_start loaded m) hrun

end

/-- At every point of a load the calibration in use is the loaded one as far as it has been
stored, over the one the sensor thread would have by itself. Only a session that closes
meanwhile takes the beginning back. -/
theorem load_torn_once (zeroDivisor : ℚ → CalState → CalData) (loaded : CalData)
    (events : List LoadEvent) {m : Calibrator} {w : Restoring}
    (hrun : run (loadStep zeroDivisor loaded) events ⟨m, 0⟩ = some w) :
    (∃ k ≤ w.stored, (∀ i : Fin 3, loadField w.calibrator.calData i =
      if k ≤ i ∧ i < w.stored then loadField loaded i
      else loadField (sensorRun zeroDivisor events m).calData i) ∧
        (k = 0 ∨ m.state ≠ .off ∧ (sensorRun zeroDivisor events m).state = .off)) ∧
    (m.state = .off → (sensorRun zeroDivisor events m).calData = m.calData) := by
  have h := loadRun_loadedOver events hrun
  exact ⟨h.fields, fun hm => (h.idle hm).1⟩

def closingLoad : List LoadEvent := [.store, .call 0, .store, .store]

theorem load_torn_once_closing : ∃ w,
    run (loadStep (fun _ _ => ⟨0, 1, 1⟩) ⟨10, 4, 4⟩) closingLoad ⟨recorded, 0⟩ = some w ∧
      (∃ k ≤ w.stored, (∀ i : Fin 3, loadField w.calibrator.calData i =
        if k ≤ i ∧ i < w.stored then loadField ⟨10, 4, 4⟩ i
        else loadField (sensorRun (fun _ _ => ⟨0, 1, 1⟩) closingLoad recorded).calData i) ∧
          (k = 0 ∨ recorded.state ≠ .off ∧
            (sensorRun (fun _ _ => ⟨0, 1, 1⟩) closingLoad recorded).state = .off)) ∧
      (recorded.state = .off →
        (sensorRun (fun _ _ => ⟨0, 1, 1⟩) closingLoad recorded).calData = recorded.calData) := by
  obtain ⟨w, hrun⟩ : ∃ w, run (loadStep (fun _ _ => ⟨0, 1, 1⟩) ⟨10, 4, 4⟩) closingLoad
      ⟨recorded, 0⟩ = some w := ⟨_, rfl⟩
  exact ⟨w, hrun, load_torn_once (fun _ _ => ⟨0, 1, 1⟩) ⟨10, 4, 4⟩ closingLoad hrun⟩

end BluePill.Flash
