import BluePillJs.Calibration.CentreArc
import BluePillJs.Calibration.Recorder
import BluePillJs.Calibration.Session

/-! A slow sweep across the seam: the unwrapped headings move by less than half a
quarter turn at a time within a limited span, and the recorder follows them in one
frame `s`, the heading's turn modulo `256`. -/

namespace BluePill.Calibration
open CircleArc PartialRuns TruncatedByte

/-- A heading together with the unwrapped position it stands for. -/
structure Sample where
  heading : Heading
  unwrapped : ℚ
  modEq : (heading : ℚ) ≡ unwrapped [PMOD 256]

def Near (p q : Sample) : Prop := |q.unwrapped - p.unwrapped| < 32

def Spans (all : List Sample) : Prop :=
  ∀ p ∈ all, ∀ q ∈ all, |p.unwrapped - q.unwrapped| ≤ 159

def seamStep (s : ℤ) (u : ℚ) : ℤ := s + seamShift (u + s)

def frames : ℤ → List Sample → List (Sample × ℤ)
  | _, [] => []
  | s, p :: ps => (p, seamStep s p.unwrapped) :: frames (seamStep s p.unwrapped) ps

def lastFrame : ℤ → List Sample → ℤ
  | s, [] => s
  | s, p :: ps => lastFrame (seamStep s p.unwrapped) ps

/-- What the recorder keeps of a sample, moved back to frame zero. -/
def reading (f : Sample × ℤ) : ℤ := truncate (f.1.unwrapped + f.2) - f.2

theorem frames_append (s : ℤ) (ps qs : List Sample) :
    frames s (ps ++ qs) = frames s ps ++ frames (lastFrame s ps) qs := by
  induction ps generalizing s with
  | nil => rfl
  | cons p ps ih => simp only [List.cons_append, frames, lastFrame, ih]

theorem mem_of_mem_frames {s : ℤ} {ps : List Sample} {f : Sample × ℤ} (h : f ∈ frames s ps) :
    f.1 ∈ ps := by
  induction ps generalizing s with
  | nil => cases h
  | cons p ps ih =>
    rcases List.mem_cons.mp h with rfl | hrest
    · exact List.mem_cons_self
    · exact List.mem_cons_of_mem _ (ih hrest)

theorem exists_mem_frames {s : ℤ} {ps : List Sample} {p : Sample} (h : p ∈ ps) :
    ∃ f ∈ frames s ps, f.1 = p := by
  induction ps generalizing s with
  | nil => cases h
  | cons q ps ih =>
    rcases List.mem_cons.mp h with rfl | hrest
    · exact ⟨_, List.mem_cons_self, rfl⟩
    · obtain ⟨f, hf, hp⟩ := ih hrest
      exact ⟨f, List.mem_cons_of_mem _ hf, hp⟩

theorem mem_cons_iff_framed {p q : Sample} {ps : List Sample} :
    q ∈ p :: ps ↔ ∃ f ∈ (p, 0) :: frames 0 ps, f.1 = q := by
  rw [List.exists_mem_cons_iff, List.mem_cons, eq_comm]
  refine or_congr_right ⟨exists_mem_frames, ?_⟩
  rintro ⟨f, hf, rfl⟩
  exact mem_of_mem_frames hf

theorem abs_reading_sub_lt (f : Sample × ℤ) : |(reading f : ℚ) - f.1.unwrapped| < 1 := by
  have h := abs_truncate_sub_lt (f.1.unwrapped + f.2)
  rwa [reading, Int.cast_sub, sub_sub, add_comm (f.2 : ℚ)]

theorem reading_of_nonneg {f : Sample × ℤ} (h : 0 ≤ f.1.unwrapped + f.2) :
    reading f = ⌊f.1.unwrapped⌋ := by
  rw [reading, truncate_of_nonneg h, Int.floor_add_intCast, add_sub_cancel_right]

theorem reading_of_nonpos {f : Sample × ℤ} (h : f.1.unwrapped + f.2 ≤ 0) :
    reading f = ⌈f.1.unwrapped⌉ := by
  rw [reading, truncate_of_nonpos h, Int.ceil_add_intCast, add_sub_cancel_right]

theorem readings_append_singleton (fs : List (Sample × ℤ)) (g : Sample × ℤ) (s : ℤ) :
    {x | ∃ f ∈ fs ++ [g], x = reading f + s} =
      insert (reading g + s) {x | ∃ f ∈ fs, x = reading f + s} := by
  ext x
  simp only [Set.mem_insert_iff, Set.mem_ofPred_eq, List.mem_append, List.mem_singleton]
  constructor
  · rintro ⟨f, hf | rfl, rfl⟩
    · exact .inr ⟨f, hf, rfl⟩
    · exact .inl rfl
  · rintro (rfl | ⟨f, hf, rfl⟩)
    · exact ⟨_, .inr rfl, rfl⟩
    · exact ⟨f, .inl hf, rfl⟩

theorem truncate_mem_byte {v : ℚ} (h : |v| ≤ 96) : -128 ≤ truncate v ∧ truncate v ≤ 127 := by
  obtain ⟨hl, hu⟩ := abs_le.mp h
  apply truncate_mem_Icc
  · push_cast
    linarith
  · push_cast
    linarith

/-- The recorder `r` has read the samples `fs`, all from the path `all` and the last of
them `p`, and now stands in frame `s`. -/
structure OnSweep (all : List Sample) (fs : List (Sample × ℤ)) (p : Sample) (s : ℤ)
    (r : Recorder) : Prop where
  mem : ∀ f ∈ fs, f.1 ∈ all
  offset : (r.offset.toInt : ℚ) ≡ s [PMOD 256]
  clear : |p.unwrapped + s| ≤ 96
  readings : r.readings = {x | ∃ f ∈ fs, x = reading f + s}
  bytes : ∀ x ∈ r.readings, -128 ≤ x ∧ x ≤ 127

namespace OnSweep
variable {all : List Sample} {fs : List (Sample × ℤ)} {p q : Sample} {s : ℤ} {r : Recorder}

theorem normalise_eq (h : OnSweep all fs p s r) (hnear : Near p q) :
    normalise q.heading r.offset.toInt = q.unwrapped + s := by
  rw [normalise_eq_recentre]
  apply recentre_eq_of_modEq
  · linarith [abs_add_le (q.heading : ℚ) r.offset.toInt, heading_abs_le q.heading,
      abs_toInt_le r.offset]
  · obtain ⟨hl, hu⟩ := abs_le.mp h.clear
    obtain ⟨hnl, hnu⟩ := abs_lt.mp hnear
    exact abs_lt.mpr ⟨by linarith, by linarith⟩
  · exact q.modEq.add h.offset

theorem turn_eq (h : OnSweep all fs p s r) (hnear : Near p q) :
    r.turn q.heading = seamShift (q.unwrapped + s) := by
  rw [Recorder.turn, h.normalise_eq hnear]

theorem value_eq (h : OnSweep all fs p s r) (hnear : Near p q) :
    r.value q.heading = q.unwrapped + seamStep s q.unwrapped := by
  rw [Recorder.value, adjusted, h.normalise_eq hnear, seamStep]
  push_cast
  ring

theorem turned_modEq (h : OnSweep all fs p s r) (hnear : Near p q) :
    ((r.turned q.heading).toInt : ℚ) ≡ seamStep s q.unwrapped [PMOD 256] := by
  have ho := toInt_add_modEq r.offset (Int8.ofInt (r.turn q.heading))
  rw [Recorder.turn, toInt_ofInt_seamShift] at ho
  rw [seamStep, Int.cast_add, ← h.turn_eq hnear]
  exact ho.trans (h.offset.add_right _)

theorem carried_eq (h : OnSweep all fs p s r) (hnear : Near p q) :
    r.carried q.heading = {x | ∃ f ∈ fs, x = reading f + seamStep s q.unwrapped} := by
  rw [Recorder.carried, h.turn_eq hnear, h.readings]
  ext x
  constructor
  · rintro ⟨_, ⟨f, hf, rfl⟩, rfl⟩
    exact ⟨f, hf, add_assoc _ _ _⟩
  · rintro ⟨f, hf, rfl⟩
    exact ⟨_, ⟨f, hf, rfl⟩, add_assoc _ _ _⟩

theorem fits (h : OnSweep all fs p s r) (hnear : Near p q) (hspan : Spans all) (hq : q ∈ all)
    (sw : Bool) : r.Fits ⟨q.heading, sw⟩ := by
  rintro x ⟨y, hy, rfl⟩
  obtain ⟨hyl, hyu⟩ := h.bytes y hy
  rw [h.readings] at hy
  obtain ⟨f, hf, rfl⟩ := hy
  obtain ⟨hrl, hru⟩ := abs_lt.mp (abs_reading_sub_lt f)
  obtain ⟨hsl, hsu⟩ := abs_le.mp (hspan f.1 (h.mem f hf) q hq)
  simp only [h.turn_eq hnear]
  -- a shift starts beyond `96` on one side, and the span keeps every reading off the other
  rcases seamShift_cases (q.unwrapped + s) with ⟨hv, ht⟩ | ⟨hv, ht⟩ | ⟨_, ht⟩
  · have hlt : ((reading f + s : ℤ) : ℚ) < 64 := by
      push_cast
      linarith
    have hlt' : reading f + s < 64 := by exact_mod_cast hlt
    omega
  · have hgt : (-65 : ℚ) < ((reading f + s : ℤ) : ℚ) := by
      push_cast
      linarith
    have hgt' : -65 < reading f + s := by exact_mod_cast hgt
    omega
  · omega

theorem seamStep_clear (h : OnSweep all fs p s r) (hnear : Near p q) :
    |q.unwrapped + seamStep s q.unwrapped| ≤ 96 := by
  rw [← h.value_eq hnear]
  exact Tracks.value_abs_le r q.heading

theorem step (h : OnSweep all fs p s r) (hr : r.state = .on) (hnear : Near p q)
    (hspan : Spans all) (hq : q ∈ all) (sw : Bool) :
    OnSweep all (fs ++ [(q, seamStep s q.unwrapped)]) q (seamStep s q.unwrapped)
      (r.step ⟨q.heading, sw⟩) := by
  have hclear := h.seamStep_clear hnear
  have hvalue : truncate (q.unwrapped + seamStep s q.unwrapped) =
      reading (q, seamStep s q.unwrapped) + seamStep s q.unwrapped :=
    (sub_add_cancel _ _).symm
  rw [Recorder.step, hr]
  refine ⟨?_, h.turned_modEq hnear, hclear, ?_, ?_⟩
  · intro f hf
    rcases List.mem_append.mp hf with hold | hnew
    · exact h.mem f hold
    · rw [List.mem_singleton.mp hnew]
      exact hq
  · simp only [h.carried_eq hnear, h.value_eq hnear, hvalue]
    exact (readings_append_singleton _ _ _).symm
  · rintro x (rfl | hx)
    · exact truncate_mem_byte (Tracks.value_abs_le r q.heading)
    · exact h.fits hnear hspan hq sw x hx

theorem opening {p : Sample} {r : Recorder} (hr : r.state = .off) (ho : r.offset = 0)
    (hp : p ∈ all) (heq : p.unwrapped = p.heading) (hclear : |p.unwrapped| ≤ 96) :
    OnSweep all [(p, 0)] p 0 (r.step ⟨p.heading, true⟩) := by
  have hvalue : r.value p.heading = p.unwrapped := by
    rw [Recorder.value, ho, ← heq, adjusted_zero hclear]
  have hread : truncate p.unwrapped = reading (p, 0) + 0 := by simp [reading]
  rw [Recorder.step, hr]
  refine ⟨fun f hf => List.mem_singleton.mp hf ▸ hp, by simp, by simpa using hclear, ?_, ?_⟩
  · ext x
    simp [hvalue, hread]
  · rintro x rfl
    rw [hvalue]
    exact truncate_mem_byte hclear

theorem run {recorded tail : List Sample} {m : Calibrator} (h : OnSweep all fs p s r)
    (htrack : Tracks r m) (hr : r.state = .on) (hspan : Spans all)
    (hmem : ∀ q ∈ recorded, q ∈ all) (hchain : List.IsChain Near (p :: (recorded ++ tail))) :
    ∃ q r' m', calibrateRun (recorded.map fun q => ⟨q.heading, true⟩) m = some m' ∧
      OnSweep all (fs ++ frames s recorded) q (lastFrame s recorded) r' ∧ Tracks r' m' ∧
      r'.state = .on ∧ List.IsChain Near (q :: tail) := by
  induction recorded generalizing fs p s r m with
  | nil => exact ⟨p, r, m, rfl, by simpa [frames, lastFrame] using h, htrack, hr, hchain⟩
  | cons q qs ih =>
    obtain ⟨hnear, hrest⟩ := List.isChain_cons_cons.mp hchain
    have hq := hmem q List.mem_cons_self
    have hcall : calibrateCall ⟨q.heading, true⟩ m = some _ :=
      calibrate_on (htrack.state.trans hr) true
    have hstep := h.step hr hnear hspan hq true
    have hstate : (r.step ⟨q.heading, true⟩).state = .on := by
      rw [Recorder.step, hr]
      rfl
    obtain ⟨q', r', m', hrun, hs', htrack', hr', hchain'⟩ := ih hstep
      (htrack.step (fun _ => h.fits hnear hspan hq true) hcall) hstate
      (fun x hx => hmem x (List.mem_cons_of_mem _ hx)) hrest
    refine ⟨q', r', m', ?_, ?_, htrack', hr', hchain'⟩
    · rw [List.map_cons, calibrateRun, run_cons, hcall, Option.bind_some]
      exact hrun
    · simpa [frames, lastFrame] using hs'

end OnSweep

theorem run_recorded {opening : Sample} {recorded tail : List Sample} {m : Calibrator}
    (hm : m.state = .off) (ho : m.cs.offset = 0) (heq : opening.unwrapped = opening.heading)
    (hclear : |opening.unwrapped| ≤ 96)
    (hslow : List.IsChain Near (opening :: (recorded ++ tail)))
    (hspan : Spans (opening :: (recorded ++ tail))) :
    ∃ p r before, calibrateRun (⟨opening.heading, true⟩ ::
        recorded.map fun q => ⟨q.heading, true⟩) m = some before ∧
      Tracks r before ∧ r.state = .on ∧
      OnSweep (opening :: (recorded ++ tail)) ((opening, 0) :: frames 0 recorded) p
        (lastFrame 0 recorded) r ∧
      List.IsChain Near (p :: tail) := by
  have hinit : Tracks Recorder.initial m :=
    ⟨hm, ho, fun h => absurd rfl h, fun h => absurd rfl h⟩
  have hopen : calibrateCall ⟨opening.heading, true⟩ m = some _ := calibrate_open hm
  have hstart : OnSweep (opening :: (recorded ++ tail)) [(opening, 0)] opening 0
      (Recorder.initial.step ⟨opening.heading, true⟩) :=
    OnSweep.opening rfl rfl List.mem_cons_self heq hclear
  obtain ⟨p, r, before, hrun, hs, htrack, hr, hchain⟩ := hstart.run
    (hinit.step (fun h => absurd rfl h) hopen) rfl hspan
    (fun q hq => List.mem_cons_of_mem _ (List.mem_append_left _ hq)) hslow
  refine ⟨p, r, before, ?_, htrack, hr, hs, hchain⟩
  rw [calibrateRun, run_cons, hopen, Option.bind_some]
  exact hrun

/-- A session whose unwrapped path starts clear of the seam, moves slowly, spans at most
`159`, stays within half a turn of the final centre, and passes it on both sides. -/
structure Sweep where
  opening : Sample
  recorded : List Sample
  closing : Sample
  centre : Sample
  endSwitch : Bool
  low : Sample
  high : Sample
  opening_eq : opening.unwrapped = opening.heading
  opening_clear : |opening.unwrapped| ≤ 96
  slow : List.IsChain Near (opening :: (recorded ++ [closing, centre]))
  spans : Spans (opening :: (recorded ++ [closing, centre]))
  near_centre : ∀ p ∈ opening :: (recorded ++ [closing]),
    |p.unwrapped - centre.unwrapped| < 128
  low_mem : low ∈ opening :: (recorded ++ [closing])
  low_le : ∀ p ∈ opening :: (recorded ++ [closing]), low.unwrapped ≤ p.unwrapped
  low_below : low.unwrapped ≤ centre.unwrapped - 1
  high_mem : high ∈ opening :: (recorded ++ [closing])
  le_high : ∀ p ∈ opening :: (recorded ++ [closing]), p.unwrapped ≤ high.unwrapped
  high_above : centre.unwrapped + 1 ≤ high.unwrapped

namespace Sweep

def session (w : Sweep) : Session where
  opening := w.opening.heading
  recorded := w.recorded.map Sample.heading
  closing := w.closing.heading
  centre := w.centre.heading
  endSwitch := w.endSwitch

def framed (w : Sweep) : List (Sample × ℤ) :=
  (w.opening, 0) :: frames 0 (w.recorded ++ [w.closing])

theorem calls_eq (w : Sweep) : w.session.calls =
    ⟨w.opening.heading, true⟩ :: (w.recorded.map (fun q => ⟨q.heading, true⟩) ++
      [⟨w.closing.heading, false⟩, ⟨w.centre.heading, w.endSwitch⟩]) := by
  simp only [Session.calls, session, List.map_map]
  rfl

theorem run_to_end (w : Sweep) {m : Calibrator} (hm : m.state = .off)
    (hcs : m.cs = ⟨0, 0, 0⟩) :
    ∃ s r m', calibrateRun w.session.calls m =
        calibrateCall ⟨w.centre.heading, w.endSwitch⟩ m' ∧
      OnSweep (w.opening :: (w.recorded ++ [w.closing, w.centre])) w.framed w.closing s r ∧
      Tracks r m' ∧ r.state = .ending ∧ Near w.closing w.centre := by
  have ho : m.cs.offset = 0 := by rw [hcs]
  obtain ⟨p, r, m₁, hrun, htrack, hr, hs, hchain⟩ :=
    run_recorded hm ho w.opening_eq w.opening_clear w.slow w.spans
  obtain ⟨hnear, hend⟩ := List.isChain_cons_cons.mp hchain
  have hmem : w.closing ∈ w.opening :: (w.recorded ++ [w.closing, w.centre]) := by simp
  have hclose : calibrateCall ⟨w.closing.heading, false⟩ m₁ = some _ :=
    calibrate_on (htrack.state.trans hr) false
  refine ⟨seamStep (lastFrame 0 w.recorded) w.closing.unwrapped, _, _, ?_, ?_,
    htrack.step (fun _ => hs.fits hnear w.spans hmem false) hclose, ?_,
    (List.isChain_cons_cons.mp hend).1⟩
  · unfold calibrateRun at hrun ⊢
    rw [calls_eq, ← List.cons_append, run_append, hrun, Option.bind_some, run_cons, hclose,
      Option.bind_some, run_singleton]
  · have hstep := hs.step hr hnear w.spans hmem false
    rw [framed, frames_append]
    simpa [frames] using hstep
  · rw [Recorder.step, hr]
    rfl

end Sweep

end BluePill.Calibration
