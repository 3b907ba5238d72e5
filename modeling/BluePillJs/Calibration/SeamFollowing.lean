import BluePillJs.Calibration.Sweep
import Mathlib.Data.Set.Finite.Lemmas

/-! The recorded range while a calibration is on: read in one frame, the two extremes are
those of the unwrapped path so far, and no shift or store leaves a byte. -/

namespace BluePill.Calibration
open CircleArc PartialRuns TruncatedByte

def InByte (z : ℤ) : Prop := -128 ≤ z ∧ z ≤ 127

def ShiftFits (cs : CalState) (val : ℚ) : Prop :=
  InByte (cs.min.toInt + seamShift (normalise val cs.offset.toInt)) ∧
    InByte (cs.max.toInt + seamShift (normalise val cs.offset.toInt))

def StoreFits (cs : CalState) (val : ℚ) : Prop := InByte (truncate (adjusted cs.offset val))

def Encloses (cs : CalState) (ps : List Sample) (s : ℤ) : Prop :=
  ∃ low ∈ ps, ∃ high ∈ ps,
    (∀ p ∈ ps, low.unwrapped ≤ p.unwrapped ∧ p.unwrapped ≤ high.unwrapped) ∧
      |(cs.min.toInt : ℚ) - (low.unwrapped + s)| < 1 ∧
      |(cs.max.toInt : ℚ) - (high.unwrapped + s)| < 1

theorem storeFits (cs : CalState) (h : Heading) : StoreFits cs h :=
  truncate_mem_byte (adjusted_abs_le (heading_abs_le h) cs.offset)

theorem shiftFits_of_clear {cs : CalState} {val : ℚ} (ho : cs.offset = 0) (h : |val| ≤ 96) :
    ShiftFits cs val := by
  have hzero : seamShift (normalise val cs.offset.toInt) = 0 := by
    rw [ho, normalise_byte_zero (by linarith)]
    exact seamShift_of_abs_le h
  rw [ShiftFits, hzero, add_zero, add_zero]
  exact ⟨toInt_mem cs.min, toInt_mem cs.max⟩

theorem exists_lowest_highest {ps : List Sample} (hne : ps ≠ []) :
    ∃ low ∈ ps, ∃ high ∈ ps,
      ∀ p ∈ ps, low.unwrapped ≤ p.unwrapped ∧ p.unwrapped ≤ high.unwrapped := by
  obtain ⟨p, hp⟩ := List.exists_mem_of_ne_nil ps hne
  obtain ⟨low, hlow, hle⟩ :=
    Set.exists_min_image {p | p ∈ ps} Sample.unwrapped ps.finite_toSet ⟨p, hp⟩
  obtain ⟨high, hhigh, hge⟩ :=
    Set.exists_max_image {p | p ∈ ps} Sample.unwrapped ps.finite_toSet ⟨p, hp⟩
  exact ⟨low, hlow, high, hhigh, fun q hq => ⟨hle q hq, hge q hq⟩⟩

namespace OnSweep
variable {all : List Sample} {fs : List (Sample × ℤ)} {p : Sample} {s : ℤ} {r : Recorder}

theorem least_sub_lt (h : OnSweep all fs p s r) {a : ℤ} (ha : IsLeast r.readings a)
    {low : Sample × ℤ} (hmem : low ∈ fs) (hle : ∀ f ∈ fs, low.1.unwrapped ≤ f.1.unwrapped) :
    |(a : ℚ) - (low.1.unwrapped + s)| < 1 := by
  rw [h.readings] at ha
  obtain ⟨⟨f, hf, rfl⟩, hleast⟩ := ha
  have hbound : ((reading f + s : ℤ) : ℚ) ≤ ((reading low + s : ℤ) : ℚ) := by
    exact_mod_cast hleast ⟨low, hmem, rfl⟩
  push_cast at hbound ⊢
  have hf' := abs_lt.mp (abs_reading_sub_lt f)
  have hl' := abs_lt.mp (abs_reading_sub_lt low)
  have hlow := hle f hf
  exact abs_lt.mpr ⟨by linarith, by linarith⟩

theorem greatest_sub_lt (h : OnSweep all fs p s r) {a : ℤ} (ha : IsGreatest r.readings a)
    {high : Sample × ℤ} (hmem : high ∈ fs) (hge : ∀ f ∈ fs, f.1.unwrapped ≤ high.1.unwrapped) :
    |(a : ℚ) - (high.1.unwrapped + s)| < 1 := by
  rw [h.readings] at ha
  obtain ⟨⟨f, hf, rfl⟩, hgreatest⟩ := ha
  have hbound : ((reading high + s : ℤ) : ℚ) ≤ ((reading f + s : ℤ) : ℚ) := by
    exact_mod_cast hgreatest ⟨high, hmem, rfl⟩
  push_cast at hbound ⊢
  have hf' := abs_lt.mp (abs_reading_sub_lt f)
  have hh' := abs_lt.mp (abs_reading_sub_lt high)
  have hhigh := hge f hf
  exact abs_lt.mpr ⟨by linarith, by linarith⟩

theorem encloses (h : OnSweep all fs p s r) {m : Calibrator} (htrack : Tracks r m)
    (hr : r.state ≠ .off) {ps : List Sample} (hps : ∀ q, q ∈ ps ↔ ∃ f ∈ fs, f.1 = q)
    (hne : ps ≠ []) : Encloses m.cs ps s := by
  obtain ⟨low, hlow, high, hhigh, hrange⟩ := exists_lowest_highest hne
  have hframed : ∀ f ∈ fs, low.unwrapped ≤ f.1.unwrapped ∧ f.1.unwrapped ≤ high.unwrapped := by
    intro f hf
    have hread : f.1 ∈ ps := (hps f.1).mpr ⟨f, hf, rfl⟩
    exact hrange f.1 hread
  refine ⟨low, hlow, high, hhigh, hrange, ?_, ?_⟩
  · obtain ⟨f, hf, rfl⟩ := (hps low).mp hlow
    have hle : ∀ g ∈ fs, f.1.unwrapped ≤ g.1.unwrapped := fun g hg => (hframed g hg).1
    exact h.least_sub_lt (htrack.least hr) hf hle
  · obtain ⟨f, hf, rfl⟩ := (hps high).mp hhigh
    have hge : ∀ g ∈ fs, g.1.unwrapped ≤ f.1.unwrapped := fun g hg => (hframed g hg).2
    exact h.greatest_sub_lt (htrack.greatest hr) hf hge

theorem mono (h : OnSweep all fs p s r) {all' : List Sample} (hsub : ∀ q ∈ all, q ∈ all') :
    OnSweep all' fs p s r :=
  ⟨fun f hf => hsub f.1 (h.mem f hf), h.offset, h.clear, h.readings, h.bytes⟩

theorem shiftFits (h : OnSweep all fs p s r) {m : Calibrator} (htrack : Tracks r m)
    (hr : r.state ≠ .off) {q : Sample} (hnear : Near p q) (hspan : Spans all) (hq : q ∈ all) :
    ShiftFits m.cs q.heading := by
  have hfits := h.fits hnear hspan hq true
  rw [ShiftFits, htrack.turn_eq]
  constructor
  · exact hfits _ (Set.mem_image_of_mem _ (htrack.least hr).1)
  · exact hfits _ (Set.mem_image_of_mem _ (htrack.greatest hr).1)

end OnSweep

theorem JsState.on_next_ne_off (sw : Bool) : JsState.on.next sw ≠ .off := by
  cases sw <;> decide

/-- The calls of a calibration up to one that finds it on. Headings move slowly and span at
most `159`; only the last call may find the switch off. -/
structure Stroke where
  opening : Sample
  recorded : List Sample
  last : Sample
  lastSwitch : Bool
  opening_eq : opening.unwrapped = opening.heading
  opening_clear : |opening.unwrapped| ≤ 96
  slow : List.IsChain Near (opening :: (recorded ++ [last]))
  spans : Spans (opening :: (recorded ++ [last]))

namespace Stroke

def samples (w : Stroke) : List Sample := w.opening :: (w.recorded ++ [w.last])

def earlier (w : Stroke) : List Call :=
  ⟨w.opening.heading, true⟩ :: w.recorded.map fun q => ⟨q.heading, true⟩

def framed (w : Stroke) : List (Sample × ℤ) :=
  (w.opening, 0) :: frames 0 (w.recorded ++ [w.last])

/-- The frame in which the last call is read. -/
def frame (w : Stroke) : ℤ := seamStep (lastFrame 0 w.recorded) w.last.unwrapped

theorem last_mem (w : Stroke) : w.last ∈ w.samples := by simp [samples]

/-- What the last call finds and leaves, read in frame `s`; `nextFits` is about the shift of
the call after it, which may already end the calibration. -/
structure Followed (w : Stroke) (before after : Calibrator) (s : ℤ) : Prop where
  offset : (after.cs.offset.toInt : ℚ) ≡ s [PMOD 256]
  encloses : Encloses after.cs w.samples s
  adjusted : adjusted before.cs.offset w.last.heading = w.last.unwrapped + s
  clear : |w.last.unwrapped + s| ≤ 96
  shiftFits : ShiftFits before.cs w.last.heading
  storeFits : StoreFits before.cs w.last.heading
  nextFits : ∀ next, Near w.last next → Spans (w.opening :: (w.recorded ++ [w.last, next])) →
    ShiftFits after.cs next.heading

theorem range_follows_stick (w : Stroke) {m : Calibrator} (hm : m.state = .off)
    (ho : m.cs.offset = 0) :
    ShiftFits m.cs w.opening.heading ∧ StoreFits m.cs w.opening.heading ∧
      ∃ before after s, calibrateRun w.earlier m = some before ∧ before.state = .on ∧
        calibrateCall ⟨w.last.heading, w.lastSwitch⟩ before = some after ∧
        w.Followed before after s := by
  obtain ⟨p, r, before, hrun, htrack, hr, hs, hchain⟩ :=
    run_recorded hm ho w.opening_eq w.opening_clear w.slow w.spans
  have hnear := (List.isChain_cons_cons.mp hchain).1
  have hon : before.state = .on := htrack.state.trans hr
  have hactive : r.state ≠ .off := by
    rw [hr]
    decide
  have hcall : calibrateCall ⟨w.last.heading, w.lastSwitch⟩ before = some _ :=
    calibrate_on hon w.lastSwitch
  have hstep := hs.step hr hnear w.spans w.last_mem w.lastSwitch
  have htrack' := htrack.step (fun _ => hs.fits hnear w.spans w.last_mem w.lastSwitch) hcall
  have hactive' : (r.step ⟨w.last.heading, w.lastSwitch⟩).state ≠ .off := by
    rw [Recorder.step, hr]
    exact JsState.on_next_ne_off w.lastSwitch
  have hframed : ((w.opening, 0) :: frames 0 w.recorded) ++ [(w.last, w.frame)] = w.framed := by
    rw [framed, frames_append]
    rfl
  rw [← frame, hframed] at hstep
  refine ⟨shiftFits_of_clear ho (w.opening_eq ▸ w.opening_clear), storeFits _ _, before, _,
    w.frame, hrun, hon, hcall, ?_⟩
  constructor
  · rw [htrack'.offset]
    exact hstep.offset
  · exact hstep.encloses htrack' hactive' (fun _ => mem_cons_iff_framed) (List.cons_ne_nil _ _)
  · rw [htrack.value_eq]
    exact hs.value_eq hnear
  · exact hs.seamStep_clear hnear
  · exact hs.shiftFits htrack hactive hnear w.spans w.last_mem
  · exact storeFits _ _
  · intro next hnext hspan
    have hall : w.samples ++ [next] = w.opening :: (w.recorded ++ [w.last, next]) := by
      rw [samples, List.cons_append, List.append_assoc]
      rfl
    have hmono := hstep.mono fun q hq => hall ▸ List.mem_append_left [next] hq
    exact hmono.shiftFits htrack' hactive' hnext hspan (by simp)

def onTurn (h : Heading) (z : ℤ) : Sample :=
  ⟨h, h + z * 256, AddCommGroup.modEq_iff_zsmul.mpr ⟨z, by simp⟩⟩

theorem toInt_ninetySix : (96 : Int8).toInt = 96 := rfl

theorem toInt_oneTwenty : (120 : Int8).toInt = 120 := rfl

def pastSeam : Int8 := -126

theorem toInt_pastSeam : pastSeam.toInt = -126 := rfl

def crossing : Stroke where
  opening := onTurn (.ofByte 96) 0
  recorded := [onTurn (.ofByte 120) 0]
  last := onTurn (.ofByte pastSeam) 1
  lastSwitch := false
  opening_eq := by simp [onTurn]
  opening_clear := by norm_num [onTurn, toInt_ninetySix]
  slow := by norm_num [onTurn, Near, toInt_ninetySix, toInt_oneTwenty, toInt_pastSeam]
  spans := by
    simp only [Spans, onTurn, List.cons_append, List.nil_append, List.forall_mem_cons,
      List.not_mem_nil, false_imp_iff, implies_true]
    norm_num [toInt_ninetySix, toInt_oneTwenty, toInt_pastSeam]

theorem crossing_followed : ∃ before after s,
    calibrateRun crossing.earlier powerOn = some before ∧
      calibrateCall ⟨crossing.last.heading, false⟩ before = some after ∧
      crossing.Followed before after s := by
  obtain ⟨_, _, before, after, s, hrun, _, hcall, hfollowed⟩ :=
    crossing.range_follows_stick (m := powerOn) rfl rfl
  exact ⟨before, after, s, hrun, hcall, hfollowed⟩

end Stroke

end BluePill.Calibration
