import BluePillJs.Library.TruncatedMean

/-! The filter of the two magnetometer threads, one axis of it: `b = (b * 7 + d) / 8` on
`int16_t` values, computed in `int`. -/

namespace BluePill.Sensor
open TruncatedMean

def filterSum (b d : Int16) : ℤ := b.toInt * 7 + d.toInt

def filterStep (b d : Int16) : Int16 := Int16.ofInt ((filterSum b d).tdiv 8)

def filtered (ds : List Int16) : Int16 := ds.foldl filterStep 0

def FitsInt16 (z : ℤ) : Prop := -2 ^ 15 ≤ z ∧ z < 2 ^ 15

def FitsInt32 (z : ℤ) : Prop := -2 ^ 31 ≤ z ∧ z < 2 ^ 31

theorem fitsInt16_toInt (a : Int16) : FitsInt16 a.toInt := ⟨a.le_toInt, a.toInt_lt⟩

theorem fitsInt32_mul_seven (b : Int16) : FitsInt32 (b.toInt * 7) := by
  have hb := fitsInt16_toInt b
  unfold FitsInt16 FitsInt32 at *
  omega

theorem fitsInt32_filterSum (b d : Int16) : FitsInt32 (filterSum b d) := by
  have hb := fitsInt16_toInt b
  have hd := fitsInt16_toInt d
  unfold FitsInt16 FitsInt32 filterSum at *
  omega

theorem filterSum_tdiv (b d : Int16) : (filterSum b d).tdiv 8 = mean 7 b.toInt d.toInt := rfl

theorem fitsInt16_mean (b d : Int16) : FitsInt16 (mean 7 b.toInt d.toInt) := by
  obtain ⟨hl, hu⟩ := mean_mem (k := 7) (by decide) b.toInt d.toInt
  have hb := fitsInt16_toInt b
  have hd := fitsInt16_toInt d
  exact ⟨(le_min hb.1 hd.1).trans hl, hu.trans_lt (max_lt hb.2 hd.2)⟩

theorem toInt_filterStep (b d : Int16) : (filterStep b d).toInt = mean 7 b.toInt d.toInt :=
  Int16.toInt_ofInt_of_le (fitsInt16_mean b d).1 (fitsInt16_mean b d).2

theorem toInt_foldl_filterStep (b : Int16) (ds : List Int16) :
    (ds.foldl filterStep b).toInt = (ds.map Int16.toInt).foldl (mean 7) b.toInt := by
  induction ds generalizing b with
  | nil => rfl
  | cons d ds ih => rw [List.foldl_cons, ih, toInt_filterStep, List.map_cons, List.foldl_cons]

theorem toInt_iterate_filterStep (d b : Int16) (n : ℕ) :
    ((fun b => filterStep b d)^[n] b).toInt = (fun b => mean 7 b d.toInt)^[n] b.toInt := by
  have hsemi : Function.Semiconj Int16.toInt (fun b => filterStep b d)
      (fun b => mean 7 b d.toInt) := fun b => toInt_filterStep b d
  exact hsemi.iterate_right n b

theorem distance_succ_le (d b : Int16) (n : ℕ) :
    |((fun b => filterStep b d)^[n + 1] b).toInt - d.toInt| ≤
      |((fun b => filterStep b d)^[n] b).toInt - d.toInt| := by
  rw [Function.iterate_succ_apply', toInt_filterStep]
  exact abs_mean_sub_le (by decide) _ _

theorem exists_rest (d b : Int16) :
    ∃ steps, ∀ n, steps ≤ n → ((fun b => filterStep b d)^[n] b).toInt = rest 7 d.toInt b.toInt := by
  refine ⟨(b.toInt - rest 7 d.toInt b.toInt).natAbs, fun n hn => ?_⟩
  rw [toInt_iterate_filterStep]
  exact iterate_mean (by decide) hn

/-- The filter neither overflows nor overshoots, and a constant reading draws it into the
dead band. -/
theorem filter_sound (ds : List Int16) (d b : Int16) :
    FitsInt32 ((filtered ds).toInt * 7) ∧ FitsInt32 (filterSum (filtered ds) d) ∧
      FitsInt16 ((filterSum (filtered ds) d).tdiv 8) ∧
      (filtered (ds ++ [d])).toInt = (filterSum (filtered ds) d).tdiv 8 ∧
      (ds.map Int16.toInt).foldr min 0 ≤ (filtered ds).toInt ∧
      (filtered ds).toInt ≤ (ds.map Int16.toInt).foldr max 0 ∧
      (∀ n, |((fun b => filterStep b d)^[n + 1] b).toInt - d.toInt| ≤
        |((fun b => filterStep b d)^[n] b).toInt - d.toInt|) ∧
      ∃ steps, ∀ n, steps ≤ n → |((fun b => filterStep b d)^[n] b).toInt - d.toInt| ≤ 7 := by
  have hrange : (ds.map Int16.toInt).foldr min 0 ≤ (filtered ds).toInt ∧
      (filtered ds).toInt ≤ (ds.map Int16.toInt).foldr max 0 := by
    rw [filtered, toInt_foldl_filterStep]
    exact foldl_mean_mem_extremes (by decide) 0 _
  have hstep : filtered (ds ++ [d]) = filterStep (filtered ds) d := by
    rw [filtered, List.foldl_append]
    rfl
  refine ⟨fitsInt32_mul_seven _, fitsInt32_filterSum _ _, fitsInt16_mean _ _, ?_, hrange.1,
    hrange.2, distance_succ_le d b, ?_⟩
  · rw [hstep, filterSum_tdiv]
    exact toInt_filterStep _ _
  · obtain ⟨steps, hrest⟩ := exists_rest d b
    refine ⟨steps, fun n hn => ?_⟩
    rw [hrest n hn]
    exact abs_rest_sub_le (by decide) _ _

/-- Each run settles at the point of the dead band nearest to its start, so two runs settle
together exactly when these points agree, and never more than `7` apart. -/
theorem settles_in_band (d b b' : Int16) :
    ∃ v v' : Int16, v.toInt = rest 7 d.toInt b.toInt ∧ v'.toInt = rest 7 d.toInt b'.toInt ∧
      |v.toInt - v'.toInt| ≤ 7 ∧ ∃ steps, ∀ n, steps ≤ n →
        (fun b => filterStep b d)^[n] b = v ∧ (fun b => filterStep b d)^[n] b' = v' := by
  obtain ⟨m, hm⟩ := exists_rest d b
  obtain ⟨m', hm'⟩ := exists_rest d b'
  refine ⟨_, _, hm m le_rfl, hm' m' le_rfl, ?_, max m m', fun n hn => ⟨?_, ?_⟩⟩
  · rw [hm m le_rfl, hm' m' le_rfl]
    exact abs_rest_sub_rest_le (by decide) _ _ _
  · exact Int16.toInt_inj.mp ((hm n (le_of_max_le_left hn)).trans (hm m le_rfl).symm)
  · exact Int16.toInt_inj.mp ((hm' n (le_of_max_le_right hn)).trans (hm' m' le_rfl).symm)

/-- Approached from below a reading of `100` leaves the axis at `93`, from above at `100`. -/
theorem settles_apart :
    (∃ steps, ∀ n, steps ≤ n →
      (fun b => filterStep b 100)^[n] 0 = 93 ∧ (fun b => filterStep b 100)^[n] 200 = 100) ∧
      ¬∃ v steps, ∀ n, steps ≤ n →
        (fun b => filterStep b 100)^[n] 0 = v ∧ (fun b => filterStep b 100)^[n] 200 = v := by
  obtain ⟨m, hm⟩ := exists_rest 100 0
  obtain ⟨m', hm'⟩ := exists_rest 100 200
  have hapart : ∀ n, max m m' ≤ n →
      (fun b => filterStep b 100)^[n] 0 = 93 ∧ (fun b => filterStep b 100)^[n] 200 = 100 := by
    intro n hn
    constructor
    · exact Int16.toInt_inj.mp (hm n (le_of_max_le_left hn))
    · exact Int16.toInt_inj.mp (hm' n (le_of_max_le_right hn))
  refine ⟨⟨max m m', hapart⟩, ?_⟩
  rintro ⟨v, steps, hv⟩
  obtain ⟨hlow, hhigh⟩ := hapart (max (max m m') steps) (le_max_left _ _)
  obtain ⟨hv0, hv200⟩ := hv (max (max m m') steps) (le_max_right _ _)
  have heq : (93 : Int16) = 100 := (hlow.symm.trans hv0).trans (hv200.symm.trans hhigh)
  exact absurd heq (by decide)

end BluePill.Sensor
