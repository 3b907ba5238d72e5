import BluePillJs.Flash.Storage
import Mathlib.Data.List.Induction

/-! What the sector holds after any run of saves, pattern writes, failures and power
losses, and that `cal_load` accepts nothing but a completely stored frame. -/

namespace BluePill.Flash
open FlashCells

def Writer.payload : Writer → List UInt8
  | .calSave data => data.frame.stream
  | .flashwrite => pattern

def latestWrite (records : List WriteRecord) : Option WriteRecord :=
  records.reverse.find? (·.stage ≠ .untouched)

/-- How many bytes of `n` a write leaves behind the erase, if it gets that far. -/
def DriverAnswers.programmed (n : ℕ) (d : DriverAnswers) : Option ℕ :=
  match d.startErase with
  | .error erased | .powerLost erased => if erased then some 0 else none
  | .noError =>
    match d.waitErase with
    | .error erased | .powerLost erased => if erased then some 0 else none
    | .noError =>
      match d.program with
      | .error k | .powerLost k => some k
      | .noError => some n

def Stage.Began (stage : Stage) : Prop := stage = .programBegan ∨ stage = .reported

structure Left (s : Sector) (r : WriteRecord) (k : ℕ) : Prop where
  programmed : r.driver.programmed r.writer.payload.length = some k
  sector : s = program r.writer.payload k erasedSector
  began : 0 < k → r.stage.Began
  whole : r.answer = some true → k = r.writer.payload.length

def Holds (s : Sector) : Option WriteRecord → Prop
  | none => s = erasedSector
  | some r => ∃ k, Left s r k

structure Stored (records : List WriteRecord) (w : World) : Prop where
  ram : w.calFrame = w.calFrame.data.frame
  flash : Holds w.sector (latestWrite records)
  answers : ∀ r ∈ records, r.answer = some true → r.stage ≠ .untouched

theorem latestWrite_append (records : List WriteRecord) (r : WriteRecord) :
    latestWrite (records ++ [r]) =
      if r.stage = .untouched then latestWrite records else some r := by
  rw [latestWrite, List.reverse_append, List.reverse_singleton, List.singleton_append,
    List.find?_cons]
  by_cases h : r.stage = .untouched
  · simp only [h, ne_eq, not_true_eq_false, decide_false, ↓reduceIte]
    rfl
  · simp only [h, ne_eq, not_false_eq_true, decide_true, ↓reduceIte]

theorem latestWrite_eq_some {records : List WriteRecord} {r : WriteRecord}
    (h : latestWrite records = some r) :
    ∃ before after, records = before ++ r :: after ∧ ∀ r' ∈ after, r'.stage = .untouched := by
  obtain ⟨_, as, bs, hsplit, has⟩ := List.find?_eq_some_iff_append.mp h
  refine ⟨bs.reverse, as.reverse, ?_, ?_⟩
  · rw [← List.reverse_reverse records, hsplit, List.reverse_append, List.reverse_cons,
      List.append_assoc, List.singleton_append]
  · intro r' hr'
    simpa using has r' (List.mem_reverse.mp hr')

theorem latestWrite_split {before after : List WriteRecord} {r : WriteRecord}
    (hr : r.stage ≠ .untouched) (hafter : ∀ r' ∈ after, r'.stage = .untouched) :
    latestWrite (before ++ r :: after) = some r := by
  apply List.find?_eq_some_iff_append.mpr
  refine ⟨decide_eq_true hr, after.reverse, before.reverse, by simp, fun r' hr' => ?_⟩
  rw [hafter r' (List.mem_reverse.mp hr')]
  rfl

theorem program_nothing (buf : List UInt8) : program buf 0 erasedSector = erasedSector :=
  funext fun i => program_of_le erasedSector (Nat.zero_le i)

structure Went (d : DriverAnswers) (buf : List UInt8) (s : Sector) (o : WriteOutcome) : Prop where
  sector : o.sector = (d.programmed buf.length).elim s fun k => program buf k erasedSector
  untouched : o.stage = .untouched ↔ d.programmed buf.length = none
  began : ∀ k, d.programmed buf.length = some k → 0 < k → o.stage.Began
  whole : o.answer = some true → d.programmed buf.length = some buf.length

theorem went_erase {d : DriverAnswers} {buf : List UInt8} {s : Sector} {answer : Option Bool}
    {erased : Bool} (hd : d.programmed buf.length = if erased then some 0 else none)
    (hanswer : answer ≠ some true) : Went d buf s (eraseOutcome answer erased s) := by
  cases erased with
  | false =>
    have hnone : d.programmed buf.length = none := hd
    refine ⟨?_, iff_of_true rfl hnone, fun k hk => ?_, fun h => absurd h hanswer⟩
    · rw [hnone]
      rfl
    · exact nomatch hnone.symm.trans hk
  | true =>
    have hzero : d.programmed buf.length = some 0 := hd
    refine ⟨?_, iff_of_false nofun ?_, fun k hk hpos => ?_, fun h => absurd h hanswer⟩
    · rw [hzero]
      exact (program_nothing buf).symm
    · rw [hzero]
      exact Option.some_ne_none 0
    · exact absurd (Option.some.inj (hzero.symm.trans hk)) hpos.ne

theorem went_program {d : DriverAnswers} {buf : List UInt8} {s : Sector} {o : WriteOutcome} {k : ℕ}
    (hd : d.programmed buf.length = some k) (hsector : o.sector = program buf k erasedSector)
    (hbegan : o.stage.Began) (hwhole : o.answer = some true → k = buf.length) : Went d buf s o where
  sector := by
    rw [hsector, hd]
    rfl
  untouched := by
    rw [hd]
    refine iff_of_false (fun h => ?_) (Option.some_ne_none k)
    rcases hbegan with hstage | hstage <;> exact nomatch h.symm.trans hstage
  began _ _ _ := hbegan
  whole h := by rw [hd, hwhole h]

theorem flashWrite_went (d : DriverAnswers) (buf : List UInt8) (s : Sector) :
    Went d buf s (flashWrite d buf s) := by
  obtain ⟨startErase, waitErase, programEnd⟩ := d
  cases startErase with
  | error erased => exact went_erase rfl (by decide)
  | powerLost erased => exact went_erase rfl (by decide)
  | noError =>
    cases waitErase with
    | error erased => exact went_erase rfl (by decide)
    | powerLost erased => exact went_erase rfl (by decide)
    | noError =>
      cases programEnd with
      | error k => exact went_program rfl rfl (.inl rfl) fun h => nomatch h
      | powerLost k => exact went_program rfl rfl (.inl rfl) fun h => nomatch h
      | noError => exact went_program rfl rfl (.inr rfl) fun _ => rfl

theorem flashWrite_holds {s : Sector} {r : Option WriteRecord} (h : Holds s r)
    (d : DriverAnswers) (writer : Writer) :
    let o := flashWrite d writer.payload s
    Holds o.sector (if o.stage = .untouched then r else some ⟨writer, d, o.answer, o.stage⟩) := by
  intro o
  have hwent : Went d writer.payload s o := flashWrite_went d writer.payload s
  have hsector := hwent.sector
  split_ifs with hstage
  · rw [hwent.untouched.mp hstage] at hsector
    exact hsector.symm ▸ h
  · obtain ⟨k, hk⟩ := Option.ne_none_iff_exists'.mp (mt hwent.untouched.mpr hstage)
    rw [hk] at hsector
    exact ⟨k, hk, hsector, hwent.began k hk, fun h =>
      Option.some.inj (hk.symm.trans (hwent.whole h))⟩

theorem write_stored {records : List WriteRecord} {w : World} (h : Stored records w)
    (d : DriverAnswers) (writer : Writer) :
    Stored (records ++ (write writer d writer.payload w).1)
      (write writer d writer.payload w).2 := by
  have hflash := flashWrite_holds h.flash d writer
  have hwent := flashWrite_went d writer.payload w.sector
  refine ⟨?_, ?_, fun r hr hanswer => ?_⟩
  · unfold write
    dsimp only
    split_ifs
    · rfl
    · exact h.ram
  · have hsector : (write writer d writer.payload w).2.sector =
        (flashWrite d writer.payload w.sector).sector := by
      unfold write
      dsimp only
      split_ifs <;> rfl
    rw [hsector]
    show Holds _ (latestWrite (records ++ [⟨writer, d, _, _⟩]))
    rw [latestWrite_append]
    exact hflash
  · rcases List.mem_append.mp hr with hr | hr
    · exact h.answers r hr hanswer
    · obtain rfl := List.mem_singleton.mp hr
      intro hstage
      exact nomatch (hwent.untouched.mp hstage).symm.trans (hwent.whole hanswer)

theorem calLoad_cases (noError : Bool) (w : World) :
    calLoad noError w = (false, w) ∨ noError = true ∧ Marked w.sector ∧
      calLoad noError w = (true, { w with
        calFrame := { w.calFrame with
          data := (CalFrame.ofStream (readCells w.sector 20)).data } }) := by
  cases noError with
  | false => exact .inl (calLoad_error w)
  | true =>
    by_cases h : Marked w.sector
    · exact .inr ⟨rfl, h, calLoad_marked h⟩
    · exact .inl (calLoad_unmarked h)

theorem frame_with_data {f : CalFrame} (h : f = f.data.frame) (data : CalWords) :
    { f with data := data } = data.frame := by
  rw [h]
  rfl

theorem step_stored {records : List WriteRecord} {w : World} (h : Stored records w) (e : Event) :
    Stored (records ++ (step e w).1) (step e w).2 := by
  have hsame : Stored (records ++ []) w := (List.append_nil records).symm ▸ h
  cases e with
  | calSave argc d =>
    unfold step
    dsimp only
    split_ifs
    · exact hsame
    · have hwrite := write_stored h d (.calSave w.calFrame.data)
      rw [show (Writer.calSave w.calFrame.data).payload = w.calFrame.stream from
        congrArg CalFrame.stream h.ram.symm] at hwrite
      exact hwrite
  | flashwrite argc d =>
    unfold step
    dsimp only
    split_ifs
    · exact hsame
    · exact write_stored h d .flashwrite
  | calLoad argc noError =>
    unfold step
    dsimp only
    split_ifs
    · exact hsame
    · rcases calLoad_cases noError w with hload | ⟨_, _, hload⟩
      · rw [hload]
        exact hsame
      · rw [hload]
        exact ⟨frame_with_data h.ram _, hsame.flash, hsame.answers⟩
  | calibrate data => exact ⟨frame_with_data h.ram data, hsame.flash, hsame.answers⟩
  | powerCycle => exact ⟨rfl, hsame.flash, hsame.answers⟩

theorem history_stored (events : List Event) : Stored (history events).1 (history events).2 := by
  induction events using List.reverseRecOn with
  | nil => exact ⟨rfl, rfl, fun r hr => absurd hr List.not_mem_nil⟩
  | append_singleton events e ih =>
    rw [history, List.foldl_append]
    exact step_stored ih e

/-! ## What an accepted sector holds -/

theorem Marked.first {s : Sector} (h : Marked s) : s 0 = 0x43 := (List.cons.inj h.1).1

theorem Marked.last {s : Sector} (h : Marked s) : s 19 = 0 := by
  have hlast : [s 16, s 17, s 18, s 19] = endMarker := h.2
  simp only [endMarker, List.cons_append, List.nil_append, List.cons.injEq] at hlast
  exact hlast.2.2.2.1

theorem not_marked_erased : ¬Marked erasedSector := fun h => absurd h.first (by decide)

theorem not_marked_pattern (k : ℕ) : ¬Marked (program pattern k erasedSector) := by
  intro h
  rcases program_zero pattern k erasedSector with hzero | hzero
  · rw [h.first] at hzero
    exact absurd hzero (by decide)
  · rw [h.first] at hzero
    exact absurd hzero (by decide)

/-- The end marker is written last, so a torn frame still ends in an erased byte. -/
theorem marked_frame {data : CalWords} {k : ℕ}
    (h : Marked (program data.frame.stream k erasedSector)) : 20 ≤ k := by
  have hlast : program data.frame.stream k erasedSector 19 ≠ erasedSector 19 := by
    rw [h.last]
    decide
  exact complete_of_last_ne (length_frame_stream data) hlast

theorem readCells_frame {data : CalWords} {k : ℕ} (h : 20 ≤ k) :
    readCells (program data.frame.stream k erasedSector) 20 = data.frame.stream :=
  readCells_program erasedSector h

/-- Markers are found only behind a save that programmed its whole frame. -/
theorem holds_marked {s : Sector} {r : Option WriteRecord} (hs : Holds s r) (hm : Marked s) :
    ∃ r' data, r = some r' ∧ r'.writer = .calSave data ∧ r'.stage.Began ∧
      readCells s 20 = data.frame.stream := by
  cases r with
  | none => exact absurd (hs ▸ hm) not_marked_erased
  | some r =>
    obtain ⟨k, hleft⟩ := hs
    have hsector := hleft.sector
    cases hwriter : r.writer with
    | flashwrite =>
      rw [hwriter] at hsector
      exact absurd (hsector ▸ hm) (not_marked_pattern k)
    | calSave data =>
      rw [hwriter] at hsector
      have hk : 20 ≤ k := marked_frame (hsector ▸ hm)
      refine ⟨r, data, rfl, hwriter, hleft.began (by omega), ?_⟩
      rw [hsector]
      exact readCells_frame hk

theorem marked_answered {data : CalWords} {s : Sector} {r : WriteRecord} (h : Holds s (some r))
    (hwriter : r.writer = .calSave data) (hanswer : r.answer = some true) : Marked s := by
  obtain ⟨k, hleft⟩ := h
  have hsector : s = program r.writer.payload k erasedSector := hleft.sector
  have hk : k = r.writer.payload.length := hleft.whole hanswer
  rw [hwriter] at hsector hk
  have hread : readCells s 20 = data.frame.stream := by
    rw [hsector]
    exact readCells_frame hk.ge
  rw [Marked, hread]
  exact ⟨rfl, rfl⟩

theorem calLoad_rejected {noError : Bool} {w : World} (h : (calLoad noError w).1 = false) :
    (calLoad noError w).2 = w := by
  rcases calLoad_cases noError w with hfalse | ⟨_, _, htrue⟩
  · rw [hfalse]
  · rw [htrue] at h
    exact nomatch h

section Loads
variable {records : List WriteRecord} {w : World}

theorem Stored.calLoad_accepted (hw : Stored records w) {noError : Bool}
    (h : (calLoad noError w).1 = true) :
    ∃ r data, latestWrite records = some r ∧ r.writer = .calSave data ∧ r.stage.Began ∧
      readCells w.sector 20 = data.frame.stream ∧
      (calLoad noError w).2.calFrame.data = data := by
  rcases calLoad_cases noError w with hfalse | ⟨_, hmarked, htrue⟩
  · rw [hfalse] at h
    exact nomatch h
  · obtain ⟨r, data, hlatest, hwriter, hbegan, hread⟩ := holds_marked hw.flash hmarked
    refine ⟨r, data, hlatest, hwriter, hbegan, hread, ?_⟩
    rw [htrue, hread, ofStream_frame]
    rfl

theorem Stored.calLoad_succeeds (hw : Stored records w) {data : CalWords} {r : WriteRecord}
    (hlatest : latestWrite records = some r) (hwriter : r.writer = .calSave data)
    (hanswer : r.answer = some true) : (calLoad true w).1 = true := by
  have hflash := hw.flash
  rw [hlatest] at hflash
  rw [calLoad_marked (marked_answered hflash hwriter hanswer)]

end Loads

theorem calLoad_restores_saved (events : List Event) (noError : Bool) :
    let records := (history events).1
    let w := (history events).2
    ((calLoad noError w).1 = true → ∃ before r data after,
      records = before ++ r :: after ∧ r.writer = .calSave data ∧ r.stage.Began ∧
      (∀ r' ∈ after, r'.stage = .untouched) ∧
      readCells w.sector 20 = data.frame.stream ∧
      (calLoad noError w).2.calFrame.data = data) ∧
    ((calLoad noError w).1 = false → (calLoad noError w).2 = w) ∧
    (∀ before r data after, records = before ++ r :: after → r.writer = .calSave data →
      r.answer = some true → (∀ r' ∈ after, r'.stage = .untouched) →
      (calLoad true w).1 = true) := by
  intro records w
  have hstored : Stored records w := history_stored events
  refine ⟨fun hload => ?_, calLoad_rejected, fun before r data after hrecords hwriter hanswer
    hafter => ?_⟩
  · obtain ⟨r, data, hlatest, hwriter, hbegan, hread, hdata⟩ := hstored.calLoad_accepted hload
    obtain ⟨before, after, hsplit, hafter⟩ := latestWrite_eq_some hlatest
    exact ⟨before, r, data, after, hsplit, hwriter, hbegan, hafter, hread, hdata⟩
  · have hr : r ∈ records := hrecords ▸ List.mem_append_right before List.mem_cons_self
    have hlatest : latestWrite records = some r := by
      rw [hrecords]
      exact latestWrite_split (hstored.answers r hr hanswer) hafter
    exact hstored.calLoad_succeeds hlatest hwriter hanswer

end BluePill.Flash
