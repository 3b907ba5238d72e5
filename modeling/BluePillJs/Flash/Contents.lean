import BluePillJs.Flash.Restore

/-! What the two reading commands print, and where a calibration can come from, after any
run of saves, pattern writes, loads, failures and power losses. -/

namespace BluePill.Flash
open FlashCells

inductive Printed where
  | usage (name : String)
  | error
  | bytes (buffer : List UInt8)

def cmdRead (name : String) (argc : ℕ) (noError : Bool) (w : World) : Printed :=
  if argc > 0 then .usage name
  else
    match flashRead noError w.sector 128 with
    | none => .error
    | some buffer => .bytes buffer

def cmdCalread : ℕ → Bool → World → Printed := cmdRead "calread"

def cmdFlashread : ℕ → Bool → World → Printed := cmdRead "flashread"

/-- What a write shows: as many bytes of its payload as the driver has programmed. -/
structure Shown (r : WriteRecord) (shown : List UInt8) : Prop where
  cut : ∃ k, r.driver.programmed r.writer.payload.length = some k ∧ shown = r.writer.payload.take k
  complete : r.answer = some true → shown = r.writer.payload

theorem length_payload_le (writer : Writer) : writer.payload.length ≤ 128 := by
  cases writer with
  | calSave data =>
    rw [Writer.payload, length_frame_stream]
    decide
  | flashwrite => decide

theorem readCells_erased (n : ℕ) : readCells erasedSector n = List.replicate n 0xFF := by
  have hblank := readCells_program_blank ([] : List UInt8) 0 n 0xFF (Nat.zero_le n)
  rw [List.take_nil, List.nil_append, List.length_nil, Nat.sub_zero] at hblank
  exact hblank

theorem Left.shown {s : Sector} {r : WriteRecord} {k : ℕ} (h : Left s r k) :
    Shown r (r.writer.payload.take k) where
  cut := ⟨k, h.programmed, rfl⟩
  complete hanswer := List.take_of_length_le (h.whole hanswer).ge

theorem holds_shown {s : Sector} {r : Option WriteRecord} (h : Holds s r) :
    ∃ shown, readCells s 128 = shown ++ List.replicate (128 - shown.length) 0xFF ∧
      match r with
      | none => shown = []
      | some r => Shown r shown := by
  match r, h with
  | none, hs =>
    refine ⟨[], ?_, rfl⟩
    rw [show s = erasedSector from hs]
    exact readCells_erased 128
  | some r, ⟨k, hleft⟩ =>
    refine ⟨r.writer.payload.take k, ?_, hleft.shown⟩
    rw [hleft.sector]
    exact readCells_program_blank r.writer.payload k 128 0xFF (length_payload_le r.writer)

/-- Whatever happened before, a reading command shows the bytes of the latest payload that the
driver has programmed, all of them after a success, and blank cells behind. -/
theorem readout_shows_latest (events : List Event) (name : String) (argc : ℕ) (noError : Bool)
    {buffer : List UInt8}
    (h : cmdRead name argc noError (history events).2 = .bytes buffer) :
    ∃ shown, buffer = shown ++ List.replicate (128 - shown.length) 0xFF ∧
      match latestWrite (history events).1 with
      | none => shown = []
      | some r => Shown r shown := by
  have hbuffer : buffer = readCells (history events).2.sector 128 := by
    unfold cmdRead at h
    split_ifs at h
    cases noError with
    | false => exact nomatch h
    | true => exact (Printed.bytes.inj h).symm
  rw [hbuffer]
  exact holds_shown (history_stored events).flash

def tornSave : List Event := [.calSave 0 ⟨.noError, .noError, .powerLost 5⟩]

theorem readout_shows_torn : ∃ shown,
    readCells (history tornSave).2.sector 128 =
      shown ++ List.replicate (128 - shown.length) 0xFF ∧
    match latestWrite (history tornSave).1 with
    | none => shown = []
    | some r => Shown r shown :=
  readout_shows_latest tornSave "flashread" 0 true rfl

/-! ## Where a calibration comes from -/

/-- The calibration in use, and every one that was ever saved, satisfies `P`. -/
structure Provenance (P : CalWords → Prop) (records : List WriteRecord) (w : World) : Prop where
  stored : Stored records w
  used : P w.calFrame.data
  saved : ∀ r ∈ records, ∀ data, r.writer = .calSave data → P data

variable {P : CalWords → Prop} {records : List WriteRecord} {w : World}

theorem Provenance.calLoad (h : Provenance P records w) (noError : Bool) :
    P (calLoad noError w).2.calFrame.data := by
  cases hload : (Flash.calLoad noError w).1 with
  | false =>
    rw [calLoad_rejected hload]
    exact h.used
  | true =>
    obtain ⟨r, data, hlatest, hwriter, _, _, hdata⟩ := h.stored.calLoad_accepted hload
    obtain ⟨before, after, rfl, _⟩ := latestWrite_eq_some hlatest
    have hmem : r ∈ before ++ r :: after := List.mem_append_right before List.mem_cons_self
    rw [hdata]
    exact h.saved r hmem data hwriter

theorem write_calFrame (hfactory : P initialFrame.data) (h : P w.calFrame.data) (writer : Writer)
    (d : DriverAnswers) (buf : List UInt8) : P (write writer d buf w).2.calFrame.data := by
  unfold write
  dsimp only
  split_ifs
  · exact hfactory
  · exact h

theorem step_provenance (hfactory : P initialFrame.data) (h : Provenance P records w) (e : Event)
    (he : ∀ data, e = .calibrate data → P data) :
    Provenance P (records ++ (step e w).1) (step e w).2 := by
  have hstored := step_stored h.stored e
  have hsame : ∀ r ∈ records ++ [], ∀ data, r.writer = .calSave data → P data := by
    rw [List.append_nil]
    exact h.saved
  cases e with
  | calSave argc d =>
    unfold step at hstored ⊢
    dsimp only at hstored ⊢
    split_ifs at hstored ⊢
    · exact ⟨hstored, h.used, hsame⟩
    · refine ⟨hstored, write_calFrame hfactory h.used _ _ _, ?_⟩
      intro r hr data hwriter
      rcases List.mem_append.mp hr with hr | hr
      · exact h.saved r hr data hwriter
      · rw [List.mem_singleton.mp hr] at hwriter
        rw [← Writer.calSave.inj hwriter]
        exact h.used
  | flashwrite argc d =>
    unfold step at hstored ⊢
    dsimp only at hstored ⊢
    split_ifs at hstored ⊢
    · exact ⟨hstored, h.used, hsame⟩
    · refine ⟨hstored, write_calFrame hfactory h.used _ _ _, ?_⟩
      intro r hr data hwriter
      rcases List.mem_append.mp hr with hr | hr
      · exact h.saved r hr data hwriter
      · rw [List.mem_singleton.mp hr] at hwriter
        exact nomatch hwriter
  | calLoad argc noError =>
    unfold step at hstored ⊢
    dsimp only at hstored ⊢
    split_ifs at hstored ⊢
    · exact ⟨hstored, h.used, hsame⟩
    · exact ⟨hstored, h.calLoad noError, hsame⟩
  | calibrate data => exact ⟨hstored, he data rfl, hsame⟩
  | powerCycle => exact ⟨hstored, hfactory, hsame⟩

theorem history_provenance (hfactory : P initialFrame.data) (events : List Event)
    (hevents : ∀ data, .calibrate data ∈ events → P data) :
    Provenance P (history events).1 (history events).2 := by
  induction events using List.reverseRecOn with
  | nil => exact ⟨history_stored [], hfactory, fun r hr => absurd hr List.not_mem_nil⟩
  | append_singleton events e ih =>
    have hbefore : ∀ data, .calibrate data ∈ events → P data := fun data hmem =>
      hevents data (List.mem_append_left _ hmem)
    have hlast : ∀ data, e = .calibrate data → P data := fun data he =>
      hevents data (List.mem_append_right _ (he ▸ List.mem_singleton_self e))
    rw [history, List.foldl_append]
    exact step_provenance hfactory (ih hbefore) e hlast

/-- What holds of the factory calibration and of every one that a session computed holds of
the calibration in use at any time, and of what a load would put in its place. -/
theorem calibration_provenance (P : CalWords → Prop) (events : List Event)
    (hfactory : P initialFrame.data) (hevents : ∀ data, .calibrate data ∈ events → P data) :
    P (history events).2.calFrame.data ∧
      ∀ noError, P (calLoad noError (history events).2).2.calFrame.data := by
  have h := history_provenance hfactory events hevents
  exact ⟨h.used, h.calLoad⟩

def Unsigned (data : CalWords) : Prop := data.mNeg < 0x80000000 ∧ data.mPos < 0x80000000

theorem calibration_provenance_torn :
    Unsigned (history (.calibrate ⟨0xC1200000, 0x40000000, 0x40800000⟩ :: tornSave)).2.calFrame.data ∧
      ∀ noError, Unsigned (calLoad noError (history (.calibrate ⟨0xC1200000, 0x40000000, 0x40800000⟩ ::
        tornSave)).2).2.calFrame.data := by
  apply calibration_provenance Unsigned
  · exact ⟨by decide, by decide⟩
  · intro data hmem
    rcases List.mem_cons.mp hmem with heq | hmem
    · rw [Event.calibrate.inj heq]
      exact ⟨by decide, by decide⟩
    · exact nomatch List.mem_singleton.mp hmem

end BluePill.Flash
