import BluePillJs.Flash.Restore
import BluePillJs.Library.Keeper

/-! The calibration sector as what it is for: one place that keeps a calibration over a
restart. Markers, torn writes and failures of the driver are no more than a place that
was left alone, emptied or filled. -/

namespace BluePill.Flash
open FlashCells Keeping

instance (s : Sector) : Decidable (Marked s) := inferInstanceAs (Decidable (_ ∧ _))

/-- The calibration that `cal_load` would find. -/
def kept (s : Sector) : Option CalWords :=
  if Marked s then some (CalFrame.ofStream (readCells s 20)).data else none

def keeper (w : World) : Keeper CalWords := ⟨w.calFrame.data, kept w.sector⟩

def DriverAnswers.powerLost (d : DriverAnswers) : Bool :=
  match d.startErase with
  | .powerLost _ => true
  | .error _ => false
  | .noError =>
    match d.waitErase with
    | .powerLost _ => true
    | .error _ => false
    | .noError =>
      match d.program with
      | .powerLost _ => true
      | _ => false

def saveOps (programmed : Option ℕ) : List (Op CalWords) :=
  match programmed with
  | none => []
  | some k => if 20 ≤ k then [.save] else [.discard]

def discardOps (programmed : Option ℕ) : List (Op CalWords) :=
  match programmed with
  | none => []
  | some _ => [.discard]

def restartOps (restarts : Bool) : List (Op CalWords) := if restarts then [.restart] else []

def Event.ops : Event → List (Op CalWords)
  | .calSave argc d =>
    if argc > 0 then [] else saveOps (d.programmed 20) ++ restartOps d.powerLost
  | .flashwrite argc d =>
    if argc > 0 then [] else discardOps (d.programmed 13) ++ restartOps d.powerLost
  | .calLoad argc noError => if argc > 0 then [] else if noError then [.load] else []
  | .calibrate data => [.replace data]
  | .powerCycle => [.restart]

theorem kept_pattern (k : ℕ) : kept (program pattern k erasedSector) = none :=
  if_neg (not_marked_pattern k)

theorem kept_frame (data : CalWords) (k : ℕ) :
    kept (program data.frame.stream k erasedSector) = if 20 ≤ k then some data else none := by
  split_ifs with hk
  · have hread : readCells (program data.frame.stream k erasedSector) 20 = data.frame.stream :=
      readCells_frame hk
    have hmarked : Marked (program data.frame.stream k erasedSector) := by
      rw [Marked, hread]
      exact ⟨rfl, rfl⟩
    rw [kept, if_pos hmarked, hread, ofStream_frame]
    rfl
  · exact if_neg fun hmarked => hk (marked_frame hmarked)

theorem flashWrite_answer (d : DriverAnswers) (buf : List UInt8) (s : Sector) :
    (flashWrite d buf s).answer = none ↔ d.powerLost = true := by
  have herase (answer : Option Bool) (erased : Bool) :
      (eraseOutcome answer erased s).answer = answer := by
    cases erased <;> rfl
  unfold flashWrite DriverAnswers.powerLost
  cases d.startErase with
  | error erased => simp [herase]
  | powerLost erased => simp [herase]
  | noError =>
    cases d.waitErase with
    | error erased => simp [herase]
    | powerLost erased => simp [herase]
    | noError => cases d.program <;> simp

theorem calLoad_kept (noError : Bool) (w : World) :
    (calLoad noError w).1 = (noError && (kept w.sector).isSome) ∧
      keeper (calLoad noError w).2 =
        (keeper w).run initialFrame.data (if noError then [.load] else []) := by
  cases noError with
  | false => exact ⟨rfl, rfl⟩
  | true =>
    by_cases hm : Marked w.sector
    · rw [calLoad_marked hm]
      constructor
      · simp [kept, hm]
      · simp [keeper, kept, hm, Keeper.step]
    · rw [calLoad_unmarked hm]
      constructor
      · simp [kept, hm]
      · simp [keeper, kept, hm, Keeper.step]

theorem write_keeper {w : World} (writer : Writer) (d : DriverAnswers) (buf : List UInt8)
    {ops : List (Op CalWords)}
    (hops : (keeper w).run initialFrame.data ops =
      ⟨w.calFrame.data, kept (flashWrite d buf w.sector).sector⟩) :
    keeper (write writer d buf w).2 =
      (keeper w).run initialFrame.data (ops ++ restartOps d.powerLost) := by
  rw [Keeper.run_append, hops]
  unfold write
  by_cases h : d.powerLost = true
  · simp [(flashWrite_answer d buf w.sector).mpr h, h, restartOps, keeper, powerCycle, Keeper.step]
  · have hanswer := mt (flashWrite_answer d buf w.sector).mp h
    simp [hanswer, h, restartOps, keeper]

theorem step_keeper {w : World} (hram : w.calFrame = w.calFrame.data.frame) (e : Event) :
    keeper (step e w).2 = (keeper w).run initialFrame.data e.ops := by
  cases e with
  | calSave argc d =>
    by_cases hargc : argc > 0
    · simp [step, Event.ops, hargc]
    · simp only [step, Event.ops, hargc, if_false]
      apply write_keeper
      -- the frame in memory carries its markers, so a whole copy of it is accepted
      have hsector := (flashWrite_went d w.calFrame.stream w.sector).sector
      rw [hram, length_frame_stream] at hsector
      rw [hram, hsector]
      cases d.programmed 20 with
      | none => rfl
      | some k =>
        rw [Option.elim_some, kept_frame, saveOps]
        split_ifs <;> rfl
  | flashwrite argc d =>
    by_cases hargc : argc > 0
    · simp [step, Event.ops, hargc]
    · simp only [step, Event.ops, hargc, if_false]
      apply write_keeper
      have hsector := (flashWrite_went d pattern w.sector).sector
      rw [hsector, show pattern.length = 13 from rfl]
      cases d.programmed 13 with
      | none => rfl
      | some k =>
        rw [Option.elim_some, kept_pattern]
        rfl
  | calLoad argc noError =>
    by_cases hargc : argc > 0
    · simp [step, Event.ops, hargc]
    · simp only [step, Event.ops, hargc, if_false]
      exact (calLoad_kept noError w).2
  | calibrate data => rfl
  | powerCycle => rfl

def worldAfter (events : List Event) (w : World) : World :=
  events.foldl (fun w e => (step e w).2) w

theorem worldAfter_append (events es : List Event) (w : World) :
    worldAfter (events ++ es) w = worldAfter es (worldAfter events w) := List.foldl_append

theorem history_world (events : List Event) : (history events).2 = worldAfter events factory := by
  induction events using List.reverseRecOn with
  | nil => rfl
  | append_singleton events e ih =>
    rw [worldAfter_append, ← ih, history, List.foldl_append]
    rfl

theorem history_keeper (events : List Event) : keeper (history events).2 =
    Keeper.run initialFrame.data (events.flatMap Event.ops) ⟨initialFrame.data, none⟩ := by
  induction events using List.reverseRecOn with
  | nil =>
    show Keeper.mk _ (kept erasedSector) = _
    rw [kept, if_neg not_marked_erased]
    rfl
  | append_singleton events e ih =>
    have hstep := step_keeper (history_stored events).ram e
    rw [List.flatMap_append, Keeper.run_append, ← ih, List.flatMap_singleton, ← hstep, history,
      List.foldl_append]
    rfl

theorem worldAfter_keeper {w : World} (hw : ∃ events, worldAfter events factory = w)
    (es : List Event) :
    keeper (worldAfter es w) = (keeper w).run initialFrame.data (es.flatMap Event.ops) := by
  obtain ⟨events, rfl⟩ := hw
  rw [← worldAfter_append, ← history_world, ← history_world, history_keeper, history_keeper,
    List.flatMap_append, Keeper.run_append]

/-- After any history the bytes stand for one place that keeps a calibration, and a load
answers whether there is one in it. -/
theorem history_refines (events : List Event) :
    let place := Keeper.run initialFrame.data (events.flatMap Event.ops) ⟨initialFrame.data, none⟩
    keeper (history events).2 = place ∧ ∀ noError,
      (calLoad noError (history events).2).1 = (noError && place.kept.isSome) ∧
        keeper (calLoad noError (history events).2).2 =
          place.run initialFrame.data (if noError then [.load] else []) := by
  intro place
  have hplace : keeper (history events).2 = place := history_keeper events
  refine ⟨hplace, fun noError => ?_⟩
  rw [← hplace]
  exact calLoad_kept noError _

end BluePill.Flash
