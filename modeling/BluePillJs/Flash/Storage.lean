import BluePillJs.Library.FlashCells
import Mathlib.Data.Nat.Notation

/-! The calibration frame, the flash sector that stores it, and the commands that write
and read it, with a driver that may fail and a supply that may drop at any point. -/

namespace BluePill.Flash
open FlashCells

structure CalWords where
  offset : UInt32
  mNeg : UInt32
  mPos : UInt32
  deriving DecidableEq

structure CalFrame where
  start : List UInt8
  data : CalWords
  fin : List UInt8
  deriving DecidableEq

def calMarker : List UInt8 :=
  -- the string "CAL" with its terminator
  [0x43, 0x41, 0x4C] ++ [0]

def endMarker : List UInt8 :=
  -- the string "END" with its terminator
  [0x45, 0x4E, 0x44] ++ [0]

def initialFrame : CalFrame where
  start := calMarker
  -- the floats 0.0, 1.0 and 1.0
  data := ⟨0, 0x3F800000, 0x3F800000⟩
  fin := endMarker

def wordBytes (x : UInt32) : List UInt8 :=
  (List.range 4).map fun k => UInt8.ofNat (x.toNat / 256 ^ k)

def bytesWord (bytes : List UInt8) : UInt32 :=
  UInt32.ofNat (bytes.foldr (fun b n => b.toNat + 256 * n) 0)

def CalFrame.stream (f : CalFrame) : List UInt8 :=
  f.start ++ (wordBytes f.data.offset ++ wordBytes f.data.mNeg ++ wordBytes f.data.mPos) ++ f.fin

def CalFrame.ofStream (bytes : List UInt8) : CalFrame where
  start := bytes.take 4
  data := {
    offset := bytesWord ((bytes.drop 4).take 4)
    mNeg := bytesWord ((bytes.drop 8).take 4)
    mPos := bytesWord ((bytes.drop 12).take 4) }
  fin := bytes.drop 16

abbrev Sector : Type := ℕ → UInt8

def erasedSector : Sector := fun _ => 0xFF

structure World where
  sector : Sector
  calFrame : CalFrame

def factory : World where
  sector := erasedSector
  calFrame := initialFrame

/-! ## The driver -/

/-- How a driver call that erases ends; the erase itself is all or nothing. -/
inductive EraseAnswer where
  | noError
  | error (erased : Bool)
  | powerLost (erased : Bool)

inductive ProgramAnswer where
  | noError
  | error (written : ℕ)
  | powerLost (written : ℕ)

structure DriverAnswers where
  startErase : EraseAnswer
  waitErase : EraseAnswer
  program : ProgramAnswer

inductive Stage where
  | untouched
  | erased
  | programBegan
  | reported
  deriving DecidableEq

/-- The answer is `none` when the power went before the call returned. -/
structure WriteOutcome where
  answer : Option Bool
  sector : Sector
  stage : Stage

def eraseOutcome (answer : Option Bool) (erased : Bool) (s : Sector) : WriteOutcome :=
  if erased then ⟨answer, erasedSector, .erased⟩ else ⟨answer, s, .untouched⟩

def flashWrite (d : DriverAnswers) (buf : List UInt8) (s : Sector) : WriteOutcome :=
  match d.startErase with
  | .error erased => eraseOutcome (some false) erased s
  | .powerLost erased => eraseOutcome none erased s
  | .noError =>
    match d.waitErase with
    | .error erased => eraseOutcome (some false) erased s
    | .powerLost erased => eraseOutcome none erased s
    | .noError =>
      -- from here on the sector is blank, and bytes are written in address order
      match d.program with
      | .error k => ⟨some false, program buf k erasedSector, .programBegan⟩
      | .powerLost k => ⟨none, program buf k erasedSector, .programBegan⟩
      | .noError => ⟨some true, program buf buf.length erasedSector, .reported⟩

def flashRead (noError : Bool) (s : Sector) (len : ℕ) : Option (List UInt8) :=
  if noError then some (readCells s len) else none

/-! ## The commands -/

def calLoad (noError : Bool) (w : World) : Bool × World :=
  match flashRead noError w.sector 20 with
  | none => (false, w)
  | some bytes =>
    let buffer := CalFrame.ofStream bytes
    if strncmp 4 buffer.start calMarker ≠ 0 ∨ strncmp 4 buffer.fin endMarker ≠ 0 then (false, w)
    else (true, { w with calFrame := { w.calFrame with data := buffer.data } })

def pattern : List UInt8 :=
  -- the string "Hello Flash!" with its terminator
  [0x48, 0x65, 0x6C, 0x6C, 0x6F, 0x20, 0x46, 0x6C, 0x61, 0x73, 0x68, 0x21, 0]

inductive Writer where
  | calSave (data : CalWords)
  | flashwrite
  deriving DecidableEq

/-- One call of `flash_write`: who made it, what the driver did, and how it ended. -/
structure WriteRecord where
  writer : Writer
  driver : DriverAnswers
  answer : Option Bool
  stage : Stage

inductive Event where
  | calSave (argc : ℕ) (d : DriverAnswers)
  | flashwrite (argc : ℕ) (d : DriverAnswers)
  | calLoad (argc : ℕ) (noError : Bool)
  | calibrate (data : CalWords)
  | powerCycle

def powerCycle (w : World) : World := { w with calFrame := initialFrame }

def write (writer : Writer) (d : DriverAnswers) (buf : List UInt8) (w : World) :
    List WriteRecord × World :=
  let o := flashWrite d buf w.sector
  let w := { w with sector := o.sector }
  ([⟨writer, d, o.answer, o.stage⟩], if o.answer = none then powerCycle w else w)

def step : Event → World → List WriteRecord × World
  | .calSave argc d, w =>
    if argc > 0 then ([], w) else write (.calSave w.calFrame.data) d w.calFrame.stream w
  | .flashwrite argc d, w => if argc > 0 then ([], w) else write .flashwrite d pattern w
  | .calLoad argc noError, w => if argc > 0 then ([], w) else ([], (calLoad noError w).2)
  | .calibrate data, w => ([], { w with calFrame := { w.calFrame with data := data } })
  | .powerCycle, w => ([], powerCycle w)

def history (events : List Event) : List WriteRecord × World :=
  events.foldl (fun p e => (p.1 ++ (step e p.2).1, (step e p.2).2)) ([], factory)

theorem bytesWord_wordBytes (x : UInt32) : bytesWord (wordBytes x) = x := by
  have hlt := x.toNat_lt
  have hrange : List.range 4 = [0, 1, 2, 3] := rfl
  apply UInt32.toNat_inj.mp
  simp only [bytesWord, wordBytes, hrange, List.map_cons, List.map_nil, List.foldr_cons,
    List.foldr_nil, UInt8.toNat_ofNat', UInt32.toNat_ofNat']
  omega

def CalWords.frame (data : CalWords) : CalFrame := ⟨calMarker, data, endMarker⟩

theorem length_frame_stream (data : CalWords) : data.frame.stream.length = 20 := rfl

theorem ofStream_frame (data : CalWords) : CalFrame.ofStream data.frame.stream = data.frame := by
  obtain ⟨offset, mNeg, mPos⟩ := data
  have hviews : CalFrame.ofStream (CalWords.frame ⟨offset, mNeg, mPos⟩).stream =
      CalWords.frame ⟨bytesWord (wordBytes offset), bytesWord (wordBytes mNeg),
        bytesWord (wordBytes mPos)⟩ := rfl
  rw [hviews, bytesWord_wordBytes, bytesWord_wordBytes, bytesWord_wordBytes]

def Marked (s : Sector) : Prop :=
  (readCells s 20).take 4 = calMarker ∧ (readCells s 20).drop 16 = endMarker

theorem strncmp_calMarker {a : List UInt8} (h : a.length = 4) :
    strncmp 4 a calMarker = 0 ↔ a = calMarker :=
  strncmp_eq_zero_iff h rfl (by decide)

theorem strncmp_endMarker {a : List UInt8} (h : a.length = 4) :
    strncmp 4 a endMarker = 0 ↔ a = endMarker :=
  strncmp_eq_zero_iff h rfl (by decide)

theorem calLoad_marked {w : World} (h : Marked w.sector) :
    calLoad true w = (true, { w with
      calFrame := { w.calFrame with data := (CalFrame.ofStream (readCells w.sector 20)).data } }) := by
  show (if _ then _ else _) = _
  rw [if_neg]
  rw [not_or, not_not, not_not]
  exact ⟨(strncmp_calMarker rfl).mpr h.1, (strncmp_endMarker rfl).mpr h.2⟩

theorem calLoad_unmarked {w : World} (h : ¬Marked w.sector) : calLoad true w = (false, w) := by
  show (if _ then _ else _) = _
  rw [if_pos]
  by_contra hmarkers
  rw [not_or, not_not, not_not] at hmarkers
  exact h ⟨(strncmp_calMarker rfl).mp hmarkers.1, (strncmp_endMarker rfl).mp hmarkers.2⟩

theorem calLoad_error (w : World) : calLoad false w = (false, w) := rfl

end BluePill.Flash
