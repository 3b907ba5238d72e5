import BluePillJs.Encoder.Pass
import BluePillJs.Library.Decimal
import BluePillJs.Parser.Poll

/-! What `ems22a_thread` prints, and what the host program makes of it. -/

namespace BluePill.Serial
open Decimal Delimiters Encoder BluePill.Parser

def bit (b : Bool) : List Char := numeral b.toNat

def errorFields (device : ℕ) (f : Ems22aFrame) : List (List Char) :=
  [numeral device, ", value: ".toList, padded 4 f.value,
    ", error bits: end_offst_comp ".toList, bit f.endOffstComp,
    ", cordic_oflow ".toList, bit f.cordicOflow, ", linearity_alarm ".toList, bit f.linearityAlarm,
    ", mag_increase ".toList, bit f.magIncrease, ", mag_decrease ".toList, bit f.magDecrease,
    ", parity ".toList, bit f.parity]

def errorText (device : ℕ) (f : Ems22aFrame) : List Char :=
  "EMS22A error, device ".toList ++ (errorFields device f).flatten

def readingText (device : ℕ) (f : Ems22aFrame) : List Char :=
  "E22A".toList ++ numeral device ++ ' ' :: padded 4 f.value

/-- One line of the thread as `readline` returns it: a file opened as text delivers the
line break as a single character. -/
def line (device : ℕ) (f : Ems22aFrame) : List Char :=
  if f.faulty then errorText device f ++ ['\n'] else '>' :: (readingText device f ++ ['\n'])

def framesRun (n : ℕ) : List (ℕ → Ems22aFrame) → (ℕ → Ems22aFrame) → List (ℕ × Ems22aFrame)
  | [], _ => []
  | wire :: wires, rxbuf =>
    let rxbuf := ems22aReceive wire rxbuf n
    ((List.range n).map fun i => (i, rxbuf i)) ++ framesRun n wires rxbuf

def headingReading (math : Math) (hdg : ℚ) : Reading where
  angle := .fin (-hdg * math.pi / 128)
  x := .fin (math.sin (-hdg * math.pi / 128) * 2 ^ 15)
  y := .fin (math.cos (-hdg * math.pi / 128) * 2 ^ 15)

def shown (math : Math) : PassEvent → Option (Label × Reading)
  | .transmit 0 hdg => some (.e22a0, headingReading math hdg)
  | _ => none

variable {s t : List Char} {device : ℕ} {f : Ems22aFrame}

theorem clean_append (hs : Clean s) (ht : Clean t) : Clean (s ++ t) := by
  constructor
  · rw [List.mem_append, not_or]
    exact ⟨hs.1, ht.1⟩
  · rw [List.mem_append, not_or]
    exact ⟨hs.2, ht.2⟩

theorem clean_of_isDigit (h : ∀ c ∈ s, IsDigit c) : Clean s := by
  constructor
  · intro hmem
    exact absurd (h _ hmem) (by unfold IsDigit; decide)
  · intro hmem
    exact absurd (h _ hmem) (by unfold IsDigit; decide)

theorem clean_numeral (n : ℕ) : Clean (numeral n) :=
  clean_of_isDigit fun _ => isDigit_of_mem_numeral

theorem clean_padded (width n : ℕ) : Clean (padded width n) :=
  clean_of_isDigit fun _ => isDigit_of_mem_padded

theorem not_space_of_isDigit {c : Char} (h : IsDigit c) : isSpace c = false := by
  obtain ⟨hl, hu⟩ := h
  unfold isSpace
  simp only [Bool.or_eq_false_iff, Bool.and_eq_false_iff, decide_eq_false_iff_not,
    beq_eq_false_iff_ne]
  omega

theorem strip_of_ends {c : Char} (hc : isSpace c = false) (ht : ∀ d ∈ t, isSpace d = false)
    (hne : t ≠ []) : strip (c :: (s ++ t)) = c :: (s ++ t) := by
  obtain ⟨init, d, rfl⟩ := List.eq_nil_or_concat' t |>.resolve_left hne
  have hd : isSpace d = false := ht d (List.mem_append_right init (List.mem_singleton_self d))
  rw [strip, trim_cons_of_neg hc, ← List.append_assoc, List.rdropWhile_concat_neg]
  rw [hd]
  exact Bool.false_ne_true

theorem not_space_bit (b : Bool) : ∀ c ∈ bit b, isSpace c = false :=
  fun _ hc => not_space_of_isDigit (isDigit_of_mem_numeral hc)

theorem bit_ne_nil (b : Bool) : bit b ≠ [] := numeral_ne_nil _

theorem padded_ne_nil (width n : ℕ) : padded width n ≠ [] := by
  rw [padded, List.leftpad]
  exact List.append_ne_nil_of_right_ne_nil _ (numeral_ne_nil n)

theorem clean_errorText (device : ℕ) (f : Ems22aFrame) : Clean (errorText device f) := by
  have hfields : ∀ s ∈ errorFields device f, Clean s := by
    simp only [errorFields, List.forall_mem_cons]
    exact ⟨clean_numeral _, ⟨by decide, by decide⟩, clean_padded _ _, ⟨by decide, by decide⟩,
      clean_numeral _, ⟨by decide, by decide⟩, clean_numeral _, ⟨by decide, by decide⟩,
      clean_numeral _, ⟨by decide, by decide⟩, clean_numeral _, ⟨by decide, by decide⟩,
      clean_numeral _, ⟨by decide, by decide⟩, clean_numeral _, fun _ h => absurd h List.not_mem_nil⟩
  have hflatten : Clean (errorFields device f).flatten := by
    constructor
    · rw [List.mem_flatten]
      rintro ⟨s, hs, hmem⟩
      exact (hfields s hs).1 hmem
    · rw [List.mem_flatten]
      rintro ⟨s, hs, hmem⟩
      exact (hfields s hs).2 hmem
  exact clean_append ⟨by decide, by decide⟩ hflatten

theorem clean_readingText (device : ℕ) (f : Ems22aFrame) : Clean (readingText device f) := by
  have hvalue : Clean (' ' :: padded 4 f.value) :=
    clean_append (s := [' ']) ⟨by decide, by decide⟩ (clean_padded 4 f.value)
  exact clean_append (clean_append ⟨by decide, by decide⟩ (clean_numeral device)) hvalue

theorem strip_errorText (device : ℕ) (f : Ems22aFrame) :
    strip (errorText device f) = errorText device f := by
  have hparity : (errorFields device f).flatten =
      ((errorFields device f).take 14).flatten ++ bit f.parity := by
    simp [errorFields]
  have hends : errorText device f = 'E' ::
      (("MS22A error, device ".toList ++ ((errorFields device f).take 14).flatten) ++
        bit f.parity) := by
    have hhead : "EMS22A error, device ".toList = 'E' :: "MS22A error, device ".toList := rfl
    unfold errorText
    rw [hhead, hparity, List.cons_append, List.append_assoc]
  rw [hends]
  exact strip_of_ends rfl (not_space_bit f.parity) (bit_ne_nil f.parity)

theorem strip_readingText (device : ℕ) (f : Ems22aFrame) :
    strip (readingText device f) = readingText device f := by
  have hends : readingText device f = 'E' ::
      (("22A".toList ++ numeral device ++ [' ']) ++ padded 4 f.value) := by
    have hhead : "E22A".toList = 'E' :: "22A".toList := rfl
    rw [readingText, hhead, List.append_assoc ("22A".toList ++ numeral device)]
    rfl
  have hdigits : ∀ c ∈ padded 4 f.value, isSpace c = false := fun _ hc =>
    not_space_of_isDigit (isDigit_of_mem_padded hc)
  rw [hends]
  exact strip_of_ends rfl hdigits (padded_ne_nil 4 f.value)

def errorMessage (device : ℕ) (f : Ems22aFrame) : Message where
  text := errorText device f
  ne_nil := List.append_ne_nil_of_left_ne_nil (by decide) _
  no_mark := (clean_errorText device f).1
  no_break := (clean_errorText device f).2
  stripped := strip_errorText device f

def readingMessage (device : ℕ) (f : Ems22aFrame) : Message where
  text := readingText device f
  ne_nil := List.append_ne_nil_of_right_ne_nil _ (List.cons_ne_nil _ _)
  no_mark := (clean_readingText device f).1
  no_break := (clean_readingText device f).2
  stripped := strip_readingText device f

def body (device : ℕ) (f : Ems22aFrame) : List Char :=
  if f.faulty then errorText device f else readingText device f

theorem feed_line (raises : List Char → Bool) (device : ℕ) (f : Ems22aFrame)
    (pieces : List (List Char)) : feed raises (line device f :: pieces) [] =
      (body device f :: (feed raises pieces []).1, (feed raises pieces []).2) := by
  unfold line body
  split_ifs
  · have hclosing : (errorText device f ++ ['\n'], []) ∈ closings (errorMessage device f) true :=
      List.mem_cons_self
    have hne : strip (errorText device f ++ ['\n']) ≠ [] := by
      rw [(strip_closing hclosing).1]
      exact (errorMessage device f).ne_nil
    rw [feed_cons hne, split_closing hclosing]
    rfl
  · have hclosing : (readingText device f ++ ['\n'], []) ∈
        closings (readingMessage device f) true := List.mem_cons_self
    rw [feed_cons (strip_mark_ne_nil _), split_mark (strip_closing hclosing).2,
      split_closing hclosing]
    rfl

theorem feed_lines (raises : List Char → Bool) (frames : List (ℕ × Ems22aFrame)) :
    feed raises (frames.map fun p => line p.1 p.2) [] =
      (frames.map fun p => body p.1 p.2, []) := by
  induction frames with
  | nil => rfl
  | cons p frames ih => rw [List.map_cons, feed_line, ih, List.map_cons]

/-! ## The readings -/

variable {u : Unicode} {math : Math}

theorem Label.ofText_eq_none (h : ∀ label : Label, label.text ≠ s) : Label.ofText s = none := by
  apply List.find?_eq_none.mpr
  intro label _
  rw [beq_iff_eq]
  exact h label

theorem reading?_of_unknown (hs : ∀ c ∈ s, isSpace c = false) (hne : s ≠ [])
    (hlabel : ∀ label : Label, label.text ≠ s) (rest : List Char) :
    reading? u math (s ++ ' ' :: rest) = none := by
  have hwords : words isSpace (s ++ ' ' :: rest) = s :: words isSpace rest :=
    words_append_cons hne hs rfl rest
  unfold reading? outcome
  rw [hwords, List.head?_cons, Option.bind_some, Label.ofText_eq_none hlabel]

theorem reading?_errorText (device : ℕ) (f : Ems22aFrame) :
    reading? u math (errorText device f) = none := by
  have hhead : "EMS22A error, device ".toList = "EMS22A".toList ++ ' ' :: "error, device ".toList :=
    rfl
  have hword : errorText device f = "EMS22A".toList ++ ' ' ::
      ("error, device ".toList ++ (errorFields device f).flatten) := by
    unfold errorText
    rw [hhead, List.append_assoc, List.cons_append]
  have hspace : ("EMS22A".toList).all fun c => !isSpace c := rfl
  rw [hword]
  apply reading?_of_unknown
  · intro c hc
    exact Bool.eq_false_of_not_eq_true' (List.all_eq_true.mp hspace c hc)
  · decide
  · intro label
    cases label <;> decide

theorem isDecimal_of_isDigit {c : Char} (h : IsDigit c) : u.decimal c = some (digit c) := by
  have hascii : c.toNat < 128 := h.2.trans_lt (by decide)
  have hdigit : isAsciiDigit c = true := by
    rw [isAsciiDigit, Bool.and_eq_true, decide_eq_true_iff, decide_eq_true_iff]
    exact h
  rw [u.decimal_ascii c hascii, if_pos hdigit]
  rfl

theorem value_eq (hs : ∀ c ∈ s, IsDigit c) : u.value s = Decimal.value s := by
  have hmap : ∀ c ∈ s, (u.decimal c).getD 0 = digit c := by
    intro c hc
    rw [isDecimal_of_isDigit (hs c hc), Option.getD_some]
  rw [Unicode.value, Decimal.value, List.map_congr_left hmap]

theorem float_value (u : Unicode) (f : Ems22aFrame) :
    float u (padded 4 f.value) = some (.fin f.value) := by
  have hlt : f.value < 10 ^ 4 := (value_lt f).trans (by decide)
  have hlen : (padded 4 f.value).length = 4 := length_padded (by decide) hlt
  have hdigits : ∀ c ∈ padded 4 f.value, IsDigit c := fun _ => isDigit_of_mem_padded
  have hdecimal : ∀ c ∈ padded 4 f.value, u.isDecimal c = true := by
    intro c hc
    rw [Unicode.isDecimal, isDecimal_of_isDigit (hdigits c hc)]
    rfl
  rw [float_eq_of_decimal (padded_ne_nil 4 f.value) (hlen.trans_le (by decide)) hdecimal,
    value_eq hdigits, value_padded]

theorem numeral_eq_zero (h : numeral device = ['0']) : device = 0 := by
  rw [← value_numeral device, h]
  rfl

theorem words_readingText (device : ℕ) (f : Ems22aFrame) :
    words isSpace (readingText device f) = ["E22A".toList ++ numeral device, padded 4 f.value] := by
  have hletters : ("E22A".toList).all fun c => !isSpace c := rfl
  have hlabel : ∀ c ∈ "E22A".toList ++ numeral device, isSpace c = false := by
    rw [List.forall_mem_append]
    refine ⟨fun c hc => ?_, fun c hc => not_space_of_isDigit (isDigit_of_mem_numeral hc)⟩
    exact Bool.eq_false_of_not_eq_true' (List.all_eq_true.mp hletters c hc)
  have hvalue : ∀ c ∈ padded 4 f.value, isSpace c = false := fun _ hc =>
    not_space_of_isDigit (isDigit_of_mem_padded hc)
  rw [readingText, words_append_cons (List.append_ne_nil_of_right_ne_nil _ (numeral_ne_nil device))
    hlabel rfl, words_of_forall (padded_ne_nil 4 f.value) hvalue]

theorem reading?_other (h : device ≠ 0) (f : Ems22aFrame) :
    reading? u math (readingText device f) = none := by
  have hlabel : ∀ label : Label, label.text ≠ "E22A".toList ++ numeral device := by
    intro label htext
    cases label with
    | e22a0 =>
      have hsame : "E22A".toList ++ ['0'] = "E22A".toList ++ numeral device := htext
      exact h (numeral_eq_zero (List.append_cancel_left hsame).symm)
    | l303c => exact absurd (List.cons.inj htext).1 (by decide)
    | l303d => exact absurd (List.cons.inj htext).1 (by decide)
    | ml393 => exact absurd (List.cons.inj htext).1 (by decide)
  unfold reading? outcome
  rw [words_readingText, List.head?_cons, Option.bind_some, Label.ofText_eq_none hlabel]

theorem reading?_first (u : Unicode) (math : Math) (f : Ems22aFrame) :
    reading? u math (readingText 0 f) = some (.e22a0, headingReading math f.heading) := by
  have hlabel : Label.ofText ("E22A".toList ++ numeral 0) = some .e22a0 := rfl
  have hlt : f.value < 10 ^ 4 := (value_lt f).trans (by decide)
  have hlen : (readingText 0 f).length = 10 := by
    have hvalue : (padded 4 f.value).length = 4 := length_padded (by decide) hlt
    rw [readingText, List.length_append, List.length_cons, hvalue]
    rfl
  have hacc : accepted u (readingText 0 f) .e22a0 = true := beq_iff_eq.mpr hlen
  have hfield : floatField u ["E22A".toList ++ numeral 0, padded 4 f.value] 1 =
      .ok (.fin f.value) := by
    have hget : ["E22A".toList ++ numeral 0, padded 4 f.value][1]? = some (padded 4 f.value) := rfl
    simp only [floatField, hget, float_value]
  have hangle : ((((f.value : ℚ) - 512) * -1) * math.pi) * (1 / 512) =
      -(f.heading : ℚ) * math.pi / 128 := by
    show _ = -((f.value : ℚ) / 4 - 128) * math.pi / 128
    ring
  unfold reading? outcome
  rw [words_readingText, List.head?_cons, Option.bind_some, hlabel]
  dsimp only
  rw [if_pos hacc]
  simp only [convert, hfield, bind, Except.bind, PyFloat.sub, PyFloat.mul, PyFloat.circular, hangle]
  rfl

theorem reading?_body (u : Unicode) (math : Math) (device : ℕ) (f : Ems22aFrame) :
    reading? u math (body device f) = shown math (passEvent device f) := by
  unfold body passEvent
  split_ifs
  · exact reading?_errorText device f
  · cases device with
    | zero => exact reading?_first u math f
    | succ device => exact reading?_other (Nat.succ_ne_zero device) f

/-! ## From the encoder to the window -/

def eventsRun (n : ℕ) (wires : List (ℕ → Ems22aFrame)) (rxbuf : ℕ → Ems22aFrame) :
    List PassEvent :=
  (framesRun n wires rxbuf).map fun p => passEvent p.1 p.2

theorem eventsRun_cons (n : ℕ) (wire : ℕ → Ems22aFrame) (wires : List (ℕ → Ems22aFrame))
    (rxbuf : ℕ → Ems22aFrame) : eventsRun n (wire :: wires) rxbuf =
      ems22aPass wire rxbuf n ++ eventsRun n wires (ems22aReceive wire rxbuf n) := by
  rw [eventsRun, framesRun, List.map_append, List.map_map]
  rfl

theorem frame_feed_lines (u : Unicode) (math : Math) (frames : List (ℕ × Ems22aFrame)) :
    (Receiver.start.feed u math (frames.map fun p => line p.1 p.2)).frame =
      render math (frames.filterMap fun p => shown math (passEvent p.1 p.2)) := by
  have hreadings : (frames.map fun p => body p.1 p.2).filterMap (reading? u math) =
      frames.filterMap fun p => shown math (passEvent p.1 p.2) := by
    rw [List.filterMap_map]
    apply List.filterMap_congr
    intro p _
    exact reading?_body u math p.1 p.2
  have hfed := feed_lines (raises u math) frames
  calc (Receiver.start.feed u math (frames.map fun p => line p.1 p.2)).frame
    _ = (feed (raises u math) (frames.map fun p => line p.1 p.2) []).1.foldl
        (listen u math) .initial := rfl
    _ = (frames.map fun p => body p.1 p.2).foldl (listen u math) .initial := by rw [hfed]
    _ = render math (frames.filterMap fun p => shown math (passEvent p.1 p.2)) := by
      rw [← render_nil math, foldl_listen_render, List.nil_append, hreadings]

theorem shown_label {e : PassEvent} {p : Label × Reading} (h : shown math e = some p) :
    p.1 = .e22a0 := by
  unfold shown at h
  split at h
  · cases h
    rfl
  · exact nomatch h

/-- When the lines of the thread are read whole, the window shows the headings that the first
encoder has handed to `transmit` so far, as angles, and nothing else. The rows of the other
sensors wait, so nothing is logged. -/
theorem window_shows_headings (u : Unicode) (math : Math) (n : ℕ)
    (wires : List (ℕ → Ems22aFrame)) (rxbuf : ℕ → Ems22aFrame) (file : ℕ → ReadResult)
    (attempts : List OpenResult)
    (hread : pieces file 0 (ticks u math file attempts .start).consumed <+:
      (framesRun n wires rxbuf).map fun p => line p.1 p.2) :
    (∃ before, before <+: eventsRun n wires rxbuf ∧
      before.length = (pieces file 0 (ticks u math file attempts .start).consumed).length ∧
      (ticks u math file attempts .start).receiver.frame =
        render math (before.filterMap (shown math))) ∧
    (ticks u math file attempts .start).receiver.frame.log = [] := by
  obtain ⟨_, _, _, _, hrun⟩ := ticks_advanced u math file attempts
  have hreceiver := hrun.from_start.2
  obtain ⟨frames, hframes, hpieces⟩ := List.prefix_map_iff.mp hread
  have hbefore : (frames.map fun p => passEvent p.1 p.2) <+: eventsRun n wires rxbuf := by
    unfold eventsRun
    exact hframes.map _
  have hreadings : (frames.map fun p => passEvent p.1 p.2).filterMap (shown math) =
      frames.filterMap fun p => shown math (passEvent p.1 p.2) := List.filterMap_map
  have hframe : (ticks u math file attempts .start).receiver.frame =
      render math ((frames.map fun p => passEvent p.1 p.2).filterMap (shown math)) := by
    rw [hreadings, hreceiver, hpieces]
    exact frame_feed_lines u math frames
  refine ⟨⟨_, hbefore, ?_, hframe⟩, ?_⟩
  · rw [hpieces, List.length_map, List.length_map]
  · rw [hframe]
    refine render_log_nil math .ml393 fun p hp => ?_
    obtain ⟨e, _, he⟩ := List.mem_filterMap.mp hp
    rw [shown_label he]
    decide

def twoWords : ℕ → Ems22aFrame
  | 0 => 0x4020
  | 1 => 0x0010
  | _ => 0

def twoLines : ℕ → ReadResult
  | 0 => .data (line 0 0x8040)
  | 1 => .data (line 1 0x0041)
  | _ => .again

theorem window_shows_headings_two :
    (ticks ascii noMath twoLines [.opened] .start).receiver.frame =
        render noMath [(.e22a0, headingReading noMath (1 / 4))] ∧
      (ticks ascii noMath twoLines [.opened] .start).receiver.frame.log = [] := by
  have hconsumed : (ticks ascii noMath twoLines [.opened] .start).consumed = 3 := by decide +kernel
  have hframes : framesRun 2 [twoWords] (fun _ => 0) = [(0, 0x8040), (1, 0x0041)] := by
    decide +kernel
  have hread : pieces twoLines 0 (ticks ascii noMath twoLines [.opened] .start).consumed <+:
      (framesRun 2 [twoWords] fun _ => 0).map fun p => line p.1 p.2 := by
    rw [hconsumed, hframes]
    exact List.prefix_rfl
  obtain ⟨⟨before, hbefore, hlen, hframe⟩, hlog⟩ :=
    window_shows_headings ascii noMath 2 [twoWords] (fun _ => 0) twoLines [.opened] hread
  have hall : before = [passEvent 0 0x8040, passEvent 1 0x0041] := by
    rw [eventsRun, hframes] at hbefore
    rw [hconsumed] at hlen
    exact hbefore.eq_of_length hlen
  have hheading : (Ems22aFrame.heading 0x8040 : ℚ) = 1 / 4 := by decide +kernel
  refine ⟨?_, hlog⟩
  rw [hframe, hall, ← hheading]
  rfl

end BluePill.Serial
