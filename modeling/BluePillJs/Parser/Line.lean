import BluePillJs.Library.Patterns
import BluePillJs.Parser.Float

/-! `parse` of the host program: one line of a sensor. The acceptance test looks at the
front of the line, the conversion at its fields. -/

namespace BluePill.Parser
open Delimiters

inductive Label where
  | e22a0
  | l303c
  | l303d
  | ml393
  deriving DecidableEq

namespace Label

def text : Label → List Char
  | e22a0 => ['E', '2', '2', 'A', '0']
  | l303c => ['L', '3', '0', '3', 'C']
  | l303d => ['L', '3', '0', '3', 'D']
  | ml393 => ['M', 'L', '3', '9', '3']

def keys : List Label := [e22a0, l303c, l303d, ml393]

def ofText (s : List Char) : Option Label := keys.find? fun label => label.text == s

end Label

structure Reading where
  angle : PyFloat
  x : PyFloat
  y : PyFloat

/-- What `parse` can change. An empty dictionary in `values` holds no reading. -/
structure FrameState where
  values : Label → Option Reading
  rows : Label → String
  log : List String

def waiting : String := "Waiting for data"

def FrameState.initial : FrameState := ⟨fun _ => none, fun _ => waiting, []⟩

inductive PyError where
  | indexError
  | valueError
  deriving DecidableEq

structure Math where
  pi : ℚ
  sin : ℚ → ℚ
  cos : ℚ → ℚ
  atan2 : PyFloat → PyFloat → PyFloat
  degrees : PyFloat → PyFloat
  format : String → PyFloat → String

namespace PyFloat

def sub (a : PyFloat) (k : ℚ) : PyFloat :=
  match a with
  | .fin q => .fin (q - k)
  | a => a

def mul (a : PyFloat) (k : ℚ) : PyFloat :=
  match a with
  | .fin q => .fin (q * k)
  | .inf neg => if k = 0 then .nan else .inf (neg != decide (k < 0))
  | .nan => .nan

def circular (f : ℚ → ℚ) : PyFloat → Except PyError PyFloat
  | .fin q => .ok (.fin (f q))
  -- `math.sin` and `math.cos` raise at infinity
  | .inf _ => .error .valueError
  | .nan => .ok .nan

end PyFloat

/-! ## The patterns -/

section Patterns
variable (u : Unicode)

def digits (n : ℕ) : Pattern Char := .times n (.sat u.isDecimal)

def number : Pattern Char :=
  -- (-\d{4}|-?\d{5})
  .alt (.seq (.lit ['-']) (digits u 4)) (.seq (.opt (.lit ['-'])) (digits u 5))

def numbers : Pattern Char :=
  .seq (.lit [' ']) (.seq (number u) (.seq (.lit [' ']) (.seq (number u)
    (.seq (.lit [' ']) (number u)))))

def linePattern : Pattern Char :=
  -- `re.match` tries the expression at the front of the line
  .seq (.times 5 (.sat u.word)) (numbers u)

end Patterns

def floatField (u : Unicode) (fields : List (List Char)) (i : ℕ) : Except PyError PyFloat :=
  match fields[i]? with
  | none => .error .indexError
  | some s =>
    match float u s with
    | none => .error .valueError
    | some a => .ok a

def rowText (math : Math) (label : Label) (r : Reading) : String :=
  String.ofList label.text ++ ": " ++ math.format " 3.2f" (math.degrees r.angle) ++ " " ++
    math.format " 5.2f" r.x ++ " " ++ math.format " 5.2f" r.y

def FrameState.store (math : Math) (label : Label) (r : Reading) (st : FrameState) : FrameState :=
  let rows := Function.update st.rows label (rowText math label r)
  { values := Function.update st.values label (some r)
    rows := rows
    log :=
      if Label.keys.any fun l => rows l == waiting then st.log
      else st.log ++ [String.join (Label.keys.map fun l => rows l ++ " ") ++ "\n"] }

/-- The test that each branch makes first. -/
def accepted (u : Unicode) (data : List Char) : Label → Bool
  | .e22a0 => data.length == 10
  | _ => (linePattern u).matchesFront data

def convert (u : Unicode) (math : Math) (fields : List (List Char)) :
    Label → Except PyError Reading
  | .e22a0 => do
    let value ← floatField u fields 1
    let angle := (((value.sub 512).mul (-1)).mul math.pi).mul (1 / 512)
    let sin ← angle.circular math.sin
    let cos ← angle.circular math.cos
    .ok ⟨angle, sin.mul (2 ^ 15), cos.mul (2 ^ 15)⟩
  | label => do
    let x ← floatField u fields 1
    let y ← floatField u fields 2
    -- the third number is converted but not used
    let _ ← floatField u fields 3
    let (x, y) := match label with
      | .l303d => (x.mul (2 ^ 5), y.mul (2 ^ 5))
      | .l303c => (y.mul (-1), x.mul (-1))
      | _ => (x, y)
    .ok ⟨math.atan2 x y, x, y⟩

def parse (u : Unicode) (math : Math) (data : List Char) (st : FrameState) :
    Except PyError FrameState :=
  if data.length = 0 then .ok st
  else
    let fields := words isSpace data
    -- a line without fields raises inside the `try` block
    match fields.head? with
    | none => .ok st
    | some first =>
      match Label.ofText first with
      | none => .ok st
      | some label =>
        if accepted u data label = false then .ok st
        else (convert u math fields label).map fun r => st.store math label r

/-! ## Accepted lines and well-formed lines -/

/-- The line has a known label and passes the test of its branch. -/
def Accepts (u : Unicode) (data : List Char) : Prop :=
  ∃ first label, (words isSpace data).head? = some first ∧ Label.ofText first = some label ∧
    accepted u data label = true

def wholeLine (u : Unicode) (label : Label) : Pattern Char :=
  .seq (.lit label.text)
    (match label with
      | .e22a0 => .seq (.lit [' ']) (digits u 4)
      | _ => numbers u)

def WellFormed (u : Unicode) (data : List Char) : Prop := ∃ label, data ∈ (wholeLine u label).lang

variable {u : Unicode} {math : Math} {data : List Char} {st st' : FrameState}

theorem parse_of_not_accepts (h : ¬Accepts u data) : parse u math data st = .ok st := by
  unfold parse
  simp only
  split_ifs with hlen
  · rfl
  · split
    · rfl
    · split
      · rfl
      · split_ifs with hacc
        · rfl
        · rw [Bool.not_eq_false] at hacc
          exact absurd ⟨_, _, ‹_›, ‹_›, hacc⟩ h

theorem parse_of_accepted (math : Math) (st : FrameState) {first : List Char} {label : Label}
    (hfirst : (words isSpace data).head? = some first) (hlabel : Label.ofText first = some label)
    (hacc : accepted u data label = true) : parse u math data st =
      (convert u math (words isSpace data) label).map fun r => st.store math label r := by
  have hlen : data.length ≠ 0 := by
    intro hzero
    rw [List.length_eq_zero_iff.mp hzero] at hfirst
    exact nomatch hfirst
  simp only [parse, if_neg hlen, hfirst, hlabel, hacc, Bool.true_eq_false, ↓reduceIte]

theorem values_of_accepts (h : Accepts u data) (hparse : parse u math data st = .ok st') :
    ∃ label r, st'.values label = some r := by
  obtain ⟨first, label, hfirst, hlabel, hacc⟩ := h
  rw [parse_of_accepted math st hfirst hlabel hacc] at hparse
  cases hconvert : convert u math (words isSpace data) label with
  | error e =>
    rw [hconvert] at hparse
    exact nomatch hparse
  | ok r =>
    rw [hconvert] at hparse
    cases hparse
    refine ⟨label, r, ?_⟩
    exact Function.update_self label (some r) st.values

variable {w : List Char} {label : Label}

structure NumberField (u : Unicode) (w : List Char) : Prop where
  ne_nil : w ≠ []
  not_space : ∀ c ∈ w, isSpace c = false
  float : ∃ q, float u w = some (.fin q)

theorem numberField_digits (hne : w ≠ []) (hlen : w.length ≤ 5)
    (hw : ∀ c ∈ w, u.isDecimal c = true) : NumberField u w :=
  ⟨hne, fun c hc => Unicode.not_space_of_isDecimal (hw c hc), float_of_decimal hne hlen hw⟩

theorem numberField_minus (hne : w ≠ []) (hlen : w.length ≤ 5)
    (hw : ∀ c ∈ w, u.isDecimal c = true) : NumberField u ('-' :: w) := by
  refine ⟨List.cons_ne_nil _ _, ?_, float_of_minus hne hlen hw⟩
  rw [List.forall_mem_cons]
  exact ⟨by decide, fun c hc => Unicode.not_space_of_isDecimal (hw c hc)⟩

theorem ne_nil_of_length {n : ℕ} (h : w.length = n + 1) : w ≠ [] :=
  List.ne_nil_of_length_eq_add_one h

theorem numberField_of_mem (h : w ∈ (number u).lang) : NumberField u w := by
  rcases Pattern.mem_lang_alt.mp h with h | h
  · obtain ⟨_, hminus, s, hs, rfl⟩ := Pattern.mem_lang_seq.mp h
    obtain ⟨hlen, hdigits⟩ := Pattern.mem_lang_times_sat.mp hs
    rw [Pattern.mem_lang_lit.mp hminus]
    exact numberField_minus (ne_nil_of_length hlen) (hlen.trans_le (by decide)) hdigits
  · obtain ⟨_, hsign, s, hs, rfl⟩ := Pattern.mem_lang_seq.mp h
    obtain ⟨hlen, hdigits⟩ := Pattern.mem_lang_times_sat.mp hs
    rcases Pattern.mem_lang_opt.mp hsign with hminus | rfl
    · rw [Pattern.mem_lang_lit.mp hminus]
      exact numberField_minus (ne_nil_of_length hlen) hlen.le hdigits
    · exact numberField_digits (ne_nil_of_length hlen) hlen.le hdigits

theorem exists_of_mem_blank {r : Pattern Char} (h : w ∈ (Pattern.seq (.lit [' ']) r).lang) :
    ∃ s ∈ r.lang, w = ' ' :: s := by
  obtain ⟨_, hblank, s, hs, rfl⟩ := Pattern.mem_lang_seq.mp h
  rw [Pattern.mem_lang_lit.mp hblank]
  exact ⟨s, hs, rfl⟩

theorem exists_of_mem_numbers (h : w ∈ (numbers u).lang) :
    ∃ a b c, NumberField u a ∧ NumberField u b ∧ NumberField u c ∧
      w = ' ' :: (a ++ ' ' :: (b ++ ' ' :: c)) := by
  obtain ⟨_, h₁, rfl⟩ := exists_of_mem_blank h
  obtain ⟨a, ha, _, h₂, rfl⟩ := Pattern.mem_lang_seq.mp h₁
  obtain ⟨_, h₃, rfl⟩ := exists_of_mem_blank h₂
  obtain ⟨b, hb, _, h₄, rfl⟩ := Pattern.mem_lang_seq.mp h₃
  obtain ⟨c, hc, rfl⟩ := exists_of_mem_blank h₄
  exact ⟨a, b, c, numberField_of_mem ha, numberField_of_mem hb, numberField_of_mem hc, rfl⟩

theorem Label.text_ne_nil (label : Label) : label.text ≠ [] := by
  cases label <;> exact List.cons_ne_nil _ _

theorem Label.length_text (label : Label) : label.text.length = 5 := by
  cases label <;> rfl

theorem Label.text_ascii (label : Label) :
    ∀ c ∈ label.text, c.toNat < 128 ∧ isAsciiWord c = true := by
  have hall : label.text.all fun c => decide (c.toNat < 128) && isAsciiWord c := by
    cases label <;> rfl
  intro c hc
  have h := List.all_eq_true.mp hall c hc
  rwa [Bool.and_eq_true, decide_eq_true_iff] at h

theorem Label.text_word (u : Unicode) (label : Label) : ∀ c ∈ label.text, u.word c = true := by
  intro c hc
  obtain ⟨hascii, hword⟩ := label.text_ascii c hc
  rw [u.word_ascii c hascii, hword]

theorem Label.text_not_space (label : Label) : ∀ c ∈ label.text, isSpace c = false := by
  have hall : label.text.all fun c => !isSpace c := by cases label <;> rfl
  intro c hc
  exact Bool.eq_false_of_not_eq_true' (List.all_eq_true.mp hall c hc)

theorem words_label (label : Label) (s : List Char) :
    words isSpace (label.text ++ ' ' :: s) = label.text :: words isSpace s :=
  words_append_cons label.text_ne_nil label.text_not_space rfl s

theorem NumberField.words_cons (h : NumberField u w) (s : List Char) :
    words isSpace (w ++ ' ' :: s) = w :: words isSpace s :=
  words_append_cons h.ne_nil h.not_space rfl s

theorem NumberField.words_self (h : NumberField u w) : words isSpace w = [w] :=
  words_of_forall h.ne_nil h.not_space

theorem NumberField.floatField (h : NumberField u w) {fields : List (List Char)} {i : ℕ}
    (hi : fields[i]? = some w) : ∃ q, floatField u fields i = .ok (.fin q) := by
  obtain ⟨q, hq⟩ := h.float
  refine ⟨q, ?_⟩
  simp only [Parser.floatField, hi, hq]

theorem convert_numbers {a b c : List Char} (math : Math) (ha : NumberField u a)
    (hb : NumberField u b) (hc : NumberField u c) (hlabel : label ≠ .e22a0) :
    ∃ r, convert u math [label.text, a, b, c] label = .ok r := by
  obtain ⟨x, hx⟩ : ∃ x, floatField u [label.text, a, b, c] 1 = .ok (.fin x) := ha.floatField rfl
  obtain ⟨y, hy⟩ : ∃ y, floatField u [label.text, a, b, c] 2 = .ok (.fin y) := hb.floatField rfl
  obtain ⟨z, hz⟩ : ∃ z, floatField u [label.text, a, b, c] 3 = .ok (.fin z) := hc.floatField rfl
  cases label with
  | e22a0 => exact absurd rfl hlabel
  | _ =>
    simp only [convert, hx, hy, hz]
    exact ⟨_, rfl⟩

theorem convert_value {a : List Char} (math : Math) (ha : NumberField u a) :
    ∃ r, convert u math [Label.text .e22a0, a] .e22a0 = .ok r := by
  obtain ⟨x, hx⟩ : ∃ x, floatField u [Label.text .e22a0, a] 1 = .ok (.fin x) := ha.floatField rfl
  simp only [convert, hx]
  exact ⟨_, rfl⟩

theorem convert_of_mem (math : Math) (h : data ∈ (wholeLine u label).lang) :
    ∃ fields r, words isSpace data = label.text :: fields ∧
      convert u math (words isSpace data) label = .ok r := by
  obtain ⟨_, htext, w, hw, rfl⟩ := Pattern.mem_lang_seq.mp h
  rw [Pattern.mem_lang_lit.mp htext]
  rcases eq_or_ne label .e22a0 with rfl | hlabel
  · obtain ⟨s, hs, rfl⟩ := exists_of_mem_blank hw
    obtain ⟨hlen, hdigits⟩ := Pattern.mem_lang_times_sat.mp hs
    have ha : NumberField u s :=
      numberField_digits (ne_nil_of_length hlen) (hlen.trans_le (by decide)) hdigits
    obtain ⟨r, hr⟩ := convert_value math ha
    rw [words_label, ha.words_self]
    exact ⟨[s], r, rfl, hr⟩
  · have hnumbers : w ∈ (numbers u).lang := by
      cases label with
      | e22a0 => exact absurd rfl hlabel
      | _ => exact hw
    obtain ⟨a, b, c, ha, hb, hc, rfl⟩ := exists_of_mem_numbers hnumbers
    obtain ⟨r, hr⟩ := convert_numbers math ha hb hc hlabel
    rw [words_label, ha.words_cons, hb.words_cons, hc.words_self]
    exact ⟨[a, b, c], r, rfl, hr⟩

theorem Label.ofText_text (label : Label) : Label.ofText label.text = some label := by
  cases label <;> rfl

theorem accepted_of_mem (h : data ∈ (wholeLine u label).lang) : accepted u data label = true := by
  obtain ⟨_, htext, w, hw, rfl⟩ := Pattern.mem_lang_seq.mp h
  rw [Pattern.mem_lang_lit.mp htext]
  have hword : label.text ∈ (Pattern.times 5 (.sat u.word)).lang :=
    Pattern.mem_lang_times_sat.mpr ⟨label.length_text, label.text_word u⟩
  cases label with
  | e22a0 =>
    obtain ⟨s, hs, rfl⟩ := exists_of_mem_blank hw
    have hlen := (Pattern.mem_lang_times_sat.mp hs).1
    simp [accepted, Label.text, hlen]
  | _ =>
    exact Pattern.matchesFront_iff.mpr
      ⟨_, Pattern.mem_lang_seq.mpr ⟨_, hword, w, hw, rfl⟩, List.prefix_rfl⟩

theorem parse_of_wellFormed (math : Math) (st : FrameState) (h : WellFormed u data) :
    ∃ label r, parse u math data st = .ok (st.store math label r) := by
  obtain ⟨label, hmem⟩ := h
  obtain ⟨fields, r, hwords, hconvert⟩ := convert_of_mem math hmem
  have hfirst : (words isSpace data).head? = some label.text := by
    rw [hwords]
    rfl
  refine ⟨label, r, ?_⟩
  rw [parse_of_accepted math st hfirst label.ofText_text (accepted_of_mem hmem), hconvert]
  rfl

/-- A line is rejected or read without an exception exactly when it does not pass the test
of `parse` without being well-formed. -/
theorem parse_sound_iff (u : Unicode) (math : Math) (data : List Char) :
    (∀ st, ∃ st', parse u math data st = .ok st' ∧ (¬WellFormed u data → st' = st)) ↔
      (Accepts u data → WellFormed u data) := by
  constructor
  · intro h haccepts
    by_contra hnot
    obtain ⟨st', hparse, hsame⟩ := h .initial
    obtain ⟨label, r, hr⟩ := values_of_accepts haccepts hparse
    rw [hsame hnot] at hr
    exact nomatch hr
  · intro h st
    by_cases haccepts : Accepts u data
    · obtain ⟨label, r, hparse⟩ := parse_of_wellFormed math st (h haccepts)
      exact ⟨_, hparse, fun hnot => absurd (h haccepts) hnot⟩
    · exact ⟨st, parse_of_not_accepts haccepts, fun _ => rfl⟩

def ascii : Unicode where
  word := isAsciiWord
  decimal c := if isAsciiDigit c then some (c.toNat - 48) else none
  decimal_lt := by
    intro c d h
    split_ifs at h with hc
    simp only [isAsciiDigit, Bool.and_eq_true, decide_eq_true_eq] at hc
    have hd := Option.some.inj h
    omega
  word_of_decimal := by
    intro c d h
    split_ifs at h with hc
    simp only [isAsciiWord, hc, Bool.true_or]
  not_space_of_word := by
    intro c h
    simp only [isAsciiWord, isAsciiDigit, isSpace, Bool.or_eq_true, Bool.and_eq_true,
      decide_eq_true_eq, beq_iff_eq, Bool.or_eq_false_iff, Bool.and_eq_false_iff,
      decide_eq_false_iff_not, beq_eq_false_iff_ne] at h ⊢
    omega
  word_ascii _ _ := rfl
  decimal_ascii _ _ := rfl

def noMath : Math := ⟨0, id, id, fun a _ => a, id, fun _ _ => ""⟩

def badValue : List Char := "E22A0 abcd".toList

def badTail : List Char := "L303C 00001 00002 00003xyz".toList

theorem parse_raises : parse ascii noMath badValue .initial = .error .valueError ∧
    parse ascii noMath badTail .initial = .error .valueError :=
  ⟨rfl, rfl⟩

end BluePill.Parser
