import BluePillJs.Parser.Split
import Mathlib.Data.Nat.Digits.Lemmas
import Mathlib.Algebra.Order.Field.Rat
import Mathlib.Tactic.Linarith

/-! Python's `float` of a string. Values are exact rationals below the range of a double,
and the character database of Python is a parameter. -/

namespace BluePill.Parser
open Delimiters

def isAsciiDigit (c : Char) : Bool := 48 ≤ c.toNat && c.toNat ≤ 57

def isAsciiWord (c : Char) : Bool :=
  isAsciiDigit c || (65 ≤ c.toNat && c.toNat ≤ 90) || c.toNat == 95 ||
    (97 ≤ c.toNat && c.toNat ≤ 122)

structure Unicode where
  word : Char → Bool
  decimal : Char → Option ℕ
  decimal_lt : ∀ c d, decimal c = some d → d < 10
  word_of_decimal : ∀ c d, decimal c = some d → word c = true
  not_space_of_word : ∀ c, word c = true → isSpace c = false
  word_ascii : ∀ c, c.toNat < 128 → word c = isAsciiWord c
  decimal_ascii : ∀ c, c.toNat < 128 →
    decimal c = if isAsciiDigit c then some (c.toNat - 48) else none

inductive PyFloat where
  | fin (q : ℚ)
  | inf (neg : Bool)
  | nan
  deriving DecidableEq

/-- From halfway past the largest double on, a number reads as infinity. -/
def PyFloat.ofRat (q : ℚ) : PyFloat :=
  if 2 ^ 1024 - 2 ^ 970 ≤ |q| then .inf (decide (q < 0)) else .fin q

namespace Unicode

def isDecimal (u : Unicode) (c : Char) : Bool := (u.decimal c).isSome

def value (u : Unicode) (s : List Char) : ℕ :=
  Nat.ofDigits 10 (s.map fun c => (u.decimal c).getD 0).reverse

end Unicode

def takeSign : List Char → Bool × List Char
  | '-' :: s => (true, s)
  | '+' :: s => (false, s)
  | s => (false, s)

def isName : List Char → List Char → Bool
  | [], [] => true
  | n :: ns, c :: cs => (c == n || c == n.toUpper) && isName ns cs
  | _, _ => false

def dropUnderscores (u : Unicode) : Option Char → List Char → Option (List Char)
  -- an underscore stands between two digits only
  | prev, [] => if prev = some '_' then none else some []
  | prev, c :: cs =>
    if c = '_' then
      if prev.any u.isDecimal then dropUnderscores u (some c) cs else none
    else if prev = some '_' ∧ u.isDecimal c = false then none
    else (dropUnderscores u (some c) cs).map (c :: ·)

def readFraction (u : Unicode) : List Char → List Char × List Char
  | '.' :: s => (s.takeWhile u.isDecimal, s.dropWhile u.isDecimal)
  | s => ([], s)

def readExponent (u : Unicode) : List Char → Option ℤ
  | [] => some 0
  | e :: s =>
    if e = 'e' ∨ e = 'E' then
      let (neg, s) := takeSign s
      if s ≠ [] ∧ s.all u.isDecimal = true then
        some (if neg then -(u.value s : ℤ) else u.value s)
      else none
    else none

def readNumber (u : Unicode) (s : List Char) : Option ℚ :=
  let whole := s.takeWhile u.isDecimal
  let (frac, rest) := readFraction u (s.dropWhile u.isDecimal)
  if whole = [] ∧ frac = [] then none
  else (readExponent u rest).map fun (e : ℤ) =>
    (u.value (whole ++ frac) : ℚ) * 10 ^ (e - (frac.length : ℤ))

def floatBody (u : Unicode) (neg : Bool) (body : List Char) : Option PyFloat :=
  if isName ['i', 'n', 'f'] body ∨ isName ['i', 'n', 'f', 'i', 'n', 'i', 't', 'y'] body then
    some (.inf neg)
  else if isName ['n', 'a', 'n'] body then some .nan
  else
    (dropUnderscores u none body).bind fun s =>
      (readNumber u s).map fun q => .ofRat (if neg then -q else q)

def float (u : Unicode) (s : List Char) : Option PyFloat :=
  let (neg, body) := takeSign (strip s)
  floatBody u neg body

variable {u : Unicode} {s : List Char} {c : Char}

namespace Unicode

theorem decimal_eq_none (u : Unicode) (hc : c.toNat < 128) (h : isAsciiDigit c = false) :
    u.isDecimal c = false := by
  rw [isDecimal, u.decimal_ascii c hc, h]
  rfl

theorem ne_of_isDecimal {d : Char} (hc : u.isDecimal c = true) (hd : d.toNat < 128)
    (h : isAsciiDigit d = false) : c ≠ d := by
  rintro rfl
  rw [u.decimal_eq_none hd h] at hc
  exact nomatch hc

theorem not_space_of_isDecimal (hc : u.isDecimal c = true) : isSpace c = false := by
  obtain ⟨d, hd⟩ := Option.isSome_iff_exists.mp hc
  exact u.not_space_of_word c (u.word_of_decimal c d hd)

theorem value_lt (u : Unicode) (s : List Char) : u.value s < 10 ^ s.length := by
  have hlen : (s.map fun c => (u.decimal c).getD 0).reverse.length = s.length := by simp
  rw [value, ← hlen]
  apply Nat.ofDigits_lt_base_pow_length (by decide)
  intro d hd
  obtain ⟨c, _, rfl⟩ := List.mem_map.mp (List.mem_reverse.mp hd)
  cases h : u.decimal c with
  | none => exact Nat.zero_lt_succ 9
  | some d => exact u.decimal_lt c d h

end Unicode

theorem dropUnderscores_of_decimal {prev : Option Char} (hprev : prev ≠ some '_')
    (hs : ∀ c ∈ s, u.isDecimal c = true) : dropUnderscores u prev s = some s := by
  induction s generalizing prev with
  | nil => rw [dropUnderscores, if_neg hprev]
  | cons c s ih =>
    rw [List.forall_mem_cons] at hs
    have hc : c ≠ '_' := Unicode.ne_of_isDecimal hs.1 (by decide) (by decide)
    rw [dropUnderscores, if_neg hc, if_neg fun h => hprev h.1, ih (by simpa using hc) hs.2,
      Option.map_some]

theorem readNumber_of_decimal (hne : s ≠ []) (hs : ∀ c ∈ s, u.isDecimal c = true) :
    readNumber u s = some (u.value s : ℚ) := by
  have htake : s.takeWhile u.isDecimal = s := List.takeWhile_eq_self_iff.mpr hs
  have hdrop : s.dropWhile u.isDecimal = [] := List.dropWhile_eq_nil_iff.mpr hs
  simp [readNumber, htake, hdrop, readFraction, readExponent, hne]

theorem isName_of_isDecimal {n : Char} {ns : List Char} (hc : u.isDecimal c = true)
    (hn : n.toNat < 128 ∧ isAsciiDigit n = false)
    (hupper : n.toUpper.toNat < 128 ∧ isAsciiDigit n.toUpper = false) :
    isName (n :: ns) (c :: s) = false := by
  have hne : c ≠ n := Unicode.ne_of_isDecimal hc hn.1 hn.2
  have hne' : c ≠ n.toUpper := Unicode.ne_of_isDecimal hc hupper.1 hupper.2
  simp [isName, hne, hne']

theorem ofRat_of_abs_lt {q : ℚ} (h : |q| < 10 ^ 5) : PyFloat.ofRat q = .fin q := by
  have hsplit : (2 : ℚ) ^ 1024 = 2 ^ 970 * 2 ^ 54 := (pow_add 2 970 54)
  have hone : (1 : ℚ) ≤ 2 ^ 970 := one_le_pow₀ (by norm_num)
  refine if_neg (not_le.mpr (h.trans ?_))
  rw [hsplit]
  generalize (2 : ℚ) ^ 970 = x at hone
  linarith

theorem abs_value_lt (u : Unicode) (hlen : s.length ≤ 5) : |(u.value s : ℚ)| < 10 ^ 5 := by
  have hlt : u.value s < 10 ^ 5 := (u.value_lt s).trans_le (Nat.pow_le_pow_right (by decide) hlen)
  rw [Nat.abs_cast]
  exact_mod_cast hlt

theorem floatBody_eq_of_decimal (neg : Bool) (hne : s ≠ []) (hlen : s.length ≤ 5)
    (hs : ∀ c ∈ s, u.isDecimal c = true) :
    floatBody u neg s = some (.fin (if neg then -(u.value s : ℚ) else u.value s)) := by
  obtain ⟨c, s', rfl⟩ := List.exists_cons_of_ne_nil hne
  have hc := hs c List.mem_cons_self
  have hinf (ns : List Char) : isName ('i' :: ns) (c :: s') = false :=
    isName_of_isDecimal hc (by decide) (by decide)
  have hnan (ns : List Char) : isName ('n' :: ns) (c :: s') = false :=
    isName_of_isDecimal hc (by decide) (by decide)
  have hnone : (none : Option Char) ≠ some '_' := nofun
  have hvalue := abs_value_lt u hlen
  have hfin : PyFloat.ofRat (if neg then -(u.value (c :: s') : ℚ) else u.value (c :: s')) =
      .fin (if neg then -(u.value (c :: s') : ℚ) else u.value (c :: s')) := by
    apply ofRat_of_abs_lt
    split_ifs
    · rwa [abs_neg]
    · exact hvalue
  rw [floatBody, if_neg (by simp [hinf]), if_neg (by simp [hnan]),
    dropUnderscores_of_decimal hnone hs, Option.bind_some, readNumber_of_decimal hne hs,
    Option.map_some, hfin]

theorem floatBody_of_decimal (neg : Bool) (hne : s ≠ []) (hlen : s.length ≤ 5)
    (hs : ∀ c ∈ s, u.isDecimal c = true) : ∃ q, floatBody u neg s = some (.fin q) :=
  ⟨_, floatBody_eq_of_decimal neg hne hlen hs⟩

theorem takeSign_of_isDecimal (hc : u.isDecimal c = true) (s : List Char) :
    takeSign (c :: s) = (false, c :: s) := by
  have hminus : c ≠ '-' := Unicode.ne_of_isDecimal hc (by decide) (by decide)
  have hplus : c ≠ '+' := Unicode.ne_of_isDecimal hc (by decide) (by decide)
  unfold takeSign
  split
  · exact absurd (List.cons.inj ‹_›).1 hminus
  · exact absurd (List.cons.inj ‹_›).1 hplus
  · rfl

theorem strip_of_decimal (hs : ∀ c ∈ s, u.isDecimal c = true) : strip s = s :=
  trim_eq_self fun c hc => Unicode.not_space_of_isDecimal (hs c hc)

theorem float_eq_of_decimal (hne : s ≠ []) (hlen : s.length ≤ 5)
    (hs : ∀ c ∈ s, u.isDecimal c = true) : float u s = some (.fin (u.value s)) := by
  have hsign : takeSign s = (false, s) := by
    obtain ⟨c, s', rfl⟩ := List.exists_cons_of_ne_nil hne
    exact takeSign_of_isDecimal (hs c List.mem_cons_self) s'
  rw [float, strip_of_decimal hs, hsign]
  exact floatBody_eq_of_decimal false hne hlen hs

theorem float_of_decimal (hne : s ≠ []) (hlen : s.length ≤ 5)
    (hs : ∀ c ∈ s, u.isDecimal c = true) : ∃ q, float u s = some (.fin q) :=
  ⟨_, float_eq_of_decimal hne hlen hs⟩

theorem float_of_minus (hne : s ≠ []) (hlen : s.length ≤ 5)
    (hs : ∀ c ∈ s, u.isDecimal c = true) : ∃ q, float u ('-' :: s) = some (.fin q) := by
  have hstrip : strip ('-' :: s) = '-' :: s := by
    apply trim_eq_self
    rw [List.forall_mem_cons]
    exact ⟨by decide, fun c hc => Unicode.not_space_of_isDecimal (hs c hc)⟩
  rw [float, hstrip]
  exact floatBody_of_decimal true hne hlen hs

end BluePill.Parser
