import BluePillJs.Parser.Line
import Mathlib.Data.List.Infix

/-! The window and the log of the host program. Both are functions of the readings that
`parse` has accepted, in the order in which they came. -/

namespace BluePill.Parser
open Delimiters

def outcome (u : Unicode) (math : Math) (data : List Char) :
    Except PyError (Option (Label × Reading)) :=
  match (words isSpace data).head?.bind Label.ofText with
  | none => .ok none
  | some label =>
    if accepted u data label = true then
      (convert u math (words isSpace data) label).map fun r => some (label, r)
    else .ok none

def FrameState.put (math : Math) (st : FrameState) : Option (Label × Reading) → FrameState
  | none => st
  | some (label, r) => st.store math label r

def reading? (u : Unicode) (math : Math) (data : List Char) : Option (Label × Reading) :=
  match outcome u math data with
  | .ok reading => reading
  | .error _ => none

def listen (u : Unicode) (math : Math) (st : FrameState) (data : List Char) : FrameState :=
  match parse u math data st with
  | .ok st' => st'
  | .error _ => st

def latest (rs : List (Label × Reading)) (label : Label) : Option Reading :=
  (rs.reverse.find? fun p => p.1 = label).map Prod.snd

def row (math : Math) (rs : List (Label × Reading)) (label : Label) : String :=
  match latest rs label with
  | none => waiting
  | some r => rowText math label r

def complete (rs : List (Label × Reading)) : Bool :=
  Label.keys.all fun label => (latest rs label).isSome

def logLine (math : Math) (rs : List (Label × Reading)) : String :=
  String.join (Label.keys.map fun label => row math rs label ++ " ") ++ "\n"

/-- The window after the readings `rs`, and one line of the log for each reading from the
one on that completes the window. -/
def render (math : Math) (rs : List (Label × Reading)) : FrameState where
  values := latest rs
  rows := row math rs
  log := (rs.inits.filter complete).map (logLine math)

variable {u : Unicode} {math : Math} {data : List Char} {rs : List (Label × Reading)}
  {label : Label} {r : Reading}

theorem accepts_iff : Accepts u data ↔ ∃ label,
    (words isSpace data).head?.bind Label.ofText = some label ∧ accepted u data label = true := by
  constructor
  · rintro ⟨first, label, hfirst, hlabel, hacc⟩
    exact ⟨label, Option.bind_eq_some_iff.mpr ⟨first, hfirst, hlabel⟩, hacc⟩
  · rintro ⟨label, hsome, hacc⟩
    obtain ⟨first, hfirst, hlabel⟩ := Option.bind_eq_some_iff.mp hsome
    exact ⟨first, label, hfirst, hlabel, hacc⟩

theorem parse_eq_outcome (u : Unicode) (math : Math) (data : List Char) (st : FrameState) :
    parse u math data st = (outcome u math data).map (st.put math) := by
  unfold outcome
  cases hlabel : (words isSpace data).head?.bind Label.ofText with
  | none =>
    have hnot : ¬Accepts u data := by
      rw [accepts_iff, hlabel]
      rintro ⟨_, hsome, _⟩
      exact nomatch hsome
    rw [parse_of_not_accepts hnot]
    rfl
  | some label =>
    dsimp only
    split_ifs with hacc
    · obtain ⟨first, hfirst, htext⟩ := Option.bind_eq_some_iff.mp hlabel
      rw [parse_of_accepted math st hfirst htext hacc]
      cases convert u math (words isSpace data) label <;> rfl
    · have hnot : ¬Accepts u data := by
        rw [accepts_iff, hlabel]
        rintro ⟨label', hsome, hacc'⟩
        exact hacc (Option.some.inj hsome ▸ hacc')
      rw [parse_of_not_accepts hnot]
      rfl

theorem listen_eq_put (st : FrameState) (data : List Char) :
    listen u math st data = st.put math (reading? u math data) := by
  rw [listen, reading?, parse_eq_outcome]
  cases outcome u math data <;> rfl

theorem latest_append_singleton (rs : List (Label × Reading)) (label : Label) (r : Reading) :
    latest (rs ++ [(label, r)]) = Function.update (latest rs) label (some r) := by
  funext l
  rw [latest, List.reverse_append, List.reverse_singleton, List.singleton_append,
    List.find?_cons]
  rcases eq_or_ne l label with rfl | hl
  · simp
  · have hne : decide (label = l) = false := decide_eq_false hl.symm
    rw [Function.update_of_ne hl]
    simp only [hne]
    rfl

theorem row_append_singleton (math : Math) (rs : List (Label × Reading)) (label : Label)
    (r : Reading) :
    row math (rs ++ [(label, r)]) = Function.update (row math rs) label (rowText math label r) := by
  funext l
  rw [row, latest_append_singleton]
  rcases eq_or_ne l label with rfl | hl
  · rw [Function.update_self, Function.update_self]
  · rw [Function.update_of_ne hl, Function.update_of_ne hl]
    rfl

theorem rowText_ne_waiting (math : Math) (label : Label) (r : Reading) :
    rowText math label r ≠ waiting := by
  obtain ⟨c, s, htext, hc⟩ : ∃ c s, label.text = c :: s ∧ c ≠ 'W' := by
    cases label <;> exact ⟨_, _, rfl, by decide⟩
  have hwaiting : waiting.toList = 'W' :: "aiting for data".toList := rfl
  intro h
  have hlist := congrArg String.toList h
  rw [hwaiting] at hlist
  simp only [rowText, String.toList_append, String.toList_ofList, htext, List.cons_append] at hlist
  exact hc (List.cons.inj hlist).1

theorem row_eq_waiting_iff : row math rs label = waiting ↔ latest rs label = none := by
  unfold row
  cases latest rs label with
  | none => exact iff_of_true rfl rfl
  | some r => exact iff_of_false (rowText_ne_waiting math label r) (Option.some_ne_none r)

theorem any_waiting (math : Math) (rs : List (Label × Reading)) :
    (Label.keys.any fun label => row math rs label == waiting) = !complete rs := by
  have hrow (label : Label) : (row math rs label == waiting) = !(latest rs label).isSome := by
    rw [Bool.eq_iff_iff, beq_iff_eq, row_eq_waiting_iff, Bool.not_eq_true', Option.isSome_eq_false_iff,
      Option.isNone_iff_eq_none]
  simp only [hrow, complete, List.not_all_eq_any_not]

theorem render_store (math : Math) (rs : List (Label × Reading)) (label : Label) (r : Reading) :
    (render math rs).store math label r = render math (rs ++ [(label, r)]) := by
  have hinits : (rs ++ [(label, r)]).inits = rs.inits ++ [rs ++ [(label, r)]] := by
    rw [List.inits_append]
    rfl
  simp only [FrameState.store, render, ← latest_append_singleton, ← row_append_singleton,
    any_waiting, hinits, List.filter_append, List.map_append, FrameState.mk.injEq, true_and]
  cases hc : complete (rs ++ [(label, r)]) <;> simp [hc, logLine]

theorem render_nil (math : Math) : render math [] = .initial := rfl

theorem listen_render (u : Unicode) (math : Math) (rs : List (Label × Reading))
    (data : List Char) : listen u math (render math rs) data =
      render math (rs ++ (reading? u math data).toList) := by
  rw [listen_eq_put]
  cases reading? u math data with
  | none => rw [FrameState.put, Option.toList_none, List.append_nil]
  | some p =>
    -- the stored reading is the latest of its label in the longer list
    obtain ⟨label, r⟩ := p
    exact render_store math rs label r

theorem foldl_listen_render (u : Unicode) (math : Math) (rs : List (Label × Reading))
    (lines : List (List Char)) : lines.foldl (listen u math) (render math rs) =
      render math (rs ++ lines.filterMap (reading? u math)) := by
  induction lines generalizing rs with
  | nil => simp
  | cons data lines ih =>
    rw [List.foldl_cons, listen_render, ih, List.append_assoc]
    cases h : reading? u math data <;> simp [h]

/-- Whatever lines arrive, the window and the log show the accepted readings and no more. -/
theorem listen_renders (u : Unicode) (math : Math) (lines : List (List Char)) :
    lines.foldl (listen u math) .initial = render math (lines.filterMap (reading? u math)) := by
  rw [← render_nil math, foldl_listen_render, List.nil_append]

theorem render_log_nil (math : Math) {rs : List (Label × Reading)} (label : Label)
    (h : ∀ p ∈ rs, p.1 ≠ label) : (render math rs).log = [] := by
  have hnone {init : List (Label × Reading)} (hinit : init <+: rs) : latest init label = none := by
    rw [latest, Option.map_eq_none_iff, List.find?_eq_none]
    intro p hp
    rw [decide_eq_true_iff]
    exact h p (hinit.subset (List.mem_reverse.mp hp))
  have hkey : label ∈ Label.keys := by cases label <;> decide
  have hfilter : rs.inits.filter complete = [] := by
    rw [List.filter_eq_nil_iff]
    intro init hinit hcomplete
    have hsome := List.all_eq_true.mp hcomplete label hkey
    rw [hnone ((List.mem_inits _ _).mp hinit)] at hsome
    exact Bool.false_ne_true hsome
  rw [render, hfilter, List.map_nil]

end BluePill.Parser
