import BluePillJs.Library.PartialRuns
import Mathlib.Data.List.Induction

/-! Past-time conditions on a history of events, and runs whose outputs are judged by
the history before them. -/

namespace PastTime
variable {σ ε ω : Type*}

/-- An event that triggers lies in the history, and all later ones hold. -/
def Since (hold trigger : ε → Prop) (hist : List ε) : Prop :=
  ∃ before e after, hist = before ++ e :: after ∧ trigger e ∧ ∀ x ∈ after, hold x

theorem not_since_nil (hold trigger : ε → Prop) : ¬Since hold trigger [] := by
  rintro ⟨before, e, after, h, _⟩
  exact absurd h (by simp)

theorem since_append_singleton (hold trigger : ε → Prop) (hist : List ε) (e : ε) :
    Since hold trigger (hist ++ [e]) ↔ trigger e ∨ hold e ∧ Since hold trigger hist := by
  constructor
  · rintro ⟨before, x, after, h, hx, hafter⟩
    rcases List.eq_nil_or_concat' after with rfl | ⟨rest, y, rfl⟩
    · obtain ⟨_, rfl⟩ := List.append_singleton_inj.mp h
      exact .inl hx
    · rw [← List.cons_append, ← List.append_assoc] at h
      obtain ⟨rfl, rfl⟩ := List.append_singleton_inj.mp h
      rw [List.forall_mem_append, List.forall_mem_singleton] at hafter
      exact .inr ⟨hafter.2, before, x, rest, rfl, hx, hafter.1⟩
  · rintro (he | ⟨he, before, x, after, rfl, hx, hafter⟩)
    · exact ⟨hist, e, [], rfl, he, fun _ h => nomatch h⟩
    · refine ⟨before, x, after ++ [e], by simp, hx, ?_⟩
      rw [List.forall_mem_append]
      exact ⟨hafter, List.forall_mem_singleton.mpr he⟩

/-- Every event of the history agrees with the events before it. -/
def Always (Q : List ε → ε → Prop) (hist : List ε) : Prop :=
  ∀ before e after, hist = before ++ e :: after → Q before e

theorem always_nil (Q : List ε → ε → Prop) : Always Q [] := by
  intro before e after h
  exact absurd h.symm (List.append_ne_nil_of_right_ne_nil before (List.cons_ne_nil e after))

theorem always_append_singleton {Q : List ε → ε → Prop} {hist : List ε} {e : ε} :
    Always Q (hist ++ [e]) ↔ Always Q hist ∧ Q hist e := by
  constructor
  · intro h
    refine ⟨fun before x after hsplit => h before x (after ++ [e]) ?_, h hist e [] rfl⟩
    rw [hsplit, List.append_assoc, List.cons_append]
  · rintro ⟨hall, hlast⟩ before x after hsplit
    rcases List.eq_nil_or_concat' after with rfl | ⟨rest, y, rfl⟩
    · obtain ⟨rfl, rfl⟩ := List.append_singleton_inj.mp hsplit
      exact hlast
    · rw [← List.cons_append, ← List.append_assoc] at hsplit
      obtain ⟨rfl, _⟩ := List.append_singleton_inj.mp hsplit
      exact hall before x rest rfl

theorem Always.append {Q : List ε → ε → Prop} {hist es : List ε} (h : Always Q hist)
    (hes : ∀ before e after, es = before ++ e :: after → Q (hist ++ before) e) :
    Always Q (hist ++ es) := by
  induction es using List.reverseRecOn with
  | nil =>
    rw [List.append_nil]
    exact h
  | append_singleton es e ih =>
    rw [← List.append_assoc, always_append_singleton]
    refine ⟨ih fun before x after hsplit => hes before x (after ++ [e]) ?_, hes es e [] rfl⟩
    rw [hsplit, List.append_assoc, List.cons_append]

theorem trace_forall_before_iff {step : ε → σ → Option (List ω × σ)} {R : List ε → σ → Prop}
    {P : ω → Prop} {Q : List ε → ε → Prop}
    (hstep : ∀ hist e s os t, R hist s → step e s = some (os, t) →
      ((∀ o ∈ os, P o) ↔ Q hist e) ∧ R (hist ++ [e]) t)
    (es : List ε) {hist : List ε} {s t : σ} {os : List ω} (hs : R hist s)
    (hrun : PartialRuns.trace step es s = some (os, t)) :
    (∀ o ∈ os, P o) ↔ ∀ before e after, es = before ++ e :: after → Q (hist ++ before) e := by
  induction es generalizing hist s os with
  | nil =>
    obtain ⟨rfl, _⟩ := Prod.mk.inj (Option.some.inj hrun)
    simp
  | cons e es ih =>
    obtain ⟨os₁, m, os₂, hm, hrest, rfl⟩ := PartialRuns.trace_cons_eq_some hrun
    obtain ⟨hout, hnext⟩ := hstep hist e s os₁ m hs hm
    rw [List.forall_mem_append, hout, ih hnext hrest]
    constructor
    · rintro ⟨hfirst, hothers⟩ before x after h
      cases before with
      | nil =>
        obtain ⟨rfl, _⟩ := List.cons.inj h
        rwa [List.append_nil]
      | cons y before =>
        obtain ⟨rfl, htail⟩ := List.cons.inj h
        simpa using hothers before x after htail
    · intro hall
      refine ⟨by simpa using hall [] e es rfl, fun before x after h => ?_⟩
      simpa using hall (e :: before) x after (by rw [h, List.cons_append])

theorem trace_invariant {step : ε → σ → Option (List ω × σ)} {R : List ε → σ → Prop}
    (hstep : ∀ hist e s os t, R hist s → step e s = some (os, t) → R (hist ++ [e]) t) {s t : σ}
    {es : List ε} {os : List ω} (hs : R [] s) (hrun : PartialRuns.trace step es s = some (os, t)) :
    R es t := by
  induction es using List.reverseRecOn generalizing os t with
  | nil =>
    obtain ⟨_, rfl⟩ := Prod.mk.inj (Option.some.inj hrun)
    exact hs
  | append_singleton es e ih =>
    obtain ⟨os₁, m, os₂, hm, hlast, _⟩ := PartialRuns.trace_append_eq_some hrun
    obtain ⟨out, u, os₃, hstep', hnil, _⟩ := PartialRuns.trace_cons_eq_some hlast
    obtain ⟨_, rfl⟩ := Prod.mk.inj (Option.some.inj hnil)
    exact hstep es e m out _ (ih hm) hstep'

/-- A run stays on course exactly as long as every event is safe after those before it. -/
theorem trace_keeps_iff (step : ε → σ → Option (List ω × σ)) {R : List ε → σ → Prop}
    {Q : List ε → ε → Prop} {s : σ} (hs : R [] s)
    (hstep : ∀ hist e s, R hist s →
      ((∃ os t, step e s = some (os, t) ∧ R (hist ++ [e]) t) ↔ Q hist e)) (es : List ε) :
    (∀ hist, hist <+: es → ∃ os t, PartialRuns.trace step hist s = some (os, t) ∧ R hist t) ↔
      ∀ hist e, hist ++ [e] <+: es → Q hist e := by
  induction es using List.reverseRecOn with
  | nil =>
    refine iff_of_true (fun hist h => ?_) (fun hist e h => ?_)
    · rw [List.prefix_nil.mp h]
      exact ⟨[], s, rfl, hs⟩
    · exact absurd (List.prefix_nil.mp h) (List.append_ne_nil_of_right_ne_nil _ (by simp))
  | append_singleton es e ih =>
    have hruns : (∀ hist, hist <+: es ++ [e] →
        ∃ os t, PartialRuns.trace step hist s = some (os, t) ∧ R hist t) ↔
        (∀ hist, hist <+: es →
          ∃ os t, PartialRuns.trace step hist s = some (os, t) ∧ R hist t) ∧
        ∃ os t, PartialRuns.trace step (es ++ [e]) s = some (os, t) ∧ R (es ++ [e]) t := by
      simp only [List.prefix_concat_iff, or_imp, forall_and, forall_eq, and_comm]
    have hsafe : (∀ hist x, hist ++ [x] <+: es ++ [e] → Q hist x) ↔
        (∀ hist x, hist ++ [x] <+: es → Q hist x) ∧ Q es e := by
      simp only [List.prefix_concat_iff, or_imp, forall_and, List.append_singleton_inj, and_imp,
        forall_eq, and_comm]
    rw [hruns, hsafe, ih]
    refine and_congr_right fun h => ?_
    obtain ⟨os, m, hrun, hm⟩ := ih.mpr h es List.prefix_rfl
    rw [← hstep es e m hm, PartialRuns.exists_trace_append hrun, PartialRuns.trace_singleton]

end PastTime
