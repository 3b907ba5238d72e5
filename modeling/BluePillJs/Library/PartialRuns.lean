import Mathlib.Data.List.Basic

/-! Runs of a partial step function, with and without emitted outputs. A run that
reaches an error has no final state. -/

namespace PartialRuns
variable {σ τ ε ω : Type*}

def run (step : ε → σ → Option σ) : List ε → σ → Option σ
  | [], s => some s
  | e :: es, s => (step e s).bind (run step es)

theorem run_cons (step : ε → σ → Option σ) (e : ε) (es : List ε) (s : σ) :
    run step (e :: es) s = (step e s).bind (run step es) := rfl

theorem run_singleton (step : ε → σ → Option σ) (e : ε) (s : σ) :
    run step [e] s = step e s := by
  cases h : step e s <;> simp [run, h]

theorem run_append (step : ε → σ → Option σ) (es fs : List ε) (s : σ) :
    run step (es ++ fs) s = (run step es s).bind (run step fs) := by
  induction es generalizing s with
  | nil => rfl
  | cons e es ih =>
    simp only [List.cons_append, run]
    cases step e s with
    | none => rfl
    | some m => exact ih m

/-- A property of the history and the state that every step keeps is kept by every run. -/
theorem run_history {γ : Type*} {step : ε → σ → Option σ} {P : γ → σ → Prop} (g : γ → ε → γ)
    (hstep : ∀ e c s t, P c s → step e s = some t → P (g c e) t) (es : List ε) {c : γ} {s t : σ}
    (hs : P c s) (hrun : run step es s = some t) : P (es.foldl g c) t := by
  induction es generalizing c s with
  | nil => exact Option.some.inj hrun ▸ hs
  | cons e es ih =>
    obtain ⟨m, hm, hrest⟩ := Option.bind_eq_some_iff.mp hrun
    exact ih (hstep e c s m hs hm) hrest

theorem run_map {step : ε → σ → Option σ} {step' : ε → τ → Option τ} (f : σ → τ)
    (hstep : ∀ e s, step' e (f s) = (step e s).map f) (es : List ε) (s : σ) :
    run step' es (f s) = (run step es s).map f := by
  induction es generalizing s with
  | nil => rfl
  | cons e es ih =>
    simp only [run, hstep]
    cases step e s with
    | none => rfl
    | some m => exact ih m

theorem run_filterMap {α : Type*} {step : ε → σ → Option σ} {step' : α → σ → Option σ}
    (f : ε → Option α) (hstep : ∀ e s, step e s = (f e).elim (some s) fun a => step' a s)
    (es : List ε) (s : σ) : run step es s = run step' (es.filterMap f) s := by
  induction es generalizing s with
  | nil => rfl
  | cons e es ih =>
    rw [run_cons, hstep]
    cases h : f e with
    | none =>
      rw [List.filterMap_cons_none h]
      exact ih s
    | some a =>
      rw [List.filterMap_cons_some h, run_cons]
      exact congrArg (Option.bind _) (funext ih)

def trace (step : ε → σ → Option (List ω × σ)) : List ε → σ → Option (List ω × σ)
  | [], s => some ([], s)
  | e :: es, s => (step e s).bind fun p => (trace step es p.2).map fun q => (p.1 ++ q.1, q.2)

/-- The step with every output marked by the event that causes it. -/
def tagged (step : ε → σ → Option (List ω × σ)) (e : ε) (s : σ) : Option (List (ε × ω) × σ) :=
  (step e s).map (Prod.map (List.map (Prod.mk e)) id)

theorem tagged_eq_some {step : ε → σ → Option (List ω × σ)} {e : ε} {s t : σ}
    {log : List (ε × ω)} (h : tagged step e s = some (log, t)) :
    ∃ os, step e s = some (os, t) ∧ log = os.map (Prod.mk e) := by
  obtain ⟨⟨os, m⟩, hstep, heq⟩ := Option.map_eq_some_iff.mp h
  obtain ⟨hlog, hm⟩ := Prod.mk.inj heq
  exact ⟨os, hm ▸ hstep, hlog.symm⟩

theorem trace_append (step : ε → σ → Option (List ω × σ)) (es fs : List ε) (s : σ) :
    trace step (es ++ fs) s =
      (trace step es s).bind fun p => (trace step fs p.2).map fun q => (p.1 ++ q.1, q.2) := by
  induction es generalizing s with
  | nil => cases h : trace step fs s <;> simp [trace, h]
  | cons e es ih =>
    simp only [List.cons_append, trace]
    cases step e s with
    | none => rfl
    | some p =>
      simp only [Option.bind_some, ih]
      cases trace step es p.2 with
      | none => rfl
      | some q => cases h : trace step fs q.2 <;> simp [h]

theorem trace_cons_eq_some {step : ε → σ → Option (List ω × σ)} {e : ε} {es : List ε}
    {s t : σ} {os : List ω} (h : trace step (e :: es) s = some (os, t)) :
    ∃ os₁ m os₂, step e s = some (os₁, m) ∧ trace step es m = some (os₂, t) ∧
      os = os₁ ++ os₂ := by
  obtain ⟨⟨os₁, m⟩, hm, hrest⟩ := Option.bind_eq_some_iff.mp h
  obtain ⟨⟨os₂, u⟩, hu, heq⟩ := Option.map_eq_some_iff.mp hrest
  obtain ⟨rfl, rfl⟩ := Prod.mk.inj heq
  exact ⟨os₁, m, os₂, hm, hu, rfl⟩

theorem trace_append_eq_some {step : ε → σ → Option (List ω × σ)} {es fs : List ε}
    {s t : σ} {os : List ω} (h : trace step (es ++ fs) s = some (os, t)) :
    ∃ os₁ m os₂, trace step es s = some (os₁, m) ∧ trace step fs m = some (os₂, t) ∧
      os = os₁ ++ os₂ := by
  rw [trace_append] at h
  obtain ⟨⟨os₁, m⟩, hm, hrest⟩ := Option.bind_eq_some_iff.mp h
  obtain ⟨⟨os₂, u⟩, hu, heq⟩ := Option.map_eq_some_iff.mp hrest
  obtain ⟨rfl, rfl⟩ := Prod.mk.inj heq
  exact ⟨os₁, m, os₂, hm, hu, rfl⟩

theorem trace_singleton (step : ε → σ → Option (List ω × σ)) (e : ε) (s : σ) :
    trace step [e] s = step e s := by
  cases h : step e s <;> simp [trace, h]

theorem exists_trace_append {step : ε → σ → Option (List ω × σ)} {es fs : List ε} {s m : σ}
    {os : List ω} {P : σ → Prop} (h : trace step es s = some (os, m)) :
    (∃ out t, trace step (es ++ fs) s = some (out, t) ∧ P t) ↔
      ∃ out t, trace step fs m = some (out, t) ∧ P t := by
  rw [trace_append, h, Option.bind_some]
  cases trace step fs m with
  | none => simp
  | some p =>
    obtain ⟨out, t⟩ := p
    simp

theorem trace_history {γ : Type*} {step : ε → σ → Option (List ω × σ)}
    {R : γ → List ω → σ → Prop} {Q : ε → Prop} (g : γ → ε → γ)
    (hstep : ∀ e c a s os t, Q e → R c a s → step e s = some (os, t) →
      R (g c e) (a ++ os) t)
    (es : List ε) (hes : ∀ e ∈ es, Q e) {c : γ} {a os : List ω} {s t : σ}
    (hs : R c a s) (hrun : trace step es s = some (os, t)) :
    R (es.foldl g c) (a ++ os) t := by
  induction es generalizing c a s os with
  | nil =>
    obtain ⟨rfl, rfl⟩ := Prod.mk.inj (Option.some.inj hrun)
    rw [List.append_nil]
    exact hs
  | cons e es ih =>
    obtain ⟨os₁, m, os₂, hm, hrest, rfl⟩ := trace_cons_eq_some hrun
    rw [List.forall_mem_cons] at hes
    rw [← List.append_assoc]
    exact ih hes.2 (hstep e c a s os₁ m hes.1 hs hm) hrest

/-- If every event amounts to a batch of small steps and fixed outputs, so does a run. -/
theorem trace_flatMap {α : Type*} {step : ε → σ → Option (List ω × σ)}
    {step' : α → τ → Option τ} {f : ε → List α} {g : ε → List ω} (proj : σ → τ) (es : List ε)
    (hstep : ∀ e ∈ es, ∀ s, (step e s).map (Prod.map id proj) =
      (run step' (f e) (proj s)).map (Prod.mk (g e))) (s : σ) :
    (trace step es s).map (Prod.map id proj) =
      (run step' (es.flatMap f) (proj s)).map (Prod.mk (es.flatMap g)) := by
  induction es generalizing s with
  | nil => rfl
  | cons e es ih =>
    rw [List.forall_mem_cons] at hstep
    have hfirst := hstep.1 s
    rw [trace, List.flatMap_cons, List.flatMap_cons, run_append]
    cases h : step e s with
    | none =>
      rw [h, Option.map_none] at hfirst
      rw [Option.map_eq_none_iff.mp hfirst.symm]
      rfl
    | some p =>
      obtain ⟨os, m⟩ := p
      rw [h, Option.map_some] at hfirst
      obtain ⟨t, ht, heq⟩ := Option.map_eq_some_iff.mp hfirst.symm
      obtain ⟨hos, hm⟩ : g e = os ∧ t = proj m := Prod.mk.inj heq
      have hrest := congrArg (Option.map fun q => (os ++ q.1, q.2)) (ih hstep.2 m)
      rw [Option.map_map, Option.map_map] at hrest
      rw [ht, Option.bind_some, Option.bind_some, Option.map_map, hos, hm]
      exact hrest

theorem trace_forall_iff {step : ε → σ → Option (List ω × σ)} {P : ω → Prop} {Q : ε → Prop}
    (hstep : ∀ e s os t, step e s = some (os, t) → ((∀ o ∈ os, P o) ↔ Q e)) (es : List ε)
    {s t : σ} {os : List ω} (hrun : trace step es s = some (os, t)) :
    (∀ o ∈ os, P o) ↔ ∀ e ∈ es, Q e := by
  induction es generalizing s os with
  | nil =>
    obtain ⟨rfl, _⟩ := Prod.mk.inj (Option.some.inj hrun)
    simp
  | cons e es ih =>
    obtain ⟨os₁, m, os₂, hm, hrest, rfl⟩ := trace_cons_eq_some hrun
    rw [List.forall_mem_append, List.forall_mem_cons, hstep e s os₁ m hm, ih hrest]

end PartialRuns
