import BluePillJs.Library.PastTime
import Mathlib.Logic.Function.Basic

/-! Clients that take turns at a resource under a lock. The requests reach the resource one
after the other, and every client runs as if it had the resource for itself. -/

namespace SharedResource
open PartialRuns PastTime
variable {ι σ ρ α ω : Type*}

/-- A client makes one request at a time and goes on with the answer. -/
structure Client (σ ρ α ω : Type*) where
  request : σ → Option ρ
  resume : α → σ → Option (List ω × σ)

def Client.step [DecidableEq ρ] (c : Client σ ρ α ω) (x : ρ × α) (s : σ) :
    Option (List ω × σ) :=
  if c.request s = some x.1 then c.resume x.2 s else none

inductive Phase (α : Type*) where
  | outside
  | inside
  | waiting
  | answered (a : α)
  | released (a : α)

def Phase.Holding : Phase α → Prop
  | .inside | .waiting | .answered _ => True
  | .outside | .released _ => False

structure Pool (ι σ ρ α : Type*) where
  owner : Option ι
  inFlight : Option (ι × ρ)
  clients : ι → Option (σ × Phase α)

def Pool.start : Pool ι σ ρ α := ⟨none, none, fun _ => none⟩

inductive Event (ι σ α : Type*) where
  | join (i : ι) (s : σ)
  | acquire (i : ι)
  | send (i : ι)
  | answer (a : α)
  | release (i : ι)
  | resume (i : ι)

inductive Mark (ι ρ α ω : Type*) where
  | sent (i : ι) (q : ρ)
  | answered (i : ι) (a : α)
  | out (i : ι) (o : ω)

section
variable [DecidableEq ι]

def Pool.set (w : Pool ι σ ρ α) (i : ι) (s : σ) (p : Phase α) : Pool ι σ ρ α :=
  { w with clients := Function.update w.clients i (some (s, p)) }

theorem Pool.set_self (w : Pool ι σ ρ α) (i : ι) (s : σ) (p : Phase α) :
    (w.set i s p).clients i = some (s, p) := Function.update_self _ _ _

theorem Pool.set_other (w : Pool ι σ ρ α) {i j : ι} (h : j ≠ i) (s : σ) (p : Phase α) :
    (w.set i s p).clients j = w.clients j := Function.update_of_ne h _ _

/-- The resource keeps no more than the last request; who sends while another one is being
served would lose it. -/
def step (c : Client σ ρ α ω) :
    Event ι σ α → Pool ι σ ρ α → Option (List (Mark ι ρ α ω) × Pool ι σ ρ α)
  | .join i s, w =>
    match w.clients i with
    | none => some ([], w.set i s .outside)
    | some _ => none
  | .acquire i, w =>
    match w.clients i, w.owner with
    | some (s, .outside), none =>
      (c.request s).map fun _ => ([], { w.set i s .inside with owner := some i })
    | _, _ => none
  | .send i, w =>
    match w.clients i with
    | some (s, .inside) =>
      (c.request s).map fun q =>
        ([.sent i q], { w.set i s .waiting with inFlight := some (i, q) })
    | _ => none
  | .answer a, w =>
    w.inFlight.bind fun x =>
      match w.clients x.1 with
      | some (s, .waiting) =>
        some ([.answered x.1 a], { w.set x.1 s (.answered a) with inFlight := none })
      | _ => none
  | .release i, w =>
    match w.clients i with
    | some (s, .answered a) => some ([], { w.set i s (.released a) with owner := none })
    | _ => none
  | .resume i, w =>
    match w.clients i with
    | some (s, .released a) =>
      (c.resume a s).map fun r => (r.1.map (.out i), w.set i r.2 .outside)
    | _ => none

inductive Turn (c : Client σ ρ α ω) (w : Pool ι σ ρ α) :
    Event ι σ α → List (Mark ι ρ α ω) → Pool ι σ ρ α → Prop
  | join {i : ι} {s : σ} (hi : w.clients i = none) :
    Turn c w (.join i s) [] (w.set i s .outside)
  | acquire {i : ι} {s : σ} {q : ρ} (hi : w.clients i = some (s, .outside))
    (hfree : w.owner = none) (hq : c.request s = some q) :
    Turn c w (.acquire i) [] { w.set i s .inside with owner := some i }
  | send {i : ι} {s : σ} {q : ρ} (hi : w.clients i = some (s, .inside))
    (hq : c.request s = some q) :
    Turn c w (.send i) [.sent i q] { w.set i s .waiting with inFlight := some (i, q) }
  | answer {i : ι} {s : σ} {q : ρ} {a : α} (hi : w.clients i = some (s, .waiting))
    (hflight : w.inFlight = some (i, q)) :
    Turn c w (.answer a) [.answered i a] { w.set i s (.answered a) with inFlight := none }
  | release {i : ι} {s : σ} {a : α} (hi : w.clients i = some (s, .answered a)) :
    Turn c w (.release i) [] { w.set i s (.released a) with owner := none }
  | resume {i : ι} {s s' : σ} {a : α} {os : List ω} (hi : w.clients i = some (s, .released a))
    (hresume : c.resume a s = some (os, s')) :
    Turn c w (.resume i) (os.map (.out i)) (w.set i s' .outside)

variable {c : Client σ ρ α ω} {w w' : Pool ι σ ρ α} {ms : List (Mark ι ρ α ω)}

theorem step_iff {e : Event ι σ α} : step c e w = some (ms, w') ↔ Turn c w e ms w' := by
  constructor
  · intro h
    cases e with
    | join i s =>
      rw [step] at h
      split at h
      · next hi =>
        cases h
        exact .join hi
      · exact nomatch h
    | acquire i =>
      rw [step] at h
      split at h
      · next s hi hfree =>
        obtain ⟨q, hq, heq⟩ := Option.map_eq_some_iff.mp h
        cases heq
        exact .acquire hi hfree hq
      · exact nomatch h
    | send i =>
      rw [step] at h
      split at h
      · next s hi =>
        obtain ⟨q, hq, heq⟩ := Option.map_eq_some_iff.mp h
        cases heq
        exact .send hi hq
      · exact nomatch h
    | answer a =>
      obtain ⟨⟨i, q⟩, hflight, h⟩ := Option.bind_eq_some_iff.mp h
      split at h
      · next s hi =>
        cases h
        exact .answer hi hflight
      · exact nomatch h
    | release i =>
      rw [step] at h
      split at h
      · next s a hi =>
        cases h
        exact .release hi
      · exact nomatch h
    | resume i =>
      rw [step] at h
      split at h
      · next s a hi =>
        obtain ⟨⟨os, s'⟩, hresume, heq⟩ := Option.map_eq_some_iff.mp h
        cases heq
        exact .resume hi hresume
      · exact nomatch h
  · intro h
    cases h with
    | join hi => simp only [step, hi]
    | acquire hi hfree hq => simp only [step, hi, hfree, hq, Option.map_some]
    | send hi hq => simp only [step, hi, hq, Option.map_some]
    | answer hi hflight => simp only [step, hflight, Option.bind_some, hi]
    | release hi => simp only [step, hi]
    | resume hi hresume => simp only [step, hi, hresume, Option.map_some]

end

def Mark.onWire : Mark ι ρ α ω → Bool
  | .out _ _ => false
  | _ => true

def wire (marks : List (Mark ι ρ α ω)) : List (Mark ι ρ α ω) := marks.filter Mark.onWire

abbrev Exchange (ι ρ α : Type*) : Type _ := ι × ρ × α

def exchange (x : Exchange ι ρ α) : List (Mark ι ρ α ω) :=
  [.sent x.1 x.2.1, .answered x.1 x.2.2]

def pending : Option (ι × ρ) → List (Mark ι ρ α ω)
  | none => []
  | some (i, q) => [.sent i q]

def Serial (marks : List (Mark ι ρ α ω)) (done : List (Exchange ι ρ α))
    (inFlight : Option (ι × ρ)) : Prop :=
  wire marks = done.flatMap exchange ++ pending inFlight

theorem wire_append (ms ns : List (Mark ι ρ α ω)) : wire (ms ++ ns) = wire ms ++ wire ns :=
  List.filter_append ms ns

theorem wire_out (i : ι) (os : List ω) : wire (os.map (.out i) : List (Mark ι ρ α ω)) = [] := by
  apply List.filter_eq_nil_iff.mpr
  intro m hm
  obtain ⟨o, _, rfl⟩ := List.mem_map.mp hm
  exact Bool.false_ne_true

section
variable [DecidableEq ι]

def Mark.output? (i : ι) : Mark ι ρ α ω → Option ω
  | .out j o => if j = i then some o else none
  | _ => none

def outputs (i : ι) (marks : List (Mark ι ρ α ω)) : List ω := marks.filterMap (Mark.output? i)

def own (i : ι) (done : List (Exchange ι ρ α)) : List (ρ × α) :=
  done.filterMap fun x => if x.1 = i then some x.2 else none

def enrol (f : ι → Option σ) : Event ι σ α → ι → Option σ
  | .join i s => Function.update f i (some s)
  | _ => f

def joined (events : List (Event ι σ α)) : ι → Option σ := events.foldl enrol fun _ => none

theorem outputs_append (i : ι) (ms ns : List (Mark ι ρ α ω)) :
    outputs i (ms ++ ns) = outputs i ms ++ outputs i ns := List.filterMap_append

theorem outputs_out (i : ι) (os : List ω) :
    outputs i (os.map (.out i) : List (Mark ι ρ α ω)) = os := by
  unfold outputs
  rw [List.filterMap_map]
  convert List.filterMap_some
  exact if_pos rfl

theorem outputs_out_other {i j : ι} (hij : j ≠ i) (os : List ω) :
    outputs i (os.map (.out j) : List (Mark ι ρ α ω)) = [] := by
  apply List.filterMap_eq_nil_iff.mpr
  intro m hm
  obtain ⟨o, _, rfl⟩ := List.mem_map.mp hm
  exact if_neg hij

theorem own_append (i : ι) (xs ys : List (Exchange ι ρ α)) :
    own i (xs ++ ys) = own i xs ++ own i ys := List.filterMap_append

theorem own_self (i : ι) (q : ρ) (a : α) : own i [(i, q, a)] = [(q, a)] := by
  unfold own
  simp only [List.filterMap_cons, ↓reduceIte, List.filterMap_nil]

theorem own_other {i j : ι} (hij : j ≠ i) (q : ρ) (a : α) : own i [(j, q, a)] = [] := by
  unfold own
  simp only [List.filterMap_cons, if_neg hij, List.filterMap_nil]

/-! ## The invariant -/

variable [DecidableEq ρ]

/-- A client has used all of its exchanges except the one whose answer it still holds. -/
def Client.Used (c : Client σ ρ α ω) (s : σ) (used all : List (ρ × α)) : Phase α → Prop
  | .answered a | .released a => ∃ q, c.request s = some q ∧ all = used ++ [(q, a)]
  | .outside | .inside | .waiting => all = used

/-- The run of client `i` in the pool is a run on its own. -/
inductive Alone (c : Client σ ρ α ω) (i : ι) (done : List (Exchange ι ρ α))
    (marks : List (Mark ι ρ α ω)) : Option σ → Option (σ × Phase α) → Prop
  | absent (hdone : own i done = []) (hout : outputs i marks = []) : Alone c i done marks none none
  | present {s₀ s : σ} {p : Phase α} {used : List (ρ × α)}
    (hrun : trace c.step used s₀ = some (outputs i marks, s))
    (hused : c.Used s used (own i done) p) : Alone c i done marks (some s₀) (some (s, p))

structure Coherent (c : Client σ ρ α ω) (f : ι → Option σ) (done : List (Exchange ι ρ α))
    (marks : List (Mark ι ρ α ω)) (w : Pool ι σ ρ α) : Prop where
  owner : ∀ i, w.owner = some i ↔ ∃ s p, w.clients i = some (s, p) ∧ p.Holding
  inFlight : ∀ i q, w.inFlight = some (i, q) ↔
    ∃ s, w.clients i = some (s, .waiting) ∧ c.request s = some q
  asks : ∀ i s p, w.clients i = some (s, p) → p.Holding → ∃ q, c.request s = some q
  serial : Serial marks done w.inFlight
  alone : ∀ i, Alone c i done marks (f i) (w.clients i)

variable {c : Client σ ρ α ω} {f f' : ι → Option σ} {done xs : List (Exchange ι ρ α)}
  {marks ms : List (Mark ι ρ α ω)} {w w' : Pool ι σ ρ α} {i j : ι} {s : σ} {p : Phase α}

theorem coherent_start (c : Client σ ρ α ω) :
    Coherent c (fun _ => none) [] [] (Pool.start : Pool ι σ ρ α) where
  owner _ := iff_of_false nofun fun ⟨_, _, h, _⟩ => nomatch h
  inFlight _ _ := iff_of_false nofun fun ⟨_, h, _⟩ => nomatch h
  asks _ _ _ h := nomatch h
  serial := rfl
  alone _ := .absent rfl rfl

theorem Alone.other (hij : j ≠ i) (h : Alone c j done marks (f j) (w.clients j))
    (hf : f' j = f j) (hown : own j xs = []) (hout : outputs j ms = []) :
    Alone c j (done ++ xs) (marks ++ ms) (f' j) ((w.set i s p).clients j) := by
  rw [w.set_other hij, hf]
  generalize f j = fj at h
  generalize w.clients j = sj at h
  cases h with
  | absent hdone houts =>
    refine .absent ?_ ?_
    · rw [own_append, hdone, hown, List.append_nil]
    · rw [outputs_append, houts, hout, List.append_nil]
  | present hrun hused =>
    have hrun' := hrun
    have hused' := hused
    rw [← List.append_nil (outputs j marks), ← hout, ← outputs_append] at hrun'
    rw [← List.append_nil (own j done), ← hown, ← own_append] at hused'
    exact .present hrun' hused'

theorem Coherent.set (h : Coherent c f done marks w) (f' : ι → Option σ)
    (xs : List (Exchange ι ρ α)) (ms : List (Mark ι ρ α ω)) (i : ι) (s : σ) (p : Phase α)
    (o : Option ι) (x : Option (ι × ρ))
    (hf : ∀ j, j ≠ i → f' j = f j) (hown : ∀ j, j ≠ i → own j xs = [])
    (hout : ∀ j, j ≠ i → outputs j ms = [])
    (howner : (o = some i ↔ p.Holding) ∧ ∀ j, j ≠ i → (o = some j ↔ w.owner = some j))
    (hflight : (∀ q, x = some (i, q) ↔ p = .waiting ∧ c.request s = some q) ∧
      ∀ j, j ≠ i → ∀ q, x = some (j, q) ↔ w.inFlight = some (j, q))
    (hasks : p.Holding → ∃ q, c.request s = some q)
    (hserial : Serial (marks ++ ms) (done ++ xs) x)
    (halone : Alone c i (done ++ xs) (marks ++ ms) (f' i) (some (s, p))) :
    Coherent c f' (done ++ xs) (marks ++ ms) { w.set i s p with owner := o, inFlight := x } where
  owner j := by
    show o = some j ↔ ∃ s' p', (w.set i s p).clients j = some (s', p') ∧ p'.Holding
    by_cases hij : j = i
    · subst hij
      rw [w.set_self, howner.1]
      constructor
      · exact fun hp => ⟨s, p, rfl, hp⟩
      · rintro ⟨s', p', heq, hp⟩
        obtain ⟨rfl, rfl⟩ := Prod.mk.inj (Option.some.inj heq)
        exact hp
    · rw [w.set_other hij, howner.2 j hij]
      exact h.owner j
  inFlight j q := by
    show x = some (j, q) ↔
      ∃ s', (w.set i s p).clients j = some (s', .waiting) ∧ c.request s' = some q
    by_cases hij : j = i
    · subst hij
      rw [w.set_self, hflight.1]
      constructor
      · rintro ⟨rfl, hq⟩
        exact ⟨s, rfl, hq⟩
      · rintro ⟨s', heq, hq⟩
        obtain ⟨rfl, rfl⟩ := Prod.mk.inj (Option.some.inj heq)
        exact ⟨rfl, hq⟩
    · rw [w.set_other hij, hflight.2 j hij]
      exact h.inFlight j q
  asks j s' p' hj := by
    by_cases hij : j = i
    · subst hij
      obtain ⟨rfl, rfl⟩ := Prod.mk.inj (Option.some.inj ((w.set_self j s p).symm.trans hj))
      exact hasks
    · exact h.asks j s' p' ((w.set_other hij s p).symm.trans hj)
  serial := hserial
  alone j := by
    by_cases hij : j = i
    · subst hij
      show Alone c j _ _ (f' j) ((w.set j s p).clients j)
      rw [w.set_self]
      exact halone
    · exact (h.alone j).other hij (hf j hij) (hown j hij) (hout j hij)

theorem Coherent.inFlight_eq_none (h : Coherent c f done marks w)
    (hi : w.clients i = some (s, .inside)) : w.inFlight = none := by
  -- who waits for an answer holds the lock, and the lock has one owner
  have howner : w.owner = some i := (h.owner i).mpr ⟨s, .inside, hi, trivial⟩
  by_contra hne
  obtain ⟨⟨j, q⟩, hflight⟩ := Option.ne_none_iff_exists'.mp hne
  obtain ⟨s', hj, _⟩ := (h.inFlight j q).mp hflight
  have hother : w.owner = some j := (h.owner j).mpr ⟨s', .waiting, hj, trivial⟩
  obtain rfl := Option.some.inj (howner.symm.trans hother)
  exact nomatch hi.symm.trans hj

theorem Coherent.not_owner (h : Coherent c f done marks w) (hi : w.clients i = some (s, p))
    (hp : ¬p.Holding) : w.owner ≠ some i := by
  intro howner
  obtain ⟨s', p', heq, hp'⟩ := (h.owner i).mp howner
  obtain ⟨rfl, rfl⟩ := Prod.mk.inj (Option.some.inj (hi.symm.trans heq))
  exact hp hp'

theorem Coherent.not_inFlight (h : Coherent c f done marks w) (hi : w.clients i = some (s, p))
    (hp : p ≠ .waiting) (q : ρ) : w.inFlight ≠ some (i, q) := by
  intro hflight
  obtain ⟨s', heq, _⟩ := (h.inFlight i q).mp hflight
  obtain ⟨rfl, rfl⟩ := Prod.mk.inj (Option.some.inj (hi.symm.trans heq))
  exact hp rfl

theorem Coherent.alone_run (h : Coherent c f done marks w) (hi : w.clients i = some (s, p)) :
    ∃ s₀ used, f i = some s₀ ∧ trace c.step used s₀ = some (outputs i marks, s) ∧
      c.Used s used (own i done) p := by
  have halone := h.alone i
  rw [hi] at halone
  generalize hf : f i = fi at halone
  cases halone with
  | present hrun hused => exact ⟨_, _, rfl, hrun, hused⟩

theorem Coherent.join (h : Coherent c f done marks w) (hi : w.clients i = none) (s : σ) :
    Coherent c (Function.update f i (some s)) done marks (w.set i s .outside) := by
  have howner : w.owner ≠ some i := by
    intro heq
    obtain ⟨s', p', hsome, _⟩ := (h.owner i).mp heq
    exact nomatch hi.symm.trans hsome
  have hflight : ∀ q, w.inFlight ≠ some (i, q) := by
    intro q heq
    obtain ⟨s', hsome, _⟩ := (h.inFlight i q).mp heq
    exact nomatch hi.symm.trans hsome
  have halone : Alone c i done marks (some s) (some (s, .outside)) := by
    have habsent := h.alone i
    rw [hi] at habsent
    generalize f i = fi at habsent
    cases habsent with
    | absent hdone hout =>
      have hrun : trace c.step [] s = some (outputs i marks, s) := by
        rw [hout]
        rfl
      exact .present hrun hdone
  have hjoin := h.set (Function.update f i (some s)) [] [] i s .outside w.owner w.inFlight
    (fun j hij => Function.update_of_ne hij _ _) (fun _ _ => rfl) (fun _ _ => rfl)
    ⟨iff_of_false howner id, fun _ _ => Iff.rfl⟩
    ⟨fun q => iff_of_false (hflight q) nofun, fun _ _ _ => Iff.rfl⟩ False.elim
  simp only [List.append_nil, Function.update_self] at hjoin
  exact hjoin h.serial halone

theorem Coherent.acquire {q : ρ} (h : Coherent c f done marks w)
    (hi : w.clients i = some (s, .outside)) (hfree : w.owner = none) (hq : c.request s = some q) :
    Coherent c f done marks { w.set i s .inside with owner := some i } := by
  obtain ⟨s₀, used, hf, hrun, hused⟩ := h.alone_run hi
  have hother : ∀ j, j ≠ i → (some i = some j ↔ w.owner = some j) := by
    intro j hij
    rw [hfree]
    exact iff_of_false (fun heq => hij (Option.some.inj heq).symm) nofun
  have hacquire := h.set f [] [] i s .inside (some i) w.inFlight
    (fun _ _ => rfl) (fun _ _ => rfl) (fun _ _ => rfl)
    ⟨iff_of_true rfl trivial, hother⟩
    ⟨fun q => iff_of_false (h.not_inFlight hi nofun q) nofun, fun _ _ _ => Iff.rfl⟩
    (fun _ => ⟨q, hq⟩)
  simp only [List.append_nil] at hacquire
  rw [hf] at hacquire
  exact hacquire h.serial (.present hrun hused)

theorem Coherent.send {q : ρ} (h : Coherent c f done marks w)
    (hi : w.clients i = some (s, .inside)) (hq : c.request s = some q) :
    Coherent c f done (marks ++ [.sent i q])
      { w.set i s .waiting with inFlight := some (i, q) } := by
  obtain ⟨s₀, used, hf, hrun, hused⟩ := h.alone_run hi
  have hnone := h.inFlight_eq_none hi
  have hself : ∀ q', some (i, q) = some (i, q') ↔
      (Phase.waiting : Phase α) = .waiting ∧ c.request s = some q' := by
    intro q'
    rw [hq, eq_self, true_and, Option.some_inj, Option.some_inj, Prod.mk.injEq, eq_self, true_and]
  have hother : ∀ j, j ≠ i → ∀ q', some (i, q) = some (j, q') ↔ w.inFlight = some (j, q') := by
    intro j hij q'
    rw [hnone]
    exact iff_of_false (fun heq => hij (Prod.mk.inj (Option.some.inj heq)).1.symm) nofun
  have hserial : Serial (marks ++ [.sent i q]) done (some (i, q)) := by
    have hbefore := h.serial
    rw [hnone] at hbefore
    unfold Serial at hbefore ⊢
    rw [wire_append, hbefore, pending, List.append_nil]
    rfl
  have hsend := h.set f [] [.sent i q] i s .waiting w.owner (some (i, q))
    (fun _ _ => rfl) (fun _ _ => rfl) (fun _ _ => rfl)
    ⟨iff_of_true ((h.owner i).mpr ⟨s, .inside, hi, trivial⟩) trivial, fun _ _ => Iff.rfl⟩
    ⟨hself, hother⟩ (fun _ => ⟨q, hq⟩)
  simp only [List.append_nil] at hsend
  rw [hf] at hsend
  refine hsend hserial (.present ?_ hused)
  rw [outputs_append]
  exact (List.append_nil (outputs i marks)).symm ▸ hrun

theorem Coherent.answer {q : ρ} (h : Coherent c f done marks w)
    (hi : w.clients i = some (s, .waiting)) (hflight : w.inFlight = some (i, q)) (a : α) :
    Coherent c f (done ++ [(i, q, a)]) (marks ++ [.answered i a])
      { w.set i s (.answered a) with inFlight := none } := by
  obtain ⟨s₀, used, hf, hrun, hused⟩ := h.alone_run hi
  obtain ⟨s', hs', hq⟩ := (h.inFlight i q).mp hflight
  obtain rfl : s = s' := (Prod.mk.inj (Option.some.inj (hi.symm.trans hs'))).1
  have hother : ∀ j, j ≠ i → ∀ q', (none : Option (ι × ρ)) = some (j, q') ↔
      w.inFlight = some (j, q') := by
    intro j hij q'
    rw [hflight]
    exact iff_of_false nofun fun heq => hij (Prod.mk.inj (Option.some.inj heq)).1.symm
  have hserial : Serial (marks ++ [.answered i a]) (done ++ [(i, q, a)]) none := by
    have hbefore := h.serial
    rw [hflight] at hbefore
    unfold Serial at hbefore ⊢
    rw [wire_append, hbefore, List.flatMap_append, List.append_assoc, List.append_assoc]
    rfl
  -- the exchange is complete before the client has used it
  have hanswer := h.set f [(i, q, a)] [.answered i a] i s (.answered a) w.owner none
    (fun _ _ => rfl) (fun j hij => own_other hij.symm q a) (fun _ _ => rfl)
    ⟨iff_of_true ((h.owner i).mpr ⟨s, .waiting, hi, trivial⟩) trivial, fun _ _ => Iff.rfl⟩
    ⟨fun q => iff_of_false nofun nofun, hother⟩ (fun _ => ⟨q, hq⟩)
  rw [hf] at hanswer
  have hrun' : trace c.step used s₀ = some (outputs i (marks ++ [.answered i a]), s) := by
    rw [outputs_append]
    exact (List.append_nil (outputs i marks)).symm ▸ hrun
  have hown : own i (done ++ [(i, q, a)]) = used ++ [(q, a)] := by
    rw [own_append, own_self, show own i done = used from hused]
  exact hanswer hserial (.present hrun' ⟨q, hq, hown⟩)

theorem Coherent.release {a : α} (h : Coherent c f done marks w)
    (hi : w.clients i = some (s, .answered a)) :
    Coherent c f done marks { w.set i s (.released a) with owner := none } := by
  obtain ⟨s₀, used, hf, hrun, hused⟩ := h.alone_run hi
  have howner : w.owner = some i := (h.owner i).mpr ⟨s, .answered a, hi, trivial⟩
  have hother : ∀ j, j ≠ i → ((none : Option ι) = some j ↔ w.owner = some j) := by
    intro j hij
    rw [howner]
    exact iff_of_false nofun fun heq => hij (Option.some.inj heq).symm
  have hrelease := h.set f [] [] i s (.released a) none w.inFlight
    (fun _ _ => rfl) (fun _ _ => rfl) (fun _ _ => rfl)
    ⟨iff_of_false nofun id, hother⟩
    ⟨fun q => iff_of_false (h.not_inFlight hi nofun q) nofun, fun _ _ _ => Iff.rfl⟩ False.elim
  simp only [List.append_nil] at hrelease
  rw [hf] at hrelease
  exact hrelease h.serial (.present hrun hused)

theorem Coherent.resume {a : α} {s' : σ} {os : List ω} (h : Coherent c f done marks w)
    (hi : w.clients i = some (s, .released a)) (hresume : c.resume a s = some (os, s')) :
    Coherent c f done (marks ++ os.map (.out i)) (w.set i s' .outside) := by
  obtain ⟨s₀, used, hf, hrun, q, hq, hused⟩ := h.alone_run hi
  have hrun' : trace c.step (used ++ [(q, a)]) s₀ =
      some (outputs i (marks ++ os.map (.out i)), s') := by
    rw [trace_append, hrun, Option.bind_some, trace_singleton, Client.step, if_pos hq, hresume,
      outputs_append, outputs_out]
    rfl
  have hserial : Serial (marks ++ os.map (.out i)) done w.inFlight := by
    unfold Serial
    rw [wire_append, wire_out, List.append_nil]
    exact h.serial
  have hset := h.set f [] (os.map (.out i)) i s' .outside w.owner w.inFlight
    (fun _ _ => rfl) (fun _ _ => rfl) (fun j hij => outputs_out_other hij.symm os)
    ⟨iff_of_false (h.not_owner hi id) id, fun _ _ => Iff.rfl⟩
    ⟨fun q => iff_of_false (h.not_inFlight hi nofun q) nofun, fun _ _ _ => Iff.rfl⟩ False.elim
  simp only [List.append_nil] at hset
  rw [hf] at hset
  exact hset hserial (.present hrun' hused)

theorem coherent_step {e : Event ι σ α} (h : Coherent c f done marks w)
    (hstep : step c e w = some (ms, w')) :
    ∃ done', Coherent c (enrol f e) done' (marks ++ ms) w' := by
  cases step_iff.mp hstep with
  | join hi =>
    rw [List.append_nil]
    exact ⟨done, h.join hi _⟩
  | acquire hi hfree hq =>
    rw [List.append_nil]
    exact ⟨done, h.acquire hi hfree hq⟩
  | send hi hq => exact ⟨done, h.send hi hq⟩
  | answer hi hflight => exact ⟨_, h.answer hi hflight _⟩
  | release hi =>
    rw [List.append_nil]
    exact ⟨done, h.release hi⟩
  | resume hi hresume => exact ⟨done, h.resume hi hresume⟩

/-! ## Runs of the pool -/

theorem run_coherent (c : Client σ ρ α ω) {events : List (Event ι σ α)}
    (hrun : trace (step c) events .start = some (marks, w)) :
    ∃ done, Coherent c (joined events) done marks w :=
  trace_history (R := fun f ms w => ∃ done, Coherent c f done ms w) (Q := fun _ => True) enrol
    (fun _ _ _ _ _ _ _ ⟨_, h⟩ hstep => coherent_step h hstep) events (fun _ _ => trivial)
    ⟨[], coherent_start c⟩ hrun

omit [DecidableEq ρ] in
theorem mem_own {q : ρ} {a : α} : (q, a) ∈ own i done ↔ (i, q, a) ∈ done := by
  unfold own
  rw [List.mem_filterMap]
  constructor
  · rintro ⟨⟨j, x⟩, hmem, hx⟩
    split_ifs at hx with hij
    · obtain rfl : j = i := hij
      obtain rfl := Option.some.inj hx
      exact hmem
  · exact fun hmem => ⟨(i, q, a), hmem, if_pos rfl⟩

omit [DecidableEq ι] [DecidableEq ρ] in
theorem Serial.sent_mem {x : Option (ι × ρ)} (h : Serial marks done x) {q : ρ} {a : α}
    (hmem : (i, q, a) ∈ done) : .sent i q ∈ marks := by
  have hwire : Mark.sent i q ∈ wire marks := by
    rw [h]
    apply List.mem_append_left
    exact List.mem_flatMap.mpr ⟨_, hmem, List.mem_cons_self⟩
  exact List.mem_of_mem_filter hwire

omit [DecidableEq ι] [DecidableEq ρ] in
theorem Serial.mem_of_sent {x : Option (ι × ρ)} (h : Serial marks done x) {q : ρ}
    (hsent : .sent i q ∈ marks) : (∃ a, (i, q, a) ∈ done) ∨ x = some (i, q) := by
  have hwire : Mark.sent i q ∈ wire marks := List.mem_filter.mpr ⟨hsent, rfl⟩
  rw [h] at hwire
  rcases List.mem_append.mp hwire with hdone | hpending
  · obtain ⟨⟨j, q', a⟩, hmem, hx⟩ := List.mem_flatMap.mp hdone
    rcases List.mem_cons.mp hx with heq | hanswered
    · cases heq
      exact .inl ⟨a, hmem⟩
    · exact nomatch List.mem_singleton.mp hanswered
  · cases x with
    | none => exact absurd hpending List.not_mem_nil
    | some x =>
      cases List.mem_singleton.mp hpending
      exact .inr rfl

theorem Coherent.sent_request {q : ρ} (h : Coherent c f done marks w)
    (hsent : .sent i q ∈ marks) : ∃ s₀ used os s, f i = some s₀ ∧
      trace c.step used s₀ = some (os, s) ∧ (c.request s = some q ∨ ∃ a, (q, a) ∈ used) := by
  rcases h.serial.mem_of_sent hsent with ⟨a, hmem⟩ | hflight
  · have hown : (q, a) ∈ own i done := mem_own.mpr hmem
    cases hi : w.clients i with
    | none =>
      have habsent := h.alone i
      rw [hi] at habsent
      generalize f i = fi at habsent
      cases habsent with
      | absent hdone _ =>
        rw [hdone] at hown
        exact absurd hown List.not_mem_nil
    | some x =>
      obtain ⟨s, p⟩ := x
      obtain ⟨s₀, used, hf, hrun, hused⟩ := h.alone_run hi
      refine ⟨s₀, used, _, s, hf, hrun, ?_⟩
      have hlast : ∀ b, (∃ q', c.request s = some q' ∧ own i done = used ++ [(q', b)]) →
          c.request s = some q ∨ ∃ a, (q, a) ∈ used := by
        rintro b ⟨q', hq', heq⟩
        rw [heq] at hown
        rcases List.mem_append.mp hown with hold | hnew
        · exact .inr ⟨a, hold⟩
        · cases List.mem_singleton.mp hnew
          exact .inl hq'
      cases p with
      | answered b => exact hlast b hused
      | released b => exact hlast b hused
      | _ => exact .inr ⟨a, (show own i done = used from hused) ▸ hown⟩
  · obtain ⟨s, hi, hq⟩ := (h.inFlight i q).mp hflight
    obtain ⟨s₀, used, hf, hrun, _⟩ := h.alone_run hi
    exact ⟨s₀, used, _, s, hf, hrun, .inl hq⟩

def Client.Justifies (c : Client σ ρ α ω) (Init : σ → Prop) (P : List (ρ × α) → ω → Prop) : Prop :=
  ∀ s₀, Init s₀ → ∀ used os s x new t, trace c.step used s₀ = some (os, s) →
    c.step x s = some (new, t) → ∀ o ∈ new, P (used ++ [x]) o

def Justified (P : List (ρ × α) → ω → Prop) (before : List (Mark ι ρ α ω)) :
    Mark ι ρ α ω → Prop
  | .out i o => ∃ done x, Serial before done x ∧ P (own i done) o
  | _ => True

variable {Init : σ → Prop} {P : List (ρ × α) → ω → Prop}

theorem justified_resume {a : α} {s' : σ} {os : List ω} (hc : c.Justifies Init P)
    (hinit : ∀ i s, f i = some s → Init s) (h : Coherent c f done marks w)
    (hall : Always (Justified P) marks) (hi : w.clients i = some (s, .released a))
    (hresume : c.resume a s = some (os, s')) : Always (Justified P) (marks ++ os.map (.out i)) := by
  obtain ⟨s₀, used, hf, hrun, q, hq, hused⟩ := h.alone_run hi
  have hstep : c.step (q, a) s = some (os, s') := by
    rw [Client.step, if_pos hq, hresume]
  refine hall.append fun before m after hsplit => ?_
  -- the outputs of one step do not show on the wire
  have hquiet : wire before = [] := by
    have hnone : wire (os.map (.out i) : List (Mark ι ρ α ω)) = [] := wire_out i os
    rw [hsplit, wire_append] at hnone
    exact (List.append_eq_nil_iff.mp hnone).1
  have hm : m ∈ os.map (Mark.out i) := by
    rw [hsplit]
    exact List.mem_append_right _ List.mem_cons_self
  obtain ⟨o, ho, rfl⟩ := List.mem_map.mp hm
  refine ⟨done, w.inFlight, ?_, ?_⟩
  · unfold Serial
    rw [wire_append, hquiet, List.append_nil]
    exact h.serial
  · rw [hused]
    exact hc s₀ (hinit i s₀ hf) used _ s (q, a) os s' hrun hstep o ho

theorem justified_step {e : Event ι σ α} (hc : c.Justifies Init P)
    (hinit : ∀ i s, f i = some s → Init s) (h : Coherent c f done marks w)
    (hall : Always (Justified P) marks) (hstep : step c e w = some (ms, w')) :
    Always (Justified P) (marks ++ ms) := by
  cases step_iff.mp hstep with
  | join hi =>
    rw [List.append_nil]
    exact hall
  | acquire hi hfree hq =>
    rw [List.append_nil]
    exact hall
  | send hi hq => exact always_append_singleton.mpr ⟨hall, trivial⟩
  | answer hi hflight => exact always_append_singleton.mpr ⟨hall, trivial⟩
  | release hi =>
    rw [List.append_nil]
    exact hall
  | resume hi hresume => exact justified_resume hc hinit h hall hi hresume

theorem enrol_init {e : Event ι σ α} (he : ∀ i s, e = .join i s → Init s)
    (hinit : ∀ i s, f i = some s → Init s) : ∀ i s, enrol f e i = some s → Init s := by
  intro i s hs
  cases e with
  | join j s' =>
    rw [enrol, Function.update_apply] at hs
    split_ifs at hs with hij
    · exact Option.some.inj hs ▸ he j s' rfl
    · exact hinit i s hs
  | _ => exact hinit i s hs

theorem joined_init {events : List (Event ι σ α)} (hevents : ∀ i s, .join i s ∈ events → Init s) :
    ∀ i s, joined events i = some s → Init s := by
  have hfold : ∀ f : ι → Option σ, (∀ i s, f i = some s → Init s) →
      ∀ i s, events.foldl enrol f i = some s → Init s := by
    induction events with
    | nil => exact fun f hinit => hinit
    | cons e events ih =>
      intro f hinit
      apply ih (fun i s hmem => hevents i s (List.mem_cons_of_mem e hmem))
      apply enrol_init _ hinit
      rintro i s rfl
      exact hevents i s List.mem_cons_self
  exact hfold _ nofun

/-- What each client says is justified by its own exchanges, also among the others. -/
theorem run_justified (hc : c.Justifies Init P) {events : List (Event ι σ α)}
    (hevents : ∀ i s, .join i s ∈ events → Init s)
    (hrun : trace (step c) events .start = some (marks, w)) : Always (Justified P) marks := by
  have hinvariant := trace_history (Q := fun e => ∀ i s, e = Event.join i s → Init s)
    (R := fun f ms w => (∀ i s, f i = some s → Init s) ∧ (∃ done, Coherent c f done ms w) ∧
      Always (Justified P) ms) enrol ?_ events ?_ ⟨nofun, ⟨[], coherent_start c⟩, always_nil _⟩ hrun
  · exact hinvariant.2.2
  · rintro e f ms w os w' he ⟨hinit, ⟨done, h⟩, hall⟩ hstep
    exact ⟨enrol_init he hinit, coherent_step h hstep, justified_step hc hinit h hall hstep⟩
  · rintro e he i s rfl
    exact hevents i s he

/-! ## The lock comes free -/

def Frees (c : Client σ ρ α ω) (i : ι) (turns : List (Event ι σ α)) (w : Pool ι σ ρ α) : Prop :=
  ∃ ms w', trace (step c) turns w = some (ms, w') ∧ w'.owner = none ∧
    ∀ j, j ≠ i → w'.clients j = w.clients j

omit [DecidableEq ρ] in
theorem Frees.cons {e : Event ι σ α} {turns : List (Event ι σ α)}
    (hstep : step c e w = some (ms, w')) (hsame : ∀ j, j ≠ i → w'.clients j = w.clients j)
    (h : Frees c i turns w') : Frees c i (e :: turns) w := by
  obtain ⟨ms', w'', hrun, hfree, hrest⟩ := h
  refine ⟨ms ++ ms', w'', ?_, hfree, fun j hij => (hrest j hij).trans (hsame j hij)⟩
  rw [trace, hstep, Option.bind_some, hrun]
  rfl

omit [DecidableEq ρ] in
theorem frees_answered {a : α} (hi : w.clients i = some (s, .answered a)) :
    Frees c i [.release i] w :=
  .cons (step_iff.mpr (.release hi)) (fun _ hij => w.set_other hij s _)
    ⟨[], _, rfl, rfl, fun _ _ => rfl⟩

omit [DecidableEq ρ] in
theorem frees_waiting {q : ρ} (hi : w.clients i = some (s, .waiting))
    (hflight : w.inFlight = some (i, q)) (a : α) : Frees c i [.answer a, .release i] w :=
  .cons (step_iff.mpr (.answer hi hflight)) (fun _ hij => w.set_other hij s _)
    (frees_answered (w.set_self i s _))

omit [DecidableEq ρ] in
theorem frees_inside {q : ρ} (hi : w.clients i = some (s, .inside)) (hq : c.request s = some q)
    (a : α) : Frees c i [.send i, .answer a, .release i] w :=
  .cons (step_iff.mpr (.send hi hq)) (fun _ hij => w.set_other hij s _)
    (frees_waiting (w := { w.set i s .waiting with inFlight := some (i, q) })
      (w.set_self i s _) rfl a)

theorem Coherent.frees (h : Coherent c f done marks w) (howner : w.owner = some i) (a : α) :
    ∃ turns, turns <:+ [.send i, .answer a, .release i] ∧ Frees c i turns w := by
  obtain ⟨s, p, hi, hp⟩ := (h.owner i).mp howner
  cases p with
  | outside => exact hp.elim
  | inside =>
    obtain ⟨q, hq⟩ := h.asks i s _ hi hp
    exact ⟨_, List.suffix_rfl, frees_inside hi hq a⟩
  | waiting =>
    obtain ⟨q, hq⟩ := h.asks i s _ hi hp
    have hflight : w.inFlight = some (i, q) := (h.inFlight i q).mpr ⟨s, hi, hq⟩
    exact ⟨_, List.suffix_cons _ _, frees_waiting hi hflight a⟩
  | answered b => exact ⟨_, ⟨[.send i, .answer a], rfl⟩, frees_answered hi⟩
  | released a => exact hp.elim

/-- A client that wants the resource can have it as soon as the owner is through. -/
theorem Coherent.admits {q : ρ} (h : Coherent c f done marks w)
    (hj : w.clients j = some (s, .outside)) (hq : c.request s = some q) (a : α) :
    ∃ i turns, turns <:+ [.send i, .answer a, .release i] ∧
      ∃ ms w', trace (step c) (turns ++ [.acquire j]) w = some (ms, w') ∧ w'.owner = some j := by
  have hacquire : ∀ v : Pool ι σ ρ α, v.clients j = some (s, .outside) → v.owner = none →
      ∃ ms w', trace (step c) [.acquire j] v = some (ms, w') ∧ w'.owner = some j := by
    intro v hv hfree
    refine ⟨[], { v.set j s .inside with owner := some j }, ?_, rfl⟩
    rw [trace_singleton]
    exact step_iff.mpr (.acquire hv hfree hq)
  cases howner : w.owner with
  | none => exact ⟨j, [], List.nil_suffix, hacquire w hj howner⟩
  | some i =>
    have hij : j ≠ i := by
      rintro rfl
      exact h.not_owner hj id howner
    obtain ⟨turns, hturns, ms, w', hrun, hfree, hsame⟩ := h.frees howner a
    refine ⟨i, turns, hturns, (exists_trace_append hrun).mpr ?_⟩
    exact hacquire w' ((hsame j hij).trans hj) hfree

end

end SharedResource
