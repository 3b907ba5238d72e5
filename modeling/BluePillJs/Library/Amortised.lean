import BluePillJs.Library.PartialRuns
import Mathlib.Algebra.Order.Ring.Defs
import Mathlib.Data.Nat.Cast.Basic
import Mathlib.Tactic.Linarith

/-! Outputs of a run that are paid for out of a potential and of the way from one event to
the next. -/

namespace Amortised
open PartialRuns
variable {σ ε ω K : Type*} [CommRing K] [LinearOrder K] [IsStrictOrderedRing K]

def path (dist : ε → ε → K) : ε → List ε → K
  | _, [] => 0
  | e, f :: es => dist e f + path dist f es

/-- If every step pays for its outputs, so does a run. -/
theorem trace_paid {step : ε → σ → Option (List ω × σ)} {Q : ε → Prop} {Inv : σ → Prop}
    (price : K) (potential : ε → σ → K) (dist : ε → ε → K)
    (hstep : ∀ e f s, Q f → Inv s → ∃ os t, step f s = some (os, t) ∧ Inv t ∧
      price * os.length + potential f t ≤ potential e s + dist e f)
    (es : List ε) (hes : ∀ e ∈ es, Q e) (e : ε) {s : σ} (hs : Inv s) :
    ∃ os t, trace step es s = some (os, t) ∧ Inv t ∧ ∃ last,
      price * os.length + potential last t ≤ potential e s + path dist e es := by
  induction es generalizing e s with
  | nil =>
    refine ⟨[], s, rfl, hs, e, ?_⟩
    rw [List.length_nil, Nat.cast_zero, mul_zero, zero_add, path, add_zero]
  | cons f es ih =>
    rw [List.forall_mem_cons] at hes
    obtain ⟨os, t, hfirst, ht, hpaid⟩ := hstep e f s hes.1 hs
    obtain ⟨os', u, hrest, hu, last, hpaid'⟩ := ih hes.2 f ht
    refine ⟨os ++ os', u, ?_, hu, last, ?_⟩
    · rw [trace, hfirst, Option.bind_some, hrest]
      rfl
    · rw [List.length_append, Nat.cast_add, mul_add, path]
      linarith

end Amortised
