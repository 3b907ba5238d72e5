import Mathlib.Data.List.Basic

/-! A value in use, which a restart resets, and one place that keeps a value over it. -/

namespace Keeping
variable {α : Type*}

structure Keeper (α : Type*) where
  used : α
  kept : Option α

inductive Op (α : Type*) where
  | save
  | discard
  | load
  | replace (a : α)
  | restart

def Keeper.step (initial : α) : Op α → Keeper α → Keeper α
  | .save, s => { s with kept := some s.used }
  | .discard, s => { s with kept := none }
  | .load, s => { s with used := s.kept.getD s.used }
  | .replace a, s => { s with used := a }
  | .restart, s => { s with used := initial }

def Keeper.run (initial : α) (ops : List (Op α)) (s : Keeper α) : Keeper α :=
  ops.foldl (fun s op => s.step initial op) s

variable {initial : α} {s : Keeper α} {ops : List (Op α)}

@[simp] theorem Keeper.run_nil : s.run initial [] = s := rfl

@[simp] theorem Keeper.run_cons (op : Op α) :
    s.run initial (op :: ops) = (s.step initial op).run initial ops := rfl

@[simp] theorem Keeper.run_append (ops' : List (Op α)) :
    s.run initial (ops ++ ops') = (s.run initial ops).run initial ops' := List.foldl_append

structure Keeper.All (P : α → Prop) (s : Keeper α) : Prop where
  used : P s.used
  kept : ∀ a, s.kept = some a → P a

theorem Keeper.All.step {P : α → Prop} (h : s.All P) (hinitial : P initial) {op : Op α}
    (hop : ∀ a, op = .replace a → P a) : (s.step initial op).All P := by
  cases op with
  | save => exact ⟨h.used, fun a ha => Option.some.inj ha ▸ h.used⟩
  | discard => exact ⟨h.used, nofun⟩
  | load =>
    refine ⟨?_, h.kept⟩
    cases hkept : s.kept with
    | none => simpa [Keeper.step, hkept] using h.used
    | some a => simpa [Keeper.step, hkept] using h.kept a hkept
  | replace a => exact ⟨hop a rfl, h.kept⟩
  | restart => exact ⟨hinitial, h.kept⟩

/-- No value is made up: each one is the initial one or was put into use. -/
theorem Keeper.All.run {P : α → Prop} (h : s.All P) (hinitial : P initial)
    (hops : ∀ a, .replace a ∈ ops → P a) : (s.run initial ops).All P := by
  induction ops generalizing s with
  | nil => exact h
  | cons op ops ih =>
    have hfirst : (s.step initial op).All P :=
      h.step hinitial fun a ha => hops a (ha ▸ List.mem_cons_self)
    exact ih hfirst fun a ha => hops a (List.mem_cons_of_mem op ha)

def Op.Spares : Op α → Prop
  | .save | .discard => False
  | _ => True

theorem Keeper.kept_run (hops : ∀ op ∈ ops, op.Spares) : (s.run initial ops).kept = s.kept := by
  induction ops generalizing s with
  | nil => rfl
  | cons op ops ih =>
    rw [List.forall_mem_cons] at hops
    rw [Keeper.run_cons, ih hops.2]
    cases op with
    | save => exact hops.1.elim
    | discard => exact hops.1.elim
    | load => rfl
    | replace a => rfl
    | restart => rfl

/-- What was saved last comes back. -/
theorem Keeper.restart_load (hops : ∀ op ∈ ops, op.Spares) :
    (s.run initial (.save :: ops ++ [.restart, .load])).used = s.used := by
  rw [Keeper.run_append, Keeper.run_cons]
  simp only [Keeper.run_cons, Keeper.run_nil, Keeper.step, Keeper.kept_run hops, Option.getD_some]

end Keeping
