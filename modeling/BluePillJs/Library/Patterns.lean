import Mathlib.Computability.Language

/-! Patterns without repetition, matched at the front of a list with backtracking, and the
languages they stand for. -/

inductive Pattern (α : Type*) where
  | eps
  | sat (p : α → Bool)
  | seq (r s : Pattern α)
  | alt (r s : Pattern α)

namespace Pattern
variable {α : Type*} {p : α → Bool} {r s : Pattern α} {as w t : List α} {n : ℕ}

def lang : Pattern α → Language α
  | eps => 1
  | sat p => {w | ∃ a, p a = true ∧ w = [a]}
  | seq r s => r.lang * s.lang
  | alt r s => r.lang + s.lang

/-- Everything that can follow a match at the front, in the order of backtracking. -/
def tails : Pattern α → List α → List (List α)
  | eps, as => [as]
  | sat _, [] => []
  | sat p, a :: as => if p a = true then [as] else []
  | seq r s, as => (r.tails as).flatMap s.tails
  | alt r s, as => r.tails as ++ s.tails as

def opt (r : Pattern α) : Pattern α := alt r eps

def times (n : ℕ) (r : Pattern α) : Pattern α := Nat.iterate (seq r) n eps

def lit [BEq α] (as : List α) : Pattern α := as.foldr (fun a r => seq (sat (· == a)) r) eps

def matchesFront (r : Pattern α) (as : List α) : Bool := !(r.tails as).isEmpty

theorem mem_tails_iff : t ∈ r.tails as ↔ ∃ w ∈ r.lang, as = w ++ t := by
  induction r generalizing as t with
  | eps =>
    simp [tails, lang, eq_comm]
  | sat p =>
    cases as with
    | nil =>
      refine iff_of_false List.not_mem_nil ?_
      rintro ⟨_, ⟨a, _, rfl⟩, h⟩
      exact nomatch h
    | cons a as =>
      constructor
      · intro h
        rw [tails] at h
        split_ifs at h with hp
        · exact ⟨[a], ⟨a, hp, rfl⟩, by rw [List.mem_singleton.mp h]; rfl⟩
        · exact absurd h List.not_mem_nil
      · rintro ⟨_, ⟨b, hp, rfl⟩, h⟩
        obtain ⟨rfl, rfl⟩ := List.cons.inj h
        rw [tails, if_pos hp]
        exact List.mem_singleton_self _
  | seq r s ihr ihs =>
    simp only [tails, List.mem_flatMap, ihr, ihs, lang, Language.mem_mul]
    constructor
    · rintro ⟨_, ⟨v, hv, rfl⟩, w, hw, rfl⟩
      exact ⟨v ++ w, ⟨v, hv, w, hw, rfl⟩, (List.append_assoc v w t).symm⟩
    · rintro ⟨_, ⟨v, hv, w, hw, rfl⟩, rfl⟩
      exact ⟨w ++ t, ⟨v, hv, List.append_assoc v w t⟩, w, hw, rfl⟩
  | alt r s ihr ihs =>
    simp only [tails, List.mem_append, ihr, ihs, lang, Language.mem_add, or_and_right, exists_or]

theorem matchesFront_iff : r.matchesFront as = true ↔ ∃ w ∈ r.lang, w <+: as := by
  rw [matchesFront, Bool.not_eq_true', List.isEmpty_eq_false_iff_exists_mem]
  constructor
  · rintro ⟨t, ht⟩
    obtain ⟨w, hw, h⟩ := mem_tails_iff.mp ht
    exact ⟨w, hw, t, h.symm⟩
  · rintro ⟨w, hw, t, h⟩
    exact ⟨t, mem_tails_iff.mpr ⟨w, hw, h.symm⟩⟩

theorem mem_lang_eps : w ∈ (eps : Pattern α).lang ↔ w = [] := Language.mem_one w

theorem mem_lang_seq : w ∈ (seq r s).lang ↔ ∃ u ∈ r.lang, ∃ v ∈ s.lang, u ++ v = w :=
  Language.mem_mul

theorem mem_lang_alt : w ∈ (alt r s).lang ↔ w ∈ r.lang ∨ w ∈ s.lang := Iff.rfl

theorem mem_lang_opt : w ∈ (opt r).lang ↔ w ∈ r.lang ∨ w = [] := by
  rw [opt, mem_lang_alt, mem_lang_eps]

theorem mem_lang_times_sat :
    w ∈ (times n (sat p)).lang ↔ w.length = n ∧ ∀ a ∈ w, p a = true := by
  induction n generalizing w with
  | zero =>
    rw [times, Function.iterate_zero_apply, mem_lang_eps, List.length_eq_zero_iff]
    exact ⟨fun h => ⟨h, fun a ha => by rw [h] at ha; exact absurd ha List.not_mem_nil⟩, And.left⟩
  | succ n ih =>
    rw [times, Function.iterate_succ_apply', mem_lang_seq]
    constructor
    · rintro ⟨_, ⟨a, ha, rfl⟩, v, hv, rfl⟩
      obtain ⟨hlen, hall⟩ := ih.mp hv
      exact ⟨congrArg Nat.succ hlen, List.forall_mem_cons.mpr ⟨ha, hall⟩⟩
    · rintro ⟨hlen, hall⟩
      obtain ⟨a, v, rfl⟩ := List.exists_cons_of_length_eq_add_one hlen
      rw [List.forall_mem_cons] at hall
      exact ⟨[a], ⟨a, hall.1, rfl⟩, v, ih.mpr ⟨Nat.succ.inj hlen, hall.2⟩, rfl⟩

theorem mem_lang_lit [BEq α] [LawfulBEq α] : w ∈ (lit as).lang ↔ w = as := by
  induction as generalizing w with
  | nil => exact mem_lang_eps
  | cons a as ih =>
    rw [lit, List.foldr_cons, mem_lang_seq]
    constructor
    · rintro ⟨_, ⟨b, hb, rfl⟩, v, hv, rfl⟩
      rw [eq_of_beq hb, ih.mp hv]
      rfl
    · rintro rfl
      exact ⟨[a], ⟨a, beq_self_eq_true a, rfl⟩, as, ih.mpr rfl, rfl⟩

end Pattern
