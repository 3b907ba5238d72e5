import Mathlib.Data.List.DropRight

/-! Trimming a list at both ends, and splitting it at a mark. -/

namespace Delimiters
variable {α : Type*} {p : α → Bool} {a : α} {as : List α}

def trim (p : α → Bool) (as : List α) : List α := (as.dropWhile p).rdropWhile p

theorem trim_append_singleton (ha : p a = true) (as : List α) : trim p (as ++ [a]) = trim p as := by
  unfold trim
  rw [List.dropWhile_append]
  split_ifs with h
  · rw [List.isEmpty_iff.mp h, List.dropWhile_cons_of_pos ha]
    rfl
  · exact List.rdropWhile_concat_pos p _ a ha

theorem rdropWhile_cons_of_neg (ha : p a = false) (as : List α) :
    (a :: as).rdropWhile p = a :: as.rdropWhile p := by
  induction as using List.reverseRecOn with
  | nil => simp [List.rdropWhile_singleton, ha]
  | append_singleton as b ih =>
    rw [← List.cons_append, List.rdropWhile_concat, List.rdropWhile_concat, ih]
    split_ifs <;> rfl

theorem trim_cons_of_neg (ha : p a = false) (as : List α) :
    trim p (a :: as) = a :: as.rdropWhile p := by
  rw [trim, List.dropWhile_cons_of_neg (by simp [ha]), rdropWhile_cons_of_neg ha]

theorem trim_sublist (p : α → Bool) (as : List α) : (trim p as).Sublist as :=
  (List.rdropWhile_prefix p _).sublist.trans (List.dropWhile_sublist p)

theorem head_of_trim_eq_self (h : trim p (a :: as) = a :: as) : p a = false := by
  by_contra ha
  rw [trim, List.dropWhile_cons_of_pos (Bool.not_eq_false _ ▸ ha)] at h
  have hlen := (trim_sublist p as).length_le
  rw [trim, h, List.length_cons] at hlen
  omega

theorem not_mem_trim (ha : p a = true) (h : a ∉ as.dropLast) : a ∉ trim p as := by
  rcases List.eq_nil_or_concat' as with rfl | ⟨init, b, rfl⟩
  · exact List.not_mem_nil
  · rw [List.dropLast_concat] at h
    rcases eq_or_ne a b with rfl | hab
    · rw [trim_append_singleton ha]
      exact fun hmem => h ((trim_sublist p init).subset hmem)
    · intro hmem
      have hmem' := (trim_sublist p _).subset hmem
      rcases List.mem_append.mp hmem' with hinit | hb
      · exact h hinit
      · exact hab (List.mem_singleton.mp hb)

theorem trim_eq_self (h : ∀ a ∈ as, p a = false) : trim p as = as := by
  cases as with
  | nil => rfl
  | cons a as =>
    rw [List.forall_mem_cons] at h
    rw [trim_cons_of_neg h.1, List.rdropWhile_eq_self_iff.mpr]
    intro hne
    rw [h.2 _ (List.getLast_mem hne)]
    exact Bool.false_ne_true

/-- The longest stretches without a delimiter. -/
def words (p : α → Bool) (as : List α) : List (List α) := (as.splitOnP p).filter fun w => !w.isEmpty

theorem words_of_forall (hne : as ≠ []) (h : ∀ a ∈ as, p a = false) : words p as = [as] := by
  rw [words, List.splitOnP_eq_singleton h]
  simp [hne]

theorem words_append_cons {b : α} (hne : as ≠ []) (h : ∀ a ∈ as, p a = false) (hb : p b = true)
    (bs : List α) : words p (as ++ b :: bs) = as :: words p bs := by
  rw [words, words, List.splitOnP_append_cons_of_forall_mem h b hb]
  simp [hne]

section SplitOn
variable [BEq α] [LawfulBEq α] {s : α}

theorem splitOn_cons_self (s : α) (as : List α) : (s :: as).splitOn s = [] :: as.splitOn s :=
  List.splitOn_append_cons_self_of_not_mem List.not_mem_nil as

theorem splitOn_cons_of_ne (h : a ≠ s) (as : List α) :
    ∃ e es, as.splitOn s = e :: es ∧ (a :: as).splitOn s = (a :: e) :: es := by
  obtain ⟨e, es, he⟩ := List.exists_cons_of_ne_nil (List.splitOn_ne_nil s as)
  refine ⟨e, es, he, ?_⟩
  rw [List.splitOn_cons_eq_if_modifyHead, if_neg (by simpa using h), he, List.modifyHead_cons]

theorem mem_of_mem_splitOn {e : List α} (he : e ∈ as.splitOn s) (ha : a ∈ e) : a ≠ s ∧ a ∈ as := by
  induction as generalizing e with
  | nil =>
    rw [List.splitOn_nil, List.mem_singleton] at he
    rw [he] at ha
    exact absurd ha List.not_mem_nil
  | cons b as ih =>
    rcases eq_or_ne b s with rfl | hb
    · rw [splitOn_cons_self] at he
      rcases List.mem_cons.mp he with rfl | he
      · exact absurd ha List.not_mem_nil
      · exact ⟨(ih he ha).1, List.mem_cons_of_mem b (ih he ha).2⟩
    · obtain ⟨f, fs, hsplit, hcons⟩ := splitOn_cons_of_ne hb as
      rw [hcons] at he
      have hsub : ∀ g ∈ f :: fs, a ∈ g → a ≠ s ∧ a ∈ b :: as := fun g hg hag =>
        ⟨(ih (hsplit ▸ hg) hag).1, List.mem_cons_of_mem b (ih (hsplit ▸ hg) hag).2⟩
      rcases List.mem_cons.mp he with rfl | he
      · rcases List.mem_cons.mp ha with rfl | ha
        · exact ⟨hb, List.mem_cons_self⟩
        · exact hsub f List.mem_cons_self ha
      · exact hsub e (List.mem_cons_of_mem f he) ha

theorem countP_flatten_splitOn (hs : p s = false) (as : List α) :
    (as.splitOn s).flatten.countP p = as.countP p := by
  induction as with
  | nil => simp
  | cons a as ih =>
    rcases eq_or_ne a s with rfl | ha
    · rw [splitOn_cons_self, List.flatten_cons, List.nil_append, ih,
        List.countP_cons_of_neg (by simp [hs])]
    · obtain ⟨e, es, hsplit, hcons⟩ := splitOn_cons_of_ne ha as
      rw [hsplit] at ih
      rw [hcons, List.flatten_cons, List.cons_append, List.countP_cons, List.countP_cons,
        ← List.flatten_cons, ih]

end SplitOn

end Delimiters
