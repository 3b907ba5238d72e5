import BluePillJs.Library.Delimiters

/-! The message splitter of the host program. `split` hands the last entry of a piece to
`parse` at once, but keeps every other entry back until the next one arrives. -/

namespace BluePill.Parser
open Delimiters

def isSpace (c : Char) : Bool :=
  let n := c.toNat
  (9 ≤ n && n ≤ 13) || (28 ≤ n && n ≤ 32) || n == 0x85 || n == 0xA0 || n == 0x1680 ||
    (0x2000 ≤ n && n ≤ 0x200A) || n == 0x2028 || n == 0x2029 || n == 0x202F || n == 0x205F ||
    n == 0x3000

def strip (s : List Char) : List Char := trim isSpace s

def splitOnce (s : List Char) : List Char × List Char :=
  (s.takeWhile (· != '>'), (s.dropWhile (· != '>')).tail)

structure LoopResult where
  calls : List (List Char)
  buf : List Char
  raised : Bool

/-- The loop of `split`. An exception in `parse` leaves it at once. -/
def splitLoop (raises : List Char → Bool) : List (List Char) → List Char → LoopResult
  | [], buf => ⟨[], buf, false⟩
  | e :: es, buf =>
    if e = [] then splitLoop raises es buf
    else
      let buf := buf ++ '>' :: e
      let (start, rest) := splitOnce buf
      if rest = [] then splitLoop raises es buf
      else if raises start then ⟨[start], rest, true⟩
      else
        let r := splitLoop raises es rest
        ⟨start :: r.calls, r.buf, r.raised⟩

def split (raises : List Char → Bool) (data buf : List Char) : List (List Char) × List Char :=
  let entries := (strip data).splitOn '>'
  let r := splitLoop raises entries.dropLast buf
  if r.raised then (r.calls, r.buf) else (r.calls ++ [entries.getLastD []], r.buf)

def feed (raises : List Char → Bool) : List (List Char) → List Char → List (List Char) × List Char
  | [], buf => ([], buf)
  | data :: pieces, buf =>
    if strip data = [] then feed raises pieces buf
    else
      let (calls, buf) := split raises data buf
      let (others, buf) := feed raises pieces buf
      (calls ++ others, buf)

def heard (calls : List (List Char)) : List (List Char) := calls.filter fun data => data ≠ []

/-! ## Messages and the ways to cut them -/

structure Message where
  text : List Char
  ne_nil : text ≠ []
  no_mark : '>' ∉ text
  no_break : '\n' ∉ text
  stripped : strip text = text

def lineBreak (b : Bool) : List Char := if b then ['\n'] else []

def stream : List (Message × Bool) → List Char
  | [] => []
  | (m, b) :: items => '>' :: (m.text ++ (lineBreak b ++ stream items))

/-- The pieces `readline` returns: each ends at a line break or earlier. -/
structure Cut (text : List Char) (pieces : List (List Char)) : Prop where
  flatten : pieces.flatten = text
  ne_nil : ∀ p ∈ pieces, p ≠ []
  line : ∀ p ∈ pieces, '\n' ∉ p.dropLast

def closings (m : Message) : Bool → List (List Char × List (List Char))
  | true => [(m.text ++ ['\n'], []), (m.text, [['\n']])]
  | false => [(m.text, [])]

/-- Every message comes whole: after its mark in one piece, or as a piece behind a lone mark. -/
inductive Whole : List (Message × Bool) → List (List Char) → Prop where
  | nil : Whole [] []
  | joined {m : Message} {b : Bool} {items pieces} {t : List Char} {after : List (List Char)}
      (h : (t, after) ∈ closings m b) (rest : Whole items pieces) :
      Whole ((m, b) :: items) (('>' :: t) :: (after ++ pieces))
  | apart {m : Message} {b : Bool} {items pieces} {t : List Char} {after : List (List Char)}
      (h : (t, after) ∈ closings m b) (rest : Whole items pieces) :
      Whole ((m, b) :: items) (['>'] :: t :: (after ++ pieces))

def Clean (s : List Char) : Prop := '>' ∉ s ∧ '\n' ∉ s

theorem clean_nil : Clean [] := ⟨List.not_mem_nil, List.not_mem_nil⟩

theorem heard_cons {data : List Char} (h : data ≠ []) (calls : List (List Char)) :
    heard (data :: calls) = data :: heard calls :=
  List.filter_cons_of_pos (decide_eq_true h)

theorem heard_nil_cons (calls : List (List Char)) : heard ([] :: calls) = heard calls := rfl

theorem splitOnce_append {buf : List Char} (h : '>' ∉ buf) (e : List Char) :
    splitOnce (buf ++ '>' :: e) = (buf, e) := by
  have hne : ∀ c ∈ buf, (c != '>') = true := by
    intro c hc
    rw [bne_iff_ne]
    rintro rfl
    exact h hc
  simp [splitOnce, List.takeWhile_append_of_pos hne, List.dropWhile_append_of_pos hne]

variable {raises : List Char → Bool}

theorem splitLoop_nil_cons (es : List (List Char)) (buf : List Char) :
    splitLoop raises ([] :: es) buf = splitLoop raises es buf := by
  rw [splitLoop, if_pos rfl]

theorem splitLoop_cons {e buf : List Char} (he : e ≠ []) (hbuf : '>' ∉ buf)
    (es : List (List Char)) : splitLoop raises (e :: es) buf =
      if raises buf then ⟨[buf], e, true⟩
      else ⟨buf :: (splitLoop raises es e).calls, (splitLoop raises es e).buf,
        (splitLoop raises es e).raised⟩ := by
  simp only [splitLoop, if_neg he, splitOnce_append hbuf]

def letters (s : List Char) : ℕ := s.countP fun c => c != '>' && c != '\n'

theorem letters_append (s t : List Char) : letters (s ++ t) = letters s + letters t :=
  List.countP_append

theorem Clean.letters_eq {s : List Char} (h : Clean s) : letters s = s.length := by
  refine List.countP_eq_length.mpr fun c hc => ?_
  have hmark : c ≠ '>' := fun he => h.1 (he ▸ hc)
  have hbreak : c ≠ '\n' := fun he => h.2 (he ▸ hc)
  simp [hmark, hbreak]

/-- What the loop keeps: its buffer stays an entry, and no letter is added. -/
structure LoopBound (es : List (List Char)) (buf : List Char) (r : LoopResult) : Prop where
  clean : Clean r.buf
  letters_le : letters r.calls.flatten + letters r.buf ≤ letters buf + letters es.flatten
  ne_nil : (buf ≠ [] ∨ ∃ e ∈ es, e ≠ []) → r.buf ≠ []

theorem splitLoop_bound (raises : List Char → Bool) {es : List (List Char)} {buf : List Char} (hbuf : Clean buf)
    (hes : ∀ e ∈ es, Clean e) : LoopBound es buf (splitLoop raises es buf) := by
  induction es generalizing buf with
  | nil => exact ⟨hbuf, by simp [splitLoop, letters], fun h => h.resolve_right (by simp)⟩
  | cons e es ih =>
    rw [List.forall_mem_cons] at hes
    rcases eq_or_ne e [] with rfl | he
    · rw [splitLoop_nil_cons]
      have h := ih hbuf hes.2
      exact ⟨h.clean, h.letters_le, fun hne => h.ne_nil (by simpa using hne)⟩
    · rw [splitLoop_cons he hbuf.1]
      have h := ih hes.1 hes.2
      split_ifs
      · refine ⟨hes.1, ?_, fun _ => he⟩
        simp only [List.flatten_cons, List.flatten_nil, List.append_nil, letters_append]
        omega
      · refine ⟨h.clean, ?_, fun _ => h.ne_nil (.inl he)⟩
        have hle := h.letters_le
        simp only [List.flatten_cons, letters_append]
        omega

variable {data buf : List Char}

theorem isSpace_break : isSpace '\n' = true := by decide

theorem isSpace_mark : isSpace '>' = false := by decide

theorem entries_clean (hline : '\n' ∉ data.dropLast) :
    ∀ e ∈ (strip data).splitOn '>', Clean e := by
  intro e he
  constructor
  · exact fun hmem => (mem_of_mem_splitOn he hmem).1 rfl
  · exact fun hmem => not_mem_trim isSpace_break hline (mem_of_mem_splitOn he hmem).2

theorem dropLast_append_getLastD {α : Type*} {xs : List α} (h : xs ≠ []) (d : α) :
    xs.dropLast ++ [xs.getLastD d] = xs := by
  rw [List.getLastD_eq_getLast?, List.getLast?_eq_some_getLast h, Option.getD_some,
    List.dropLast_append_getLast h]

theorem letters_entries_le (data : List Char) :
    letters ((strip data).splitOn '>').dropLast.flatten +
      letters (((strip data).splitOn '>').getLastD []) ≤ letters data := by
  have hsub : letters (strip data) ≤ letters data := (trim_sublist isSpace data).countP_le
  have hsplit := countP_flatten_splitOn (s := '>') (p := fun c => c != '>' && c != '\n') rfl
    (strip data)
  rw [← dropLast_append_getLastD (List.splitOn_ne_nil '>' (strip data)) [], List.flatten_append,
    List.flatten_singleton, List.countP_append] at hsplit
  exact hsplit.trans_le hsub

structure SplitBound (data buf : List Char) (r : List (List Char) × List Char) : Prop where
  clean : Clean r.2
  letters_le : letters r.1.flatten + letters r.2 ≤ letters buf + letters data
  ne_nil : buf ≠ [] → r.2 ≠ []

theorem split_bound (raises : List Char → Bool) (hbuf : Clean buf) (hline : '\n' ∉ data.dropLast) :
    SplitBound data buf (split raises data buf) := by
  have hes : ∀ e ∈ ((strip data).splitOn '>').dropLast, Clean e := fun e he =>
    entries_clean hline e (List.dropLast_subset _ he)
  have h := splitLoop_bound raises hbuf hes
  have hle := h.letters_le
  have hentries := letters_entries_le data
  unfold split
  simp only
  split_ifs
  · refine ⟨h.clean, ?_, fun hne => h.ne_nil (.inl hne)⟩
    simp only
    omega
  · refine ⟨h.clean, ?_, fun hne => h.ne_nil (.inl hne)⟩
    rw [List.flatten_append, List.flatten_singleton, letters_append]
    simp only
    omega

theorem split_snd (data buf : List Char) : (split raises data buf).2 =
    (splitLoop raises ((strip data).splitOn '>').dropLast buf).buf := by
  unfold split
  simp only
  split_ifs <;> rfl

theorem split_mark (h : strip data = data.rdropWhile isSpace) (buf : List Char) :
    split raises ('>' :: data) buf = split raises data buf := by
  have hentries : (strip ('>' :: data)).splitOn '>' = [] :: (strip data).splitOn '>' := by
    rw [h, strip, trim_cons_of_neg isSpace_mark, splitOn_cons_self]
  obtain ⟨e, es, he⟩ := List.exists_cons_of_ne_nil (List.splitOn_ne_nil '>' (strip data))
  simp only [split, hentries, he, List.dropLast_cons_of_ne_nil (List.cons_ne_nil e es),
    splitLoop_nil_cons]
  rfl

theorem strip_of_head {c : Char} (hc : isSpace c = false) (s : List Char) :
    strip (c :: s) = (c :: s).rdropWhile isSpace := by
  rw [strip, trim_cons_of_neg hc, rdropWhile_cons_of_neg hc]

theorem split_of_no_mark (h : '>' ∉ strip data) (buf : List Char) :
    split raises data buf = ([strip data], buf) := by
  rw [split, List.splitOn_eq_singleton h]
  rfl

theorem no_mark_of_split_buf {c : Char} {s : List Char} (hc : isSpace c = false) (hmark : c ≠ '>')
    (hline : '\n' ∉ (c :: s).dropLast) (hbuf : (split raises (c :: s) []).2 = []) :
    '>' ∉ strip (c :: s) := by
  intro hmem
  obtain ⟨start, rest, hstrip, hstart⟩ := List.eq_append_cons_of_mem hmem
  have hne : start ≠ [] := by
    rintro rfl
    rw [strip, trim_cons_of_neg hc] at hstrip
    exact hmark (List.cons.inj hstrip).1
  have hentries : ((strip (c :: s)).splitOn '>').dropLast =
      start :: (rest.splitOn '>').dropLast := by
    rw [hstrip, List.splitOn_append_cons_self_of_not_mem hstart,
      List.dropLast_cons_of_ne_nil (List.splitOn_ne_nil '>' rest)]
  have hloop := splitLoop_bound raises clean_nil fun e he =>
    entries_clean hline e (List.dropLast_subset _ he)
  rw [split_snd] at hbuf
  exact hloop.ne_nil (.inr ⟨start, hentries ▸ List.mem_cons_self, hne⟩) hbuf

theorem feed_cons (h : strip data ≠ []) (pieces : List (List Char)) (buf : List Char) :
    feed raises (data :: pieces) buf =
      ((split raises data buf).1 ++ (feed raises pieces (split raises data buf).2).1,
        (feed raises pieces (split raises data buf).2).2) := by
  rw [feed, if_neg h]

theorem feed_blank (h : strip data = []) (pieces : List (List Char)) (buf : List Char) :
    feed raises (data :: pieces) buf = feed raises pieces buf := by
  rw [feed, if_pos h]

theorem feed_bound (raises : List Char → Bool) {pieces : List (List Char)} (hbuf : Clean buf)
    (hline : ∀ p ∈ pieces, '\n' ∉ p.dropLast) :
    SplitBound pieces.flatten buf (feed raises pieces buf) := by
  induction pieces generalizing buf with
  | nil => exact ⟨hbuf, by simp [feed, letters], id⟩
  | cons data pieces ih =>
    rw [List.forall_mem_cons] at hline
    rw [List.flatten_cons]
    by_cases hblank : strip data = []
    · rw [feed_blank hblank]
      have h := ih hbuf hline.2
      refine ⟨h.clean, ?_, h.ne_nil⟩
      have hle := h.letters_le
      rw [letters_append]
      omega
    · rw [feed_cons hblank]
      have hsplit := split_bound raises hbuf hline.1
      have h := ih hsplit.clean hline.2
      refine ⟨h.clean, ?_, fun hne => h.ne_nil (hsplit.ne_nil hne)⟩
      have hle := hsplit.letters_le
      have hle' := h.letters_le
      simp only [List.flatten_append, letters_append]
      omega

/-- When no letter is lost, nothing was ever kept back. -/
theorem buf_nil_of_letters (raises : List Char → Bool) {pieces : List (List Char)} (hbuf : Clean buf)
    (hline : ∀ p ∈ pieces, '\n' ∉ p.dropLast)
    (hall : letters buf + letters pieces.flatten ≤ letters (feed raises pieces buf).1.flatten) :
    buf = [] := by
  have h := feed_bound raises hbuf hline
  have hle := h.letters_le
  have hzero : (feed raises pieces buf).2.length = 0 := by
    rw [← h.clean.letters_eq]
    omega
  by_contra hne
  exact h.ne_nil hne (List.length_eq_zero_iff.mp hzero)

/-! ## Whole messages -/

variable {m : Message} {b : Bool} {items : List (Message × Bool)} {t : List Char}
  {after pieces : List (List Char)}

theorem Message.exists_head (m : Message) :
    ∃ c s, m.text = c :: s ∧ isSpace c = false ∧ c ≠ '>' := by
  obtain ⟨c, s, h⟩ := List.exists_cons_of_ne_nil m.ne_nil
  have hstrip := m.stripped
  have hmark := m.no_mark
  rw [h] at hstrip hmark
  exact ⟨c, s, h, head_of_trim_eq_self hstrip, fun hc => hmark (hc ▸ List.mem_cons_self)⟩

theorem closings_text (h : (t, after) ∈ closings m b) :
    (t = m.text ∨ t = m.text ++ ['\n']) ∧ (after = [] ∨ after = [['\n']]) := by
  cases b with
  | false =>
    obtain ⟨rfl, rfl⟩ := Prod.mk.inj (List.mem_singleton.mp h)
    exact ⟨.inl rfl, .inl rfl⟩
  | true =>
    rcases List.mem_cons.mp h with heq | hmem
    · obtain ⟨rfl, rfl⟩ := Prod.mk.inj heq
      exact ⟨.inr rfl, .inl rfl⟩
    · obtain ⟨rfl, rfl⟩ := Prod.mk.inj (List.mem_singleton.mp hmem)
      exact ⟨.inl rfl, .inr rfl⟩

theorem strip_closing (h : (t, after) ∈ closings m b) :
    strip t = m.text ∧ strip t = t.rdropWhile isSpace := by
  obtain ⟨c, s, hm, hc, _⟩ := m.exists_head
  rcases (closings_text h).1 with rfl | rfl
  · refine ⟨m.stripped, ?_⟩
    rw [hm]
    exact strip_of_head hc s
  · refine ⟨(trim_append_singleton isSpace_break m.text).trans m.stripped, ?_⟩
    rw [hm]
    exact strip_of_head hc (s ++ ['\n'])

theorem split_closing (h : (t, after) ∈ closings m b) (buf : List Char) :
    split raises t buf = ([m.text], buf) := by
  have hstrip := (strip_closing h).1
  have hmark : '>' ∉ strip t := hstrip ▸ m.no_mark
  rw [split_of_no_mark hmark, hstrip]

theorem feed_after (h : (t, after) ∈ closings m b) (pieces : List (List Char)) (buf : List Char) :
    feed raises (after ++ pieces) buf = feed raises pieces buf := by
  rcases (closings_text h).2 with rfl | rfl
  · rfl
  · exact feed_blank (by decide) pieces buf

theorem strip_mark_ne_nil (s : List Char) : strip ('>' :: s) ≠ [] := by
  rw [strip, trim_cons_of_neg isSpace_mark]
  exact List.cons_ne_nil _ _

theorem feed_mark (pieces : List (List Char)) (buf : List Char) :
    feed raises (['>'] :: pieces) buf =
      ([] :: (feed raises pieces buf).1, (feed raises pieces buf).2) := by
  have hsplit : split raises ['>'] buf = ([[]], buf) := by
    rw [split_mark rfl, split_of_no_mark (by decide)]
    rfl
  rw [feed_cons (strip_mark_ne_nil []), hsplit]
  rfl

theorem feed_whole (h : Whole items pieces) :
    heard (feed raises pieces []).1 = items.map fun item => item.1.text := by
  induction h with
  | nil => rfl
  | @joined m b items pieces t after h _ ih =>
    have hsplit : split raises ('>' :: t) [] = ([m.text], []) :=
      (split_mark (strip_closing h).2 []).trans (split_closing h [])
    rw [feed_cons (strip_mark_ne_nil t), hsplit, feed_after h, List.map_cons, ← ih]
    exact heard_cons m.ne_nil _
  | @apart m b items pieces t after h _ ih =>
    have hne : strip t ≠ [] := (strip_closing h).1 ▸ m.ne_nil
    rw [feed_mark, feed_cons hne, split_closing h, feed_after h, heard_nil_cons, List.map_cons,
      ← ih]
    exact heard_cons m.ne_nil _

/-! ## Only whole messages -/

theorem eq_nil_of_not_mem_dropLast {α : Type*} {a : α} (as : List α) {bs : List α}
    (h : a ∉ (as ++ a :: bs).dropLast) : bs = [] := by
  by_contra hne
  rw [List.dropLast_append_of_ne_nil (List.cons_ne_nil a bs), List.dropLast_cons_of_ne_nil hne] at h
  exact h (List.mem_append_right as List.mem_cons_self)

theorem strip_of_message {rest tail : List Char} (hflat : t ++ rest = m.text ++ tail)
    (ht : t ≠ []) : ∃ c s, t = c :: s ∧ isSpace c = false ∧ c ≠ '>' ∧ strip t ≠ [] ∧
      strip t = t.rdropWhile isSpace := by
  obtain ⟨c, s, hm, hc, hmark⟩ := m.exists_head
  obtain ⟨c', s', rfl⟩ := List.exists_cons_of_ne_nil ht
  have hhead : c' = c := by
    rw [hm] at hflat
    exact (List.cons.inj hflat).1
  subst hhead
  refine ⟨c', s', rfl, hc, hmark, ?_, strip_of_head hc s'⟩
  rw [strip, trim_cons_of_neg hc]
  exact List.cons_ne_nil _ _

theorem exists_closing {ps : List (List Char)} (hflat : t ++ ps.flatten =
      m.text ++ (lineBreak b ++ stream items)) (hstrip : strip t = m.text)
    (hline : '\n' ∉ t.dropLast) (hps : ∀ p ∈ ps, p ≠ []) (hlines : ∀ p ∈ ps, '\n' ∉ p.dropLast) :
    ∃ after pieces, (t, after) ∈ closings m b ∧ ps = after ++ pieces ∧
      pieces.flatten = stream items := by
  have ht : t ≠ [] := by
    rintro rfl
    exact m.ne_nil hstrip.symm
  obtain ⟨_, _, _, _, _, _, htrim⟩ := strip_of_message hflat ht
  obtain ⟨z, hz, hblank⟩ : ∃ z, t = m.text ++ z ∧ ∀ d ∈ z, isSpace d = true := by
    refine ⟨t.rtakeWhile isSpace, ?_, fun d hd => List.mem_rtakeWhile_imp hd⟩
    rw [← hstrip, htrim, List.rdropWhile_append_rtakeWhile]
  rw [hz, List.append_assoc, List.append_cancel_left_eq] at hflat
  rw [hz] at hline ⊢
  cases z with
  | nil =>
    rw [List.append_nil]
    cases b with
    | false => exact ⟨[], ps, List.mem_singleton_self _, rfl, hflat⟩
    | true =>
      cases ps with
      | nil => exact nomatch hflat
      | cons p ps =>
        obtain ⟨d, p', rfl⟩ := List.exists_cons_of_ne_nil (hps p List.mem_cons_self)
        obtain ⟨rfl, hrest⟩ := List.cons.inj hflat
        have hp' : p' = [] := eq_nil_of_not_mem_dropLast [] (hlines _ List.mem_cons_self)
        subst hp'
        exact ⟨[['\n']], ps, List.mem_cons_of_mem _ List.mem_cons_self, rfl, hrest⟩
  | cons d z =>
    cases b with
    | false =>
      cases items with
      | nil => exact nomatch hflat
      | cons item items =>
        obtain ⟨rfl, _⟩ := List.cons.inj hflat
        exact absurd (hblank '>' List.mem_cons_self) (by decide)
    | true =>
      obtain ⟨rfl, hrest⟩ := List.cons.inj hflat
      have hz' : z = [] := eq_nil_of_not_mem_dropLast _ hline
      subst hz'
      exact ⟨[], ps, List.mem_cons_self, rfl, hrest⟩

theorem letters_mark (s : List Char) : letters ('>' :: s) = letters s :=
  List.countP_cons_of_neg (by decide)

theorem letters_stream (items : List (Message × Bool)) :
    letters (stream items) = letters (items.map fun item => item.1.text).flatten := by
  induction items with
  | nil => rfl
  | cons item items ih =>
    have hbreak : letters (lineBreak item.2) = 0 := by cases item.2 <;> rfl
    rw [stream, letters_mark, letters_append, letters_append, hbreak, Nat.zero_add, ih, List.map_cons,
      List.flatten_cons, letters_append]

theorem letters_calls {calls : List (List Char)}
    (hcalls : heard calls = items.map fun item => item.1.text) :
    letters calls.flatten = letters (stream items) := by
  rw [letters_stream, ← hcalls, heard, List.flatten_filter_ne_nil]

theorem split_buf_nil {ps : List (List Char)} (hstrip : strip data ≠ [])
    (hline : ∀ p ∈ data :: ps, '\n' ∉ p.dropLast)
    (hall : letters (data :: ps).flatten ≤ letters (feed raises (data :: ps) []).1.flatten) :
    (split raises data []).2 = [] := by
  rw [List.forall_mem_cons] at hline
  have hsplit := split_bound raises clean_nil hline.1
  have hle := hsplit.letters_le
  have hnil : letters [] = 0 := rfl
  apply buf_nil_of_letters raises hsplit.clean hline.2
  rw [feed_cons hstrip, List.flatten_append, letters_append, List.flatten_cons,
    letters_append] at hall
  omega

theorem message_step {ps : List (List Char)} (hcut : Cut (m.text ++ (lineBreak b ++ stream items))
      (t :: ps))
    (hcalls : heard (feed raises (t :: ps) []).1 =
      ((m, b) :: items).map fun item => item.1.text) :
    ∃ after pieces, (t, after) ∈ closings m b ∧ ps = after ++ pieces ∧
      Cut (stream items) pieces ∧
      heard (feed raises pieces []).1 = items.map fun item => item.1.text := by
  have hletters : letters (t :: ps).flatten ≤ letters (feed raises (t :: ps) []).1.flatten := by
    rw [letters_calls hcalls, hcut.flatten, stream, letters_mark]
  obtain ⟨hflat, hne, hline⟩ := hcut
  rw [List.flatten_cons] at hflat
  obtain ⟨c, s, ht, hc, hmark, hstrip, _⟩ := strip_of_message hflat (hne t List.mem_cons_self)
  have hbuf := split_buf_nil hstrip hline hletters
  rw [List.forall_mem_cons] at hne hline
  have hone : '>' ∉ strip t := by
    rw [ht] at hbuf hline ⊢
    exact no_mark_of_split_buf hc hmark hline.1 hbuf
  rw [feed_cons hstrip, split_of_no_mark hone, List.singleton_append, heard_cons hstrip,
    List.map_cons] at hcalls
  obtain ⟨hfirst, hothers⟩ := List.cons.inj hcalls
  obtain ⟨after, pieces, hclosing, rfl, hrest⟩ :=
    exists_closing hflat hfirst hline.1 hne.2 hline.2
  refine ⟨after, pieces, hclosing, rfl, ⟨hrest, ?_, ?_⟩, ?_⟩
  · exact fun p hp => hne.2 p (List.mem_append_right after hp)
  · exact fun p hp => hline.2 p (List.mem_append_right after hp)
  · rwa [feed_after hclosing] at hothers

theorem feed_joined (ht : strip t ≠ []) (h : strip t = t.rdropWhile isSpace)
    (ps : List (List Char)) (buf : List Char) :
    feed raises (('>' :: t) :: ps) buf = feed raises (t :: ps) buf := by
  rw [feed_cons (strip_mark_ne_nil t), split_mark h, feed_cons ht]

theorem Cut.mark {s : List Char} (h : Cut ('>' :: s) pieces) :
    (∃ ps, pieces = ['>'] :: ps ∧ Cut s ps) ∨
      ∃ t ps, pieces = ('>' :: t) :: ps ∧ t ≠ [] ∧ Cut s (t :: ps) := by
  obtain ⟨hflat, hne, hline⟩ := h
  cases pieces with
  | nil => exact nomatch hflat
  | cons p ps =>
    rw [List.forall_mem_cons] at hne hline
    obtain ⟨d, t, rfl⟩ := List.exists_cons_of_ne_nil hne.1
    rw [List.flatten_cons] at hflat
    obtain ⟨rfl, hrest⟩ := List.cons.inj hflat
    rcases eq_or_ne t [] with rfl | ht
    · exact .inl ⟨ps, rfl, hrest, hne.2, hline.2⟩
    · have hbreak : '\n' ∉ t.dropLast := by
        intro hmem
        apply hline.1
        rw [List.dropLast_cons_of_ne_nil ht]
        exact List.mem_cons_of_mem _ hmem
      have hne' : ∀ q ∈ t :: ps, q ≠ [] := List.forall_mem_cons.mpr ⟨ht, hne.2⟩
      have hline' : ∀ q ∈ t :: ps, '\n' ∉ q.dropLast := List.forall_mem_cons.mpr ⟨hbreak, hline.2⟩
      exact .inr ⟨t, ps, rfl, ht, hrest, hne', hline'⟩

theorem whole_of_calls (hcut : Cut (stream items) pieces)
    (hcalls : heard (feed raises pieces []).1 = items.map fun item => item.1.text) :
    Whole items pieces := by
  induction items generalizing pieces with
  | nil =>
    cases pieces with
    | nil => exact .nil
    | cons p ps =>
      have hnil := (List.append_eq_nil_iff.mp hcut.flatten).1
      exact absurd hnil (hcut.ne_nil p List.mem_cons_self)
  | cons item items ih =>
    obtain ⟨m, b⟩ := item
    rcases hcut.mark with ⟨ps, rfl, hrest⟩ | ⟨t, ps, rfl, ht, hrest⟩
    · rw [feed_mark, heard_nil_cons] at hcalls
      cases ps with
      | nil => exact absurd (List.append_eq_nil_iff.mp hrest.flatten.symm).1 m.ne_nil
      | cons t ps =>
        obtain ⟨after, pieces, hclosing, rfl, hcut', hcalls'⟩ := message_step hrest hcalls
        exact .apart hclosing (ih hcut' hcalls')
    · obtain ⟨_, _, _, _, _, hstrip, htrim⟩ := strip_of_message hrest.flatten ht
      rw [feed_joined hstrip htrim] at hcalls
      obtain ⟨after, pieces, hclosing, rfl, hcut', hcalls'⟩ := message_step hrest hcalls
      exact .joined hclosing (ih hcut' hcalls')

/-- `parse` hears exactly the messages, in order, when and only when they come whole. -/
theorem split_calls_iff (raises : List Char → Bool) (items : List (Message × Bool))
    {pieces : List (List Char)} (hcut : Cut (stream items) pieces) :
    heard (feed raises pieces []).1 = (items.map fun item => item.1.text) ↔ Whole items pieces :=
  ⟨whole_of_calls hcut, feed_whole⟩

def Message.single (c : Char) (hmark : c ≠ '>') (hspace : isSpace c = false) : Message where
  text := [c]
  ne_nil := List.cons_ne_nil c []
  no_mark := fun h => hmark (List.mem_singleton.mp h).symm
  no_break := fun h => by
    rw [← List.mem_singleton.mp h, isSpace_break] at hspace
    exact nomatch hspace
  stripped := by
    rw [strip, trim_cons_of_neg hspace]
    rfl

def messageA : Message := .single 'a' (by decide) (by decide)

def messageB : Message := .single 'b' (by decide) (by decide)

theorem split_calls_lines :
    heard (feed (fun _ => false) [['>', 'a', '\n'], ['>'], ['b', '\n']] []).1 =
      [messageA.text, messageB.text] := by
  have hcut : Cut (stream [(messageA, true), (messageB, true)])
      [['>', 'a', '\n'], ['>'], ['b', '\n']] := ⟨rfl, by decide, by decide⟩
  have hlines : Whole [(messageA, true), (messageB, true)]
      [['>', 'a', '\n'], ['>'], ['b', '\n']] :=
    .joined (m := messageA) (b := true) List.mem_cons_self
      (.apart (m := messageB) (b := true) List.mem_cons_self .nil)
  exact (split_calls_iff (fun _ => false) [(messageA, true), (messageB, true)] hcut).mpr hlines

/-- Two messages on one line: the first is kept back, and `parse` hears the second only. -/
theorem split_keeps_message_back :
    Cut (stream [(messageA, false), (messageB, true)]) [['>', 'a', '>', 'b', '\n']] ∧
      heard (feed (fun _ => false) [['>', 'a', '>', 'b', '\n']] []).1 = [messageB.text] ∧
      heard (feed (fun _ => false) [['>', 'a', '>', 'b', '\n']] []).1 ≠
        [messageA.text, messageB.text] :=
  ⟨⟨rfl, by decide, by decide⟩, by decide, by decide⟩

end BluePill.Parser
