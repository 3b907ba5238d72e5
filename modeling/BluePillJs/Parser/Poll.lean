import BluePillJs.Parser.Window

/-! The timer callback of the host program. However the reads fall into ticks, and
whatever fails in between, the pieces are split in the order in which they were read. -/

namespace BluePill.Parser

inductive OpenResult where
  | opened
  | busy
  | failed
  deriving DecidableEq

inductive ReadResult where
  | data (s : List Char)
  | again
  | failed

structure Receiver where
  buf : List Char
  frame : FrameState

/-- `opened` says whether the frame has an `fd`, and `consumed` counts the calls of
`readline` on it. -/
structure Host where
  opened : Bool
  consumed : ℕ
  receiver : Receiver

def Receiver.start : Receiver := ⟨[], .initial⟩

def Host.start : Host := ⟨false, 0, .start⟩

/-- How `poll` ends. In Python 3 an `IOError` has no `message`. -/
inductive PollExit where
  | returned
  | raised (e : PyError)
  | attributeError
  deriving DecidableEq

section Callback
variable (u : Unicode) (math : Math)

def Receiver.parse (data : List Char) (c : Receiver) : Option PyError × Receiver :=
  match Parser.parse u math data c.frame with
  | .ok frame => (none, { c with frame := frame })
  | .error e => (some e, c)

def Receiver.entries : List (List Char) → Receiver → Option PyError × Receiver
  | [], c => (none, c)
  | e :: es, c =>
    if e = [] then Receiver.entries es c
    else
      let buf := c.buf ++ '>' :: e
      let (start, rest) := splitOnce buf
      if rest = [] then Receiver.entries es { c with buf := buf }
      else
        match Receiver.parse u math start { c with buf := rest } with
        | (some err, c) => (some err, c)
        | (none, c) => Receiver.entries es c

def Receiver.split (data : List Char) (c : Receiver) : Option PyError × Receiver :=
  let entries := (strip data).splitOn '>'
  match Receiver.entries u math entries.dropLast c with
  | (some err, c) => (some err, c)
  | (none, c) => Receiver.parse u math (entries.getLastD []) c

/-- The loop of `poll`, with the number of rounds left. The file answers each call of
`readline` in turn. -/
def pollLoop (file : ℕ → ReadResult) : ℕ → Host → PollExit × Host
  | 0, h => (.returned, h)
  | k + 1, h =>
    let read := { h with consumed := h.consumed + 1 }
    match file h.consumed with
    | .again => (.returned, read)
    | .failed => (.attributeError, read)
    | .data s =>
      if strip s = [] then (.returned, read)
      else
        match Receiver.split u math s read.receiver with
        | (some e, c) => (.raised e, { read with receiver := c })
        | (none, c) => pollLoop file k { read with receiver := c }

def poll (file : ℕ → ReadResult) (attempt : OpenResult) (h : Host) : PollExit × Host :=
  if h.opened then pollLoop u math file 10 h
  else
    match attempt with
    | .opened => pollLoop u math file 10 { h with opened := true }
    | .busy => (.returned, h)
    | .failed => (.returned, h)

def ticks (file : ℕ → ReadResult) (attempts : List OpenResult) (h : Host) : Host :=
  attempts.foldl (fun h attempt => (poll u math file attempt h).2) h

def raises (data : List Char) : Bool :=
  match outcome u math data with
  | .ok _ => false
  | .error _ => true

/-- The receiver after `split` was called on the pieces in order. -/
def Receiver.feed (c : Receiver) (pieces : List (List Char)) : Receiver where
  buf := (Parser.feed (raises u math) pieces c.buf).2
  frame := (Parser.feed (raises u math) pieces c.buf).1.foldl (listen u math) c.frame

end Callback

variable (u : Unicode) (math : Math) {data : List Char} {c : Receiver}

theorem Receiver.parse_eq (data : List Char) (c : Receiver) :
    (Receiver.parse u math data c).1.isSome = raises u math data ∧
      (Receiver.parse u math data c).2 = { c with frame := listen u math c.frame data } := by
  unfold Receiver.parse raises listen
  rw [parse_eq_outcome]
  cases outcome u math data <;> exact ⟨rfl, rfl⟩

theorem Receiver.entries_eq (es : List (List Char)) (c : Receiver) :
    (Receiver.entries u math es c).1.isSome = (splitLoop (raises u math) es c.buf).raised ∧
      (Receiver.entries u math es c).2 = ⟨(splitLoop (raises u math) es c.buf).buf,
        (splitLoop (raises u math) es c.buf).calls.foldl (listen u math) c.frame⟩ := by
  induction es generalizing c with
  | nil => exact ⟨rfl, rfl⟩
  | cons e es ih =>
    unfold Receiver.entries splitLoop
    by_cases he : e = []
    · rw [if_pos he, if_pos he]
      exact ih c
    · rw [if_neg he, if_neg he]
      dsimp only
      generalize splitOnce (c.buf ++ '>' :: e) = p
      obtain ⟨start, rest⟩ := p
      dsimp only
      by_cases hrest : rest = []
      · rw [if_pos hrest, if_pos hrest]
        exact ih _
      · rw [if_neg hrest, if_neg hrest]
        obtain ⟨hraise, hkeep⟩ := Receiver.parse_eq u math start
          { c with buf := rest }
        cases hparse : Receiver.parse u math start { c with buf := rest } with
        | mk err c' =>
          rw [hparse] at hraise hkeep
          dsimp only at hraise hkeep
          subst hkeep
          cases err with
          | some err =>
            have hraises : raises u math start = true := hraise.symm
            rw [if_pos hraises]
            exact ⟨rfl, rfl⟩
          | none =>
            have hraises : raises u math start = false := hraise.symm
            rw [hraises]
            exact ih _

theorem Receiver.split_eq (data : List Char) (c : Receiver) :
    (Receiver.split u math data c).2 = ⟨(Parser.split (raises u math) data c.buf).2,
      (Parser.split (raises u math) data c.buf).1.foldl (listen u math) c.frame⟩ := by
  obtain ⟨hraise, hkeep⟩ := Receiver.entries_eq u math
    ((strip data).splitOn '>').dropLast c
  unfold Receiver.split Parser.split
  dsimp only
  cases hloop : Receiver.entries u math ((strip data).splitOn '>').dropLast c with
  | mk err c' =>
    rw [hloop] at hraise hkeep
    dsimp only at hraise hkeep
    subst hkeep
    cases err with
    | some err =>
      have hraised : (splitLoop (raises u math) ((strip data).splitOn '>').dropLast c.buf).raised =
        true := hraise.symm
      rw [if_pos hraised]
    | none =>
      have hraised : (splitLoop (raises u math) ((strip data).splitOn '>').dropLast c.buf).raised =
        false := hraise.symm
      rw [hraised]
      dsimp only
      rw [if_neg Bool.false_ne_true, List.foldl_append]
      exact (Receiver.parse_eq u math _ _).2

theorem feed_append (raises : List Char → Bool) (ps qs : List (List Char)) (buf : List Char) :
    feed raises (ps ++ qs) buf =
      ((feed raises ps buf).1 ++ (feed raises qs (feed raises ps buf).2).1,
        (feed raises qs (feed raises ps buf).2).2) := by
  induction ps generalizing buf with
  | nil => rfl
  | cons data ps ih =>
    by_cases hblank : strip data = []
    · rw [List.cons_append, feed_blank hblank, feed_blank hblank, ih]
    · rw [List.cons_append, feed_cons hblank, feed_cons hblank, ih, List.append_assoc]

theorem Receiver.feed_append (c : Receiver) (ps qs : List (List Char)) :
    c.feed u math (ps ++ qs) = (c.feed u math ps).feed u math qs := by
  unfold Receiver.feed
  rw [Parser.feed_append, List.foldl_append]

theorem Receiver.feed_blank (h : strip data = []) (c : Receiver) : c.feed u math [data] = c := by
  unfold Receiver.feed
  rw [Parser.feed_blank h]
  rfl

theorem Receiver.feed_singleton (h : strip data ≠ []) (c : Receiver) :
    c.feed u math [data] = (Receiver.split u math data c).2 := by
  unfold Receiver.feed
  rw [feed_cons h, Receiver.split_eq u math]
  simp only [Parser.feed, List.append_nil]

/-! ## Ticks -/

def ReadResult.piece? : ReadResult → Option (List Char)
  | .data s => some s
  | _ => none

def pieces (file : ℕ → ReadResult) (start n : ℕ) : List (List Char) :=
  (List.range' start n).filterMap fun i => (file i).piece?

theorem pieces_append (file : ℕ → ReadResult) (start m n : ℕ) :
    pieces file start (m + n) = pieces file start m ++ pieces file (start + m) n := by
  have hsplit : List.range' start (m + n) = List.range' start m ++ List.range' (start + m) n := by
    rw [List.range'_append_1]
  rw [pieces, hsplit, List.filterMap_append]
  rfl

theorem pieces_one (file : ℕ → ReadResult) (start : ℕ) :
    pieces file start 1 = (file start).piece?.toList := by
  unfold pieces
  cases h : (file start).piece? <;> simp [h]

structure Advanced (u : Unicode) (math : Math) (file : ℕ → ReadResult) (h h' : Host) (n : ℕ) :
    Prop where
  opened : h'.opened = h.opened
  consumed : h'.consumed = h.consumed + n
  receiver : h'.receiver = h.receiver.feed u math (pieces file h.consumed n)

section Advancing
variable {u math} {file : ℕ → ReadResult} {h h' h'' : Host} {m n : ℕ}

theorem Advanced.refl (h : Host) : Advanced u math file h h 0 := ⟨rfl, rfl, rfl⟩

theorem Advanced.trans (h₁ : Advanced u math file h h' m) (h₂ : Advanced u math file h' h'' n) :
    Advanced u math file h h'' (m + n) where
  opened := h₂.opened.trans h₁.opened
  consumed := by rw [h₂.consumed, h₁.consumed, Nat.add_assoc]
  receiver := by
    rw [h₂.receiver, h₁.receiver, h₁.consumed, pieces_append, Receiver.feed_append u math]

theorem Advanced.none (hread : (file h.consumed).piece? = none) :
    Advanced u math file h { h with consumed := h.consumed + 1 } 1 := by
  refine ⟨rfl, rfl, ?_⟩
  rw [pieces_one, hread]
  rfl

theorem Advanced.some (hread : file h.consumed = .data data) {c : Receiver}
    (hc : c = h.receiver.feed u math [data]) :
    Advanced u math file h { h with consumed := h.consumed + 1, receiver := c } 1 := by
  refine ⟨rfl, rfl, ?_⟩
  rw [pieces_one, hread, hc]
  rfl

variable (u math) in
theorem pollLoop_advanced (file : ℕ → ReadResult) (k : ℕ) (h : Host) :
    ∃ n, n ≤ k ∧ (0 < k → 0 < n) ∧ Advanced u math file h (pollLoop u math file k h).2 n := by
  -- on the rounds that are left; only a piece that `split` takes leads to another round
  induction k generalizing h with
  | zero => exact ⟨0, le_rfl, id, Advanced.refl h⟩
  | succ k ih =>
    unfold pollLoop
    dsimp only
    cases hread : file h.consumed with
    | again => exact ⟨1, Nat.le_add_left 1 k, fun _ => one_pos, Advanced.none (by rw [hread]; rfl)⟩
    | failed => exact ⟨1, Nat.le_add_left 1 k, fun _ => one_pos, Advanced.none (by rw [hread]; rfl)⟩
    | data s =>
      dsimp only
      by_cases hblank : strip s = []
      · rw [if_pos hblank]
        have hstep := Advanced.some hread (Receiver.feed_blank u math hblank
          h.receiver).symm
        exact ⟨1, Nat.le_add_left 1 k, fun _ => one_pos, hstep⟩
      · rw [if_neg hblank]
        have hfeed := Receiver.feed_singleton u math hblank h.receiver
        cases hsplit : Receiver.split u math s h.receiver with
        | mk err c =>
          rw [hsplit] at hfeed
          have hstep := Advanced.some hread hfeed.symm
          cases err with
          | some e => exact ⟨1, Nat.le_add_left 1 k, fun _ => one_pos, hstep⟩
          | none =>
            obtain ⟨n, hn, _, hrest⟩ := ih { h with consumed := h.consumed + 1, receiver := c }
            exact ⟨1 + n, by omega, fun _ => by omega, hstep.trans hrest⟩

end Advancing

def reading (attempts : List OpenResult) : List OpenResult :=
  attempts.dropWhile fun attempt => decide (attempt ≠ .opened)

theorem poll_open (file : ℕ → ReadResult) {attempt : OpenResult} {h : Host}
    (ho : h.opened = true ∨ attempt = .opened) :
    poll u math file attempt h = pollLoop u math file 10 { h with opened := true } := by
  obtain ⟨opened, consumed, receiver⟩ := h
  unfold poll
  cases opened with
  | true => rfl
  | false =>
    obtain rfl := ho.resolve_left Bool.false_ne_true
    rfl

theorem ticks_opened (file : ℕ → ReadResult) (attempts : List OpenResult) {h : Host}
    (ho : h.opened = true) : ∃ n, attempts.length ≤ n ∧ n ≤ 10 * attempts.length ∧
      Advanced u math file h (ticks u math file attempts h) n := by
  induction attempts generalizing h with
  | nil => exact ⟨0, le_rfl, le_rfl, Advanced.refl h⟩
  | cons attempt attempts ih =>
    obtain ⟨m, hm, hpos, hfirst⟩ := pollLoop_advanced u math file 10 h
    obtain ⟨n, hl, hu, hrest⟩ := ih (hfirst.opened.trans ho)
    have hpoll : poll u math file attempt h = pollLoop u math file 10 h := by
      rw [poll_open u math file (.inl ho), ← ho]
    refine ⟨m + n, ?_, ?_, ?_⟩
    · have := hpos (by decide)
      rw [List.length_cons]
      omega
    · rw [List.length_cons]
      omega
    · rw [ticks, List.foldl_cons, hpoll]
      exact hfirst.trans hrest

theorem ticks_advanced (file : ℕ → ReadResult) (attempts : List OpenResult) :
    ∃ n opened, (reading attempts).length ≤ n ∧ n ≤ 10 * (reading attempts).length ∧
      Advanced u math file { Host.start with opened := opened }
        (ticks u math file attempts .start) n := by
  induction attempts with
  | nil => exact ⟨0, false, le_rfl, le_rfl, Advanced.refl Host.start⟩
  | cons attempt attempts ih =>
    cases attempt with
    | opened =>
      obtain ⟨n, hl, hu, hrun⟩ := ticks_opened u math file
        (.opened :: attempts) (h := { Host.start with opened := true }) rfl
      exact ⟨n, true, hl, hu, hrun⟩
    | busy => exact ih
    | failed => exact ih

variable {u math} in
theorem Advanced.from_start {file : ℕ → ReadResult} {h : Host} {n : ℕ} {opened : Bool}
    (hrun : Advanced u math file { Host.start with opened := opened } h n) :
    h.consumed = n ∧ h.receiver = Receiver.start.feed u math (pieces file 0 h.consumed) := by
  have hconsumed : h.consumed = n := hrun.consumed.trans (Nat.zero_add n)
  exact ⟨hconsumed, hconsumed ▸ hrun.receiver⟩

theorem poll_reads (file : ℕ → ReadResult) {attempt : OpenResult} {h : Host}
    (ho : h.opened = true ∨ attempt = .opened) :
    h.consumed < (poll u math file attempt h).2.consumed ∧
      (poll u math file attempt h).2.consumed ≤ h.consumed + 10 := by
  obtain ⟨n, hn, hpos, hrun⟩ := pollLoop_advanced u math file 10 { h with opened := true }
  have hconsumed := hrun.consumed
  have hleast := hpos (by decide)
  rw [poll_open u math file ho, hconsumed]
  dsimp only
  omega

theorem poll_closed (file : ℕ → ReadResult) {attempt : OpenResult} {h : Host}
    (ho : ¬(h.opened = true ∨ attempt = .opened)) : (poll u math file attempt h).2 = h := by
  rw [not_or] at ho
  unfold poll
  rw [if_neg ho.1]
  cases attempt with
  | opened => exact absurd rfl ho.2
  | busy => rfl
  | failed => rfl

/-- After any ticks the receiver has been fed the pieces read so far, in order. A tick on the
open file reads once at least and ten times at most; any other tick does nothing. -/
theorem ticks_feed (file : ℕ → ReadResult) (attempts : List OpenResult) :
    let h := ticks u math file attempts .start
    h.receiver = Receiver.start.feed u math (pieces file 0 h.consumed) ∧
      ((reading attempts).length ≤ h.consumed ∧ h.consumed ≤ 10 * (reading attempts).length) ∧
      ∀ before attempt after, attempts = before ++ attempt :: after →
        let h₀ := ticks u math file before .start
        let h₁ := ticks u math file (before ++ [attempt]) .start
        (h₀.opened = true ∨ attempt = .opened →
          h₀.consumed < h₁.consumed ∧ h₁.consumed ≤ h₀.consumed + 10) ∧
        (¬(h₀.opened = true ∨ attempt = .opened) → h₁ = h₀) := by
  intro h
  obtain ⟨n, opened, hl, hu, hrun⟩ := ticks_advanced u math file attempts
  obtain ⟨hconsumed, hreceiver⟩ := hrun.from_start
  refine ⟨hreceiver, ⟨hconsumed ▸ hl, hconsumed ▸ hu⟩, ?_⟩
  intro before attempt _ _ h₀ h₁
  have hlast : h₁ = (poll u math file attempt h₀).2 := List.foldl_append
  rw [hlast]
  exact ⟨poll_reads u math file, poll_closed u math file⟩

end BluePill.Parser
