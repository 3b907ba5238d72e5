import BluePillJs.Library.PastTime
import BluePillJs.Sensor.Filter

/-! The two magnetometer threads. A failed read leaves the sample of the read before it
in place, and the loop filters that sample once more. -/

namespace BluePill.Sensor
open PartialRuns PastTime TruncatedMean

inductive Msg where
  | ok
  | reset
  | timeout
  | other (res : ℤ)
  deriving DecidableEq

/-- The answer of the bus; the received bytes count only when the transfer succeeds. -/
structure Reply where
  res : Msg
  rx : ℕ → UInt8

structure Sample where
  x : Int16
  y : Int16
  z : Int16
  deriving DecidableEq

inductive Output where
  | i2c (addr : UInt8) (tx : List UInt8) (rxsize : ℕ)
  | i2cReset (addr : UInt8)
  | i2cTimeout (addr : UInt8)
  | i2cUnknown (res : ℤ) (addr : UInt8)
  | notFound (name : String)
  | transmit (x y : Int16)
  deriving DecidableEq

def i2cWrite (addr : UInt8) (tx : List UInt8) (rxsize : ℕ) (res : Msg) : Bool × List Output :=
  let sent := Output.i2c addr tx rxsize
  match res with
  | .ok => (true, [sent])
  | .reset => (false, [sent, .i2cReset addr])
  | .timeout => (false, [sent, .i2cTimeout addr])
  | .other res => (false, [sent, .i2cUnknown res addr])

def word (high low : UInt8) : Int16 := ((high.toUInt16 <<< 8) ||| low.toUInt16).toInt16

def Reply.sample (r : Reply) : Sample :=
  ⟨word (r.rx 0) (r.rx 1), word (r.rx 2) (r.rx 3), word (r.rx 4) (r.rx 5)⟩

def lsm303Read (addr out : UInt8) (r : Reply) (data : Option Sample) :
    Bool × List Output × Option Sample :=
  let (done, outputs) := i2cWrite addr [out] 8 r.res
  if !done then (false, outputs, data)
  else (true, outputs, some r.sample)

structure Chip where
  name : String
  addr : UInt8
  startReg : UInt8
  initWrites : List (List UInt8)

def lsm303c : Chip where
  name := "LSM303C"
  addr := 0x1E
  startReg := 0x28
  initWrites := [[0x20, 0x7C], [0x21, 0x60], [0x22, 0x00], [0x23, 0x0E]]

def lsm303dlhc : Chip where
  name := "LSM303DLHC"
  addr := 0x1E
  startReg := 0x03
  initWrites := [[0x00, 0x1C], [0x01, 0xE0], [0x02, 0x00]]

/-- The locals of a thread, and the writes its init still has to make. The array `data`
has no value until a read succeeds. -/
structure Thread where
  pending : List (List UInt8)
  exited : Bool
  data : Option Sample
  x : Int16
  y : Int16

def Thread.start (s : Chip) : Thread := ⟨s.initWrites, false, none, 0, 0⟩

def Thread.initialised : Thread := ⟨[], false, none, 0, 0⟩

def threadStep (s : Chip) (r : Reply) (t : Thread) : Option (List Output × Thread) :=
  if t.exited then none
  else match t.pending with
    | tx :: rest =>
      let (done, outputs) := i2cWrite s.addr tx 0 r.res
      if !done then some (outputs ++ [.notFound s.name], { t with exited := true })
      else some (outputs, { t with pending := rest })
    | [] =>
      -- the loop drops the result of the read, and `data` may never have been assigned
      let (_, outputs, data) := lsm303Read s.addr s.startReg r t.data
      data.bind fun d =>
        let x := filterStep t.x d.x
        let y := filterStep t.y d.y
        some (outputs ++ [.transmit x y], { t with data := some d, x := x, y := y })

def lsm303cThread : Reply → Thread → Option (List Output × Thread) := threadStep lsm303c

def lsm303dlhcThread : Reply → Thread → Option (List Output × Thread) := threadStep lsm303dlhc

def samples (rs : List Reply) : List Sample :=
  (rs.filter fun r => r.res = .ok).map Reply.sample

structure Follows (reads : List Reply) (t : Thread) : Prop where
  x : t.x = filtered ((samples reads).map Sample.x)
  y : t.y = filtered ((samples reads).map Sample.y)

def AtRest (b d : Int16) : Prop := low 7 d.toInt ≤ b.toInt ∧ b.toInt ≤ high 7 d.toInt

instance (b d : Int16) : Decidable (AtRest b d) :=
  inferInstanceAs (Decidable (low 7 d.toInt ≤ b.toInt ∧ b.toInt ≤ high 7 d.toInt))

/-- A failed read after `reads` repeats a sample at which both axes are at rest. -/
def Harmless (reads : List Reply) : Prop :=
  ∃ d, (samples reads).getLast? = some d ∧
    AtRest (filtered ((samples reads).map Sample.x)) d.x ∧
    AtRest (filtered ((samples reads).map Sample.y)) d.y

structure Looping (reads : List Reply) (t : Thread) : Prop where
  pending : t.pending = []
  exited : t.exited = false
  data : t.data = (samples reads).getLast?

theorem filterStep_eq_iff {b d : Int16} : filterStep b d = b ↔ AtRest b d := by
  rw [← Int16.toInt_inj, toInt_filterStep, AtRest]
  exact mean_eq_iff (by decide)

theorem filtered_append_singleton (ds : List Int16) (d : Int16) :
    filtered (ds ++ [d]) = filterStep (filtered ds) d := by
  rw [filtered, List.foldl_append]
  rfl

theorem samples_append_ok {r : Reply} (reads : List Reply) (h : r.res = .ok) :
    samples (reads ++ [r]) = samples reads ++ [r.sample] := by
  simp [samples, h]

theorem samples_append_failed {r : Reply} (reads : List Reply) (h : r.res ≠ .ok) :
    samples (reads ++ [r]) = samples reads := by
  simp [samples, h]

section Transactions
variable {s : Chip} {r : Reply} {t : Thread}

theorem lsm303Read_data (addr out : UInt8) (r : Reply) (data : Option Sample) :
    (lsm303Read addr out r data).2.2 = if r.res = .ok then some r.sample else data := by
  unfold lsm303Read
  cases r.res <;> rfl

theorem threadStep_init {tx : List UInt8} {rest : List (List UInt8)} (hp : t.pending = tx :: rest)
    (he : t.exited = false) (hr : r.res = .ok) :
    threadStep s r t = some ([.i2c s.addr tx 0], { t with pending := rest }) := by
  rw [threadStep, he, hp, hr]
  rfl

theorem threadStep_loop (hp : t.pending = []) (he : t.exited = false) :
    threadStep s r t = (if r.res = .ok then some r.sample else t.data).bind fun d =>
      some ((lsm303Read s.addr s.startReg r t.data).2.1 ++
        [.transmit (filterStep t.x d.x) (filterStep t.y d.y)], { t with
          data := some d
          x := filterStep t.x d.x
          y := filterStep t.y d.y }) := by
  rw [threadStep, he, hp, ← lsm303Read_data s.addr s.startReg r t.data]
  rfl

theorem Looping.step {reads : List Reply} {os : List Output} {t' : Thread} (h : Looping reads t)
    (hstep : threadStep s r t = some (os, t')) : Looping (reads ++ [r]) t' := by
  rw [threadStep_loop h.pending h.exited] at hstep
  obtain ⟨d, hd, heq⟩ := Option.bind_eq_some_iff.mp hstep
  cases heq
  refine ⟨h.pending, h.exited, ?_⟩
  rcases eq_or_ne r.res .ok with hr | hr
  · rw [if_pos hr] at hd
    rw [samples_append_ok reads hr, List.getLast?_concat, hd]
  · rw [if_neg hr, h.data] at hd
    rw [samples_append_failed reads hr, hd]

theorem threadStep_follows_iff {reads : List Reply} (h : Looping reads t) (hf : Follows reads t) :
    (∃ os t', threadStep s r t = some (os, t') ∧ Follows (reads ++ [r]) t') ↔
      (r.res ≠ .ok → Harmless reads) := by
  rw [threadStep_loop h.pending h.exited]
  rcases eq_or_ne r.res .ok with hr | hr
  · rw [if_pos hr]
    refine iff_of_true ⟨_, _, rfl, ?_, ?_⟩ fun hne => absurd hr hne
    · rw [samples_append_ok reads hr, List.map_append, List.map_singleton,
        filtered_append_singleton, ← hf.x]
    · rw [samples_append_ok reads hr, List.map_append, List.map_singleton,
        filtered_append_singleton, ← hf.y]
  · rw [if_neg hr, h.data]
    have hsame := samples_append_failed reads hr
    constructor
    · rintro ⟨os, t', hstep, hx, hy⟩ -
      obtain ⟨d, hd, heq⟩ := Option.bind_eq_some_iff.mp hstep
      cases heq
      rw [hsame] at hx hy
      refine ⟨d, hd, filterStep_eq_iff.mp ?_, filterStep_eq_iff.mp ?_⟩
      · rw [← hf.x] at hx ⊢
        exact hx
      · rw [← hf.y] at hy ⊢
        exact hy
    · intro hharmless
      obtain ⟨d, hd, hx, hy⟩ := hharmless hr
      rw [hd]
      refine ⟨_, _, rfl, ?_, ?_⟩
      · rw [hsame, hf.x]
        exact filterStep_eq_iff.mpr hx
      · rw [hsame, hf.y]
        exact filterStep_eq_iff.mpr hy

theorem trace_init {inits : List Reply} (hlen : inits.length = t.pending.length)
    (hok : ∀ r ∈ inits, r.res = .ok) (he : t.exited = false) :
    ∃ os, trace (threadStep s) inits t = some (os, { t with pending := [] }) := by
  induction inits generalizing t with
  | nil =>
    have hp : t.pending = [] := List.length_eq_zero_iff.mp hlen.symm
    refine ⟨[], ?_⟩
    rw [← hp]
    rfl
  | cons r inits ih =>
    obtain ⟨tx, rest, hp⟩ := List.exists_cons_of_length_eq_add_one hlen.symm
    rw [List.forall_mem_cons] at hok
    have hrest : inits.length = rest.length := by
      rw [hp] at hlen
      exact Nat.succ.inj hlen
    obtain ⟨os, hrun⟩ := ih (t := { t with pending := rest }) hrest hok.2 he
    refine ⟨.i2c s.addr tx 0 :: os, ?_⟩
    rw [trace, threadStep_init hp he hok.1, Option.bind_some, hrun]
    rfl

end Transactions

theorem loop_follows_iff (s : Chip) (reads : List Reply) :
    (∀ before, before <+: reads → ∃ os t,
      trace (threadStep s) before Thread.initialised = some (os, t) ∧ Follows before t) ↔
      ∀ before r, before ++ [r] <+: reads → r.res ≠ .ok → Harmless before := by
  have hloop : Looping [] Thread.initialised := ⟨rfl, rfl, rfl⟩
  have hfollows : Follows [] Thread.initialised := ⟨rfl, rfl⟩
  have hturn : ∀ hist r t, Looping hist t ∧ Follows hist t →
      ((∃ os t', threadStep s r t = some (os, t') ∧
        Looping (hist ++ [r]) t' ∧ Follows (hist ++ [r]) t') ↔
        (r.res ≠ .ok → Harmless hist)) := by
    intro hist r t h
    rw [← threadStep_follows_iff (s := s) h.1 h.2]
    constructor
    · rintro ⟨os, t', hstep, _, hf⟩
      exact ⟨os, t', hstep, hf⟩
    · rintro ⟨os, t', hstep, hf⟩
      exact ⟨os, t', hstep, h.1.step hstep, hf⟩
  have hkeeps := trace_keeps_iff (threadStep s)
    (R := fun reads t => Looping reads t ∧ Follows reads t) ⟨hloop, hfollows⟩ hturn reads
  rw [← hkeeps]
  constructor
  · intro h before hbefore
    obtain ⟨os, t, hrun, hf⟩ := h before hbefore
    have hlast : Looping before t :=
      trace_invariant (fun _ _ _ _ _ hl hstep => hl.step hstep) hloop hrun
    exact ⟨os, t, hrun, hlast, hf⟩
  · intro h before hbefore
    obtain ⟨os, t, hrun, _, hf⟩ := h before hbefore
    exact ⟨os, t, hrun, hf⟩

/-- After a successful init the thread keeps to the fold over the successful reads exactly
when every failed read is harmless. -/
theorem thread_follows_iff (s : Chip) {inits : List Reply} (reads : List Reply)
    (hlen : inits.length = s.initWrites.length) (hok : ∀ r ∈ inits, r.res = .ok) :
    (∀ before, before <+: reads → ∃ os t,
      trace (threadStep s) (inits ++ before) (Thread.start s) = some (os, t) ∧
        Follows before t) ↔
      ∀ before r, before ++ [r] <+: reads → r.res ≠ .ok → Harmless before := by
  obtain ⟨os, hinit⟩ : ∃ os, trace (threadStep s) inits (Thread.start s) =
      some (os, Thread.initialised) := trace_init (t := Thread.start s) hlen hok rfl
  rw [← loop_follows_iff s reads]
  exact forall₂_congr fun before _ => exists_trace_append hinit

def answer (res : Msg) (bytes : List UInt8) : Reply := ⟨res, fun i => bytes.getD i 0⟩

theorem thread_follows_small : ∃ os t,
    trace (threadStep lsm303c) (List.replicate 4 (answer .ok []) ++
      [answer .ok [0, 7, 0, 7], answer .timeout []]) (Thread.start lsm303c) = some (os, t) ∧
      Follows [answer .ok [0, 7, 0, 7], answer .timeout []] t := by
  refine (thread_follows_iff lsm303c [answer .ok [0, 7, 0, 7], answer .timeout []] rfl
    (fun r hr => ?_)).mpr (fun before r hpre hfail => ?_) _ List.prefix_rfl
  · rw [List.eq_of_mem_replicate hr]
    rfl
  · rcases before with _ | ⟨a, _ | ⟨b, before⟩⟩
    · obtain ⟨rfl, _⟩ := List.cons_prefix_cons.mp hpre
      exact absurd rfl hfail
    · obtain ⟨rfl, _⟩ := List.cons_prefix_cons.mp hpre
      exact ⟨⟨7, 7, 0⟩, rfl, by decide, by decide⟩
    · have hlen := hpre.length_le
      simp at hlen

/-- A timeout on the first read filters an unassigned sample; one after a reading of `800`
moves the axis from `100` to `187`. -/
theorem timeout_moves_filter :
    trace lsm303cThread (List.replicate 4 (answer .ok []) ++ [answer .timeout []])
      (Thread.start lsm303c) = none ∧
    ∃ os t, trace lsm303cThread (List.replicate 4 (answer .ok []) ++
        [answer .ok [3, 32], answer .timeout []]) (Thread.start lsm303c) = some (os, t) ∧
      t.x = 187 ∧ filtered ((samples [answer .ok [3, 32], answer .timeout []]).map Sample.x) = 100 ∧
      ¬Follows [answer .ok [3, 32], answer .timeout []] t := by
  refine ⟨rfl, _, _, rfl, rfl, by decide, fun h => ?_⟩
  exact absurd h.x (by decide)

end BluePill.Sensor
