import BluePillJs.Sensor.Lsm303

/-! The thread of the MLX90393, which has to start every conversion itself and to wait for
it before it fetches the result. -/

namespace BluePill.Sensor
open PartialRuns PastTime

def mlx90393I2cAddr : UInt8 := 0x0C
def mlx90393CmdReadReg : UInt8 := 0x50
def mlx90393CmdWriteReg : UInt8 := 0x60
def mlx90393CmdMeasureXyz : UInt8 := 0x3E
def mlx90393CmdReadXyz : UInt8 := 0x4E

structure Transfer where
  tx : List UInt8
  rxsize : ℕ

inductive MlxOutput where
  | bus (o : Output)
  | sleep (ms : ℕ)
  deriving DecidableEq

def Transfer.sent (x : Transfer) : MlxOutput := .bus (.i2c mlx90393I2cAddr x.tx x.rxsize)

def mlxWrite (x : Transfer) (res : Msg) : Bool × List MlxOutput :=
  let (done, outputs) := i2cWrite mlx90393I2cAddr x.tx x.rxsize res
  (done, outputs.map .bus)

def register (addr : UInt8) : UInt8 :=
  -- the chip expects the address above two other bits
  addr <<< 2

/-- The last one reads a register back, and its answer is ignored. -/
def mlx90393Init (tcmpEn : Bool) : List Transfer :=
  [⟨[mlx90393CmdWriteReg, 0x00, 0x5C, register 0x00], 2⟩,
    ⟨[mlx90393CmdWriteReg, tcmpEn.toUInt8 <<< 2, 0x00, register 0x01], 2⟩,
    ⟨[mlx90393CmdWriteReg, 0x02, 0xA8, register 0x02], 2⟩,
    ⟨[mlx90393CmdReadReg, register 0x02], 4⟩]

def measureXyz : Transfer := ⟨[mlx90393CmdMeasureXyz], 2⟩

def readXyz : Transfer := ⟨[mlx90393CmdReadXyz], 8⟩

def mlxWord (tcmpEn : Bool) (high low : UInt8) : Int16 :=
  -- with the compensation enabled the values are sent with an offset
  if tcmpEn then Int16.ofInt (((high.toUInt16 <<< 8) ||| low.toUInt16).toNat - 32768)
  else word high low

def Reply.mlxSample (tcmpEn : Bool) (r : Reply) : Sample :=
  ⟨mlxWord tcmpEn (r.rx 3) (r.rx 2), mlxWord tcmpEn (r.rx 5) (r.rx 4),
    mlxWord tcmpEn (r.rx 7) (r.rx 6)⟩

inductive MlxPc where
  | init (next : Transfer) (rest : List Transfer)
  | measure
  | fetch
  | failed

def MlxPc.ofPending : List Transfer → MlxPc
  | [] => .measure
  | next :: rest => .init next rest

structure MlxThread where
  pc : MlxPc
  data : Option Sample

def MlxThread.start (tcmpEn : Bool) : MlxThread := ⟨.ofPending (mlx90393Init tcmpEn), none⟩

/-- The loop hands over `data`, whatever the read returned. -/
def transmitData (outputs : List MlxOutput) (data : Option Sample) :
    Option (List MlxOutput × MlxThread) :=
  data.map fun d => (outputs ++ [.bus (.transmit d.x d.y)], ⟨.measure, some d⟩)

def mlx90393Step (tcmpEn : Bool) (r : Reply) (t : MlxThread) :
    Option (List MlxOutput × MlxThread) :=
  match t.pc with
  | .init next rest =>
    let (done, outputs) := mlxWrite next r.res
    if !done then some (outputs ++ [.bus (.notFound "MLX90393")], { t with pc := .failed })
    else some (outputs, { t with pc := .ofPending rest })
  | .measure =>
    let (done, outputs) := mlxWrite measureXyz r.res
    if !done then transmitData outputs t.data
    else some (outputs ++ [.sleep 20], { t with pc := .fetch })
  | .fetch =>
    let (done, outputs) := mlxWrite readXyz r.res
    transmitData outputs (if !done then t.data else some (r.mlxSample tcmpEn))
  | .failed => none

/-! ## What the log says -/

abbrev Entry : Type := Reply × MlxOutput

def MlxOutput.isTransmit : MlxOutput → Bool
  | .bus (.transmit _ _) => true
  | _ => false

section Log
variable (tcmpEn : Bool)

def initSent : List MlxOutput := (mlx90393Init tcmpEn).map Transfer.sent

def Initialised (log : List Entry) : Prop :=
  ∃ inits rest, log = inits ++ rest ∧ inits.map Prod.snd = initSent tcmpEn ∧
    ∀ e ∈ inits, e.1.res = .ok

/-- A conversion was started and has had its time. -/
def Measured (log : List Entry) : Prop :=
  ∃ before r, log = before ++ [(r, measureXyz.sent), (r, .sleep 20)] ∧ r.res = .ok

def isFetched (e : Entry) : Bool := decide (e.2 = readXyz.sent) && decide (e.1.res = .ok)

def latest (log : List Entry) : Option Sample :=
  (log.reverse.find? isFetched).map fun e => e.1.mlxSample tcmpEn

structure Disciplined (before : List Entry) (e : Entry) : Prop where
  fetch : e.2 = readXyz.sent → Measured before
  transmit : e.2.isTransmit = true → Initialised tcmpEn before
  sample : ∀ x y, e.2 = .bus (.transmit x y) →
    ∃ d, latest tcmpEn before = some d ∧ d.x = x ∧ d.y = y

def Phase (log : List Entry) : MlxPc → Prop
  | .init next rest => log.map Prod.snd ++ (next :: rest).map Transfer.sent = initSent tcmpEn ∧
      ∀ e ∈ log, e.1.res = .ok
  | .measure => Initialised tcmpEn log
  | .fetch => Initialised tcmpEn log ∧ Measured log
  | .failed => ∀ e ∈ log, e.2.isTransmit = false

structure Logged (log : List Entry) (t : MlxThread) : Prop where
  disciplined : Always (Disciplined tcmpEn) log
  data : t.data = latest tcmpEn log
  phase : Phase tcmpEn log t.pc

end Log

variable {tcmpEn : Bool} {log : List Entry} {e : Entry} {r : Reply} {t t' : MlxThread}
  {os : List MlxOutput}

theorem latest_append_singleton (log : List Entry) (e : Entry) :
    latest tcmpEn (log ++ [e]) =
      if isFetched e = true then some (e.1.mlxSample tcmpEn) else latest tcmpEn log := by
  rw [latest, List.reverse_append, List.reverse_singleton, List.singleton_append, List.find?_cons]
  cases isFetched e <;> rfl

theorem latest_append_other (h : e.2 ≠ readXyz.sent) :
    latest tcmpEn (log ++ [e]) = latest tcmpEn log := by
  rw [latest_append_singleton, if_neg]
  rw [isFetched, decide_eq_false h]
  exact Bool.false_ne_true

theorem latest_append_failed (h : e.1.res ≠ .ok) :
    latest tcmpEn (log ++ [e]) = latest tcmpEn log := by
  rw [latest_append_singleton, if_neg]
  rw [isFetched, decide_eq_false h, Bool.and_false]
  exact Bool.false_ne_true

theorem Initialised.append (h : Initialised tcmpEn log) (others : List Entry) :
    Initialised tcmpEn (log ++ others) := by
  obtain ⟨inits, rest, rfl, hinits, hok⟩ := h
  exact ⟨inits, rest ++ others, List.append_assoc _ _ _, hinits, hok⟩

theorem disciplined_other (hf : e.2 ≠ readXyz.sent) (ht : e.2.isTransmit = false) :
    Disciplined tcmpEn log e where
  fetch h := absurd h hf
  transmit h := by
    rw [ht] at h
    exact absurd h Bool.false_ne_true
  sample x y h := by
    rw [h] at ht
    exact absurd ht.symm Bool.false_ne_true

theorem disciplined_transmit {d : Sample} (hi : Initialised tcmpEn log)
    (hd : latest tcmpEn log = some d) :
    Disciplined tcmpEn log (r, .bus (.transmit d.x d.y)) where
  fetch h := by
    have hout : MlxOutput.bus (.transmit d.x d.y) = readXyz.sent := h
    exact nomatch hout
  transmit _ := hi
  sample x y h := by
    obtain ⟨hx, hy⟩ := Output.transmit.inj (MlxOutput.bus.inj h)
    exact ⟨d, hd, hx, hy⟩

def Output.isMessage : Output → Bool
  | .i2cReset _ => true
  | .i2cTimeout _ => true
  | .i2cUnknown _ _ => true
  | _ => false

theorem mlxWrite_ok (x : Transfer) : mlxWrite x .ok = (true, [x.sent]) := rfl

theorem mlxWrite_failed (x : Transfer) {res : Msg} (h : res ≠ .ok) :
    ∃ o, mlxWrite x res = (false, [x.sent, .bus o]) ∧ o.isMessage = true := by
  cases res with
  | ok => exact absurd rfl h
  | reset => exact ⟨_, rfl, rfl⟩
  | timeout => exact ⟨_, rfl, rfl⟩
  | other res => exact ⟨_, rfl, rfl⟩

theorem message_ne_sent {o : Output} (h : o.isMessage = true) (x : Transfer) :
    MlxOutput.bus o ≠ x.sent := by
  intro ho
  rw [MlxOutput.bus.inj ho] at h
  exact absurd h Bool.false_ne_true

theorem message_not_transmit {o : Output} (h : o.isMessage = true) :
    (MlxOutput.bus o).isTransmit = false := by
  cases o with
  | transmit x y => exact absurd h Bool.false_ne_true
  | _ => rfl

theorem log_failed {x : Transfer} {o : Output} (hlog : Always (Disciplined tcmpEn) log)
    (hx : Disciplined tcmpEn log (r, x.sent)) (ho : o.isMessage = true) (hr : r.res ≠ .ok) :
    Always (Disciplined tcmpEn) (log ++ [(r, x.sent), (r, .bus o)]) ∧
      latest tcmpEn (log ++ [(r, x.sent), (r, .bus o)]) = latest tcmpEn log := by
  have hsplit : log ++ [(r, x.sent), (r, .bus o)] = (log ++ [(r, x.sent)]) ++ [(r, .bus o)] := by
    rw [List.append_assoc]
    rfl
  rw [hsplit, always_append_singleton, always_append_singleton]
  refine ⟨⟨⟨hlog, hx⟩, ?_⟩, ?_⟩
  · exact disciplined_other (message_ne_sent ho readXyz) (message_not_transmit ho)
  · rw [latest_append_failed hr, latest_append_failed hr]

theorem initSent_quiet {o : MlxOutput} (h : o ∈ initSent tcmpEn) :
    o ≠ readXyz.sent ∧ o ≠ .bus (.notFound "MLX90393") ∧ o.isTransmit = false := by
  revert o
  cases tcmpEn <;> decide

theorem phase_ofPending {pending : List Transfer}
    (h : log.map Prod.snd ++ pending.map Transfer.sent = initSent tcmpEn)
    (hok : ∀ e ∈ log, e.1.res = .ok) : Phase tcmpEn log (.ofPending pending) := by
  cases pending with
  | nil =>
    rw [List.map_nil, List.append_nil] at h
    exact ⟨log, [], (List.append_nil log).symm, h, hok⟩
  | cons next rest => exact ⟨h, hok⟩

theorem logged_start (tcmpEn : Bool) : Logged tcmpEn [] (.start tcmpEn) where
  disciplined := always_nil _
  data := rfl
  phase := by
    show Phase tcmpEn [] (.ofPending (mlx90393Init tcmpEn))
    exact phase_ofPending rfl fun _ h => absurd h List.not_mem_nil

theorem step_init {next : Transfer} {rest : List Transfer} (hpc : t.pc = .init next rest)
    (hl : Logged tcmpEn log t) (h : mlx90393Step tcmpEn r t = some (os, t')) :
    Logged tcmpEn (log ++ os.map (Prod.mk r)) t' := by
  have hphase := hl.phase
  rw [hpc] at hphase
  obtain ⟨hsent, hok⟩ := hphase
  have hnext : next.sent ∈ initSent tcmpEn := by
    rw [← hsent]
    exact List.mem_append_right _ List.mem_cons_self
  have hquiet := initSent_quiet hnext
  have hother : Disciplined tcmpEn log (r, next.sent) := disciplined_other hquiet.1 hquiet.2.2
  rw [mlx90393Step, hpc] at h
  dsimp only at h
  rcases eq_or_ne r.res .ok with hr | hr
  · rw [hr, mlxWrite_ok] at h
    cases h
    refine ⟨always_append_singleton.mpr ⟨hl.disciplined, hother⟩, ?_, ?_⟩
    · exact hl.data.trans (latest_append_other hquiet.1).symm
    · apply phase_ofPending
      · rw [List.map_append, List.append_assoc]
        exact hsent
      · rw [List.forall_mem_append]
        exact ⟨hok, List.forall_mem_singleton.mpr hr⟩
  · obtain ⟨o, hwrite, ho⟩ := mlxWrite_failed next hr
    rw [hwrite] at h
    cases h
    obtain ⟨hlog, hlatest⟩ := log_failed hl.disciplined hother ho hr
    have hlist : log ++ [(r, next.sent), (r, .bus o), (r, .bus (.notFound "MLX90393"))] =
        (log ++ [(r, next.sent), (r, .bus o)]) ++ [(r, .bus (.notFound "MLX90393"))] := by
      rw [List.append_assoc]
      rfl
    have hnot : MlxOutput.bus (.notFound "MLX90393") ≠ readXyz.sent := fun heq => nomatch heq
    show Logged tcmpEn (log ++ [(r, next.sent), (r, .bus o), (r, .bus (.notFound "MLX90393"))]) _
    rw [hlist]
    refine ⟨always_append_singleton.mpr ⟨hlog, disciplined_other hnot rfl⟩, ?_, ?_⟩
    · rw [latest_append_other hnot, hlatest]
      exact hl.data
    · have hquietLog : ∀ e ∈ log, e.2.isTransmit = false := by
        intro e he
        have hmem : e.2 ∈ initSent tcmpEn := by
          rw [← hsent]
          exact List.mem_append_left _ (List.mem_map_of_mem he)
        exact (initSent_quiet hmem).2.2
      show ∀ e ∈ _, _
      rw [← hlist, List.forall_mem_append]
      refine ⟨hquietLog, ?_⟩
      simp only [List.forall_mem_cons]
      exact ⟨rfl, message_not_transmit ho, rfl, fun _ he => absurd he List.not_mem_nil⟩

theorem logged_transmit {d : Sample} (hlog : Always (Disciplined tcmpEn) log)
    (hi : Initialised tcmpEn log) (hd : latest tcmpEn log = some d) :
    Logged tcmpEn (log ++ [(r, .bus (.transmit d.x d.y))]) ⟨.measure, some d⟩ where
  disciplined := always_append_singleton.mpr ⟨hlog, disciplined_transmit hi hd⟩
  data := by
    have hnot : MlxOutput.bus (.transmit d.x d.y) ≠ readXyz.sent := fun heq => nomatch heq
    rw [latest_append_other hnot, hd]
  phase := hi.append _

theorem logged_failed {x : Transfer} (hl : Logged tcmpEn log t) (hi : Initialised tcmpEn log)
    (hx : Disciplined tcmpEn log (r, x.sent)) (hr : r.res ≠ .ok)
    (h : transmitData (mlxWrite x r.res).2 t.data = some (os, t')) :
    Logged tcmpEn (log ++ os.map (Prod.mk r)) t' := by
  obtain ⟨o, hwrite, ho⟩ := mlxWrite_failed x hr
  obtain ⟨hlog, hlatest⟩ := log_failed hl.disciplined hx ho hr
  rw [hwrite] at h
  obtain ⟨d, hd, heq⟩ := Option.map_eq_some_iff.mp h
  obtain ⟨rfl, rfl⟩ := Prod.mk.inj heq
  have hlist : log ++ [x.sent, .bus o, .bus (.transmit d.x d.y)].map (Prod.mk r) =
      (log ++ [(r, x.sent), (r, .bus o)]) ++ [(r, .bus (.transmit d.x d.y))] := by
    rw [List.append_assoc]
    rfl
  show Logged tcmpEn (log ++ [x.sent, .bus o, .bus (.transmit d.x d.y)].map (Prod.mk r)) _
  rw [hlist]
  apply logged_transmit hlog (hi.append _)
  rw [hlatest, ← hl.data, hd]

theorem step_measure (hpc : t.pc = .measure) (hl : Logged tcmpEn log t)
    (h : mlx90393Step tcmpEn r t = some (os, t')) :
    Logged tcmpEn (log ++ os.map (Prod.mk r)) t' := by
  have hi : Initialised tcmpEn log := by
    have hphase := hl.phase
    rwa [hpc] at hphase
  have hmeasure : measureXyz.sent ≠ readXyz.sent := by decide
  have hother : Disciplined tcmpEn log (r, measureXyz.sent) := disciplined_other hmeasure rfl
  rw [mlx90393Step, hpc] at h
  dsimp only at h
  rcases eq_or_ne r.res .ok with hr | hr
  · rw [hr, mlxWrite_ok] at h
    cases h
    have hlist : log ++ [(r, measureXyz.sent), (r, .sleep 20)] =
        (log ++ [(r, measureXyz.sent)]) ++ [(r, .sleep 20)] := by
      rw [List.append_assoc]
      rfl
    have hsleep : MlxOutput.sleep 20 ≠ readXyz.sent := fun heq => nomatch heq
    show Logged tcmpEn (log ++ [(r, measureXyz.sent), (r, .sleep 20)]) _
    refine ⟨?_, ?_, ⟨hi.append _, log, r, rfl, hr⟩⟩
    · rw [hlist, always_append_singleton, always_append_singleton]
      exact ⟨⟨hl.disciplined, hother⟩, disciplined_other hsleep rfl⟩
    · rw [hlist, latest_append_other hsleep, latest_append_other hmeasure]
      exact hl.data
  · have hfalse : (mlxWrite measureXyz r.res).1 = false := by
      obtain ⟨o, hwrite, _⟩ := mlxWrite_failed measureXyz hr
      rw [hwrite]
    rw [hfalse] at h
    exact logged_failed hl hi hother hr h

theorem step_fetch (hpc : t.pc = .fetch) (hl : Logged tcmpEn log t)
    (h : mlx90393Step tcmpEn r t = some (os, t')) :
    Logged tcmpEn (log ++ os.map (Prod.mk r)) t' := by
  obtain ⟨hi, hm⟩ : Initialised tcmpEn log ∧ Measured log := by
    have hphase := hl.phase
    rwa [hpc] at hphase
  have hfetch : Disciplined tcmpEn log (r, readXyz.sent) := by
    refine ⟨fun _ => hm, fun htransmit => ?_, fun x y htransmit => ?_⟩
    · exact absurd htransmit Bool.false_ne_true
    · have hout : readXyz.sent = .bus (.transmit x y) := htransmit
      exact nomatch hout
  rw [mlx90393Step, hpc] at h
  dsimp only at h
  rcases eq_or_ne r.res .ok with hr | hr
  · rw [hr, mlxWrite_ok] at h
    cases h
    have hlist : log ++ [(r, readXyz.sent),
        (r, .bus (.transmit (r.mlxSample tcmpEn).x (r.mlxSample tcmpEn).y))] =
        (log ++ [(r, readXyz.sent)]) ++
          [(r, .bus (.transmit (r.mlxSample tcmpEn).x (r.mlxSample tcmpEn).y))] := by
      rw [List.append_assoc]
      rfl
    have hfetched : isFetched (r, readXyz.sent) = true := by
      rw [isFetched, decide_eq_true hr]
      rfl
    show Logged tcmpEn (log ++ [(r, readXyz.sent),
      (r, .bus (.transmit (r.mlxSample tcmpEn).x (r.mlxSample tcmpEn).y))]) _
    rw [hlist]
    apply logged_transmit (always_append_singleton.mpr ⟨hl.disciplined, hfetch⟩) (hi.append _)
    rw [latest_append_singleton, if_pos hfetched]
  · have hfalse : (mlxWrite readXyz r.res).1 = false := by
      obtain ⟨o, hwrite, _⟩ := mlxWrite_failed readXyz hr
      rw [hwrite]
    rw [hfalse] at h
    exact logged_failed hl hi hfetch hr h

theorem step_logged (hl : Logged tcmpEn log t) (h : mlx90393Step tcmpEn r t = some (os, t')) :
    Logged tcmpEn (log ++ os.map (Prod.mk r)) t' := by
  cases hpc : t.pc with
  | init next rest => exact step_init hpc hl h
  | measure => exact step_measure hpc hl h
  | fetch => exact step_fetch hpc hl h
  | failed =>
    rw [mlx90393Step, hpc] at h
    exact nomatch h

theorem mlx90393Step_ne_none {d : Sample} (hd : t.data = some d) (hpc : t.pc ≠ .failed) :
    mlx90393Step tcmpEn r t ≠ none := by
  obtain ⟨pc, data⟩ := t
  obtain rfl : data = some d := hd
  cases pc with
  | init next rest => cases hr : r.res <;> simp [mlx90393Step, mlxWrite, i2cWrite, hr]
  | measure => cases hr : r.res <;> simp [mlx90393Step, mlxWrite, i2cWrite, hr, transmitData]
  | fetch => cases hr : r.res <;> simp [mlx90393Step, mlxWrite, i2cWrite, hr, transmitData]
  | failed => exact absurd rfl hpc

/-- Whatever the bus answers, the thread fetches a result only when the conversion was
started and waited for, hands over nothing before its init is through, and always the
sample fetched last; it comes to a stop only without one, or with its init refused. -/
theorem mlx90393_disciplined (tcmpEn : Bool) (rs : List Reply) {log : List Entry} {t : MlxThread}
    (hrun : trace (tagged (mlx90393Step tcmpEn)) rs (.start tcmpEn) = some (log, t)) :
    Always (Disciplined tcmpEn) log ∧ (t.pc = .failed → ∀ e ∈ log, e.2.isTransmit = false) ∧
      ∀ r, mlx90393Step tcmpEn r t = none → t.pc = .failed ∨ latest tcmpEn log = none := by
  have hl : Logged tcmpEn log t := by
    have hkept := trace_history (R := fun (_ : Unit) => Logged tcmpEn) (Q := fun _ => True)
      (fun c _ => c) (fun r _ log t os t' _ hl hstep => ?_) rs (fun _ _ => trivial) (c := ())
      (logged_start tcmpEn) hrun
    · exact hkept
    · obtain ⟨outputs, houtputs, rfl⟩ := tagged_eq_some hstep
      exact step_logged hl houtputs
  refine ⟨hl.disciplined, fun hfailed => ?_, fun r hnone => ?_⟩
  · have hphase := hl.phase
    rwa [hfailed] at hphase
  · by_contra hboth
    rw [not_or] at hboth
    obtain ⟨d, hd⟩ := Option.ne_none_iff_exists'.mp hboth.2
    exact mlx90393Step_ne_none (hl.data.trans hd) hboth.1 hnone

def interrupted : List Reply :=
  List.replicate 5 (answer .ok []) ++ [answer .ok [0, 0, 1, 2], answer .timeout []]

theorem mlx90393_disciplined_interrupted : ∃ log t,
    trace (tagged (mlx90393Step false)) interrupted (.start false) = some (log, t) ∧
    Always (Disciplined false) log ∧ (t.pc = .failed → ∀ e ∈ log, e.2.isTransmit = false) ∧
      ∀ r, mlx90393Step false r t = none → t.pc = .failed ∨ latest false log = none := by
  obtain ⟨⟨log, t⟩, hrun⟩ : ∃ p,
      trace (tagged (mlx90393Step false)) interrupted (.start false) = some p :=
    Option.isSome_iff_exists.mp rfl
  exact ⟨log, t, hrun, mlx90393_disciplined false interrupted hrun⟩

end BluePill.Sensor
