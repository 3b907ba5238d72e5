import BluePillJs.Library.SharedResource
import BluePillJs.Sensor.Lsm303

/-! Several sensor threads on one I2C bus. `main` starts one and every `restart` command
another; `i2c_write` holds the lock of the bus during the transfer and no longer. -/

namespace BluePill.Sensor
open PartialRuns PastTime SharedResource

structure I2cRequest where
  addr : UInt8
  tx : List UInt8
  rxsize : ℕ
  deriving DecidableEq

def Thread.request (s : Chip) (t : Thread) : Option I2cRequest :=
  if t.exited then none
  else match t.pending with
    | tx :: _ => some ⟨s.addr, tx, 0⟩
    | [] => some ⟨s.addr, [s.startReg], 8⟩

def sensorClient (s : Chip) : Client Thread I2cRequest Reply Output :=
  ⟨Thread.request s, threadStep s⟩

abbrev BusMark : Type := Mark ℕ I2cRequest Reply Output

abbrev BusEvent : Type := SharedResource.Event ℕ Thread Reply

def busStep (s : Chip) : BusEvent → Pool ℕ Thread I2cRequest Reply →
    Option (List BusMark × Pool ℕ Thread I2cRequest Reply) := SharedResource.step (sensorClient s)

section
variable {s : Chip} {r : Reply} {t t' : Thread} {os new : List Output}
  {used : List (I2cRequest × Reply)} {q : I2cRequest}

theorem request_init {tx : List UInt8} {rest : List (List UInt8)} (he : t.exited = false)
    (hp : t.pending = tx :: rest) : t.request s = some ⟨s.addr, tx, 0⟩ := by
  rw [Thread.request, he, hp]
  rfl

theorem request_loop (he : t.exited = false) (hp : t.pending = []) :
    t.request s = some ⟨s.addr, [s.startReg], 8⟩ := by
  rw [Thread.request, he, hp]
  rfl

def Output.transfer? : Output → Option I2cRequest
  | .i2c addr tx rxsize => some ⟨addr, tx, rxsize⟩
  | _ => none

inductive ThreadTurn (s : Chip) (r : Reply) (t : Thread) : List Output → Thread → Prop
  | acknowledged {tx : List UInt8} {rest : List (List UInt8)} {t' : Thread}
    (hp : t.pending = tx :: rest) (hr : r.res = .ok) (hp' : t'.pending = rest) :
    ThreadTurn s r t [.i2c s.addr tx 0] t'
  | refused {tx : List UInt8} {rest : List (List UInt8)} {o : Output} {t' : Thread}
    (hp : t.pending = tx :: rest) (ho : ∀ x y, o ≠ .transmit x y) (hquiet : o.transfer? = none)
    (hp' : t'.pending = t.pending) :
    ThreadTurn s r t [.i2c s.addr tx 0, o, .notFound s.name] t'
  | turned {os : List Output} {t' : Thread} (hp : t.pending = [])
    (hquiet : os.filterMap Output.transfer? = []) (hp' : t'.pending = []) :
    ThreadTurn s r t (.i2c s.addr [s.startReg] 8 :: os) t'

theorem threadStep_turn (h : threadStep s r t = some (os, t')) :
    t.exited = false ∧ ThreadTurn s r t os t' := by
  cases he : t.exited with
  | true =>
    rw [threadStep, he, if_pos rfl] at h
    cases h
  | false =>
    refine ⟨rfl, ?_⟩
    cases hp : t.pending with
    | cons tx rest =>
      cases hr : r.res with
      | ok =>
        rw [threadStep_init hp he hr] at h
        cases h
        exact .acknowledged hp hr rfl
      | _ =>
        rw [threadStep, he, hp, hr] at h
        cases h
        exact .refused hp (fun _ _ => Output.noConfusion) rfl hp.symm
    | nil =>
      rw [threadStep_loop hp he] at h
      obtain ⟨d, _, heq⟩ := Option.bind_eq_some_iff.mp h
      obtain ⟨hos, ht⟩ := Prod.mk.inj (Option.some.inj heq)
      obtain ⟨more, hsent, hquiet⟩ : ∃ more, (lsm303Read s.addr s.startReg r t.data).2.1 =
          .i2c s.addr [s.startReg] 8 :: more ∧ more.filterMap Output.transfer? = [] := by
        unfold lsm303Read
        cases r.res <;> exact ⟨_, rfl, rfl⟩
      rw [← hos, hsent, ← ht, List.cons_append]
      refine .turned hp ?_ hp
      rw [List.filterMap_append, hquiet]
      rfl

theorem threadStep_transfer (h : threadStep s r t = some (os, t')) (hq : t.request s = some q) :
    os.filterMap Output.transfer? = [q] := by
  obtain ⟨he, hturn⟩ := threadStep_turn h
  cases hturn with
  | acknowledged hp =>
    cases hq.symm.trans (request_init he hp)
    rfl
  | refused hp _ hquiet =>
    cases hq.symm.trans (request_init he hp)
    rw [List.filterMap_cons, List.filterMap_cons_none hquiet]
    rfl
  | turned hp hquiet =>
    cases hq.symm.trans (request_loop he hp)
    rw [List.filterMap_cons, hquiet]
    rfl

theorem client_step (h : (sensorClient s).step (q, r) t = some (os, t')) :
    t.request s = some q ∧ threadStep s r t = some (os, t') := by
  rw [Client.step] at h
  split_ifs at h with hq
  exact ⟨hq, h⟩

theorem client_run (h : trace (sensorClient s).step used t = some (os, t')) :
    trace (threadStep s) (used.map Prod.snd) t = some (os, t') ∧
      os.filterMap Output.transfer? = used.map Prod.fst := by
  induction used generalizing t os with
  | nil =>
    cases h
    exact ⟨rfl, rfl⟩
  | cons x used ih =>
    obtain ⟨os₁, m, os₂, hstep, hrest, rfl⟩ := trace_cons_eq_some h
    obtain ⟨hq, hstep⟩ := client_step hstep
    obtain ⟨hrun, htransfers⟩ := ih hrest
    rw [List.map_cons, List.map_cons, trace, hstep, Option.bind_some, hrun,
      List.filterMap_append, threadStep_transfer hstep hq, htransfers]
    exact ⟨rfl, rfl⟩

def Chip.requests (s : Chip) : List I2cRequest :=
  ⟨s.addr, [s.startReg], 8⟩ :: s.initWrites.map fun tx => ⟨s.addr, tx, 0⟩

def Acked (s : Chip) (tx : List UInt8) (used : List (I2cRequest × Reply)) : Prop :=
  ∃ r, (⟨s.addr, tx, 0⟩, r) ∈ used ∧ r.res = .ok

structure Initialising (s : Chip) (used : List (I2cRequest × Reply)) (t : Thread) : Prop where
  pending : t.pending <:+ s.initWrites
  acked : ∀ tx ∈ s.initWrites, tx ∈ t.pending ∨ Acked s tx used
  requests : ∀ q r, (q, r) ∈ used → q ∈ s.requests

theorem Acked.append {tx : List UInt8} (h : Acked s tx used) (more : List (I2cRequest × Reply)) :
    Acked s tx (used ++ more) := by
  obtain ⟨r, hmem, hr⟩ := h
  exact ⟨r, List.mem_append_left more hmem, hr⟩

theorem initialising_start (s : Chip) : Initialising s [] (.start s) where
  pending := List.suffix_rfl
  acked _ h := .inl h
  requests _ _ h := absurd h List.not_mem_nil

theorem Initialising.request_mem (h : Initialising s used t) (hq : t.request s = some q) :
    q ∈ s.requests := by
  unfold Thread.request at hq
  split_ifs at hq
  have hpending := h.pending
  cases hp : t.pending with
  | nil =>
    rw [hp] at hq
    cases hq
    exact List.mem_cons_self
  | cons tx rest =>
    rw [hp] at hq hpending
    cases hq
    apply List.mem_cons_of_mem
    exact List.mem_map.mpr ⟨tx, hpending.subset List.mem_cons_self, rfl⟩

theorem initialising_step (h : Initialising s used t)
    (hstep : (sensorClient s).step (q, r) t = some (os, t')) :
    Initialising s (used ++ [(q, r)]) t' := by
  obtain ⟨hq, hstep⟩ := client_step hstep
  obtain ⟨he, hturn⟩ := threadStep_turn hstep
  have hrequests : ∀ q' r', (q', r') ∈ used ++ [(q, r)] → q' ∈ s.requests := by
    intro q' r' hmem
    rcases List.mem_append.mp hmem with hold | hnew
    · exact h.requests q' r' hold
    · cases List.mem_singleton.mp hnew
      exact h.request_mem hq
  have hkept : ∀ tx ∈ s.initWrites, tx ∈ t.pending ∨ Acked s tx (used ++ [(q, r)]) :=
    fun tx htx => (h.acked tx htx).imp_right fun hacked => hacked.append _
  cases hturn with
  | @acknowledged tx rest _ hp hr hp' =>
    obtain rfl := Option.some.inj (hq.symm.trans (request_init he hp))
    refine ⟨?_, fun tx' htx' => ?_, hrequests⟩
    · rw [hp']
      exact (List.suffix_cons tx rest).trans (hp ▸ h.pending)
    · rcases hkept tx' htx' with hpending | hacked
      · rw [hp] at hpending
        rcases List.mem_cons.mp hpending with rfl | hrest
        · exact .inr ⟨r, List.mem_append_right _ (List.mem_singleton.mpr rfl), hr⟩
        · exact .inl (hp' ▸ hrest)
      · exact .inr hacked
  | refused _ _ _ hp' => exact ⟨hp' ▸ h.pending, hp' ▸ hkept, hrequests⟩
  | turned hp _ hp' =>
    rw [← hp] at hp'
    exact ⟨hp' ▸ h.pending, hp' ▸ hkept, hrequests⟩

theorem initialising_run (h : trace (sensorClient s).step used (.start s) = some (os, t)) :
    Initialising s used t :=
  trace_invariant (R := Initialising s) (fun _ _ _ _ _ hi hstep => initialising_step hi hstep)
    (initialising_start s) h

theorem sensorClient_justifies (s : Chip) :
    (sensorClient s).Justifies (fun t => t = .start s) fun used o =>
      ∀ x y, o = .transmit x y → ∀ tx ∈ s.initWrites, Acked s tx used := by
  rintro _ rfl used os t ⟨q, r⟩ new t' hrun hstep o ho x y rfl tx htx
  have hnext := initialising_step (initialising_run hrun) hstep
  cases (threadStep_turn (client_step hstep).2).2 with
  | acknowledged => exact nomatch List.mem_singleton.mp ho
  | refused _ hother _ _ =>
    simp only [List.mem_cons, List.not_mem_nil, or_false, reduceCtorEq, false_or] at ho
    exact absurd ho.symm (hother x y)
  | turned _ _ hp' =>
    rcases hnext.acked tx htx with hpending | hacked
    · rw [hp'] at hpending
      exact absurd hpending List.not_mem_nil
    · exact hacked

end

/-! ## The registers of the sensor -/

abbrev BusExchange : Type := Exchange ℕ I2cRequest Reply

/-- What the registers may hold after these exchanges: an acknowledged write is stored, and
one that fails may have been. -/
inductive Written (addr : UInt8) : List BusExchange → (UInt8 → UInt8) → Prop
  | powerOn (regs : UInt8 → UInt8) : Written addr [] regs
  | stored {done : List BusExchange} {regs : UInt8 → UInt8} {x : BusExchange} {reg v : UInt8}
    (h : Written addr done regs) (haddr : x.2.1.addr = addr) (htx : x.2.1.tx = [reg, v]) :
    Written addr (done ++ [x]) (Function.update regs reg v)
  | kept {done : List BusExchange} {regs : UInt8 → UInt8} {x : BusExchange}
    (h : Written addr done regs) (hx : x.2.2.res = .ok → x.2.1.addr = addr →
      ∀ reg v, x.2.1.tx ≠ [reg, v]) :
    Written addr (done ++ [x]) regs

/-- The registers of the init hold their values, whatever they held before. -/
def Configured (s : Chip) (done : List BusExchange) : Prop :=
  ∀ regs, Written s.addr done regs → ∀ reg v, [reg, v] ∈ s.initWrites → regs reg = v

theorem Written.eq_of_acked {addr : UInt8} {done : List BusExchange} {regs : UInt8 → UInt8}
    {reg v : UInt8} (h : Written addr done regs)
    (hsame : ∀ x ∈ done, ∀ u, x.2.1.tx = [reg, u] → u = v)
    (hacked : ∃ x ∈ done, x.2.1.addr = addr ∧ x.2.1.tx = [reg, v] ∧ x.2.2.res = .ok) :
    regs reg = v := by
  induction h with
  | powerOn regs =>
    obtain ⟨x, hx, _⟩ := hacked
    exact absurd hx List.not_mem_nil
  | @stored done regs x reg' v' h haddr htx ih =>
    rw [List.forall_mem_append, List.forall_mem_singleton] at hsame
    rw [Function.update_apply]
    split_ifs with hreg
    · exact hsame.2 v' (hreg ▸ htx)
    · obtain ⟨y, hy, hyaddr, hytx, hyok⟩ := hacked
      rcases List.mem_append.mp hy with hold | hnew
      · exact ih hsame.1 ⟨y, hold, hyaddr, hytx, hyok⟩
      · obtain rfl := List.mem_singleton.mp hnew
        exact absurd (List.cons.inj (hytx.symm.trans htx)).1 hreg
  | @kept done regs x h hx ih =>
    rw [List.forall_mem_append] at hsame
    obtain ⟨y, hy, hyaddr, hytx, hyok⟩ := hacked
    rcases List.mem_append.mp hy with hold | hnew
    · exact ih hsame.1 ⟨y, hold, hyaddr, hytx, hyok⟩
    · obtain rfl := List.mem_singleton.mp hnew
      exact absurd hytx (hx hyok hyaddr reg v)

/-! ## All threads together -/

variable {s : Chip} {marks : List BusMark} {w : Pool ℕ Thread I2cRequest Reply}

theorem registers_distinct (hs : s = lsm303c ∨ s = lsm303dlhc) :
    ∀ a ∈ s.initWrites, ∀ b ∈ s.initWrites, a.head? = b.head? → a = b := by
  rcases hs with rfl | rfl <;> decide

theorem write_of_request {q : I2cRequest} {reg v : UInt8} (hq : q ∈ s.requests)
    (htx : q.tx = [reg, v]) : [reg, v] ∈ s.initWrites := by
  rcases List.mem_cons.mp hq with rfl | hinit
  · exact absurd (List.cons.inj htx).2.symm (List.cons_ne_nil v [])
  · obtain ⟨tx, hmem, rfl⟩ := List.mem_map.mp hinit
    exact htx ▸ hmem

structure Orderly (s : Chip) (marks : List BusMark) (w : Pool ℕ Thread I2cRequest Reply) : Prop where
  serial : ∃ done, Serial marks done w.inFlight ∧ ∀ i t p, w.clients i = some (t, p) →
    ∃ used, used <+: own i done ∧ (own i done).length ≤ used.length + 1 ∧
      trace (threadStep s) (used.map Prod.snd) (.start s) = some (outputs i marks, t) ∧
      (outputs i marks).filterMap Output.transfer? = used.map Prod.fst
  configured : ∀ before i x y after, marks = before ++ .out i (.transmit x y) :: after →
    ∃ done inFlight, Serial before done inFlight ∧ Configured s done
  admitted : ∀ i t, w.clients i = some (t, .outside) → t.exited = false → ∀ r : Reply,
    ∃ j turns, turns <:+ [.send j, .answer r, .release j] ∧
      ∃ ms w', trace (busStep s) (turns ++ [.acquire i]) w = some (ms, w') ∧ w'.owner = some i

theorem used_replies {done : List BusExchange} {i : ℕ} {t : Thread} {p : SharedResource.Phase Reply}
    {used : List (I2cRequest × Reply)} (h : (sensorClient s).Used t used (own i done) p) :
    used <+: own i done ∧ (own i done).length ≤ used.length + 1 := by
  have hlast : ∀ r, (∃ q, (sensorClient s).request t = some q ∧ own i done = used ++ [(q, r)]) →
      used <+: own i done ∧ (own i done).length ≤ used.length + 1 := by
    rintro r ⟨q, _, heq⟩
    rw [heq]
    exact ⟨List.prefix_append _ _, (List.length_append).le⟩
  cases p with
  | answered r => exact hlast r h
  | released r => exact hlast r h
  | _ =>
    rw [show own i done = used from h]
    exact ⟨List.prefix_rfl, Nat.le_succ _⟩

theorem configured_of_acked (hs : s = lsm303c ∨ s = lsm303dlhc) {before : List BusMark}
    {done : List BusExchange} {inFlight : Option (ℕ × I2cRequest)} {i : ℕ}
    (hrequests : ∀ i q, .sent i q ∈ before → q ∈ s.requests)
    (hserial : Serial before done inFlight)
    (hacked : ∀ tx ∈ s.initWrites, Acked s tx (own i done)) : Configured s done := by
  intro regs hregs reg v hv
  apply hregs.eq_of_acked
  · rintro ⟨j, q, r⟩ hmem u hu
    have hu' := write_of_request (hrequests j q (hserial.sent_mem hmem)) hu
    have heq := registers_distinct hs _ hu' _ hv rfl
    exact (List.cons.inj (List.cons.inj heq).2).1
  · obtain ⟨r, hmem, hr⟩ := hacked _ hv
    exact ⟨_, mem_own.mp hmem, rfl, rfl, hr⟩

/-- However the threads of a sensor take turns, and whatever the bus answers, each of them
runs as if it were alone, every heading is handed over while the sensor is configured, and
a thread that waits for the bus can have it once the transfer of its owner is through. -/
theorem bus_orderly (hs : s = lsm303c ∨ s = lsm303dlhc) (events : List BusEvent)
    (hjoin : ∀ i t, .join i t ∈ events → t = .start s)
    (hrun : trace (busStep s) events .start = some (marks, w)) : Orderly s marks w := by
  obtain ⟨done, h⟩ := run_coherent (sensorClient s) hrun
  have hrequests : ∀ i q, .sent i q ∈ marks → q ∈ s.requests := by
    intro i q hsent
    obtain ⟨t₀, used, os, t, hf, halone, hq⟩ := h.sent_request hsent
    obtain rfl := joined_init hjoin _ _ hf
    have hinit := initialising_run halone
    rcases hq with hnow | ⟨r, hmem⟩
    · exact hinit.request_mem hnow
    · exact hinit.requests q r hmem
  refine ⟨⟨done, h.serial, fun i t p hi => ?_⟩, fun before i x y after hsplit => ?_,
    fun i t hi he r => ?_⟩
  · obtain ⟨t₀, used, hf, halone, hused⟩ := h.alone_run hi
    obtain rfl := joined_init hjoin _ _ hf
    obtain ⟨hinitial, hlen⟩ := used_replies hused
    exact ⟨used, hinitial, hlen, client_run halone⟩
  · have hall := run_justified (sensorClient_justifies s) hjoin hrun
    obtain ⟨done', inFlight, hserial, hacked⟩ := hall before _ after hsplit
    refine ⟨done', inFlight, hserial, configured_of_acked hs ?_ hserial (hacked x y rfl)⟩
    intro j q hsent
    apply hrequests j q
    rw [hsplit]
    exact List.mem_append_left _ hsent
  · obtain ⟨q, hq⟩ : ∃ q, t.request s = some q := by
      cases hp : t.pending with
      | nil => exact ⟨_, request_loop he hp⟩
      | cons tx rest => exact ⟨_, request_init he hp⟩
    exact h.admits hi hq r

def twoThreads : List BusEvent :=
  [.join 0 (.start lsm303c), .acquire 0, .send 0, .join 1 (.start lsm303c),
    .answer (answer .ok []), .release 0, .acquire 1, .resume 0, .send 1,
    .answer (answer .timeout []), .release 1, .resume 1]

theorem bus_orderly_two : ∃ marks w,
    trace (busStep lsm303c) twoThreads .start = some (marks, w) ∧ Orderly lsm303c marks w := by
  have hrun : ∃ marks w, trace (busStep lsm303c) twoThreads .start = some (marks, w) :=
    ⟨_, _, rfl⟩
  have hjoin : ∀ i t, .join i t ∈ twoThreads → t = .start lsm303c := by
    intro i t hmem
    simp only [twoThreads, List.mem_cons, List.not_mem_nil, reduceCtorEq, false_or, or_false,
      SharedResource.Event.join.injEq] at hmem
    rcases hmem with ⟨_, ht⟩ | ⟨_, ht⟩ <;> exact ht
  obtain ⟨marks, w, hrun⟩ := hrun
  exact ⟨marks, w, hrun, bus_orderly (.inl rfl) twoThreads hjoin hrun⟩

end BluePill.Sensor
