import PaymentService.Lib.Schedule
import PaymentService.Proofs.NoLoss

/-!
# Stopping the service

Any state can be brought to one where nothing is at work: the handlers are killed, the messages
they had go back to `payments.new`, and the passes are aborted. A call of the use case that goes on
has its handler in the use case (`attended_step`), so with the handlers dead no session holds a
write.
-/

namespace PaymentService

open Python Labelled

variable {cmd : ℕ → CreatePaymentCommand} {draw : ℕ → Draw} {batchSize : ℕ → ℕ}
  {settings : RabbitSettings}

def SystemLabel.isCreate : SystemLabel → Bool
  | create _ _ => true
  | _ => false

/-! ## What has been used -/

/-- No delivery, call or pass has a number from `N` on. -/
structure Unused (N : ℕ) (s : SystemState) : Prop where
  deliveries : ∀ d, N ≤ d → s.deliveries d = none
  calls : ∀ d, N ≤ d → s.process.calls d = none
  passes : ∀ k, N ≤ k → s.relay.passes k = .start

/-- The number of the delivery, call or pass that takes the step. -/
def SystemLabel.number : SystemLabel → ℕ
  | relay k _ => k
  | deliver d _ | handler d _ | call d _ => d
  | create _ _ | expire _ => 0

theorem number_step {s s' : SystemState} {a : SystemLabel}
    (h : SystemTrans cmd draw batchSize settings s a s') {j : ℕ} (hj : j ≠ a.number) :
    s'.deliveries j = s.deliveries j ∧ s'.process.calls j = s.process.calls j
      ∧ s'.relay.passes j = s.relay.passes j := by
  cases h with
  | request _ => exact ⟨rfl, rfl, rfl⟩
  | created _ _ => exact ⟨rfl, rfl, rfl⟩
  | expire _ => exact ⟨rfl, rfl, rfl⟩
  | pass h => exact ⟨rfl, rfl, passStep_passes h hj⟩
  | call _ _ h => exact ⟨rfl, processStep_calls h hj, rfl⟩
  | begin _ _ _ h => exact ⟨Function.update_of_ne hj _ _, processStep_calls h hj, rfl⟩
  | @crash d x hx =>
    refine ⟨Function.update_of_ne hj _ _, ?_, rfl⟩
    rcases hk : processStep s.process d .kill with _ | process
    · rfl
    · exact processStep_calls hk hj
  | _ => exact ⟨Function.update_of_ne hj _ _, rfl, rfl⟩

theorem unused_step {s s' : SystemState} {a : SystemLabel}
    (h : SystemTrans cmd draw batchSize settings s a s') (hN : ∃ N, Unused N s) :
    ∃ N, Unused N s' := by
  obtain ⟨N, hN⟩ := hN
  have hoff : ∀ j, max N (a.number + 1) ≤ j → N ≤ j ∧ s'.deliveries j = s.deliveries j
      ∧ s'.process.calls j = s.process.calls j ∧ s'.relay.passes j = s.relay.passes j :=
    fun j hj => ⟨by omega, number_step h (by omega)⟩
  refine ⟨max N (a.number + 1), fun d hd => ?_, fun d hd => ?_, fun k hk => ?_⟩
  · obtain ⟨hd, he, -, -⟩ := hoff d hd
    exact he.trans (hN.deliveries d hd)
  · obtain ⟨hd, -, he, -⟩ := hoff d hd
    exact he.trans (hN.calls d hd)
  · obtain ⟨hk, -, -, he⟩ := hoff k hk
    exact he.trans (hN.passes k hk)

/-! ## Calls that go on -/

/-- The call is neither over nor killed. -/
def ProcessPc.goesOn : ProcessPc → Bool
  | returned | raised _ _ | killed _ => false
  | _ => true

/-- The handler of a call that goes on is in the use case. -/
def Attended (s : SystemState) : Prop :=
  ∀ d c, s.process.calls d = some c → c.pc.goesOn = true →
    ∃ x attempt, s.deliveries d = some x ∧ x.pc = .inUseCase attempt

theorem goesOn_of_afterUseCase {m : Message} {attempt : ℤ} {closeError : Option PyError}
    {pc : ProcessPc} {pc' : HandlerPc}
    (h : afterUseCase settings m attempt closeError pc = some pc') : pc.goesOn = false := by
  unfold afterUseCase at h
  split at h
  · rfl
  · rfl
  · cases h

/-- A killed call does not go on. -/
theorem goesOn_kill {s : ProcessState} {k : ℕ} {c : ProcessCall}
    (hc : ((processStep s k .kill).getD s).calls k = some c) : c.pc.goesOn = false := by
  rcases hk : s.calls k with _ | ⟨id, pc⟩
  · simp [processStep, hk] at hc
  · cases pc <;>
      simp only [processStep, hk, Option.bind_some, processKill, Option.getD_some,
        Option.getD_none, ProcessState.setCall_calls, Function.update_self, Option.some_inj]
        at hc <;>
      exact hc ▸ rfl

/-- One delivery and its call change. -/
theorem Attended.setDelivery {s s' : SystemState} (h : Attended s) {d₀ : ℕ} {x₀ : Delivery}
    (hdeliveries : s'.deliveries = Function.update s.deliveries d₀ (some x₀))
    (hcalls : ∀ d, d ≠ d₀ → s'.process.calls d = s.process.calls d)
    (hover : ∀ c, s'.process.calls d₀ = some c → c.pc.goesOn = true →
      ∃ attempt, x₀.pc = .inUseCase attempt) : Attended s' := by
  intro d c hc hgoes
  rw [hdeliveries]
  by_cases hd : d = d₀
  · subst hd
    obtain ⟨attempt, hpc⟩ := hover c hc hgoes
    exact ⟨x₀, attempt, Function.update_self _ _ _, hpc⟩
  · rw [hcalls d hd] at hc
    rw [Function.update_of_ne hd]
    exact h d c hc hgoes

theorem attended_step {s s' : SystemState} {a : SystemLabel} (hs : Attended s)
    (h : SystemTrans cmd draw batchSize settings s a s') : Attended s' := by
  -- a handler that is not in the use case has no call that goes on
  have hover : ∀ {d : ℕ} {x : Delivery}, s.deliveries d = some x →
      (∀ attempt, x.pc ≠ .inUseCase attempt) → ∀ c, s.process.calls d = some c →
        c.pc.goesOn = true → False := by
    intro d x hx hpc c hc hgoes
    obtain ⟨y, attempt, hy, hypc⟩ := hs d c hc hgoes
    obtain rfl := Option.some.inj (hx.symm.trans hy)
    exact hpc attempt hypc
  have hoff : ∀ j, j ≠ a.number → s'.process.calls j = s.process.calls j :=
    fun j hj => (number_step h hj).2.1
  cases h with
  | request _ => exact hs
  | created _ _ => exact hs
  | pass _ => exact hs
  | expire _ => exact hs
  | deliver hd hm =>
    refine hs.setDelivery rfl hoff fun c hc hgoes => ?_
    obtain ⟨x, attempt, hx, -⟩ := hs _ c hc hgoes
    simp [hd] at hx
  | refuse hx hpc _ =>
    exact hs.setDelivery rfl hoff fun c hc hgoes =>
      (hover hx (by simp [hpc]) c hc hgoes).elim
  | useCaseEnds hx hpc hc hafter =>
    refine hs.setDelivery rfl hoff fun c hc' hgoes => ?_
    obtain rfl := Option.some.inj (hc.symm.trans hc')
    simp [goesOn_of_afterUseCase hafter] at hgoes
  | publish hx hpc =>
    exact hs.setDelivery rfl hoff fun c hc hgoes =>
      (hover hx (by simp [hpc]) c hc hgoes).elim
  | ack hx hpc _ =>
    exact hs.setDelivery rfl hoff fun c hc hgoes =>
      (hover hx (by simp [hpc]) c hc hgoes).elim
  | reject hx hpc _ =>
    exact hs.setDelivery rfl hoff fun c hc hgoes =>
      (hover hx (by simp [hpc]) c hc hgoes).elim
  | @takeBack d x hx _ =>
    refine hs.setDelivery rfl hoff fun c hc hgoes => ?_
    obtain ⟨y, attempt, hy, hpc⟩ := hs _ c hc hgoes
    obtain rfl := Option.some.inj (hx.symm.trans hy)
    exact ⟨attempt, hpc⟩
  | @begin d x id attempt process hx hpc hstart h =>
    exact hs.setDelivery rfl hoff fun _ _ _ => ⟨attempt, rfl⟩
  | @crash d x hx =>
    refine hs.setDelivery rfl hoff fun c hc hgoes => ?_
    simp [goesOn_kill hc] at hgoes
  | @call d act x attempt process hx hpc h =>
    intro j c hc hgoes
    by_cases hj : j = d
    · exact ⟨x, attempt, hj ▸ hx, hpc⟩
    · exact hs j c (by rwa [hoff j hj] at hc) hgoes

theorem unused_run {s : SystemState} (h : (system cmd draw batchSize settings).Reachable .init s) :
    ∃ N, Unused N s :=
  (h.inv (I := fun s => SystemInv cmd draw s ∧ ∃ N, Unused N s)
    (fun _ _ _ hs hstep => ⟨systemInv_step hs.1 hstep,
      unused_step (system_trans hs.1.requests hstep) hs.2⟩)
    ⟨systemInv_init, 0, fun _ _ => rfl, fun _ _ => rfl, fun _ _ => rfl⟩).2

theorem attended_run {s : SystemState}
    (h : (system cmd draw batchSize settings).Reachable .init s) : Attended s :=
  (h.inv (I := fun s => SystemInv cmd draw s ∧ Attended s)
    (fun _ _ _ hs hstep => ⟨systemInv_step hs.1 hstep,
      attended_step hs.2 (system_trans hs.1.requests hstep)⟩)
    ⟨systemInv_init, by simp [Attended, SystemState.init, ProcessState.init]⟩).2

/-! ## Stopping the handlers -/

/-- What stopping some handlers leaves as it was. -/
structure Stops (s s' : SystemState) : Prop where
  relay : s'.relay = s.relay
  dlq : s'.queues dlqQueue = s.queues dlqQueue
  deliveries : ∀ d x', s'.deliveries d = some x' → ∃ x, s.deliveries d = some x
    ∧ (x.pc = .dead → x'.pc = .dead) ∧ (x.unacked = false → x'.unacked = false)

namespace Stops

theorem refl (s : SystemState) : Stops s s := ⟨rfl, rfl, fun _ x hx => ⟨x, hx, id, id⟩⟩

theorem trans (s t u : SystemState) (h : Stops s t) (h' : Stops t u) : Stops s u := by
  refine ⟨h'.relay.trans h.relay, h'.dlq.trans h.dlq, fun d x'' hx'' => ?_⟩
  obtain ⟨x', hx', hdead', hacked'⟩ := h'.deliveries d x'' hx''
  obtain ⟨x, hx, hdead, hacked⟩ := h.deliveries d x' hx'
  exact ⟨x, hx, hdead' ∘ hdead, hacked' ∘ hacked⟩

/-- One handler is stopped a little more. -/
theorem of_setDelivery {s s' : SystemState} {d₀ : ℕ} {x x₀ : Delivery} (hrelay : s'.relay = s.relay)
    (hdlq : s'.queues dlqQueue = s.queues dlqQueue) (hx : s.deliveries d₀ = some x)
    (hdeliveries : s'.deliveries = Function.update s.deliveries d₀ (some x₀))
    (hdead : x.pc = .dead → x₀.pc = .dead) (hacked : x.unacked = false → x₀.unacked = false) :
    Stops s s' := by
  refine ⟨hrelay, hdlq, fun d x' hx' => ?_⟩
  rw [hdeliveries] at hx'
  by_cases hd : d = d₀
  · subst hd
    rw [Function.update_self, Option.some_inj] at hx'
    subst hx'
    exact ⟨x, hx, hdead, hacked⟩
  · rw [Function.update_of_ne hd] at hx'
    exact ⟨x', hx', id, id⟩

end Stops

/-- The handler of the delivery, if there is one, is dead and its message not unacknowledged. -/
def Stopped (d : ℕ) (s : SystemState) : Prop :=
  ∀ x, s.deliveries d = some x → x.pc = .dead ∧ x.unacked = false

theorem Stopped.of_stops {d : ℕ} {s s' : SystemState} (h : Stops s s') (hs : Stopped d s) :
    Stopped d s' := by
  intro x' hx'
  obtain ⟨x, hx, hdead, hacked⟩ := h.deliveries d x' hx'
  exact ⟨hdead (hs x hx).1, hacked (hs x hx).2⟩

theorem crash_runs {s : SystemState} {d : ℕ} {x : Delivery} (hx : s.deliveries d = some x) :
    ∃ s', (system cmd draw batchSize settings).Reaches (·.isCreate = false) s s' ∧ Stops s s'
      ∧ s'.deliveries d = some { x with pc := .dead } := by
  by_cases hdead : x.pc = .dead
  · exact ⟨s, .refl s, .refl s, by rw [hx, ← hdead]⟩
  · have hstep : (system cmd draw batchSize settings).step s (.handler d .crash) =
        some ({ s with process := (processStep s.process d .kill).getD s.process }.setDelivery d
          { x with pc := .dead }) := by
      simp only [system, hx, Option.bind_some, handlerStep]
    exact ⟨_, .single rfl hstep, .of_setDelivery rfl rfl hx rfl (fun _ => rfl) id,
      Function.update_self _ _ _⟩

theorem takeBack_runs {s : SystemState} {d : ℕ} {x : Delivery} (hx : s.deliveries d = some x) :
    ∃ s', (system cmd draw batchSize settings).Reaches (·.isCreate = false) s s' ∧ Stops s s'
      ∧ s'.deliveries d = some { x with unacked := false } := by
  by_cases hunacked : x.unacked = true
  · have hstep : (system cmd draw batchSize settings).step s (.handler d .takeBack) =
        some ({ s with queues := s.queues.enqueue [newQueue] x.message }.setDelivery d
          { x with unacked := false }) := by
      simp only [system, hx, Option.bind_some, handlerStep, hunacked, if_true]
    refine ⟨_, .single rfl hstep, .of_setDelivery rfl ?_ hx rfl id (fun _ => rfl),
      Function.update_self _ _ _⟩
    simp [SystemState.setDelivery, Queues.enqueue, show dlqQueue ≠ newQueue by decide]
  · have hacked : x.unacked = false := by simpa using hunacked
    exact ⟨s, .refl s, .refl s, by rw [hx, ← hacked]⟩

theorem stop_runs (d : ℕ) (s : SystemState) :
    ∃ s', (system cmd draw batchSize settings).Reaches (·.isCreate = false) s s' ∧ Stops s s'
      ∧ Stopped d s' := by
  rcases hd : s.deliveries d with _ | x
  · exact ⟨s, .refl s, .refl s, fun x hx => by simp [hd] at hx⟩
  · obtain ⟨t, hst, hstops, ht⟩ := crash_runs hd
    obtain ⟨u, htu, hstops', hu⟩ := takeBack_runs ht
    refine ⟨u, hst.trans htu, hstops.trans _ _ _ hstops', fun y hy => ?_⟩
    obtain rfl := Option.some.inj (hu.symm.trans hy)
    exact ⟨rfl, rfl⟩

/-- All handlers can be stopped, and then no session holds a write. -/
theorem exists_stopped {s : SystemState}
    (h : (system cmd draw batchSize settings).Reachable .init s) :
    ∃ s', (system cmd draw batchSize settings).Reaches (·.isCreate = false) s s'
      ∧ s'.relay = s.relay ∧ s'.queues dlqQueue = s.queues dlqQueue
      ∧ (∀ d x, s'.deliveries d = some x → x.unacked = false) ∧ s'.process.writes = [] := by
  obtain ⟨N, hN⟩ := unused_run h
  obtain ⟨s', hreach, hs', hstops, hfirst⟩ := Machine.exists_sweep
    (I := (system cmd draw batchSize settings).Reachable .init) (Q := Stopped) Stops.refl
    Stops.trans (fun _ _ _ => Stopped.of_stops) (fun d s hs => by
      obtain ⟨t, hst, hstops, hd⟩ := stop_runs d s
      exact ⟨t, hst, hst.reachable hs, hstops, hd⟩) N s h
  have hall : ∀ d, Stopped d s' := by
    intro d
    rcases Nat.lt_or_ge d N with hd | hd
    · exact hfirst d hd
    · intro x' hx'
      obtain ⟨x, hx, -⟩ := hstops.deliveries d x' hx'
      simp [hN.deliveries d hd] at hx
  refine ⟨s', hreach, hstops.relay, hstops.dlq, fun d x hx => (hall d x hx).2,
    List.eq_nil_iff_forall_not_mem.2 fun w hw => ?_⟩
  obtain ⟨p, hcall⟩ := ((systemInv_run hs').process.writes w hw).call
  obtain ⟨x, attempt, hx, hpc⟩ := attended_run hs' _ _ hcall rfl
  simp [(hall _ x hx).1] at hpc

/-! ## Aborting the passes -/

def PassPc.isOpen : PassPc → Bool
  | publishing _ _ _ => true
  | start | committed _ | aborted => false

/-- What aborting some passes leaves as it was. -/
structure Aborts (s s' : SystemState) : Prop where
  process : s'.process = s.process
  queues : s'.queues = s.queues
  deliveries : s'.deliveries = s.deliveries
  outbox : s'.relay.outbox = s.relay.outbox
  passes : ∀ k, (s.relay.passes k).isOpen = false → (s'.relay.passes k).isOpen = false

namespace Aborts

theorem refl (s : SystemState) : Aborts s s := ⟨rfl, rfl, rfl, rfl, fun _ h => h⟩

theorem trans (s t u : SystemState) (h : Aborts s t) (h' : Aborts t u) : Aborts s u :=
  ⟨h'.process.trans h.process, h'.queues.trans h.queues, h'.deliveries.trans h.deliveries,
    h'.outbox.trans h.outbox, fun k hk => h'.passes k (h.passes k hk)⟩

end Aborts

theorem queuesAfterPass_of_ne {queues : Queues} {pc : PassPc} {act : PassAct}
    (h : ∀ outcome, act ≠ .publish outcome) : queuesAfterPass queues pc act = queues := by
  unfold queuesAfterPass
  split
  · exact absurd rfl (h _)
  · rfl

theorem abort_runs (k : ℕ) (s : SystemState) :
    ∃ s', (system cmd draw batchSize settings).Reaches (·.isCreate = false) s s' ∧ Aborts s s'
      ∧ (s'.relay.passes k).isOpen = false := by
  rcases hk : s.relay.passes k with _ | ⟨done, todo, n⟩ | n | _
  · exact ⟨s, .refl s, .refl s, by rw [hk]; rfl⟩
  · have hstep : (system cmd draw batchSize settings).step s (.relay k .abort) =
        some { s with relay := (s.relay.unlock k).setPass k .aborted } := by
      simp only [system, relaySystemStep, passStep, hk, Option.map_some]
      rw [queuesAfterPass_of_ne (by simp)]
    have hself : (((s.relay.unlock k).setPass k .aborted).passes k).isOpen = false := by simp; rfl
    refine ⟨_, .single rfl hstep, ⟨rfl, rfl, rfl, rfl, fun j hj => ?_⟩, hself⟩
    by_cases hjk : j = k
    · exact hjk ▸ hself
    · exact (congrArg PassPc.isOpen (Function.update_of_ne hjk _ _)).trans hj
  · exact ⟨s, .refl s, .refl s, by rw [hk]; rfl⟩
  · exact ⟨s, .refl s, .refl s, by rw [hk]; rfl⟩

/-- Nothing is at work: no message is unacknowledged, no session holds a write, no pass a lock. -/
structure Quiet (s : SystemState) : Prop where
  acked : ∀ d x, s.deliveries d = some x → x.unacked = false
  writes : s.process.writes = []
  locks : s.relay.locks = []

/-- From any reachable state the service can be stopped. -/
theorem exists_quiet {s : SystemState}
    (h : (system cmd draw batchSize settings).Reachable .init s) :
    ∃ s', (system cmd draw batchSize settings).Reaches (·.isCreate = false) s s' ∧ Quiet s'
      ∧ s'.queues dlqQueue = s.queues dlqQueue := by
  obtain ⟨t, hst, -, hdlq, hacked, hwrites⟩ := exists_stopped h
  obtain ⟨N, hN⟩ := unused_run (hst.reachable h)
  obtain ⟨u, htu, hu, haborts, hfirst⟩ := Machine.exists_sweep
    (I := (system cmd draw batchSize settings).Reachable .init)
    (Q := fun k s => (s.relay.passes k).isOpen = false) Aborts.refl Aborts.trans
    (fun k _ _ h hk => h.passes k hk) (fun k s hs => by
      obtain ⟨t, hst, haborts, hk⟩ := abort_runs k s
      exact ⟨t, hst, hst.reachable hs, haborts, hk⟩) N t (hst.reachable h)
  have hall : ∀ k, (u.relay.passes k).isOpen = false := by
    intro k
    rcases Nat.lt_or_ge k N with hk | hk
    · exact hfirst k hk
    · exact haborts.passes k (by rw [hN.passes k hk]; rfl)
  refine ⟨u, hst.trans htu, ⟨haborts.deliveries ▸ hacked, haborts.process ▸ hwrites,
    List.eq_nil_iff_forall_not_mem.2 fun l hl => ?_⟩, haborts.queues ▸ hdlq⟩
  obtain ⟨done, todo, n, hpc⟩ := (systemInv_run hu).relay.held l hl
  have hopen := hall l.pass
  rw [hpc] at hopen
  cases hopen

end PaymentService
