import PaymentService.Proofs.HandlerRuns
import PaymentService.Proofs.Recovery
import PaymentService.Proofs.RelayWork

/-!
# The service settles on any schedule

Let no payment be stored any more, no handler die, and every publish of a relay return. Whatever
else fails then, and in whatever order the steps come, each step that does something takes from the
work there is (`work_step`), and while the service is not at rest one can be taken
(`exists_works`): a call that waits for a row lock waits for one that can commit. So there are only
so many steps to the end, and the end is at rest.
-/

namespace PaymentService

open Python Labelled Amortized

variable {cmd : ℕ → CreatePaymentCommand} {draw : ℕ → Draw} {batchSize : ℕ → ℕ}
  {settings : RabbitSettings}

/-! ## Steps that bring no work, and steps that do some -/

def HandlerPc.isDead : HandlerPc → Bool
  | dead => true
  | received | inUseCase _ | onFailure _ | returned | raised _ => false

/-- No payment is stored, no pass and no publish of a pass raises, no handler dies, and the broker
takes only the messages of dead handlers back. -/
def calm (x : SystemState × SystemLabel × SystemState) : Bool :=
  match x.2.1 with
  | .create _ _ => x.2.2.process.payments.length = x.1.process.payments.length
  | .relay _ act => act.goesWell
  | .handler _ .crash => false
  | .handler d .takeBack => (x.1.deliveries d).any fun y => y.pc.isDead
  | .handler _ _ | .deliver _ _ | .call _ _ | .expire _ => true

/-- A step of a pass that has rows, of a message or of its handler. -/
def works (x : SystemState × SystemLabel × SystemState) : Bool :=
  match x.2.1 with
  | .create _ _ => false
  | .relay k _ => (x.1.relay.passes k).hasRows || (x.2.2.relay.passes k).hasRows
  | .handler _ _ | .deliver _ _ | .call _ _ | .expire _ => true

/-! ## The work there is -/

/-- The awaits a call still has before it at most. -/
def ProcessPc.awaits : ProcessPc → ℕ
  | get => 8
  | charge _ => 7
  | charging _ => 6
  | updateStatus _ => 5
  | commit _ _ => 4
  | getAgain _ => 3
  | send _ => 2
  | sending _ => 1
  | returned | raised _ _ | killed _ => 0

/-- An attempt takes at most 14 steps from `payments.retry` to the acknowledgement, the first of
which the message in `payments.new` has behind it. -/
def messageWork (settings : RabbitSettings) (q : RabbitQueue) (m : Message) : ℕ :=
  if q = dlqQueue then 0
  else if q = newQueue then 14 * attemptsLeft settings m - 1
  else 14 * attemptsLeft settings m

/-- What a delivery and its call still lead to. -/
def handlerWork (settings : RabbitSettings) : Option Delivery × Option ProcessCall → ℕ
  | (none, _) => 0
  | (some x, c) =>
    match x.pc with
    | .received => 14 * attemptsLeft settings x.message - 2
    | .inUseCase _ =>
      14 * (attemptsLeft settings x.message - 1) + 3 + c.elim 0 fun c => c.pc.awaits
    | .onFailure _ => 14 * (attemptsLeft settings x.message - 1) + 2
    | .returned | .raised _ => if x.unacked then 1 else 0
    | .dead => if x.unacked then 14 * attemptsLeft settings x.message else 0

def queuedWork (settings : RabbitSettings) (queues : Queues) : ℕ :=
  queueSum (messageWork settings) queues

/-- What an event brings that the relay publishes. -/
def eventWork (settings : RabbitSettings) : ℕ := 14 * settings.attempts - 1

/-- The work in the queues, in some deliveries, and in some passes and the rows that wait. -/
def SystemState.work (settings : RabbitSettings) (U : Finset ℕ) (s : SystemState) : ℕ :=
  queuedWork settings s.queues
    + ∑ d ∈ U, handlerWork settings (s.deliveries d, s.process.calls d)
    + s.relay.work (eventWork settings) U

/-! ## Calls -/

section

variable {s s' : ProcessState} {d : ℕ} {c : ProcessCall} {act : ProcessAct}

/-- The call is nearer to its end than `n`, and was not killed. -/
def ProcessPc.IsWithin (n : ℕ) (pc : ProcessPc) : Prop := pc.awaits < n ∧ ∀ at_, pc ≠ .killed at_

theorem isWithin_afterGet (id : UUID) (found : Except PyError (Option Payment)) :
    (afterGet id found).IsWithin 8 := by
  unfold afterGet
  split
  · simp [ProcessPc.IsWithin, ProcessPc.awaits]
  · simp [ProcessPc.IsWithin, ProcessPc.awaits]
  · split_ifs <;> simp [ProcessPc.IsWithin, ProcessPc.awaits]

theorem isWithin_afterCharge (p : Payment) (b : Bool) (now : ℤ) :
    (afterCharge p b now).IsWithin 6 := by
  unfold afterCharge
  split <;> simp [ProcessPc.IsWithin, ProcessPc.awaits]

theorem isWithin_afterUpdateStatus (p : Payment) (row : Except PyError (Option PaymentRow)) :
    (afterUpdateStatus p row).IsWithin 5 := by
  unfold afterUpdateStatus
  split <;> simp [ProcessPc.IsWithin, ProcessPc.awaits]

theorem isWithin_afterCommit (p : Payment) (applied : Bool) :
    (afterCommit p applied).IsWithin 4 := by
  unfold afterCommit
  split_ifs <;> simp [ProcessPc.IsWithin, ProcessPc.awaits]

theorem isWithin_afterGetAgain (p : Payment) (found : Except PyError (Option Payment)) :
    (afterGetAgain p found).IsWithin 3 := by
  unfold afterGetAgain
  split <;> simp [ProcessPc.IsWithin, ProcessPc.awaits]

/-- A call's own step brings it nearer to its end. -/
theorem isWithin_step (hc : s.calls d = some c) (h : processStep s d act = some s')
    (hact : act ≠ .kill) : ∃ c', s'.calls d = some c' ∧ c'.pc.IsWithin c.pc.awaits := by
  cases processStep_trans h with
  | begin hnone => simp [hnone] at hc
  | get hc' =>
    obtain rfl := Option.some.inj (hc.symm.trans hc')
    exact ⟨_, Function.update_self _ _ _, isWithin_afterGet _ _⟩
  | charge hc' =>
    obtain rfl := Option.some.inj (hc.symm.trans hc')
    exact ⟨_, Function.update_self _ _ _, by simp [ProcessPc.IsWithin, ProcessPc.awaits]⟩
  | answer hc' =>
    obtain rfl := Option.some.inj (hc.symm.trans hc')
    exact ⟨_, Function.update_self _ _ _, isWithin_afterCharge _ _ _⟩
  | update hc' _ =>
    obtain rfl := Option.some.inj (hc.symm.trans hc')
    exact ⟨_, Function.update_self _ _ _, isWithin_afterUpdateStatus _ _⟩
  | commit hc' =>
    obtain rfl := Option.some.inj (hc.symm.trans hc')
    exact ⟨_, Function.update_self _ _ _, isWithin_afterCommit _ _⟩
  | getAgain hc' =>
    obtain rfl := Option.some.inj (hc.symm.trans hc')
    exact ⟨_, Function.update_self _ _ _, isWithin_afterGetAgain _ _⟩
  | send hc' =>
    obtain rfl := Option.some.inj (hc.symm.trans hc')
    exact ⟨_, Function.update_self _ _ _, by simp [ProcessPc.IsWithin, ProcessPc.awaits]⟩
  | accept hc' =>
    obtain rfl := Option.some.inj (hc.symm.trans hc')
    exact ⟨_, Function.update_self _ _ _, by simp [ProcessPc.IsWithin, ProcessPc.awaits]⟩
  | @stop _ id pc stopped _ hc' _ hstop _ =>
    obtain rfl := Option.some.inj (hc.symm.trans hc')
    obtain ⟨e, rfl⟩ := hstop.resolve_left hact
    cases pc <;> simp only [processStep, hc, Option.bind_some, processFail, Option.some_inj,
      reduceCtorEq] at h <;>
      exact ⟨_, by rw [← h]; exact Function.update_self _ _ _,
        by simp [ProcessPc.IsWithin, ProcessPc.awaits]⟩

end

/-! ## Handlers and their calls -/

/-- A delivery has no call before its handler starts, and while its handler is in the use case its
call is not killed. -/
def CallFits : Option HandlerPc → Option ProcessCall → Prop
  | none, c | some .received, c => c = none
  | some (.inUseCase _), c => ∃ c', c = some c' ∧ ∀ at_, c'.pc ≠ .killed at_
  | some (.onFailure _), _ | some .returned, _ | some (.raised _), _ | some .dead, _ => True

def CallsFit (s : SystemState) : Prop :=
  ∀ d, CallFits ((s.deliveries d).map Delivery.pc) (s.process.calls d)

section

variable {s s' : SystemState}

theorem not_kill {d : ℕ} {act : ProcessAct}
    (h : (system cmd draw batchSize settings).step s (.call d act) = some s') : act ≠ .kill := by
  rintro rfl
  cases h

theorem callFits_of_isOver {pc : HandlerPc} (h : pc.isOver = true) (c : Option ProcessCall) :
    CallFits (some pc) c := by
  cases pc with
  | received | inUseCase _ => cases h
  | _ => trivial

theorem callsFit_step {a : SystemLabel} (hinv : SystemInv cmd draw s) (hs : CallsFit s)
    (h : (system cmd draw batchSize settings).step s a = some s') : CallsFit s' := by
  have htrans := system_trans hinv.requests h
  intro j
  by_cases hj : j = a.number
  case neg =>
    obtain ⟨hdelivery, hcall, -⟩ := number_step htrans hj
    rw [hdelivery, hcall]
    exact hs j
  have hfits := hs j
  have hover : ∀ (x : Delivery) (c : Option ProcessCall), x.pc.isOver = true →
      CallFits ((Function.update s.deliveries j (some x) j).map Delivery.pc) c := by
    intro x c hx
    rw [Function.update_self]
    exact callFits_of_isOver hx c
  cases htrans with
  | request | created | pass | expire => exact hfits
  | deliver hd _ =>
    obtain rfl : j = _ := hj
    rw [hd] at hfits
    simp only [SystemState.setDelivery, Function.update_self]
    exact hfits
  | begin hx _ _ hbegin =>
    obtain rfl : j = _ := hj
    simp [SystemState.setDelivery, CallFits, begin_calls hbegin]
  | refuse | crash =>
    obtain rfl : j = _ := hj
    exact hover _ _ rfl
  | useCaseEnds _ _ _ hafter =>
    obtain rfl : j = _ := hj
    exact hover _ _ (isOver_of_afterUseCase hafter)
  | @publish d x p outcome =>
    obtain rfl : j = _ := hj
    exact hover _ _ (by cases outcome <;> rfl)
  | ack _ hpc _ | reject _ hpc _ =>
    obtain rfl : j = _ := hj
    exact hover _ _ (congrArg HandlerPc.isOver hpc)
  | takeBack hx _ =>
    obtain rfl : j = _ := hj
    rw [hx] at hfits
    simp only [SystemState.setDelivery, Function.update_self]
    exact hfits
  | call hx hpc hstep =>
    obtain rfl : j = _ := hj
    rw [hx, Option.map_some, hpc] at hfits
    obtain ⟨c, hc, -⟩ := hfits
    obtain ⟨c', hc', -, hlive⟩ := isWithin_step hc hstep (not_kill h)
    simp only [hx, Option.map_some, hpc]
    exact ⟨c', hc', hlive⟩

theorem callsFit_run (h : (system cmd draw batchSize settings).Reachable .init s) : CallsFit s :=
  (h.inv (I := fun s => SystemInv cmd draw s ∧ CallsFit s)
    (fun _ _ _ hs hstep => ⟨systemInv_step hs.1 hstep, callsFit_step hs.1 hs.2 hstep⟩)
    ⟨systemInv_init, fun _ => rfl⟩).2

end

/-! ## Messages -/

section

variable {queues : Queues} {m : Message} {attempt : ℤ} {events : List OutboxRow}

theorem queuedWork_enqueue_new : queuedWork settings (queues.enqueue [newQueue] m) =
    queuedWork settings queues + (14 * attemptsLeft settings m - 1) :=
  queueSum_enqueue new_mem_serviceQueues m

theorem queuedWork_enqueue_retry : queuedWork settings (queues.enqueue [retryQueue] m) =
    queuedWork settings queues + 14 * attemptsLeft settings m :=
  queueSum_enqueue retry_mem_serviceQueues m

theorem queuedWork_enqueue_dlq : queuedWork settings (queues.enqueue [dlqQueue] m) =
    queuedWork settings queues :=
  queueSum_enqueue dlq_mem_serviceQueues m

theorem queuedWork_dequeue_new (settings : RabbitSettings) {n : ℕ}
    (hm : (queues newQueue)[n]? = some m) :
    queuedWork settings (queues.dequeue newQueue n) + (14 * attemptsLeft settings m - 1) =
      queuedWork settings queues :=
  queueSum_dequeue (w := messageWork settings) new_mem_serviceQueues hm

theorem queuedWork_dequeue_retry (settings : RabbitSettings) {n : ℕ}
    (hm : (queues retryQueue)[n]? = some m) :
    queuedWork settings (queues.dequeue retryQueue n) + 14 * attemptsLeft settings m =
      queuedWork settings queues :=
  queueSum_dequeue (w := messageWork settings) retry_mem_serviceQueues hm

/-- The copy of a failed attempt has one attempt less, or is dead. -/
theorem IsAttempt.queuedWork_onFailure (h : IsAttempt settings events attempt m) (queues : Queues)
    (e : PyError) :
    queuedWork settings (queues.publish (PaymentService.onFailure settings m.payload attempt e))
      ≤ queuedWork settings queues + 14 * (attemptsLeft settings m - 1) := by
  obtain ⟨h1, -⟩ := h.bounds
  unfold PaymentService.onFailure
  split_ifs with hN
  · rw [Queues.publish, toDlq, route_dead, queuedWork_enqueue_dlq]
    exact Nat.le_add_right _ _
  · have hleft : attemptsLeft settings (toRetry settings m.payload attempt e).message + 1 =
        attemptsLeft settings m := attemptsLeft_toRetry h1 (not_le.1 hN) h.attemptOf
    have hcopy : queuedWork settings (queues.publish (toRetry settings m.payload attempt e)) =
        queuedWork settings queues + 14 * attemptsLeft settings
          (toRetry settings m.payload attempt e).message := by
      rw [Queues.publish, toRetry, route_retry, queuedWork_enqueue_retry]
    rw [hcopy]
    omega

/-- What a pass hands to the broker brings at most what an event does. -/
theorem queuedWork_pass (settings : RabbitSettings) (queues : Queues) (pc : PassPc)
    (act : PassAct) : queuedWork settings (queuesAfterPass queues pc act) ≤
      queuedWork settings queues + act.brings (eventWork settings) := by
  unfold queuesAfterPass
  split
  · rename_i m todo n outcome
    have hleft : attemptsLeft settings (eventMessage m.id m.eventType m.payload).message =
        settings.attempts := by
      rw [attemptsLeft, attemptOf_eventMessage, RabbitSettings.attempts]
      simp only
      omega
    have hbrings : (PassAct.publish outcome).brings (eventWork settings) =
        14 * settings.attempts - 1 := rfl
    split_ifs
    · rw [Queues.publish, show route (eventMessage m.id m.eventType m.payload).exchange
        (eventMessage m.id m.eventType m.payload).routingKey = [newQueue] from route_new,
        queuedWork_enqueue_new, hleft, hbrings]
    · exact Nat.le_add_right _ _
  · exact Nat.le_add_right _ _

end

/-! ## Every step that does something takes from the work -/

section

variable {s s' : SystemState} {U : Finset ℕ}

/-- A step of one delivery and its call. -/
theorem work_delivery {d n : ℕ} (hd : d ∈ U) (hrelay : s'.relay = s.relay)
    (hoff : ∀ i, i ≠ d → s'.deliveries i = s.deliveries i
      ∧ s'.process.calls i = s.process.calls i)
    (h : n + queuedWork settings s'.queues
        + handlerWork settings (s'.deliveries d, s'.process.calls d) ≤
      queuedWork settings s.queues + handlerWork settings (s.deliveries d, s.process.calls d)) :
    n + s'.work settings U ≤ s.work settings U := by
  have hsum := sum_off (handlerWork settings) hd fun i hi =>
    show (s'.deliveries i, s'.process.calls i) = (s.deliveries i, s.process.calls i) by
      rw [(hoff i hi).1, (hoff i hi).2]
  simp only [SystemState.work, hrelay]
  omega

/-- A step of one delivery that leaves the calls as they are. -/
theorem work_setDelivery {d n : ℕ} (hd : d ∈ U) {x : Option Delivery} (hx : s.deliveries d = x)
    {x' : Delivery} (hdeliveries : s'.deliveries = Function.update s.deliveries d (some x'))
    (hrelay : s'.relay = s.relay) (hcalls : s'.process.calls = s.process.calls)
    (h : n + queuedWork settings s'.queues + handlerWork settings (some x', s.process.calls d) ≤
      queuedWork settings s.queues + handlerWork settings (x, s.process.calls d)) :
    n + s'.work settings U ≤ s.work settings U := by
  refine work_delivery hd hrelay (fun i hi => ⟨?_, by rw [hcalls]⟩) ?_
  · rw [hdeliveries, Function.update_of_ne hi]
  · rwa [hdeliveries, Function.update_self, hcalls, hx]

/-- The use case over, a handler has its publish and its acknowledgement before it. -/
theorem handlerWork_afterUseCase {x : Delivery} {attempt : ℤ} {closeError : Option PyError}
    {pc : ProcessPc} {pc' : HandlerPc}
    (h : afterUseCase settings x.message attempt closeError pc = some pc')
    (c : Option ProcessCall) : handlerWork settings (some { x with pc := pc' }, c) ≤
      14 * (attemptsLeft settings x.message - 1) + 2 := by
  unfold afterUseCase at h
  split at h
  · split at h <;> cases h
    · simp only [handlerWork]
      split_ifs <;> omega
    · exact le_refl _
  · cases h
    exact le_refl _
  · cases h

theorem handlerWork_afterPublish (settings : RabbitSettings) (x : Delivery)
    (outcome : PublishOutcome) (c : Option ProcessCall) :
    handlerWork settings (some { x with pc := afterPublish outcome }, c) ≤ 1 := by
  cases outcome <;> simp only [handlerWork, afterPublish] <;> split_ifs <;> omega

theorem dead_of_calm {d : ℕ} {x : Delivery} (hx : s.deliveries d = some x)
    (h : calm (s, .handler d .takeBack, s') = true) : x.pc = .dead := by
  simp only [calm, hx, Option.any_some] at h
  cases hpc : x.pc with
  | dead => rfl
  | _ => simp [hpc, HandlerPc.isDead] at h

/-- A step that does something takes from the work, and a calm one that does nothing adds none. -/
theorem work_step {a : SystemLabel} (hinv : SystemInv cmd draw s)
    (hfrom : Provenance settings s) (hfits : CallsFit s) (hU : a.number ∈ U)
    (hcalm : calm (s, a, s') = true)
    (h : (system cmd draw batchSize settings).step s a = some s') :
    (if works (s, a, s') then 1 else 0) + s'.work settings U ≤ s.work settings U := by
  have hone := fun m => one_le_attemptsLeft settings m
  cases system_trans hinv.requests h with
  | request => exact (Nat.zero_add _).le
  | created hpc _ =>
    simp [calm, SystemState.setDb, SystemState.setRequest] at hcalm
  | @pass k act relay hstep =>
    have hqueues := queuedWork_pass settings s.queues (s.relay.passes k) act
    set t : SystemState :=
      { s with relay := relay, queues := queuesAfterPass s.queues (s.relay.passes k) act }
    have hrelay : (if works (s, .relay k act, t) then 1 else 0) + act.brings (eventWork settings)
        + relay.work (eventWork settings) U ≤ s.relay.work (eventWork settings) U :=
      work_passStep hinv.relay hU hcalm hstep
    change _ + (queuedWork settings (queuesAfterPass s.queues (s.relay.passes k) act)
      + ∑ d ∈ U, handlerWork settings (s.deliveries d, s.process.calls d)
      + relay.work (eventWork settings) U) ≤ _
    rw [SystemState.work]
    omega
  | @deliver d n m hd hm =>
    have hqueues := queuedWork_dequeue_new settings hm
    change 1 + SystemState.work settings U _ ≤ _
    refine work_setDelivery (d := d) hU hd rfl rfl rfl ?_
    change 1 + queuedWork settings (s.queues.dequeue newQueue n)
      + (14 * attemptsLeft settings m - 2) ≤ queuedWork settings s.queues + 0
    have hleft := hone m
    omega
  | @refuse d x e hx hpc _ =>
    change 1 + SystemState.work settings U _ ≤ _
    refine work_setDelivery (d := d) hU hx rfl rfl rfl ?_
    have hleft := hone x.message
    simp only [handlerWork, hpc, SystemState.setDelivery]
    split_ifs <;> omega
  | @begin d x id attempt process hx hpc hstart hbegin =>
    change 1 + SystemState.work settings U _ ≤ _
    have hcall := begin_calls hbegin
    refine work_delivery (d := d) hU rfl (fun i hi =>
      ⟨Function.update_of_ne hi _ _, processStep_calls hbegin hi⟩) ?_
    have hleft := hone x.message
    simp only [handlerWork, hx, hpc, SystemState.setDelivery, Function.update_self, hcall,
      Option.elim_some, ProcessPc.awaits]
    omega
  | @useCaseEnds d x attempt c closeError pc hx hpc hc hafter =>
    change 1 + SystemState.work settings U _ ≤ _
    refine work_setDelivery (d := d) hU hx rfl rfl rfl ?_
    have hended := handlerWork_afterUseCase hafter (s.process.calls d)
    have hbefore : handlerWork settings (some x, s.process.calls d) =
        14 * (attemptsLeft settings x.message - 1) + 3 + c.pc.awaits := by
      simp only [handlerWork, hpc, hc, Option.elim_some]
    change 1 + queuedWork settings s.queues + handlerWork settings (some { x with pc := pc }, _) ≤
      queuedWork settings s.queues + _
    rw [hbefore]
    omega
  | @publish d x p outcome hx hpc =>
    obtain ⟨attempt, hattempt, hpcFrom⟩ := hfrom.deliveries _ _ hx
    rw [hpc] at hpcFrom
    obtain ⟨e, rfl⟩ := hpcFrom
    have hqueued := hattempt.queuedWork_onFailure s.queues e
    have hbefore : handlerWork settings (some x, s.process.calls d) =
        14 * (attemptsLeft settings x.message - 1) + 2 := by
      simp only [handlerWork, hpc]
    have hafter := handlerWork_afterPublish settings x outcome (s.process.calls d)
    change 1 + SystemState.work settings U _ ≤ _
    refine work_setDelivery (d := d) hU hx rfl rfl rfl ?_
    rw [hbefore]
    change 1 + queuedWork settings (if outcome.isAccepted then _ else _) + _ ≤ _
    split_ifs <;> omega
  | @ack d x hx hpc hunacked =>
    change 1 + SystemState.work settings U _ ≤ _
    refine work_setDelivery (d := d) hU hx rfl rfl rfl ?_
    simp only [handlerWork, hpc, hunacked, SystemState.setDelivery, Bool.false_eq_true, if_true,
      if_false]
    omega
  | @reject d x e hx hpc hunacked =>
    change 1 + SystemState.work settings U _ ≤ _
    refine work_setDelivery (d := d) hU hx rfl rfl rfl ?_
    have hqueues : queuedWork settings (s.queues.deadLetter newQueue x.message) =
        queuedWork settings s.queues := queuedWork_enqueue_dlq
    simp only [handlerWork, hpc, hunacked, SystemState.setDelivery, hqueues, Bool.false_eq_true,
      if_true, if_false]
    omega
  | crash hx => cases hcalm
  | @takeBack d x hx hunacked =>
    have hdead := dead_of_calm hx hcalm
    change 1 + SystemState.work settings U _ ≤ _
    refine work_setDelivery (d := d) hU hx rfl rfl rfl ?_
    have hqueues : queuedWork settings (s.queues.enqueue [newQueue] x.message) =
        queuedWork settings s.queues + (14 * attemptsLeft settings x.message - 1) :=
      queuedWork_enqueue_new
    have hleft := hone x.message
    simp only [handlerWork, hdead, hunacked, SystemState.setDelivery, hqueues, Bool.false_eq_true,
      if_true, if_false]
    omega
  | @call d act x attempt process hx hpc hstep =>
    have hcall := hfits d
    rw [hx, Option.map_some, hpc] at hcall
    obtain ⟨c, hc, -⟩ := hcall
    obtain ⟨c', hc', hlt, -⟩ := isWithin_step hc hstep (not_kill h)
    change 1 + SystemState.work settings U _ ≤ _
    refine work_delivery (d := d) hU rfl (fun i hi => ⟨rfl, processStep_calls hstep hi⟩) ?_
    simp only [handlerWork, hx, hpc, hc, hc', Option.elim_some]
    omega
  | @expire n m hm =>
    have hqueues := queuedWork_dequeue_retry settings hm
    have hsame : attemptsLeft settings { m with expiration := none } = attemptsLeft settings m :=
      rfl
    have hleft := hone m
    change 1 + (queuedWork settings ((s.queues.dequeue retryQueue n).enqueue
      (PaymentService.deadLetter retryQueue) { m with expiration := none })
      + ∑ d ∈ U, handlerWork settings (s.deliveries d, s.process.calls d)
      + s.relay.work (eventWork settings) U) ≤ _
    rw [deadLetter_retry, queuedWork_enqueue_new, hsame, SystemState.work]
    omega

end

/-! ## Until the service is at rest a step can be taken -/

section

variable {s : SystemState}

/-- A calm step that does something can be taken. -/
def CanWork (M : Machine SystemState SystemLabel) (s : SystemState) : Prop :=
  ∃ a s', M.step s a = some s' ∧ calm (s, a, s') = true ∧ works (s, a, s') = true

theorem canWork_of_isSome {M : Machine SystemState SystemLabel} {a : SystemLabel}
    (hstep : (M.step s a).isSome = true) (hcalm : ∀ s', calm (s, a, s') = true)
    (hworks : ∀ s', works (s, a, s') = true) : CanWork M s := by
  obtain ⟨s', hs'⟩ := Option.isSome_iff_exists.1 hstep
  exact ⟨a, s', hs', hcalm s', hworks s'⟩

theorem canWork_relay {N : ℕ} (hinv : SystemInv cmd draw s) (hN : Unused N s)
    (hbatch : ∀ k, 0 < batchSize k) {m : OutboxRow} (hm : m ∈ s.relay.outbox)
    (hnone : m.publishedAt = none) : CanWork (system cmd draw batchSize settings) s := by
  obtain ⟨k, act, relay, hstep, hwell, hrows⟩ :=
    exists_passStep hinv.relay hm hnone (hN.passes N le_rfl) (hbatch N)
  refine ⟨.relay k act, { s with
      relay := relay
      queues := queuesAfterPass s.queues (s.relay.passes k) act }, ?_, hwell, hrows⟩
  simp only [system, relaySystemStep, hstep, Option.map_some]

/-- A call that goes on takes its next step, or one that holds the row it waits for does. -/
theorem canWork_call (hinv : SystemInv cmd draw s) (hattended : Attended s) {d : ℕ}
    {c : ProcessCall} (hc : s.process.calls d = some c) (hgoes : c.pc.goesOn = true) :
    CanWork (system cmd draw batchSize settings) s := by
  have hstep : ∀ (d : ℕ) (c : ProcessCall) (act : ProcessAct), s.process.calls d = some c →
      c.pc.goesOn = true → act.isOwn = true → (processStep s.process d act).isSome = true →
        CanWork (system cmd draw batchSize settings) s := by
    intro d c act hc hgoes hown hprocess
    obtain ⟨⟨m, unacked, pc⟩, attempt, hx, rfl⟩ := hattended d c hc hgoes
    refine canWork_of_isSome (a := .call d act) ?_ (fun _ => rfl) fun _ => rfl
    cases act with
    | begin _ | kill => cases hown
    | _ => simpa only [system, callStep, hx, Option.isSome_map] using hprocess
  have hnext : ∀ (d : ℕ) (c : ProcessCall), s.process.calls d = some c → c.pc.goesOn = true →
      (processNext s.process d c).isSome = true →
        CanWork (system cmd draw batchSize settings) s := by
    intro d c hc hgoes hprocess
    refine hstep d c .next hc hgoes rfl ?_
    rwa [processStep, hc, Option.bind_some]
  obtain ⟨id, pc⟩ := c
  cases pc with
  | returned | raised _ _ | killed _ => cases hgoes
  | charging p =>
    refine hstep d _ (.answer true 0) hc rfl rfl ?_
    rw [processStep, hc]
    rfl
  | updateStatus p =>
    by_cases hlocked : s.process.isLocked p.id = true
    · -- the call that has the row is about to commit
      obtain ⟨w, hw, -⟩ := List.any_eq_true.1 hlocked
      obtain ⟨q, hcommit⟩ := (hinv.process.writes w hw).call
      exact hnext _ _ hcommit rfl rfl
    · refine hnext d _ hc rfl ?_
      simp only [processNext, hlocked]
      rfl
  | _ => exact hnext d _ hc rfl rfl

theorem canWork_delivery (h : (system cmd draw batchSize settings).Reachable .init s) {d : ℕ}
    {x : Delivery} (hx : s.deliveries d = some x) (hunacked : x.unacked = true) :
    CanWork (system cmd draw batchSize settings) s := by
  have hfits := callsFit_run h d
  rw [hx, Option.map_some] at hfits
  have hhandler : ∀ act : HandlerAct, (handlerStep settings s d x act).isSome = true →
      (∀ s', calm (s, .handler d act, s') = true) →
        CanWork (system cmd draw batchSize settings) s := fun act hstep hcalm =>
    canWork_of_isSome (a := .handler d act) (by rwa [handler_step hx]) hcalm fun _ => rfl
  cases hpc : x.pc with
  | received =>
    rw [hpc] at hfits
    refine hhandler .start ?_ fun _ => rfl
    rcases hstart : handlerStart x.message with e | ⟨id, attempt⟩
    · simp [handlerStep, hpc, hstart]
    · simp [handlerStep, hpc, hstart, processStep, show s.process.calls d = none from hfits]
  | inUseCase attempt =>
    rw [hpc] at hfits
    obtain ⟨⟨id, pc⟩, hc, hlive⟩ := hfits
    by_cases hgoes : pc.goesOn = true
    · exact canWork_call (systemInv_run h) (attended_run h) hc hgoes
    · refine hhandler (.useCaseEnds none) ?_ fun _ => rfl
      cases pc with
      | returned | raised _ _ => simp [handlerStep, hpc, hc, afterUseCase]
      | killed at_ => exact absurd rfl (hlive at_)
      | _ => exact absurd rfl hgoes
  | onFailure p =>
    exact hhandler (.publish (.published 0)) (by simp [handlerStep, hpc]) fun _ => rfl
  | returned | raised _ =>
    exact hhandler .settle (by simp [handlerStep, hpc, hunacked]) fun _ => rfl
  | dead =>
    refine hhandler .takeBack (by simp [handlerStep, hunacked]) fun _ => ?_
    simp only [calm, hx, Option.any_some, hpc]
    rfl

/-- While the service is not at rest, it can take a step that does something. -/
theorem canWork (hbatch : ∀ k, 0 < batchSize k)
    (h : (system cmd draw batchSize settings).Reachable .init s) (hrest : ¬ AtRest s) :
    CanWork (system cmd draw batchSize settings) s := by
  obtain ⟨N, hN⟩ := unused_run h
  by_contra hno
  refine hrest ⟨fun m hm hnone => hno (canWork_relay (systemInv_run h) hN hbatch hm hnone), ?_, ?_,
    fun d x hx => ?_⟩
  · by_contra hnew
    refine hno (canWork_of_isSome (a := .deliver N 0) ?_ (fun _ => rfl) fun _ => rfl)
    obtain ⟨m, rest, hq⟩ := List.exists_cons_of_ne_nil hnew
    simp [system, deliverStep, hN.deliveries N le_rfl, hq]
  · by_contra hretry
    refine hno (canWork_of_isSome (a := .expire 0) ?_ (fun _ => rfl) fun _ => rfl)
    obtain ⟨m, rest, hq⟩ := List.exists_cons_of_ne_nil hretry
    simp [system, expireStep, hq]
  · by_contra hunacked
    exact hno (canWork_delivery h hx (by simpa using hunacked))

end

/-! ## So many steps, and then rest -/

theorem work_of_unused {s : SystemState} {N : ℕ} (hN : Unused N s) {U : Finset ℕ}
    (hU : Finset.range N ⊆ U) : s.work settings U = s.work settings (Finset.range N) := by
  have hoff : ∀ d ∈ U, d ∉ Finset.range N → N ≤ d := by
    intro d _ hd
    simpa using hd
  have hhandlers : ∑ d ∈ U, handlerWork settings (s.deliveries d, s.process.calls d) =
      ∑ d ∈ Finset.range N, handlerWork settings (s.deliveries d, s.process.calls d) :=
    (Finset.sum_subset hU fun d hdU hd => by rw [hN.deliveries d (hoff d hdU hd)]; rfl).symm
  have hpasses : ∑ k ∈ U, passWork (eventWork settings) (s.relay.passes k) =
      ∑ k ∈ Finset.range N, passWork (eventWork settings) (s.relay.passes k) :=
    (Finset.sum_subset hU fun k hkU hk => by rw [hN.passes k (hoff k hkU hk)]; rfl).symm
  rw [SystemState.work, SystemState.work, RelayState.work, RelayState.work, hhandlers, hpasses]

/-- In every run from a state of the service there are at most so many steps that do something, if
the run is calm. -/
theorem works_le {s : SystemState} (h : (system cmd draw batchSize settings).Reachable .init s)
    {N : ℕ} (hN : Unused N s) {bs : List SystemLabel} {t : SystemState}
    (hrun : (system cmd draw batchSize settings).run s bs = some t)
    (hcalm : ∀ x ∈ (system cmd draw batchSize settings).steps s bs, calm x = true) :
    ((system cmd draw batchSize settings).steps s bs).countP works ≤
      s.work settings (Finset.range N) := by
  set U := Finset.range N ∪ (bs.map SystemLabel.number).toFinset with hU
  have hsum := Machine.countP_le_potential (M := system cmd draw batchSize settings) (P := works)
    (I := fun s => (system cmd draw batchSize settings).Reachable .init s)
    (fun s => s.work settings U) (fun _ _ _ hs hstep => hs.step hstep)
    (fun x hx hreach hstep => ?_) h hrun
  · rw [work_of_unused hN Finset.subset_union_left] at hsum
    exact (Nat.le_add_right _ _).trans hsum
  · refine work_step (systemInv_run hreach) (provenance_run hreach) (callsFit_run hreach) ?_
      (hcalm x hx) hstep
    obtain ⟨-, as₁, as₂, rfl, -⟩ := Machine.mem_steps hx
    rw [hU, Finset.mem_union, List.mem_toFinset]
    exact .inr (List.mem_map_of_mem (List.mem_append_right _ List.mem_cons_self))

/-- From every state the service can be in, whatever the order of the steps and whatever fails in
the handlers: where no more payment is stored, no handler dies and what a relay does returns, a run
has at most so many steps that do something, and it can take another until the service is at rest;
and then each payment is final and the notification of it accepted, or a message names it in
`payments.dlq`. -/
theorem service_settles (hbatch : ∀ k, 0 < batchSize k) {as : List SystemLabel} {s : SystemState}
    (hrun : (system cmd draw batchSize settings).run .init as = some s) :
    ∃ n, ∀ bs t, (system cmd draw batchSize settings).run s bs = some t →
      (∀ x ∈ (system cmd draw batchSize settings).steps s bs, calm x = true) →
        ((system cmd draw batchSize settings).steps s bs).countP works ≤ n
          ∧ (¬ AtRest t → CanWork (system cmd draw batchSize settings) t)
          ∧ (AtRest t → ∀ r ∈ t.process.payments,
            Done t r ∨ ∃ m ∈ t.queues dlqQueue, Names r.id m.payload) := by
  have h : (system cmd draw batchSize settings).Reachable .init s := ⟨as, hrun⟩
  obtain ⟨N, hN⟩ := unused_run h
  refine ⟨s.work settings (Finset.range N), fun bs t hbs hcalm => ⟨works_le h hN hbs hcalm, ?_⟩⟩
  have ht : (system cmd draw batchSize settings).Reachable .init t :=
    ⟨as ++ bs, Machine.run_append.2 ⟨s, hrun, hbs⟩⟩
  exact ⟨canWork hbatch ht, fun hrest r hr => done_at_rest ht hrest hr⟩

/-- One payment was announced twice, and of its two calls one has updated its row and the other
waits to. -/
def contendedLabels : List SystemLabel :=
  List.replicate 6 (.create 0 .next) ++
    [.relay 0 (.lock [2]), .relay 0 (.publish (.unconfirmed (.other "TimeoutError" "timed out"))),
      .relay 0 .commit, .relay 1 (.lock [2]), .relay 1 (.publish (.published 1)), .relay 1 .commit,
      .deliver 0 0, .deliver 1 0, .handler 0 .start, .handler 1 .start, .call 0 .next,
      .call 1 .next, .call 0 .next, .call 1 .next, .call 0 (.answer true 2),
      .call 1 (.answer false 3), .call 0 .next]

theorem contendedLabels_settle : ∃ s, sampleSystem.run .init contendedLabels = some s
    ∧ (sampleSystem.step s (.call 1 .next)).isNone = true
    ∧ ∃ n, ∀ bs t, sampleSystem.run s bs = some t →
      (∀ x ∈ sampleSystem.steps s bs, calm x = true) →
        (sampleSystem.steps s bs).countP works ≤ n
          ∧ (¬ AtRest t → CanWork sampleSystem t)
          ∧ (AtRest t → ∀ r ∈ t.process.payments,
            Done t r ∨ ∃ m ∈ t.queues dlqQueue, Names r.id m.payload) := by
  have h : (sampleSystem.run .init contendedLabels).map
      (fun s => (sampleSystem.step s (.call 1 .next)).isNone) = some true := by
    decide +kernel
  obtain ⟨s, hrun, hblocked⟩ := Option.map_eq_some_iff.1 h
  exact ⟨s, hrun, hblocked, service_settles (fun _ => by decide) hrun⟩

end PaymentService
