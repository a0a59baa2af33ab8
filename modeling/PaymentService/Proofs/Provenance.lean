import PaymentService.Proofs.NoLoss
import PaymentService.Proofs.RetryChain
import PaymentService.Proofs.WriteOnce

/-!
# Where messages come from

A message to be handled is what a pass published for an event, or a copy that came back from
`payments.retry`, and its headers say which attempt it is for. So every message names a payment that
is in the table, its handler gets to its use case, and the use case finds the row. What stops a
handler or a call is then a failure of what it awaits, never an error of its own.
-/

namespace PaymentService

open Python Labelled

variable {cmd : ℕ → CreatePaymentCommand} {draw : ℕ → Draw} {batchSize : ℕ → ℕ}
  {settings : RabbitSettings}

/-! ## Kinds of messages -/

/-- The events of the service, as they were written. -/
def SystemState.events (s : SystemState) : List OutboxRow := s.relay.outbox.map OutboxRow.asNew

/-- A message to be handled for the `attempt`-th time. -/
inductive IsAttempt (settings : RabbitSettings) (events : List OutboxRow) : ℤ → Message → Prop
  | first {o : OutboxRow} (ho : o ∈ events) :
    IsAttempt settings events 1 (eventMessage o.id o.eventType o.payload).message
  | again {o : OutboxRow} {attempt : ℤ} {e : PyError} (ho : o ∈ events) (h1 : 1 ≤ attempt)
    (hN : attempt < settings.maxDeliveryAttempts) :
    IsAttempt settings events (attempt + 1) (returned settings o.payload attempt e)

/-- What a queue may hold: a message whose handler raised is dead as it was delivered. -/
inductive Belongs (settings : RabbitSettings) (events : List OutboxRow) :
    RabbitQueue → Message → Prop
  | new {attempt : ℤ} {m : Message} (h : IsAttempt settings events attempt m) :
    Belongs settings events newQueue m
  | retry {o : OutboxRow} {attempt : ℤ} {e : PyError} (ho : o ∈ events) (h1 : 1 ≤ attempt)
    (hN : attempt < settings.maxDeliveryAttempts) :
    Belongs settings events retryQueue (toRetry settings o.payload attempt e).message
  | dead {o : OutboxRow} {attempt : ℤ} {e : PyError} (ho : o ∈ events) (h1 : 1 ≤ attempt)
    (hN : settings.maxDeliveryAttempts ≤ attempt)
    (hmax : attempt ≤ max 1 settings.maxDeliveryAttempts) :
    Belongs settings events dlqQueue (toDlq o.payload attempt e).message
  | rejected {attempt : ℤ} {m : Message} (h : IsAttempt settings events attempt m) :
    Belongs settings events dlqQueue m

section

variable {events events' : List OutboxRow} {attempt : ℤ} {m : Message} {q : RabbitQueue}

theorem IsAttempt.mono (hsub : events ⊆ events') (h : IsAttempt settings events attempt m) :
    IsAttempt settings events' attempt m := by
  cases h with
  | first ho => exact .first (hsub ho)
  | again ho h1 hN => exact .again (hsub ho) h1 hN

theorem Belongs.mono (hsub : events ⊆ events') (h : Belongs settings events q m) :
    Belongs settings events' q m := by
  cases h with
  | new h => exact .new (h.mono hsub)
  | retry ho h1 hN => exact .retry (hsub ho) h1 hN
  | dead ho h1 hN hmax => exact .dead (hsub ho) h1 hN hmax
  | rejected h => exact .rejected (h.mono hsub)

theorem IsAttempt.expiration (h : IsAttempt settings events attempt m) : m.expiration = none := by
  cases h <;> rfl

theorem IsAttempt.payload (h : IsAttempt settings events attempt m) :
    ∃ o ∈ events, m.payload = o.payload := by
  cases h with
  | first ho => exact ⟨_, ho, rfl⟩
  | again ho h1 hN => exact ⟨_, ho, rfl⟩

theorem IsAttempt.bounds (h : IsAttempt settings events attempt m) :
    1 ≤ attempt ∧ attempt ≤ max 1 settings.maxDeliveryAttempts := by
  cases h with
  | first ho => omega
  | again ho h1 hN => omega

theorem attemptOf_eventMessage (id : UUID) (eventType : String) (payload : Dict) :
    attemptOf (eventMessage id eventType payload).message.headers = .ok 1 := by
  have hlookup : (eventMessage id eventType payload).message.headers.lookup ATTEMPT_HEADER = none :=
    rfl
  rw [attemptOf, hlookup]

theorem IsAttempt.attemptOf (h : IsAttempt settings events attempt m) :
    attemptOf m.headers = .ok attempt := by
  cases h with
  | first ho => exact attemptOf_eventMessage _ _ _
  | again ho h1 hN => exact attemptOf_returned settings h1 _

theorem Belongs.of_new (h : Belongs settings events q m) (hq : q = newQueue) :
    ∃ attempt, IsAttempt settings events attempt m := by
  cases h with
  | new h => exact ⟨_, h⟩
  | retry | dead | rejected => exact absurd hq (by decide)

/-- A message that has expired is an attempt again. -/
theorem Belongs.of_retry (h : Belongs settings events q m) (hq : q = retryQueue) :
    ∃ attempt, IsAttempt settings events attempt { m with expiration := none } := by
  cases h with
  | retry ho h1 hN => exact ⟨_, .again ho h1 hN⟩
  | new | dead | rejected => exact absurd hq (by decide)

theorem Belongs.payload (h : Belongs settings events q m) :
    ∃ o ∈ events, m.payload = o.payload := by
  cases h with
  | new h | rejected h => exact h.payload
  | retry ho h1 hN => exact ⟨_, ho, rfl⟩
  | dead ho h1 hN hmax => exact ⟨_, ho, rfl⟩

theorem Belongs.attemptOf (h : Belongs settings events q m) :
    ∃ a, attemptOf m.headers = .ok a := by
  cases h with
  | new h | rejected h => exact ⟨_, h.attemptOf⟩
  | @retry o attempt e ho h1 hN =>
    exact ⟨_, attemptOf_failureHeaders (show 1 ≤ attempt + 1 by omega) e⟩
  | dead ho h1 hN hmax => exact ⟨_, attemptOf_failureHeaders h1 _⟩

/-- What the retry policy publishes for a failed attempt belongs where it is routed. -/
theorem IsAttempt.onFailure (h : IsAttempt settings events attempt m) (e : PyError) :
    ∀ q ∈ route (onFailure settings m.payload attempt e).exchange
        (onFailure settings m.payload attempt e).routingKey,
      Belongs settings events q (onFailure settings m.payload attempt e).message := by
  obtain ⟨o, ho, hpayload⟩ := h.payload
  obtain ⟨h1, hmax⟩ := h.bounds
  intro q hq
  unfold PaymentService.onFailure at hq ⊢
  split_ifs at hq ⊢ with hN
  · obtain rfl := List.mem_singleton.1 (show q ∈ [dlqQueue] from route_dead ▸ hq)
    exact hpayload ▸ .dead ho h1 hN hmax
  · obtain rfl := List.mem_singleton.1 (show q ∈ [retryQueue] from route_retry ▸ hq)
    exact hpayload ▸ .retry ho h1 (not_le.1 hN)

end

/-! ## Queues -/

/-- Every queue holds what belongs there, and a queue of another name nothing. -/
def QueuesFrom (settings : RabbitSettings) (events : List OutboxRow) (queues : Queues) : Prop :=
  ∀ q, ∀ m ∈ queues q, Belongs settings events q m

section

variable {events events' : List OutboxRow} {queues : Queues}

theorem mem_enqueue_iff {targets : List RabbitQueue} {m m₀ : Message} {q : RabbitQueue} :
    m ∈ queues.enqueue targets m₀ q ↔ m ∈ queues q ∨ (q ∈ targets ∧ m = m₀) := by
  unfold Queues.enqueue
  split_ifs with h <;> simp [h]

theorem mem_of_mem_dequeue {q₀ q : RabbitQueue} {n : ℕ} {m : Message}
    (h : m ∈ queues.dequeue q₀ n q) : m ∈ queues q := by
  by_cases hq : q = q₀
  · subst hq
    rw [Queues.dequeue, Function.update_self] at h
    exact List.mem_of_mem_eraseIdx h
  · rwa [Queues.dequeue, Function.update_of_ne hq] at h

theorem QueuesFrom.mono (hsub : events ⊆ events') (h : QueuesFrom settings events queues) :
    QueuesFrom settings events' queues :=
  fun q m hm => (h q m hm).mono hsub

/-- What holds of the messages in the queues and of one that is put into some. -/
theorem forall_enqueue {P : RabbitQueue → Message → Prop} (h : ∀ q, ∀ m ∈ queues q, P q m)
    {targets : List RabbitQueue} {m : Message} (hm : ∀ q ∈ targets, P q m) :
    ∀ q, ∀ m' ∈ queues.enqueue targets m q, P q m' := by
  intro q m' hm'
  rcases mem_enqueue_iff.1 hm' with hm' | ⟨hq, rfl⟩
  · exact h q m' hm'
  · exact hm q hq

theorem QueuesFrom.enqueue (h : QueuesFrom settings events queues) {targets : List RabbitQueue}
    {m : Message} (hm : ∀ q ∈ targets, Belongs settings events q m) :
    QueuesFrom settings events (queues.enqueue targets m) :=
  forall_enqueue h hm

theorem QueuesFrom.dequeue (h : QueuesFrom settings events queues) (q : RabbitQueue) (n : ℕ) :
    QueuesFrom settings events (queues.dequeue q n) :=
  fun q' m hm => h q' m (mem_of_mem_dequeue hm)

end

/-! ## The invariant -/

/-- What the handler of a message for some attempt holds. -/
def PcFrom (settings : RabbitSettings) (m : Message) (attempt : ℤ) : HandlerPc → Prop
  | .inUseCase a => a = attempt
  | .onFailure p => ∃ e, p = onFailure settings m.payload attempt e
  | _ => True

def DeliveriesFrom (settings : RabbitSettings) (events : List OutboxRow)
    (deliveries : ℕ → Option Delivery) : Prop :=
  ∀ d x, deliveries d = some x → ∃ attempt, IsAttempt settings events attempt x.message
    ∧ PcFrom settings x.message attempt x.pc

theorem DeliveriesFrom.mono {events events' : List OutboxRow} {deliveries : ℕ → Option Delivery}
    (hsub : events ⊆ events') (h : DeliveriesFrom settings events deliveries) :
    DeliveriesFrom settings events' deliveries := by
  intro d x hx
  obtain ⟨attempt, hm, hpc⟩ := h d x hx
  exact ⟨attempt, hm.mono hsub, hpc⟩

theorem DeliveriesFrom.update {events : List OutboxRow} {deliveries : ℕ → Option Delivery}
    (h : DeliveriesFrom settings events deliveries) {d₀ : ℕ} {x₀ : Delivery} {attempt : ℤ}
    (hm : IsAttempt settings events attempt x₀.message)
    (hpc : PcFrom settings x₀.message attempt x₀.pc) :
    DeliveriesFrom settings events (Function.update deliveries d₀ (some x₀)) := by
  intro d x hx
  by_cases hd : d = d₀
  · subst hd
    rw [Function.update_self, Option.some_inj] at hx
    exact hx ▸ ⟨attempt, hm, hpc⟩
  · rw [Function.update_of_ne hd] at hx
    exact h d x hx

structure Provenance (settings : RabbitSettings) (s : SystemState) : Prop where
  queues : QueuesFrom settings s.events s.queues
  deliveries : DeliveriesFrom settings s.events s.deliveries
  rows : ∀ r ∈ s.process.payments, ∃ p, LoadsAs r.asPending p

section

variable {s s' : SystemState}

theorem events_subset {a : SystemLabel} (hinv : SystemInv cmd draw s)
    (h : SystemTrans cmd draw batchSize settings s a s') : s.events ⊆ s'.events := by
  rcases tables_step hinv h with ⟨-, he⟩ | ⟨i, payment, row, message, -, hinserted⟩
  · rw [SystemState.events, SystemState.events, he]
    exact List.Subset.refl _
  · have houtbox : s'.relay.outbox = s.relay.outbox ++ [message] := (Db.mk.inj hinserted.db).2
    rw [SystemState.events, SystemState.events, houtbox, List.map_append]
    exact List.subset_append_left _ _

theorem rows_step {a : SystemLabel} (hinv : SystemInv cmd draw s)
    (h : SystemTrans cmd draw batchSize settings s a s')
    (hrows : ∀ r ∈ s.process.payments, ∃ p, LoadsAs r.asPending p) :
    ∀ r ∈ s'.process.payments, ∃ p, LoadsAs r.asPending p := by
  have hmap : ∀ r : PaymentRow, ∀ rows : List PaymentRow, r ∈ rows →
      r.asPending ∈ rows.map PaymentRow.asPending := fun r rows hr => List.mem_map_of_mem hr
  rcases tables_step hinv h with ⟨he, -⟩ | ⟨i, payment, row, message, -, hinserted⟩
  · intro r hr
    obtain ⟨r₀, hr₀, hr₀r⟩ := List.mem_map.1 (he ▸ hmap r _ hr)
    exact hr₀r ▸ hrows r₀ hr₀
  · have hpayments : s'.process.payments = s.process.payments ++ [row] :=
      (Db.mk.inj hinserted.db).1
    intro r hr
    rw [hpayments] at hr
    rcases List.mem_append.1 hr with hr | hr
    · exact hrows r hr
    · obtain rfl := List.mem_singleton.1 hr
      have hstatus : r.status = .pending :=
        hinserted.rowOf.status.trans (buildPayment_ok hinserted.built).2.1
      rw [asPending_of_pending hstatus]
      exact hinserted.rowOf.loads

theorem queuesFrom_pass {k : ℕ} {act : PassAct} (hrelay : RelayInv s.relay)
    (h : QueuesFrom settings s.events s.queues) :
    QueuesFrom settings s.events (queuesAfterPass s.queues (s.relay.passes k) act) := by
  unfold queuesAfterPass
  split
  · rename_i done m todo n outcome hpc
    split_ifs
    · refine h.enqueue fun q hq => ?_
      obtain rfl := List.mem_singleton.1 (show q ∈ [newQueue] from route_new ▸ hq)
      obtain ⟨hm, -⟩ := (hrelay.live k done (m :: todo) n hpc).waiting m List.mem_cons_self
      exact .new (.first (o := m.asNew) (List.mem_map_of_mem hm))
    · exact h
  · exact h

theorem handlerStart_ok {m : Message} {id : UUID} {attempt : ℤ}
    (h : handlerStart m = .ok (id, attempt)) :
    paymentIdOf m.payload = .ok id ∧ attemptOf m.headers = .ok attempt := by
  unfold handlerStart at h
  rcases hid : paymentIdOf m.payload with e | id' <;> rw [hid] at h
  · cases h
  · rcases ha : attemptOf m.headers with e | attempt' <;>
      simp only [ha, Except.map, Except.ok.injEq, Prod.mk.injEq, reduceCtorEq] at h
    rw [h.1, h.2]
    exact ⟨rfl, rfl⟩

theorem pcFrom_afterUseCase {m : Message} {attempt : ℤ} {closeError : Option PyError}
    {pc : ProcessPc} {pc' : HandlerPc}
    (h : afterUseCase settings m attempt closeError pc = some pc') :
    PcFrom settings m attempt pc' := by
  unfold afterUseCase at h
  split at h
  · split at h <;> cases h
    · trivial
    · exact ⟨_, rfl⟩
  · cases h
    exact ⟨_, rfl⟩
  · cases h

theorem provenance_step {a : SystemLabel} (hinv : SystemInv cmd draw s)
    (hfrom : Provenance settings s)
    (h : (system cmd draw batchSize settings).step s a = some s') : Provenance settings s' := by
  have htrans := system_trans hinv.requests h
  have hsub := events_subset hinv htrans
  have hrows := rows_step hinv htrans hfrom.rows
  have hqueues := hfrom.queues.mono hsub
  have hdeliveries := hfrom.deliveries.mono hsub
  cases htrans with
  | request _ => exact ⟨hqueues, hdeliveries, hrows⟩
  | created _ _ => exact ⟨hqueues, hdeliveries, hrows⟩
  | pass _ => exact ⟨(queuesFrom_pass hinv.relay hfrom.queues).mono hsub, hdeliveries, hrows⟩
  | @deliver d n m hd hm =>
    obtain ⟨attempt, hattempt⟩ := (hqueues _ m (List.mem_of_getElem? hm)).of_new rfl
    exact ⟨hqueues.dequeue _ _, hdeliveries.update hattempt trivial, hrows⟩
  | refuse hx hpc hstart =>
    obtain ⟨attempt, hm, -⟩ := hdeliveries _ _ hx
    exact ⟨hqueues, hdeliveries.update hm trivial, hrows⟩
  | begin hx hpc hstart _ =>
    obtain ⟨attempt, hm, -⟩ := hdeliveries _ _ hx
    have hattempt := Except.ok.inj ((handlerStart_ok hstart).2.symm.trans hm.attemptOf)
    exact ⟨hqueues, hdeliveries.update hm hattempt, hrows⟩
  | useCaseEnds hx hpc hc hafter =>
    obtain ⟨attempt, hm, hpcFrom⟩ := hdeliveries _ _ hx
    rw [hpc] at hpcFrom
    exact ⟨hqueues, hdeliveries.update hm (hpcFrom ▸ pcFrom_afterUseCase hafter), hrows⟩
  | @publish d x p outcome hx hpc =>
    obtain ⟨attempt, hm, hpcFrom⟩ := hdeliveries _ _ hx
    rw [hpc] at hpcFrom
    obtain ⟨e, rfl⟩ := hpcFrom
    refine ⟨?_, hdeliveries.update hm (by cases outcome <;> trivial), hrows⟩
    change QueuesFrom settings s.events (if outcome.isAccepted then _ else _)
    split_ifs
    · exact hfrom.queues.enqueue (hm.onFailure e)
    · exact hfrom.queues
  | ack hx hpc hunacked =>
    obtain ⟨attempt, hm, hpcFrom⟩ := hdeliveries _ _ hx
    exact ⟨hqueues, hdeliveries.update hm hpcFrom, hrows⟩
  | @reject d x e hx hpc hunacked =>
    obtain ⟨attempt, hm, hpcFrom⟩ := hdeliveries _ _ hx
    refine ⟨hqueues.enqueue fun q hq => ?_, hdeliveries.update hm hpcFrom, hrows⟩
    obtain rfl := List.mem_singleton.1 (show q ∈ [dlqQueue] from deadLetter_new ▸ hq)
    have hsame : { x.message with expiration := none } = x.message := by rw [← hm.expiration]
    exact hsame.symm ▸ .rejected hm
  | crash hx =>
    obtain ⟨attempt, hm, -⟩ := hdeliveries _ _ hx
    exact ⟨hqueues, hdeliveries.update hm trivial, hrows⟩
  | takeBack hx hunacked =>
    obtain ⟨attempt, hm, hpcFrom⟩ := hdeliveries _ _ hx
    refine ⟨hqueues.enqueue fun q hq => ?_, hdeliveries.update hm hpcFrom, hrows⟩
    obtain rfl := List.mem_singleton.1 hq
    exact .new hm
  | call _ _ _ => exact ⟨hqueues, hdeliveries, hrows⟩
  | expire hm =>
    refine ⟨(hqueues.dequeue _ _).enqueue fun q hq => ?_, hdeliveries, hrows⟩
    obtain rfl := List.mem_singleton.1 (show q ∈ [newQueue] from deadLetter_retry ▸ hq)
    obtain ⟨attempt, hattempt⟩ := (hqueues _ _ (List.mem_of_getElem? hm)).of_retry rfl
    exact .new hattempt

theorem provenance_run (h : (system cmd draw batchSize settings).Reachable .init s) :
    Provenance settings s :=
  (h.inv (I := fun s => SystemInv cmd draw s ∧ Provenance settings s)
    (fun _ _ _ hs hstep => ⟨systemInv_step hs.1 hstep, provenance_step hs.1 hs.2 hstep⟩)
    ⟨systemInv_init, by simp [QueuesFrom, SystemState.init, Queues.empty],
      by simp [DeliveriesFrom, SystemState.init], by simp [SystemState.init, ProcessState.init]⟩).2

end

/-! ## No error of its own -/

/-- The message is that of a committed event, which tells of a committed payment. -/
def Concerns (s : SystemState) (m : Message) : Prop :=
  ∃ o ∈ s.relay.outbox, m.payload = o.payload ∧ ∃ r ∈ s.process.payments, Announces o r

def ProcessPc.isRaised : ProcessPc → Bool
  | raised _ _ => true
  | _ => false

section

variable {s s' : SystemState}

theorem concerns_of_event (htables : TablesOk s) {m : Message}
    (h : ∃ o ∈ s.events, m.payload = o.payload) : Concerns s m := by
  obtain ⟨o', ho', hpayload⟩ := h
  obtain ⟨o, ho, rfl⟩ := List.mem_map.1 ho'
  exact ⟨o, ho, hpayload, Pairing.exists_right htables.forall₂ ho⟩

/-- The handler of an attempt gets to its use case, with the id of a committed payment. -/
theorem handlerStart_attempt (htables : TablesOk s) {m : Message} {attempt : ℤ}
    (h : IsAttempt settings s.events attempt m) :
    ∃ r ∈ s.process.payments, handlerStart m = .ok (r.id, attempt) := by
  obtain ⟨o, -, hpayload, r, hr, hannounces⟩ := concerns_of_event htables h.payload
  have hid : paymentIdOf m.payload = .ok r.id :=
    paymentIdOf_of_names (hpayload ▸ hannounces.paymentId)
  exact ⟨r, hr, by rw [handlerStart, hid, h.attemptOf]; rfl⟩

theorem loads_of_asPending {r : PaymentRow} (h : ∃ p, LoadsAs r.asPending p) :
    ∃ p, LoadsAs r p := by
  obtain ⟨p, hp⟩ := h
  exact exists_loadsAs hp.idempotencyKey.symm hp.webhookUrl.symm

end

section

variable {s s' : ProcessState} {k : ℕ}

/-- The UPDATE of a marked payment meets the CHECK on status and time. -/
theorem updateStatus_marked {id : UUID} {p : Payment} (hpc : PcOk s k id (.updateStatus p)) :
    ∃ found, PaymentRepository.updateStatus s.payments p = .ok found := by
  obtain ⟨-, -, -, p₀, -, b, now, -, hmarked⟩ := hpc
  have hp := (Payment.transitionTo_now hmarked).2
  have hcheck : p.status = .pending ↔ p.processedAt.map DateTime.instant = none := by
    rw [hp]
    simp [statusOf_ne_pending]
  unfold PaymentRepository.updateStatus
  split
  · exact ⟨none, rfl⟩
  · rename_i row _
    exact ⟨_, by rw [PaymentRow.setStatus, dif_pos hcheck]; rfl⟩

/-- A call whose payment is in the table does not raise on its own account. -/
theorem not_raised_step (hinv : ProcessInv s)
    (hrows : ∀ r ∈ s.payments, ∃ p, LoadsAs r p) {c : ProcessCall} (hc : s.calls k = some c)
    (hrow : ∃ r ∈ s.payments, r.id = c.paymentId) {act : ProcessAct}
    (hact : act = .next ∨ ∃ b now, act = .answer b now) (h : processStep s k act = some s') :
    ∃ c', s'.calls k = some c' ∧ c'.pc.isRaised = false := by
  obtain ⟨r, hr, hrid⟩ := hrow
  obtain ⟨p, hp⟩ := hrows r hr
  have hget := get_of_mem hinv.ids hr hp
  rw [hrid] at hget
  cases processStep_trans h with
  | begin => simp at hact
  | @get _ id hc' =>
    obtain rfl := Option.some.inj (hc.symm.trans hc')
    refine ⟨_, Function.update_self _ _ _, ?_⟩
    simp only at hget
    rw [hget, afterGet]
    split_ifs <;> rfl
  | charge => exact ⟨_, Function.update_self _ _ _, rfl⟩
  | @answer _ id q b now hc' =>
    obtain ⟨-, r, -, hq⟩ := hinv.calls k _ hc'
    refine ⟨_, Function.update_self _ _ _, ?_⟩
    simp only [afterCharge, mark_eq_transitionTo, Payment.transitionTo_pending hq.status]
    rfl
  | @update _ id q hc' =>
    obtain ⟨found, hfound⟩ := updateStatus_marked (hinv.calls k _ hc')
    exact ⟨_, Function.update_self _ _ _, by rw [hfound]; rfl⟩
  | @commit _ id q applied =>
    exact ⟨_, Function.update_self _ _ _, by cases applied <;> rfl⟩
  | @getAgain _ id q hc' =>
    obtain rfl := Option.some.inj (hc.symm.trans hc')
    obtain ⟨hqid, -⟩ := hinv.calls k _ hc'
    simp only at hget
    exact ⟨_, Function.update_self _ _ _, by rw [hqid, hget]; rfl⟩
  | send => exact ⟨_, Function.update_self _ _ _, rfl⟩
  | accept => exact ⟨_, Function.update_self _ _ _, rfl⟩
  | stop _ _ hstop => rcases hstop with rfl | ⟨e, rfl⟩ <;> simp at hact

end

section

variable {s s' : SystemState} {d : ℕ}

theorem start_reaches_use_case (hfrom : Provenance settings s) (htables : TablesOk s)
    (h : SystemTrans cmd draw batchSize settings s (.handler d .start) s') :
    ∃ y attempt, s'.deliveries d = some y ∧ y.pc = .inUseCase attempt ∧ 1 ≤ attempt
      ∧ attempt ≤ max 1 settings.maxDeliveryAttempts := by
  cases h with
  | refuse hy hpc hstart =>
    obtain ⟨attempt, hm, -⟩ := hfrom.deliveries _ _ hy
    obtain ⟨r, -, hok⟩ := handlerStart_attempt htables hm
    cases hstart.symm.trans hok
  | @begin _ y id attempt process hy hpc hstart _ =>
    obtain ⟨attempt', hm, -⟩ := hfrom.deliveries _ _ hy
    obtain rfl := Except.ok.inj ((handlerStart_ok hstart).2.symm.trans hm.attemptOf)
    exact ⟨_, attempt, Function.update_self _ _ _, rfl, hm.bounds⟩

theorem call_not_raised (hinv : SystemInv cmd draw s) (hfrom : Provenance settings s)
    (htables : TablesOk s) (hloss : NoLossInv s) {act : ProcessAct}
    (hact : act = .next ∨ ∃ b now, act = .answer b now)
    (h : SystemTrans cmd draw batchSize settings s (.call d act) s') :
    ∃ c, s'.process.calls d = some c ∧ c.pc.isRaised = false := by
  cases h with
  | @call _ _ y attempt process hy hpc hstep =>
    have hok := hloss.handlers d y hy
    rw [HandlerOk, hpc] at hok
    obtain ⟨c, hc, hcid⟩ := hok
    obtain ⟨attempt', hm, -⟩ := hfrom.deliveries _ _ hy
    obtain ⟨r, hr, hstart⟩ := handlerStart_attempt htables hm
    have hid := Except.ok.inj ((handlerStart_ok hstart).1.symm.trans hcid)
    exact not_raised_step hinv.process (fun r hr => loads_of_asPending (hfrom.rows r hr)) hc
      ⟨r, hr, hid⟩ hact hstep

end

/-- In every run each message, wherever it is, is that of a committed event which tells of a
committed payment; each handler that starts gets to its use case, for an attempt within the bound;
and no call raises of its own: with its answers from the gateway, the database and the receiver, it
goes on. -/
theorem handlers_reach_use_case {as : List SystemLabel} {s : SystemState}
    (hrun : (system cmd draw batchSize settings).run .init as = some s) :
    (∀ q, ∀ m ∈ s.queues q, Concerns s m)
      ∧ (∀ d x, s.deliveries d = some x → Concerns s x.message)
      ∧ ∀ x ∈ (system cmd draw batchSize settings).steps .init as, ∀ d,
        (x.2.1 = .handler d .start → ∃ y attempt, x.2.2.deliveries d = some y
          ∧ y.pc = .inUseCase attempt ∧ 1 ≤ attempt ∧ attempt ≤ max 1 settings.maxDeliveryAttempts)
        ∧ ∀ act, x.2.1 = .call d act → (act = .next ∨ ∃ b now, act = .answer b now) →
          ∃ c, x.2.2.process.calls d = some c ∧ c.pc.isRaised = false := by
  have hfrom := provenance_run ⟨as, hrun⟩
  have htables := tablesOk_run ⟨as, hrun⟩
  refine ⟨fun q m hm => concerns_of_event htables (hfrom.queues q m hm).payload, fun d x hx => ?_,
    fun x hx d => ?_⟩
  · obtain ⟨attempt, hm, -⟩ := hfrom.deliveries d x hx
    exact concerns_of_event htables hm.payload
  obtain ⟨hbefore, -⟩ := Machine.reachable_of_mem_steps hx
  have hinv := systemInv_run hbefore
  have hfrom := provenance_run hbefore
  have htables := tablesOk_run hbefore
  have htrans := system_trans hinv.requests (Machine.mem_steps hx).1
  refine ⟨fun ha => start_reaches_use_case hfrom htables (ha ▸ htrans), fun act ha hact => ?_⟩
  exact call_not_raised hinv hfrom htables (noLoss_run hbefore) hact (ha ▸ htrans)

theorem crashedLabels_reach_use_case : ∃ s, sampleSystem.run .init crashedLabels = some s
    ∧ (s.queues newQueue).length = 1 ∧ ∀ m ∈ s.queues newQueue, Concerns s m := by
  have h : (sampleSystem.run .init crashedLabels).map
      (fun s => (s.queues newQueue).length) = some 1 := by
    decide +kernel
  obtain ⟨s, hrun, hlength⟩ := Option.map_eq_some_iff.1 h
  exact ⟨s, hrun, hlength, (handlers_reach_use_case hrun).1 newQueue⟩

/-! ## What the headers say -/

/-- The headers of a copy: the number of its attempt and the error of the one before, cut. -/
structure CopyHeaders (m : Message) (attempt : ℤ) : Prop where
  attempt : m.headers.lookup ATTEMPT_HEADER = some (.int attempt)
  error : ∃ text : String, m.headers.lookup ERROR_HEADER = some (.str text)
    ∧ text.length ≤ MAX_ERROR_LENGTH
  messageId : m.messageId = none

/-- The first message of an event, or a copy for a later attempt. -/
inductive AttemptHeaders (N : ℤ) (m : Message) : ℤ → Prop
  | first (hlookup : m.headers.lookup ATTEMPT_HEADER = none)
    (htype : m.headers.lookup "x-event-type" = some (.str PAYMENT_CREATED))
    (hid : ∃ id : UUID, m.messageId = some id.str) : AttemptHeaders N m 1
  | again {attempt : ℤ} (h2 : 2 ≤ attempt) (hN : attempt ≤ N) (h : CopyHeaders m attempt) :
    AttemptHeaders N m attempt

theorem copyHeaders_failureHeaders {m : Message} {attempt : ℤ} {e : PyError}
    (hheaders : m.headers = failureHeaders attempt e) (hid : m.messageId = none) :
    CopyHeaders m attempt where
  attempt := hheaders ▸ lookup_failureHeaders attempt e
  error := ⟨_, by rw [hheaders]; rfl, length_truncate_le _ _⟩
  messageId := hid

theorem IsAttempt.headers {s : SystemState} (htables : TablesOk s) {m : Message} {attempt : ℤ}
    (h : IsAttempt settings s.events attempt m) :
    AttemptHeaders settings.maxDeliveryAttempts m attempt := by
  cases h with
  | @first o ho =>
    obtain ⟨r, -, hannounces⟩ := Pairing.exists_right htables.pairs ho
    exact .first rfl (hannounces.eventType ▸ rfl) ⟨o.id, rfl⟩
  | again ho h1 hN => exact .again (by omega) (by omega) (copyHeaders_failureHeaders rfl rfl)

/-- In every run a message to be handled has no expiration and is the first of its event or a copy
with its number, between 2 and the bound; a message that waits for its attempt `a` waits
`base * 2 ^ (a - 2)` seconds; a dead one is a message to be handled or has the number of its last
attempt, which is the bound; and no other queue holds anything. -/
theorem messages_are_numbered {as : List SystemLabel} {s : SystemState}
    (hrun : (system cmd draw batchSize settings).run .init as = some s) :
    (∀ m ∈ s.queues newQueue, m.expiration = none
        ∧ ∃ a, AttemptHeaders settings.maxDeliveryAttempts m a ∧ attemptOf m.headers = .ok a)
      ∧ (∀ d x, s.deliveries d = some x → x.message.expiration = none
        ∧ ∃ a, AttemptHeaders settings.maxDeliveryAttempts x.message a
          ∧ attemptOf x.message.headers = .ok a)
      ∧ (∀ m ∈ s.queues retryQueue, ∃ a, 2 ≤ a ∧ a ≤ settings.maxDeliveryAttempts
        ∧ CopyHeaders m a
        ∧ m.expiration = some (settings.retryBaseDelaySeconds * 2 ^ (a - 2)))
      ∧ (∀ m ∈ s.queues dlqQueue, m.expiration = none
        ∧ ∃ a, AttemptHeaders settings.maxDeliveryAttempts m a
          ∨ (a = max 1 settings.maxDeliveryAttempts ∧ CopyHeaders m a))
      ∧ ∀ q, q ∉ [newQueue, retryQueue, dlqQueue] → s.queues q = [] := by
  have hfrom := provenance_run ⟨as, hrun⟩
  have htables := tablesOk_run ⟨as, hrun⟩
  refine ⟨fun m hm => ?_, fun d x hx => ?_, fun m hm => ?_, fun m hm => ?_, fun q hq => ?_⟩
  · obtain ⟨a, ha⟩ := (hfrom.queues _ m hm).of_new rfl
    exact ⟨ha.expiration, a, ha.headers htables, ha.attemptOf⟩
  · obtain ⟨a, ha, -⟩ := hfrom.deliveries d x hx
    exact ⟨ha.expiration, a, ha.headers htables, ha.attemptOf⟩
  · generalize hq : retryQueue = q at hm
    cases hfrom.queues q m hm with
    | @retry o attempt e ho h1 hN =>
      refine ⟨attempt + 1, by omega, by omega, copyHeaders_failureHeaders rfl rfl, ?_⟩
      rw [show attempt + 1 - 2 = attempt - 1 by omega]
      rfl
    | new | dead | rejected => exact absurd hq (by decide)
  · generalize hq : dlqQueue = q at hm
    cases hfrom.queues q m hm with
    | @dead o attempt e ho h1 hN hmax =>
      exact ⟨rfl, attempt, .inr ⟨by omega, copyHeaders_failureHeaders rfl rfl⟩⟩
    | @rejected attempt m h => exact ⟨h.expiration, attempt, .inl (h.headers htables)⟩
    | new | retry => exact absurd hq (by decide)
  · refine List.eq_nil_iff_forall_not_mem.2 fun m hm => hq ?_
    cases hfrom.queues q m hm <;> simp

/-- A payment whose first attempt failed and waits for its second. -/
def retriedLabels : List SystemLabel :=
  sampleLabels.take 11 ++ [.call 0 (.fail (.other "TimeoutError" "timed out")),
    .handler 0 (.useCaseEnds none), .handler 0 (.publish (.published 3)), .handler 0 .settle]

theorem retriedLabels_numbered : ∃ s, sampleSystem.run .init retriedLabels = some s
    ∧ (s.queues retryQueue).length = 1
    ∧ ∀ m ∈ s.queues retryQueue, ∃ a, 2 ≤ a ∧ a ≤ 5 ∧ CopyHeaders m a
      ∧ m.expiration = some (1 * 2 ^ (a - 2)) := by
  have h : (sampleSystem.run .init retriedLabels).map
      (fun s => (s.queues retryQueue).length) = some 1 := by
    decide +kernel
  obtain ⟨s, hrun, hlength⟩ := Option.map_eq_some_iff.1 h
  exact ⟨s, hrun, hlength, (messages_are_numbered hrun).2.2.1⟩

end PaymentService
