import PaymentService.Proofs.Correspondence
import PaymentService.Proofs.Relay

/-!
# No payment is lost

A payment is tracked while a message that names it waits in a queue or is with a handler that has
not returned, and for good once a notification of it was accepted. Each step that takes a message
away puts it, or a copy of it, elsewhere first, or returns after the notification, so what is
tracked stays tracked (`tracked_step`); and whatever the broker has accepted is tracked
(`noLoss_step`).
-/

namespace PaymentService

open Python Labelled

variable {cmd : ℕ → CreatePaymentCommand} {draw : ℕ → Draw} {batchSize : ℕ → ℕ}
  {settings : RabbitSettings}

/-! ## Queues -/

section

variable {queues : Queues} {q q₀ : RabbitQueue} {m m₀ : Message} {targets : List RabbitQueue}

theorem mem_enqueue (h : m ∈ queues q) : m ∈ queues.enqueue targets m₀ q := by
  unfold Queues.enqueue
  split_ifs
  · exact List.mem_append_left _ h
  · exact h

theorem mem_enqueue_self (h : targets = [q]) : m ∈ queues.enqueue targets m q := by
  rw [h, Queues.enqueue, if_pos List.mem_cons_self]
  exact List.mem_append_right _ List.mem_cons_self

/-- All but the message taken stay. -/
theorem mem_dequeue {n : ℕ} (hn : (queues q₀)[n]? = some m₀) (h : m ∈ queues q) :
    m = m₀ ∨ m ∈ queues.dequeue q₀ n q := by
  by_cases hq : q = q₀
  · subst hq
    obtain ⟨i, hi⟩ := List.getElem?_of_mem h
    by_cases hin : i = n
    · subst hin
      exact .inl (Option.some.inj (hi.symm.trans hn))
    · refine .inr ?_
      rw [Queues.dequeue, Function.update_self]
      exact List.mem_eraseIdx_iff_getElem?.2 ⟨i, hin, hi⟩
  · rw [Queues.dequeue, Function.update_of_ne hq]
    exact .inr h

end

/-! ## What names a payment -/

/-- The payload says `payment_id = id`. -/
def Names (id : UUID) (payload : Dict) : Prop := payload.lookup "payment_id" = some (.str id.str)

theorem paymentIdOf_of_names {id : UUID} {payload : Dict} (h : Names id payload) :
    paymentIdOf payload = .ok id := by
  rw [Names] at h
  simp only [paymentIdOf, h, UUID.ofText_str, Except.mapError]

/-- A message that names the payment is somewhere it will be handled from, or stays for good, or a
notification of the payment was accepted. -/
inductive Tracked (s : SystemState) (id : UUID) : Prop
  | queued (q : RabbitQueue) (hq : q ∈ [newQueue, retryQueue, dlqQueue]) (m : Message)
    (hm : m ∈ s.queues q) (hid : Names id m.payload)
  | unacked (d : ℕ) (x : Delivery) (hx : s.deliveries d = some x) (hunacked : x.unacked = true)
    (hpc : x.pc ≠ .returned) (hid : Names id x.message.payload)
  | notified (n : Notification) (hn : n ∈ s.process.accepted) (hid : n.paymentId = id)

/-- What a handler that stands somewhere holds. -/
def HandlerOk (s : SystemState) (d : ℕ) (x : Delivery) : Prop :=
  match x.pc with
  | .inUseCase _ =>
    ∃ c, s.process.calls d = some c ∧ paymentIdOf x.message.payload = .ok c.paymentId
  | .onFailure p => p.message.payload = x.message.payload
      ∧ (route p.exchange p.routingKey = [retryQueue] ∨ route p.exchange p.routingKey = [dlqQueue])
  | _ => True

structure NoLossInv (s : SystemState) : Prop where
  accepted : ∀ a ∈ s.relay.accepted, ∀ id, Names id a.payload → Tracked s id
  published : ∀ m ∈ s.relay.outbox, m.publishedAt ≠ none →
    ∃ k, Accepted.mk k m.id m.eventType m.payload true ∈ s.relay.accepted
  handlers : ∀ d x, s.deliveries d = some x → HandlerOk s d x
  returned : ∀ d id, s.process.calls d = some ⟨id, .returned⟩ →
    ∃ n ∈ s.process.accepted, n.paymentId = id

/-! ## Calls -/

section

variable {s s' : ProcessState} {b : ProcessLabel}

/-- A call keeps its payment, the receivers keep what they accepted, and a call returns only after
one of them accepted its notification. -/
structure CallsStepOk (s s' : ProcessState) : Prop where
  calls : ∀ k c, s.calls k = some c → ∃ c', s'.calls k = some c' ∧ c'.paymentId = c.paymentId
  accepted : ∀ n ∈ s.accepted, n ∈ s'.accepted
  returned : ∀ k id, s'.calls k = some ⟨id, .returned⟩ →
    s.calls k = some ⟨id, .returned⟩ ∨ ∃ n ∈ s'.accepted, n.paymentId = id

theorem callsStepOk_of_move {k : ℕ} {id : UUID} {pc : ProcessPc}
    (hcalls : s'.calls = Function.update s.calls k (some ⟨id, pc⟩))
    (hid : ∀ c, s.calls k = some c → c.paymentId = id)
    (haccepted : ∀ n ∈ s.accepted, n ∈ s'.accepted)
    (hpc : pc = .returned → ∃ n ∈ s'.accepted, n.paymentId = id) : CallsStepOk s s' := by
  refine ⟨fun j c hc => ?_, haccepted, fun j i hj => ?_⟩
  · by_cases hjk : j = k
    · subst hjk
      exact ⟨⟨id, pc⟩, by rw [hcalls, Function.update_self], (hid c hc).symm⟩
    · exact ⟨c, by rw [hcalls, Function.update_of_ne hjk, hc], rfl⟩
  · rw [hcalls] at hj
    by_cases hjk : j = k
    · subst hjk
      rw [Function.update_self, Option.some_inj, ProcessCall.mk.injEq] at hj
      obtain ⟨rfl, rfl⟩ := hj
      exact .inr (hpc rfl)
    · rw [Function.update_of_ne hjk] at hj
      exact .inl hj

theorem afterGet_ne_returned (id : UUID) (found : Except PyError (Option Payment)) :
    afterGet id found ≠ .returned := by
  unfold afterGet
  split
  · simp
  · simp
  · split_ifs <;> simp

theorem afterCharge_ne_returned (p : Payment) (b : Bool) (now : ℤ) :
    afterCharge p b now ≠ .returned := by
  unfold afterCharge
  split <;> simp

theorem afterUpdateStatus_ne_returned (p : Payment) (row : Except PyError (Option PaymentRow)) :
    afterUpdateStatus p row ≠ .returned := by
  cases row <;> simp [afterUpdateStatus]

theorem afterCommit_ne_returned (p : Payment) (applied : Bool) :
    afterCommit p applied ≠ .returned := by
  cases applied <;> simp [afterCommit]

theorem afterGetAgain_ne_returned (p : Payment) (found : Except PyError (Option Payment)) :
    afterGetAgain p found ≠ .returned := by
  cases found <;> simp [afterGetAgain]

theorem callsStepOk (hinv : ProcessInv s) (h : processMachine.step s b = some s') :
    CallsStepOk s s' := by
  cases processMachine_trans h with
  | begin hc => exact callsStepOk_of_move rfl (by simp [hc]) (fun _ h => h) (by simp)
  | get hc =>
    exact callsStepOk_of_move rfl (by simp [hc]) (fun _ h => h)
      fun h => absurd h (afterGet_ne_returned _ _)
  | charge hc => exact callsStepOk_of_move rfl (by simp [hc]) (fun _ h => h) (by simp)
  | answer hc =>
    exact callsStepOk_of_move rfl (by simp [hc]) (fun _ h => h)
      fun h => absurd h (afterCharge_ne_returned _ _ _)
  | update hc =>
    exact callsStepOk_of_move (by rw [ProcessState.setCall_calls, ProcessState.write_calls])
      (by simp [hc]) (fun _ h => by simpa using h)
      fun h => absurd h (afterUpdateStatus_ne_returned _ _)
  | commit hc =>
    exact callsStepOk_of_move rfl (by simp [hc]) (fun _ h => h)
      fun h => absurd h (afterCommit_ne_returned _ _)
  | getAgain hc =>
    exact callsStepOk_of_move rfl (by simp [hc]) (fun _ h => h)
      fun h => absurd h (afterGetAgain_ne_returned _ _)
  | send hc => exact callsStepOk_of_move rfl (by simp [hc]) (fun _ h => h) (by simp)
  | @accept k id p hc =>
    obtain ⟨hid, -⟩ := hinv.calls k _ hc
    refine callsStepOk_of_move rfl (by simp [hc]) (fun _ h => List.mem_append_left _ h)
      fun _ => ⟨notificationOf p, List.mem_append_right _ List.mem_cons_self, hid⟩
  | @stop k id pc stopped act hc hrunning hact hstopped =>
    refine callsStepOk_of_move rfl (by simp [hc]) (fun _ h => h) fun h => ?_
    rw [h] at hstopped
    cases hstopped
  | insert hfresh => exact ⟨fun k c hc => ⟨c, hc, rfl⟩, fun _ h => h, fun _ _ h => .inl h⟩

end

/-- A step of the service as the calls see it. -/
theorem SystemTrans.calls {s s' : SystemState} {a : SystemLabel} (hinv : ProcessInv s.process)
    (h : SystemTrans cmd draw batchSize settings s a s') : CallsStepOk s.process s'.process := by
  rcases h.process with he | ⟨b, -, hb⟩
  · rw [he]
    exact ⟨fun k c hc => ⟨c, hc, rfl⟩, fun _ h => h, fun _ _ h => .inl h⟩
  · exact callsStepOk hinv hb

/-! ## What is tracked stays tracked -/

section

variable {s s' : SystemState} {id : UUID}

/-- A step after which every message is still in its queue, and every delivery that was a witness
is one or has left another. -/
theorem Tracked.mono (h : Tracked s id)
    (hqueues : ∀ q m, m ∈ s.queues q → m ∈ s'.queues q)
    (hdeliveries : ∀ d x, s.deliveries d = some x → x.unacked = true → x.pc ≠ .returned →
      Names id x.message.payload → Tracked s' id)
    (haccepted : ∀ n ∈ s.process.accepted, n ∈ s'.process.accepted) : Tracked s' id := by
  rcases h with ⟨q, hq, m, hm, hid⟩ | ⟨d, x, hx, hunacked, hpc, hid⟩ | ⟨n, hn, hid⟩
  · exact .queued q hq m (hqueues q m hm) hid
  · exact hdeliveries d x hx hunacked hpc hid
  · exact .notified n (haccepted n hn) hid

/-- A step that changes one delivery: only if that was a witness must another be given. -/
theorem Tracked.setDelivery (h : Tracked s id) {d₀ : ℕ} {x x₀ : Delivery}
    (hx : s.deliveries d₀ = some x)
    (hdeliveries : s'.deliveries = Function.update s.deliveries d₀ (some x₀))
    (hqueues : ∀ q m, m ∈ s.queues q → m ∈ s'.queues q)
    (haccepted : ∀ n ∈ s.process.accepted, n ∈ s'.process.accepted)
    (hchanged : x.unacked = true → x.pc ≠ .returned → Names id x.message.payload → Tracked s' id) :
    Tracked s' id := by
  refine h.mono hqueues (fun d y hy hunacked hpc hid => ?_) haccepted
  by_cases hd : d = d₀
  · subst hd
    obtain rfl := Option.some.inj (hx.symm.trans hy)
    exact hchanged hunacked hpc hid
  · exact .unacked d y (by rw [hdeliveries, Function.update_of_ne hd, hy]) hunacked hpc hid

theorem mem_queuesAfterPass {queues : Queues} {q : RabbitQueue} {m : Message}
    (h : m ∈ queues q) (pc : PassPc) (act : PassAct) : m ∈ queuesAfterPass queues pc act q := by
  unfold queuesAfterPass
  split
  · split_ifs
    · exact mem_enqueue h
    · exact h
  · exact h

theorem returned_of_afterUseCase {m : Message} {attempt : ℤ} {closeError : Option PyError}
    {pc : ProcessPc} (h : afterUseCase settings m attempt closeError pc = some .returned) :
    pc = .returned := by
  unfold afterUseCase at h
  split at h
  · rfl
  · cases h
  · cases h

/-- A message that was delivered is with its consumer, and the others are where they were. -/
theorem Tracked.deliver (h : Tracked s id) {d n : ℕ} {m : Message} (hd : s.deliveries d = none)
    (hm : (s.queues newQueue)[n]? = some m) :
    Tracked ({ s with queues := s.queues.dequeue newQueue n }.setDelivery d ⟨m, true, .received⟩)
      id := by
  rcases h with ⟨q, hq, m', hm', hid⟩ | ⟨d', x, hx, hunacked, hpc, hid⟩ | ⟨n, hn, hid⟩
  · rcases mem_dequeue hm hm' with rfl | hm'
    · exact .unacked d _ (Function.update_self d _ s.deliveries) rfl (by simp) hid
    · exact .queued q hq m' hm' hid
  · have hne : d' ≠ d := fun he => by simp [he, hd] at hx
    exact .unacked d' x ((Function.update_of_ne hne _ _).trans hx) hunacked hpc hid
  · exact .notified n hn hid

/-- A message that has expired is back in `payments.new`. -/
theorem Tracked.expire (h : Tracked s id) {n : ℕ} {m : Message}
    (hm : (s.queues retryQueue)[n]? = some m) :
    Tracked { s with queues := (s.queues.dequeue retryQueue n).deadLetter retryQueue m } id := by
  rcases h with ⟨q, hq, m', hm', hid⟩ | ⟨d, x, hx, hunacked, hpc, hid⟩ | ⟨n, hn, hid⟩
  · rcases mem_dequeue hm hm' with rfl | hm'
    · refine .queued newQueue (by simp) { m' with expiration := none } ?_ hid
      exact mem_enqueue_self deadLetter_retry
    · exact .queued q hq m' (mem_enqueue hm') hid
  · exact .unacked d x hx hunacked hpc hid
  · exact .notified n hn hid

/-- Where the use case has returned, the payment's notification was accepted. -/
theorem NoLossInv.notified_of_useCaseEnds (hinv : NoLossInv s) {d : ℕ} {x : Delivery}
    {attempt : ℤ} {c : ProcessCall} {closeError : Option PyError}
    (hx : s.deliveries d = some x) (hpc : x.pc = .inUseCase attempt)
    (hc : s.process.calls d = some c)
    (h : afterUseCase settings x.message attempt closeError c.pc = some .returned)
    (hid : Names id x.message.payload) : ∃ n ∈ s.process.accepted, n.paymentId = id := by
  obtain ⟨cid, cpc⟩ := c
  obtain rfl : cpc = .returned := returned_of_afterUseCase h
  have hok := hinv.handlers d x hx
  rw [HandlerOk, hpc] at hok
  obtain ⟨c', hc', hcid⟩ := hok
  rw [hc, Option.some_inj] at hc'
  subst hc'
  rw [paymentIdOf_of_names hid, Except.ok.injEq] at hcid
  obtain ⟨n, hn, hnid⟩ := hinv.returned d cid hc
  exact ⟨n, hn, hnid.trans hcid.symm⟩

/-- What the retry policy publishes is a copy of the message, in one of its two queues. -/
theorem NoLossInv.mem_publish (hinv : NoLossInv s) {d : ℕ} {x : Delivery} {p : Publish}
    (hx : s.deliveries d = some x) (hpc : x.pc = .onFailure p) :
    p.message.payload = x.message.payload ∧
      (p.message ∈ s.queues.publish p retryQueue ∨ p.message ∈ s.queues.publish p dlqQueue) := by
  have hok := hinv.handlers d x hx
  rw [HandlerOk, hpc] at hok
  exact ⟨hok.1, hok.2.imp mem_enqueue_self mem_enqueue_self⟩

theorem tracked_step {a : SystemLabel} (hinv : NoLossInv s) (hprocess : ProcessInv s.process)
    (h : SystemTrans cmd draw batchSize settings s a s') (ht : Tracked s id) :
    Tracked s' id := by
  have haccepted := (h.calls hprocess).accepted
  have hself : ∀ (d : ℕ) (x : Delivery), Function.update s.deliveries d (some x) d = some x :=
    fun d x => Function.update_self d (some x) s.deliveries
  cases h with
  | request h => exact ht.mono (fun _ _ hm => hm) (fun d x hx => .unacked d x hx) haccepted
  | created hpc h => exact ht.mono (fun _ _ hm => hm) (fun d x hx => .unacked d x hx) haccepted
  | call hx hpc h => exact ht.mono (fun _ _ hm => hm) (fun d x hx => .unacked d x hx) haccepted
  | pass h =>
    exact ht.mono (fun _ _ hm => mem_queuesAfterPass hm _ _) (fun d x hx => .unacked d x hx)
      haccepted
  | deliver hd hm => exact ht.deliver hd hm
  | expire hm => exact ht.expire hm
  | refuse hx hpc hstart =>
    exact ht.setDelivery hx rfl (fun _ _ hm => hm) haccepted fun hunacked _ hid =>
      .unacked _ _ (hself _ _) hunacked (by simp) hid
  | begin hx hpc hstart h =>
    exact ht.setDelivery hx rfl (fun _ _ hm => hm) haccepted fun hunacked _ hid =>
      .unacked _ _ (hself _ _) hunacked (by simp) hid
  | @useCaseEnds d x attempt c closeError pc hx hpc hc h =>
    refine ht.setDelivery hx rfl (fun _ _ hm => hm) haccepted fun hunacked _ hid => ?_
    by_cases hreturned : pc = .returned
    · obtain ⟨n, hn, hnid⟩ := hinv.notified_of_useCaseEnds hx hpc hc (hreturned ▸ h) hid
      exact .notified n hn hnid
    · exact .unacked d _ (hself d _) hunacked hreturned hid
  | @publish d x p outcome hx hpc =>
    refine ht.setDelivery hx rfl (fun q m hm => ?_) haccepted fun hunacked _ hid => ?_
    · change m ∈ (if outcome.isAccepted then s.queues.publish p else s.queues) q
      split_ifs
      · exact mem_enqueue hm
      · exact hm
    · cases outcome with
      | published now =>
        -- the message is about to be acknowledged, but its copy is in a queue
        obtain ⟨hpayload, hm | hm⟩ := hinv.mem_publish hx hpc
        · exact .queued retryQueue (by simp) p.message hm (hpayload ▸ hid)
        · exact .queued dlqQueue (by simp) p.message hm (hpayload ▸ hid)
      | refused e => exact .unacked d _ (hself d _) hunacked (by simp [afterPublish]) hid
      | unconfirmed e => exact .unacked d _ (hself d _) hunacked (by simp [afterPublish]) hid
  | ack hx hpc hunacked =>
    exact ht.setDelivery hx rfl (fun _ _ hm => hm) haccepted fun _ hne _ => absurd hpc hne
  | @reject d x e hx hpc hunacked =>
    exact ht.setDelivery hx rfl (fun _ _ hm => mem_enqueue hm) haccepted fun _ _ hid =>
      .queued dlqQueue (by simp) { x.message with expiration := none }
        (mem_enqueue_self deadLetter_new) hid
  | crash hx =>
    exact ht.setDelivery hx rfl (fun _ _ hm => hm) haccepted fun hunacked _ hid =>
      .unacked _ _ (hself _ _) hunacked (by simp) hid
  | @takeBack d x hx hunacked =>
    exact ht.setDelivery hx rfl (fun _ _ hm => mem_enqueue hm) haccepted fun _ _ hid =>
      .queued newQueue (by simp) x.message
        (mem_enqueue_self (q := newQueue) (m := x.message) rfl) hid

end

/-! ## The invariant -/

section

variable {s s' : SystemState}

/-- What the broker accepts from a pass is in `payments.new`. -/
theorem accepted_pass {k : ℕ} {act : PassAct} {relay : RelayState}
    (h : passStep batchSize s.relay k act = some relay) {a : Accepted} (ha : a ∈ relay.accepted) :
    a ∈ s.relay.accepted ∨
      ∃ m ∈ queuesAfterPass s.queues (s.relay.passes k) act newQueue, m.payload = a.payload := by
  cases passStep_trans h with
  | @publish k done todo m n o hk =>
    rw [RelayState.setPass_accepted, RelayState.offer_accepted] at ha
    rcases List.mem_append.1 ha with ha | ha
    · exact .inl ha
    · split_ifs at ha with ho
      · obtain rfl := List.mem_singleton.1 ha
        refine .inr ⟨(eventMessage m.id m.eventType m.payload).message, ?_, rfl⟩
        simp only [queuesAfterPass, hk, ho, if_true]
        exact mem_enqueue_self route_new
      · cases ha
  | _ => exact .inl ha

theorem accepted_mono {b : RelayLabel} {relay relay' : RelayState}
    (h : (relayMachine batchSize).step relay b = some relay') :
    ∀ a ∈ relay.accepted, a ∈ relay'.accepted := by
  intro a ha
  cases relayMachine_trans h with
  | publish hk =>
    rw [RelayState.setPass_accepted, RelayState.offer_accepted]
    exact List.mem_append_left _ ha
  | _ => exact ha

/-- What a step of the service does to the rows of the outbox and to what the broker accepted. -/
theorem SystemTrans.relayStepOk {a : SystemLabel} (hinv : RelayInv s.relay)
    (h : SystemTrans cmd draw batchSize settings s a s') :
    (∀ x ∈ s.relay.accepted, x ∈ s'.relay.accepted)
      ∧ ∀ r ∈ s'.relay.outbox, r.publishedAt ≠ none → r ∈ s.relay.outbox
        ∨ ∃ k, Accepted.mk k r.id r.eventType r.payload true ∈ s.relay.accepted := by
  have hstep : ∀ b, (relayMachine batchSize).step s.relay b = some s'.relay →
      (∀ x ∈ s.relay.accepted, x ∈ s'.relay.accepted)
        ∧ ∀ r ∈ s'.relay.outbox, r.publishedAt ≠ none → r ∈ s.relay.outbox
          ∨ ∃ k, Accepted.mk k r.id r.eventType r.payload true ∈ s.relay.accepted := by
    refine fun b hb => ⟨accepted_mono hb, fun r hr hp => ?_⟩
    rcases (PaymentService.relayStepOk hinv hb).published r hr hp with hr | ⟨k, -, -, hacc⟩
    · exact .inl hr
    · exact .inr ⟨k, hacc⟩
  rcases h.relay with he | ⟨i, row, -, hb⟩ | ⟨k, act, -, hb⟩
  · rw [he]
    exact ⟨fun _ h => h, fun _ hr _ => .inl hr⟩
  · exact hstep _ hb
  · exact hstep _ hb

/-- A handler that is where it was holds what it held. -/
theorem HandlerOk.mono {d : ℕ} {x : Delivery} (h : HandlerOk s d x)
    (hcalls : CallsStepOk s.process s'.process) : HandlerOk s' d x := by
  unfold HandlerOk at h ⊢
  split
  · rename_i hpc
    rw [hpc] at h
    obtain ⟨c, hc, hid⟩ := h
    obtain ⟨c', hc', he⟩ := hcalls.calls d c hc
    exact ⟨c', hc', he ▸ hid⟩
  · rename_i p hpc
    rw [hpc] at h
    exact h
  · trivial

theorem handlerOk_onFailure {d : ℕ} {m : Message} {unacked : Bool} {attempt : ℤ} {e : PyError} :
    HandlerOk s d ⟨m, unacked, .onFailure (onFailure settings m.payload attempt e)⟩ := by
  unfold HandlerOk onFailure
  simp only
  split_ifs
  · exact ⟨rfl, .inr route_dead⟩
  · exact ⟨rfl, .inl route_retry⟩

theorem handlerOk_afterUseCase {d : ℕ} {x : Delivery} {attempt : ℤ} {closeError : Option PyError}
    {pc : ProcessPc} {pc' : HandlerPc}
    (h : afterUseCase settings x.message attempt closeError pc = some pc') :
    HandlerOk s d { x with pc := pc' } := by
  unfold afterUseCase at h
  split at h
  · split at h <;> cases h
    · trivial
    · exact handlerOk_onFailure
  · cases h
    exact handlerOk_onFailure
  · cases h

/-- The changed handler holds what it should, and the others what they held. -/
theorem handlers_of_setDelivery {d₀ : ℕ} {x₀ : Delivery}
    (h : ∀ d x, s.deliveries d = some x → HandlerOk s d x)
    (hcalls : CallsStepOk s.process s'.process)
    (hdeliveries : s'.deliveries = Function.update s.deliveries d₀ (some x₀))
    (hnew : HandlerOk s' d₀ x₀) : ∀ d x, s'.deliveries d = some x → HandlerOk s' d x := by
  intro d x hx
  rw [hdeliveries] at hx
  by_cases hd : d = d₀
  · subst hd
    rw [Function.update_self, Option.some_inj] at hx
    exact hx ▸ hnew
  · rw [Function.update_of_ne hd] at hx
    exact (h d x hx).mono hcalls

theorem handlers_step {a : SystemLabel} (hinv : NoLossInv s) (hprocess : ProcessInv s.process)
    (h : SystemTrans cmd draw batchSize settings s a s') :
    ∀ d x, s'.deliveries d = some x → HandlerOk s' d x := by
  have hcalls := h.calls hprocess
  cases h with
  | request h => exact fun d x hx => (hinv.handlers d x hx).mono hcalls
  | created hpc h => exact fun d x hx => (hinv.handlers d x hx).mono hcalls
  | pass h => exact fun d x hx => (hinv.handlers d x hx).mono hcalls
  | call hx hpc h => exact fun d x hx => (hinv.handlers d x hx).mono hcalls
  | expire hm => exact fun d x hx => (hinv.handlers d x hx).mono hcalls
  | deliver hd hm => exact handlers_of_setDelivery hinv.handlers hcalls rfl trivial
  | refuse hx hpc hstart => exact handlers_of_setDelivery hinv.handlers hcalls rfl trivial
  | @begin d x id attempt process hx hpc hstart h =>
    refine handlers_of_setDelivery hinv.handlers hcalls rfl ?_
    have hid : paymentIdOf x.message.payload = .ok id := by
      unfold handlerStart at hstart
      split at hstart
      · cases hstart
      · rename_i id' hid
        rcases ha : attemptOf x.message.headers with e | n <;>
          simp only [ha, Except.map, Except.ok.injEq, Prod.mk.injEq] at hstart
        · cases hstart
        · rw [hid, hstart.1]
    cases processStep_trans h with
    | begin hc => exact ⟨⟨id, .get⟩, Function.update_self _ _ _, hid⟩
    | stop hc hrunning hact hstopped => simp at hact
  | useCaseEnds hx hpc hc h =>
    exact handlers_of_setDelivery hinv.handlers hcalls rfl (handlerOk_afterUseCase h)
  | @publish d x p outcome hx hpc =>
    refine handlers_of_setDelivery hinv.handlers hcalls rfl ?_
    cases outcome <;> trivial
  | ack hx hpc hunacked =>
    exact handlers_of_setDelivery hinv.handlers hcalls rfl ((hinv.handlers _ _ hx).mono hcalls)
  | reject hx hpc hunacked =>
    exact handlers_of_setDelivery hinv.handlers hcalls rfl ((hinv.handlers _ _ hx).mono hcalls)
  | crash hx => exact handlers_of_setDelivery hinv.handlers hcalls rfl trivial
  | takeBack hx hunacked =>
    exact handlers_of_setDelivery hinv.handlers hcalls rfl ((hinv.handlers _ _ hx).mono hcalls)

theorem noLoss_step {a : SystemLabel} (hsystem : SystemInv cmd draw s) (hinv : NoLossInv s)
    (h : (system cmd draw batchSize settings).step s a = some s') : NoLossInv s' := by
  have htrans := system_trans hsystem.requests h
  have htracked : ∀ id, Tracked s id → Tracked s' id :=
    fun _ => tracked_step hinv hsystem.process htrans
  have hcalls := htrans.calls hsystem.process
  obtain ⟨hmono, hrows⟩ := htrans.relayStepOk hsystem.relay
  refine ⟨fun a ha id hid => ?_, fun m hm hp => ?_, handlers_step hinv hsystem.process htrans,
    fun d id hd => ?_⟩
  · have hold : a ∈ s.relay.accepted → Tracked s' id := fun ha =>
      htracked id (hinv.accepted a ha id hid)
    cases htrans with
    | @pass k act relay hpass =>
      rcases accepted_pass hpass ha with ha | ⟨m, hm, hpayload⟩
      · exact hold ha
      · exact .queued newQueue (by simp) m hm (hpayload ▸ hid)
    | _ => exact hold ha
  · rcases hrows m hm hp with hm | ⟨k, hk⟩
    · obtain ⟨k, hk⟩ := hinv.published m hm hp
      exact ⟨k, hmono _ hk⟩
    · exact ⟨k, hmono _ hk⟩
  · rcases hcalls.returned d id hd with hd | hn
    · obtain ⟨n, hn, hid⟩ := hinv.returned d id hd
      exact ⟨n, hcalls.accepted n hn, hid⟩
    · exact hn

theorem noLoss_init : NoLossInv .init where
  accepted := by simp [SystemState.init, RelayState.init]
  published := by simp [SystemState.init, RelayState.init]
  handlers := by simp [SystemState.init]
  returned := by simp [SystemState.init, ProcessState.init]

theorem noLoss_run (h : (system cmd draw batchSize settings).Reachable .init s) : NoLossInv s :=
  (h.inv (I := fun s => SystemInv cmd draw s ∧ NoLossInv s)
    (fun _ _ _ hs hstep => ⟨systemInv_step hs.1 hstep, noLoss_step hs.1 hs.2 hstep⟩)
    ⟨systemInv_init, noLoss_init⟩).2

end

/-- In every reachable state each payment's event is still to publish, or a message with its id is
in one of the three queues or with a consumer that has not acknowledged it, or a notification of it
was accepted. -/
theorem no_payment_lost {as : List SystemLabel} {s : SystemState}
    (hrun : (system cmd draw batchSize settings).run .init as = some s) :
    ∀ r ∈ s.process.payments,
      (∃ m ∈ s.relay.outbox, m.eventType = PAYMENT_CREATED ∧ m.aggregateId = r.id
          ∧ m.publishedAt = none)
        ∨ (∃ q ∈ [newQueue, retryQueue, dlqQueue], ∃ m ∈ s.queues q, Names r.id m.payload)
        ∨ (∃ d x, s.deliveries d = some x ∧ x.unacked = true ∧ Names r.id x.message.payload)
        ∨ ∃ n ∈ s.process.accepted, n.paymentId = r.id := by
  intro r hr
  have hinv := noLoss_run ⟨as, hrun⟩
  obtain ⟨m, hm, hannounces⟩ := Pairing.exists_left (tablesOk_run ⟨as, hrun⟩).forall₂ hr
  by_cases hp : m.publishedAt = none
  · exact .inl ⟨m, hm, hannounces.eventType, hannounces.aggregateId, hp⟩
  · obtain ⟨k, hk⟩ := hinv.published m hm hp
    rcases hinv.accepted _ hk r.id hannounces.paymentId with
      ⟨q, hq, m', hm', hid⟩ | ⟨d, x, hx, hunacked, -, hid⟩ | ⟨n, hn, hid⟩
    · exact .inr (.inl ⟨q, hq, m', hm', hid⟩)
    · exact .inr (.inr (.inl ⟨d, x, hx, hunacked, hid⟩))
    · exact .inr (.inr (.inr ⟨n, hn, hid⟩))

/-- A payment whose event was published, whose first handler died in the use case and whose message
went back to `payments.new`. -/
def crashedLabels : List SystemLabel :=
  sampleLabels.take 14 ++ [.handler 0 .crash, .handler 0 .takeBack]

theorem crashedLabels_not_lost : ∃ s, sampleSystem.run .init crashedLabels = some s
    ∧ s.process.payments.map PaymentRow.status = [.pending]
    ∧ ∀ r ∈ s.process.payments,
      (∃ m ∈ s.relay.outbox, m.eventType = PAYMENT_CREATED ∧ m.aggregateId = r.id
          ∧ m.publishedAt = none)
        ∨ (∃ q ∈ [newQueue, retryQueue, dlqQueue], ∃ m ∈ s.queues q, Names r.id m.payload)
        ∨ (∃ d x, s.deliveries d = some x ∧ x.unacked = true ∧ Names r.id x.message.payload)
        ∨ ∃ n ∈ s.process.accepted, n.paymentId = r.id := by
  have h : (sampleSystem.run .init crashedLabels).map
      (fun s => s.process.payments.map PaymentRow.status) = some [.pending] := by
    decide +kernel
  obtain ⟨s, hrun, hstatus⟩ := Option.map_eq_some_iff.1 h
  exact ⟨s, hrun, hstatus, no_payment_lost hrun⟩

end PaymentService
