import PaymentService.Proofs.HandlerRuns
import PaymentService.Proofs.Relay

/-!
# What becomes of an event

An event the broker has accepted is one message in a queue or with a handler that is not done, until
a receiver has accepted its notification. There are more of them only where a publish raised after
the broker had accepted, where a handler was done too late, and where one that was done did not get
to acknowledge its message (`notified_or_copies`). So a payment's notification is accepted once, and
once more for each of these at most.
-/

namespace PaymentService

open Python Labelled Amortized

variable {cmd : ℕ → CreatePaymentCommand} {draw : ℕ → Draw} {batchSize : ℕ → ℕ}
  {settings : RabbitSettings} {id : UUID}

/-! ## Copies of an event -/

def ProcessPc.isReturned : ProcessPc → Bool
  | returned => true
  | _ => false

/-- Whether the handler of a delivery has notified, or published a copy of its message. -/
def Delivery.isDone (x : Delivery) (c : Option ProcessCall) : Bool :=
  match x.pc with
  | .returned => true
  | .inUseCase _ => c.any fun c => c.pc.isReturned
  | .received | .onFailure _ | .raised _ | .dead => false

/-- The message of a delivery, if it is about the payment and its handler is not done. -/
def openCopy (id : UUID) : Option Delivery × Option ProcessCall → ℕ
  | (none, _) => 0
  | (some x, c) => (namesPayment id x.message.payload && x.unacked && !x.isDone c).toNat

/-- The messages of the payment in the queues. -/
def queuedCopies (id : UUID) (queues : Queues) : ℕ :=
  queueSum (fun _ m => (namesPayment id m.payload).toNat) queues

/-- The messages of the payment in the queues, and those of some deliveries. -/
def SystemState.copies (id : UUID) (D : Finset ℕ) (s : SystemState) : ℕ :=
  queuedCopies id s.queues + ∑ d ∈ D, openCopy id (s.deliveries d, s.process.calls d)

/-- The notifications of the payment that a receiver has accepted. -/
def SystemState.notified (id : UUID) (s : SystemState) : ℕ :=
  s.process.accepted.countP fun n => n.paymentId = id

/-! ## Steps that make more of them -/

/-- The retry policy's publish raises although the broker has accepted the copy. -/
def unconfirmedCopy (id : UUID) (x : SystemState × SystemLabel × SystemState) : Bool :=
  match x.2.1 with
  | .handler d (.publish outcome) => outcome.isAccepted && !outcome.isPublished
      && (x.1.deliveries d).any fun y => namesPayment id y.message.payload
  | _ => false

/-- A handler is done when the broker has taken its message back. -/
def doneLate (id : UUID) (x : SystemState × SystemLabel × SystemState) : Bool :=
  match x.2.1 with
  | .handler d (.publish outcome) => outcome.isPublished
      && (x.1.deliveries d).any fun y => namesPayment id y.message.payload && !y.unacked
  | .call d _ => ((x.2.2.process.calls d).any fun c => c.pc.isReturned)
      && (x.1.deliveries d).any fun y => namesPayment id y.message.payload && !y.unacked
  | _ => false

/-- A message is to be handled again although its handler is done: the close of the session raises,
the handler dies, or the broker takes the message back. -/
def undone (id : UUID) (x : SystemState × SystemLabel × SystemState) : Bool :=
  match x.2.1 with
  | .handler d (.useCaseEnds (some _)) | .handler d .crash | .handler d .takeBack =>
    (x.1.deliveries d).any fun y =>
      namesPayment id y.message.payload && y.unacked && y.isDone (x.1.process.calls d)
  | _ => false

/-- What a step adds to the messages and notifications of the payment. -/
def brings (id : UUID) (x : SystemState × SystemLabel × SystemState) : ℕ :=
  (acceptsEvent id x).toNat + (unconfirmedCopy id x).toNat + (doneLate id x).toNat
    + (undone id x).toNat

section

variable {queues : Queues} {q : RabbitQueue}

theorem queuedCopies_enqueue (id : UUID) (queues : Queues) (hq : q ∈ serviceQueues) (m : Message) :
    queuedCopies id (queues.enqueue [q] m) =
      queuedCopies id queues + (namesPayment id m.payload).toNat :=
  queueSum_enqueue hq m

theorem queuedCopies_dequeue (id : UUID) (hq : q ∈ serviceQueues) {n : ℕ} {m : Message}
    (hm : (queues q)[n]? = some m) :
    queuedCopies id (queues.dequeue q n) + (namesPayment id m.payload).toNat =
      queuedCopies id queues :=
  queueSum_dequeue hq hm

/-- The copy of a failed attempt, in whichever queue, is one message more. -/
theorem queuedCopies_onFailure (settings : RabbitSettings) (id : UUID) (queues : Queues)
    (payload : Dict) (attempt : ℤ) (e : PyError) :
    queuedCopies id (queues.publish (onFailure settings payload attempt e)) =
      queuedCopies id queues + (namesPayment id payload).toNat := by
  unfold onFailure
  by_cases hN : settings.maxDeliveryAttempts ≤ attempt
  · rw [if_pos hN, Queues.publish, toDlq, route_dead]
    exact queuedCopies_enqueue id queues dlq_mem_serviceQueues _
  · rw [if_neg hN, Queues.publish, toRetry, route_retry]
    exact queuedCopies_enqueue id queues retry_mem_serviceQueues _

theorem queuedCopies_pass (id : UUID) (s : SystemState) (k : ℕ) (act : PassAct) (s' : SystemState) :
    queuedCopies id (queuesAfterPass s.queues (s.relay.passes k) act) =
      queuedCopies id s.queues + (acceptsEvent id (s, .relay k act, s')).toNat := by
  unfold queuesAfterPass acceptsEvent
  cases act with
  | publish outcome =>
    rcases hpc : s.relay.passes k with _ | ⟨done, _ | ⟨m, todo⟩, n⟩ | _ | _ <;> simp only [hpc]
    any_goals rfl
    rcases ho : outcome.isAccepted with _ | _
    · simp
    · simp only [if_true, Queues.publish, Bool.true_and]
      rw [show route (eventMessage m.id m.eventType m.payload).exchange
        (eventMessage m.id m.eventType m.payload).routingKey = [newQueue] from route_new]
      exact queuedCopies_enqueue id s.queues new_mem_serviceQueues _
  | lock _ | commit | abort => simp

end

/-! ## A call's step -/

theorem isReturned_of_ne {pc : ProcessPc} (h : pc ≠ .returned) : pc.isReturned = false := by
  cases pc with
  | returned => exact absurd rfl h
  | _ => rfl

section

variable {s s' : ProcessState} {k : ℕ} {act : ProcessAct} {c : ProcessCall}

theorem processKill_accepted : ((processStep s k .kill).getD s).accepted = s.accepted := by
  rcases hk : processStep s k .kill with _ | s'
  · rfl
  · cases processStep_trans hk with
    | stop => rfl

theorem not_returned_of_step (hc : s.calls k = some c) (h : processStep s k act = some s') :
    c.pc.isReturned = false := by
  refine isReturned_of_ne fun hpc => ?_
  cases act <;>
    simp [processStep, hc, processNext, processAnswer, processFail, processKill, hpc] at h

/-- A call returns with the step at which a receiver accepts its notification. -/
theorem accepted_step (id : UUID) (hinv : ProcessInv s) (hc : s.calls k = some c)
    (h : processStep s k act = some s') : ∃ c', s'.calls k = some c' ∧
      s'.accepted.countP (fun n => n.paymentId = id) =
        s.accepted.countP (fun n => n.paymentId = id)
          + if c.paymentId = id ∧ c'.pc.isReturned then 1 else 0 := by
  have hmove : ∀ {pc}, pc ≠ ProcessPc.returned → s'.calls k = some ⟨c.paymentId, pc⟩ →
      s'.accepted = s.accepted → ∃ c', s'.calls k = some c' ∧
        s'.accepted.countP (fun n => n.paymentId = id) =
          s.accepted.countP (fun n => n.paymentId = id)
            + if c.paymentId = id ∧ c'.pc.isReturned then 1 else 0 := by
    intro pc hpc hcalls haccepted
    exact ⟨_, hcalls, by simp [haccepted, isReturned_of_ne hpc]⟩
  cases processStep_trans h with
  | begin hc' => simp [hc'] at hc
  | get hc' =>
    obtain rfl := Option.some.inj (hc.symm.trans hc')
    exact hmove (afterGet_ne_returned _ _) (Function.update_self _ _ _) rfl
  | charge hc' | send hc' =>
    obtain rfl := Option.some.inj (hc.symm.trans hc')
    exact hmove (by simp) (Function.update_self _ _ _) rfl
  | answer hc' =>
    obtain rfl := Option.some.inj (hc.symm.trans hc')
    exact hmove (afterCharge_ne_returned _ _ _) (Function.update_self _ _ _) rfl
  | update hc' =>
    obtain rfl := Option.some.inj (hc.symm.trans hc')
    exact hmove (afterUpdateStatus_ne_returned _ _) (Function.update_self _ _ _) (by simp)
  | commit hc' =>
    obtain rfl := Option.some.inj (hc.symm.trans hc')
    exact hmove (afterCommit_ne_returned _ _) (Function.update_self _ _ _) rfl
  | getAgain hc' =>
    obtain rfl := Option.some.inj (hc.symm.trans hc')
    exact hmove (afterGetAgain_ne_returned _ _) (Function.update_self _ _ _) rfl
  | @accept _ paymentId p hc' =>
    obtain rfl := Option.some.inj (hc.symm.trans hc')
    obtain ⟨hid, -⟩ := hinv.calls k _ hc'
    refine ⟨_, Function.update_self _ _ _, ?_⟩
    simp [ProcessPc.isReturned, List.countP_append, List.countP_cons, notificationOf, hid]
  | stop hc' _ _ hstopped =>
    obtain rfl := Option.some.inj (hc.symm.trans hc')
    refine hmove (fun hpc => ?_) (Function.update_self _ _ _) rfl
    rw [hpc] at hstopped
    cases hstopped

end

/-! ## A step of the service -/

section

variable {s s' : SystemState} {D : Finset ℕ}

/-- The call of a handler in the use case is about the payment its message names. -/
theorem call_of_inUseCase (hfrom : Provenance settings s) (htables : TablesOk s)
    (hloss : NoLossInv s) {d : ℕ} {x : Delivery} {attempt : ℤ} (hx : s.deliveries d = some x)
    (hpc : x.pc = .inUseCase attempt) : ∃ c, s.process.calls d = some c
      ∧ ∀ id, c.paymentId = id ↔ namesPayment id x.message.payload = true := by
  have hok := hloss.handlers d x hx
  rw [HandlerOk, hpc] at hok
  obtain ⟨c, hc, hcid⟩ := hok
  obtain ⟨attempt', hm, -⟩ := hfrom.deliveries d x hx
  obtain ⟨o, -, hpayload, r, -, hannounces⟩ := concerns_of_event htables hm.payload
  have hnames : Names r.id x.message.payload := hpayload ▸ hannounces.paymentId
  have hr : c.paymentId = r.id :=
    Except.ok.inj (hcid.symm.trans (paymentIdOf_of_names hnames))
  refine ⟨c, hc, fun id => ⟨fun hid => namesPayment_iff.2 (hid ▸ hr ▸ hnames), fun hid => ?_⟩⟩
  exact Except.ok.inj (hcid.symm.trans (paymentIdOf_of_names (namesPayment_iff.1 hid)))

/-- A step that changes one delivery and its call. -/
theorem copies_at {d n : ℕ} (hd : d ∈ D)
    (hdeliveries : ∀ i, i ≠ d → s'.deliveries i = s.deliveries i)
    (hcalls : ∀ i, i ≠ d → s'.process.calls i = s.process.calls i)
    (h : queuedCopies id s'.queues + openCopy id (s'.deliveries d, s'.process.calls d)
        + s'.notified id =
      queuedCopies id s.queues + openCopy id (s.deliveries d, s.process.calls d)
        + s.notified id + n) :
    s'.copies id D + s'.notified id = s.copies id D + s.notified id + n := by
  have hsum := sum_off (openCopy id) hd fun i hi =>
    show (s'.deliveries i, s'.process.calls i) = (s.deliveries i, s.process.calls i) by
      rw [hdeliveries i hi, hcalls i hi]
  simp only [SystemState.copies]
  omega

/-- A step of a handler that leaves the calls alone. -/
theorem copies_setDelivery {d n : ℕ} (hd : d ∈ D) {x : Option Delivery} (hx : s.deliveries d = x)
    {x' : Delivery} (hdeliveries : s'.deliveries = Function.update s.deliveries d (some x'))
    (hprocess : s'.process = s.process)
    (h : queuedCopies id s'.queues + openCopy id (some x', s.process.calls d) =
      queuedCopies id s.queues + openCopy id (x, s.process.calls d) + n) :
    s'.copies id D + s'.notified id = s.copies id D + s.notified id + n := by
  refine copies_at hd (fun i hi => by rw [hdeliveries, Function.update_of_ne hi])
    (fun i _ => by rw [hprocess]) ?_
  rw [hdeliveries, hprocess, Function.update_self, hx, SystemState.notified, SystemState.notified,
    hprocess]
  omega

/-- A step of a handler that does not change what there is to do. -/
theorem copies_keep {d : ℕ} (hd : d ∈ D) {x x' : Delivery} (hx : s.deliveries d = some x)
    (hdeliveries : s'.deliveries = Function.update s.deliveries d (some x'))
    (hprocess : s'.process = s.process) (hqueues : s'.queues = s.queues)
    (h : openCopy id (some x', s.process.calls d) = openCopy id (some x, s.process.calls d)) :
    s'.copies id D + s'.notified id = s.copies id D + s.notified id + 0 :=
  copies_setDelivery hd hx hdeliveries hprocess (by rw [hqueues, h, Nat.add_zero])

theorem isDone_afterUseCase {x : Delivery} {m : Message} {attempt : ℤ}
    {closeError : Option PyError} {pc : ProcessPc} {pc' : HandlerPc} {c : Option ProcessCall}
    (h : afterUseCase settings m attempt closeError pc = some pc') :
    Delivery.isDone { x with pc := pc' } c = (pc.isReturned && closeError.isNone) := by
  unfold afterUseCase at h
  split at h
  · split at h <;> cases h <;> rfl
  · cases h
    rfl
  · cases h

theorem copies_step {a : SystemLabel} (hinv : SystemInv cmd draw s)
    (hfrom : Provenance settings s) (htables : TablesOk s) (hloss : NoLossInv s)
    (hD : ∀ d, a.delivery = some d → d ∈ D)
    (h : SystemTrans cmd draw batchSize settings s a s') :
    s'.copies id D + s'.notified id = s.copies id D + s.notified id + brings id (s, a, s') := by
  cases h with
  | request | created => rfl
  | @pass k act relay _ =>
    have hqueued := queuedCopies_pass id s k act
      { s with relay := relay, queues := queuesAfterPass s.queues (s.relay.passes k) act }
    simp only [SystemState.copies, SystemState.notified, brings, unconfirmedCopy, doneLate, undone,
      Bool.toNat_false]
    omega
  | @deliver d n m hd hm =>
    have hqueued := queuedCopies_dequeue id new_mem_serviceQueues hm
    refine copies_setDelivery (hD d rfl) hd rfl rfl ?_
    change queuedCopies id (s.queues.dequeue newQueue n)
      + openCopy id (some ⟨m, true, .received⟩, _) = queuedCopies id s.queues + 0 + 0
    simp only [openCopy, Delivery.isDone, Bool.not_false, Bool.and_true]
    omega
  | refuse hx hpc _ =>
    exact copies_keep (hD _ rfl) hx rfl rfl rfl (by simp only [openCopy, Delivery.isDone, hpc])
  | @begin d x paymentId attempt process hx hpc hstart hbegin =>
    cases processStep_trans hbegin with
    | begin _ =>
      refine copies_at (hD d rfl) (fun i hi => Function.update_of_ne hi _ _)
        (fun i hi => Function.update_of_ne hi _ _) ?_
      simp only [SystemState.setDelivery, ProcessState.setCall_calls, Function.update_self, hx,
        openCopy, Delivery.isDone, hpc, Option.any_some, ProcessPc.isReturned]
      rfl
    | stop _ _ hstop => rcases hstop with hstop | ⟨e, hstop⟩ <;> cases hstop
  | @useCaseEnds d x attempt c closeError pc hx hpc hc hafter =>
    refine copies_setDelivery (hD d rfl) hx rfl rfl ?_
    have hbefore : x.isDone (s.process.calls d) = c.pc.isReturned := by
      simp only [Delivery.isDone, hpc, hc, Option.any_some]
    simp only [openCopy, isDone_afterUseCase hafter, hbefore, SystemState.setDelivery]
    cases closeError with
    | none => simp [brings, acceptsEvent, unconfirmedCopy, doneLate, undone]
    | some e =>
      simp only [brings, acceptsEvent, unconfirmedCopy, doneLate, undone, hx, hbefore,
        Option.any_some]
      rcases namesPayment id x.message.payload <;> rcases x.unacked <;>
        rcases c.pc.isReturned <;> rfl
  | @publish d x p outcome hx hpc =>
    obtain ⟨attempt, hattempt, hpcFrom⟩ := hfrom.deliveries _ _ hx
    rw [hpc] at hpcFrom
    obtain ⟨e, rfl⟩ := hpcFrom
    have hqueued := queuedCopies_onFailure settings id s.queues x.message.payload attempt e
    refine copies_setDelivery (hD d rfl) hx rfl rfl ?_
    change queuedCopies id (if outcome.isAccepted then _ else _) + _ = _
    simp only [openCopy, Delivery.isDone, hpc, brings, acceptsEvent, unconfirmedCopy, doneLate,
      undone, hx, Option.any_some]
    cases outcome with
    | published now =>
      simp only [PublishOutcome.isAccepted, PublishOutcome.isPublished, afterPublish, if_true,
        hqueued]
      rcases namesPayment id x.message.payload <;> rcases x.unacked <;> rfl
    | unconfirmed error =>
      simp only [PublishOutcome.isAccepted, PublishOutcome.isPublished, afterPublish, if_true,
        hqueued]
      rcases namesPayment id x.message.payload <;> rcases x.unacked <;> rfl
    | refused error => rfl
  | ack hx hpc hunacked =>
    refine copies_keep (hD _ rfl) hx rfl rfl rfl ?_
    simp [openCopy, Delivery.isDone, hpc]
  | @reject d x e hx hpc hunacked =>
    have hqueued := queuedCopies_enqueue id s.queues dlq_mem_serviceQueues
      { x.message with expiration := none }
    refine copies_setDelivery (hD d rfl) hx rfl rfl ?_
    change queuedCopies id (s.queues.enqueue (PaymentService.deadLetter newQueue) _) + _ = _
    rw [deadLetter_new, hqueued]
    simp only [openCopy, Delivery.isDone, hpc, hunacked]
    rcases namesPayment id x.message.payload <;> rfl
  | @crash d x hx =>
    obtain ⟨-, -, hcalls⟩ := processKill_same
    refine copies_at (hD d rfl) (fun i hi => Function.update_of_ne hi _ _) hcalls ?_
    have hdead : ∀ c, Delivery.isDone { x with pc := .dead } c = false := fun _ => rfl
    simp only [SystemState.setDelivery, Function.update_self, SystemState.notified,
      processKill_accepted, openCopy, hdead, hx, brings, acceptsEvent, unconfirmedCopy, doneLate,
      undone, Option.any_some]
    rcases namesPayment id x.message.payload <;> rcases x.unacked <;>
      rcases x.isDone (s.process.calls d) <;> simp
    omega
  | @takeBack d x hx hunacked =>
    have hqueued := queuedCopies_enqueue id s.queues new_mem_serviceQueues x.message
    refine copies_setDelivery (hD d rfl) hx rfl rfl ?_
    change queuedCopies id (s.queues.enqueue [newQueue] _) + _ = _
    rw [hqueued]
    simp only [openCopy, hunacked, brings, acceptsEvent, unconfirmedCopy, doneLate, undone, hx,
      Option.any_some]
    rcases namesPayment id x.message.payload <;> rcases x.isDone (s.process.calls d) <;> rfl
  | @call d act x attempt process hx hpc hstep =>
    obtain ⟨c, hc, hnames⟩ := call_of_inUseCase hfrom htables hloss hx hpc
    obtain ⟨c', hc', haccepted⟩ := accepted_step id hinv.process hc hstep
    have hbefore : x.isDone (s.process.calls d) = false := by
      simp only [Delivery.isDone, hpc, hc, Option.any_some, not_returned_of_step hc hstep]
    have hafter : x.isDone (some c') = c'.pc.isReturned := by
      simp only [Delivery.isDone, hpc, Option.any_some]
    refine copies_at (hD d rfl) (fun _ _ => rfl) (fun i hi => processStep_calls hstep hi) ?_
    simp only [SystemState.notified, haccepted, hnames, hx, openCopy, hbefore, hafter, brings,
      acceptsEvent, unconfirmedCopy, doneLate, undone, hc', Option.any_some]
    rcases namesPayment id x.message.payload <;> rcases x.unacked <;>
      rcases c'.pc.isReturned <;> simp <;> omega
  | @expire n m hm =>
    have htaken := queuedCopies_dequeue id retry_mem_serviceQueues hm
    have hback := queuedCopies_enqueue id (s.queues.dequeue retryQueue n) new_mem_serviceQueues
      { m with expiration := none }
    change queuedCopies id ((s.queues.dequeue retryQueue n).enqueue
      (PaymentService.deadLetter retryQueue) _) + _ + _ = _ + _ + 0
    rw [deadLetter_retry, hback]
    simp only [SystemState.copies, SystemState.notified]
    omega

end

/-! ## Events the broker has accepted -/

section

variable {s s' : SystemState}

theorem single_run (h : (system cmd draw batchSize settings).Reachable .init s) :
    Single s.relay := by
  refine (h.inv (I := fun s => SystemInv cmd draw s ∧ Single s.relay) (fun s a s' hs hstep => ?_)
    ⟨systemInv_init, by simp [Single, SystemState.init, RelayState.init]⟩).2
  refine ⟨systemInv_step hs.1 hstep, ?_⟩
  rcases (system_trans hs.1.requests hstep).relay with he | ⟨i, row, -, hb⟩ | ⟨k, act, -, hb⟩
  · exact he ▸ hs.2
  · exact single_step hs.1.relay hs.2 hb
  · exact single_step hs.1.relay hs.2 hb

/-- What the broker has accepted is the id and the payload of an event. -/
def AcceptedFrom (s : SystemState) : Prop :=
  ∀ a ∈ s.relay.accepted, ∃ o ∈ s.events, a.id = o.id ∧ a.payload = o.payload

theorem acceptedFrom_step {a : SystemLabel} (hinv : SystemInv cmd draw s) (hfrom : AcceptedFrom s)
    (h : SystemTrans cmd draw batchSize settings s a s') : AcceptedFrom s' := by
  have hsub := events_subset hinv h
  have hold : ∀ b ∈ s.relay.accepted, ∃ o ∈ s'.events, b.id = o.id ∧ b.payload = o.payload := by
    intro b hb
    obtain ⟨o, ho, hab⟩ := hfrom b hb
    exact ⟨o, hsub ho, hab⟩
  cases h with
  | @pass k act relay hpass =>
    cases passStep_trans hpass with
    | @publish k done todo m n o hk =>
      intro b hb
      rw [RelayState.setPass_accepted, RelayState.offer_accepted] at hb
      rcases List.mem_append.1 hb with hb | hb
      · exact hold b hb
      · split_ifs at hb
        · obtain rfl := List.mem_singleton.1 hb
          obtain ⟨hm, -⟩ := (hinv.relay.live k done (m :: todo) n hk).waiting m List.mem_cons_self
          exact ⟨m.asNew, hsub (List.mem_map_of_mem hm), rfl, rfl⟩
        · cases hb
    | _ => exact hold
  | _ => exact hold

theorem acceptedFrom_run (h : (system cmd draw batchSize settings).Reachable .init s) :
    AcceptedFrom s :=
  (h.inv (I := fun s => SystemInv cmd draw s ∧ AcceptedFrom s)
    (fun _ _ _ hs hstep => ⟨systemInv_step hs.1 hstep,
      acceptedFrom_step hs.1 hs.2 (system_trans hs.1.requests hstep)⟩)
    ⟨systemInv_init, by simp [AcceptedFrom, SystemState.init, RelayState.init]⟩).2

theorem names_inj {id id' : UUID} {payload : Dict} (h : Names id payload) (h' : Names id' payload) :
    id = id' :=
  Except.ok.inj ((paymentIdOf_of_names h).symm.trans (paymentIdOf_of_names h'))

/-- A payment has one event. -/
theorem event_unique (hinv : SystemInv cmd draw s) (htables : TablesOk s) {o o' : OutboxRow}
    (ho : o ∈ s.relay.outbox) (ho' : o' ∈ s.relay.outbox) (hid : Names id o.payload)
    (hid' : Names id o'.payload) : o' = o := by
  obtain ⟨r, hr, hor⟩ := Pairing.exists_right htables.forall₂ ho
  obtain ⟨r', -, hor'⟩ := Pairing.exists_right htables.forall₂ ho'
  have hkey : ∀ (m : OutboxRow) (r : PaymentRow), Announces m r → m.aggregateId = r.id :=
    fun _ _ h => h.aggregateId
  obtain ⟨o₀, -, -, hunique⟩ :=
    Pairing.existsUnique_left hkey hinv.process.ids htables.forall₂ hr
  have hrr : r'.id = r.id := (names_inj hor'.paymentId hid').trans (names_inj hid hor.paymentId)
  exact (hunique o' ho' (hor'.aggregateId.trans hrr)).trans
    (hunique o ho hor.aggregateId).symm

/-- What the broker has accepted of a payment, it has accepted of its event. -/
theorem accepted_le_acceptances (hinv : SystemInv cmd draw s) (htables : TablesOk s)
    (hfrom : AcceptedFrom s) {o : OutboxRow} (ho : o ∈ s.relay.outbox)
    (hid : Names id o.payload) :
    s.relay.accepted.countP (fun a => namesPayment id a.payload) ≤ s.relay.acceptancesOf o.id := by
  refine List.countP_mono_left fun a ha hnames => ?_
  obtain ⟨o', ho', haid, hpayload⟩ := hfrom a ha
  obtain ⟨o₁, ho₁, rfl⟩ := List.mem_map.1 ho'
  have hid' : Names id o₁.payload := hpayload ▸ namesPayment_iff.1 hnames
  rw [event_unique hinv htables ho ho₁ hid hid'] at haid
  exact decide_eq_true haid

end

/-! ## Over a run -/

section

variable {as : List SystemLabel} {s : SystemState}

theorem copies_run (hrun : (system cmd draw batchSize settings).run .init as = some s) (id : UUID)
    {D : Finset ℕ} (hD : deliveriesOf as ⊆ D) : s.copies id D + s.notified id =
      s.relay.accepted.countP (fun a => namesPayment id a.payload)
        + ((system cmd draw batchSize settings).steps .init as).countP (unconfirmedCopy id)
        + ((system cmd draw batchSize settings).steps .init as).countP (doneLate id)
        + ((system cmd draw batchSize settings).steps .init as).countP (undone id) := by
  have hsum := Machine.accrues (M := system cmd draw batchSize settings)
    (I := fun s => (system cmd draw batchSize settings).Reachable .init s)
    (f := fun s => s.copies id D + s.notified id) (brings id)
    (fun _ _ _ hs hstep => hs.step hstep) (fun x hx hreach hstep => ?_) ⟨[], rfl⟩ hrun
  · have hzero : SystemState.copies id D .init + SystemState.notified id .init = 0 := by
      simp [SystemState.copies, SystemState.notified, SystemState.init, ProcessState.init,
        queuedCopies, queueSum, Queues.empty, openCopy]
    unfold brings at hsum
    rw [hzero, List.sum_map_add, List.sum_map_add, List.sum_map_add, sum_map_toNat, sum_map_toNat,
      sum_map_toNat, sum_map_toNat, ← accepted_countP hrun, Nat.zero_add] at hsum
    exact hsum
  · have hinv := systemInv_run hreach
    exact copies_step hinv (provenance_run hreach) (tablesOk_run hreach) (noLoss_run hreach)
      (fun d hd => hD (mem_deliveriesOf hx hd)) (system_trans hinv.requests hstep)

/-- The broker accepts the events of a payment once, and once more for each aborted pass it had
accepted its event from and each publish that raised although it had. -/
theorem accepted_le (hreach : (system cmd draw batchSize settings).Reachable .init s)
    {o : OutboxRow} (ho : o ∈ s.relay.outbox) (hid : Names id o.payload) :
    s.relay.accepted.countP (fun a => namesPayment id a.payload) ≤
      1 + (s.relay.abortedPassesOf o.id).length + s.relay.unconfirmedOf o.id := by
  have hinv := systemInv_run hreach
  calc s.relay.accepted.countP (fun a => namesPayment id a.payload)
      ≤ s.relay.acceptancesOf o.id :=
        accepted_le_acceptances hinv (tablesOk_run hreach) (acceptedFrom_run hreach) ho hid
    _ ≤ _ := acceptancesOf_le hinv.relay (single_run hreach) o.id

end

/-- In every run the messages of a payment that are still to be handled and its notifications that
receivers have accepted are, together, as many as the events of it that the broker has accepted, and
one more for each copy accepted whose publish raised, for each handler that was done when its
message had been taken back, and for each one that was done and whose message is to be handled
again. So its notification is accepted at most once, and once more for each of these and for each
aborted pass and unconfirmed publish of the relay. -/
theorem notified_or_copies {as : List SystemLabel} {s : SystemState}
    (hrun : (system cmd draw batchSize settings).run .init as = some s) (id : UUID) :
    (∀ D, deliveriesOf as ⊆ D → s.copies id D + s.notified id =
        s.relay.accepted.countP (fun a => namesPayment id a.payload)
          + ((system cmd draw batchSize settings).steps .init as).countP (unconfirmedCopy id)
          + ((system cmd draw batchSize settings).steps .init as).countP (doneLate id)
          + ((system cmd draw batchSize settings).steps .init as).countP (undone id))
      ∧ ∀ o ∈ s.relay.outbox, Names id o.payload → s.notified id ≤
        1 + (s.relay.abortedPassesOf o.id).length + s.relay.unconfirmedOf o.id
          + ((system cmd draw batchSize settings).steps .init as).countP (unconfirmedCopy id)
          + ((system cmd draw batchSize settings).steps .init as).countP (doneLate id)
          + ((system cmd draw batchSize settings).steps .init as).countP (undone id) := by
  refine ⟨fun D hD => copies_run hrun id hD, fun o ho hid => ?_⟩
  have hsum := copies_run hrun id (Finset.Subset.refl _)
  have hevents := accepted_le ⟨as, hrun⟩ ho hid
  omega

/-- A payment that is notified a second time, as the close of the first session raised. -/
def closedLabels : List SystemLabel :=
  sampleLabels.take 18 ++ [.handler 0 (.useCaseEnds (some (.other "TimeoutError" "timed out"))),
    .handler 0 (.publish (.published 3)), .handler 0 .settle, .expire 0, .deliver 1 0,
    .handler 1 .start, .call 1 .next, .call 1 .next, .call 1 .next]

theorem closedLabels_notified_twice : ∃ s, sampleSystem.run .init closedLabels = some s
    ∧ s.notified 1 = 2 ∧ s.copies 1 {0, 1} + s.notified 1 =
      s.relay.accepted.countP (fun a => namesPayment 1 a.payload)
        + (sampleSystem.steps .init closedLabels).countP (unconfirmedCopy 1)
        + (sampleSystem.steps .init closedLabels).countP (doneLate 1)
        + (sampleSystem.steps .init closedLabels).countP (undone 1) := by
  have h : (sampleSystem.run .init closedLabels).map (fun s => s.notified 1) = some 2 := by
    decide +kernel
  obtain ⟨s, hrun, hnotified⟩ := Option.map_eq_some_iff.1 h
  exact ⟨s, hrun, hnotified, (notified_or_copies hrun 1).1 _ (by decide)⟩

end PaymentService
