import PaymentService.Proofs.Charge
import PaymentService.Proofs.Provenance
import PaymentService.Proofs.QueueSums

/-!
# How often a payment is handled

A message of a payment still has the deliveries its attempts allow, and a handler that may yet
publish has one less than its message. So a delivery is paid by the message it takes, the copy of a
failed attempt by its handler, and only what the relay publishes and what the broker takes back
bring more: the deliveries of a payment are at most the bound on attempts for each of these
(`handler_runs_bounded`). A delivery that waits for its start pays for the entry into the use case,
and the entry for what its call does once.
-/

namespace PaymentService

open Python Labelled Amortized

variable {cmd : ℕ → CreatePaymentCommand} {draw : ℕ → Draw} {batchSize : ℕ → ℕ}
  {settings : RabbitSettings} {id : UUID}

/-! ## Steps of a payment -/

def namesPayment (id : UUID) (payload : Dict) : Bool :=
  match payload.lookup "payment_id" with
  | some (.str text) => text = id.str
  | _ => false

/-- A message of the payment is given to a consumer. -/
def delivers (id : UUID) (x : SystemState × SystemLabel × SystemState) : Bool :=
  match x.2.1 with
  | .deliver _ n => ((x.1.queues newQueue)[n]?).any fun m => namesPayment id m.payload
  | _ => false

/-- The handler of a message goes into the use case for the payment. -/
def startsOn (id : UUID) (m : Message) : Bool :=
  match handlerStart m with
  | .ok (paymentId, _) => paymentId = id
  | .error _ => false

/-- A handler enters the use case for the payment. -/
def enters (id : UUID) (x : SystemState × SystemLabel × SystemState) : Bool :=
  match x.2.1 with
  | .handler d .start => (x.1.deliveries d).any fun y => startsOn id y.message
  | _ => false

/-- A message of the payment is taken back from a consumer. -/
def takesBack (id : UUID) (x : SystemState × SystemLabel × SystemState) : Bool :=
  match x.2.1 with
  | .handler d .takeBack => (x.1.deliveries d).any fun y => namesPayment id y.message.payload
  | _ => false

/-- The broker accepts an event of the payment from a pass. -/
def acceptsEvent (id : UUID) (x : SystemState × SystemLabel × SystemState) : Bool :=
  match x.2.1 with
  | .relay k (.publish outcome) =>
    match x.1.relay.passes k with
    | .publishing _ (m :: _) _ => outcome.isAccepted && namesPayment id m.payload
    | _ => false
  | _ => false

/-- The delivery a step is about. -/
def SystemLabel.delivery : SystemLabel → Option ℕ
  | deliver d _ | handler d _ | call d _ => some d
  | create _ _ | relay _ _ | expire _ => none

/-- The most attempts a message gets. -/
def RabbitSettings.attempts (settings : RabbitSettings) : ℕ :=
  (max 1 settings.maxDeliveryAttempts).toNat

theorem namesPayment_iff {payload : Dict} : namesPayment id payload = true ↔ Names id payload := by
  unfold namesPayment Names
  split
  · rename_i text h
    rw [h, Option.some_inj, Json.str.injEq, decide_eq_true_eq]
  · rename_i h
    exact ⟨fun hf => absurd hf Bool.false_ne_true, fun hn => absurd hn (h _)⟩

/-! ## What a message has left -/

/-- The deliveries a message of the payment still has. -/
def turnsLeft (settings : RabbitSettings) (id : UUID) (m : Message) : ℕ :=
  if namesPayment id m.payload then
    match attemptOf m.headers with
    | .ok attempt => (settings.attempts - attempt + 1).toNat
    | .error _ => 0
  else 0

def HandlerPc.mayPublish : HandlerPc → Bool
  | received | inUseCase _ | onFailure _ => true
  | returned | raised _ | dead => false

/-- The deliveries a handler may still lead to. -/
def turnsAhead (settings : RabbitSettings) (id : UUID) : Option Delivery → ℕ
  | none => 0
  | some x => if x.pc.mayPublish then turnsLeft settings id x.message - 1 else 0

/-- The deliveries the messages in the queues still have; a dead letter has none. -/
def queuedTurns (settings : RabbitSettings) (id : UUID) (queues : Queues) : ℕ :=
  queueSum (fun q m => if q = dlqQueue then 0 else turnsLeft settings id m) queues

section

variable {events : List OutboxRow} {m : Message} {attempt : ℤ} {queues : Queues}

theorem IsAttempt.turnsLeft (h : IsAttempt settings events attempt m) :
    turnsLeft settings id m =
      if namesPayment id m.payload then (settings.attempts - attempt + 1).toNat else 0 := by
  rw [PaymentService.turnsLeft, h.attemptOf]

theorem IsAttempt.turnsLeft_pos (h : IsAttempt settings events attempt m)
    (hid : namesPayment id m.payload = true) : 0 < PaymentService.turnsLeft settings id m := by
  obtain ⟨h1, hmax⟩ := h.bounds
  rw [h.turnsLeft, if_pos hid, RabbitSettings.attempts]
  omega

theorem IsAttempt.turnsLeft_le (h : IsAttempt settings events attempt m) (id : UUID) :
    PaymentService.turnsLeft settings id m ≤
      if namesPayment id m.payload then settings.attempts else 0 := by
  obtain ⟨h1, -⟩ := h.bounds
  rw [h.turnsLeft]
  split_ifs <;> omega

theorem queuedTurns_enqueue_new : queuedTurns settings id (queues.enqueue [newQueue] m) =
    queuedTurns settings id queues + turnsLeft settings id m :=
  queueSum_enqueue new_mem_serviceQueues m

theorem queuedTurns_enqueue_retry : queuedTurns settings id (queues.enqueue [retryQueue] m) =
    queuedTurns settings id queues + turnsLeft settings id m :=
  queueSum_enqueue retry_mem_serviceQueues m

theorem queuedTurns_enqueue_dlq : queuedTurns settings id (queues.enqueue [dlqQueue] m) =
    queuedTurns settings id queues :=
  queueSum_enqueue dlq_mem_serviceQueues m

theorem queuedTurns_dequeue (settings : RabbitSettings) (id : UUID) {q : RabbitQueue}
    (hq : q = newQueue ∨ q = retryQueue) {n : ℕ} (hm : (queues q)[n]? = some m) :
    queuedTurns settings id (queues.dequeue q n) + turnsLeft settings id m =
      queuedTurns settings id queues := by
  rcases hq with rfl | rfl
  · exact queueSum_dequeue new_mem_serviceQueues hm
  · exact queueSum_dequeue retry_mem_serviceQueues hm

/-- The copy of a failed attempt has one delivery less than the message. -/
theorem IsAttempt.queuedTurns_onFailure (h : IsAttempt settings events attempt m) (id : UUID)
    (queues : Queues) (e : PyError) :
    queuedTurns settings id (queues.publish (PaymentService.onFailure settings m.payload attempt e))
      ≤ queuedTurns settings id queues + (PaymentService.turnsLeft settings id m - 1) := by
  obtain ⟨h1, -⟩ := h.bounds
  unfold PaymentService.onFailure
  split_ifs with hN
  · rw [Queues.publish, toDlq, route_dead, queuedTurns_enqueue_dlq]
    omega
  · rw [Queues.publish, toRetry, route_retry, queuedTurns_enqueue_retry, h.turnsLeft,
      PaymentService.turnsLeft]
    simp only [attemptOf_failureHeaders (show 1 ≤ attempt + 1 by omega)]
    split_ifs <;> omega

end

/-! ## The potential -/

/-- The deliveries the messages and the handlers of some deliveries may still lead to. -/
def SystemState.turns (settings : RabbitSettings) (id : UUID) (D : Finset ℕ) (s : SystemState) :
    ℕ :=
  queuedTurns settings id s.queues + ∑ d ∈ D, turnsAhead settings id (s.deliveries d)

section

variable {s s' : SystemState} {D : Finset ℕ}

/-- A step that changes one delivery, and brings at most `c`. -/
theorem turns_setDelivery {d c : ℕ} (hd : d ∈ D) {x : Option Delivery} (hx : s.deliveries d = x)
    {x' : Delivery} (hdeliveries : s'.deliveries = Function.update s.deliveries d (some x'))
    (hturns : queuedTurns settings id s'.queues + turnsAhead settings id (some x') ≤
      c + queuedTurns settings id s.queues + turnsAhead settings id x) :
    s'.turns settings id D ≤ c + s.turns settings id D := by
  have hsum := sum_update (turnsAhead settings id) s.deliveries hd (some x')
  rw [hx] at hsum
  rw [SystemState.turns, SystemState.turns, hdeliveries]
  omega

theorem turnsAhead_le {x : Delivery} {unacked : Bool} {pc : HandlerPc}
    (h : pc.mayPublish = true → x.pc.mayPublish = true) :
    turnsAhead settings id (some { x with
      unacked := unacked
      pc := pc }) ≤ turnsAhead settings id (some x) := by
  by_cases hpc : pc.mayPublish = true
  · simp only [turnsAhead, hpc, h hpc]
    exact le_refl _
  · simp only [turnsAhead, hpc]
    exact Nat.zero_le _

/-- A handler's own step, after which it is no nearer to a publish. -/
theorem turns_move {d : ℕ} (hd : d ∈ D) {x : Delivery} (hx : s.deliveries d = some x)
    {unacked : Bool} {pc : HandlerPc}
    (hdeliveries : s'.deliveries = Function.update s.deliveries d (some { x with
      unacked := unacked
      pc := pc }))
    (hqueues : queuedTurns settings id s'.queues = queuedTurns settings id s.queues)
    (h : pc.mayPublish = true → x.pc.mayPublish = true) :
    s'.turns settings id D ≤ 0 + s.turns settings id D := by
  refine turns_setDelivery hd hx hdeliveries ?_
  rw [hqueues, Nat.zero_add]
  exact Nat.add_le_add_left (turnsAhead_le h) _

theorem queuedTurns_pass (settings : RabbitSettings) (id : UUID) (s : SystemState) (k : ℕ)
    (act : PassAct) (s' : SystemState) :
    queuedTurns settings id (queuesAfterPass s.queues (s.relay.passes k) act) ≤
      (if acceptsEvent id (s, .relay k act, s') then settings.attempts else 0)
        + queuedTurns settings id s.queues := by
  unfold queuesAfterPass acceptsEvent
  split
  · rename_i done m todo n outcome hpc
    simp only [hpc]
    rcases ho : outcome.isAccepted with _ | _
    · simp
    · have hfirst : IsAttempt settings [m] 1 (eventMessage m.id m.eventType m.payload).message :=
        .first List.mem_cons_self
      have hevent := hfirst.turnsLeft_le id
      change turnsLeft settings id _ ≤ if namesPayment id m.payload then _ else _ at hevent
      simp only [if_true, Queues.publish, Bool.true_and]
      rw [show route (eventMessage m.id m.eventType m.payload).exchange
        (eventMessage m.id m.eventType m.payload).routingKey = [newQueue] from route_new,
        queuedTurns_enqueue_new]
      omega
  · exact Nat.le_add_left _ _

/-- A delivery takes one of the deliveries its message has left. -/
theorem turns_deliver (id : UUID) (hfrom : Provenance settings s) {d n : ℕ} (hdD : d ∈ D)
    {m : Message} (hd : s.deliveries d = none) (hm : (s.queues newQueue)[n]? = some m) :
    (if namesPayment id m.payload then 1 else 0)
        + SystemState.turns settings id D
          ({ s with queues := s.queues.dequeue newQueue n }.setDelivery d ⟨m, true, .received⟩) ≤
      s.turns settings id D := by
  obtain ⟨attempt, hattempt⟩ := (hfrom.queues _ m (List.mem_of_getElem? hm)).of_new rfl
  have hsum := sum_update (turnsAhead settings id) s.deliveries hdD (some ⟨m, true, .received⟩)
  have hqueued := queuedTurns_dequeue settings id (.inl rfl) hm
  have hahead : turnsAhead settings id (some ⟨m, true, .received⟩) =
      turnsLeft settings id m - 1 := rfl
  rw [hd, hahead] at hsum
  have hnone : turnsAhead settings id none = 0 := rfl
  change _ + (queuedTurns settings id (s.queues.dequeue newQueue n)
    + ∑ i ∈ D, turnsAhead settings id (Function.update s.deliveries d _ i)) ≤ _
  rw [SystemState.turns]
  split_ifs with hid
  · have hpos := hattempt.turnsLeft_pos hid
    omega
  · have hzero : turnsLeft settings id m = 0 := if_neg hid
    omega

/-- Only a publish of the relay and a message taken back bring deliveries. -/
theorem turns_step {a : SystemLabel} (hfrom : Provenance settings s)
    (hD : ∀ d, a.delivery = some d → d ∈ D)
    (h : SystemTrans cmd draw batchSize settings s a s') :
    (if delivers id (s, a, s') then 1 else 0) + s'.turns settings id D ≤
      (if acceptsEvent id (s, a, s') then settings.attempts else 0)
        + (if takesBack id (s, a, s') then settings.attempts else 0) + s.turns settings id D := by
  -- the handlers' own steps bring nothing
  have hown : s'.turns settings id D ≤ 0 + s.turns settings id D →
      delivers id (s, a, s') = false →
      (if delivers id (s, a, s') then 1 else 0) + s'.turns settings id D ≤
        (if acceptsEvent id (s, a, s') then settings.attempts else 0)
          + (if takesBack id (s, a, s') then settings.attempts else 0)
          + s.turns settings id D := by
    intro hle hno
    simp only [hno, Bool.false_eq_true, if_false]
    omega
  cases h with
  | request | created | call => exact hown (Nat.le_add_left _ _) rfl
  | @pass k act relay _ =>
    have hqueued := queuedTurns_pass settings id s k act
      { s with relay := relay, queues := queuesAfterPass s.queues (s.relay.passes k) act }
    simp only [SystemState.turns, delivers, takesBack, Bool.false_eq_true, if_false]
    omega
  | @deliver d n m hd hm =>
    have hdeliver := turns_deliver id hfrom (hD d rfl) hd hm
    simp only [delivers, acceptsEvent, takesBack, hm, Option.any_some, Bool.false_eq_true,
      if_false, zero_add]
    exact hdeliver
  | refuse hx hpc _ => exact hown (turns_move (hD _ rfl) hx rfl rfl fun _ => hpc ▸ rfl) rfl
  | begin hx hpc _ _ => exact hown (turns_move (hD _ rfl) hx rfl rfl fun _ => hpc ▸ rfl) rfl
  | useCaseEnds hx hpc _ _ => exact hown (turns_move (hD _ rfl) hx rfl rfl fun _ => hpc ▸ rfl) rfl
  | @publish d x p outcome hx hpc =>
    obtain ⟨attempt, hattempt, hpcFrom⟩ := hfrom.deliveries _ _ hx
    rw [hpc] at hpcFrom
    obtain ⟨e, rfl⟩ := hpcFrom
    have hqueued := hattempt.queuedTurns_onFailure id s.queues e
    have hbefore : turnsAhead settings id (some x) = turnsLeft settings id x.message - 1 := by
      simp only [turnsAhead, hpc, HandlerPc.mayPublish, if_true]
    have hafter : turnsAhead settings id (some { x with pc := afterPublish outcome }) = 0 := by
      cases outcome <;> rfl
    refine hown (turns_setDelivery (hD _ rfl) hx rfl ?_) rfl
    rw [hbefore, hafter]
    change queuedTurns settings id (if outcome.isAccepted then _ else _) + 0 ≤ _
    split_ifs <;> omega
  | ack hx _ _ => exact hown (turns_move (hD _ rfl) hx rfl rfl fun h => h) rfl
  | reject hx _ _ =>
    refine hown (turns_move (hD _ rfl) hx rfl ?_ fun h => h) rfl
    change queuedTurns settings id (s.queues.enqueue (PaymentService.deadLetter newQueue) _) = _
    rw [deadLetter_new, queuedTurns_enqueue_dlq]
  | crash hx => exact hown (turns_move (hD _ rfl) hx rfl rfl fun h => by cases h) rfl
  | @takeBack d x hx hunacked =>
    obtain ⟨attempt, hattempt, -⟩ := hfrom.deliveries _ _ hx
    have hle := hattempt.turnsLeft_le id
    have hstep : SystemState.turns settings id D
        ({ s with queues := s.queues.enqueue [newQueue] x.message }.setDelivery d
          { x with unacked := false }) ≤ turnsLeft settings id x.message
            + s.turns settings id D := by
      refine turns_setDelivery (hD d rfl) hx rfl ?_
      change queuedTurns settings id (s.queues.enqueue [newQueue] x.message) + _ ≤ _
      rw [queuedTurns_enqueue_new, Nat.add_comm (turnsLeft _ _ _)]
      exact Nat.add_le_add_left (turnsAhead_le fun h => h) _
    simp only [delivers, acceptsEvent, takesBack, hx, Option.any_some, Bool.false_eq_true, if_false]
    omega
  | @expire n m hm =>
    refine hown ?_ rfl
    obtain ⟨attempt, hattempt⟩ := (hfrom.queues _ m (List.mem_of_getElem? hm)).of_retry rfl
    have hqueued := queuedTurns_dequeue settings id (.inr rfl) hm
    have hsame : turnsLeft settings id { m with expiration := none } = turnsLeft settings id m :=
      rfl
    change queuedTurns settings id ((s.queues.dequeue retryQueue n).enqueue
      (PaymentService.deadLetter retryQueue) _) + ∑ d ∈ D, turnsAhead settings id (s.deliveries d)
        ≤ 0 + s.turns settings id D
    rw [deadLetter_retry, queuedTurns_enqueue_new, hsame, hqueued, SystemState.turns]
    omega

end

/-! ## At most once in a call -/

/-- What a count says of the calls of a payment: one that stands where it may still do a thing has
not done it. -/
structure OncePerCall (id : UUID) (mayDo : ProcessPc → Bool) (count : ProcessState → ℕ) : Prop where
  call : ∀ {s s' : ProcessState} {k : ℕ} {act : ProcessAct} {c : ProcessCall}, ProcessInv s →
    s.calls k = some c → processStep s k act = some s' → ∃ c', s'.calls k = some c' ∧
      count s' + (if c.paymentId = id ∧ mayDo c'.pc then 1 else 0) ≤
        count s + if c.paymentId = id ∧ mayDo c.pc then 1 else 0
  same : ∀ {s s' : ProcessState}, s'.charges = s.charges → s'.sent = s.sent → count s' = count s

/-- The notifications of a payment passed to the sender. -/
def ProcessState.sentOf (s : ProcessState) (id : UUID) : ℕ :=
  s.sent.countP fun n => n.paymentId = id

def ProcessPc.mayCharge : ProcessPc → Bool
  | get | charge _ => true
  | _ => false

def ProcessPc.maySend : ProcessPc → Bool
  | sending _ | returned | raised _ _ | killed _ => false
  | _ => true

section

variable {s s' : ProcessState} {k : ℕ} {act : ProcessAct}

/-- A step that counts nothing, from where a call could still do the thing or to where it cannot. -/
theorem once_of_move {id : UUID} {mayDo : ProcessPc → Bool} {n n' : ℕ} {paymentId : UUID}
    {pc pc' : ProcessPc} (hcount : n' = n) (h : mayDo pc = true ∨ mayDo pc' = false) :
    n' + (if paymentId = id ∧ mayDo pc' then 1 else 0) ≤
      n + if paymentId = id ∧ mayDo pc then 1 else 0 := by
  by_cases hid : paymentId = id
  · rcases h with h | h <;> simp only [hid, h, hcount, true_and, if_true, Bool.false_eq_true]
    · split_ifs <;> omega
    · simp
  · simp [hid, hcount]

theorem mayCharge_stopped {pc stopped : ProcessPc} (h : stopped.stoppedAt = some pc) :
    stopped.mayCharge = false ∧ stopped.maySend = false := by
  cases stopped with
  | raised _ _ | killed _ => exact ⟨rfl, rfl⟩
  | _ => cases h

theorem onceCharged (id : UUID) :
    OncePerCall id ProcessPc.mayCharge fun s => s.chargesOf id where
  call := by
    intro s s' k act c hinv hc h
    cases processStep_trans h with
    | begin hc' => simp [hc'] at hc
    | get hc' =>
      obtain rfl := Option.some.inj (hc.symm.trans hc')
      exact ⟨_, Function.update_self _ _ _, once_of_move rfl (.inl rfl)⟩
    | @charge _ paymentId p hc' =>
      obtain rfl := Option.some.inj (hc.symm.trans hc')
      obtain ⟨hid, -⟩ := hinv.calls k _ hc'
      refine ⟨_, Function.update_self _ _ _, ?_⟩
      rw [chargesOf_charge, hid]
      simp [ProcessPc.mayCharge]
    | answer hc' =>
      obtain rfl := Option.some.inj (hc.symm.trans hc')
      refine ⟨_, Function.update_self _ _ _, once_of_move rfl (.inr ?_)⟩
      unfold afterCharge
      split <;> rfl
    | update hc' =>
      obtain rfl := Option.some.inj (hc.symm.trans hc')
      refine ⟨_, Function.update_self _ _ _, once_of_move ?_ (.inr ?_)⟩
      · simp [ProcessState.chargesOf]
      · unfold afterUpdateStatus
        split <;> rfl
    | @commit _ paymentId p applied hc' =>
      obtain rfl := Option.some.inj (hc.symm.trans hc')
      exact ⟨_, Function.update_self _ _ _, once_of_move rfl (.inr (by cases applied <;> rfl))⟩
    | getAgain hc' =>
      obtain rfl := Option.some.inj (hc.symm.trans hc')
      refine ⟨_, Function.update_self _ _ _, once_of_move rfl (.inr ?_)⟩
      unfold afterGetAgain
      split <;> rfl
    | send hc' | accept hc' =>
      obtain rfl := Option.some.inj (hc.symm.trans hc')
      exact ⟨_, Function.update_self _ _ _, once_of_move rfl (.inr rfl)⟩
    | stop hc' _ _ hstopped =>
      obtain rfl := Option.some.inj (hc.symm.trans hc')
      exact ⟨_, Function.update_self _ _ _, once_of_move rfl (.inr (mayCharge_stopped hstopped).1)⟩
  same := fun hcharges _ => by simp only [ProcessState.chargesOf, hcharges]

theorem onceSent (id : UUID) : OncePerCall id ProcessPc.maySend fun s => s.sentOf id where
  call := by
    intro s s' k act c hinv hc h
    cases processStep_trans h with
    | begin hc' => simp [hc'] at hc
    | get hc' | charge hc' | answer hc' | commit hc' | getAgain hc' =>
      obtain rfl := Option.some.inj (hc.symm.trans hc')
      exact ⟨_, Function.update_self _ _ _, once_of_move rfl (.inl rfl)⟩
    | update hc' =>
      obtain rfl := Option.some.inj (hc.symm.trans hc')
      exact ⟨_, Function.update_self _ _ _, once_of_move (by simp [ProcessState.sentOf]) (.inl rfl)⟩
    | @send _ paymentId p hc' =>
      obtain rfl := Option.some.inj (hc.symm.trans hc')
      obtain ⟨hid, -⟩ := hinv.calls k _ hc'
      refine ⟨_, Function.update_self _ _ _, ?_⟩
      simp [ProcessState.sentOf, ProcessPc.maySend, List.countP_append, notificationOf, hid,
        List.countP_cons]
    | accept hc' =>
      obtain rfl := Option.some.inj (hc.symm.trans hc')
      exact ⟨_, Function.update_self _ _ _, once_of_move rfl (.inr rfl)⟩
    | stop hc' _ _ hstopped =>
      obtain rfl := Option.some.inj (hc.symm.trans hc')
      exact ⟨_, Function.update_self _ _ _, once_of_move rfl (.inr (mayCharge_stopped hstopped).2)⟩
  same := fun _ hsent => by simp only [ProcessState.sentOf, hsent]

end

section

variable {s s' : SystemState} {D : Finset ℕ} {mayDo : ProcessPc → Bool} {count : ProcessState → ℕ}

/-- Whether a handler in the use case may still lead to the thing that is counted. -/
def mayLead (id : UUID) (mayDo : ProcessPc → Bool) (x : Option Delivery × Option ProcessCall) : ℕ :=
  match x.1.map Delivery.pc, x.2 with
  | some (.inUseCase _), some c => if c.paymentId = id ∧ mayDo c.pc then 1 else 0
  | _, _ => 0

def HandlerPc.isOver : HandlerPc → Bool
  | received | inUseCase _ => false
  | onFailure _ | returned | raised _ | dead => true

theorem mayLead_of_isOver {x : Delivery} (h : x.pc.isOver = true) (c : Option ProcessCall) :
    mayLead id mayDo (some x, c) = 0 := by
  obtain ⟨m, unacked, pc⟩ := x
  cases pc with
  | received | inUseCase _ => cases h
  | _ => rfl

theorem isOver_of_afterUseCase {m : Message} {attempt : ℤ} {closeError : Option PyError}
    {pc : ProcessPc} {pc' : HandlerPc}
    (h : afterUseCase settings m attempt closeError pc = some pc') : pc'.isOver = true := by
  unfold afterUseCase at h
  split at h
  · split at h <;> cases h <;> rfl
  · cases h
    rfl
  · cases h

/-- What was counted, and what some deliveries may still add to it. -/
def account (id : UUID) (mayDo : ProcessPc → Bool) (count : ProcessState → ℕ) (D : Finset ℕ)
    (s : SystemState) : ℕ :=
  count s.process + ∑ d ∈ D, mayLead id mayDo (s.deliveries d, s.process.calls d)

theorem processKill_same {s : ProcessState} {k : ℕ} :
    ((processStep s k .kill).getD s).charges = s.charges
      ∧ ((processStep s k .kill).getD s).sent = s.sent
      ∧ ∀ j, j ≠ k → ((processStep s k .kill).getD s).calls j = s.calls j := by
  rcases hk : processStep s k .kill with _ | s'
  · exact ⟨rfl, rfl, fun _ _ => rfl⟩
  · refine ⟨?_, ?_, fun j hj => processStep_calls hk hj⟩ <;> cases processStep_trans hk <;> rfl

/-- A step that changes one delivery and its call. -/
theorem account_le {d c : ℕ} (hd : d ∈ D)
    (hdeliveries : ∀ i, i ≠ d → s'.deliveries i = s.deliveries i)
    (hcalls : ∀ i, i ≠ d → s'.process.calls i = s.process.calls i)
    (h : count s'.process + mayLead id mayDo (s'.deliveries d, s'.process.calls d) ≤
      c + count s.process + mayLead id mayDo (s.deliveries d, s.process.calls d)) :
    account id mayDo count D s' ≤ c + account id mayDo count D s := by
  have hsum := sum_off (mayLead id mayDo) hd fun i hi =>
    show (s'.deliveries i, s'.process.calls i) = (s.deliveries i, s.process.calls i) by
      rw [hdeliveries i hi, hcalls i hi]
  simp only [account]
  omega

/-- A step of a handler after which its delivery leads to nothing it did not lead to before. -/
theorem account_move {d : ℕ} (hd : d ∈ D) {x x' : Delivery} (hx : s.deliveries d = some x)
    (hdeliveries : s'.deliveries = Function.update s.deliveries d (some x'))
    (hcalls : ∀ i, i ≠ d → s'.process.calls i = s.process.calls i)
    (hcount : count s'.process = count s.process)
    (h : mayLead id mayDo (some x', s'.process.calls d) ≤
      mayLead id mayDo (some x, s.process.calls d)) :
    account id mayDo count D s' ≤ 0 + account id mayDo count D s := by
  refine account_le hd (fun i hi => by rw [hdeliveries, Function.update_of_ne hi]) hcalls ?_
  rw [hdeliveries, Function.update_self, hx, hcount]
  omega

theorem account_over {d : ℕ} (hd : d ∈ D) {x x' : Delivery} (hx : s.deliveries d = some x)
    (hdeliveries : s'.deliveries = Function.update s.deliveries d (some x'))
    (hcalls : ∀ i, i ≠ d → s'.process.calls i = s.process.calls i)
    (hcount : count s'.process = count s.process) (h : x'.pc.isOver = true) :
    account id mayDo count D s' ≤ 0 + account id mayDo count D s := by
  refine account_move hd hx hdeliveries hcalls hcount ?_
  rw [mayLead_of_isOver h]
  exact Nat.zero_le _

/-- Only an entry into the use case for the payment brings what its calls do once. -/
theorem account_step (honce : OncePerCall id mayDo count) {a : SystemLabel}
    (hprocess : ProcessInv s.process)
    (hcall : ∀ d x attempt, s.deliveries d = some x → x.pc = .inUseCase attempt →
      ∃ c, s.process.calls d = some c ∧ paymentIdOf x.message.payload = .ok c.paymentId)
    (hD : ∀ d, a.delivery = some d → d ∈ D)
    (h : SystemTrans cmd draw batchSize settings s a s') :
    account id mayDo count D s' ≤
      (if enters id (s, a, s') then 1 else 0) + account id mayDo count D s := by
  have hzero : account id mayDo count D s' ≤ 0 + account id mayDo count D s →
      account id mayDo count D s' ≤
        (if enters id (s, a, s') then 1 else 0) + account id mayDo count D s := fun hle =>
    hle.trans (Nat.add_le_add_right (Nat.zero_le _) _)
  cases h with
  | request | pass | expire => exact hzero (Nat.le_add_left _ _)
  | created =>
    refine hzero ((Nat.le_of_eq ?_).trans (Nat.le_add_left _ _))
    exact congrArg (· + _) (honce.same rfl rfl)
  | @deliver d n m hd hm =>
    refine hzero (account_le (hD d rfl) (fun i hi => Function.update_of_ne hi _ _)
      (fun _ _ => rfl) ?_)
    simp only [hd, SystemState.setDelivery, Function.update_self]
    exact Nat.le_add_left _ 0
  | refuse hx _ _ => exact hzero (account_over (hD _ rfl) hx rfl (fun _ _ => rfl) rfl rfl)
  | @begin d x paymentId attempt process hx hpc hstart hbegin =>
    cases processStep_trans hbegin with
    | begin hc =>
      refine account_le (hD _ rfl) (fun i hi => Function.update_of_ne hi _ _)
        (fun i hi => Function.update_of_ne hi _ _) ?_
      have hafter : mayLead id mayDo (some { x with pc := .inUseCase attempt },
          some ⟨paymentId, .get⟩) = if paymentId = id ∧ mayDo .get then 1 else 0 := rfl
      have hsame : count (s.process.setCall d ⟨paymentId, .get⟩) = count s.process :=
        honce.same rfl rfl
      simp only [ProcessState.setCall_calls, SystemState.setDelivery, Function.update_self,
        hafter, hsame, enters, hx, Option.any_some, startsOn, hstart, decide_eq_true_eq]
      by_cases hid : paymentId = id
      · simp only [hid, true_and, if_true]
        split_ifs <;> omega
      · simp only [hid, false_and, if_false]
        omega
    | stop _ _ hstop => rcases hstop with hstop | ⟨e, hstop⟩ <;> cases hstop
  | useCaseEnds hx _ _ hafter =>
    exact hzero
      (account_over (hD _ rfl) hx rfl (fun _ _ => rfl) rfl (isOver_of_afterUseCase hafter))
  | @publish d x p outcome hx _ =>
    exact hzero (account_over (hD _ rfl) hx rfl (fun _ _ => rfl) rfl (by cases outcome <;> rfl))
  | ack hx hpc _ =>
    exact hzero (account_over (hD _ rfl) hx rfl (fun _ _ => rfl) rfl (congrArg _ hpc))
  | reject hx hpc _ =>
    exact hzero (account_over (hD _ rfl) hx rfl (fun _ _ => rfl) rfl (congrArg _ hpc))
  | crash hx =>
    obtain ⟨hcharges, hsent, hcalls⟩ := processKill_same
    exact hzero (account_over (hD _ rfl) hx rfl hcalls (honce.same hcharges hsent) rfl)
  | takeBack hx _ =>
    exact hzero (account_move (hD _ rfl) hx rfl (fun _ _ => rfl) rfl (Nat.le_refl _))
  | @call d act x attempt process hx hpc hstep =>
    refine hzero
      (account_le (hD _ rfl) (fun _ _ => rfl) (fun i hi => processStep_calls hstep hi) ?_)
    have hlead : ∀ c : ProcessCall, mayLead id mayDo (some x, some c) =
        if c.paymentId = id ∧ mayDo c.pc then 1 else 0 := fun c => by
      simp only [mayLead, Option.map_some, hpc]
    obtain ⟨c, hc, -⟩ := hcall d x attempt hx hpc
    obtain ⟨c', hc', hle⟩ := honce.call hprocess hc hstep
    obtain ⟨c'', hc'', hsame⟩ := (callsStepOk hprocess (b := .call d act) hstep).calls d c hc
    obtain rfl := Option.some.inj (hc'.symm.trans hc'')
    simp only [hx, hc, hc', hlead, hsame]
    omega

end

/-! ## At most one entry in a delivery -/

def HandlerPc.isReceived : HandlerPc → Bool
  | received => true
  | inUseCase _ | onFailure _ | returned | raised _ | dead => false

theorem HandlerPc.isReceived_of_isOver {pc : HandlerPc} (h : pc.isOver = true) :
    pc.isReceived = false := by
  cases pc with
  | received | inUseCase _ => cases h
  | _ => rfl

/-- Whether a delivery may still enter the use case. -/
def awaitsStart (id : UUID) : Option Delivery → ℕ
  | none => 0
  | some x => if x.pc.isReceived ∧ namesPayment id x.message.payload then 1 else 0

def unstarted (id : UUID) (D : Finset ℕ) (s : SystemState) : ℕ :=
  ∑ d ∈ D, awaitsStart id (s.deliveries d)

section

variable {s s' : SystemState} {D : Finset ℕ}

theorem names_of_handlerStart (htables : TablesOk s) {m : Message} {attempt attempt' : ℤ}
    {paymentId : UUID} (hm : IsAttempt settings s.events attempt m)
    (h : handlerStart m = .ok (paymentId, attempt')) : namesPayment paymentId m.payload = true := by
  obtain ⟨o, -, hpayload, r, -, hannounces⟩ := concerns_of_event htables hm.payload
  have hnames : Names r.id m.payload := hpayload ▸ hannounces.paymentId
  have hid := Except.ok.inj ((paymentIdOf_of_names hnames).symm.trans (handlerStart_ok h).1)
  exact namesPayment_iff.2 (hid ▸ hnames)

theorem unstarted_set (id : UUID) {d : ℕ} (hd : d ∈ D) {x : Option Delivery}
    (hx : s.deliveries d = x) {x' : Delivery}
    (hdeliveries : s'.deliveries = Function.update s.deliveries d (some x')) :
    unstarted id D s' + awaitsStart id x = unstarted id D s + awaitsStart id (some x') := by
  rw [unstarted, hdeliveries, ← hx]
  exact sum_update (awaitsStart id) s.deliveries hd (some x')

/-- A step of a handler that does not wait for its start after it, or did before. -/
theorem unstarted_move {d : ℕ} (hd : d ∈ D) {x : Delivery} (hx : s.deliveries d = some x)
    {unacked : Bool} {pc : HandlerPc}
    (hdeliveries : s'.deliveries = Function.update s.deliveries d (some { x with
      unacked := unacked
      pc := pc }))
    (h : pc.isReceived = true → x.pc.isReceived = true) :
    unstarted id D s' ≤ unstarted id D s := by
  have hsum := unstarted_set id hd hx hdeliveries
  have hle : awaitsStart id (some { x with
      unacked := unacked
      pc := pc }) ≤ awaitsStart id (some x) := by
    simp only [awaitsStart]
    by_cases hafter : pc.isReceived = true
    · simp only [hafter, h hafter, le_refl]
    · simp [hafter]
  omega

/-- Only a delivery of the payment brings an entry. -/
theorem unstarted_step {a : SystemLabel} (hfrom : Provenance settings s) (htables : TablesOk s)
    (hD : ∀ d, a.delivery = some d → d ∈ D)
    (h : SystemTrans cmd draw batchSize settings s a s') :
    (if enters id (s, a, s') then 1 else 0) + unstarted id D s' ≤
      (if delivers id (s, a, s') then 1 else 0) + unstarted id D s := by
  have hmove : unstarted id D s' ≤ unstarted id D s → enters id (s, a, s') = false →
      (if enters id (s, a, s') then 1 else 0) + unstarted id D s' ≤
        (if delivers id (s, a, s') then 1 else 0) + unstarted id D s := by
    intro hle hno
    simp only [hno, Bool.false_eq_true, if_false]
    omega
  cases h with
  | request | created | pass | call | expire => exact hmove (le_refl _) rfl
  | @deliver d n m hd hm =>
    have hset : ({ s with queues := s.queues.dequeue newQueue n }.setDelivery d
        ⟨m, true, .received⟩).deliveries =
          Function.update s.deliveries d (some ⟨m, true, .received⟩) := rfl
    have hsum := unstarted_set id (hD d rfl) hd hset
    simp only [awaitsStart, HandlerPc.isReceived, true_and] at hsum
    simp only [enters, delivers, hm, Option.any_some, Bool.false_eq_true, if_false]
    omega
  | @refuse d x e hx hpc hstart =>
    refine hmove (unstarted_move (hD d rfl) hx rfl fun _ => hpc ▸ rfl) ?_
    simp only [enters, hx, Option.any_some, startsOn, hstart]
  | @begin d x paymentId attempt process hx hpc hstart hbegin =>
    have hset : ({ s with process := process }.setDelivery d
        { x with pc := .inUseCase attempt }).deliveries =
          Function.update s.deliveries d (some { x with pc := .inUseCase attempt }) := rfl
    have hsum := unstarted_set id (hD d rfl) hx hset
    obtain ⟨attempt', hm, -⟩ := hfrom.deliveries _ _ hx
    have hnames := names_of_handlerStart htables hm hstart
    simp only [awaitsStart, hpc, HandlerPc.isReceived, true_and, Bool.false_eq_true, false_and,
      if_false] at hsum
    simp only [enters, delivers, hx, Option.any_some, startsOn, hstart, decide_eq_true_eq,
      Bool.false_eq_true, if_false]
    by_cases hid : paymentId = id
    · rw [← hid, hnames, if_pos rfl] at hsum
      rw [if_pos hid, ← hid]
      omega
    · rw [if_neg hid]
      omega
  | useCaseEnds hx hpc _ hafter =>
    refine hmove (unstarted_move (hD _ rfl) hx rfl fun hreceived => ?_) rfl
    rw [HandlerPc.isReceived_of_isOver (isOver_of_afterUseCase hafter)] at hreceived
    cases hreceived
  | @publish d x p outcome hx hpc =>
    exact hmove (unstarted_move (hD _ rfl) hx rfl fun h => by cases outcome <;> cases h) rfl
  | ack hx _ _ => exact hmove (unstarted_move (hD _ rfl) hx rfl fun h => h) rfl
  | reject hx _ _ => exact hmove (unstarted_move (hD _ rfl) hx rfl fun h => h) rfl
  | crash hx => exact hmove (unstarted_move (hD _ rfl) hx rfl fun h => by cases h) rfl
  | takeBack hx _ => exact hmove (unstarted_move (hD _ rfl) hx rfl fun h => h) rfl

end

/-! ## Over a run -/

/-- The deliveries a run is about. -/
def deliveriesOf (as : List SystemLabel) : Finset ℕ := (as.filterMap SystemLabel.delivery).toFinset

section

variable {as : List SystemLabel} {s : SystemState}

theorem mem_deliveriesOf {M : Machine SystemState SystemLabel} {s₀ : SystemState}
    {x : SystemState × SystemLabel × SystemState} (hx : x ∈ M.steps s₀ as) {d : ℕ}
    (hd : x.2.1.delivery = some d) : d ∈ deliveriesOf as := by
  obtain ⟨-, as₁, as₂, rfl, -⟩ := Machine.mem_steps hx
  refine List.mem_toFinset.2 (List.mem_filterMap.2 ⟨x.2.1, ?_, hd⟩)
  exact List.mem_append_right _ List.mem_cons_self

theorem accepted_countP (hrun : (system cmd draw batchSize settings).run .init as = some s)
    (id : UUID) : s.relay.accepted.countP (fun a => namesPayment id a.payload) =
      ((system cmd draw batchSize settings).steps .init as).countP (acceptsEvent id) := by
  have hcount := Machine.countP_steps (I := SystemInv cmd draw) (P := acceptsEvent id)
    (f := fun s => s.relay.accepted.countP fun a => namesPayment id a.payload)
    (fun _ _ _ => systemInv_step) (fun s a s' hinv hstep => ?_) systemInv_init hrun
  · simpa [SystemState.init, RelayState.init] using hcount
  · cases system_trans hinv.requests hstep with
    | @pass k act relay hpass =>
      cases passStep_trans hpass with
      | @publish k done todo m n o hk =>
        simp only [RelayState.setPass_accepted, RelayState.offer_accepted, List.countP_append,
          acceptsEvent, hk]
        cases o.isAccepted <;> simp [List.countP_cons]
      | _ => rfl
    | _ => rfl

theorem counted_le_enters {mayDo : ProcessPc → Bool} {count : ProcessState → ℕ}
    (honce : OncePerCall id mayDo count) (hinit : count (.init []) = 0)
    (hrun : (system cmd draw batchSize settings).run .init as = some s) :
    count s.process ≤
      ((system cmd draw batchSize settings).steps .init as).countP (enters id) := by
  have hsum := Machine.amortized (M := system cmd draw batchSize settings)
    (I := fun s => (system cmd draw batchSize settings).Reachable .init s)
    (account id mayDo count (deliveriesOf as)) (fun _ => 0)
    (fun x => if enters id x then 1 else 0)
    (fun _ _ _ hs hstep => hs.step hstep) (fun x hx hreach hstep => ?_) ⟨[], rfl⟩ hrun
  · rw [sum_map_ite] at hsum
    have hzero : account id mayDo count (deliveriesOf as) .init = 0 := by
      simp [account, SystemState.init, mayLead, hinit]
    simp only [account] at hsum hzero
    omega
  · have hinv := systemInv_run hreach
    have hstep := account_step honce hinv.process (fun d y attempt hy hpc => ?_)
      (fun d hd => mem_deliveriesOf hx hd) (system_trans hinv.requests hstep)
    · exact (Nat.zero_add _).trans_le hstep
    · have hok := (noLoss_run hreach).handlers d y hy
      rwa [HandlerOk, hpc] at hok

theorem enters_le_delivers (hrun : (system cmd draw batchSize settings).run .init as = some s)
    (id : UUID) : ((system cmd draw batchSize settings).steps .init as).countP (enters id) ≤
      ((system cmd draw batchSize settings).steps .init as).countP (delivers id) := by
  have hsum := Machine.amortized (M := system cmd draw batchSize settings)
    (I := fun s => (system cmd draw batchSize settings).Reachable .init s)
    (unstarted id (deliveriesOf as)) (fun x => if enters id x then 1 else 0)
    (fun x => if delivers id x then 1 else 0)
    (fun _ _ _ hs hstep => hs.step hstep) (fun x hx hreach hstep => ?_) ⟨[], rfl⟩ hrun
  · rw [sum_map_ite, sum_map_ite] at hsum
    have hzero : unstarted id (deliveriesOf as) .init = 0 := by
      simp [unstarted, SystemState.init, awaitsStart]
    omega
  · exact unstarted_step (provenance_run hreach) (tablesOk_run hreach)
      (fun d hd => mem_deliveriesOf hx hd) (system_trans (systemInv_run hreach).requests hstep)

theorem delivers_le (hrun : (system cmd draw batchSize settings).run .init as = some s)
    (id : UUID) : ((system cmd draw batchSize settings).steps .init as).countP (delivers id) ≤
      settings.attempts * (s.relay.accepted.countP (fun a => namesPayment id a.payload)
        + ((system cmd draw batchSize settings).steps .init as).countP (takesBack id)) := by
  have hsum := Machine.amortized (M := system cmd draw batchSize settings)
    (I := fun s => (system cmd draw batchSize settings).Reachable .init s)
    (fun s => s.turns settings id (deliveriesOf as)) (fun x => if delivers id x then 1 else 0)
    (fun x => (if acceptsEvent id x then settings.attempts else 0)
      + if takesBack id x then settings.attempts else 0)
    (fun _ _ _ hs hstep => hs.step hstep) (fun x hx hreach hstep => ?_) ⟨[], rfl⟩ hrun
  · rw [List.sum_map_add, sum_map_ite, sum_map_ite, sum_map_ite, ← accepted_countP hrun] at hsum
    have hzero : SystemState.turns settings id (deliveriesOf as) .init = 0 := by
      simp [SystemState.turns, SystemState.init, queuedTurns, queueSum, Queues.empty, turnsAhead]
    rw [Nat.mul_add]
    omega
  · exact turns_step (provenance_run hreach) (fun d hd => mem_deliveriesOf hx hd)
      (system_trans (systemInv_run hreach).requests hstep)

end

/-- In every run, whatever fails and dies, the messages of a payment are given to consumers at most
`max 1 max_delivery_attempts` times for each time the broker accepted its event or took one of its
messages back; the use case is entered for it no more often than that; and it is charged, and its
notification sent, no more often than the use case is entered. -/
theorem handler_runs_bounded {as : List SystemLabel} {s : SystemState}
    (hrun : (system cmd draw batchSize settings).run .init as = some s) (id : UUID) :
    ((system cmd draw batchSize settings).steps .init as).countP (delivers id) ≤
        settings.attempts * (s.relay.accepted.countP (fun a => namesPayment id a.payload)
          + ((system cmd draw batchSize settings).steps .init as).countP (takesBack id))
      ∧ ((system cmd draw batchSize settings).steps .init as).countP (enters id) ≤
        ((system cmd draw batchSize settings).steps .init as).countP (delivers id)
      ∧ s.process.chargesOf id ≤
        ((system cmd draw batchSize settings).steps .init as).countP (enters id)
      ∧ s.process.sentOf id ≤
        ((system cmd draw batchSize settings).steps .init as).countP (enters id) :=
  ⟨delivers_le hrun id, enters_le_delivers hrun id, counted_le_enters (onceCharged id) rfl hrun,
    counted_le_enters (onceSent id) rfl hrun⟩

theorem retriedLabels_bounded : ∃ s, sampleSystem.run .init retriedLabels = some s
    ∧ s.relay.accepted.length = 1
    ∧ (sampleSystem.steps .init retriedLabels).countP (enters 1) = 1
    ∧ (sampleSystem.steps .init retriedLabels).countP (delivers 1) ≤
        5 * (s.relay.accepted.countP (fun a => namesPayment 1 a.payload)
          + (sampleSystem.steps .init retriedLabels).countP (takesBack 1))
    ∧ s.process.chargesOf 1 ≤ 1 := by
  have h : (sampleSystem.run .init retriedLabels).map
      (fun s => s.relay.accepted.length) = some 1 := by
    decide +kernel
  have henters : (sampleSystem.steps .init retriedLabels).countP (enters 1) = 1 := by
    decide +kernel
  obtain ⟨s, hrun, hlength⟩ := Option.map_eq_some_iff.1 h
  obtain ⟨hdelivers, -, hcharges, -⟩ := handler_runs_bounded hrun 1
  exact ⟨s, hrun, hlength, henters, hdelivers, henters ▸ hcharges⟩

end PaymentService
