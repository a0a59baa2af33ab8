import PaymentService.Proofs.Blocking
import PaymentService.Proofs.Readers
import PaymentService.Proofs.Schedule
import PaymentService.Proofs.Stopping

/-!
# The service comes to rest

Whatever has happened, the service can still do what it was asked. From any reachable state it can
be stopped (`exists_quiet`), pass after pass can publish what is left in the outbox, and a consumer
that works alone can handle what is left in the queues. Then every payment whose message is not in
`payments.dlq` is final and its notification was accepted (`settled_at_rest`).
-/

namespace PaymentService

open Python Labelled

variable {cmd : ℕ → CreatePaymentCommand} {draw : ℕ → Draw} {batchSize : ℕ → ℕ}
  {settings : RabbitSettings}

/-! ## Publishing what is left -/

theorem dlq_queuesAfterPass (queues : Queues) (pc : PassPc) (act : PassAct) :
    queuesAfterPass queues pc act dlqQueue = queues dlqQueue := by
  have hroute : dlqQueue ∉ route PAYMENTS_EXCHANGE_NAME NEW_ROUTING_KEY := by decide
  unfold queuesAfterPass
  split
  · split_ifs
    · simp only [Queues.publish, Queues.enqueue, eventMessage, paymentsExchange, hroute, if_false]
    · rfl
  · rfl

/-- The service as a relay sees it that works alone. -/
structure RelayAlone (s₀ : SystemState) (r : RelayState) (s : SystemState) : Prop where
  relay : s.relay = r
  process : s.process = s₀.process
  deliveries : s.deliveries = s₀.deliveries
  dlq : s.queues dlqQueue = s₀.queues dlqQueue

theorem relay_scheduled (s₀ : SystemState) : (system cmd draw batchSize settings).Schedules
    (·.isCreate = false) (RelayAlone s₀) fun r r' => ∃ a, (∃ k act, a = .pass k act)
      ∧ (relayMachine batchSize).step r a = some r' := by
  rintro r r' s halone ⟨_, ⟨k, act, rfl⟩, hstep⟩
  have hpass : passStep batchSize s.relay k act = some r' := by
    rw [halone.relay]
    exact hstep
  refine ⟨{ s with
      relay := r'
      queues := queuesAfterPass s.queues (s.relay.passes k) act },
    .single (a := .relay k act) rfl ?_, rfl, halone.process, halone.deliveries,
    (dlq_queuesAfterPass _ _ _).trans halone.dlq⟩
  simp only [system, relaySystemStep, hpass, Option.map_some]

def neverStuck : UUID → Bool := fun _ => false

/-- A pass in which every publish returns takes rows from the pending ones, if there are any. -/
theorem pass_runs (hbatch : ∀ k, 0 < batchSize k) {s : SystemState}
    (h : (system cmd draw batchSize settings).Reachable .init s) (hquiet : Quiet s)
    (hpending : (pendingIds s.relay.outbox).card ≠ 0) :
    ∃ s', (system cmd draw batchSize settings).Reaches (·.isCreate = false) s s' ∧ Quiet s'
      ∧ s'.queues dlqQueue = s.queues dlqQueue
      ∧ (pendingIds s'.relay.outbox).card < (pendingIds s.relay.outbox).card := by
  obtain ⟨k, hk⟩ := unused_run h
  have hids := (systemInv_run h).relay.ids
  set order := stuckFirstOrder neverStuck s.relay.outbox
  have htable : isTableOrder s.relay.outbox order = true := isTableOrder_stuckFirst rfl hids
  have horder := isSnapshotOrder_of_table htable
  obtain ⟨r, hrun, houtbox, -, hlocks⟩ := publishBatch_run (B := batchSize)
    (fun _ => .published 0) (hk.passes k le_rfl) hquiet.locks horder
  have hpasses :
      (relayMachine batchSize).Reaches (fun a => ∃ k act, a = .pass k act) s.relay r := by
    refine ⟨_, fun a ha => ?_, hrun⟩
    simp only [passAlone, List.cons_append, List.mem_cons, List.mem_append, List.mem_map]
      at ha
    rcases ha with rfl | ⟨m, -, rfl⟩ | rfl | ha <;> first | exact ⟨_, _, rfl⟩ | cases ha
  obtain ⟨s', hreach, halone⟩ := (relay_scheduled s).run hpasses.chain ⟨rfl, rfl, rfl, rfl⟩
  refine ⟨s', hreach, ⟨halone.deliveries ▸ hquiet.acked, halone.process ▸ hquiet.writes,
    halone.relay ▸ hlocks⟩, halone.dlq, ?_⟩
  have holdest : Batch.IsOldest (createdAtOf s.relay.outbox) (batchSize k)
      (pendingIds s.relay.outbox) (fetchedIds (batchSize k) order s.relay.outbox).toFinset :=
    isOldest_fetchedIds rfl hids htable
  have hroom : Batch.HasRoom (createdAtOf s.relay.outbox) (batchSize k)
      (fun id => neverStuck id = true) (pendingIds s.relay.outbox) := by
    intro g _ _
    simpa [neverStuck] using hbatch k
  have hleaving : ∀ ids : Finset UUID, Batch.leaving (fun id => neverStuck id = true) ids = ids :=
    fun ids => by simp [Batch.leaving, neverStuck]
  have hlt := Batch.leaving_remaining_lt holdest hroom (by
    rw [hleaving]
    exact Finset.card_ne_zero.1 hpending)
  have hremaining : pendingIds (publishBatch (batchSize k) (fun _ => .published 0) order
      s.relay.outbox).1 = Batch.remaining (fun id => neverStuck id = true)
        (pendingIds s.relay.outbox) (fetchedIds (batchSize k) order s.relay.outbox).toFinset :=
    pendingIds_publishBatch hids horder fun _ => rfl
  rw [hleaving, hleaving, ← hremaining] at hlt
  rwa [halone.relay, houtbox]

/-! ## Handling what is left -/

/-- The gateway answers and every POST gets a good response. -/
def calmOutside : Outside := ⟨fun _ => true, fun _ => 0, fun _ => .ok⟩

/-- The consumer alone on the queues and tables of the service. -/
def consumerOf (s : SystemState) : ConsumerState World :=
  ⟨s.queues, ⟨s.process.payments, s.process.charges.map Charge.paymentId,
    s.process.accepted.map Notification.toPost⟩, []⟩

theorem goodPosts_calm (posts : List Post) : goodPosts calmOutside.post posts = posts := by
  have hall : posts.zipIdx.filter (fun x => (calmOutside.post x.2).isOk) = posts.zipIdx :=
    List.filter_eq_self.2 fun _ _ => rfl
  rw [goodPosts, hall, List.zipIdx_map_fst]

theorem consumerAlone_of_quiet {s : SystemState} (hquiet : Quiet s) {N : ℕ} (hN : Unused N s) :
    ConsumerAlone calmOutside (consumerOf s) s where
  queues := rfl
  world := ⟨rfl, rfl, (goodPosts_calm _).symm, hquiet.writes⟩
  acked := hquiet.acked
  fresh := ⟨N, fun d hd => ⟨hN.deliveries d hd, hN.calls d hd⟩⟩

theorem notify_calm (webhook : WebhookSettings) (w : World) (p : Payment) :
    (notify webhook calmOutside w p).2 = .ok () := by
  unfold notify send sendTries
  rfl

/-- A call for a committed payment ends well when nothing it awaits fails. -/
theorem processPayment_calm (webhook : WebhookSettings) {w : World}
    (hids : (w.payments.map PaymentRow.id).Nodup) {r : PaymentRow} (hr : r ∈ w.payments)
    (hloads : ∃ p, LoadsAs r p) : (processPayment webhook calmOutside r.id w).2 = .ok () := by
  obtain ⟨p, hp⟩ := hloads
  by_cases hpending : r.status = .pending
  · obtain ⟨row, q, w₁, ⟨hcall, -⟩, -⟩ :=
      notifiesOf_pending webhook calmOutside hids hr hpending hp
    rw [hcall]
    exact notify_calm _ _ _
  · have hfinal : p.isProcessed = true := by
      simpa [Payment.isProcessed, PaymentStatus.isFinal, hp.status] using hpending
    simp only [processPayment, get_of_mem hids hr hp, hfinal, if_true]
    exact notify_calm _ _ _

theorem handle_calm (webhook : WebhookSettings) {s : SystemState}
    (h : (system cmd draw batchSize settings).Reachable .init s) {m : Message}
    (hm : m ∈ s.queues newQueue) :
    (handlePaymentCreated settings (processPayment webhook calmOutside) m (consumerOf s).world).2 =
      .ok none := by
  obtain ⟨attempt, hattempt⟩ := ((provenance_run h).queues _ m hm).of_new rfl
  obtain ⟨r, hr, hstart⟩ := handlerStart_attempt (tablesOk_run h) hattempt
  rw [handle_of_start_ok hstart, processPayment_calm webhook (systemInv_run h).process.ids hr
    (loads_of_asPending ((provenance_run h).rows r hr))]
  rfl

/-- The messages that wait, those in `payments.retry` twice. -/
def waitingMessages (s : SystemState) : ℕ :=
  (s.queues newQueue).length + 2 * (s.queues retryQueue).length

/-- A step of the consumer takes a message out, or out of `payments.retry`, and puts none into
`payments.dlq`. -/
theorem calm_step {s : SystemState} {s₁ : ConsumerState World}
    (h : (system cmd draw batchSize settings).Reachable .init s)
    (hstep : consumerStep settings (processPayment ⟨1⟩ calmOutside) (consumerOf s) = some s₁) :
    s₁.queues dlqQueue = s.queues dlqQueue
      ∧ (s₁.queues newQueue).length + 2 * (s₁.queues retryQueue).length < waitingMessages s := by
  have hfirst : ∀ {q : RabbitQueue} {m : Message}, (s.queues q)[0]? = some m →
      ((s.queues.dequeue q 0) q).length + 1 = (s.queues q).length := by
    intro q m hm
    obtain ⟨hlt, -⟩ := List.getElem?_eq_some_iff.1 hm
    rw [Queues.dequeue, Function.update_self, List.length_eraseIdx_of_lt hlt]
    omega
  have hother : ∀ {q q' : RabbitQueue}, q' ≠ q → s.queues.dequeue q 0 q' = s.queues q' :=
    fun hne => Function.update_of_ne hne _ _
  cases consumerStep_trans hstep with
  | @handle m w result hm hhandle =>
    have hresult := handle_calm ⟨1⟩ h (List.mem_of_getElem? hm)
    rw [hhandle] at hresult
    obtain rfl : result = .ok none := hresult
    refine ⟨hother (show dlqQueue ≠ newQueue by decide), ?_⟩
    have hnew := hfirst hm
    have hretry : s.queues.dequeue newQueue 0 retryQueue = s.queues retryQueue :=
      hother (by decide)
    change ((s.queues.dequeue newQueue 0) newQueue).length
      + 2 * ((s.queues.dequeue newQueue 0) retryQueue).length < waitingMessages s
    rw [hretry, waitingMessages]
    omega
  | @expire m hm =>
    have hretry := hfirst hm
    have hnew : s.queues.dequeue retryQueue 0 newQueue = s.queues newQueue := hother (by decide)
    simp only [consumerOf, Queues.deadLetter, deadLetter_retry, Queues.enqueue,
      List.mem_singleton, if_true, show dlqQueue ≠ newQueue by decide,
      show retryQueue ≠ newQueue by decide, if_false, List.length_append, List.length_singleton]
    refine ⟨hother (by decide), ?_⟩
    rw [hnew, waitingMessages]
    omega

/-- The next message is handled, or the next one that waits expires. -/
theorem message_runs {s : SystemState}
    (h : (system cmd draw batchSize settings).Reachable .init s) (hquiet : Quiet s)
    (hwaiting : waitingMessages s ≠ 0) :
    ∃ s', (system cmd draw batchSize settings).Reaches (·.isCreate = false) s s' ∧ Quiet s'
      ∧ s'.relay = s.relay ∧ s'.queues dlqQueue = s.queues dlqQueue
      ∧ waitingMessages s' < waitingMessages s := by
  obtain ⟨N, hN⟩ := unused_run h
  rcases hstep : consumerStep settings (processPayment ⟨1⟩ calmOutside) (consumerOf s) with _ | s₁
  · obtain ⟨hnew, hretry⟩ := consumerStep_eq_none hstep
    simp [waitingMessages, show s.queues newQueue = [] from hnew,
      show s.queues retryQueue = [] from hretry] at hwaiting
  · obtain ⟨s', hreach, halone⟩ : ∃ s', (system cmd draw batchSize settings).Reaches
        (·.isUndisturbed) s s' ∧ ConsumerAlone calmOutside s₁ s' :=
      consumer_scheduled _ _ _ (consumerAlone_of_quiet hquiet hN) hstep
    obtain ⟨hdlq, hlt⟩ := calm_step h hstep
    have hrelay := (undisturbed_run hreach).1
    refine ⟨s', hreach.mono fun a ha => ?_, ⟨halone.acked, halone.world.writes,
      hrelay ▸ hquiet.locks⟩, hrelay, halone.queues ▸ hdlq, ?_⟩
    · cases a <;> first | rfl | cases ha
    · rwa [waitingMessages, halone.queues]

/-! ## At rest -/

/-- Nothing is left to do: the outbox is published, and no message is to be handled or
acknowledged. -/
structure AtRest (s : SystemState) : Prop where
  published : ∀ m ∈ s.relay.outbox, m.publishedAt ≠ none
  new : s.queues newQueue = []
  retry : s.queues retryQueue = []
  acked : ∀ d x, s.deliveries d = some x → x.unacked = false

/-- The payment is final, and the notification that says so was accepted. -/
def Done (s : SystemState) (r : PaymentRow) : Prop :=
  r.status ≠ .pending ∧ ∃ p, LoadsAs r p ∧ notificationOf p ∈ s.process.accepted

/-- When the service is at rest, a payment is done or its message is dead. -/
theorem done_at_rest {s : SystemState} (h : (system cmd draw batchSize settings).Reachable .init s)
    (hrest : AtRest s) {r : PaymentRow} (hr : r ∈ s.process.payments) :
    Done s r ∨ ∃ m ∈ s.queues dlqQueue, Names r.id m.payload := by
  have hloss := noLoss_run h
  have hinv := (systemInv_run h).process
  obtain ⟨e, he, hannounces⟩ := Pairing.exists_left (tablesOk_run h).forall₂ hr
  obtain ⟨k, hk⟩ := hloss.published e he (hrest.published e he)
  rcases hloss.accepted _ hk r.id hannounces.paymentId with
    ⟨q, hq, m, hm, hid⟩ | ⟨d, x, hx, hunacked, -, -⟩ | ⟨n, hn, hid⟩
  · simp only [List.mem_cons, List.not_mem_nil, or_false] at hq
    rcases hq with rfl | rfl | rfl
    · simp [hrest.new] at hm
    · simp [hrest.retry] at hm
    · exact .inr ⟨m, hm, hid⟩
  · simp [hrest.acked d x hx] at hunacked
  · obtain ⟨r', hr', hfinal, p, hp, rfl⟩ := hinv.sent n (hinv.accepted n hn)
    obtain rfl := eq_of_id hinv.ids hr' hr (hp.id.symm.trans hid)
    exact .inl ⟨hfinal, p, hp, hn⟩

/-- Pass after pass publishes what is left. -/
theorem exists_published (hbatch : ∀ k, 0 < batchSize k) {s : SystemState}
    (h : (system cmd draw batchSize settings).Reachable .init s) (hquiet : Quiet s) :
    ∃ t, (system cmd draw batchSize settings).Reaches (·.isCreate = false) s t ∧ Quiet t
      ∧ t.queues dlqQueue = s.queues dlqQueue ∧ ∀ m ∈ t.relay.outbox, m.publishedAt ≠ none := by
  obtain ⟨t, hst, ⟨-, ht⟩, hdlq, hpending⟩ :=
    Machine.exists_descent (M := system cmd draw batchSize settings)
      (P := fun a => a.isCreate = false)
      (I := fun s => (system cmd draw batchSize settings).Reachable .init s ∧ Quiet s)
      (fun s t => t.queues dlqQueue = s.queues dlqQueue)
      (fun s => (pendingIds s.relay.outbox).card) (fun _ => rfl)
      (fun _ _ _ hst htu => htu.trans hst) (fun s hs hpos => by
        obtain ⟨t, hst, ht, hdlq, hlt⟩ := pass_runs hbatch hs.1 hs.2 hpos
        exact ⟨t, hst, ⟨hst.reachable hs.1, ht⟩, hdlq, hlt⟩) _ s le_rfl ⟨h, hquiet⟩
  refine ⟨t, hst, ht, hdlq, fun m hm hnone => ?_⟩
  have hmem : m.id ∈ pendingIds t.relay.outbox := mem_pendingIds.2 ⟨m, hm, hnone, rfl⟩
  simp [Finset.card_eq_zero.1 hpending] at hmem

/-- Message after message is handled. -/
theorem exists_handled {s : SystemState}
    (h : (system cmd draw batchSize settings).Reachable .init s) (hquiet : Quiet s) :
    ∃ t, (system cmd draw batchSize settings).Reaches (·.isCreate = false) s t ∧ Quiet t
      ∧ t.relay = s.relay ∧ t.queues dlqQueue = s.queues dlqQueue ∧ waitingMessages t = 0 := by
  obtain ⟨t, hst, ⟨-, ht⟩, ⟨hrelay, hdlq⟩, hnone⟩ :=
    Machine.exists_descent (M := system cmd draw batchSize settings)
      (P := fun a => a.isCreate = false)
      (I := fun s => (system cmd draw batchSize settings).Reachable .init s ∧ Quiet s)
      (fun s t => t.relay = s.relay ∧ t.queues dlqQueue = s.queues dlqQueue) waitingMessages
      (fun _ => ⟨rfl, rfl⟩)
      (fun _ _ _ hst htu => ⟨htu.1.trans hst.1, htu.2.trans hst.2⟩) (fun s hs hpos => by
        obtain ⟨t, hst, ht, hrelay, hdlq, hlt⟩ := message_runs hs.1 hs.2 hpos
        exact ⟨t, hst, ⟨hst.reachable hs.1, ht⟩, ⟨hrelay, hdlq⟩, hlt⟩) _ s le_rfl ⟨h, hquiet⟩
  exact ⟨t, hst, ht, hrelay, hdlq, hnone⟩

theorem exists_rest (hbatch : ∀ k, 0 < batchSize k) {s : SystemState}
    (h : (system cmd draw batchSize settings).Reachable .init s) :
    ∃ t, (system cmd draw batchSize settings).Reaches (·.isCreate = false) s t ∧ AtRest t
      ∧ t.queues dlqQueue = s.queues dlqQueue := by
  obtain ⟨s₁, hs₁, hquiet₁, hdlq₁⟩ := exists_quiet h
  have h₁ := hs₁.reachable h
  obtain ⟨s₂, hs₂, hquiet₂, hdlq₂, hpublished⟩ := exists_published hbatch h₁ hquiet₁
  obtain ⟨t, ht, hquiet, hrelay, hdlq, hnone⟩ := exists_handled (hs₂.reachable h₁) hquiet₂
  obtain ⟨hnew, hretry⟩ : t.queues newQueue = [] ∧ t.queues retryQueue = [] := by
    simpa [waitingMessages] using hnone
  exact ⟨t, (hs₁.trans hs₂).trans ht, ⟨hrelay ▸ hpublished, hnew, hretry, hquiet.acked⟩,
    (hdlq.trans hdlq₂).trans hdlq₁⟩

/-- Whenever the service is at rest, each payment is final and the notification of it accepted, or
a message that names it is in `payments.dlq`. And from every state the service can be in, whoever
has crashed and whatever has failed, there is a way to rest, with no create request and nothing put
into `payments.dlq`, on which every payment whose message is not there already is done. -/
theorem service_recovers (hbatch : ∀ k, 0 < batchSize k) {as : List SystemLabel} {s : SystemState}
    (hrun : (system cmd draw batchSize settings).run .init as = some s) :
    (AtRest s → ∀ r ∈ s.process.payments,
        Done s r ∨ ∃ m ∈ s.queues dlqQueue, Names r.id m.payload)
      ∧ ∃ bs t, (∀ b ∈ bs, b.isCreate = false)
        ∧ (system cmd draw batchSize settings).run s bs = some t ∧ AtRest t
        ∧ t.queues dlqQueue = s.queues dlqQueue
        ∧ ∀ r ∈ s.process.payments, ∃ r' ∈ t.process.payments, r'.asPending = r.asPending
          ∧ (Done t r' ∨ ∃ m ∈ s.queues dlqQueue, Names r.id m.payload) := by
  have h : (system cmd draw batchSize settings).Reachable .init s := ⟨as, hrun⟩
  refine ⟨fun hrest r hr => done_at_rest h hrest hr, ?_⟩
  obtain ⟨t, ⟨bs, hbs, hrun'⟩, hrest, hdlq⟩ := exists_rest hbatch h
  refine ⟨bs, t, hbs, hrun', hrest, hdlq, fun r hr => ?_⟩
  obtain ⟨r', hr', he, -⟩ := later_run h hrun' r hr
  have hid : r'.id = r.id := by rw [← asPending_id, he, asPending_id]
  refine ⟨r', hr', he, ?_⟩
  rw [← hid, ← hdlq]
  exact done_at_rest (Machine.Reaches.reachable ⟨bs, hbs, hrun'⟩ h) hrest hr'

/-- The payment whose first handler died is done in the end. -/
theorem crashedLabels_recovers : ∃ s, sampleSystem.run .init crashedLabels = some s
    ∧ s.process.payments.map PaymentRow.status = [.pending]
    ∧ ∃ bs t, sampleSystem.run s bs = some t ∧ AtRest t
      ∧ ∀ r ∈ s.process.payments, ∃ r' ∈ t.process.payments, r'.asPending = r.asPending
        ∧ Done t r' := by
  have h : (sampleSystem.run .init crashedLabels).map (fun s =>
      (s.process.payments.map PaymentRow.status, (s.queues dlqQueue).length)) =
        some ([.pending], 0) := by
    decide +kernel
  obtain ⟨s, hrun, hs⟩ := Option.map_eq_some_iff.1 h
  obtain ⟨hstatus, hdlq⟩ := Prod.mk.inj hs
  obtain ⟨-, bs, t, -, hrun', hrest, -, hdone⟩ := service_recovers (fun _ => by decide) hrun
  refine ⟨s, hrun, hstatus, bs, t, hrun', hrest, fun r hr => ?_⟩
  obtain ⟨r', hr', he, hr'done | ⟨m, hm, -⟩⟩ := hdone r hr
  · exact ⟨r', hr', he, hr'done⟩
  · simp [List.length_eq_zero_iff.1 hdlq] at hm

end PaymentService
