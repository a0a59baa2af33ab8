import PaymentService.Proofs.Provenance

/-!
# Why a message is dead

Nothing is dead-lettered early. A message numbered `a` is there because the use case raised at every
attempt before, and one in `payments.dlq` because it raised at the last attempt too, or because the
publish of the retry policy raised and the message was rejected. The steps of the run so far are
part of the invariant (`history_step`): they have the failures a number stands for.
-/

namespace PaymentService

open Python Labelled

variable {cmd : ℕ → CreatePaymentCommand} {draw : ℕ → Draw} {batchSize : ℕ → ℕ}
  {settings : RabbitSettings}

/-! ## Failures in the past of a state -/

/-- In a handler of the payload's `j`-th attempt the use case or the close of its session raised. -/
def FailsAt (payload : Dict) (j : ℤ) (x : SystemState × SystemLabel × SystemState) : Prop :=
  ∃ d closeError y c, x.2.1 = .handler d (.useCaseEnds closeError) ∧ x.1.deliveries d = some y
    ∧ y.message.payload = payload ∧ attemptOf y.message.headers = .ok j
    ∧ x.1.process.calls d = some c ∧ (closeError.isSome = true ∨ ∃ at_ e, c.pc = .raised at_ e)

/-- The retry policy's publish raised in a handler of the message. -/
def PublishRaises (m : Message) (x : SystemState × SystemLabel × SystemState) : Prop :=
  ∃ d outcome y p, x.2.1 = .handler d (.publish outcome) ∧ outcome.isPublished = false
    ∧ x.1.deliveries d = some y ∧ y.message = m ∧ y.pc = .onFailure p

section

variable {past past' : List (SystemState × SystemLabel × SystemState)} {m : Message} {x : Delivery}
  {q : RabbitQueue} {payload : Dict} {a : ℤ}

/-- Each attempt below `a` failed. -/
def FailedBelow (past : List (SystemState × SystemLabel × SystemState)) (payload : Dict) (a : ℤ) :
    Prop :=
  ∀ j, 1 ≤ j → j < a → ∃ y ∈ past, FailsAt payload j y

/-- Each attempt before the one a message is numbered with failed. -/
def Tried (past : List (SystemState × SystemLabel × SystemState)) (m : Message) : Prop :=
  ∀ a, attemptOf m.headers = .ok a → FailedBelow past m.payload a

/-- The last attempt failed, or the message was rejected. -/
def Exhausted (settings : RabbitSettings)
    (past : List (SystemState × SystemLabel × SystemState)) (m : Message) : Prop :=
  (∃ a, settings.maxDeliveryAttempts ≤ a ∧ 1 ≤ a ∧ FailedBelow past m.payload (a + 1))
    ∨ ∃ y ∈ past, PublishRaises m y

def QueuedFor (settings : RabbitSettings)
    (past : List (SystemState × SystemLabel × SystemState)) (q : RabbitQueue) (m : Message) :
    Prop :=
  Tried past m ∧ (q = dlqQueue → Exhausted settings past m)

/-- A handler that is about to publish has failed, and one that raised has failed to publish. -/
structure DeliveredFor (past : List (SystemState × SystemLabel × SystemState)) (x : Delivery) :
    Prop where
  tried : Tried past x.message
  failed : ∀ p, x.pc = .onFailure p → ∀ a, attemptOf x.message.headers = .ok a →
    FailedBelow past x.message.payload (a + 1)
  raised : ∀ e, x.pc = .raised e → ∃ y ∈ past, PublishRaises x.message y

theorem FailedBelow.mono (hsub : past ⊆ past') (h : FailedBelow past payload a) :
    FailedBelow past' payload a := by
  intro j h1 hj
  obtain ⟨y, hy, hfails⟩ := h j h1 hj
  exact ⟨y, hsub hy, hfails⟩

theorem FailedBelow.succ (h : FailedBelow past payload a) (ha : ∃ y ∈ past, FailsAt payload a y) :
    FailedBelow past payload (a + 1) := by
  intro j h1 hj
  rcases (Int.lt_add_one_iff.1 hj).lt_or_eq with hlt | rfl
  · exact h j h1 hlt
  · exact ha

theorem Tried.mono (hsub : past ⊆ past') (h : Tried past m) : Tried past' m :=
  fun a ha => (h a ha).mono hsub

theorem Exhausted.mono (hsub : past ⊆ past') (h : Exhausted settings past m) :
    Exhausted settings past' m := by
  rcases h with ⟨a, hN, h1, hfailed⟩ | ⟨y, hy, hraises⟩
  · exact .inl ⟨a, hN, h1, hfailed.mono hsub⟩
  · exact .inr ⟨y, hsub hy, hraises⟩

theorem QueuedFor.mono (hsub : past ⊆ past') (h : QueuedFor settings past q m) :
    QueuedFor settings past' q m :=
  ⟨h.1.mono hsub, fun hq => (h.2 hq).mono hsub⟩

theorem DeliveredFor.mono (hsub : past ⊆ past') (h : DeliveredFor past x) :
    DeliveredFor past' x where
  tried := h.tried.mono hsub
  failed p hp a ha := (h.failed p hp a ha).mono hsub
  raised e he := by
    obtain ⟨y, hy, hraises⟩ := h.raised e he
    exact ⟨y, hsub hy, hraises⟩

end

/-! ## Every step keeps the history -/

/-- The past explains the numbers of all messages, and why the dead ones are dead. -/
structure History (settings : RabbitSettings)
    (past : List (SystemState × SystemLabel × SystemState)) (s : SystemState) : Prop where
  queues : ∀ q, ∀ m ∈ s.queues q, QueuedFor settings past q m
  deliveries : ∀ d x, s.deliveries d = some x → DeliveredFor past x

section

variable {past : List (SystemState × SystemLabel × SystemState)} {s s' : SystemState}

theorem delivered_update {deliveries : ℕ → Option Delivery}
    (h : ∀ d x, deliveries d = some x → DeliveredFor past x) {d₀ : ℕ} {x₀ : Delivery}
    (hx₀ : DeliveredFor past x₀) :
    ∀ d x, Function.update deliveries d₀ (some x₀) d = some x → DeliveredFor past x := by
  intro d x hx
  by_cases hd : d = d₀
  · subst hd
    rw [Function.update_self, Option.some_inj] at hx
    exact hx ▸ hx₀
  · rw [Function.update_of_ne hd] at hx
    exact h d x hx

/-- The relay's message is numbered 1. -/
theorem queuedFor_event (m : OutboxRow) {q : RabbitQueue} (hq : q = newQueue) :
    QueuedFor settings past q (eventMessage m.id m.eventType m.payload).message := by
  refine ⟨fun a ha j h1 hj => ?_, fun hdlq => absurd (hq.symm.trans hdlq) (by decide)⟩
  rw [attemptOf_eventMessage] at ha
  cases ha
  omega

theorem queuedFor_pass (h : ∀ q, ∀ m ∈ s.queues q, QueuedFor settings past q m) (pc : PassPc)
    (act : PassAct) :
    ∀ q, ∀ m ∈ queuesAfterPass s.queues pc act q, QueuedFor settings past q m := by
  unfold queuesAfterPass
  split
  · split_ifs
    · exact forall_enqueue h fun q hq =>
        queuedFor_event _ (List.mem_singleton.1 (show q ∈ [newQueue] from route_new ▸ hq))
    · exact h
  · exact h

/-- What the retry policy publishes for a failed attempt. -/
theorem queuedFor_onFailure {m : Message} {attempt : ℤ} (h1 : 1 ≤ attempt)
    (hfailed : FailedBelow past m.payload (attempt + 1)) (e : PyError) :
    ∀ q ∈ route (onFailure settings m.payload attempt e).exchange
        (onFailure settings m.payload attempt e).routingKey,
      QueuedFor settings past q (onFailure settings m.payload attempt e).message := by
  intro q hq
  unfold onFailure at hq ⊢
  split_ifs at hq ⊢ with hN
  · refine ⟨fun a ha => ?_, fun _ => .inl ⟨attempt, hN, h1, hfailed⟩⟩
    have ha' := (attemptOf_failureHeaders h1 e).symm.trans ha
    cases ha'
    exact fun j hj hlt => hfailed j hj (by omega)
  · obtain rfl := List.mem_singleton.1 (show q ∈ [retryQueue] from route_retry ▸ hq)
    refine ⟨fun a ha => ?_, fun hdlq => absurd hdlq (by decide)⟩
    have ha' := (attemptOf_failureHeaders (show 1 ≤ attempt + 1 by omega) e).symm.trans ha
    cases ha'
    exact hfailed

/-- The use case over, the attempt has failed if the handler is to publish. -/
theorem deliveredFor_useCaseEnds {d : ℕ} {x : Delivery} {attempt : ℤ} {c : ProcessCall}
    {closeError : Option PyError} {pc : HandlerPc} (hx : s.deliveries d = some x)
    (hc : s.process.calls d = some c) (hdelivered : DeliveredFor past x)
    (hlast : (s, .handler d (.useCaseEnds closeError), s') ∈ past)
    (hafter : afterUseCase settings x.message attempt closeError c.pc = some pc) :
    DeliveredFor past { x with pc := pc } := by
  refine ⟨hdelivered.tried, fun p hp a ha => (hdelivered.tried a ha).succ ⟨_, hlast, d, closeError,
    x, c, rfl, hx, rfl, ha, hc, ?_⟩, fun e he => ?_⟩
  · obtain rfl : pc = .onFailure p := hp
    unfold afterUseCase at hafter
    split at hafter
    · split at hafter
      · cases hafter
      · exact .inl rfl
    · rename_i hpc
      exact .inr ⟨_, _, hpc⟩
    · cases hafter
  · obtain rfl : pc = .raised e := he
    unfold afterUseCase at hafter
    split at hafter
    · split at hafter <;> cases hafter
    · cases hafter
    · cases hafter

theorem history_step {a : SystemLabel}
    (hreach : (system cmd draw batchSize settings).Reachable .init s)
    (h : History settings past s)
    (hstep : (system cmd draw batchSize settings).step s a = some s') :
    History settings (past ++ [(s, a, s')]) s' := by
  have hsub : past ⊆ past ++ [(s, a, s')] := List.subset_append_left _ _
  have hlast : (s, a, s') ∈ past ++ [(s, a, s')] := List.mem_append_right _ List.mem_cons_self
  generalize past ++ [(s, a, s')] = past' at hsub hlast ⊢
  have hqueues := fun q m hm => (h.queues q m hm).mono hsub
  have hdeliveries := fun d x hx => (h.deliveries d x hx).mono hsub
  have hfrom := provenance_run hreach
  cases system_trans (systemInv_run hreach).requests hstep with
  | request | created | call => exact ⟨hqueues, hdeliveries⟩
  | pass _ => exact ⟨queuedFor_pass hqueues _ _, hdeliveries⟩
  | deliver hd hm =>
    exact ⟨fun q m hm' => hqueues q m (mem_of_mem_dequeue hm'), delivered_update hdeliveries
      ⟨(hqueues _ _ (List.mem_of_getElem? hm)).1, by simp, by simp⟩⟩
  | refuse hx _ hstart =>
    obtain ⟨attempt, hattempt, -⟩ := hfrom.deliveries _ _ hx
    obtain ⟨r, -, hok⟩ := handlerStart_attempt (tablesOk_run hreach) hattempt
    cases hstart.symm.trans hok
  | begin hx _ _ _ =>
    exact ⟨hqueues, delivered_update hdeliveries ⟨(hdeliveries _ _ hx).tried, by simp, by simp⟩⟩
  | useCaseEnds hx _ hc hafter =>
    exact ⟨hqueues, delivered_update hdeliveries
      (deliveredFor_useCaseEnds hx hc (hdeliveries _ _ hx) hlast hafter)⟩
  | @publish d x p outcome hx hpc =>
    obtain ⟨attempt, hattempt, hpcFrom⟩ := hfrom.deliveries _ _ hx
    rw [hpc] at hpcFrom
    obtain ⟨e, rfl⟩ := hpcFrom
    have hdelivered := hdeliveries _ _ hx
    refine ⟨?_, delivered_update hdeliveries ⟨hdelivered.tried, ?_, fun e' he' => ?_⟩⟩
    · change ∀ q, ∀ m ∈ (if outcome.isAccepted then _ else _ : Queues) q, QueuedFor settings _ q m
      split_ifs
      · exact forall_enqueue hqueues (queuedFor_onFailure hattempt.bounds.1
          (hdelivered.failed _ hpc _ hattempt.attemptOf) e)
      · exact hqueues
    · cases outcome <;> simp [afterPublish]
    · refine ⟨_, hlast, d, outcome, x, _, rfl, ?_, hx, rfl, hpc⟩
      cases outcome with
      | published _ => cases he'
      | refused _ | unconfirmed _ => rfl
  | ack hx _ _ =>
    have hdelivered := hdeliveries _ _ hx
    exact ⟨hqueues, delivered_update hdeliveries
      ⟨hdelivered.tried, hdelivered.failed, hdelivered.raised⟩⟩
  | @reject d x e hx hpc _ =>
    have hdelivered := hdeliveries _ _ hx
    obtain ⟨attempt, hattempt, -⟩ := hfrom.deliveries _ _ hx
    have hsame : { x.message with expiration := none } = x.message := by
      rw [← hattempt.expiration]
    refine ⟨forall_enqueue hqueues fun q _ => ?_, delivered_update hdeliveries
      ⟨hdelivered.tried, hdelivered.failed, hdelivered.raised⟩⟩
    exact hsame.symm ▸ ⟨hdelivered.tried, fun _ => .inr (hdelivered.raised e hpc)⟩
  | crash hx =>
    exact ⟨hqueues, delivered_update hdeliveries ⟨(hdeliveries _ _ hx).tried, by simp, by simp⟩⟩
  | takeBack hx _ =>
    have hdelivered := hdeliveries _ _ hx
    refine ⟨forall_enqueue hqueues fun q hq => ⟨hdelivered.tried, fun hdlq => ?_⟩,
      delivered_update hdeliveries ⟨hdelivered.tried, hdelivered.failed, hdelivered.raised⟩⟩
    exact absurd ((List.mem_singleton.1 hq).symm.trans hdlq) (by decide)
  | @expire n m hm =>
    refine ⟨forall_enqueue (fun q m' hm' => hqueues q m' (mem_of_mem_dequeue hm')) fun q hq => ?_,
      hdeliveries⟩
    obtain rfl := List.mem_singleton.1 (show q ∈ [newQueue] from deadLetter_retry ▸ hq)
    exact ⟨(hqueues _ _ (List.mem_of_getElem? hm)).1, fun hdlq => absurd hdlq (by decide)⟩

end

theorem history_run {as : List SystemLabel} {s : SystemState}
    (hrun : (system cmd draw batchSize settings).run .init as = some s) :
    History settings ((system cmd draw batchSize settings).steps .init as) s := by
  have hinit : History settings [] .init :=
    ⟨by simp [SystemState.init, Queues.empty], by simp [SystemState.init]⟩
  have h := Machine.inv_run_past (fun _ _ _ _ => history_step) ⟨[], rfl⟩ hinit hrun
  rwa [List.nil_append] at h

/-- In every run, whatever crashes and whatever is delivered twice, each message in a queue is
numbered with an attempt such that a handler of its payload failed at each attempt before; and each
one in `payments.dlq` had a handler fail at every attempt there is, or was rejected when the publish
of the retry policy raised. -/
theorem no_early_death {as : List SystemLabel} {s : SystemState}
    (hrun : (system cmd draw batchSize settings).run .init as = some s) :
    (∀ q, ∀ m ∈ s.queues q, ∃ a, attemptOf m.headers = .ok a ∧ ∀ j, 1 ≤ j → j < a →
        ∃ x ∈ (system cmd draw batchSize settings).steps .init as, FailsAt m.payload j x)
      ∧ ∀ m ∈ s.queues dlqQueue,
        (∀ j, 1 ≤ j → j ≤ max 1 settings.maxDeliveryAttempts →
          ∃ x ∈ (system cmd draw batchSize settings).steps .init as, FailsAt m.payload j x)
        ∨ ∃ x ∈ (system cmd draw batchSize settings).steps .init as, PublishRaises m x := by
  have hhistory := history_run hrun
  refine ⟨fun q m hm => ?_, fun m hm => ?_⟩
  · obtain ⟨a, ha⟩ := ((provenance_run ⟨as, hrun⟩).queues q m hm).attemptOf
    exact ⟨a, ha, (hhistory.queues q m hm).1 a ha⟩
  · rcases (hhistory.queues _ m hm).2 rfl with ⟨a, hN, h1, hfailed⟩ | hraised
    · exact .inl fun j hj hle => hfailed j hj (by omega)
    · exact .inr hraised

/-- A payment whose first attempt failed, with a retry policy that could not publish. -/
def rejectedLabels : List SystemLabel :=
  sampleLabels.take 11 ++ [.call 0 (.fail (.other "TimeoutError" "timed out")),
    .handler 0 (.useCaseEnds none),
    .handler 0 (.publish (.refused (.other "AMQPConnectionError" "closed"))), .handler 0 .settle]

theorem rejectedLabels_raised : ∃ s, sampleSystem.run .init rejectedLabels = some s
    ∧ (s.queues dlqQueue).length = 1
    ∧ ∀ m ∈ s.queues dlqQueue,
      (∀ j, 1 ≤ j → j ≤ 5 → ∃ x ∈ sampleSystem.steps .init rejectedLabels, FailsAt m.payload j x)
      ∨ ∃ x ∈ sampleSystem.steps .init rejectedLabels, PublishRaises m x := by
  have h : (sampleSystem.run .init rejectedLabels).map
      (fun s => (s.queues dlqQueue).length) = some 1 := by
    decide +kernel
  obtain ⟨s, hrun, hlength⟩ := Option.map_eq_some_iff.1 h
  exact ⟨s, hrun, hlength, (no_early_death hrun).2⟩

end PaymentService
