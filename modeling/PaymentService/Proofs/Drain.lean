import PaymentService.Proofs.AttemptOf
import PaymentService.Proofs.QueueSums
import PaymentService.Proofs.RetryChain

/-!
# The consumer comes to an end

Each run of the handler takes a message out of `payments.new` and puts at most a copy with one
attempt less into `payments.retry`, so the steps that the messages in the two queues still allow
shrink with every step (`consumerStepOk`). Whatever the use case does, the consumer ends with the
two queues empty; and no payload is doubled, dropped or changed on the way: each ends in a run that
accepted it or in `payments.dlq` (`consume_drains`).
-/

namespace PaymentService

open Python

variable {ω : Type} {settings : RabbitSettings} {useCase : UUID → ω → ω × Except PyError Unit}

/-! ## What a step does -/

/-- How a run of the handler ends. -/
inductive HandlerEnds (settings : RabbitSettings) (m : Message) :
    Except PyError (Option Publish) → Prop
  | raised {e : PyError} : HandlerEnds settings m (.error e)
  | accepted : HandlerEnds settings m (.ok none)
  | failed {attempt : ℤ} {e : PyError} (h : attemptOf m.headers = .ok attempt) :
    HandlerEnds settings m (.ok (some (onFailure settings m.payload attempt e)))

theorem handlerEnds (m : Message) (w : ω) :
    HandlerEnds settings m (handlePaymentCreated settings useCase m w).2 := by
  unfold handlePaymentCreated
  split
  · exact .raised
  · rename_i id hid
    split
    · exact .raised
    · rename_i attempt hattempt
      rcases useCase id w with ⟨w', e | _⟩
      · exact .failed hattempt
      · exact .accepted

/-- The steps of the consumer. -/
inductive ConsumerTrans (settings : RabbitSettings) (useCase : UUID → ω → ω × Except PyError Unit)
    (s : ConsumerState ω) : ConsumerState ω → Prop
  | handle {m : Message} {w : ω} {result : Except PyError (Option Publish)}
    (hm : (s.queues newQueue)[0]? = some m)
    (h : handlePaymentCreated settings useCase m s.world = (w, result)) :
    ConsumerTrans settings useCase s ⟨afterHandler (s.queues.dequeue newQueue 0) m result, w,
      s.runs ++ [⟨m, s.world, w, result⟩]⟩
  | expire {m : Message} (hm : (s.queues retryQueue)[0]? = some m) :
    ConsumerTrans settings useCase s { s with
      queues := (s.queues.dequeue retryQueue 0).deadLetter retryQueue m }

theorem consumerStep_trans {s s' : ConsumerState ω}
    (h : consumerStep settings useCase s = some s') : ConsumerTrans settings useCase s s' := by
  unfold consumerStep at h
  split at h
  · rename_i m rest hnew
    cases h
    exact .handle (by rw [hnew]; rfl) rfl
  · split at h
    · rename_i m rest hretry
      cases h
      exact .expire (by rw [hretry]; rfl)
    · cases h

theorem consumerStep_eq_none {s : ConsumerState ω} (h : consumerStep settings useCase s = none) :
    s.queues newQueue = [] ∧ s.queues retryQueue = [] := by
  unfold consumerStep at h
  split at h
  · cases h
  · rename_i hnew
    split at h
    · cases h
    · rename_i hretry
      exact ⟨hnew, hretry⟩

/-! ## What is left to do -/

/-- The runs of the handler a message may still lead to. -/
def attemptsLeft (settings : RabbitSettings) (m : Message) : ℕ :=
  match attemptOf m.headers with
  | .ok attempt => max 1 (settings.maxDeliveryAttempts - attempt + 1).toNat
  | .error _ => 1

/-- The steps a message in a queue may still lead to: it is handled, and expires before that if it
has to wait. -/
def stepsLeft (settings : RabbitSettings) (q : RabbitQueue) (m : Message) : ℕ :=
  if q = newQueue then 2 * attemptsLeft settings m
  else if q = retryQueue then 2 * attemptsLeft settings m + 1
  else 0

/-- The runs of the handler the queues may still lead to. -/
def runsAhead (settings : RabbitSettings) (queues : Queues) : ℕ :=
  queueSum (fun q m => if q = dlqQueue then 0 else attemptsLeft settings m) queues

def stepsAhead (settings : RabbitSettings) (queues : Queues) : ℕ :=
  queueSum (stepsLeft settings) queues

/-- The handler returned and published nothing, so its message is gone. -/
def HandlerRun.isAccepted (r : HandlerRun ω) : Bool :=
  match r.result with
  | .ok none => true
  | _ => false

def acceptedPayloads (runs : List (HandlerRun ω)) : List Dict :=
  (runs.filter HandlerRun.isAccepted).map fun r => r.message.payload

/-- The messages in the queues and the messages that were accepted, with a payload of a kind. -/
def accountedFor (P : Dict → Bool) (s : ConsumerState ω) : ℕ :=
  queueSum (fun _ m => (P m.payload).toNat) s.queues + (acceptedPayloads s.runs).countP P

@[simp]
theorem acceptedPayloads_append (runs later : List (HandlerRun ω)) :
    acceptedPayloads (runs ++ later) = acceptedPayloads runs ++ acceptedPayloads later := by
  rw [acceptedPayloads, List.filter_append, List.map_append, acceptedPayloads, acceptedPayloads]

theorem acceptedPayloads_accepted (m : Message) (before after : ω) :
    acceptedPayloads [⟨m, before, after, .ok none⟩] = [m.payload] := rfl

theorem acceptedPayloads_of_ne {m : Message} {before after : ω}
    {result : Except PyError (Option Publish)} (h : result ≠ .ok none) :
    acceptedPayloads [⟨m, before, after, result⟩] = [] := by
  rcases result with e | _ | p
  · rfl
  · exact absurd rfl h
  · rfl

theorem one_le_attemptsLeft (settings : RabbitSettings) (m : Message) :
    1 ≤ attemptsLeft settings m := by
  unfold attemptsLeft
  split
  · exact le_max_left _ _
  · exact le_refl _

theorem attemptsLeft_toRetry {payload : Dict} {attempt : ℤ} {e : PyError} (h1 : 1 ≤ attempt)
    (hN : attempt < settings.maxDeliveryAttempts) {m : Message}
    (hm : attemptOf m.headers = .ok attempt) :
    attemptsLeft settings (toRetry settings payload attempt e).message + 1 =
      attemptsLeft settings m := by
  have hcopy : attemptOf (toRetry settings payload attempt e).message.headers = .ok (attempt + 1) :=
    attemptOf_failureHeaders (by omega) e
  simp only [attemptsLeft, hcopy, hm]
  omega

/-! ## A step of the consumer -/

/-- Where a handled message ends up: it is accepted, or put into one more queue with its payload, as
it was or as a copy with one attempt less. -/
inductive Placed (settings : RabbitSettings) (m : Message) (queues : Queues) :
    Except PyError (Option Publish) → Queues → Prop
  | accepted : Placed settings m queues (.ok none) queues
  | dead {result : Except PyError (Option Publish)} (m' : Message) (hresult : result ≠ .ok none)
    (hpayload : m'.payload = m.payload) :
    Placed settings m queues result (queues.enqueue [dlqQueue] m')
  | retried {result : Except PyError (Option Publish)} (m' : Message) (hresult : result ≠ .ok none)
    (hpayload : m'.payload = m.payload)
    (h : attemptsLeft settings m' + 1 = attemptsLeft settings m) :
    Placed settings m queues result (queues.enqueue [retryQueue] m')

theorem placed_afterHandler (queues : Queues) {m : Message}
    {result : Except PyError (Option Publish)} (h : HandlerEnds settings m result) :
    Placed settings m queues result (afterHandler queues m result) := by
  cases h with
  | raised =>
    simp only [afterHandler, Queues.deadLetter, deadLetter_new]
    exact .dead _ (by simp) rfl
  | accepted => exact .accepted
  | @failed attempt e hattempt =>
    simp only [afterHandler, Queues.publish]
    unfold onFailure
    split_ifs with hN
    · simp only [toDlq, route_dead]
      exact .dead _ (by simp) rfl
    · simp only [toRetry, route_retry]
      exact .retried _ (by simp) rfl
        (attemptsLeft_toRetry (attemptOf_one_le hattempt) (not_le.1 hN) hattempt)

@[simp]
theorem stepsLeft_new (m : Message) :
    stepsLeft settings newQueue m = 2 * attemptsLeft settings m := if_pos rfl

@[simp]
theorem stepsLeft_retry (m : Message) :
    stepsLeft settings retryQueue m = 2 * attemptsLeft settings m + 1 := by
  rw [stepsLeft, if_neg (by decide), if_pos rfl]

@[simp]
theorem stepsLeft_dlq (m : Message) : stepsLeft settings dlqQueue m = 0 := by
  rw [stepsLeft, if_neg (by decide), if_neg (by decide)]

/-- An expired message has what it had while it waited. -/
theorem queueSum_expire (w : RabbitQueue → Message → ℕ) {queues : Queues} {m : Message}
    (hm : (queues retryQueue)[0]? = some m) :
    queueSum w ((queues.dequeue retryQueue 0).deadLetter retryQueue m) + w retryQueue m =
      queueSum w queues + w newQueue { m with expiration := none } := by
  have htaken := queueSum_dequeue (w := w) retry_mem_serviceQueues hm
  have hput : queueSum w ((queues.dequeue retryQueue 0).enqueue [newQueue]
      { m with expiration := none }) =
        queueSum w (queues.dequeue retryQueue 0) + w newQueue { m with expiration := none } :=
    queueSum_enqueue new_mem_serviceQueues _
  rw [Queues.deadLetter, deadLetter_retry]
  omega

structure ConsumerStepOk (settings : RabbitSettings) (s s' : ConsumerState ω) : Prop where
  steps : stepsAhead settings s'.queues + 1 ≤ stepsAhead settings s.queues
  runs : runsAhead settings s'.queues + s'.runs.length ≤
    runsAhead settings s.queues + s.runs.length
  earlier : s.runs <+: s'.runs
  payloads : ∀ P : Dict → Bool, accountedFor P s' = accountedFor P s

theorem consumerStepOk_handle {s : ConsumerState ω} {m : Message}
    (hm : (s.queues newQueue)[0]? = some m) {result : Except PyError (Option Publish)} {w : ω}
    {queues : Queues} (h : Placed settings m (s.queues.dequeue newQueue 0) result queues) :
    ConsumerStepOk settings s ⟨queues, w, s.runs ++ [⟨m, s.world, w, result⟩]⟩ := by
  have htaken : ∀ v : RabbitQueue → Message → ℕ,
      queueSum v (s.queues.dequeue newQueue 0) + v newQueue m = queueSum v s.queues :=
    fun v => queueSum_dequeue new_mem_serviceQueues hm
  have hone := one_le_attemptsLeft settings m
  have hsteps := htaken (stepsLeft settings)
  have hruns := htaken fun q m => if q = dlqQueue then 0 else attemptsLeft settings m
  have hpayloads := fun P : Dict → Bool => htaken fun _ m => (P m.payload).toNat
  rw [stepsLeft_new] at hsteps
  simp only [show newQueue ≠ dlqQueue by decide, if_false] at hruns
  cases h with
  | accepted =>
    refine ⟨?_, ?_, List.prefix_append _ _, fun P => ?_⟩
    · simp only [stepsAhead]
      omega
    · simp only [runsAhead, List.length_append, List.length_singleton]
      omega
    · have hcount : [m.payload].countP P = (P m.payload).toNat := by
        rw [List.countP_singleton]
        cases P m.payload <;> rfl
      simp only [accountedFor, acceptedPayloads_append, acceptedPayloads_accepted,
        List.countP_append, hcount, ← hpayloads P]
      omega
  | dead m' hresult hpayload =>
    have hput : ∀ v : RabbitQueue → Message → ℕ,
        queueSum v ((s.queues.dequeue newQueue 0).enqueue [dlqQueue] m') =
          queueSum v (s.queues.dequeue newQueue 0) + v dlqQueue m' :=
      fun v => queueSum_enqueue dlq_mem_serviceQueues m'
    refine ⟨?_, ?_, List.prefix_append _ _, fun P => ?_⟩
    · simp only [stepsAhead, hput, stepsLeft_dlq]
      omega
    · simp only [runsAhead, hput, List.length_append, List.length_singleton, if_true]
      omega
    · simp only [accountedFor, hput, hpayload, acceptedPayloads_append,
        acceptedPayloads_of_ne hresult, List.append_nil, ← hpayloads P]
  | retried m' hresult hpayload hcopy =>
    have hput : ∀ v : RabbitQueue → Message → ℕ,
        queueSum v ((s.queues.dequeue newQueue 0).enqueue [retryQueue] m') =
          queueSum v (s.queues.dequeue newQueue 0) + v retryQueue m' :=
      fun v => queueSum_enqueue retry_mem_serviceQueues m'
    refine ⟨?_, ?_, List.prefix_append _ _, fun P => ?_⟩
    · simp only [stepsAhead, hput, stepsLeft_retry]
      omega
    · simp only [runsAhead, hput, List.length_append, List.length_singleton,
        show retryQueue ≠ dlqQueue by decide, if_false]
      omega
    · simp only [accountedFor, hput, hpayload, acceptedPayloads_append,
        acceptedPayloads_of_ne hresult, List.append_nil, ← hpayloads P]

theorem consumerStepOk {s s' : ConsumerState ω} (h : consumerStep settings useCase s = some s') :
    ConsumerStepOk settings s s' := by
  cases consumerStep_trans h with
  | @handle m w result hm hhandle =>
    have hends : HandlerEnds settings m (handlePaymentCreated settings useCase m s.world).2 :=
      handlerEnds m s.world
    rw [hhandle] at hends
    exact consumerStepOk_handle hm (placed_afterHandler _ hends)
  | @expire m hm =>
    have hsteps := queueSum_expire (stepsLeft settings) hm
    have hruns := queueSum_expire
      (fun q m => if q = dlqQueue then 0 else attemptsLeft settings m) hm
    have hpayloads := fun P : Dict → Bool => queueSum_expire (fun _ m => (P m.payload).toNat) hm
    have hsame : attemptsLeft settings { m with expiration := none } = attemptsLeft settings m :=
      rfl
    rw [stepsLeft_new, stepsLeft_retry, hsame] at hsteps
    simp only [show newQueue ≠ dlqQueue by decide, show retryQueue ≠ dlqQueue by decide,
      if_false, hsame] at hruns
    refine ⟨?_, ?_, List.prefix_rfl, fun P => ?_⟩
    · simp only [stepsAhead]
      omega
    · simp only [runsAhead]
      omega
    · exact congrArg (· + (acceptedPayloads s.runs).countP P) (Nat.add_right_cancel (hpayloads P))

/-! ## The whole run -/

/-- What the consumer leaves when nothing is left to do, started in `s`. -/
structure Drained (settings : RabbitSettings) (s s' : ConsumerState ω) : Prop where
  new : s'.queues newQueue = []
  retry : s'.queues retryQueue = []
  runs : s'.runs.length ≤ runsAhead settings s.queues + s.runs.length
  earlier : s.runs <+: s'.runs
  payloads : ∀ P : Dict → Bool, accountedFor P s' = accountedFor P s

theorem Drained.of_step {s s₁ s' : ConsumerState ω} (h : ConsumerStepOk settings s s₁)
    (hd : Drained settings s₁ s') : Drained settings s s' :=
  ⟨hd.new, hd.retry, hd.runs.trans h.runs, h.earlier.trans hd.earlier,
    fun P => (hd.payloads P).trans (h.payloads P)⟩

/-- The induction is on a bound of the steps ahead, which every step brings down. -/
theorem exists_drained : ∀ (n : ℕ) (s : ConsumerState ω), stepsAhead settings s.queues ≤ n →
    ∃ s', (∀ k, consume settings useCase (n + k) s = some s') ∧ Drained settings s s'
  | 0, s, hn => by
    rcases hs : consumerStep settings useCase s with _ | s₁
    · obtain ⟨hnew, hretry⟩ := consumerStep_eq_none hs
      refine ⟨s, fun k => ?_, hnew, hretry, Nat.le_add_left _ _, List.prefix_rfl, fun _ => rfl⟩
      cases k <;> simp [consume, hs]
    · have := (consumerStepOk hs).steps
      omega
  | n + 1, s, hn => by
    have hfuel : ∀ k, n + 1 + k = n + k + 1 := fun k => by omega
    rcases hs : consumerStep settings useCase s with _ | s₁
    · obtain ⟨hnew, hretry⟩ := consumerStep_eq_none hs
      refine ⟨s, fun k => ?_, hnew, hretry, Nat.le_add_left _ _, List.prefix_rfl, fun _ => rfl⟩
      rw [hfuel, consume, hs]
    · have hok := consumerStepOk hs
      obtain ⟨s', hs', hd⟩ := exists_drained n s₁ (by have := hok.steps; omega)
      refine ⟨s', fun k => ?_, hd.of_step hok⟩
      rw [hfuel, consume, hs]
      exact hs' k

theorem perm_of_countP {α : Type} {l l' : List α}
    (h : ∀ P : α → Bool, l.countP P = l'.countP P) : l.Perm l' := by
  classical
  exact List.perm_iff_count.2 fun a => h (· == a)

/-- The payloads of a kind that the three queues hold. -/
theorem queueSum_payloads (P : Dict → Bool) (queues : Queues) :
    queueSum (fun _ m => (P m.payload).toNat) queues =
      ((queues newQueue ++ queues retryQueue ++ queues dlqQueue).map Message.payload).countP P := by
  have hqueue : ∀ ms : List Message,
      (ms.map fun m => (P m.payload).toNat).sum = (ms.map Message.payload).countP P := by
    intro ms
    rw [← Amortized.sum_map_toNat, List.map_map]
    rfl
  rw [queueSum, serviceQueues, Finset.sum_insert (by decide), Finset.sum_insert (by decide),
    Finset.sum_singleton, hqueue, hqueue, hqueue, List.map_append, List.map_append,
    List.countP_append, List.countP_append, Nat.add_assoc]

/-- Whatever is in the queues and whatever the use case does, the consumer ends, with as many steps
as the messages allow, and then `payments.new` and `payments.retry` are empty; the handler has run
no more often than the messages' attempts allowed; and the payloads of the messages in
`payments.dlq` and of the runs that accepted theirs are those that were in the queues, none of them
more or less often. -/
theorem consume_drains (settings : RabbitSettings)
    (useCase : UUID → ω → ω × Except PyError Unit) (s : ConsumerState ω) :
    ∃ s' later, (∀ k, consume settings useCase (stepsAhead settings s.queues + k) s = some s')
      ∧ s'.queues newQueue = [] ∧ s'.queues retryQueue = [] ∧ s'.runs = s.runs ++ later
      ∧ later.length ≤ runsAhead settings s.queues
      ∧ ((s'.queues dlqQueue).map Message.payload ++ acceptedPayloads later).Perm
        ((s.queues newQueue ++ s.queues retryQueue ++ s.queues dlqQueue).map Message.payload) := by
  obtain ⟨s', hs', hd⟩ :
      ∃ s', (∀ k, consume settings useCase (stepsAhead settings s.queues + k) s = some s')
        ∧ Drained settings s s' := exists_drained _ s (le_refl _)
  obtain ⟨later, hlater⟩ := hd.earlier
  have hruns := hd.runs
  rw [← hlater, List.length_append] at hruns
  refine ⟨s', later, hs', hd.new, hd.retry, hlater.symm, by omega, perm_of_countP fun P => ?_⟩
  have hcount := hd.payloads P
  rw [accountedFor, accountedFor, queueSum_payloads, queueSum_payloads, hd.new, hd.retry, ← hlater,
    acceptedPayloads_append, List.countP_append] at hcount
  rw [List.countP_append]
  simp only [List.nil_append] at hcount
  omega

end PaymentService
