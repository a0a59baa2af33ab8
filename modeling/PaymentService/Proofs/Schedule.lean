import PaymentService.Lib.Schedule
import PaymentService.Proofs.Drain
import PaymentService.Proofs.Provenance
import PaymentService.Proofs.WebhookRetries

/-!
# The consumer alone is a schedule of the service

`consume` runs one handler after another to its end, on what the gateway and the receivers answer.
Each of its steps is a run of `system` in which nobody else takes a step, nothing is killed and
nothing taken back (`consumer_scheduled`): the handler gets its delivery, its call of the use case
goes from one await to the next (`processPayment_runs`), and the message is acknowledged, published
again or rejected.
-/

namespace PaymentService

open Python Labelled

variable {o : Outside} {webhook : WebhookSettings} {settings : RabbitSettings}

/-! ## Posts and notifications -/

def PostOutcome.isOk : PostOutcome → Bool
  | ok => true
  | httpxError _ | raised _ => false

/-- The posts that got a good response. -/
def goodPosts (post : ℕ → PostOutcome) (posts : List Post) : List Post :=
  (posts.zipIdx.filter fun x => (post x.2).isOk).map Prod.fst

def Notification.toPost (n : Notification) : Post := ⟨n.url, n.payload⟩

theorem goodPosts_append (post : ℕ → PostOutcome) (posts : List Post) (p : Post) :
    goodPosts post (posts ++ [p]) =
      goodPosts post posts ++ if (post posts.length).isOk then [p] else [] := by
  simp only [goodPosts, List.zipIdx_append, List.filter_append, List.map_append,
    List.zipIdx_singleton, Nat.zero_add]
  split_ifs with h <;> simp [h]

/-- Of the tries only the last can get a good response, and then `send` returns. -/
theorem goodPosts_sendTries (post : ℕ → PostOutcome) (url : String) (payload : Dict)
    (exhausted : PyError) (left : ℕ) (posts : List Post) :
    goodPosts post (sendTries post url payload exhausted left posts).1 =
      goodPosts post posts ++
        match (sendTries post url payload exhausted left posts).2 with
        | .ok _ => [⟨url, payload⟩]
        | .error _ => [] := by
  induction left generalizing posts with
  | zero =>
    unfold sendTries
    rcases ho : post posts.length with _ | e | e <;> simp [goodPosts_append, ho, PostOutcome.isOk]
  | succ left ih =>
    unfold sendTries
    rcases ho : post posts.length with _ | e | e
    · simp [goodPosts_append, ho, PostOutcome.isOk]
    · have hposts : goodPosts post (posts ++ [⟨url, payload⟩]) = goodPosts post posts := by
        simp [goodPosts_append, ho, PostOutcome.isOk]
      simp only [ih, hposts]
    · simp [goodPosts_append, ho, PostOutcome.isOk]

/-! ## A call alone -/

/-- What a call does of itself; it is begun and killed with its handler. -/
def ProcessAct.isOwn : ProcessAct → Bool
  | begin _ | kill => false
  | next | answer _ _ | fail _ => true

/-- The calls of the use case when only one of them takes steps. -/
def callMachine (d : ℕ) : Machine ProcessState ProcessAct where
  step s act := processStep s d act

/-- The tables and records as the use case that works alone has them. -/
structure WorldOf (o : Outside) (s : ProcessState) (w : World) : Prop where
  payments : s.payments = w.payments
  charges : s.charges.map Charge.paymentId = w.charges
  accepted : s.accepted.map Notification.toPost = goodPosts o.post w.posts
  writes : s.writes = []

/-- The call stands somewhere, and the other calls where they were. -/
structure Stands (o : Outside) (d : ℕ) (calls : ℕ → Option ProcessCall) (s : ProcessState)
    (w : World) (c : ProcessCall) : Prop where
  world : WorldOf o s w
  calls : s.calls = Function.update calls d (some c)

section

variable {d : ℕ} {calls : ℕ → Option ProcessCall} {s : ProcessState} {w : World}
  {c c' : ProcessCall}

theorem Stands.self (h : Stands o d calls s w c) : s.calls d = some c := by
  rw [h.calls, Function.update_self]

theorem Stands.next (h : Stands o d calls s w c) :
    (callMachine d).step s .next = processNext s d c := by
  simp only [callMachine, processStep, h.self, Option.bind_some]

theorem Stands.fail (h : Stands o d calls s w c) (e : PyError) :
    (callMachine d).step s (.fail e) = processFail s d c e := by
  simp only [callMachine, processStep, h.self, Option.bind_some]

theorem Stands.answer (h : Stands o d calls s w c) (succeeded : Bool) (now : ℤ) :
    (callMachine d).step s (.answer succeeded now) = processAnswer s d c succeeded now := by
  simp only [callMachine, processStep, h.self, Option.bind_some]

theorem Stands.setCall {s' : ProcessState} {w' : World} (h : Stands o d calls s w c)
    (hcalls : s'.calls = s.calls) (hw : WorldOf o s' w') :
    Stands o d calls (s'.setCall d c') w' c' :=
  ⟨⟨hw.payments, hw.charges, hw.accepted, hw.writes⟩, by
    rw [ProcessState.setCall_calls, hcalls, h.calls, Function.update_idem]⟩

end

/-- How a call ends. -/
inductive EndsAs : Except PyError Unit → ProcessPc → Prop
  | returned : EndsAs (.ok ()) .returned
  | raised (at_ : ProcessPc) (e : PyError) : EndsAs (.error e) (.raised at_ e)

/-- Where a call is after the charge. -/
inductive ChargedAs : Except PyError Payment → ProcessPc → Prop
  | send (p : Payment) : ChargedAs (.ok p) (.send p)
  | raised (at_ : ProcessPc) (e : PyError) : ChargedAs (.error e) (.raised at_ e)

section

variable {d : ℕ} {calls : ℕ → Option ProcessCall} {s : ProcessState} {w : World} {id : UUID}
  {p : Payment}

theorem notify_runs (webhook : WebhookSettings) (h : Stands o d calls s w ⟨id, .send p⟩) :
    ∃ s' pc, (callMachine d).Reaches (·.isOwn) s s'
      ∧ Stands o d calls s' (notify webhook o w p).1 ⟨id, pc⟩
      ∧ EndsAs (notify webhook o w p).2 pc := by
  have hgood := goodPosts_sendTries o.post p.webhookUrl.value (webhookPayload p)
    (.webhookDeliveryError s!"Уведомление на {p.webhookUrl.value} не доставлено за {
      webhook.maxAttempts} попыток") (webhook.maxAttempts - 1).toNat w.posts
  have hsending : Stands o d calls ({ s with sent := s.sent ++ [notificationOf p] }.setCall d
      ⟨id, .sending p⟩) w ⟨id, .sending p⟩ :=
    h.setCall rfl ⟨h.world.payments, h.world.charges, h.world.accepted, h.world.writes⟩
  unfold notify send
  rcases hsend : sendTries o.post p.webhookUrl.value (webhookPayload p) _ _ w.posts with ⟨posts, r⟩
  rw [hsend] at hgood
  rcases r with e | ⟨⟩
  · refine ⟨_, .raised (.sending p) e, .head rfl h.next (.single rfl (hsending.fail e)), ?_,
      .raised _ e⟩
    refine hsending.setCall rfl ⟨h.world.payments, h.world.charges, ?_, ?_⟩
    · simpa [hgood] using h.world.accepted
    · simp [h.world.writes]
  · refine ⟨_, .returned, .head rfl h.next (.single rfl hsending.next), ?_, .returned⟩
    refine hsending.setCall rfl ⟨h.world.payments, h.world.charges, ?_, h.world.writes⟩
    simp only [ProcessState.setCall_accepted, List.map_append, List.map_singleton,
      h.world.accepted, hgood]
    rfl

theorem committed_of_writes_nil (h : s.writes = []) : s.committed d = s.payments := by
  simp [ProcessState.committed, h]

theorem committed_of_write {row : PaymentRow} (h : s.writes = [⟨d, row⟩]) :
    s.committed d = replaceRow s.payments row := by
  refine List.map_congr_left fun r _ => ?_
  rw [h]
  by_cases hid : r.id = row.id
  · simp [hid]
  · simp [hid, Ne.symm hid]

/-- The COMMIT of a call, which has written `row` if its update matched. -/
theorem commit_runs {q : Payment} {row : Option PaymentRow}
    (h : Stands o d calls s w ⟨id, .updateStatus q⟩)
    (hrow : PaymentRepository.updateStatus s.payments q = .ok row) :
    ∃ s', (callMachine d).Reaches (·.isOwn) s s'
      ∧ Stands o d calls s' { w with payments := (row.map (replaceRow w.payments)).getD w.payments }
        ⟨id, afterCommit q row.isSome⟩ := by
  have hfree : s.isLocked q.id = false := by simp [ProcessState.isLocked, h.world.writes]
  have hupdate := h.next
  simp only [processNext, hfree, Bool.false_eq_true, if_false, hrow, afterUpdateStatus] at hupdate
  set s₁ := (s.write d (.ok row)).setCall d ⟨id, .commit q row.isSome⟩ with hs₁
  have hcommit : (callMachine d).step s₁ .next =
      some (({ s₁ with payments := s₁.committed d }.endSession d).setCall d
        ⟨id, afterCommit q row.isSome⟩) := by
    simp only [hs₁, callMachine, processStep, ProcessState.setCall_calls, Function.update_self,
      Option.bind_some, processNext]
  have hcalls : s₁.calls = Function.update s.calls d (some ⟨id, .commit q row.isSome⟩) := by
    rw [hs₁, ProcessState.setCall_calls, ProcessState.write_calls]
  refine ⟨_, .head rfl hupdate (.single rfl hcommit), ?_, ?_⟩
  · cases row with
    | none =>
      refine ⟨?_, h.world.charges, h.world.accepted, ?_⟩
      · exact (committed_of_writes_nil (s := s₁) h.world.writes).trans h.world.payments
      · simp [hs₁, ProcessState.write, h.world.writes]
    | some row =>
      have hwrites : s₁.writes = [⟨d, row⟩] := by simp [hs₁, ProcessState.write, h.world.writes]
      refine ⟨?_, h.world.charges, h.world.accepted, ?_⟩
      · exact (committed_of_write hwrites).trans
          (congrArg (replaceRow · row) h.world.payments)
      · simp [hwrites]
  · simp [hcalls, h.calls]

theorem updateStatus_runs {q : Payment} (h : Stands o d calls s w ⟨id, .updateStatus q⟩)
    {e : PyError} (hrow : PaymentRepository.updateStatus s.payments q = .error e) :
    ∃ s', (callMachine d).Reaches (·.isOwn) s s'
      ∧ Stands o d calls s' w ⟨id, .raised (.updateStatus q) e⟩ := by
  have hfree : s.isLocked q.id = false := by simp [ProcessState.isLocked, h.world.writes]
  have hupdate := h.next
  simp only [processNext, hfree, Bool.false_eq_true, if_false, hrow] at hupdate
  exact ⟨_, .single rfl hupdate, h.setCall rfl h.world⟩

theorem getAgain_runs {q : Payment} (h : Stands o d calls s w ⟨id, .getAgain q⟩) :
    ∃ s' pc, (callMachine d).Reaches (·.isOwn) s s' ∧ Stands o d calls s' w ⟨id, pc⟩
      ∧ ChargedAs ((PaymentRepository.get w.payments q.id).map fun current => current.getD q)
        pc := by
  have hget := h.next
  simp only [processNext, h.world.payments] at hget
  refine ⟨_, _, .single rfl hget, h.setCall rfl h.world, ?_⟩
  rcases PaymentRepository.get w.payments q.id with e | current
  · exact .raised _ e
  · exact .send _

theorem chargePayment_runs (h : Stands o d calls s w ⟨id, .charge p⟩) :
    ∃ s' pc, (callMachine d).Reaches (·.isOwn) s s'
      ∧ Stands o d calls s' (chargePayment o w p).1 ⟨id, pc⟩
      ∧ ChargedAs (chargePayment o w p).2 pc := by
  set n := w.charges.length with hn
  set s₁ := { s with charges := s.charges ++ [Charge.mk d p.id] }.setCall d ⟨id, .charging p⟩
  have hcharging : Stands o d calls s₁ { w with charges := w.charges ++ [p.id] }
      ⟨id, .charging p⟩ := by
    refine h.setCall rfl ⟨h.world.payments, ?_, h.world.accepted, h.world.writes⟩
    simp [h.world.charges]
  have hanswered : ∀ pc, Stands o d calls ({ s₁ with
      answers := s₁.answers ++ [Answer.mk d p.id (o.gateway n) (o.now n)] }.setCall d ⟨id, pc⟩)
      { w with charges := w.charges ++ [p.id] } ⟨id, pc⟩ := fun pc => hcharging.setCall rfl
    ⟨hcharging.world.payments, hcharging.world.charges, hcharging.world.accepted,
      hcharging.world.writes⟩
  have hanswer := hcharging.answer (o.gateway n) (o.now n)
  simp only [processAnswer, afterCharge] at hanswer
  unfold chargePayment
  simp only [← hn]
  rcases hmark : (if o.gateway n then p.markSucceeded none (o.now n)
    else p.markFailed none (o.now n)) with e | q <;> simp only [hmark] at hanswer ⊢
  · exact ⟨_, _, .head rfl h.next (.single rfl hanswer), hanswered _, .raised _ e⟩
  · have hmarked := hanswered (.updateStatus q)
    have hreach : (callMachine d).Reaches (·.isOwn) s _ :=
      .head rfl h.next (.single rfl hanswer)
    rcases hrow : PaymentRepository.updateStatus w.payments q with e | _ | row <;>
      rw [← show _ = w.payments from hmarked.world.payments] at hrow
    · obtain ⟨s', hruns, hstands⟩ := updateStatus_runs hmarked hrow
      exact ⟨s', _, hreach.trans hruns, hstands, .raised _ e⟩
    · obtain ⟨s', hruns, hstands⟩ := commit_runs hmarked hrow
      obtain ⟨s'', pc, hruns', hstands', hcharged⟩ := getAgain_runs hstands
      exact ⟨s'', pc, hreach.trans (hruns.trans hruns'), hstands', hcharged⟩
    · obtain ⟨s', hruns, hstands⟩ := commit_runs hmarked hrow
      exact ⟨s', _, hreach.trans hruns, hstands, .send q⟩

theorem processPayment_runs (webhook : WebhookSettings) (h : Stands o d calls s w ⟨id, .get⟩) :
    ∃ s' pc, (callMachine d).Reaches (·.isOwn) s s'
      ∧ Stands o d calls s' (processPayment webhook o id w).1 ⟨id, pc⟩
      ∧ EndsAs (processPayment webhook o id w).2 pc := by
  have hget := h.next
  simp only [processNext, h.world.payments] at hget
  have hat : ∀ pc, Stands o d calls (s.setCall d ⟨id, pc⟩) w ⟨id, pc⟩ :=
    fun pc => h.setCall rfl h.world
  unfold processPayment
  rcases hfound : PaymentRepository.get w.payments id with e | _ | payment <;>
    rw [hfound] at hget <;> simp only [afterGet] at hget ⊢
  · exact ⟨_, _, .single rfl hget, hat _, .raised _ e⟩
  · exact ⟨_, _, .single rfl hget, hat _, .raised _ _⟩
  · by_cases hprocessed : payment.isProcessed = true
    · rw [if_pos hprocessed] at hget ⊢
      obtain ⟨s', pc, hruns, hstands, hends⟩ := notify_runs webhook (hat (.send payment))
      exact ⟨s', pc, .head rfl hget hruns, hstands, hends⟩
    · rw [if_neg hprocessed] at hget ⊢
      obtain ⟨s', pc, hruns, hstands, hcharged⟩ := chargePayment_runs (hat (.charge payment))
      rcases hcharge : chargePayment o w payment with ⟨w', e | q⟩ <;>
        rw [hcharge] at hstands hcharged <;> cases hcharged
      · exact ⟨s', _, .head rfl hget hruns, hstands, .raised _ e⟩
      · obtain ⟨s'', pc', hruns', hstands', hends⟩ := notify_runs webhook hstands
        exact ⟨s'', pc', .head rfl hget (hruns.trans hruns'), hstands', hends⟩

end

/-! ## A handler alone -/

/-- What happens when one consumer works alone: nobody else takes a step, no handler dies and the
broker takes nothing back. -/
def SystemLabel.isUndisturbed : SystemLabel → Bool
  | deliver _ _ | expire _ => true
  | handler _ .crash | handler _ .takeBack => false
  | handler _ _ => true
  | call _ act => act.isOwn
  | create _ _ | relay _ _ => false

/-- The service with no message to be acknowledged, as the consumer alone has it. -/
structure ConsumerAlone (o : Outside) (s : ConsumerState World) (t : SystemState) : Prop where
  queues : t.queues = s.queues
  world : WorldOf o t.process s.world
  acked : ∀ d x, t.deliveries d = some x → x.unacked = false
  fresh : ∃ N, ∀ d, N ≤ d → t.deliveries d = none ∧ t.process.calls d = none

variable {cmd : ℕ → CreatePaymentCommand} {draw : ℕ → Draw} {batchSize : ℕ → ℕ}

/-- What the handler makes of the end of the use case. -/
def handlerResult (settings : RabbitSettings) (m : Message) (attempt : ℤ) :
    Except PyError Unit → Except PyError (Option Publish)
  | .ok () => .ok none
  | .error e => .ok (some (onFailure settings m.payload attempt e))

/-- What is raised before the `try` leaves the handler. -/
theorem handle_of_start_error {ω : Type} {useCase : UUID → ω → ω × Except PyError Unit}
    {m : Message} {e : PyError} (h : handlerStart m = .error e) (w : ω) :
    handlePaymentCreated settings useCase m w = (w, .error e) := by
  unfold handlerStart at h
  unfold handlePaymentCreated
  rcases hid : paymentIdOf m.payload with e' | id <;> rw [hid] at h <;> simp only at h ⊢
  · obtain rfl := Except.error.inj h
    rfl
  · rcases hattempt : attemptOf m.headers with e' | attempt <;>
      simp only [hattempt, Except.map, Except.error.injEq, reduceCtorEq] at h ⊢
    rw [h]

theorem handle_of_start_ok {ω : Type} {useCase : UUID → ω → ω × Except PyError Unit}
    {m : Message} {id : UUID} {attempt : ℤ} (h : handlerStart m = .ok (id, attempt)) (w : ω) :
    handlePaymentCreated settings useCase m w =
      ((useCase id w).1, handlerResult settings m attempt (useCase id w).2) := by
  obtain ⟨hid, hattempt⟩ := handlerStart_ok h
  rcases hu : useCase id w with ⟨w', e | ⟨⟩⟩
  · exact handle_error settings useCase id hid hattempt hu
  · exact handle_ok settings useCase id hid hattempt hu

theorem handler_step {t : SystemState} {d : ℕ} {x : Delivery} (hd : t.deliveries d = some x)
    (act : HandlerAct) :
    (system cmd draw batchSize settings).step t (.handler d act) =
      handlerStep settings t d x act := by
  simp only [system, hd, Option.bind_some]

theorem embed_call {t : SystemState} {d : ℕ} {m : Message} {unacked : Bool} {attempt : ℤ}
    (hd : t.deliveries d = some ⟨m, unacked, .inUseCase attempt⟩) {s s' : ProcessState}
    (h : (callMachine d).Reaches (·.isOwn) s s') :
    (system cmd draw batchSize settings).Reaches (·.isUndisturbed) { t with process := s }
      { t with process := s' } := by
  have hstep : ∀ s act s', act.isOwn = true → (callMachine d).step s act = some s' →
      (SystemLabel.call d act).isUndisturbed = true ∧ (system cmd draw batchSize settings).step
        { t with process := s } (.call d act) = some { t with process := s' } := by
    intro s act s' hown hs
    have hs' : processStep s d act = some s' := hs
    refine ⟨hown, ?_⟩
    cases act with
    | begin _ | kill => cases hown
    | _ => simp [system, callStep, hd, hs']
  exact h.embed (N := system cmd draw batchSize settings) (Q := (·.isUndisturbed))
    (fun s => { t with process := s }) (SystemLabel.call d) hstep

/-- What one run of a handler leaves. -/
structure HandledIn (o : Outside) (t : SystemState) (d : ℕ) (queues : Queues) (w : World)
    (t' : SystemState) : Prop where
  queues : t'.queues = queues
  world : WorldOf o t'.process w
  acked : ∀ x, t'.deliveries d = some x → x.unacked = false
  deliveries : ∀ j, j ≠ d → t'.deliveries j = t.deliveries j
  calls : ∀ j, j ≠ d → t'.process.calls j = t.process.calls j

section

variable {t : SystemState} {d : ℕ} {m : Message} {w : World}

theorem setDelivery_self (t : SystemState) (d : ℕ) (x : Delivery) :
    (t.setDelivery d x).deliveries d = some x :=
  Function.update_self _ _ _

@[simp]
theorem setDelivery_setDelivery (t : SystemState) (d : ℕ) (x y : Delivery) :
    (t.setDelivery d x).setDelivery d y = t.setDelivery d y := by
  simp [SystemState.setDelivery]

theorem ack_runs (t : SystemState) : (system cmd draw batchSize settings).Reaches (·.isUndisturbed)
    (t.setDelivery d ⟨m, true, .returned⟩) (t.setDelivery d ⟨m, false, .returned⟩) := by
  refine .single (a := .handler d .settle) rfl ?_
  rw [handler_step (setDelivery_self _ _ _)]
  exact congrArg some (setDelivery_setDelivery _ _ _ _)

theorem reject_runs (t : SystemState) (e : PyError) :
    (system cmd draw batchSize settings).Reaches (·.isUndisturbed)
      (t.setDelivery d ⟨m, true, .raised e⟩)
      ({ t with queues := t.queues.deadLetter newQueue m }.setDelivery d
        ⟨m, false, .raised e⟩) := by
  refine .single (a := .handler d .settle) rfl ?_
  rw [handler_step (setDelivery_self _ _ _)]
  exact congrArg some (setDelivery_setDelivery { t with queues := _ } _ _ _)

/-- The end of the use case, the publish of a failure and the acknowledgement. -/
theorem useCaseEnds_runs {attempt : ℤ} {id : UUID} {pc : ProcessPc} {result : Except PyError Unit}
    (hd : t.deliveries d = some ⟨m, true, .inUseCase attempt⟩)
    (hc : t.process.calls d = some ⟨id, pc⟩) (hends : EndsAs result pc) :
    (system cmd draw batchSize settings).Reaches (·.isUndisturbed) t
      ({ t with queues := afterHandler t.queues m (handlerResult settings m attempt result)
        }.setDelivery d ⟨m, false, .returned⟩) := by
  cases hends with
  | returned =>
    have hstep : (system cmd draw batchSize settings).step t (.handler d (.useCaseEnds none)) =
        some (t.setDelivery d ⟨m, true, .returned⟩) := by
      rw [handler_step hd]
      simp only [handlerStep, hc]
      rfl
    exact .head rfl hstep (ack_runs t)
  | raised at_ e =>
    set p := onFailure settings m.payload attempt e with hp
    have hstep : (system cmd draw batchSize settings).step t (.handler d (.useCaseEnds none)) =
        some (t.setDelivery d ⟨m, true, .onFailure p⟩) := by
      rw [handler_step hd]
      simp only [handlerStep, hc]
      rfl
    have hpublish : (system cmd draw batchSize settings).step
        (t.setDelivery d ⟨m, true, .onFailure p⟩) (.handler d (.publish (.published 0))) =
          some ({ t with queues := t.queues.publish p }.setDelivery d ⟨m, true, .returned⟩) := by
      rw [handler_step (setDelivery_self _ _ _)]
      exact congrArg some (setDelivery_setDelivery { t with queues := _ } _ _ _)
    exact .head rfl hstep (.head rfl hpublish (ack_runs { t with queues := t.queues.publish p }))

theorem handledIn_setDelivery {t' : SystemState} {queues : Queues} {x : Delivery}
    (hdeliveries : t'.deliveries = Function.update t.deliveries d (some x))
    (hacked : x.unacked = false) (hqueues : t'.queues = queues) (hw : WorldOf o t'.process w)
    (hcalls : ∀ j, j ≠ d → t'.process.calls j = t.process.calls j) :
    HandledIn o t d queues w t' :=
  ⟨hqueues, hw,
    fun y hy => by
      rw [hdeliveries, Function.update_self, Option.some_inj] at hy
      exact hy ▸ hacked,
    fun j hj => by rw [hdeliveries, Function.update_of_ne hj], hcalls⟩

/-- A delivered message is handled as the consumer alone handles it. -/
theorem handler_runs (webhook : WebhookSettings) (hd : t.deliveries d = some ⟨m, true, .received⟩)
    (hc : t.process.calls d = none) (hw : WorldOf o t.process w) :
    ∃ t', (system cmd draw batchSize settings).Reaches (·.isUndisturbed) t t'
      ∧ HandledIn o t d
        (afterHandler t.queues m
          (handlePaymentCreated settings (processPayment webhook o) m w).2)
        (handlePaymentCreated settings (processPayment webhook o) m w).1 t' := by
  rcases hstart : handlerStart m with e | ⟨id, attempt⟩
  · have hstep : (system cmd draw batchSize settings).step t (.handler d .start) =
        some (t.setDelivery d ⟨m, true, .raised e⟩) := by
      rw [handler_step hd]
      simp only [handlerStep, hstart]
    rw [handle_of_start_error hstart]
    exact ⟨_, .head rfl hstep (reject_runs t e), handledIn_setDelivery rfl rfl rfl hw
      fun _ _ => rfl⟩
  · set s := t.process.setCall d ⟨id, .get⟩ with hs
    set x : Delivery := ⟨m, true, .inUseCase attempt⟩ with hx
    have hstep : (system cmd draw batchSize settings).step t (.handler d .start) =
        some ({ t with process := s }.setDelivery d x) := by
      rw [handler_step hd]
      simp only [handlerStep, hstart, processStep, hc]
      rfl
    have hget : Stands o d t.process.calls s w ⟨id, .get⟩ :=
      ⟨⟨hw.payments, hw.charges, hw.accepted, hw.writes⟩, rfl⟩
    obtain ⟨s', pc, hruns, hstands, hends⟩ := processPayment_runs webhook hget
    set t₁ := { t with process := s' }.setDelivery d x with ht₁
    have hcall : (system cmd draw batchSize settings).Reaches (·.isUndisturbed)
        ({ t with process := s }.setDelivery d x) t₁ :=
      embed_call (setDelivery_self { t with process := s } d x) hruns
    rw [handle_of_start_ok hstart]
    refine ⟨_, .head rfl hstep (hcall.trans
      (useCaseEnds_runs (setDelivery_self _ d x) hstands.self hends)), ?_⟩
    refine handledIn_setDelivery (x := ⟨m, false, .returned⟩) ?_ rfl rfl hstands.world
      fun j hj => ?_
    · simp [ht₁, SystemState.setDelivery]
    · exact (congrFun hstands.calls j).trans (Function.update_of_ne hj _ _)

end

/-! ## The consumer -/

theorem consumer_scheduled : (system cmd draw batchSize settings).Schedules (·.isUndisturbed)
    (ConsumerAlone o) fun s s' => consumerStep settings (processPayment webhook o) s = some s' := by
  intro s s' t halone hstep
  cases consumerStep_trans hstep with
  | @handle m w result hm hhandle =>
    obtain ⟨N, hN⟩ := halone.fresh
    obtain ⟨hdeliveries, hcalls⟩ := hN N le_rfl
    set t₁ := { t with queues := t.queues.dequeue newQueue 0 }.setDelivery N ⟨m, true, .received⟩
      with ht₁
    have hdeliver : (system cmd draw batchSize settings).step t (.deliver N 0) = some t₁ := by
      rw [← halone.queues] at hm
      simp only [system, deliverStep, hdeliveries, hm, ht₁]
    obtain ⟨t', hruns, hhandled⟩ := handler_runs webhook
      (setDelivery_self { t with queues := t.queues.dequeue newQueue 0 } N ⟨m, true, .received⟩)
      hcalls halone.world
    rw [hhandle] at hhandled
    refine ⟨t', .head rfl hdeliver hruns, ?_, hhandled.world, fun d x hx => ?_, N + 1,
      fun d hd => ?_⟩
    · rw [hhandled.queues, ← halone.queues]
      rfl
    · by_cases hd : d = N
      · exact hhandled.acked x (hd ▸ hx)
      · rw [hhandled.deliveries d hd] at hx
        exact halone.acked d x ((Function.update_of_ne hd _ _).symm.trans hx)
    · rw [hhandled.deliveries d (by omega), hhandled.calls d (by omega)]
      exact ⟨(Function.update_of_ne (by omega) _ _).trans (hN d (by omega)).1, (hN d (by omega)).2⟩
  | @expire m hm =>
    rw [← halone.queues] at hm
    refine ⟨{ t with queues := (t.queues.dequeue retryQueue 0).deadLetter retryQueue m },
      .single (a := .expire 0) rfl ?_, ?_, halone.world, halone.acked, halone.fresh⟩
    · simp only [system, expireStep, hm, Option.map_some]
    · rw [← halone.queues]

theorem steps_of_consume {ω : Type} {useCase : UUID → ω → ω × Except PyError Unit} :
    ∀ {fuel : ℕ} {s s' : ConsumerState ω}, consume settings useCase fuel s = some s' →
      Relation.ReflTransGen (fun s s' => consumerStep settings useCase s = some s') s s'
  | 0, s, s', h => by
    unfold consume at h
    split_ifs at h
    obtain rfl := Option.some.inj h
    exact .refl
  | fuel + 1, s, s', h => by
    unfold consume at h
    rcases hs : consumerStep settings useCase s with _ | s₁ <;> rw [hs] at h
    · obtain rfl := Option.some.inj h
      exact .refl
    · exact .head hs (steps_of_consume h)

/-- A step in which only a consumer works leaves the relays and the requests as they are. -/
theorem undisturbed_step {t t' : SystemState} {a : SystemLabel} (ha : a.isUndisturbed = true)
    (h : (system cmd draw batchSize settings).step t a = some t') :
    t'.relay = t.relay ∧ t'.requests = t.requests := by
  cases a with
  | create i act | relay k act => cases ha
  | deliver d n =>
    simp only [system, deliverStep] at h
    split at h <;> cases h
    exact ⟨rfl, rfl⟩
  | handler d act =>
    obtain ⟨x, hx, h⟩ := Option.bind_eq_some_iff.1 h
    have htrans : SystemTrans cmd draw batchSize settings t (.handler d act) t' :=
      handlerStep_trans hx h
    cases htrans <;> exact ⟨rfl, rfl⟩
  | call d act =>
    have htrans : SystemTrans cmd draw batchSize settings t (.call d act) t' := callStep_trans h
    cases htrans
    exact ⟨rfl, rfl⟩
  | expire n =>
    obtain ⟨m, -, rfl⟩ := Option.map_eq_some_iff.1 h
    exact ⟨rfl, rfl⟩

theorem undisturbed_run {t t' : SystemState}
    (h : (system cmd draw batchSize settings).Reaches (·.isUndisturbed) t t') :
    t'.relay = t.relay ∧ t'.requests = t.requests :=
  h.keeps (I := fun u => u.relay = t.relay ∧ u.requests = t.requests)
    (fun _ _ _ ha hu hstep => ⟨(undisturbed_step ha hstep).1.trans hu.1,
      (undisturbed_step ha hstep).2.trans hu.2⟩) ⟨rfl, rfl⟩

/-- A consumer that works alone, from its queues and tables to the end, is one way the service can
go on from any state with the same queues and tables in which no handler is at work: a run without
a create request, a pass, a crash or a message taken back, after which the queues, the payments,
the charges and what the receivers accepted are what the consumer alone leaves, and the relays and
requests are where they were. -/
theorem consume_scheduled {s s' : ConsumerState World} {t : SystemState}
    (halone : ConsumerAlone o s t) {fuel : ℕ}
    (h : consume settings (processPayment webhook o) fuel s = some s') :
    ∃ as t', (∀ a ∈ as, a.isUndisturbed = true)
      ∧ (system cmd draw batchSize settings).run t as = some t' ∧ ConsumerAlone o s' t'
      ∧ t'.relay = t.relay ∧ t'.requests = t.requests := by
  obtain ⟨t', hreach, halone'⟩ := consumer_scheduled.run (steps_of_consume h) halone
  obtain ⟨hrelay, hrequests⟩ := undisturbed_run hreach
  obtain ⟨as, has, hrun⟩ := hreach
  exact ⟨as, t', has, hrun, halone', hrelay, hrequests⟩

/-- A service in which one message for `sampleRow` waits. -/
def waitingSystem : SystemState :=
  { SystemState.init with
    process := .init [sampleRow]
    queues := Queues.empty.enqueue [newQueue] firstAttempt }

/-- The receiver is up again for the second attempt, which does not charge. -/
theorem firstAttempt_scheduled : ∃ as t', sampleSystem.run waitingSystem as = some t'
    ∧ t'.process.charges.map Charge.paymentId = [sampleRow.id]
    ∧ t'.process.accepted.length = 1 := by
  have halone : ConsumerAlone lateReceiver (.init firstAttempt ⟨[sampleRow], [], []⟩)
      waitingSystem :=
    ⟨rfl, ⟨rfl, rfl, rfl, rfl⟩, by simp [waitingSystem, SystemState.init], 0, fun _ _ => ⟨rfl, rfl⟩⟩
  have h : (consume (.ofRetry 5 1) (processPayment ⟨2⟩ lateReceiver) 3
      (.init firstAttempt ⟨[sampleRow], [], []⟩)).map
        (fun s => (s.world.charges, (goodPosts lateReceiver.post s.world.posts).length)) =
      some ([sampleRow.id], 1) := by
    decide +kernel
  obtain ⟨s', hconsume, hs'⟩ := Option.map_eq_some_iff.1 h
  obtain ⟨hcharges, hposts⟩ := Prod.mk.inj hs'
  obtain ⟨as, t', -, hrun, halone', -, -⟩ := consume_scheduled halone hconsume
  refine ⟨as, t', hrun, halone'.world.charges.trans hcharges, ?_⟩
  rw [← hposts, ← halone'.world.accepted, List.length_map]

end PaymentService
