import PaymentService.System
import PaymentService.Proofs.RequestSteps
import PaymentService.Proofs.ProcessInv
import PaymentService.Proofs.RelayInv

/-!
# What a step of the service does

Every step of `system` is one of the cases of `SystemTrans`. Seen from the use case of processing it
is a step of `processMachine` or nothing, seen from the relay a step of `relayMachine` or nothing
(`SystemTrans.process`, `SystemTrans.relay`), so the invariants of the two hold of the whole service
(`systemInv_run`).
-/

namespace PaymentService

open Python Labelled

variable {cmd : ℕ → CreatePaymentCommand} {draw : ℕ → Draw} {batchSize : ℕ → ℕ}
  {settings : RabbitSettings}

/-- The steps of `system`, one case for each thing that can happen. -/
inductive SystemTrans (cmd : ℕ → CreatePaymentCommand) (draw : ℕ → Draw) (batchSize : ℕ → ℕ)
    (settings : RabbitSettings) (s : SystemState) : SystemLabel → SystemState → Prop
  | request {i : ℕ} {act : CreateAct} {r : Request}
    (h : createStep (cmd i) (draw i) s.db (s.requests i) act = some (s.db, r)) :
    SystemTrans cmd draw batchSize settings s (.create i act) (s.setRequest i r)
  | created {i : ℕ} {payment : Payment} {row : PaymentRow} {message : OutboxRow}
    (hpc : (s.requests i).pc = .commit payment)
    (h : Inserted (cmd i) (draw i) s.db payment row message
      ⟨s.process.payments ++ [row], s.relay.outbox ++ [message]⟩) :
    SystemTrans cmd draw batchSize settings s (.create i .next)
      ((s.setDb ⟨s.process.payments ++ [row], s.relay.outbox ++ [message]⟩).setRequest i
        ⟨.reply (.ok ⟨payment, true⟩), .empty⟩)
  | pass {k : ℕ} {act : PassAct} {relay : RelayState}
    (h : passStep batchSize s.relay k act = some relay) :
    SystemTrans cmd draw batchSize settings s (.relay k act)
      { s with relay := relay, queues := queuesAfterPass s.queues (s.relay.passes k) act }
  | deliver {d n : ℕ} {m : Message} (hd : s.deliveries d = none)
    (hm : (s.queues newQueue)[n]? = some m) :
    SystemTrans cmd draw batchSize settings s (.deliver d n)
      ({ s with queues := s.queues.dequeue newQueue n }.setDelivery d ⟨m, true, .received⟩)
  | refuse {d : ℕ} {x : Delivery} {e : PyError} (hx : s.deliveries d = some x)
    (hpc : x.pc = .received) (hstart : handlerStart x.message = .error e) :
    SystemTrans cmd draw batchSize settings s (.handler d .start)
      (s.setDelivery d { x with pc := .raised e })
  | begin {d : ℕ} {x : Delivery} {id : UUID} {attempt : ℤ} {process : ProcessState}
    (hx : s.deliveries d = some x) (hpc : x.pc = .received)
    (hstart : handlerStart x.message = .ok (id, attempt))
    (h : processStep s.process d (.begin id) = some process) :
    SystemTrans cmd draw batchSize settings s (.handler d .start)
      ({ s with process := process }.setDelivery d { x with pc := .inUseCase attempt })
  | useCaseEnds {d : ℕ} {x : Delivery} {attempt : ℤ} {c : ProcessCall}
    {closeError : Option PyError} {pc : HandlerPc} (hx : s.deliveries d = some x)
    (hpc : x.pc = .inUseCase attempt) (hc : s.process.calls d = some c)
    (h : afterUseCase settings x.message attempt closeError c.pc = some pc) :
    SystemTrans cmd draw batchSize settings s (.handler d (.useCaseEnds closeError))
      (s.setDelivery d { x with pc := pc })
  | publish {d : ℕ} {x : Delivery} {p : Publish} {outcome : PublishOutcome}
    (hx : s.deliveries d = some x) (hpc : x.pc = .onFailure p) :
    SystemTrans cmd draw batchSize settings s (.handler d (.publish outcome))
      ({ s with
        queues := if outcome.isAccepted then s.queues.publish p else s.queues }.setDelivery d
        { x with pc := afterPublish outcome })
  | ack {d : ℕ} {x : Delivery} (hx : s.deliveries d = some x) (hpc : x.pc = .returned)
    (hunacked : x.unacked = true) :
    SystemTrans cmd draw batchSize settings s (.handler d .settle)
      (s.setDelivery d { x with unacked := false })
  | reject {d : ℕ} {x : Delivery} {e : PyError} (hx : s.deliveries d = some x)
    (hpc : x.pc = .raised e) (hunacked : x.unacked = true) :
    SystemTrans cmd draw batchSize settings s (.handler d .settle)
      ({ s with queues := s.queues.deadLetter newQueue x.message }.setDelivery d
        { x with unacked := false })
  | crash {d : ℕ} {x : Delivery} (hx : s.deliveries d = some x) :
    SystemTrans cmd draw batchSize settings s (.handler d .crash)
      ({ s with process := (processStep s.process d .kill).getD s.process }.setDelivery d
        { x with pc := .dead })
  | takeBack {d : ℕ} {x : Delivery} (hx : s.deliveries d = some x) (hunacked : x.unacked = true) :
    SystemTrans cmd draw batchSize settings s (.handler d .takeBack)
      ({ s with queues := s.queues.enqueue [newQueue] x.message }.setDelivery d
        { x with unacked := false })
  | call {d : ℕ} {act : ProcessAct} {x : Delivery} {attempt : ℤ} {process : ProcessState}
    (hx : s.deliveries d = some x) (hpc : x.pc = .inUseCase attempt)
    (h : processStep s.process d act = some process) :
    SystemTrans cmd draw batchSize settings s (.call d act) { s with process := process }
  | expire {n : ℕ} {m : Message} (hm : (s.queues retryQueue)[n]? = some m) :
    SystemTrans cmd draw batchSize settings s (.expire n)
      { s with queues := (s.queues.dequeue retryQueue n).deadLetter retryQueue m }

/-- What a step of the service is for the calls of the use case. -/
inductive SeenAs : SystemLabel → ProcessLabel → Prop
  | create (i : ℕ) {row : PaymentRow} (h : row.status = .pending) :
    SeenAs (.create i .next) (.insert row)
  | begin (d : ℕ) (id : UUID) : SeenAs (.handler d .start) (.call d (.begin id))
  | kill (d : ℕ) : SeenAs (.handler d .crash) (.call d .kill)
  | call (d : ℕ) (act : ProcessAct) : SeenAs (.call d act) (.call d act)

section

variable {s s' : SystemState}

theorem createSystemStep_trans {i : ℕ} {act : CreateAct}
    (hok : RequestOk (cmd i) (draw i) (s.requests i))
    (h : createSystemStep cmd draw s i act = some s') :
    SystemTrans cmd draw batchSize settings s (.create i act) s' := by
  obtain ⟨⟨db, r⟩, hstep, rfl⟩ := Option.map_eq_some_iff.1 h
  rcases (requestStepOk hok hstep).unchanged with
    rfl | ⟨payment, row, message, rfl, hpc, rfl, hinserted⟩
  · exact .request hstep
  · obtain rfl := hinserted.db
    exact .created hpc hinserted

theorem callStep_trans {d : ℕ} {act : ProcessAct} (h : callStep s d act = some s') :
    SystemTrans cmd draw batchSize settings s (.call d act) s' := by
  unfold callStep at h
  split at h
  · cases h
  · cases h
  · split at h
    · rename_i hx
      obtain ⟨process, hstep, rfl⟩ := Option.map_eq_some_iff.1 h
      exact .call hx rfl hstep
    · cases h

theorem handlerStep_trans {d : ℕ} {x : Delivery} {act : HandlerAct}
    (hx : s.deliveries d = some x) (h : handlerStep settings s d x act = some s') :
    SystemTrans cmd draw batchSize settings s (.handler d act) s' := by
  cases act with
  | start =>
    simp only [handlerStep] at h
    split at h
    · rename_i hpc
      split at h
      · rename_i hstart
        cases h
        exact .refuse hx hpc hstart
      · rename_i hstart
        obtain ⟨process, hstep, rfl⟩ := Option.map_eq_some_iff.1 h
        exact .begin hx hpc hstart hstep
    · cases h
  | useCaseEnds closeError =>
    simp only [handlerStep] at h
    split at h
    · rename_i hpc hc
      obtain ⟨pc, hafter, rfl⟩ := Option.map_eq_some_iff.1 h
      exact .useCaseEnds hx hpc hc hafter
    · cases h
  | publish outcome =>
    simp only [handlerStep] at h
    split at h
    · rename_i hpc
      cases h
      exact .publish hx hpc
    · cases h
  | settle =>
    simp only [handlerStep] at h
    split at h
    · rename_i hpc hunacked
      cases h
      exact .ack hx hpc hunacked
    · rename_i hpc hunacked
      cases h
      exact .reject hx hpc hunacked
    · cases h
  | crash =>
    simp only [handlerStep] at h
    split at h <;> cases h
    exact .crash hx
  | takeBack =>
    simp only [handlerStep] at h
    split_ifs at h with hunacked
    cases h
    exact .takeBack hx hunacked

theorem system_trans (hok : ∀ i, RequestOk (cmd i) (draw i) (s.requests i)) {a : SystemLabel}
    (h : (system cmd draw batchSize settings).step s a = some s') :
    SystemTrans cmd draw batchSize settings s a s' := by
  cases a with
  | create i act => exact createSystemStep_trans (hok i) h
  | relay k act =>
    obtain ⟨relay, hstep, rfl⟩ := Option.map_eq_some_iff.1 h
    exact .pass hstep
  | deliver d n =>
    simp only [system, deliverStep] at h
    split at h
    · rename_i hd hm
      cases h
      exact .deliver hd hm
    · cases h
  | handler d act =>
    obtain ⟨x, hx, h⟩ := Option.bind_eq_some_iff.1 h
    exact handlerStep_trans hx h
  | call d act => exact callStep_trans h
  | expire n =>
    obtain ⟨m, hm, rfl⟩ := Option.map_eq_some_iff.1 h
    exact .expire hm

theorem call_process {d : ℕ} {act : ProcessAct}
    (h : (system cmd draw batchSize settings).step s (.call d act) = some s') :
    processMachine.step s.process (.call d act) = some s'.process := by
  have htrans : SystemTrans cmd draw batchSize settings s (.call d act) s' := callStep_trans h
  cases htrans with
  | call hx hpc hstep => exact hstep

/-- A step of the service as the calls of the use case see it. -/
theorem SystemTrans.process {a : SystemLabel} (h : SystemTrans cmd draw batchSize settings s a s') :
    s'.process = s.process
      ∨ ∃ b, SeenAs a b ∧ processMachine.step s.process b = some s'.process := by
  cases h with
  | @created i payment row message hpc h =>
    have hstatus : row.status = .pending :=
      h.rowOf.status.trans (buildPayment_ok h.built).2.1
    have hid : s.process.payments.any (fun r => r.id = row.id) = false := by
      simpa [SystemState.db] using h.id
    refine .inr ⟨.insert row, .create i hstatus, ?_⟩
    simp only [processMachine, hid, Bool.false_eq_true, if_false]
    rfl
  | @begin d x id attempt process hx hpc hstart h => exact .inr ⟨_, .begin d id, h⟩
  | @crash d x hx =>
    rcases hk : processStep s.process d .kill with _ | process
    · exact .inl rfl
    · exact .inr ⟨_, .kill d, hk⟩
  | @call d act x attempt process hx hpc h => exact .inr ⟨_, .call d act, h⟩
  | _ => exact .inl rfl

/-- A step of the service as the relays see it. -/
theorem SystemTrans.relay {a : SystemLabel} (h : SystemTrans cmd draw batchSize settings s a s') :
    s'.relay = s.relay
      ∨ (∃ i row, a = .create i .next
          ∧ (relayMachine batchSize).step s.relay (.insert row) = some s'.relay)
      ∨ ∃ k act, a = .relay k act
          ∧ (relayMachine batchSize).step s.relay (.pass k act) = some s'.relay := by
  cases h with
  | @created i payment row message hpc h =>
    have hnew : message.publishedAt = none := by rw [messageToRow_ok h.event]
    have hid : s.relay.outbox.any (fun r => r.id = message.id) = false := by
      simpa [SystemState.db] using h.messageId
    refine .inr (.inl ⟨i, message, rfl, ?_⟩)
    simp only [relayMachine, hnew, hid]
    rfl
  | pass h => exact .inr (.inr ⟨_, _, rfl, h⟩)
  | _ => exact .inl rfl

end

/-! ## The invariants -/

structure SystemInv (cmd : ℕ → CreatePaymentCommand) (draw : ℕ → Draw) (s : SystemState) :
    Prop where
  requests : ∀ i, RequestOk (cmd i) (draw i) (s.requests i)
  process : ProcessInv s.process
  relay : RelayInv s.relay

theorem systemInv_init : SystemInv cmd draw .init where
  requests _ := requestOk_start
  process := processInv_init List.nodup_nil
  relay := relayInv_init List.nodup_nil

theorem requestOk_setRequest {s : SystemState} {i : ℕ} {r : Request}
    (hok : ∀ i, RequestOk (cmd i) (draw i) (s.requests i)) (hr : RequestOk (cmd i) (draw i) r) :
    ∀ j, RequestOk (cmd j) (draw j) ((s.setRequest i r).requests j) := by
  intro j
  by_cases hj : j = i
  · subst hj
    simpa [SystemState.setRequest] using hr
  · simpa [SystemState.setRequest, hj] using hok j

theorem systemInv_step {s s' : SystemState} {a : SystemLabel} (hinv : SystemInv cmd draw s)
    (h : (system cmd draw batchSize settings).step s a = some s') : SystemInv cmd draw s' := by
  have htrans := system_trans hinv.requests h
  refine ⟨?_, ?_, ?_⟩
  · cases htrans with
    | request hstep =>
      exact requestOk_setRequest hinv.requests (requestStepOk (hinv.requests _) hstep).ok
    | created hpc hinserted =>
      exact requestOk_setRequest (s := s.setDb _) hinv.requests (requestOk_reply _ _)
    | _ => exact hinv.requests
  · rcases htrans.process with he | ⟨b, -, h⟩
    · rw [he]
      exact hinv.process
    · exact processInv_step hinv.process h
  · rcases htrans.relay with he | ⟨_, _, _, h⟩ | ⟨_, _, _, h⟩
    · rw [he]
      exact hinv.relay
    all_goals exact relayInv_step hinv.relay h

theorem systemInv_run {s : SystemState}
    (h : (system cmd draw batchSize settings).Reachable .init s) : SystemInv cmd draw s :=
  h.inv (fun _ _ _ => systemInv_step) systemInv_init

/-! ## A run -/

def sampleSystem : Machine SystemState SystemLabel :=
  system (fun _ => sampleCommand) (fun _ => sampleDraw) (fun _ => 10) (.ofRetry 5 1)

/-- A payment on its way from the request to the webhook. -/
def sampleLabels : List SystemLabel :=
  List.replicate 6 (.create 0 .next) ++
    [.relay 0 (.lock [2]), .relay 0 (.publish (.published 1)), .relay 0 .commit,
      .deliver 0 0, .handler 0 .start, .call 0 .next, .call 0 .next, .call 0 (.answer true 2),
      .call 0 .next, .call 0 .next, .call 0 .next, .call 0 .next, .handler 0 (.useCaseEnds none),
      .handler 0 .settle]

theorem sampleLabels_run : ∃ s, sampleSystem.run .init sampleLabels = some s
    ∧ s.process.payments.map PaymentRow.status = [.succeeded] := by
  have h : (sampleSystem.run .init sampleLabels).map
      (fun s => s.process.payments.map PaymentRow.status) = some [.succeeded] := by
    decide +kernel
  exact Option.map_eq_some_iff.1 h

end PaymentService
