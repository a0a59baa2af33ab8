import PaymentService.CreatePayment
import PaymentService.OutboxRelay
import PaymentService.Consumer

/-!
# The service as a whole

Create requests, relay passes and deliveries to consumers interleave over the two tables and the
queues. A delivery has the handler that was started for it, and while the handler is in the use
case its call has the delivery's number. The broker may take an unacknowledged message back at any
time, and a handler that does not know goes on.
-/

namespace PaymentService

open Python Labelled

/-! ## Deliveries -/

/-- Where the handler of a delivery is. -/
inductive HandlerPc
  | received
  | inUseCase (attempt : ℤ)
  | onFailure (publish : Publish)
  | returned
  | raised (error : PyError)
  | dead

structure Delivery where
  message : Message
  unacked : Bool
  pc : HandlerPc

/-- The handler up to its `try`: the payment it starts a call for, if nothing raised. -/
def handlerStart (m : Message) : Except PyError (UUID × ℤ) :=
  match paymentIdOf m.payload with
  | .error e => .error e
  | .ok paymentId => (attemptOf m.headers).map fun attempt => (paymentId, attempt)

/-- The handler after the `async with`: the call and then the session's close may have raised. -/
def afterUseCase (settings : RabbitSettings) (m : Message) (attempt : ℤ)
    (closeError : Option PyError) : ProcessPc → Option HandlerPc
  | .returned =>
    match closeError with
    | none => some .returned
    | some e => some (.onFailure (onFailure settings m.payload attempt e))
  | .raised _ e => some (.onFailure (onFailure settings m.payload attempt (closeError.getD e)))
  | _ => none

/-- The handler after the retry policy's publish. -/
def afterPublish : PublishOutcome → HandlerPc
  | .published _ => .returned
  | .refused e | .unconfirmed e => .raised e

/-! ## State and steps -/

structure SystemState where
  requests : ℕ → Request
  process : ProcessState
  relay : RelayState
  queues : Queues
  deliveries : ℕ → Option Delivery

/-- What happens to the handler of a delivery: it runs up to its `try`, its use case ends, its
failure is published, it is acknowledged or rejected, its process dies, or the broker takes the
message back. -/
inductive HandlerAct
  | start
  | useCaseEnds (closeError : Option PyError)
  | publish (outcome : PublishOutcome)
  | settle
  | crash
  | takeBack

inductive SystemLabel
  | create (i : ℕ) (act : CreateAct)
  | relay (k : ℕ) (act : PassAct)
  | deliver (d n : ℕ)
  | handler (d : ℕ) (act : HandlerAct)
  | call (d : ℕ) (act : ProcessAct)
  | expire (n : ℕ)

namespace SystemState

def db (s : SystemState) : Db := ⟨s.process.payments, s.relay.outbox⟩

def setDb (s : SystemState) (db : Db) : SystemState :=
  { s with
    process := { s.process with payments := db.payments }
    relay := { s.relay with outbox := db.outbox } }

def setRequest (s : SystemState) (i : ℕ) (r : Request) : SystemState :=
  { s with requests := Function.update s.requests i r }

def setDelivery (s : SystemState) (d : ℕ) (x : Delivery) : SystemState :=
  { s with deliveries := Function.update s.deliveries d (some x) }

def init : SystemState :=
  ⟨fun _ => .start, .init [], .init [], .empty, fun _ => none⟩

end SystemState

/-- The queues after a pass's publish, if the broker accepts it. -/
def queuesAfterPass (queues : Queues) : PassPc → PassAct → Queues
  | .publishing _ (m :: _) _, .publish outcome =>
    if outcome.isAccepted then queues.publish (eventMessage m.id m.eventType m.payload) else queues
  | _, _ => queues

def relaySystemStep (batchSize : ℕ → ℕ) (s : SystemState) (k : ℕ) (act : PassAct) :
    Option SystemState :=
  (passStep batchSize s.relay k act).map fun relay =>
    { s with relay := relay, queues := queuesAfterPass s.queues (s.relay.passes k) act }

/-- What a call does while its handler is in the use case; it is begun and killed with the
handler. -/
def callStep (s : SystemState) (d : ℕ) : ProcessAct → Option SystemState
  | .begin _ | .kill => none
  | act =>
    match s.deliveries d with
    | some ⟨_, _, .inUseCase _⟩ =>
      (processStep s.process d act).map fun process => { s with process := process }
    | _ => none

def handlerStep (settings : RabbitSettings) (s : SystemState) (d : ℕ) (x : Delivery) :
    HandlerAct → Option SystemState
  | .start =>
    match x.pc with
    | .received =>
      match handlerStart x.message with
      | .error e => some (s.setDelivery d { x with pc := .raised e })
      | .ok (paymentId, attempt) =>
        (processStep s.process d (.begin paymentId)).map fun process =>
          { s with process := process }.setDelivery d { x with pc := .inUseCase attempt }
    | _ => none
  | .useCaseEnds closeError =>
    match x.pc, s.process.calls d with
    | .inUseCase attempt, some c =>
      (afterUseCase settings x.message attempt closeError c.pc).map fun pc =>
        s.setDelivery d { x with pc := pc }
    | _, _ => none
  | .publish outcome =>
    match x.pc with
    | .onFailure p => some ({ s with
        queues := if outcome.isAccepted then s.queues.publish p else s.queues }.setDelivery d
        { x with pc := afterPublish outcome })
    | _ => none
  | .settle =>
    match x.pc, x.unacked with
    | .returned, true => some (s.setDelivery d { x with unacked := false })
    | .raised _, true => some ({ s with
        queues := s.queues.deadLetter newQueue x.message }.setDelivery d
        { x with unacked := false })
    | _, _ => none
  | .crash =>
    match x.pc with
    | .dead => none
    | _ => some ({ s with process := (processStep s.process d .kill).getD s.process }.setDelivery d
        { x with pc := .dead })
  | .takeBack =>
    if x.unacked then
      some ({ s with queues := s.queues.enqueue [newQueue] x.message }.setDelivery d
        { x with unacked := false })
    else none

/-- The broker gives the `n`-th message of `payments.new` to a consumer. -/
def deliverStep (s : SystemState) (d n : ℕ) : Option SystemState :=
  match s.deliveries d, (s.queues newQueue)[n]? with
  | none, some m => some ({ s with queues := s.queues.dequeue newQueue n }.setDelivery d
      ⟨m, true, .received⟩)
  | _, _ => none

/-- The `n`-th message of `payments.retry` expires. -/
def expireStep (s : SystemState) (n : ℕ) : Option SystemState :=
  (s.queues retryQueue)[n]?.map fun m =>
    { s with queues := (s.queues.dequeue retryQueue n).deadLetter retryQueue m }

section

variable (cmd : ℕ → CreatePaymentCommand) (draw : ℕ → Draw) (batchSize : ℕ → ℕ)
  (settings : RabbitSettings)

def createSystemStep (s : SystemState) (i : ℕ) (act : CreateAct) : Option SystemState :=
  (createStep (cmd i) (draw i) s.db (s.requests i) act).map fun x =>
    (s.setDb x.1).setRequest i x.2

def system : Machine SystemState SystemLabel where
  step s
  | .create i act => createSystemStep cmd draw s i act
  | .relay k act => relaySystemStep batchSize s k act
  | .deliver d n => deliverStep s d n
  | .handler d act => (s.deliveries d).bind fun x => handlerStep settings s d x act
  | .call d act => callStep s d act
  | .expire n => expireStep s n

end

end PaymentService
