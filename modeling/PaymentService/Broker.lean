import PaymentService.Payment
import Mathlib.Data.Rat.Defs

/-!
# The broker's topology

Exchanges are direct: a message goes to the queues bound with its routing key. A queue with a dead
letter exchange sends there what was rejected or has expired. The four routes the service relies on
are computed from the declarations.
-/

namespace PaymentService

open Python

/-! ## Messages -/

/-- A field of an AMQP header table; a double is its 64 bits. -/
inductive HeaderValue
  | void
  | bool (b : Bool)
  | int (i : ℤ)
  | double (bits : BitVec 64)
  | decimal (d : SciDecimal)
  | str (s : String)
  | bytes (bs : List (BitVec 8))
  | timestamp (seconds : ℤ)
  | array (items : List HeaderValue)
  | table (fields : List (String × HeaderValue))

abbrev Headers := List (String × HeaderValue)

/-- A message with a JSON object as its body; `expiration` is in seconds. -/
structure Message where
  payload : Dict
  headers : Headers
  messageId : Option String
  expiration : Option ℚ

/-! ## Declarations -/

def PAYMENTS_EXCHANGE_NAME : String := "payments"
def DLX_EXCHANGE_NAME : String := "payments.dlx"

def NEW_ROUTING_KEY : String := "payment.new"
def RETRY_ROUTING_KEY : String := "payment.retry"
def DEAD_ROUTING_KEY : String := "payment.dead"

/-- A durable direct exchange. -/
structure RabbitExchange where
  name : String
deriving DecidableEq

/-- A durable queue, with its `x-message-ttl` and its dead letter exchange and routing key. -/
structure RabbitQueue where
  name : String
  routingKey : String
  messageTtl : Option ℕ
  deadLetter : Option (String × String)
deriving DecidableEq

def paymentsExchange : RabbitExchange := ⟨PAYMENTS_EXCHANGE_NAME⟩
def dlxExchange : RabbitExchange := ⟨DLX_EXCHANGE_NAME⟩

def newQueue : RabbitQueue :=
  ⟨"payments.new", NEW_ROUTING_KEY, none, some (DLX_EXCHANGE_NAME, DEAD_ROUTING_KEY)⟩

def dlqQueue : RabbitQueue := ⟨"payments.dlq", DEAD_ROUTING_KEY, none, none⟩

def RETRY_QUEUE_TTL_MS : ℕ := 24 * 60 * 60 * 1000

def retryQueue : RabbitQueue :=
  ⟨"payments.retry", RETRY_ROUTING_KEY, some RETRY_QUEUE_TTL_MS,
    some (PAYMENTS_EXCHANGE_NAME, NEW_ROUTING_KEY)⟩

structure Binding where
  queue : RabbitQueue
  exchange : RabbitExchange
  routingKey : String

/-- The bindings `declare_topology` makes. -/
def declareTopology : List Binding :=
  [⟨newQueue, paymentsExchange, NEW_ROUTING_KEY⟩,
    ⟨retryQueue, dlxExchange, RETRY_ROUTING_KEY⟩,
    ⟨dlqQueue, dlxExchange, DEAD_ROUTING_KEY⟩]

/-! ## Routing -/

def route (exchange routingKey : String) : List RabbitQueue :=
  (declareTopology.filter fun b =>
    b.exchange.name = exchange ∧ b.routingKey = routingKey).map Binding.queue

/-- Where a queue sends its dead letters. -/
def deadLetter (q : RabbitQueue) : List RabbitQueue :=
  match q.deadLetter with
  | none => []
  | some (exchange, routingKey) => route exchange routingKey

theorem route_new : route paymentsExchange.name NEW_ROUTING_KEY = [newQueue] := by decide

theorem route_retry : route dlxExchange.name RETRY_ROUTING_KEY = [retryQueue] := by decide

theorem route_dead : route dlxExchange.name DEAD_ROUTING_KEY = [dlqQueue] := by decide

theorem deadLetter_new : deadLetter newQueue = [dlqQueue] := by decide

theorem deadLetter_retry : deadLetter retryQueue = [newQueue] := by decide

/-! ## Queues -/

abbrev Queues := RabbitQueue → List Message

namespace Queues

def empty : Queues := fun _ => []

/-- A message at the end of each queue it was routed to. -/
def enqueue (queues : Queues) (targets : List RabbitQueue) (m : Message) : Queues :=
  fun q => if q ∈ targets then queues q ++ [m] else queues q

/-- A queue without its `n`-th message. -/
def dequeue (queues : Queues) (q : RabbitQueue) (n : ℕ) : Queues :=
  Function.update queues q ((queues q).eraseIdx n)

end Queues

/-- A message passed to `broker.publish`. -/
structure Publish where
  exchange : String
  routingKey : String
  message : Message

def Queues.publish (queues : Queues) (p : Publish) : Queues :=
  queues.enqueue (route p.exchange p.routingKey) p.message

/-- A dead letter keeps its body and headers and loses its expiration. -/
def Queues.deadLetter (queues : Queues) (q : RabbitQueue) (m : Message) : Queues :=
  queues.enqueue (PaymentService.deadLetter q) { m with expiration := none }

/-- `RabbitEventPublisher.publish`. -/
def eventMessage (messageId : UUID) (eventType : String) (payload : Dict) : Publish :=
  ⟨paymentsExchange.name, NEW_ROUTING_KEY,
    ⟨payload, [("x-event-type", .str eventType)], some messageId.str, none⟩⟩

end PaymentService
