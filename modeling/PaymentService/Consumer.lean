import PaymentService.ProcessPayment
import PaymentService.Retry

/-!
# The consumer

A message is handled by running the use case in a session of its own; a failure is published again
by the retry policy, and either way the handler returns and the message is acknowledged. Only what
is raised before the use case, or by the retry policy, leaves the handler, and then the message is
rejected. Here one consumer works alone: the use case runs to its end, and every call to the
gateway, the database and the broker succeeds.
-/

namespace PaymentService

open Python

/-! ## `HttpxWebhookSender` -/

/-- How one POST ends: with a good response, with an error of `httpx`, or with another one. -/
inductive PostOutcome
  | ok
  | httpxError (error : PyError)
  | raised (error : PyError)

structure WebhookSettings where
  maxAttempts : ℤ

/-- A request a receiver got. -/
structure Post where
  url : String
  payload : Dict

/-- The tries of `send` when `left` more may follow; `post n` is how the `n`-th POST ends. -/
def sendTries (post : ℕ → PostOutcome) (url : String) (payload : Dict) (exhausted : PyError) :
    ℕ → List Post → List Post × Except PyError Unit
  | left, posts =>
    match post posts.length with
    | .ok => (posts ++ [⟨url, payload⟩], .ok ())
    | .raised e => (posts ++ [⟨url, payload⟩], .error e)
    | .httpxError _ =>
      match left with
      | 0 => (posts ++ [⟨url, payload⟩], .error exhausted)
      | left + 1 => sendTries post url payload exhausted left (posts ++ [⟨url, payload⟩])

/-- `send`: the first try, and as many more as `stop_after_attempt` allows. -/
def send (settings : WebhookSettings) (post : ℕ → PostOutcome) (url : String) (payload : Dict)
    (posts : List Post) : List Post × Except PyError Unit :=
  sendTries post url payload (.webhookDeliveryError
    s!"Уведомление на {url} не доставлено за {settings.maxAttempts} попыток")
    (settings.maxAttempts - 1).toNat posts

/-! ## `ProcessPaymentUseCase` alone -/

/-- What a call acts on. -/
structure World where
  payments : List PaymentRow
  charges : List UUID
  posts : List Post

/-- What the `n`-th charge is answered and when it is marked, and how the `n`-th POST ends. -/
structure Outside where
  gateway : ℕ → Bool
  now : ℕ → ℤ
  post : ℕ → PostOutcome

/-- The table after the COMMIT of one changed row. -/
def replaceRow (payments : List PaymentRow) (row : PaymentRow) : List PaymentRow :=
  payments.map fun r => if r.id = row.id then row else r

/-- `_charge`. -/
def chargePayment (o : Outside) (w : World) (payment : Payment) : World × Except PyError Payment :=
  let n := w.charges.length
  let w := { w with charges := w.charges ++ [payment.id] }
  match if o.gateway n then payment.markSucceeded none (o.now n)
    else payment.markFailed none (o.now n) with
  | .error e => (w, .error e)
  | .ok payment =>
    match PaymentRepository.updateStatus w.payments payment with
    | .error e => (w, .error e)
    | .ok (some row) => ({ w with payments := replaceRow w.payments row }, .ok payment)
    | .ok none =>
      (w, (PaymentRepository.get w.payments payment.id).map fun current => current.getD payment)

/-- The notification at the end of a call. -/
def notify (settings : WebhookSettings) (o : Outside) (w : World) (payment : Payment) :
    World × Except PyError Unit :=
  let x := send settings o.post payment.webhookUrl.value (webhookPayload payment) w.posts
  ({ w with posts := x.1 }, x.2)

/-- `ProcessPaymentUseCase.__call__`. -/
def processPayment (settings : WebhookSettings) (o : Outside) (paymentId : UUID) (w : World) :
    World × Except PyError Unit :=
  match PaymentRepository.get w.payments paymentId with
  | .error e => (w, .error e)
  | .ok none => (w, .error (.paymentNotFoundError s!"Платёж {paymentId.str} не найден"))
  | .ok (some payment) =>
    if payment.isProcessed then notify settings o w payment
    else
      match chargePayment o w payment with
      | (w, .error e) => (w, .error e)
      | (w, .ok payment) => notify settings o w payment

/-! ## `handle_payment_created` -/

/-- `UUID(payload["payment_id"])`. -/
def paymentIdOf (payload : Dict) : Except PyError UUID :=
  match payload.lookup "payment_id" with
  | none => .error (.keyError "'payment_id'")
  | some (.str text) => (UUID.ofText text).mapError .valueError
  | some .null => .error (.typeError
      "one of the hex, bytes, bytes_le, fields, or int arguments must be given")
  | some (.bool _) => .error (.attributeError "'bool' object has no attribute 'replace'")
  | some (.int _) => .error (.attributeError "'int' object has no attribute 'replace'")
  | some (.float _) => .error (.attributeError "'float' object has no attribute 'replace'")
  | some (.arr _) => .error (.attributeError "'list' object has no attribute 'replace'")
  | some (.obj _) => .error (.attributeError "'dict' object has no attribute 'replace'")

/-- The handler with the use case it runs: what it publishes if it returns. -/
def handlePaymentCreated {ω : Type} (settings : RabbitSettings)
    (useCase : UUID → ω → ω × Except PyError Unit) (m : Message) (w : ω) :
    ω × Except PyError (Option Publish) :=
  match paymentIdOf m.payload with
  | .error e => (w, .error e)
  | .ok paymentId =>
    match attemptOf m.headers with
    | .error e => (w, .error e)
    | .ok attempt =>
      match useCase paymentId w with
      | (w, .ok ()) => (w, .ok none)
      | (w, .error e) => (w, .ok (some (onFailure settings m.payload attempt e)))

/-! ## The queue at work -/

/-- A run of the handler: its message, what it acted on before and after, and how it ended. -/
structure HandlerRun (ω : Type) where
  message : Message
  before : ω
  after : ω
  result : Except PyError (Option Publish)

structure ConsumerState (ω : Type) where
  queues : Queues
  world : ω
  runs : List (HandlerRun ω)

/-- The publishes of the runs so far. -/
def ConsumerState.published {ω : Type} (s : ConsumerState ω) : List Publish :=
  s.runs.filterMap fun r => r.result.toOption.join

/-- The queues after a handler ended: an acknowledged message is gone, a rejected one is a dead
letter of `payments.new`. -/
def afterHandler (queues : Queues) (m : Message) : Except PyError (Option Publish) → Queues
  | .error _ => queues.deadLetter newQueue m
  | .ok none => queues
  | .ok (some p) => queues.publish p

/-- The next message of `payments.new` is handled; when there is none, one of `payments.retry`
expires. -/
def consumerStep {ω : Type} (settings : RabbitSettings)
    (useCase : UUID → ω → ω × Except PyError Unit) (s : ConsumerState ω) :
    Option (ConsumerState ω) :=
  match s.queues newQueue with
  | m :: _ =>
    let x := handlePaymentCreated settings useCase m s.world
    some ⟨afterHandler (s.queues.dequeue newQueue 0) m x.2, x.1, s.runs ++ [⟨m, s.world, x.1, x.2⟩]⟩
  | [] =>
    match s.queues retryQueue with
    | m :: _ => some { s with
        queues := (s.queues.dequeue retryQueue 0).deadLetter retryQueue m }
    | [] => none

/-- The consumer until nothing is left to do; `none` when the steps do not suffice. -/
def consume {ω : Type} (settings : RabbitSettings)
    (useCase : UUID → ω → ω × Except PyError Unit) :
    ℕ → ConsumerState ω → Option (ConsumerState ω)
  | 0, s => if (consumerStep settings useCase s).isNone then some s else none
  | fuel + 1, s =>
    match consumerStep settings useCase s with
    | none => some s
    | some s' => consume settings useCase fuel s'

/-- One message in `payments.new` and nothing anywhere else. -/
def ConsumerState.init {ω : Type} (m : Message) (w : ω) : ConsumerState ω :=
  ⟨Queues.empty.enqueue [newQueue] m, w, []⟩

end PaymentService
