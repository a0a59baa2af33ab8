import PaymentService.Values
import PaymentService.Python.Time
import PaymentService.Python.Uuid

/-!
# The payment entity and its events

A payment is pending until it is marked once. Its two encodings are the `payment.created` event,
built from the payment before it is stored, and the webhook notification, built after the payment
was processed.
-/

namespace PaymentService

open Python

/-- A JSON value; a float is its 64 bits. -/
inductive Json
  | null
  | bool (b : Bool)
  | int (i : ℤ)
  | float (bits : BitVec 64)
  | str (s : String)
  | arr (items : List Json)
  | obj (fields : List (String × Json))

/-- A `dict[str, Any]` of JSON values, in insertion order. -/
abbrev Dict := List (String × Json)

/-! ## `Payment` -/

@[ext]
structure Payment where
  id : UUID
  amount : Amount
  currency : Currency
  description : String
  idempotencyKey : IdempotencyKey
  webhookUrl : WebhookUrl
  status : PaymentStatus
  createdAt : DateTime
  processedAt : Option DateTime
  metadata : Dict
  createdAt_aware : createdAt.isAware
  processedAt_aware : ∀ t ∈ processedAt, t.isAware

/-- `_ensure_aware`: the datetime itself, with what was checked. -/
def ensureAware (value : Raw DateTime) (fieldName : String) :
    Except PyError { t : DateTime // t.isAware } :=
  match value with
  | .other typeName =>
    .error (.domainError s!"{fieldName} должен быть datetime, передано {typeName}")
  | .value t =>
    if h : t.isAware then .ok ⟨t, h⟩
    else .error (.domainError s!"{fieldName} должен содержать таймзону")

@[simp]
theorem ensureAware_value {t : DateTime} (h : t.isAware) (fieldName : String) :
    ensureAware (.value t) fieldName = .ok ⟨t, h⟩ := by
  simp only [ensureAware, dif_pos h]

namespace Payment

/-- The dataclass constructor with `__post_init__`. -/
def new (id : UUID) (amount : Amount) (currency : Currency) (description : Raw String)
    (idempotencyKey : IdempotencyKey) (webhookUrl : WebhookUrl) (status : PaymentStatus)
    (createdAt : Raw DateTime) (processedAt : Option (Raw DateTime)) (metadata : Raw Dict) :
    Except PyError Payment :=
  match description with
  | .other typeName =>
    .error (.domainError s!"Описание платежа должно быть строкой, передано {typeName}")
  | .value description =>
    match metadata with
    | .other typeName =>
      .error (.domainError s!"Метаданные должны быть словарём, передано {typeName}")
    | .value metadata =>
      match ensureAware createdAt "created_at" with
      | .error e => .error e
      | .ok created =>
        match processedAt with
        | none => .ok ⟨id, amount, currency, description, idempotencyKey, webhookUrl, status,
            created, none, metadata, created.2, by simp⟩
        | some processedAt =>
          match ensureAware processedAt "processed_at" with
          | .error e => .error e
          | .ok processed => .ok ⟨id, amount, currency, description, idempotencyKey, webhookUrl,
              status, created, some processed, metadata, created.2, by simpa using processed.2⟩

/-- `Payment.create`: a pending payment. `uuid4` and `now` are what the calls of the same names
return if they are made. -/
def create (amount : Amount) (currency : Currency) (description : Raw String)
    (idempotencyKey : IdempotencyKey) (webhookUrl : WebhookUrl) (metadata : Option (Raw Dict))
    (paymentId : Option UUID) (createdAt : Option DateTime) (uuid4 : UUID) (now : ℤ) :
    Except PyError Payment :=
  new (paymentId.getD uuid4) amount currency description idempotencyKey webhookUrl .pending
    (.value (createdAt.getD (.utc now))) none (metadata.getD (.value []))

def isProcessed (p : Payment) : Bool := p.status.isFinal

/-- `_transition_to`; the payment is unchanged where it raises. -/
def transitionTo (p : Payment) (status : PaymentStatus) (processedAt : Option (Raw DateTime))
    (now : ℤ) : Except PyError Payment :=
  if p.status ≠ .pending then
    .error (.invalidStatusTransitionError (s!"Платёж {p.id.str} уже в статусе {p.status.value}, "
      ++ s!"перевод в {status.value} невозможен"))
  else
    match processedAt with
    | none => .ok { p with
        status := status
        processedAt := some (.utc now)
        processedAt_aware := by simp }
    | some processedAt =>
      match ensureAware processedAt "processed_at" with
      | .error e => .error e
      | .ok t => .ok { p with
          status := status
          processedAt := some t
          processedAt_aware := by simpa using t.2 }

def markSucceeded (p : Payment) (processedAt : Option (Raw DateTime)) (now : ℤ) :
    Except PyError Payment :=
  p.transitionTo .succeeded processedAt now

def markFailed (p : Payment) (processedAt : Option (Raw DateTime)) (now : ℤ) :
    Except PyError Payment :=
  p.transitionTo .failed processedAt now

/-- A payment marked without a time is the pending payment with a final status and the time. -/
theorem transitionTo_now {p q : Payment} {status : PaymentStatus} {now : ℤ}
    (h : p.transitionTo status none now = .ok q) : p.status = .pending ∧ q = { p with
      status := status
      processedAt := some (.utc now)
      processedAt_aware := by simp } := by
  unfold transitionTo at h
  split_ifs at h with hp
  · exact ⟨not_not.1 hp, (Except.ok.inj h).symm⟩

theorem transitionTo_pending {p : Payment} (hp : p.status = .pending) (status : PaymentStatus)
    (now : ℤ) : p.transitionTo status none now = .ok { p with
      status := status
      processedAt := some (.utc now)
      processedAt_aware := by simp } := by
  unfold transitionTo
  rw [if_neg (not_not.2 hp)]

/-- Whatever time it is marked with, a marked payment was pending and now has a time. -/
theorem transitionTo_ok {p q : Payment} {status : PaymentStatus}
    {processedAt : Option (Raw DateTime)} {now : ℤ}
    (h : p.transitionTo status processedAt now = .ok q) :
    p.status = .pending ∧ q.status = status ∧ q.processedAt ≠ none ∧ q.amount = p.amount := by
  unfold transitionTo at h
  split_ifs at h with hp
  rcases processedAt with _ | value
  · cases h
    exact ⟨not_not.1 hp, rfl, Option.some_ne_none _, rfl⟩
  · rcases ht : ensureAware value "processed_at" with e | t <;> simp only [ht] at h <;> cases h
    exact ⟨not_not.1 hp, rfl, Option.some_ne_none _, rfl⟩

end Payment

/-! ## Events -/

def PAYMENT_CREATED : String := "payment.created"

structure OutboxMessage where
  aggregateId : UUID
  eventType : String
  payload : Dict
  id : UUID

/-- `payment_created`; the message's own id is drawn by `uuid4`. -/
def paymentCreated (payment : Payment) (uuid4 : UUID) : OutboxMessage where
  aggregateId := payment.id
  eventType := PAYMENT_CREATED
  payload :=
    [("payment_id", .str payment.id.str),
      ("amount", .str (Decimal.finite payment.amount.value).str),
      ("currency", .str payment.currency.value),
      ("webhook_url", .str payment.webhookUrl.value),
      ("idempotency_key", .str payment.idempotencyKey.value)]
  id := uuid4

/-- `webhook_payload`. -/
def webhookPayload (payment : Payment) : Dict :=
  [("payment_id", .str payment.id.str),
    ("status", .str payment.status.value),
    ("amount", .str (Decimal.finite payment.amount.value).str),
    ("currency", .str payment.currency.value),
    ("description", .str payment.description),
    ("metadata", .obj payment.metadata),
    ("created_at", .str payment.createdAt.isoformat),
    ("processed_at", (payment.processedAt.map fun t => .str t.isoformat).getD .null)]

end PaymentService
