import PaymentService.Payment

/-!
# The tables, the mappers and the repositories

A row is what a table holds after its column types and CHECK constraints were applied, so a row
carries the constraints as fields. Storing converts a model to a row and raises where a column
cannot hold the value; loading gives back a model, with amounts at two places and times in UTC.
-/

namespace PaymentService

open Python

/-! ## Column types -/

def nul : Char := Char.ofNat 0

/-- What `text`, `varchar` and `jsonb` take of a string. -/
def textOk (s : String) : Bool := !s.toList.contains nul

def isFiniteFloat (bits : BitVec 64) : Bool := bits >>> 52 &&& 0x7FF#64 ≠ 0x7FF#64

mutual

/-- What `jsonb` takes. -/
def Json.storable : Json → Bool
  | .str s => textOk s
  | .float bits => isFiniteFloat bits
  | .arr items => itemsStorable items
  | .obj fields => fieldsStorable fields
  | _ => true

def itemsStorable : List Json → Bool
  | [] => true
  | x :: xs => x.storable && itemsStorable xs

def fieldsStorable : List (String × Json) → Bool
  | [] => true
  | (k, x) :: xs => textOk k && x.storable && fieldsStorable xs

end

def invalidText : PyError := .dataError "invalid byte sequence for encoding \"UTF8\": 0x00"

/-- A `varchar(n)` column cuts spaces beyond its length and refuses anything else there. -/
def varchar (n : ℕ) (s : String) : Except PyError String :=
  if !textOk s then .error invalidText
  else if s.length ≤ n then .ok s
  else if (s.toList.drop n).all (· = ' ') then .ok (String.ofList (s.toList.take n))
  else .error (.dataError s!"value too long for type character varying({n})")

def text (s : String) : Except PyError String :=
  if textOk s then .ok s else .error invalidText

/-- A `jsonb` column keeps a value, if not the order of its keys or the spelling of its numbers,
which nothing here reads. -/
def jsonb (d : Dict) : Except PyError Dict :=
  if fieldsStorable d then .ok d else .error (.dataError "unsupported Unicode escape sequence")

/-- A value of a `Numeric(18, 2)` column, in hundredths. -/
structure Numeric where
  cents : ℤ
  lt : cents.natAbs < 10 ^ 18
deriving DecidableEq

namespace Numeric

/-- The hundredths of a decimal, rounded half away from zero. -/
def centsOf (d : SciDecimal) : ℤ :=
  let scaled : ℕ :=
    if 0 ≤ d.exp + 2 then d.coeff * 10 ^ (d.exp + 2).toNat
    else (2 * d.coeff + 10 ^ (-(d.exp + 2)).toNat) / (2 * 10 ^ (-(d.exp + 2)).toNat)
  if d.neg then -scaled else scaled

def ofDecimal (d : SciDecimal) : Except PyError Numeric :=
  if h : (centsOf d).natAbs < 10 ^ 18 then .ok ⟨centsOf d, h⟩
  else .error (.dataError "numeric field overflow")

/-- The decimal the driver reads back. -/
def toDecimal (n : Numeric) : SciDecimal := ⟨n.cents < 0, n.cents.natAbs, -2⟩

end Numeric

/-! ## `payments` -/

/-- A `PaymentModel` instance; its attribute `meta` is the column `metadata`. -/
structure PaymentModel where
  id : UUID
  amount : SciDecimal
  currency : Currency
  description : String
  metadata : Dict
  status : PaymentStatus
  idempotencyKey : String
  requestHash : String
  webhookUrl : String
  createdAt : DateTime
  processedAt : Option DateTime

/-- A row of `payments`, with its CHECK constraints. -/
structure PaymentRow where
  id : UUID
  amount : Numeric
  currency : Currency
  description : String
  metadata : Dict
  status : PaymentStatus
  idempotencyKey : String
  requestHash : String
  webhookUrl : String
  createdAt : ℤ
  processedAt : Option ℤ
  amount_nonneg : 0 ≤ amount.cents
  processedAt_matches_status : status = .pending ↔ processedAt = none

def checkViolation (name : String) : PyError :=
  .integrityError s!"new row for relation \"payments\" violates check constraint \"{name}\""

/-- The row an INSERT of the model stores. -/
def PaymentModel.toRow (m : PaymentModel) : Except PyError PaymentRow := do
  let amount ← Numeric.ofDecimal m.amount
  let description ← text m.description
  let metadata ← jsonb m.metadata
  let idempotencyKey ← varchar IDEMPOTENCY_KEY_MAX_LENGTH m.idempotencyKey
  let requestHash ← varchar 64 m.requestHash
  let webhookUrl ← text m.webhookUrl
  if hamount : 0 ≤ amount.cents then
    if hstatus : m.status = .pending ↔ m.processedAt.map DateTime.instant = none then
      .ok ⟨m.id, amount, m.currency, description, metadata, m.status, idempotencyKey, requestHash,
        webhookUrl, m.createdAt.instant, m.processedAt.map DateTime.instant, hamount, hstatus⟩
    else .error (checkViolation "ck_payments_processed_at_matches_status")
  else .error (checkViolation "ck_payments_amount_non_negative")

/-- The model a SELECT of the row loads. -/
def PaymentRow.toModel (r : PaymentRow) : PaymentModel where
  id := r.id
  amount := r.amount.toDecimal
  currency := r.currency
  description := r.description
  metadata := r.metadata
  status := r.status
  idempotencyKey := r.idempotencyKey
  requestHash := r.requestHash
  webhookUrl := r.webhookUrl
  createdAt := .utc r.createdAt
  processedAt := r.processedAt.map .utc

/-! ## The mappers -/

def paymentToModel (payment : Payment) (requestHash : String) : PaymentModel where
  id := payment.id
  amount := payment.amount.value
  currency := payment.currency
  description := payment.description
  metadata := payment.metadata
  status := payment.status
  idempotencyKey := payment.idempotencyKey.value
  requestHash := requestHash
  webhookUrl := payment.webhookUrl.value
  createdAt := payment.createdAt
  processedAt := payment.processedAt

def paymentFromModel (m : PaymentModel) : Except PyError Payment := do
  let amount ← Amount.new (.value (.finite m.amount))
  let idempotencyKey ← IdempotencyKey.new (.value m.idempotencyKey)
  let webhookUrl ← WebhookUrl.new (.value m.webhookUrl)
  Payment.new m.id amount m.currency (.value m.description) idempotencyKey webhookUrl m.status
    (.value m.createdAt) (m.processedAt.map .value) (.value m.metadata)

/-- The payment a repository makes of a row. -/
def PaymentRow.toPayment (r : PaymentRow) : Except PyError Payment := paymentFromModel r.toModel

/-! ## `outbox` -/

structure OutboxRow where
  id : UUID
  aggregateId : UUID
  eventType : String
  payload : Dict
  createdAt : ℤ
  publishedAt : Option ℤ
  attempts : ℕ
  lastError : Option String

/-- The row an INSERT of a message stores; `now` is the transaction's. -/
def OutboxMessage.toRow (m : OutboxMessage) (now : ℤ) : Except PyError OutboxRow := do
  let eventType ← varchar 64 m.eventType
  let payload ← jsonb m.payload
  .ok ⟨m.id, m.aggregateId, eventType, payload, now, none, 0, none⟩

/-! ## The database -/

structure Db where
  payments : List PaymentRow
  outbox : List OutboxRow

def uniqueViolation (name : String) : PyError :=
  .integrityError s!"duplicate key value violates unique constraint \"{name}\""

namespace Db

def insertPayment (db : Db) (model : PaymentModel) : Except PyError Db := do
  let row ← model.toRow
  if db.payments.any (·.id = row.id) then .error (uniqueViolation "pk_payments")
  else if db.payments.any (·.idempotencyKey = row.idempotencyKey) then
    .error (uniqueViolation "uq_payments_idempotency_key")
  else .ok { db with payments := db.payments ++ [row] }

def insertMessage (now : ℤ) (db : Db) (message : OutboxMessage) : Except PyError Db := do
  let row ← message.toRow now
  if db.outbox.any (·.id = row.id) then .error (uniqueViolation "pk_outbox")
  else .ok { db with outbox := db.outbox ++ [row] }

end Db

/-- What a session holds and has not flushed. -/
structure Session where
  payments : List PaymentModel
  messages : List OutboxMessage

namespace Session

def empty : Session := ⟨[], []⟩

/-- The flush and COMMIT of a session: all of it or, where it raises, nothing. -/
def commit (session : Session) (db : Db) (now : ℤ) : Except PyError Db := do
  let db ← session.payments.foldlM Db.insertPayment db
  session.messages.foldlM (Db.insertMessage now) db

end Session

/-! ## `SqlAlchemyPaymentRepository` -/

structure StoredPayment where
  payment : Payment
  requestHash : String

namespace PaymentRepository

def get (payments : List PaymentRow) (paymentId : UUID) : Except PyError (Option Payment) :=
  match payments.find? (·.id = paymentId) with
  | none => .ok none
  | some row => row.toPayment.map some

def getByIdempotencyKey (payments : List PaymentRow) (key : String) :
    Except PyError (Option StoredPayment) :=
  match payments.find? (·.idempotencyKey = key) with
  | none => .ok none
  | some row => row.toPayment.map fun payment => some ⟨payment, row.requestHash⟩

end PaymentRepository

/-- The row after `SET status, processed_at`, unless the CHECK on the two refuses it. -/
def PaymentRow.setStatus (r : PaymentRow) (status : PaymentStatus) (processedAt : Option ℤ) :
    Except PyError PaymentRow :=
  if h : status = .pending ↔ processedAt = none then
    .ok { r with
      status := status
      processedAt := processedAt
      processedAt_matches_status := h }
  else .error (checkViolation "ck_payments_processed_at_matches_status")

/-! ## `SqlAlchemyUnitOfWork` -/

def IDEMPOTENCY_KEY_CONSTRAINT : String := "uq_payments_idempotency_key"

/-- What `commit` raises for what the session raised. -/
def commitError : PyError → PyError
  | .integrityError text =>
    if IDEMPOTENCY_KEY_CONSTRAINT.toList <:+: text.toList then .duplicateIdempotencyKeyError text
    else .integrityError text
  | e => e

end PaymentService
