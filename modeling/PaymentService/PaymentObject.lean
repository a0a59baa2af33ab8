import PaymentService.Payment

/-!
# The payment as the object its methods assign to

An exception does not undo an assignment made before it, so the methods pass the object on with
their result. Where one raises, its object is the one it was called on, and where it returns, the
object is the payment of `Payment.transitionTo`.
-/

namespace PaymentService

open Python

/-- The attributes of a payment. -/
@[ext]
structure PaymentObject where
  id : UUID
  amount : Amount
  currency : Currency
  description : String
  idempotencyKey : IdempotencyKey
  webhookUrl : WebhookUrl
  status : PaymentStatus
  createdAt : DateTime
  processedAt : Option DateTime
  metadata : Dict

def Payment.toObject (p : Payment) : PaymentObject :=
  ⟨p.id, p.amount, p.currency, p.description, p.idempotencyKey, p.webhookUrl, p.status,
    p.createdAt, p.processedAt, p.metadata⟩

namespace PaymentObject

/-- The check of an argument that is not `None`. -/
def checkProcessedAt : Option (Raw DateTime) → Except PyError (Option DateTime)
  | none => .ok none
  | some value => (ensureAware value "processed_at").map fun t => some t.1

/-- The body of `_transition_to`. -/
def transitionTo (self : PaymentObject) (status : PaymentStatus)
    (processedAt : Option (Raw DateTime)) (now : ℤ) : Except PyError Unit × PaymentObject :=
  if self.status ≠ .pending then
    (.error (.invalidStatusTransitionError
      (s!"Платёж {self.id.str} уже в статусе {self.status.value}, "
        ++ s!"перевод в {status.value} невозможен")), self)
  else
    match checkProcessedAt processedAt with
    | .error e => (.error e, self)
    | .ok processedAt =>
      let self := { self with status := status }
      let self := { self with processedAt := some (processedAt.getD (.utc now)) }
      (.ok (), self)

def markSucceeded (self : PaymentObject) (processedAt : Option (Raw DateTime)) (now : ℤ) :
    Except PyError Unit × PaymentObject :=
  self.transitionTo .succeeded processedAt now

def markFailed (self : PaymentObject) (processedAt : Option (Raw DateTime)) (now : ℤ) :
    Except PyError Unit × PaymentObject :=
  self.transitionTo .failed processedAt now

end PaymentObject

theorem Payment.toObject_transitionTo (p : Payment) (status : PaymentStatus)
    (processedAt : Option (Raw DateTime)) (now : ℤ) :
    p.toObject.transitionTo status processedAt now =
      match p.transitionTo status processedAt now with
      | .ok q => (.ok (), q.toObject)
      | .error e => (.error e, p.toObject) := by
  unfold PaymentObject.transitionTo Payment.transitionTo
  by_cases hp : p.status = .pending
  · rw [if_neg (not_not.2 hp), if_neg (not_not.2 (show p.toObject.status = _ from hp))]
    rcases processedAt with _ | processedAt
    · rfl
    · simp only [PaymentObject.checkProcessedAt]
      rcases ensureAware processedAt "processed_at" with e | t <;> rfl
  · rw [if_pos hp, if_pos (show p.toObject.status ≠ _ from hp)]
    rfl

end PaymentService
