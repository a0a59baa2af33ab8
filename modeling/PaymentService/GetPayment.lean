import PaymentService.Api

/-!
# `GetPaymentUseCase` and its endpoint

A payment is read from the committed rows, and the response has its fields as they are.
-/

namespace PaymentService

open Python

/-- `GetPaymentUseCase.__call__`. -/
def findPayment (payments : List PaymentRow) (paymentId : UUID) : Except PyError Payment :=
  match PaymentRepository.get payments paymentId with
  | .error e => .error e
  | .ok none => .error (.paymentNotFoundError s!"Платёж {paymentId.str} не найден")
  | .ok (some payment) => .ok payment

structure PaymentResponse where
  id : UUID
  amount : SciDecimal
  currency : Currency
  description : String
  metadata : Dict
  status : PaymentStatus
  idempotencyKey : String
  webhookUrl : String
  createdAt : DateTime
  processedAt : Option DateTime

def PaymentResponse.fromDomain (payment : Payment) : PaymentResponse where
  id := payment.id
  amount := payment.amount.value
  currency := payment.currency
  description := payment.description
  metadata := payment.metadata
  status := payment.status
  idempotencyKey := payment.idempotencyKey.value
  webhookUrl := payment.webhookUrl.value
  createdAt := payment.createdAt
  processedAt := payment.processedAt

/-- `get_payment`: a 200 with its body, or what an exception is answered with. -/
def getPayment (payments : List PaymentRow) (paymentId : UUID) :
    Except Response PaymentResponse :=
  match findPayment payments paymentId with
  | .ok payment => .ok (.fromDomain payment)
  | .error e => .error (exceptionResponse e)

end PaymentService
