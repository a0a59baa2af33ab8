import PaymentService.Storage
import PaymentService.Lib.Machine

/-!
# `ProcessPaymentUseCase`

A call stands at one of the calls it awaits. An update that matched a row is a version of the row
no other session sees before the commit; until then another update of the row waits, and a call
that raises or dies leaves nothing of it. The gateway and the receivers of notifications keep
records of what reached them, and what one of them does for a call survives the call.
-/

namespace PaymentService

open Python Labelled

namespace PaymentRepository

/-- `update_status` on the committed rows: the new version of the row it matches, if any. -/
def updateStatus (payments : List PaymentRow) (payment : Payment) :
    Except PyError (Option PaymentRow) :=
  match payments.find? fun r => r.id = payment.id ∧ r.status = .pending with
  | none => .ok none
  | some row =>
    (row.setStatus payment.status (payment.processedAt.map DateTime.instant)).map some

end PaymentRepository

/-- What a call is about to do, or waits for. -/
inductive ProcessPc
  | get
  | charge (payment : Payment)
  | charging (payment : Payment)
  | updateStatus (payment : Payment)
  | commit (payment : Payment) (applied : Bool)
  | getAgain (payment : Payment)
  | send (payment : Payment)
  | sending (payment : Payment)
  | returned
  | raised (at_ : ProcessPc) (error : PyError)
  | killed (at_ : ProcessPc)

structure ProcessCall where
  paymentId : UUID
  pc : ProcessPc

/-- An invocation of `gateway.charge`. -/
structure Charge where
  call : ℕ
  paymentId : UUID
deriving DecidableEq

/-- What the gateway answered to a call, and the time the call took on the answer. -/
structure Answer where
  call : ℕ
  paymentId : UUID
  succeeded : Bool
  processedAt : ℤ
deriving DecidableEq

/-- What was passed to `WebhookSender.send`. -/
structure Notification where
  paymentId : UUID
  url : String
  payload : Dict

/-- A row version a call has written and not committed. -/
structure PendingWrite where
  call : ℕ
  row : PaymentRow

structure ProcessState where
  payments : List PaymentRow
  writes : List PendingWrite
  calls : ℕ → Option ProcessCall
  charges : List Charge
  answers : List Answer
  sent : List Notification
  accepted : List Notification

/-- What happens to a call: it is made, what it awaits returns, the gateway answers it, what it
awaits raises, or it is killed. -/
inductive ProcessAct
  | begin (paymentId : UUID)
  | next
  | answer (succeeded : Bool) (now : ℤ)
  | fail (error : PyError)
  | kill

/-! ## Between two awaits -/

def afterGet (paymentId : UUID) : Except PyError (Option Payment) → ProcessPc
  | .error e => .raised .get e
  | .ok none => .raised .get (.paymentNotFoundError s!"Платёж {paymentId.str} не найден")
  | .ok (some payment) => if payment.isProcessed then .send payment else .charge payment

def afterCharge (payment : Payment) (succeeded : Bool) (now : ℤ) : ProcessPc :=
  match if succeeded then payment.markSucceeded none now else payment.markFailed none now with
  | .error e => .raised (.charging payment) e
  | .ok payment => .updateStatus payment

def afterUpdateStatus (payment : Payment) : Except PyError (Option PaymentRow) → ProcessPc
  | .error e => .raised (.updateStatus payment) e
  | .ok row => .commit payment row.isSome

def afterCommit (payment : Payment) (applied : Bool) : ProcessPc :=
  if applied then .send payment else .getAgain payment

def afterGetAgain (payment : Payment) : Except PyError (Option Payment) → ProcessPc
  | .error e => .raised (.getAgain payment) e
  | .ok current => .send (current.getD payment)

/-- The call `webhooks.send(str(payment.webhook_url), webhook_payload(payment))`. -/
def notificationOf (payment : Payment) : Notification :=
  ⟨payment.id, payment.webhookUrl.value, webhookPayload payment⟩

/-! ## Steps -/

namespace ProcessState

def init (payments : List PaymentRow) : ProcessState :=
  ⟨payments, [], fun _ => none, [], [], [], []⟩

def setCall (s : ProcessState) (k : ℕ) (c : ProcessCall) : ProcessState :=
  { s with calls := Function.update s.calls k (some c) }

/-- The version of a row an UPDATE of a call leaves in its session. -/
def write (s : ProcessState) (k : ℕ) : Except PyError (Option PaymentRow) → ProcessState
  | .ok (some row) => { s with writes := s.writes ++ [⟨k, row⟩] }
  | _ => s

/-- Another session's update holds the row. -/
def isLocked (s : ProcessState) (id : UUID) : Bool := s.writes.any fun w => w.row.id = id

/-- The rows after the COMMIT of a call's session. -/
def committed (s : ProcessState) (k : ℕ) : List PaymentRow :=
  s.payments.map fun r => ((s.writes.find? fun w => w.call = k ∧ w.row.id = r.id).map
    PendingWrite.row).getD r

/-- The session of a call has ended, by commit or rollback. -/
def endSession (s : ProcessState) (k : ℕ) : ProcessState :=
  { s with writes := s.writes.filter (·.call ≠ k) }

end ProcessState

def processNext (s : ProcessState) (k : ℕ) (c : ProcessCall) : Option ProcessState :=
  match c.pc with
  | .get => some (s.setCall k { c with
      pc := afterGet c.paymentId (PaymentRepository.get s.payments c.paymentId) })
  | .charge payment => some ({ s with
      charges := s.charges ++ [Charge.mk k payment.id] }.setCall k
      { c with pc := .charging payment })
  | .updateStatus payment =>
    if s.isLocked payment.id then none
    else
      let row := PaymentRepository.updateStatus s.payments payment
      some ((s.write k row).setCall k { c with pc := afterUpdateStatus payment row })
  | .commit payment applied => some (({ s with payments := s.committed k }.endSession k).setCall k
      { c with pc := afterCommit payment applied })
  | .getAgain payment => some (s.setCall k { c with
      pc := afterGetAgain payment (PaymentRepository.get s.payments payment.id) })
  | .send payment => some ({ s with sent := s.sent ++ [notificationOf payment] }.setCall k
      { c with pc := .sending payment })
  | .sending payment => some ({ s with
      accepted := s.accepted ++ [notificationOf payment] }.setCall k { c with pc := .returned })
  | .charging _ | .returned | .raised _ _ | .killed _ => none

def processAnswer (s : ProcessState) (k : ℕ) (c : ProcessCall) (succeeded : Bool) (now : ℤ) :
    Option ProcessState :=
  match c.pc with
  | .charging payment => some ({ s with
      answers := s.answers ++ [Answer.mk k payment.id succeeded now] }.setCall k
      { c with pc := afterCharge payment succeeded now })
  | _ => none

/-- Where a call that raised or was killed stops. -/
def processFail (s : ProcessState) (k : ℕ) (c : ProcessCall) (e : PyError) :
    Option ProcessState :=
  match c.pc with
  | .get | .charging _ | .updateStatus _ | .commit _ _ | .getAgain _ | .sending _ =>
    some ((s.endSession k).setCall k { c with pc := .raised c.pc e })
  | .charge _ | .send _ | .returned | .raised _ _ | .killed _ => none

def processKill (s : ProcessState) (k : ℕ) (c : ProcessCall) : Option ProcessState :=
  match c.pc with
  | .returned | .raised _ _ | .killed _ => none
  | pc => some ((s.endSession k).setCall k { c with pc := .killed pc })

def processStep (s : ProcessState) (k : ℕ) : ProcessAct → Option ProcessState
  | .begin paymentId =>
    match s.calls k with
    | none => some (s.setCall k ⟨paymentId, .get⟩)
    | some _ => none
  | .next => (s.calls k).bind (processNext s k)
  | .answer succeeded now => (s.calls k).bind fun c => processAnswer s k c succeeded now
  | .fail e => (s.calls k).bind fun c => processFail s k c e
  | .kill => (s.calls k).bind (processKill s k)

/-- A call's step, or a row another session's COMMIT adds. -/
inductive ProcessLabel
  | call (k : ℕ) (act : ProcessAct)
  | insert (row : PaymentRow)

def processMachine : Machine ProcessState ProcessLabel where
  step s
  | .call k act => processStep s k act
  | .insert row =>
    if s.payments.any (·.id = row.id) then none
    else some { s with payments := s.payments ++ [row] }

end PaymentService
