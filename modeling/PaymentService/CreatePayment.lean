import PaymentService.Storage
import PaymentService.Lib.Machine

/-!
# `CreatePaymentUseCase`

A request stands at one of the calls the use case awaits, with the session it stages rows in. What
the code does between two awaits is one step, and requests interleave at the awaits. An awaited
call may also raise for a reason of its own, and a request may be killed anywhere; either way its
session is closed and what it staged is gone.
-/

namespace PaymentService

open Python Labelled

structure CreatePaymentCommand where
  amount : Raw Decimal
  currency : Currency
  description : Raw String
  metadata : Raw Dict
  webhookUrl : Raw String
  idempotencyKey : String
  requestHash : String

structure CreatePaymentResult where
  payment : Payment
  created : Bool

/-- What a request gets from `uuid4`, twice, from `datetime.now(UTC)` and from the server's
`now()`. -/
structure Draw where
  paymentId : UUID
  messageId : UUID
  createdAt : ℤ
  insertedAt : ℤ

/-- How a request ends that is not killed. -/
abbrev CreateReply := Except PyError CreatePaymentResult

/-- The domain objects of a command, in the order their constructors are called. -/
def buildPayment (c : CreatePaymentCommand) (d : Draw) : Except PyError Payment := do
  let amount ← Amount.new c.amount
  let idempotencyKey ← IdempotencyKey.new (.value c.idempotencyKey)
  let webhookUrl ← WebhookUrl.new c.webhookUrl
  Payment.create amount c.currency c.description idempotencyKey webhookUrl (some c.metadata) none
    none d.paymentId d.createdAt

/-- `_replay`. -/
def replay (existing : StoredPayment) (c : CreatePaymentCommand) : Except PyError Payment :=
  if existing.requestHash ≠ c.requestHash then
    .error (.idempotencyConflictError (s!"Ключ идемпотентности {c.idempotencyKey} уже использован "
      ++ "с другим телом запроса"))
  else .ok existing.payment

/-- The reply to a command whose key is stored. -/
def replayReply (existing : StoredPayment) (c : CreatePaymentCommand) : CreateReply :=
  (replay existing c).map fun payment => ⟨payment, false⟩

/-! ## The use case alone -/

/-- `CreatePaymentUseCase.__call__` with nothing else at work on the database. -/
def createPayment (db : Db) (c : CreatePaymentCommand) (d : Draw) : Db × CreateReply :=
  match PaymentRepository.getByIdempotencyKey db.payments c.idempotencyKey with
  | .error e => (db, .error e)
  | .ok (some existing) => (db, replayReply existing c)
  | .ok none =>
    match buildPayment c d with
    | .error e => (db, .error e)
    | .ok payment =>
      let session : Session :=
        ⟨[paymentToModel payment c.requestHash], [paymentCreated payment d.messageId]⟩
      match session.commit db d.insertedAt with
      | .ok db' => (db', .ok ⟨payment, true⟩)
      | .error e =>
        match commitError e with
        | .duplicateIdempotencyKeyError text =>
          match PaymentRepository.getByIdempotencyKey db.payments c.idempotencyKey with
          | .error e => (db, .error e)
          | .ok (some existing) => (db, replayReply existing c)
          | .ok none => (db, .error (.duplicateIdempotencyKeyError text))
        | e => (db, .error e)

/-! ## The use case among others -/

/-- What a request is about to do. -/
inductive CreatePc
  | lookup
  | build
  | addPayment (payment : Payment)
  | addEvent (payment : Payment)
  | commit (payment : Payment)
  | rollback (error : PyError)
  | lookupAgain (error : PyError)
  | reply (reply : CreateReply)
  | replied (reply : CreateReply)
  | killed (at_ : CreatePc)

structure Request where
  pc : CreatePc
  session : Session

def Request.start : Request := ⟨.lookup, .empty⟩

/-- What happens to a request: its call returns, or raises an error of its own, or it is killed. -/
inductive CreateAct
  | next
  | fail (error : PyError)
  | kill
deriving DecidableEq

/-- After a `commit` that raised. -/
def afterCommitError (e : PyError) : CreatePc :=
  match commitError e with
  | .duplicateIdempotencyKeyError text => .rollback (.duplicateIdempotencyKeyError text)
  | e => .reply (.error e)

/-- After the first lookup. -/
def afterLookup (c : CreatePaymentCommand) : Except PyError (Option StoredPayment) → CreatePc
  | .error e => .reply (.error e)
  | .ok (some existing) => .reply (replayReply existing c)
  | .ok none => .build

/-- After the lookup that follows a lost race. -/
def afterLookupAgain (c : CreatePaymentCommand) (error : PyError) :
    Except PyError (Option StoredPayment) → CreatePc
  | .error e => .reply (.error e)
  | .ok (some existing) => .reply (replayReply existing c)
  | .ok none => .reply (.error error)

def createNext (c : CreatePaymentCommand) (d : Draw) (db : Db) (r : Request) :
    Option (Db × Request) :=
  match r.pc with
  | .lookup => some (db, ⟨afterLookup c
      (PaymentRepository.getByIdempotencyKey db.payments c.idempotencyKey), r.session⟩)
  | .build =>
    match buildPayment c d with
    | .error e => some (db, ⟨.reply (.error e), r.session⟩)
    | .ok payment => some (db, ⟨.addPayment payment, r.session⟩)
  | .addPayment payment => some (db, ⟨.addEvent payment, { r.session with
      payments := r.session.payments ++ [paymentToModel payment c.requestHash] }⟩)
  | .addEvent payment => some (db, ⟨.commit payment, { r.session with
      messages := r.session.messages ++ [paymentCreated payment d.messageId] }⟩)
  | .commit payment =>
    match r.session.commit db d.insertedAt with
    | .ok db' => some (db', ⟨.reply (.ok ⟨payment, true⟩), .empty⟩)
    | .error e => some (db, ⟨afterCommitError e, r.session⟩)
  | .rollback error => some (db, ⟨.lookupAgain error, .empty⟩)
  | .lookupAgain error => some (db, ⟨afterLookupAgain c error
      (PaymentRepository.getByIdempotencyKey db.payments c.idempotencyKey), r.session⟩)
  | .reply reply => some (db, ⟨.replied reply, .empty⟩)
  | .replied _ => none
  | .killed _ => none

/-- Where a call that raised on its own account leaves a request; the database is as it was. -/
def createFail (r : Request) (e : PyError) : Option Request :=
  match r.pc with
  | .lookup | .addPayment _ | .addEvent _ | .rollback _ | .lookupAgain _ =>
    some ⟨.reply (.error e), r.session⟩
  | .commit _ => some ⟨afterCommitError e, r.session⟩
  | .build | .reply _ | .replied _ | .killed _ => none

def createKill (r : Request) : Option Request :=
  match r.pc with
  | .replied _ | .killed _ => none
  | pc => some ⟨.killed pc, .empty⟩

def createStep (c : CreatePaymentCommand) (d : Draw) (db : Db) (r : Request) :
    CreateAct → Option (Db × Request)
  | .next => createNext c d db r
  | .fail e => (createFail r e).map fun r' => (db, r')
  | .kill => (createKill r).map fun r' => (db, r')

/-! ## Requests in separate sessions -/

structure CreateState (ι : Type) where
  db : Db
  requests : ι → Request

section

variable {ι : Type} [DecidableEq ι]

/-- Requests with their commands and draws, none of them failing on another's account or killed. -/
def createMachine (cmd : ι → CreatePaymentCommand) (draw : ι → Draw) :
    Machine (CreateState ι) ι where
  step s i :=
    (createStep (cmd i) (draw i) s.db (s.requests i) .next).map fun x =>
      ⟨x.1, Function.update s.requests i x.2⟩

def CreateState.init (db : Db) : CreateState ι := ⟨db, fun _ => .start⟩

/-- The commands of a list one after another, each with the reply it gets. -/
def createAll (cmd : ι → CreatePaymentCommand) (draw : ι → Draw) :
    Db → List ι → Db × List (ι × CreateReply)
  | db, [] => (db, [])
  | db, i :: is =>
    let x := createPayment db (cmd i) (draw i)
    let rest := createAll cmd draw x.1 is
    (rest.1, (i, x.2) :: rest.2)

end

end PaymentService
