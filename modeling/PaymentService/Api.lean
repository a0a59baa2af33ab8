import PaymentService.CreatePayment
import PaymentService.Python.Json
import PaymentService.Lib.Sha256

/-!
# The HTTP interface

What a request's body is validated to, the hash of the body, the API key, and what an exception is
answered with.
-/

namespace PaymentService

open Python

/-! ## Dependencies -/

/-- An `HTTPException`, or an exception that is none. -/
inductive ApiError
  | httpException (statusCode : ℕ) (detail : String)
  | raised (error : PyError)
deriving DecidableEq, Repr

/-- `secrets.compare_digest` of two strings. -/
def compareDigest (a b : PyStr) : Except PyError Bool :=
  if a.isAscii && b.isAscii then .ok (a == b)
  else .error (.typeError "comparing strings with non-ASCII characters is not supported")

def UNAUTHORIZED : ApiError :=
  .httpException 401 "Неверный или отсутствующий заголовок X-API-Key"

/-- `require_api_key`. -/
def requireApiKey (expected : PyStr) : Option PyStr → Except ApiError Unit
  | none => .error UNAUTHORIZED
  | some apiKey =>
    match compareDigest apiKey expected with
    | .error e => .error (.raised e)
    | .ok true => .ok ()
    | .ok false => .error UNAUTHORIZED

/-- `require_api_key` of a request with this `X-API-Key`, which `_api_key_header` reads. -/
def securityGate (apiKeyHeader : Option PyStr → Option PyStr) (expected : PyStr)
    (header : Option PyStr) : Except ApiError Unit :=
  requireApiKey expected (apiKeyHeader header)

/-! ## `CreatePaymentRequest` -/

/-- The constraints `gt=0, max_digits=18, decimal_places=2` on a finite decimal: they count the
digits it has without trailing zeros. -/
def amountField (d : SciDecimal) : Bool :=
  let digits := Numeral.digitsOf 10 d.coeff
  let zeros := (digits.reverse.takeWhile (· = 0)).length
  let exp : ℤ := d.exp + zeros
  let length : ℤ := digits.length - zeros
  let places := (-exp).toNat
  let whole := (length + exp).toNat
  let total := if 0 ≤ exp then whole else max length.toNat places
  !d.neg && d.coeff ≠ 0 && places ≤ 2 && whole ≤ 16 && total ≤ 18

def DESCRIPTION_MAX_LENGTH : ℕ := 1000

/-- A validated body. `metadata` is what `json.loads` gave, so its strings may have lone surrogates
and its floats need not be finite, and its dicts have every key once; `description` has none, as a
`str` with a length limit is refused with one. -/
structure CreatePaymentRequest where
  amount : SciDecimal
  currency : Currency
  description : String
  metadata : List (PyStr × PyJson)
  webhookUrl : String
  amount_ok : amountField amount = true
  description_length : description.length ≤ DESCRIPTION_MAX_LENGTH
  metadata_keys : (PyJson.obj metadata).keysOk = true

namespace CreatePaymentRequest

/-- The fields as JSON, with `metadata` left as it is. -/
def fields (r : CreatePaymentRequest) : List (PyStr × PyJson) :=
  [(.ofString "amount", .str (.ofString (Decimal.finite r.amount).str)),
    (.ofString "currency", .str (.ofString r.currency.value)),
    (.ofString "description", .str (.ofString r.description)),
    (.ofString "metadata", .obj r.metadata),
    (.ofString "webhook_url", .str (.ofString r.webhookUrl))]

section

variable (modelDump : CreatePaymentRequest → Except PyError (List (PyStr × PyJson)))
  (floatRepr : BitVec 64 → List Char)

/-- The bytes that are hashed; `modelDump` is `model_dump(mode="json")`. -/
def payload (r : CreatePaymentRequest) : Except PyError (List UInt8) := do
  let dump ← modelDump r
  match ((PyJson.obj dump).dumps floatRepr).encode with
  | some bytes => .ok bytes
  | none => .error (.other "UnicodeEncodeError" "'utf-8' codec: surrogates not allowed")

end

end CreatePaymentRequest

/-- `hashlib.sha256(bytes).hexdigest()`. -/
def sha256Hexdigest (bytes : List UInt8) : String :=
  String.ofList (Sha256.hexdigest (bytes.map UInt8.toNat))

theorem length_sha256Hexdigest (bytes : List UInt8) : (sha256Hexdigest bytes).length = 64 := by
  rw [sha256Hexdigest, String.length_ofList, Sha256.length_hexdigest]

/-- The text of a string. A lone surrogate, which no `String` holds, stands as U+0000: no column
takes either. -/
def textOf (s : PyStr) : String := String.ofList (s.map fun c => c.toChar?.getD nul)

mutual

/-- A value as the rest of the service has it. -/
def jsonOf : PyJson → Json
  | .null => .null
  | .bool b => .bool b
  | .int i => .int i
  | .float bits => .float bits
  | .str s => .str (textOf s)
  | .arr items => .arr (itemsOf items)
  | .obj fields => .obj (dictOf fields)

def itemsOf : List PyJson → List Json
  | [] => []
  | x :: xs => jsonOf x :: itemsOf xs

def dictOf : List (PyStr × PyJson) → Dict
  | [] => []
  | (k, x) :: xs => (textOf k, jsonOf x) :: dictOf xs

end

namespace CreatePaymentRequest

variable (modelDump : CreatePaymentRequest → Except PyError (List (PyStr × PyJson)))
  (floatRepr : BitVec 64 → List Char)

/-- `request_hash`. -/
def requestHash (r : CreatePaymentRequest) : Except PyError String :=
  (r.payload modelDump floatRepr).map sha256Hexdigest

/-- The command the endpoint makes of a body with its hash and the `Idempotency-Key` header. -/
def withHash (r : CreatePaymentRequest) (idempotencyKey requestHash : String) :
    CreatePaymentCommand where
  amount := .value (.finite r.amount)
  currency := r.currency
  description := .value r.description
  metadata := .value (dictOf r.metadata)
  webhookUrl := .value r.webhookUrl
  idempotencyKey := idempotencyKey
  requestHash := requestHash

def command (r : CreatePaymentRequest) (idempotencyKey : String) :
    Except PyError CreatePaymentCommand :=
  (r.requestHash modelDump floatRepr).map (r.withHash idempotencyKey)

end CreatePaymentRequest

/-! ## Responses -/

structure PaymentAcceptedResponse where
  paymentId : UUID
  status : PaymentStatus
  createdAt : DateTime
deriving DecidableEq, Repr

def PaymentAcceptedResponse.fromDomain (payment : Payment) : PaymentAcceptedResponse :=
  ⟨payment.id, payment.status, payment.createdAt⟩

/-- An exception without a handler ends as a 500. -/
inductive Response
  | accepted (body : PaymentAcceptedResponse)
  | error (statusCode : ℕ) (detail : String)
  | unhandled (error : PyError)
deriving DecidableEq, Repr

/-- `register_exception_handlers`; the handler of a class is also that of its subclasses. -/
def exceptionResponse : PyError → Response
  | .paymentNotFoundError text => .error 404 text
  | .idempotencyConflictError text => .error 409 text
  | .domainError text | .invalidStatusTransitionError text => .error 422 text
  | e => .unhandled e

/-- `create_payment`, with a validated body. -/
def postPayment (modelDump : CreatePaymentRequest → Except PyError (List (PyStr × PyJson)))
    (floatRepr : BitVec 64 → List Char) (db : Db) (body : CreatePaymentRequest)
    (idempotencyKey : String) (draw : Draw) : Db × Response :=
  match body.command modelDump floatRepr idempotencyKey with
  | .error e => (db, exceptionResponse e)
  | .ok command =>
    match createPayment db command draw with
    | (db', .ok result) => (db', .accepted (.fromDomain result.payment))
    | (db', .error e) => (db', exceptionResponse e)

end PaymentService
