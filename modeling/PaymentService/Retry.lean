import PaymentService.Broker
import PaymentService.Settings
import PaymentService.Values
import Mathlib.Algebra.Field.Rat

/-!
# `RetryPolicy`

The number of an attempt travels in a header. A message whose attempt failed is published again,
to wait in `payments.retry` with the next number, or to stay in `payments.dlq` with its own.
-/

namespace PaymentService

open Python

def ATTEMPT_HEADER : String := "x-attempt"
def ERROR_HEADER : String := "x-error"

def MAX_ERROR_LENGTH : ℕ := 200

/-! ## `attempt_of` -/

/-- `int` of a double: the whole part, `none` for a NaN, an error for an infinity. -/
def intOfDouble (bits : BitVec 64) : Except PyError (Option ℤ) :=
  let negative := bits.getLsbD 63
  let exponent := (bits >>> 52 &&& 0x7FF#64).toNat
  let fraction := (bits &&& 0xFFFFFFFFFFFFF#64).toNat
  if exponent = 2047 then
    if fraction = 0 then .error (.overflowError "cannot convert float infinity to integer")
    else .ok none
  else
    let whole : ℕ :=
      if exponent < 1023 then 0
      else if exponent < 1075 then (2 ^ 52 + fraction) / 2 ^ (1075 - exponent)
      else (2 ^ 52 + fraction) * 2 ^ (exponent - 1075)
    .ok (some (if negative then -whole else whole))

/-- `int` of a finite decimal. -/
def intOfDecimal (d : SciDecimal) : ℤ :=
  let whole := if 0 ≤ d.exp then d.coeff * 10 ^ d.exp.toNat else d.coeff / 10 ^ (-d.exp).toNat
  if d.neg then -whole else whole

/-- `int` of a header's value, with `none` for the `TypeError` and `ValueError` that are caught. -/
def intOfHeader : HeaderValue → Except PyError (Option ℤ)
  | .bool b => .ok (some (if b then 1 else 0))
  | .int i => .ok (some i)
  | .double bits => intOfDouble bits
  | .decimal d => .ok (some (intOfDecimal d))
  | .str s => .ok (intOf 10 s.toList)
  | .bytes bs =>
    if bs.all (· < 128) then .ok (intOf 10 (bs.map fun b => Char.ofNat b.toNat)) else .ok none
  | .void | .timestamp _ | .array _ | .table _ => .ok none

/-- `attempt_of`. -/
def attemptOf (headers : Headers) : Except PyError ℤ :=
  match headers.lookup ATTEMPT_HEADER with
  | none => .ok 1
  | some raw => (intOfHeader raw).map fun
    | some i => max i 1
    | none => 1

/-! ## `on_failure` -/

/-- `_headers`. -/
def failureHeaders (attempt : ℤ) (error : PyError) : Headers :=
  [(ATTEMPT_HEADER, .int attempt),
    (ERROR_HEADER, .str (truncate MAX_ERROR_LENGTH (error.typeName ++ ": " ++ error.str)))]

def toRetry (settings : RabbitSettings) (payload : Dict) (attempt : ℤ) (error : PyError) :
    Publish :=
  let delay := settings.retryBaseDelaySeconds * 2 ^ (attempt - 1)
  ⟨dlxExchange.name, RETRY_ROUTING_KEY,
    ⟨payload, failureHeaders (attempt + 1) error, none, some delay⟩⟩

def toDlq (payload : Dict) (attempt : ℤ) (error : PyError) : Publish :=
  ⟨dlxExchange.name, DEAD_ROUTING_KEY, ⟨payload, failureHeaders attempt error, none, none⟩⟩

/-- What `on_failure` publishes. -/
def onFailure (settings : RabbitSettings) (payload : Dict) (attempt : ℤ) (error : PyError) :
    Publish :=
  if settings.maxDeliveryAttempts ≤ attempt then toDlq payload attempt error
  else toRetry settings payload attempt error

end PaymentService
