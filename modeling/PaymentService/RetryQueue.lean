import PaymentService.Lib.TimedFifo
import PaymentService.Retry
import Mathlib.Algebra.Order.Ring.Rat

/-!
# `payments.retry` as a queue in time

Every failed attempt puts its message into one queue, each with its own expiration. A message that
has expired returns to `payments.new` when it is at the head.
-/

namespace PaymentService

open Python TimedFifo

/-- The arguments of `_to_retry`. -/
structure FailedAttempt where
  payload : Dict
  attempt : ℤ
  error : PyError

namespace FailedAttempt

variable (settings : RabbitSettings)

def publish (f : FailedAttempt) : Publish := toRetry settings f.payload f.attempt f.error

def delay (f : FailedAttempt) : ℚ := settings.retryBaseDelaySeconds * 2 ^ (f.attempt - 1)

theorem publish_expiration (f : FailedAttempt) :
    (f.publish settings).message.expiration = some (f.delay settings) := rfl

end FailedAttempt

/-- What the broker makes of a message's expiration, in a queue that may have a TTL of its own. -/
def RabbitQueue.ttl (q : RabbitQueue) (expiration : ℚ) : ℚ :=
  match q.messageTtl with
  | none => expiration
  | some ms => min expiration (ms / 1000)

section

variable (settings : RabbitSettings)

/-- When a message should be back in `payments.new`. -/
def dueTime (e : Entry FailedAttempt ℚ) : ℚ := e.time + e.item.delay settings

/-- When a message expires. -/
def expiryTime (e : Entry FailedAttempt ℚ) : ℚ := e.time + retryQueue.ttl (e.item.delay settings)

def retryMachine : Labelled.Machine (State FailedAttempt ℚ) (Label FailedAttempt ℚ) :=
  queue (expiryTime settings)

end

end PaymentService
