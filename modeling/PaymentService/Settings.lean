import PaymentService.Python.Quote
import Mathlib.Data.Rat.Defs

/-!
# Settings

What the connection strings and the retry policy are made of, with the defaults. Texts are Unicode
texts: of a lone surrogate `quote_plus` raises `UnicodeEncodeError`.
-/

namespace PaymentService

open Python

structure PostgresSettings where
  host : String := "localhost"
  port : ℤ := 5432
  user : String := "payments"
  password : String := "payments"
  db : String := "payments"

def PostgresSettings.dsn (self : PostgresSettings) : String :=
  let password := quotePlus self.password
  let user := quotePlus self.user
  s!"postgresql+asyncpg://{user}:{password}@{self.host}:{self.port}/{self.db}"

structure RabbitSettings where
  host : String := "localhost"
  port : ℤ := 5672
  user : String := "guest"
  password : String := "guest"
  vhost : String := "/"
  maxDeliveryAttempts : ℤ := 3
  retryBaseDelaySeconds : ℚ := 5

/-- A broker at its defaults, with other settings of the retry policy. -/
def RabbitSettings.ofRetry (attempts : ℤ) (baseDelay : ℚ) : RabbitSettings :=
  { maxDeliveryAttempts := attempts, retryBaseDelaySeconds := baseDelay }

def RabbitSettings.dsn (self : RabbitSettings) : String :=
  let password := quotePlus self.password
  let user := quotePlus self.user
  let vhost := quotePlus self.vhost ""
  s!"amqp://{user}:{password}@{self.host}:{self.port}/{vhost}"

end PaymentService
