import PaymentService.Lib.SciDecimal
import PaymentService.Python.Url
import PaymentService.Python.Text

/-!
# Errors and value objects

The exceptions that cross the service's layers, and the value objects of the domain. A value
object's constructor raises for a value the domain refuses, so a value that exists is valid: its
conditions are fields.
-/

namespace PaymentService

open Python

/-- The exceptions the service raises or tells apart; `other` is any further one an awaited call
may raise. -/
inductive PyError
  | domainError (text : String)
  | invalidStatusTransitionError (text : String)
  | paymentNotFoundError (text : String)
  | idempotencyConflictError (text : String)
  | duplicateIdempotencyKeyError (text : String)
  | webhookDeliveryError (text : String)
  | integrityError (text : String)
  | dataError (text : String)
  | keyError (text : String)
  | attributeError (text : String)
  | typeError (text : String)
  | valueError (text : String)
  | overflowError (text : String)
  | other (cls text : String)
deriving DecidableEq, Repr

namespace PyError

/-- `str(error)`. -/
def str : PyError → String
  | domainError t | invalidStatusTransitionError t | paymentNotFoundError t
  | idempotencyConflictError t | duplicateIdempotencyKeyError t | webhookDeliveryError t
  | integrityError t | dataError t | keyError t | attributeError t | typeError t | valueError t
  | overflowError t | other _ t => t

/-- `type(error).__name__`. -/
def typeName : PyError → String
  | domainError _ => "DomainError"
  | invalidStatusTransitionError _ => "InvalidStatusTransitionError"
  | paymentNotFoundError _ => "PaymentNotFoundError"
  | idempotencyConflictError _ => "IdempotencyConflictError"
  | duplicateIdempotencyKeyError _ => "DuplicateIdempotencyKeyError"
  | webhookDeliveryError _ => "WebhookDeliveryError"
  | integrityError _ => "IntegrityError"
  | dataError _ => "DataError"
  | keyError _ => "KeyError"
  | attributeError _ => "AttributeError"
  | typeError _ => "TypeError"
  | valueError _ => "ValueError"
  | overflowError _ => "OverflowError"
  | other cls _ => cls

end PyError

/-- An argument that should be an `α` and may be an object of another class. -/
inductive Raw (α : Type)
  | value (a : α)
  | other (typeName : String)
deriving DecidableEq, Repr

/-! ## `decimal.Decimal` -/

/-- A finite decimal, an infinity, or a (signalling) NaN with its payload digits. -/
inductive Decimal
  | finite (d : SciDecimal)
  | infinity (neg : Bool)
  | nan (neg signaling : Bool) (payload : Option ℕ)
deriving DecidableEq, Repr

namespace Decimal

def str : Decimal → String
  | finite d => String.ofList d.toChars
  | infinity neg => (if neg then "-" else "") ++ "Infinity"
  | nan neg signaling payload => (if neg then "-" else "") ++ (if signaling then "sNaN" else "NaN")
      ++ (payload.map fun n => String.ofList (Numeral.toChars n)).getD ""

/-- The decimal a text spells, if it spells a finite one. -/
def readFinite (text : String) : Option SciDecimal := SciDecimal.read text.toList

theorem readFinite_str (d : SciDecimal) : readFinite (finite d).str = some d := by
  simp [readFinite, str, SciDecimal.read_toChars]

end Decimal

/-! ## `Currency`, `PaymentStatus` -/

inductive Currency
  | RUB | USD | EUR
deriving DecidableEq, Repr

def Currency.value : Currency → String
  | RUB => "RUB"
  | USD => "USD"
  | EUR => "EUR"

inductive PaymentStatus
  | pending | succeeded | failed
deriving DecidableEq, Repr

namespace PaymentStatus

def value : PaymentStatus → String
  | pending => "pending"
  | succeeded => "succeeded"
  | failed => "failed"

def isFinal (s : PaymentStatus) : Bool := s ≠ pending

end PaymentStatus

/-! ## `Amount` -/

structure Amount where
  value : SciDecimal
  nonneg : ¬ (value.neg = true ∧ value.coeff ≠ 0)
  scale : -value.exp ≤ 2
deriving DecidableEq

namespace Amount

/-- `Amount.__post_init__`. -/
def new : Raw Decimal → Except PyError Amount
  | .other typeName =>
    .error (.domainError s!"Сумма платежа должна быть Decimal, передано {typeName}")
  | .value (.finite d) =>
    if hneg : d.neg = true ∧ d.coeff ≠ 0 then
      .error (.domainError ("Сумма платежа не может быть меньше 0, передано "
        ++ (Decimal.finite d).str))
    else if hexp : 2 < -d.exp then
      .error (.domainError ("Сумма платежа не может быть точнее 2 знаков после запятой, "
        ++ s!"передано {-d.exp}"))
    else .ok ⟨d, hneg, by omega⟩
  | .value v =>
    .error (.domainError s!"Сумма платежа должна быть конечным числом, передано {v.str}")

theorem new_value (a : Amount) : new (.value (.finite a.value)) = .ok a := by
  have hexp : ¬ 2 < -a.value.exp := by have := a.scale; omega
  simp only [new, dif_neg a.nonneg, dif_neg hexp]

theorem value_of_new {d : SciDecimal} {a : Amount} (h : new (.value (.finite d)) = .ok a) :
    a.value = d := by
  simp only [new] at h
  split_ifs at h
  cases h
  rfl

end Amount

/-! ## `IdempotencyKey` -/

def IDEMPOTENCY_KEY_MAX_LENGTH : ℕ := 255

structure IdempotencyKey where
  value : String
  notBlank : strip value.toList ≠ []
  length_le : value.length ≤ IDEMPOTENCY_KEY_MAX_LENGTH
deriving DecidableEq

namespace IdempotencyKey

/-- `IdempotencyKey.__post_init__`. -/
def new : Raw String → Except PyError IdempotencyKey
  | .other typeName =>
    .error (.domainError s!"Ключ идемпотентности должен быть строкой, передано {typeName}")
  | .value s =>
    if hblank : strip s.toList = [] then
      .error (.domainError "Ключ идемпотентности не может быть пустым")
    else if hlen : IDEMPOTENCY_KEY_MAX_LENGTH < s.length then
      .error (.domainError ("Ключ идемпотентности не может быть длиннее "
        ++ s!"{IDEMPOTENCY_KEY_MAX_LENGTH} символов, передано {s.length}"))
    else .ok ⟨s, hblank, by omega⟩

theorem new_value (k : IdempotencyKey) : new (.value k.value) = .ok k := by
  have hlen : ¬ IDEMPOTENCY_KEY_MAX_LENGTH < k.value.length := by have := k.length_le; omega
  simp only [new, dif_neg k.notBlank, dif_neg hlen]

theorem value_of_new {s : String} {k : IdempotencyKey} (h : new (.value s) = .ok k) :
    k.value = s := by
  simp only [new] at h
  split_ifs at h
  cases h
  rfl

end IdempotencyKey

/-! ## `WebhookUrl` -/

def ALLOWED_WEBHOOK_SCHEMES : List String := ["http", "https"]

/-- What `WebhookUrl.__post_init__` asks of the parsed text. -/
def isWebhookUrl (s : String) : Bool :=
  match Url.urlparse s with
  | .ok u => ALLOWED_WEBHOOK_SCHEMES.contains u.scheme && u.netloc ≠ ""
  | .error _ => false

structure WebhookUrl where
  value : String
  valid : isWebhookUrl value = true
deriving DecidableEq

namespace WebhookUrl

/-- `WebhookUrl.__post_init__`; what `urlparse` raises is not caught. -/
def new : Raw String → Except PyError WebhookUrl
  | .other typeName =>
    .error (.domainError s!"Webhook URL должен быть строкой, передано {typeName}")
  | .value s =>
    match h : Url.urlparse s with
    | .error text => .error (.valueError text)
    | .ok u =>
      if hscheme : ALLOWED_WEBHOOK_SCHEMES.contains u.scheme then
        if hnetloc : u.netloc = "" then
          .error (.domainError s!"Webhook URL должен содержать хост, передано {s}")
        else .ok ⟨s, by simpa [isWebhookUrl, h, hnetloc] using hscheme⟩
      else .error (.domainError ("Webhook URL должен использовать схему http или https, передано "
        ++ if u.scheme = "" then "без схемы" else u.scheme))

theorem value_of_new {s : String} {u : WebhookUrl} (h : new (.value s) = .ok u) :
    u.value = s := by
  unfold new at h
  simp only at h
  split at h
  · cases h
  · split_ifs at h
    cases h
    rfl

theorem new_value (u : WebhookUrl) : new (.value u.value) = .ok u := by
  have hv := u.valid
  unfold isWebhookUrl at hv
  unfold new
  simp only
  split
  · rename_i heq
    rw [heq] at hv
    simp at hv
  · rename_i p heq
    rw [heq] at hv
    simp only [Bool.and_eq_true, decide_eq_true_eq, ne_eq] at hv
    rw [dif_pos hv.1, dif_neg hv.2]

end WebhookUrl

end PaymentService
