import PaymentService.CreatePayment
import PaymentService.Proofs.Rows

/-!
# What a step of a request does

A request has staged nothing, or the model and the event of the payment it built, until its COMMIT
adds one row of each (`Inserted`). No other step of it changes a table.
-/

namespace PaymentService

open Python

/-! ## The rows of a payment -/

theorem varchar_of_le {n : ℕ} {s t : String} (hlen : s.length ≤ n) (h : varchar n s = .ok t) :
    t = s := by
  unfold varchar at h
  split_ifs at h
  exact (Except.ok.inj h).symm

theorem text_ok {s t : String} (h : text s = .ok t) : t = s := by
  unfold text at h
  split_ifs at h
  exact (Except.ok.inj h).symm

theorem jsonb_ok {d e : Dict} (h : jsonb d = .ok e) : e = d := by
  unfold jsonb at h
  split_ifs at h
  exact (Except.ok.inj h).symm

theorem ofDecimal_ok {d : SciDecimal} {n : Numeric} (h : Numeric.ofDecimal d = .ok n) :
    n.cents = Numeric.centsOf d := by
  unfold Numeric.ofDecimal at h
  split_ifs at h
  exact congrArg Numeric.cents (Except.ok.inj h).symm

/-- The row is the model's, as far as a column keeps what it is given. -/
structure RowOf (m : PaymentModel) (row : PaymentRow) : Prop where
  id : row.id = m.id
  cents : row.amount.cents = Numeric.centsOf m.amount
  currency : row.currency = m.currency
  description : row.description = m.description
  metadata : jsonb m.metadata = .ok row.metadata
  status : row.status = m.status
  idempotencyKey : varchar IDEMPOTENCY_KEY_MAX_LENGTH m.idempotencyKey = .ok row.idempotencyKey
  requestHash : varchar 64 m.requestHash = .ok row.requestHash
  webhookUrl : row.webhookUrl = m.webhookUrl

theorem rowOf_of_toRow {m : PaymentModel} {row : PaymentRow} (h : m.toRow = .ok row) :
    RowOf m row := by
  simp only [PaymentModel.toRow, Except.bind_eq_ok] at h
  obtain ⟨amount, hamount, description, hdescription, metadata, hmetadata, key, hkey, hash, hhash,
    url, hurl, h⟩ := h
  split_ifs at h
  cases h
  exact ⟨rfl, ofDecimal_ok hamount, rfl, text_ok hdescription, jsonb_ok hmetadata ▸ hmetadata, rfl,
    hkey, hhash, text_ok hurl⟩

/-- The row of a payment has the payment's key. -/
theorem RowOf.key {payment : Payment} {requestHash : String} {row : PaymentRow}
    (h : RowOf (paymentToModel payment requestHash) row) :
    row.idempotencyKey = payment.idempotencyKey.value :=
  varchar_of_le payment.idempotencyKey.length_le h.idempotencyKey

/-- A row with a key and a URL the domain accepts can be loaded. -/
theorem exists_loadsAs {row : PaymentRow} {key : IdempotencyKey} {url : WebhookUrl}
    (hkey : row.idempotencyKey = key.value) (hurl : row.webhookUrl = url.value) :
    ∃ p, LoadsAs row p := by
  have hneg : ¬ (row.amount.toDecimal.neg = true ∧ row.amount.toDecimal.coeff ≠ 0) := by
    have := row.amount_nonneg
    simp only [Numeric.toDecimal, decide_eq_true_eq]
    omega
  exact ⟨⟨row.id, ⟨row.amount.toDecimal, hneg, le_refl 2⟩, row.currency, row.description, key, url,
    row.status, .utc row.createdAt, row.processedAt.map .utc, row.metadata, by simp, by
      rintro t ht
      obtain ⟨i, -, rfl⟩ := Option.map_eq_some_iff.1 ht
      simp⟩, ⟨rfl, rfl, rfl, rfl, rfl, rfl, hkey.symm, hurl.symm, rfl, rfl⟩⟩

theorem RowOf.loads {payment : Payment} {requestHash : String} {row : PaymentRow}
    (h : RowOf (paymentToModel payment requestHash) row) : ∃ p, LoadsAs row p :=
  exists_loadsAs h.key h.webhookUrl

theorem messageToRow_ok {payment : Payment} {messageId : UUID} {now : ℤ} {row : OutboxRow}
    (h : (paymentCreated payment messageId).toRow now = .ok row) :
    row = ⟨messageId, payment.id, PAYMENT_CREATED, (paymentCreated payment messageId).payload, now,
      none, 0, none⟩ := by
  simp only [OutboxMessage.toRow, Except.bind_eq_ok] at h
  obtain ⟨eventType, htype, payload, hpayload, h⟩ := h
  cases h
  rw [varchar_of_le (n := 64) (s := (paymentCreated payment messageId).eventType)
    (show PAYMENT_CREATED.length ≤ 64 by decide) htype, jsonb_ok hpayload]
  rfl

/-! ## What a command builds -/

theorem buildPayment_ok {c : CreatePaymentCommand} {d : Draw} {payment : Payment}
    (h : buildPayment c d = .ok payment) : payment.id = d.paymentId ∧ payment.status = .pending
      ∧ payment.idempotencyKey.value = c.idempotencyKey ∧ payment.processedAt = none
      ∧ payment.createdAt = .utc d.createdAt ∧ c.metadata = .value payment.metadata := by
  simp only [buildPayment, Except.bind_eq_ok] at h
  obtain ⟨amount, -, key, hkey, url, -, h⟩ := h
  have hk := IdempotencyKey.value_of_new hkey
  simp only [Payment.create, Option.getD_none, Option.getD_some] at h
  unfold Payment.new at h
  split at h
  · cases h
  · rcases hmetadata : c.metadata with metadata | _ <;> rw [hmetadata] at h
    · rw [ensureAware_value (DateTime.isAware_utc _)] at h
      cases h
      exact ⟨rfl, rfl, hk, rfl, rfl, rfl⟩
    · cases h

/-! ## The COMMIT -/

/-- The session of a request that has built a payment and staged everything. -/
def stagedSession (c : CreatePaymentCommand) (d : Draw) (payment : Payment) : Session :=
  ⟨[paymentToModel payment c.requestHash], [paymentCreated payment d.messageId]⟩

/-- A request added the row of a payment it built and the row of its event. -/
structure Inserted (c : CreatePaymentCommand) (d : Draw) (db : Db) (payment : Payment)
    (row : PaymentRow) (message : OutboxRow) (db' : Db) : Prop where
  built : buildPayment c d = .ok payment
  rowOf : RowOf (paymentToModel payment c.requestHash) row
  event : (paymentCreated payment d.messageId).toRow d.insertedAt = .ok message
  id : ∀ r ∈ db.payments, r.id ≠ row.id
  key : ∀ r ∈ db.payments, r.idempotencyKey ≠ row.idempotencyKey
  messageId : ∀ m ∈ db.outbox, m.id ≠ message.id
  db : db' = ⟨db.payments ++ [row], db.outbox ++ [message]⟩

theorem insertPayment_ok {db db' : Db} {model : PaymentModel}
    (h : db.insertPayment model = .ok db') : ∃ row, RowOf model row
      ∧ (∀ r ∈ db.payments, r.id ≠ row.id)
      ∧ (∀ r ∈ db.payments, r.idempotencyKey ≠ row.idempotencyKey)
      ∧ db' = { db with payments := db.payments ++ [row] } := by
  simp only [Db.insertPayment, Except.bind_eq_ok] at h
  obtain ⟨row, hrow, h⟩ := h
  split_ifs at h with hid hkey
  exact ⟨row, rowOf_of_toRow hrow, by simpa using hid, by simpa using hkey, (Except.ok.inj h).symm⟩

theorem insertMessage_ok {db db' : Db} {now : ℤ} {message : OutboxMessage}
    (h : db.insertMessage now message = .ok db') : ∃ row, message.toRow now = .ok row
      ∧ (∀ m ∈ db.outbox, m.id ≠ row.id) ∧ db' = { db with outbox := db.outbox ++ [row] } := by
  simp only [Db.insertMessage, Except.bind_eq_ok] at h
  obtain ⟨row, hrow, h⟩ := h
  split_ifs at h with hid
  exact ⟨row, hrow, by simpa using hid, (Except.ok.inj h).symm⟩

theorem inserted_of_commit {c : CreatePaymentCommand} {d : Draw} {payment : Payment} {db db' : Db}
    (hbuilt : buildPayment c d = .ok payment)
    (h : (stagedSession c d payment).commit db d.insertedAt = .ok db') :
    ∃ row message, Inserted c d db payment row message db' := by
  simp only [Session.commit, stagedSession, List.foldlM_cons, List.foldlM_nil,
    Except.bind_eq_ok] at h
  obtain ⟨db₁, ⟨db₀, hpayment, h₁⟩, db₂, hmessage, h₂⟩ := h
  obtain rfl : db₀ = db₁ := Except.ok.inj h₁
  obtain rfl : db₂ = db' := Except.ok.inj h₂
  obtain ⟨row, hrow, hid, hkey, rfl⟩ := insertPayment_ok hpayment
  obtain ⟨message, hevent, hmessageId, rfl⟩ := insertMessage_ok hmessage
  exact ⟨row, message, hbuilt, hrow, hevent, hid, hkey, hmessageId, rfl⟩

/-! ## Requests -/

/-- What a request that stands somewhere has built and staged. -/
def RequestOk (c : CreatePaymentCommand) (d : Draw) (r : Request) : Prop :=
  match r.pc with
  | .addPayment payment => buildPayment c d = .ok payment ∧ r.session = .empty
  | .addEvent payment => buildPayment c d = .ok payment
      ∧ r.session = ⟨[paymentToModel payment c.requestHash], []⟩
  | .commit payment => buildPayment c d = .ok payment ∧ r.session = stagedSession c d payment
  | .lookup | .build | .lookupAgain _ | .replied _ | .killed _ => r.session = .empty
  | .rollback _ | .reply _ => True

/-- The request has committed, whatever became of it since. -/
def Request.HasCreated (r : Request) : Prop :=
  ∃ payment, r.pc = .reply (.ok ⟨payment, true⟩) ∨ r.pc = .replied (.ok ⟨payment, true⟩)
    ∨ r.pc = .killed (.reply (.ok ⟨payment, true⟩))

section

variable {c : CreatePaymentCommand} {d : Draw} {db db' : Db} {r r' : Request}

theorem requestOk_start : RequestOk c d .start := rfl

theorem requestOk_reply (reply : CreateReply) (session : Session) :
    RequestOk c d ⟨.reply reply, session⟩ := trivial

/-- What holds after a step: the request is as it should be, and the tables are as they were unless
its COMMIT went through. -/
structure RequestStepOk (c : CreatePaymentCommand) (d : Draw) (db : Db) (r : Request)
    (act : CreateAct) (db' : Db) (r' : Request) : Prop where
  ok : RequestOk c d r'
  unchanged : db' = db ∨ ∃ payment row message, act = .next ∧ r.pc = .commit payment
    ∧ r' = ⟨.reply (.ok ⟨payment, true⟩), .empty⟩ ∧ Inserted c d db payment row message db'

theorem requestStepOk_next (hok : RequestOk c d r) (h : createNext c d db r = some (db', r')) :
    RequestStepOk c d db r .next db' r' := by
  obtain ⟨pc, session⟩ := r
  unfold createNext at h
  cases pc with
  | lookup =>
    cases h
    refine ⟨?_, .inl rfl⟩
    obtain rfl : session = .empty := hok
    unfold afterLookup
    split <;> trivial
  | build =>
    obtain rfl : session = .empty := hok
    rcases hb : buildPayment c d with e | payment <;> rw [hb] at h <;> cases h
    · exact ⟨trivial, .inl rfl⟩
    · exact ⟨⟨hb, rfl⟩, .inl rfl⟩
  | addPayment payment =>
    cases h
    obtain ⟨hb, rfl⟩ := hok
    exact ⟨⟨hb, rfl⟩, .inl rfl⟩
  | addEvent payment =>
    cases h
    obtain ⟨hb, rfl⟩ := hok
    exact ⟨⟨hb, rfl⟩, .inl rfl⟩
  | commit payment =>
    obtain ⟨hb, rfl⟩ := hok
    rcases hc : (stagedSession c d payment).commit db d.insertedAt with e | db₁ <;>
      simp only [hc, Option.some.injEq, Prod.mk.injEq] at h <;> obtain ⟨rfl, rfl⟩ := h
    · refine ⟨?_, .inl rfl⟩
      unfold afterCommitError
      split <;> trivial
    · obtain ⟨row, message, hinserted⟩ := inserted_of_commit hb hc
      exact ⟨trivial, .inr ⟨payment, row, message, rfl, rfl, rfl, hinserted⟩⟩
  | rollback error =>
    cases h
    exact ⟨rfl, .inl rfl⟩
  | lookupAgain error =>
    cases h
    refine ⟨?_, .inl rfl⟩
    unfold afterLookupAgain
    split <;> trivial
  | reply reply =>
    cases h
    exact ⟨rfl, .inl rfl⟩
  | replied reply => cases h
  | killed at_ => cases h

/-- A call that raises on its own account and a death leave the tables alone. -/
theorem requestStepOk {act : CreateAct} (hok : RequestOk c d r)
    (h : createStep c d db r act = some (db', r')) : RequestStepOk c d db r act db' r' := by
  cases act with
  | next => exact requestStepOk_next hok h
  | fail e =>
    obtain ⟨r₁, hfail, h⟩ := Option.map_eq_some_iff.1 h
    cases h
    refine ⟨?_, .inl rfl⟩
    unfold createFail at hfail
    split at hfail <;> cases hfail
    case h_6 =>
      unfold afterCommitError
      split <;> trivial
    all_goals trivial
  | kill =>
    obtain ⟨r₁, hkill, h⟩ := Option.map_eq_some_iff.1 h
    cases h
    refine ⟨?_, .inl rfl⟩
    unfold createKill at hkill
    split at hkill <;> cases hkill
    rfl

/-- Who has committed replies so, whatever comes. -/
theorem Request.HasCreated.step {act : CreateAct} (hcreated : r.HasCreated)
    (h : createStep c d db r act = some (db', r')) : r'.HasCreated := by
  obtain ⟨pc, session⟩ := r
  obtain ⟨payment, rfl | rfl | rfl⟩ := hcreated <;> cases act <;> cases h
  · exact ⟨payment, .inr (.inl rfl)⟩
  · exact ⟨payment, .inr (.inr rfl)⟩

end

def sampleCommand : CreatePaymentCommand where
  amount := .value (.finite ⟨false, 1005, -1⟩)
  currency := .RUB
  description := .value "order"
  metadata := .value []
  webhookUrl := .value "https://shop.example/hook"
  idempotencyKey := "key"
  requestHash := "hash"

def sampleDraw : Draw := ⟨1, 2, 0, 0⟩

end PaymentService
