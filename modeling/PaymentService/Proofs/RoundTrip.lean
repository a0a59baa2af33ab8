import PaymentService.Proofs.Storable
import PaymentService.Proofs.Correspondence
import PaymentService.Proofs.Marks

/-!
# A payment is stored and read back

The columns take a payment made of an accepted request as it is, with the amount as a number and
the times as instants, unless one of its texts has a U+0000 (`round_trips`).
-/

namespace PaymentService

open Python

/-- A payment made of a request whose amount was accepted, marked or not. -/
inductive FromRequest : Payment → Prop
  | created {amount currency description key url metadata paymentId createdAt uuid4 now p}
      (hamount : amountField amount.value = true)
      (h : Payment.create amount currency description key url metadata paymentId createdAt uuid4
        now = .ok p) : FromRequest p
  | succeeded {p processedAt now q} (hp : FromRequest p)
      (h : p.markSucceeded processedAt now = .ok q) : FromRequest q
  | failed {p processedAt now q} (hp : FromRequest p)
      (h : p.markFailed processedAt now = .ok q) : FromRequest q

/-- Equal on every field, the amount as a number and the times as instants. -/
structure SamePayment (p q : Payment) : Prop where
  id : p.id = q.id
  amount : p.amount.value.toRat = q.amount.value.toRat
  currency : p.currency = q.currency
  description : p.description = q.description
  idempotencyKey : p.idempotencyKey = q.idempotencyKey
  webhookUrl : p.webhookUrl = q.webhookUrl
  status : p.status = q.status
  createdAt : p.createdAt.instant = q.createdAt.instant
  processedAt : p.processedAt.map DateTime.instant = q.processedAt.map DateTime.instant
  metadata : p.metadata = q.metadata

/-- The model as its columns give it back. -/
def PaymentModel.readBack (m : PaymentModel) (amount : Numeric) : PaymentModel :=
  { m with
    amount := amount.toDecimal
    createdAt := .utc m.createdAt.instant
    processedAt := (m.processedAt.map DateTime.instant).map .utc }

/-- What an INSERT of the payment's model does: the amount fits as it is and the CHECKs hold, so
only a U+0000 is refused. What the columns give back is the payment, and any row there is has the
hash and loads as the payment. -/
structure RoundTrips (p : Payment) (requestHash : String) : Prop where
  fits : ∃ n, Numeric.ofDecimal p.amount.value = .ok n ∧ 0 ≤ n.cents
    ∧ n.toDecimal.toRat = p.amount.value.toRat
  status : p.status = .pending ↔ p.processedAt = none
  refused : ∀ e, (paymentToModel p requestHash).toRow = .error e → e = invalidText
  stored : (∃ row, (paymentToModel p requestHash).toRow = .ok row) ↔
    textOk p.description = true ∧ textOk p.idempotencyKey.value = true
      ∧ textOk p.webhookUrl.value = true
  mapped : ∀ n, Numeric.ofDecimal p.amount.value = .ok n →
    ∃ q, paymentFromModel ((paymentToModel p requestHash).readBack n) = .ok q ∧ SamePayment q p
  back : ∀ row, (paymentToModel p requestHash).toRow = .ok row →
    row.requestHash = requestHash ∧ ∃ q, row.toPayment = .ok q ∧ SamePayment q p

/-! ## Before it is stored -/

theorem marked_ok {p q : Payment} {status : PaymentStatus} {processedAt : Option (Raw DateTime)}
    {now : ℤ} (hfinal : status ≠ .pending) (h : p.transitionTo status processedAt now = .ok q) :
    q.amount = p.amount ∧ (q.status = .pending ↔ q.processedAt = none) := by
  obtain ⟨-, hstatus, hprocessed, hamount⟩ := Payment.transitionTo_ok h
  exact ⟨hamount, iff_of_false (hstatus ▸ hfinal) hprocessed⟩

theorem fromRequest_ok {p : Payment} (h : FromRequest p) : amountField p.amount.value = true
    ∧ (p.status = .pending ↔ p.processedAt = none) := by
  induction h with
  | created hamount h =>
    obtain ⟨hstatus, hprocessed, rfl⟩ := create_pending h
    exact ⟨hamount, iff_of_true hstatus hprocessed⟩
  | succeeded hp h ih =>
    obtain ⟨hamount, hlinked⟩ := marked_ok (by decide) h
    exact ⟨hamount ▸ ih.1, hlinked⟩
  | failed hp h ih =>
    obtain ⟨hamount, hlinked⟩ := marked_ok (by decide) h
    exact ⟨hamount ▸ ih.1, hlinked⟩

/-! ## Its row -/

theorem toModel_of_toRow {m : PaymentModel} {row : PaymentRow} (hchecks : m.ChecksHold)
    (h : m.toRow = .ok row) : row.toModel = m.readBack row.amount
      ∧ Numeric.ofDecimal m.amount = .ok row.amount := by
  simp only [PaymentModel.toRow, Except.bind_eq_ok] at h
  obtain ⟨amount, hamount, description, hd, metadata, hm, key, hk, hash, hh, url, hu, h⟩ := h
  obtain rfl := text_ok hd
  obtain rfl := jsonb_ok hm
  obtain rfl := varchar_of_le hchecks.key hk
  obtain rfl := varchar_of_le hchecks.hash hh
  obtain rfl := text_ok hu
  split_ifs at h
  cases h
  exact ⟨rfl, hamount⟩

/-- What the columns give back of a payment is the payment. -/
theorem samePayment_readBack (p : Payment) (requestHash : String) {n : Numeric}
    (hn : Numeric.ofDecimal p.amount.value = .ok n) (hnonneg : 0 ≤ n.cents) :
    ∃ q, paymentFromModel ((paymentToModel p requestHash).readBack n) = .ok q
      ∧ SamePayment q p := by
  have hneg : ¬ (n.toDecimal.neg = true ∧ n.toDecimal.coeff ≠ 0) := by
    simp only [Numeric.toDecimal, decide_eq_true_eq]
    omega
  have hutc : DateTime.instant ∘ DateTime.utc = id := funext DateTime.instant_utc
  refine ⟨⟨p.id, ⟨n.toDecimal, hneg, le_refl 2⟩, p.currency, p.description, p.idempotencyKey,
    p.webhookUrl, p.status, .utc p.createdAt.instant,
    (p.processedAt.map DateTime.instant).map .utc, p.metadata, by simp, ?_⟩, ?_, ?_⟩
  · rintro t ht
    obtain ⟨i, -, rfl⟩ := Option.map_eq_some_iff.1 ht
    simp
  · simp only [paymentFromModel, PaymentModel.readBack, paymentToModel, Except.bind_eq_ok,
      Payment.new_utc]
    exact ⟨_, Amount.new_value ⟨n.toDecimal, hneg, le_refl 2⟩, _, IdempotencyKey.new_value _, _,
      WebhookUrl.new_value _, rfl⟩
  · exact {
      id := rfl
      amount := toRat_of_cents p.amount.scale (ofDecimal_ok hn)
      currency := rfl
      description := rfl
      idempotencyKey := rfl
      webhookUrl := rfl
      status := rfl
      createdAt := DateTime.instant_utc _
      processedAt := by rw [Option.map_map, hutc, Option.map_id_fun, id]
      metadata := rfl }

/-- With metadata that `jsonb` takes, and the hash of any bytes. -/
theorem round_trips {p : Payment} (h : FromRequest p)
    (hmetadata : fieldsStorable p.metadata = true) (bytes : List UInt8) :
    RoundTrips p (sha256Hexdigest bytes) := by
  obtain ⟨hamount, hstatus⟩ := fromRequest_ok h
  have hchecks := checksHold hamount hstatus (length_sha256Hexdigest bytes).le
  obtain ⟨n, hn, hnonneg⟩ := ofDecimal_accepted hamount
  have hmapped : ∀ k, Numeric.ofDecimal p.amount.value = .ok k → ∃ q,
      paymentFromModel ((paymentToModel p (sha256Hexdigest bytes)).readBack k) = .ok q
        ∧ SamePayment q p := by
    intro k hk
    obtain rfl := Except.ok.inj (hn.symm.trans hk)
    exact samePayment_readBack p _ hn hnonneg
  refine ⟨⟨n, hn, hnonneg, toRat_of_cents p.amount.scale (ofDecimal_ok hn)⟩, hstatus,
    fun e => toRow_refused hchecks hmetadata, ?_, hmapped, fun row hrow => ?_⟩
  · rw [exists_toRow_iff hchecks]
    simp only [paymentToModel, hmetadata, textOk_sha256Hexdigest, true_and]
  · obtain ⟨hmodel, hk⟩ := toModel_of_toRow hchecks hrow
    refine ⟨congrArg PaymentModel.requestHash hmodel, ?_⟩
    rw [PaymentRow.toPayment, hmodel]
    exact hmapped row.amount hk

/-- A payment of 100.50 that was marked, with a time two hours ahead of UTC. -/
theorem markedSample_round_trips : ∃ p q, FromRequest p
    ∧ p.markSucceeded (some (.value ⟨7200000000, some 7200000000⟩)) 0 = .ok q
    ∧ RoundTrips q (sha256Hexdigest []) := by
  obtain ⟨s, hs⟩ := sampleRow_loads
  have hamount : s.amount.value = ⟨false, 10050, -2⟩ := (toPayment_iff.1 hs).amount
  obtain ⟨p, hcreate, q, hmark, hmetadata⟩ : ∃ p, Payment.create s.amount .RUB (.value "order")
      s.idempotencyKey s.webhookUrl none none none 1 0 = .ok p
      ∧ ∃ q, p.markSucceeded (some (.value ⟨7200000000, some 7200000000⟩)) 0 = .ok q
        ∧ fieldsStorable q.metadata = true := ⟨_, rfl, _, rfl, rfl⟩
  have hp := FromRequest.created (by rw [hamount]; decide) hcreate
  exact ⟨p, q, hp, hmark, round_trips (hp.succeeded hmark) hmetadata []⟩

end PaymentService
