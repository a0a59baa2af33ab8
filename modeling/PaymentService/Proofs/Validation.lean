import PaymentService.Proofs.Conflicts
import PaymentService.Proofs.Storable

/-!
# What validation lets through

A body that both layers of validation accept can still hold what no column takes (a U+0000, a lone
surrogate, a NaN), or be nested deeper than `model_dump` goes. Validation is complete for a body
exactly if it is clean and nested no deeper (`isComplete_iff`).
-/

namespace PaymentService

open Python

/-! ## Content -/

/-- What the tables take of a body and its key: no lone surrogate, no U+0000 and no float that is
not finite. -/
structure CreatePaymentRequest.IsClean (r : CreatePaymentRequest) (idempotencyKey : String) :
    Prop where
  description : textOk r.description = true
  metadata : (PyJson.obj r.metadata).all strOk PyJson.isFinite = true
  idempotencyKey : textOk idempotencyKey = true
  webhookUrl : textOk r.webhookUrl = true

/-! ## The payment of an accepted body -/

/-- The domain takes the values of the body and the key; `Payment.create` asks nothing more of a
`str` and a `dict`. -/
structure IsAccepted (r : CreatePaymentRequest) (idempotencyKey : String) : Prop where
  amount : ∃ a, Amount.new (.value (.finite r.amount)) = .ok a
  key : ∃ k, IdempotencyKey.new (.value idempotencyKey) = .ok k
  webhookUrl : ∃ u, WebhookUrl.new (.value r.webhookUrl) = .ok u

/-- A pending payment with the values of a body and a key. -/
structure PaymentOf (r : CreatePaymentRequest) (idempotencyKey : String) (payment : Payment) :
    Prop where
  amount : payment.amount.value = r.amount
  description : payment.description = r.description
  metadata : payment.metadata = dictOf r.metadata
  key : payment.idempotencyKey.value = idempotencyKey
  webhookUrl : payment.webhookUrl.value = r.webhookUrl
  pending : payment.status = .pending
  processedAt : payment.processedAt = none

section

variable {modelDump : CreatePaymentRequest → Except PyError (List (PyStr × PyJson))}
  {scalar maxDepth : ℕ} {floatRepr : BitVec 64 → List Char} {r : CreatePaymentRequest}
  {key : String} {payment : Payment}

theorem IsAccepted.build (h : IsAccepted r key) (hash : String) (d : Draw) :
    ∃ payment, buildPayment (r.withHash key hash) d = .ok payment ∧ PaymentOf r key payment := by
  obtain ⟨a, ha⟩ := h.amount
  obtain ⟨k, hk⟩ := h.key
  obtain ⟨u, hu⟩ := h.webhookUrl
  have hbuilt : buildPayment (r.withHash key hash) d = .ok ⟨d.paymentId, a, r.currency,
      r.description, k, u, .pending, .utc d.createdAt, none, dictOf r.metadata,
      rfl, by simp⟩ := by
    simp only [buildPayment, CreatePaymentRequest.withHash, ha, hk, hu]
    rfl
  exact ⟨_, hbuilt, Amount.value_of_new ha, rfl, rfl, IdempotencyKey.value_of_new hk,
    WebhookUrl.value_of_new hu, rfl, rfl⟩

theorem PaymentOf.exists_toRow_iff (h : PaymentOf r key payment) (bytes : List UInt8) :
    (∃ row, (paymentToModel payment (sha256Hexdigest bytes)).toRow = .ok row) ↔
      r.IsClean key := by
  have hchecks : (paymentToModel payment (sha256Hexdigest bytes)).ChecksHold :=
    checksHold (h.amount ▸ r.amount_ok) (iff_of_true h.pending h.processedAt)
      (length_sha256Hexdigest bytes).le
  have hmetadata : fieldsStorable (dictOf r.metadata) =
      (PyJson.obj r.metadata).all strOk PyJson.isFinite := fieldsStorable_dictOf r.metadata
  rw [PaymentService.exists_toRow_iff hchecks]
  simp only [paymentToModel, h.description, h.metadata, h.key, h.webhookUrl,
    textOk_sha256Hexdigest, true_and, hmetadata]
  exact ⟨fun h => ⟨h.1, h.2.1, h.2.2.1, h.2.2.2⟩,
    fun h => ⟨h.description, h.metadata, h.idempotencyKey, h.webhookUrl⟩⟩

theorem CreatePaymentRequest.IsClean.plain (h : r.IsClean key) :
    r.IsText ∧ PyJson.Finite (.obj r.metadata) :=
  plain_of_storable ((fieldsStorable_dictOf r.metadata).trans h.metadata)

/-! ## Completeness -/

/-- The rows a request finds can be loaded and the ids it draws are new. -/
structure Ready (db : Db) (d : Draw) : Prop where
  loads : ∀ row ∈ db.payments, ∃ payment, row.toPayment = .ok payment
  paymentId : ∀ row ∈ db.payments, row.id ≠ d.paymentId
  messageId : ∀ m ∈ db.outbox, m.id ≠ d.messageId

/-- The body has a hash, its payment and its event have rows, and the request ends as created or
replayed or with a 409. -/
structure IsComplete (modelDump : CreatePaymentRequest → Except PyError (List (PyStr × PyJson)))
    (floatRepr : BitVec 64 → List Char) (r : CreatePaymentRequest) (idempotencyKey : String) :
    Prop where
  hash : ∃ c, r.command modelDump floatRepr idempotencyKey = .ok c
  rows : ∀ c, r.command modelDump floatRepr idempotencyKey = .ok c → ∀ d payment,
    buildPayment c d = .ok payment → (∃ row, (paymentToModel payment c.requestHash).toRow = .ok row)
      ∧ ∃ message, (paymentCreated payment d.messageId).toRow d.insertedAt = .ok message
  ends : ∀ db d, Ready db d →
    (∃ body, (postPayment modelDump floatRepr db r idempotencyKey d).2 = .accepted body)
      ∨ ∃ text, (postPayment modelDump floatRepr db r idempotencyKey d).2 = .error 409 text

theorem storedReply_ends {row : PaymentRow} {c : CreatePaymentCommand}
    (h : ∃ payment, row.toPayment = .ok payment) :
    (∃ result, storedReply row c = .ok result)
      ∨ ∃ text, storedReply row c = .error (.idempotencyConflictError text) := by
  obtain ⟨payment, hp⟩ := h
  by_cases hhash : row.requestHash = c.requestHash
  · refine .inl ⟨⟨payment, false⟩, ?_⟩
    simp only [storedReply, hp, replayReply, replay, hhash, ne_eq, not_true_eq_false, if_false]
    rfl
  · exact .inr (storedReply_conflict hp hhash)

/-- With the rows of its payment and its event stored, nothing is left to fail. -/
theorem post_ends {c : CreatePaymentCommand} {db : Db} {d : Draw}
    (hc : r.command modelDump floatRepr key = .ok c) (hready : Ready db d)
    (hfails : ∀ e, ¬ FailsItself c d db.outbox e) :
    (∃ body, (postPayment modelDump floatRepr db r key d).2 = .accepted body)
      ∨ ∃ text, (postPayment modelDump floatRepr db r key d).2 = .error 409 text := by
  have hends := createPayment_ends (c := c) hready.paymentId
  simp only [postPayment, hc]
  generalize createPayment db c d = x at hends ⊢
  cases hends with
  | stored hfind =>
    rcases storedReply_ends (c := c) (hready.loads _ (List.mem_of_find?_eq_some hfind)) with
      ⟨result, hreply⟩ | ⟨text, hreply⟩ <;> rw [hreply]
    · exact .inl ⟨_, rfl⟩
    · exact .inr ⟨text, rfl⟩
  | failed hfree h => exact absurd h (hfails _)
  | created hfree h => exact .inl ⟨_, rfl⟩

/-- A command whose payment is built and whose rows are stored fails only on an event's id. -/
theorem not_failsItself {c : CreatePaymentCommand} {d : Draw} {outbox : List OutboxRow}
    {e : PyError} (hbuilt : buildPayment c d = .ok payment)
    (hrow : ∃ row, (paymentToModel payment c.requestHash).toRow = .ok row)
    (hmessage : ∃ message, (paymentCreated payment d.messageId).toRow d.insertedAt = .ok message)
    (hid : ∀ m ∈ outbox, m.id ≠ d.messageId) : ¬ FailsItself c d outbox e := by
  obtain ⟨row, hrow⟩ := hrow
  obtain ⟨message, hmessage⟩ := hmessage
  rintro (hbuild | ⟨payment', hbuilt', hfails⟩)
  · exact nomatch hbuilt.symm.trans hbuild
  · obtain rfl : payment' = payment := Except.ok.inj (hbuilt'.symm.trans hbuilt)
    rcases hfails with hrow' | hmessage' | ⟨-, m, hm, hmid⟩
    · exact nomatch hrow.symm.trans hrow'
    · exact nomatch hmessage.symm.trans hmessage'
    · exact hid m hm hmid

theorem isComplete_of_clean (hd : IsModelDump scalar maxDepth modelDump) (h : IsAccepted r key)
    (hclean : r.IsClean key) (hdepth : r.depth scalar ≤ maxDepth) :
    IsComplete modelDump floatRepr r key := by
  obtain ⟨htext, hfinite⟩ := hclean.plain
  obtain ⟨bytes, hbytes, -⟩ := payload_ok floatRepr (hd.plain r htext hfinite hdepth) htext
  have hc := command_of_payload hbytes key
  have hrows : ∀ d payment, buildPayment (r.withHash key (sha256Hexdigest bytes)) d = .ok payment →
      (∃ row, (paymentToModel payment (sha256Hexdigest bytes)).toRow = .ok row)
        ∧ ∃ message, (paymentCreated payment d.messageId).toRow d.insertedAt = .ok message := by
    intro d payment hbuilt
    obtain ⟨payment', hbuilt', hof⟩ := h.build (sha256Hexdigest bytes) d
    obtain rfl : payment' = payment := Except.ok.inj (hbuilt'.symm.trans hbuilt)
    refine ⟨(hof.exists_toRow_iff bytes).2 hclean, (exists_messageToRow_iff _ _).2 ⟨?_, ?_⟩⟩
    · rw [hof.webhookUrl]
      exact hclean.webhookUrl
    · rw [hof.key]
      exact hclean.idempotencyKey
  refine ⟨⟨_, hc⟩, fun c hc' => ?_, fun db d hready => post_ends hc hready fun e => ?_⟩
  · obtain rfl := Except.ok.inj (hc.symm.trans hc')
    exact hrows
  · obtain ⟨payment, hbuilt, -⟩ := h.build (sha256Hexdigest bytes) d
    obtain ⟨hrow, hmessage⟩ := hrows d payment hbuilt
    exact not_failsItself hbuilt hrow hmessage hready.messageId

/-- Validation is complete for a body it accepts if and only if the tables take the body and its
metadata is nested no deeper than the dump goes. -/
theorem isComplete_iff (hd : IsModelDump scalar maxDepth modelDump) (h : IsAccepted r key) :
    IsComplete modelDump floatRepr r key ↔ r.IsClean key ∧ r.depth scalar ≤ maxDepth := by
  refine ⟨fun hcomplete => ?_, fun hclean => isComplete_of_clean hd h hclean.1 hclean.2⟩
  obtain ⟨c, hc⟩ := hcomplete.hash
  obtain ⟨bytes, hbytes, rfl⟩ := command_ok hc
  obtain ⟨payment, hbuilt, hof⟩ := h.build (sha256Hexdigest bytes) ⟨1, 2, 0, 0⟩
  exact ⟨(hof.exists_toRow_iff bytes).1 (hcomplete.rows _ hc _ payment hbuilt).1,
    depth_le_of_payload hd hbytes⟩

end

/-! ## Two bodies -/

theorem accepted_sample {r : CreatePaymentRequest} (hamount : r.amount = ⟨false, 150000, -2⟩)
    (hurl : r.webhookUrl = "https://shop.example/hook") : IsAccepted r "key" := by
  obtain ⟨p, hp⟩ := sampleRow_loads
  have hl := toPayment_iff.1 hp
  refine ⟨⟨⟨⟨false, 150000, -2⟩, by decide, by decide⟩, ?_⟩, ⟨p.idempotencyKey, ?_⟩,
    p.webhookUrl, ?_⟩
  · rw [hamount, ← Amount.new_value]
  · have hkey : p.idempotencyKey.value = "key" := hl.idempotencyKey
    rw [← hkey, IdempotencyKey.new_value]
  · have hvalue : p.webhookUrl.value = "https://shop.example/hook" := hl.webhookUrl
    rw [hurl, ← hvalue, WebhookUrl.new_value]

theorem firstBody_isComplete : IsComplete sampleDump sampleFloatRepr firstBody "key" := by
  have hclean : firstBody.IsClean "key" := ⟨by decide, by decide +kernel, by decide, by decide⟩
  exact (isComplete_iff isModelDump_sample (accepted_sample rfl rfl)).2
    ⟨hclean, show PyJson.fieldsDepth 1 sampleMetadata ≤ 254 by decide +kernel⟩

theorem nulDescription_le : "a\x00b".length ≤ DESCRIPTION_MAX_LENGTH := by
  decide +kernel

/-- A body with a U+0000 in its description. -/
def nulBody : CreatePaymentRequest :=
  ⟨⟨false, 150000, -2⟩, .RUB, "a\x00b", [], "https://shop.example/hook",
    amountField_sample, nulDescription_le, keysOk_nil⟩

set_option maxRecDepth 100000 in
/-- The body is accepted, and the request ends as an exception that nothing handles. -/
theorem nulBody_unhandled : IsAccepted nulBody "key"
    ∧ (postPayment sampleDump sampleFloatRepr ⟨[], []⟩ nulBody "key" ⟨1, 2, 0, 0⟩).2 =
      .unhandled (.dataError "invalid byte sequence for encoding \"UTF8\": 0x00")
    ∧ ¬ IsComplete sampleDump sampleFloatRepr nulBody "key" := by
  have hpost : (postPayment sampleDump sampleFloatRepr ⟨[], []⟩ nulBody "key" ⟨1, 2, 0, 0⟩).2 =
      .unhandled (.dataError "invalid byte sequence for encoding \"UTF8\": 0x00") := by
    decide +kernel
  refine ⟨accepted_sample rfl rfl, hpost, fun hcomplete => ?_⟩
  have hready : Ready ⟨[], []⟩ ⟨1, 2, 0, 0⟩ := ⟨by simp, by simp, by simp⟩
  rcases hcomplete.ends _ _ hready with ⟨body, h⟩ | ⟨text, h⟩
  · exact nomatch hpost.symm.trans h
  · exact nomatch hpost.symm.trans h

end PaymentService
