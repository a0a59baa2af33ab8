import PaymentService.Proofs.RequestHash
import PaymentService.Proofs.Storable
import PaymentService.Proofs.Linearizable
import PaymentService.Proofs.ProcessSteps

/-!
# A body that is sent again is replayed

Bodies with the same fields have one hash, so the second of them is answered with the payment of the
first whenever that is stored (`same_body_replayed`). An amount is hashed as it was written, so one
amount in two spellings is a conflict (`respelled_conflict`).
-/

namespace PaymentService

open Python

/-! ## One hash -/

section

variable {modelDump : CreatePaymentRequest → Except PyError (List (PyStr × PyJson))}
  {scalar maxDepth : ℕ} {floatRepr : BitVec 64 → List Char} {r r₁ r₂ : CreatePaymentRequest}
  {key : String} {c c₁ c₂ : CreatePaymentCommand}

theorem payload_congr (h : SameBody r₁ r₂) (hd₁ : modelDump r₁ = .ok r₁.fields)
    (hd₂ : modelDump r₂ = .ok r₂.fields) :
    r₁.payload modelDump floatRepr = r₂.payload modelDump floatRepr := by
  have hsorted := (PyJson.sortKeys_eq_iff r₁.keysOk_fields r₂.keysOk_fields).2
    (CreatePaymentRequest.same_fields.2 h)
  simp only [CreatePaymentRequest.payload, hd₁, hd₂, bind, Except.bind, PyJson.dumps, hsorted]

theorem command_ok (h : r.command modelDump floatRepr key = .ok c) : ∃ bytes,
    r.payload modelDump floatRepr = .ok bytes ∧ c = r.withHash key (sha256Hexdigest bytes) := by
  rw [CreatePaymentRequest.command, CreatePaymentRequest.requestHash] at h
  rcases hp : r.payload modelDump floatRepr with e | bytes <;> rw [hp] at h <;> cases h
  exact ⟨bytes, rfl, rfl⟩

theorem command_of_payload {bytes : List UInt8} (h : r.payload modelDump floatRepr = .ok bytes)
    (key : String) :
    r.command modelDump floatRepr key = .ok (r.withHash key (sha256Hexdigest bytes)) := by
  rw [CreatePaymentRequest.command, CreatePaymentRequest.requestHash, h]
  rfl

/-- A body whose payment is stored is dumped as it is if it is dumped at all, and so is every body
with the same fields. -/
theorem sameBody_payload {hash : String} {d : Draw} {db db' : Db} {payment : Payment}
    {row : PaymentRow} {message : OutboxRow} {bytes : List UInt8}
    (hd : IsModelDump scalar maxDepth modelDump) (hsame : SameBody r₁ r₂)
    (hstored : Inserted (r₁.withHash key hash) d db payment row message db')
    (hbytes : r₁.payload modelDump floatRepr = .ok bytes) :
    r₂.payload modelDump floatRepr = .ok bytes := by
  obtain ⟨-, -, -, -, -, hmetadata⟩ := buildPayment_ok hstored.built
  have hjson : jsonb payment.metadata = .ok row.metadata := hstored.rowOf.metadata
  rw [← Raw.value.inj hmetadata] at hjson
  obtain ⟨htext, hfinite⟩ := plain_of_storable (exists_jsonb_iff.1 ⟨_, hjson⟩)
  have hdepth : r₁.depth scalar ≤ maxDepth := depth_le_of_payload hd hbytes
  have hd₁ := hd.plain r₁ htext hfinite hdepth
  have hdepth₂ : r₂.depth scalar ≤ maxDepth := hsame.depth_eq scalar ▸ hdepth
  have hd₂ := hd.plain r₂ (hsame.isText htext) (hsame.finite hfinite) hdepth₂
  exact payload_congr hsame hd₁ hd₂ ▸ hbytes

/-! ## The stored row -/

/-- A row of a payment is found by its key in any later version, with its hash. -/
theorem Inserted.later {d : Draw} {db db' : Db} {payment : Payment} {row : PaymentRow}
    {message : OutboxRow} (h : Inserted c d db payment row message db')
    (hlen : c.requestHash.length ≤ 64) {rows : List PaymentRow} (hlater : Later db'.payments rows)
    (hunique : (rows.map PaymentRow.idempotencyKey).Nodup) :
    ∃ r, rows.find? (·.idempotencyKey = c.idempotencyKey) = some r ∧ r.id = payment.id
      ∧ r.requestHash = c.requestHash ∧ ∃ q, LoadsAs r q := by
  obtain ⟨r, hr, hversion, -⟩ := hlater row (by rw [h.db]; simp)
  have hkey : row.idempotencyKey = c.idempotencyKey :=
    h.rowOf.key.trans (buildPayment_ok h.built).2.2.1
  have hrkey : r.idempotencyKey = row.idempotencyKey :=
    (congrArg PaymentRow.idempotencyKey hversion :)
  have hrurl : r.webhookUrl = row.webhookUrl := (congrArg PaymentRow.webhookUrl hversion :)
  refine ⟨r, ?_, ?_, ?_, ?_⟩
  · refine find?_eq_some_of_unique hr (by simp [hrkey, hkey]) fun r' hr' h' => ?_
    refine List.inj_on_of_nodup_map hunique hr' hr ?_
    rw [hrkey, hkey]
    simpa using h'
  · exact (congrArg PaymentRow.id hversion :).trans h.rowOf.id
  · exact (congrArg PaymentRow.requestHash hversion :).trans
      (varchar_of_le (s := c.requestHash) hlen h.rowOf.requestHash)
  · exact exists_loadsAs (hrkey.trans h.rowOf.key) (hrurl.trans h.rowOf.webhookUrl)

/-- The first body's payment is stored. Whenever a request with the second body looks its key up,
it is answered with that payment. -/
theorem same_body_replayed (hd : IsModelDump scalar maxDepth modelDump) (hsame : SameBody r₁ r₂)
    (hc : r₁.command modelDump floatRepr key = .ok c₁)
    {d₁ : Draw} {db₀ db₁ db : Db} {payment : Payment} {row : PaymentRow} {message : OutboxRow}
    (hstored : Inserted c₁ d₁ db₀ payment row message db₁)
    (hlater : Later db₁.payments db.payments)
    (hunique : (db.payments.map PaymentRow.idempotencyKey).Nodup) (d₂ : Draw) :
    ∃ c₂ q, r₂.command modelDump floatRepr key = .ok c₂ ∧ q.id = payment.id
      ∧ createPayment db c₂ d₂ = (db, .ok ⟨q, false⟩)
      ∧ postPayment modelDump floatRepr db r₂ key d₂ = (db, .accepted (.fromDomain q))
      ∧ afterLookup c₂ (PaymentRepository.getByIdempotencyKey db.payments key) =
        .reply (.ok ⟨q, false⟩)
      ∧ ∀ e, afterLookupAgain c₂ e (PaymentRepository.getByIdempotencyKey db.payments key) =
        .reply (.ok ⟨q, false⟩) := by
  obtain ⟨bytes, hbytes, rfl⟩ := command_ok hc
  have hc₂ := command_of_payload (sameBody_payload hd hsame hstored hbytes) key
  have hlen : (sha256Hexdigest bytes).length ≤ 64 := (length_sha256Hexdigest bytes).le
  obtain ⟨r, hfind, hid, hhash, q, hq⟩ := hstored.later hlen hlater hunique
  generalize hc₂' : r₂.withHash key (sha256Hexdigest bytes) = c₂ at hc₂
  have hkey : c₂.idempotencyKey = key := by rw [← hc₂']; rfl
  have hhash₂ : r.requestHash = c₂.requestHash := by rw [hhash, ← hc₂']; rfl
  have hfind₂ : db.payments.find? (·.idempotencyKey = c₂.idempotencyKey) = some r := by
    rw [hkey]
    exact hfind
  have hreply : storedReply r c₂ = .ok ⟨q, false⟩ := by
    simp only [storedReply, toPayment_iff.2 hq, replayReply, replay]
    rw [if_neg (not_not.2 hhash₂)]
    rfl
  have hcreate : createPayment db c₂ d₂ = (db, .ok ⟨q, false⟩) := by
    rw [createPayment_stored hfind₂, hreply]
  obtain ⟨hfirst, hagain⟩ := lookup_stored hfind₂
  rw [hkey, hreply] at hfirst hagain
  refine ⟨_, q, hc₂, hq.id.trans hid, hcreate, ?_, hfirst, hagain⟩
  simp only [postPayment, hc₂, hcreate]

/-- A request with a new key that is accepted has stored a payment. -/
theorem inserted_of_accepted {db : Db} {d : Draw} {body : PaymentAcceptedResponse}
    (hc : r.command modelDump floatRepr key = .ok c) (hfree : ¬ KeyStored db.payments key)
    (hid : ∀ row ∈ db.payments, row.id ≠ d.paymentId)
    (h : (postPayment modelDump floatRepr db r key d).2 = .accepted body) :
    ∃ payment row message,
      Inserted c d db payment row message (postPayment modelDump floatRepr db r key d).1 := by
  obtain ⟨bytes, -, rfl⟩ := command_ok hc
  have hends := createPayment_ends (c := r.withHash key (sha256Hexdigest bytes)) hid
  simp only [postPayment, hc] at h ⊢
  generalize createPayment db (r.withHash key (sha256Hexdigest bytes)) d = x at hends h ⊢
  cases hends with
  | @stored row hfind =>
    have hnone : db.payments.find? (·.idempotencyKey = key) = none := find?_eq_none_iff.2 hfree
    exact absurd (hnone.symm.trans hfind) (Option.some_ne_none row).symm
  | @failed e _ _ => cases e <;> cases h
  | created _ hinserted => exact ⟨_, _, _, hinserted⟩

end

/-! ## The same body with its keys in another order -/

theorem sampleBody_same : SameBody firstBody secondBody := by
  refine ⟨rfl, rfl, rfl, ?_, rfl⟩
  exact (PyJson.sortKeys_eq_iff firstBody.metadata_keys secondBody.metadata_keys).1 rfl

/-- The database after the first of the two. -/
def afterFirst : Db :=
  (postPayment sampleDump sampleFloatRepr ⟨[], []⟩ firstBody "key" ⟨1, 2, 0, 0⟩).1

set_option maxRecDepth 100000 in
theorem firstBody_accepted : (postPayment sampleDump sampleFloatRepr ⟨[], []⟩ firstBody "key"
    ⟨1, 2, 0, 0⟩).2 = .accepted ⟨1, .pending, .utc 0⟩ := by
  decide +kernel

theorem secondBody_replayed : ∃ c payment row message,
    Inserted c ⟨1, 2, 0, 0⟩ ⟨[], []⟩ payment row message afterFirst
      ∧ ∃ q, q.id = payment.id
        ∧ postPayment sampleDump sampleFloatRepr afterFirst secondBody "key" ⟨3, 4, 0, 0⟩ =
          (afterFirst, .accepted (.fromDomain q)) := by
  obtain ⟨bytes, hbytes, -⟩ := payload_ok sampleFloatRepr firstBody_dump firstBody_isText
  have hc := command_of_payload hbytes "key"
  obtain ⟨payment, row, message, hinserted⟩ : ∃ payment row message,
      Inserted _ ⟨1, 2, 0, 0⟩ ⟨[], []⟩ payment row message afterFirst :=
    inserted_of_accepted hc (by simp [KeyStored]) (by simp) firstBody_accepted
  have hunique : (afterFirst.payments.map PaymentRow.idempotencyKey).Nodup := by
    have hdb : afterFirst = _ := hinserted.db
    rw [hdb]
    simp
  obtain ⟨c₂, q, -, hid, -, hpost, -⟩ := same_body_replayed isModelDump_sample sampleBody_same hc
    hinserted (Later.refl afterFirst.payments) hunique ⟨3, 4, 0, 0⟩
  exact ⟨_, payment, row, message, hinserted, q, hid, hpost⟩

/-! ## Two spellings -/

theorem amountField_whole : amountField ⟨false, 1500, 0⟩ = true := by decide

theorem keysOk_nil : (PyJson.obj []).keysOk = true := by decide

/-- A body of 1500 roubles, written without a point. -/
def wholeBody : CreatePaymentRequest :=
  ⟨⟨false, 1500, 0⟩, .RUB, "order", [], "https://shop.example/hook",
    amountField_whole, sampleDescription_le, keysOk_nil⟩

/-- The database after the first request. -/
def afterWhole : Db :=
  (postPayment sampleDump sampleFloatRepr ⟨[], []⟩ wholeBody "key" ⟨1, 2, 0, 0⟩).1

set_option maxRecDepth 100000 in
/-- The amounts are one number, and the second request with the key is refused. -/
theorem respelled_conflict :
    wholeBody.amount.toRat = (sampleBody [] keysOk_nil).amount.toRat
      ∧ (postPayment sampleDump sampleFloatRepr ⟨[], []⟩ wholeBody "key" ⟨1, 2, 0, 0⟩).2 =
        .accepted ⟨1, .pending, .utc 0⟩
      ∧ (postPayment sampleDump sampleFloatRepr afterWhole (sampleBody [] keysOk_nil) "key"
        ⟨3, 4, 0, 0⟩).2 =
        .error 409 "Ключ идемпотентности key уже использован с другим телом запроса" := by
  refine ⟨?_, ?_, ?_⟩
  · norm_num [wholeBody, sampleBody, SciDecimal.toRat]
  · decide +kernel
  · decide +kernel

end PaymentService
