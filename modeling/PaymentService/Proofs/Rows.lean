import PaymentService.Storage

/-!
# What a row loads as

Loading a row either raises or gives the payment whose fields are the row's (`LoadsAs`), so a row
and its later versions load as payments that differ in status and `processed_at` only.
-/

namespace PaymentService

open Python

/-- The payment is what the row holds. -/
structure LoadsAs (r : PaymentRow) (p : Payment) : Prop where
  id : p.id = r.id
  amount : p.amount.value = r.amount.toDecimal
  currency : p.currency = r.currency
  description : p.description = r.description
  metadata : p.metadata = r.metadata
  status : p.status = r.status
  idempotencyKey : p.idempotencyKey.value = r.idempotencyKey
  webhookUrl : p.webhookUrl.value = r.webhookUrl
  createdAt : p.createdAt = .utc r.createdAt
  processedAt : p.processedAt = r.processedAt.map .utc

theorem Except.bind_eq_ok {ε α β : Type} {x : Except ε α} {f : α → Except ε β} {b : β} :
    (x >>= f) = .ok b ↔ ∃ a, x = .ok a ∧ f a = .ok b := by
  cases x with
  | error e => simp [bind, Except.bind]
  | ok a => simp [bind, Except.bind]

theorem Payment.new_utc (id : UUID) (amount : Amount) (currency : Currency) (description : String)
    (key : IdempotencyKey) (url : WebhookUrl) (status : PaymentStatus) (createdAt : ℤ)
    (processedAt : Option ℤ) (metadata : Dict) :
    Payment.new id amount currency (.value description) key url status (.value (.utc createdAt))
      ((processedAt.map .utc).map .value) (.value metadata) = .ok ⟨id, amount, currency,
        description, key, url, status, .utc createdAt, processedAt.map .utc, metadata, by simp, by
          rintro t ht
          obtain ⟨i, -, rfl⟩ := Option.map_eq_some_iff.1 ht
          simp⟩ := by
  cases processedAt <;>
    simp only [Payment.new, Option.map_none, Option.map_some,
      ensureAware_value (DateTime.isAware_utc _)]

theorem toPayment_iff {r : PaymentRow} {p : Payment} : r.toPayment = .ok p ↔ LoadsAs r p := by
  simp only [PaymentRow.toPayment, paymentFromModel, PaymentRow.toModel, Except.bind_eq_ok,
    Payment.new_utc]
  constructor
  · rintro ⟨amount, ha, key, hk, url, hu, hp⟩
    cases hp
    exact ⟨rfl, Amount.value_of_new ha, rfl, rfl, rfl, rfl, IdempotencyKey.value_of_new hk,
      WebhookUrl.value_of_new hu, rfl, rfl⟩
  · intro h
    refine ⟨p.amount, ?_, p.idempotencyKey, ?_, p.webhookUrl, ?_, ?_⟩
    · rw [← h.amount, Amount.new_value]
    · rw [← h.idempotencyKey, IdempotencyKey.new_value]
    · rw [← h.webhookUrl, WebhookUrl.new_value]
    · congr 1
      exact Payment.ext h.id.symm rfl h.currency.symm h.description.symm rfl rfl h.status.symm
        h.createdAt.symm h.processedAt.symm h.metadata.symm

theorem LoadsAs.unique {r : PaymentRow} {p q : Payment} (hp : LoadsAs r p) (hq : LoadsAs r q) :
    p = q := Except.ok.inj ((toPayment_iff.2 hp).symm.trans (toPayment_iff.2 hq))

/-! ## Versions of a row -/

/-- The row as it was inserted. -/
def PaymentRow.asPending (r : PaymentRow) : PaymentRow :=
  { r with
    status := .pending
    processedAt := none
    processedAt_matches_status := by simp }

theorem asPending_of_pending {r : PaymentRow} (h : r.status = .pending) : r.asPending = r := by
  have hp := r.processedAt_matches_status.1 h
  obtain ⟨⟩ := r
  subst h hp
  rfl

@[simp]
theorem asPending_id (r : PaymentRow) : r.asPending.id = r.id := rfl

theorem setStatus_ok {r r' : PaymentRow} {status : PaymentStatus} {processedAt : Option ℤ}
    (h : r.setStatus status processedAt = .ok r') :
    r'.asPending = r.asPending ∧ r'.status = status ∧ r'.processedAt = processedAt := by
  unfold PaymentRow.setStatus at h
  split_ifs at h
  cases h
  exact ⟨rfl, rfl, rfl⟩

/-- A payment loaded before a version of its row was written, marked as that version says, is
what the version loads as. -/
theorem LoadsAs.marked {r : PaymentRow} {p q : Payment} {status : PaymentStatus} {now : ℤ}
    (h : LoadsAs r.asPending p) (hq : p.transitionTo status none now = .ok q)
    (hstatus : r.status = status) (hat : r.processedAt = some now) : LoadsAs r q := by
  obtain ⟨-, rfl⟩ := Payment.transitionTo_now hq
  exact ⟨h.id, h.amount, h.currency, h.description, h.metadata, hstatus.symm, h.idempotencyKey,
    h.webhookUrl, h.createdAt, by simp [hat]⟩

/-! ## Looking a row up -/

theorem get_eq_ok {payments : List PaymentRow} {id : UUID} {found : Option Payment}
    (h : PaymentRepository.get payments id = .ok found) :
    (found = none ∧ ∀ r ∈ payments, r.id ≠ id) ∨
      ∃ r ∈ payments, ∃ p, r.id = id ∧ LoadsAs r p ∧ found = some p := by
  unfold PaymentRepository.get at h
  rcases hf : payments.find? (·.id = id) with _ | r <;> rw [hf] at h
  · refine .inl ⟨(Except.ok.inj h).symm, fun r hr => ?_⟩
    simpa using List.find?_eq_none.1 hf r hr
  · rcases hp : r.toPayment with e | p
    · simp [hp, Except.map] at h
    · have hid := List.find?_some hf
      simp only [hp, Except.map, Except.ok.injEq] at h
      exact .inr ⟨r, List.mem_of_find?_eq_some hf, p, by simpa using hid, toPayment_iff.1 hp,
        h.symm⟩

theorem eq_of_id {payments : List PaymentRow} (hnodup : (payments.map PaymentRow.id).Nodup)
    {r r' : PaymentRow} (hr : r ∈ payments) (hr' : r' ∈ payments) (h : r.id = r'.id) : r = r' :=
  List.inj_on_of_nodup_map hnodup hr hr' h

theorem find?_eq_some_of_unique {α : Type*} {P : α → Bool} {a : α} :
    ∀ {l : List α}, a ∈ l → P a = true → (∀ b ∈ l, P b = true → b = a) → l.find? P = some a
  | b :: l, ha, hP, hunique => by
    rcases hb : P b with _ | _
    · rw [List.find?_cons_of_neg (by simp [hb])]
      refine find?_eq_some_of_unique ?_ hP fun c hc => hunique c (List.mem_cons_of_mem _ hc)
      rcases List.mem_cons.1 ha with rfl | ha
      · simp [hP] at hb
      · exact ha
    · rw [List.find?_cons_of_pos hb, hunique b List.mem_cons_self hb]

/-- With ids that differ, the row of an id is what a SELECT finds. -/
theorem get_of_mem {payments : List PaymentRow} (hids : (payments.map PaymentRow.id).Nodup)
    {r : PaymentRow} (hr : r ∈ payments) {p : Payment} (hp : LoadsAs r p) :
    PaymentRepository.get payments r.id = .ok (some p) := by
  have hfind : payments.find? (·.id = r.id) = some r :=
    find?_eq_some_of_unique hr (by simp) fun r' hr' h => eq_of_id hids hr' hr (by simpa using h)
  rw [PaymentRepository.get, hfind]
  simp [toPayment_iff.2 hp, Except.map]

/-- A row to run things on. -/
def sampleRow : PaymentRow where
  id := 1
  amount := ⟨10050, by decide⟩
  currency := .RUB
  description := "order"
  metadata := []
  status := .pending
  idempotencyKey := "key"
  requestHash := "hash"
  webhookUrl := "https://shop.example/hook"
  createdAt := 0
  processedAt := none
  amount_nonneg := by decide
  processedAt_matches_status := by decide

theorem sampleRow_loads : ∃ p, sampleRow.toPayment = .ok p := by
  have hsome : sampleRow.toPayment.toOption.isSome := by decide
  rcases hp : sampleRow.toPayment with e | p
  · rw [hp] at hsome
    cases hsome
  · exact ⟨p, rfl⟩

example : (sampleRow.toPayment.map fun p => (Decimal.finite p.amount.value).str) =
    .ok "100.50" := by
  decide

end PaymentService
