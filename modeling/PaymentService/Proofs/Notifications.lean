import PaymentService.Proofs.Charge

/-!
# Notifications agree with the table

A notification is built from a fresh read, from the entity the call marked itself, or from the
second read after a lost update. All three are what the committed row loads as, and a final row
does not change again.
-/

namespace PaymentService

open Python Labelled

/-- The notification tells what the committed row of its payment says, and the row is final. -/
structure Agrees (s : ProcessState) (n : Notification) (r : PaymentRow) : Prop where
  mem : r ∈ s.payments
  id : r.id = n.paymentId
  final : r.status ≠ .pending
  processed : r.processedAt ≠ none
  url : n.url = r.webhookUrl
  payload : ∃ p, r.toPayment = .ok p ∧ n.payload = webhookPayload p
  tellsStatus : n.payload.lookup "status" = some (.str r.status.value)
  tellsTime : ∃ t, n.payload.lookup "processed_at" = some (.str t)

theorem agrees_of_loadsAs {s : ProcessState} {r : PaymentRow} {p : Payment} (hr : r ∈ s.payments)
    (hfinal : r.status ≠ .pending) (hp : LoadsAs r p) : Agrees s (notificationOf p) r := by
  have hprocessed : r.processedAt ≠ none := fun h => hfinal (r.processedAt_matches_status.2 h)
  obtain ⟨t, ht⟩ := Option.ne_none_iff_exists'.1 hprocessed
  refine ⟨hr, hp.id.symm, hfinal, hprocessed, hp.webhookUrl, ⟨p, toPayment_iff.2 hp, rfl⟩, ?_,
    (DateTime.utc t).isoformat, ?_⟩
  · simp [notificationOf, webhookPayload, List.lookup_cons, hp.status]
  · simp [notificationOf, webhookPayload, List.lookup_cons, hp.processedAt, ht]

theorem Notifies.agrees {s : ProcessState} {n : Notification} (h : Notifies s n) :
    ∃ r, Agrees s n r := by
  obtain ⟨r, hr, hfinal, p, hp, rfl⟩ := h
  exact ⟨r, agrees_of_loadsAs hr hfinal hp⟩

/-- What a step adds to the notifications was final in the table before the step. -/
theorem notifies_before {s s' : ProcessState} {a : ProcessLabel} (hinv : ProcessInv s)
    (h : processMachine.step s a = some s') {n : Notification} (hn : n ∈ s'.sent) :
    Notifies s n := by
  cases processMachine_trans h with
  | @send k id p hc =>
    rcases List.mem_append.1 hn with hn | hn
    · exact hinv.sent n hn
    · obtain ⟨-, r, hr, hp, hfinal⟩ := hinv.calls k _ hc
      exact ⟨r, hr, hfinal, p, hp, List.mem_singleton.1 hn⟩
  | update hc hfree => exact hinv.sent n (by simpa using hn)
  | _ => exact hinv.sent n hn

theorem eq_of_notifies {s : ProcessState} (hids : (s.payments.map PaymentRow.id).Nodup)
    {n m : Notification} (hn : Notifies s n) (hm : Notifies s m)
    (hid : n.paymentId = m.paymentId) : n = m := by
  obtain ⟨r, hr, -, p, hp, rfl⟩ := hn
  obtain ⟨r', hr', -, q, hq, rfl⟩ := hm
  obtain rfl := eq_of_id hids hr hr' (by rw [← hp.id, ← hq.id]; exact hid)
  rw [hp.unique hq]

/-- What a call of a payment passes to the sender is about that payment. -/
theorem send_agrees {s s' : ProcessState} (hinv : ProcessInv s) {k : ℕ} {id : UUID} {p : Payment}
    (hc : s.calls k = some ⟨id, .send p⟩) (h : processMachine.step s (.call k .next) = some s') :
    s'.sent = s.sent ++ [notificationOf p] ∧ ∃ r, r.id = id ∧ Agrees s (notificationOf p) r := by
  obtain ⟨hid, r, hr, hp, hfinal⟩ := hinv.calls k _ hc
  simp only [processMachine, processStep, hc, Option.bind_some, processNext,
    Option.some.injEq] at h
  exact ⟨h ▸ rfl, r, hp.id.symm.trans hid, agrees_of_loadsAs hr hfinal hp⟩

/-- Whatever reaches the sender agrees with the committed row, and with a row that was committed
before it was sent; two notifications of one payment are equal. -/
theorem notifications_agree {payments : List PaymentRow}
    (hids : (payments.map PaymentRow.id).Nodup) {as : List ProcessLabel} {s : ProcessState}
    (hrun : processMachine.run (.init payments) as = some s) :
    (∀ n ∈ s.sent, ∃ r, Agrees s n r)
      ∧ (∀ x ∈ processMachine.steps (.init payments) as, ∀ n ∈ x.2.2.sent, ∃ r, Agrees x.1 n r)
      ∧ (∀ x ∈ processMachine.steps (.init payments) as, ∀ k id p, x.2.1 = .call k .next →
          x.1.calls k = some ⟨id, .send p⟩ →
            x.2.2.sent = x.1.sent ++ [notificationOf p] ∧
              ∃ r, r.id = id ∧ Agrees x.1 (notificationOf p) r)
      ∧ ∀ n ∈ s.sent, ∀ m ∈ s.sent, n.paymentId = m.paymentId → n = m := by
  have hinv := processInv_run hids ⟨as, hrun⟩
  have hpre : ∀ x ∈ processMachine.steps (.init payments) as, ProcessInv x.1 :=
    fun x hx => processInv_run hids (Machine.reachable_of_mem_steps hx).1
  refine ⟨fun n hn => (hinv.sent n hn).agrees, fun x hx n hn => ?_,
    fun x hx k id p hlabel hc => ?_, fun n hn m hm => ?_⟩
  · exact (notifies_before (hpre x hx) (Machine.mem_steps hx).1 hn).agrees
  · exact send_agrees (hpre x hx) hc (hlabel ▸ (Machine.mem_steps hx).1)
  · exact eq_of_notifies hinv.ids (hinv.sent n hn) (hinv.sent m hm)

/-- Two consumers that charged one payment, with different answers, notify alike. -/
theorem twoDeliveries_notify_alike : ∃ s, processMachine.run (.init [sampleRow])
    (twoDeliveries sampleRow.id) = some s ∧ s.sent.length = 2 ∧
      ∀ n ∈ s.sent, ∀ m ∈ s.sent, n.paymentId = m.paymentId → n = m := by
  have hids : ([sampleRow].map PaymentRow.id).Nodup := by decide
  have hlen : (processMachine.run (.init [sampleRow]) (twoDeliveries sampleRow.id)).map
      (fun s => s.sent.length) = some 2 := by decide
  obtain ⟨s, hrun, hlen⟩ := Option.map_eq_some_iff.1 hlen
  exact ⟨s, hrun, hlen, (notifications_agree hids hrun).2.2.2⟩

end PaymentService
