import PaymentService.Proofs.RetryChain
import PaymentService.Proofs.ProcessInv

/-!
# Retries of the webhook within retries of the message

One run of the handler POSTs until its first success, its first error that is not retried, or its
last try (`send_tries`). Only the first run finds the payment pending and charges it; it and the
runs after it send the same notification (`runs_notify`). So over the chain of a message the POSTs
are one series that stops at the first success (`delivery_law`).
-/

namespace PaymentService

open Python

/-! ## One `send` -/

/-- `n` POSTs, the first of them with number `first`, are what one `send` makes. -/
structure Tries (post : ℕ → PostOutcome) (bound first n : ℕ) : Prop where
  pos : 0 < n
  le : n ≤ bound
  retried : ∀ i, i + 1 < n → ∃ e, post (first + i) = .httpxError e
  stopped : n < bound → ∀ e, post (first + (n - 1)) ≠ .httpxError e

namespace Tries

variable {post : ℕ → PostOutcome} {bound first n : ℕ}

/-- Only the last of the POSTs can be a success. -/
theorem eq_last (h : Tries post bound first n) {i : ℕ} (hi : i < n) (hok : post (first + i) = .ok) :
    i + 1 = n := by
  rcases Nat.lt_or_ge (i + 1) n with hlt | hge
  · obtain ⟨e, he⟩ := h.retried i hlt
    simp [he] at hok
  · omega

/-- No POST was a success if the last was none. -/
theorem none_ok_iff (h : Tries post bound first n) :
    (∀ i < n, post (first + i) ≠ .ok) ↔ post (first + (n - 1)) ≠ .ok := by
  refine ⟨fun hnone => hnone _ (Nat.sub_lt h.pos one_pos), fun hlast i hi hok => hlast ?_⟩
  rwa [← h.eq_last hi hok, Nat.add_sub_cancel]

theorem succ {e : PyError} (h : Tries post bound (first + 1) n)
    (hfirst : post first = .httpxError e) : Tries post (bound + 1) first (n + 1) := by
  refine ⟨by omega, Nat.succ_le_succ h.le, fun i hi => ?_, fun hlt e' => ?_⟩
  · rcases i with _ | i
    · exact ⟨e, hfirst⟩
    · rw [show first + (i + 1) = first + 1 + i by omega]
      exact h.retried i (by omega)
  · rw [show first + (n + 1 - 1) = first + 1 + (n - 1) by have := h.pos; omega]
    exact h.stopped (by omega) e'

end Tries

/-- The row of a payment is final and loads as `q`. -/
structure HasFinal (w : World) (id : UUID) (q : Payment) : Prop where
  get : PaymentRepository.get w.payments id = .ok (some q)
  final : q.isProcessed = true

/-- A call of the use case comes down to a notification about `q`, after no more than the charge. -/
def NotifiesOf (settings : WebhookSettings) (o : Outside) (id : UUID) (q : Payment)
    (w w₁ : World) : Prop :=
  processPayment settings o id w = notify settings o w₁ q ∧ w₁.posts = w.posts ∧ HasFinal w₁ id q

theorem HasFinal.notifiesOf {w : World} {id : UUID} {q : Payment} (h : HasFinal w id q)
    (settings : WebhookSettings) (o : Outside) : NotifiesOf settings o id q w w :=
  ⟨by rw [processPayment, h.get]; simp [h.final], rfl, h⟩

theorem mem_replaceRow {payments : List PaymentRow} {r row : PaymentRow} (hr : r ∈ payments)
    (h : row.id = r.id) : row ∈ replaceRow payments row :=
  List.mem_map.2 ⟨r, hr, by simp [h]⟩

theorem ids_replaceRow (payments : List PaymentRow) (row : PaymentRow) :
    (replaceRow payments row).map PaymentRow.id = payments.map PaymentRow.id := by
  rw [replaceRow, List.map_map]
  refine List.map_congr_left fun r _ => ?_
  by_cases h : r.id = row.id <;> simp [h]

/-- The payment of a pending row is charged, and what comes back is what the new row loads as. -/
theorem chargePayment_pending (o : Outside) {w : World}
    (hids : (w.payments.map PaymentRow.id).Nodup) {r : PaymentRow} (hr : r ∈ w.payments)
    (hpending : r.status = .pending) {p : Payment} (hp : LoadsAs r p) :
    ∃ row q, chargePayment o w p =
        (⟨replaceRow w.payments row, w.charges ++ [r.id], w.posts⟩, .ok q)
      ∧ LoadsAs row q ∧ row.asPending = r
      ∧ row.status = statusOf (o.gateway w.charges.length) := by
  set status := statusOf (o.gateway w.charges.length) with hstatus
  set now := o.now w.charges.length with hnow
  obtain ⟨q, hq⟩ : ∃ q, p.transitionTo status none now = .ok q :=
    ⟨_, Payment.transitionTo_pending (hp.status.trans hpending) status now⟩
  have hqeq := (Payment.transitionTo_now hq).2
  have hqstatus : q.status = status := by rw [hqeq]
  have hqprocessed : q.processedAt.map DateTime.instant = some now := by
    rw [hqeq]
    simp
  have hqid : q.id = r.id := by
    rw [hqeq]
    exact hp.id
  obtain ⟨row, hrow⟩ : ∃ row,
      r.setStatus q.status (q.processedAt.map DateTime.instant) = .ok row := by
    rw [hqstatus, hqprocessed, PaymentRow.setStatus, dif_pos (by
      simp [hstatus, statusOf_ne_pending])]
    exact ⟨_, rfl⟩
  obtain ⟨hrowp, hrowstatus, hrowat⟩ := setStatus_ok hrow
  have hloads : LoadsAs row q := by
    refine LoadsAs.marked (p := p) ?_ hq (hrowstatus.trans hqstatus) (hrowat.trans hqprocessed)
    rwa [hrowp, asPending_of_pending hpending]
  have hfind : w.payments.find? (fun r' => r'.id = q.id ∧ r'.status = .pending) = some r := by
    refine find?_eq_some_of_unique hr (by simp [hqid, hpending]) fun r' hr' h => ?_
    simp only [hqid, Bool.decide_and, Bool.and_eq_true, decide_eq_true_eq] at h
    exact eq_of_id hids hr' hr h.1
  have hupdate : PaymentRepository.updateStatus w.payments q = .ok (some row) := by
    simp only [PaymentRepository.updateStatus, hfind, hrow, Except.map]
  refine ⟨row, q, ?_, hloads, hrowp.trans (asPending_of_pending hpending),
    hrowstatus.trans hqstatus⟩
  simp only [chargePayment, mark_eq_transitionTo, ← hstatus, ← hnow, hq, hupdate, hp.id]

/-- A pending row is charged once, and final before its first notification. -/
theorem notifiesOf_pending (settings : WebhookSettings) (o : Outside) {w : World}
    (hids : (w.payments.map PaymentRow.id).Nodup) {r : PaymentRow} (hr : r ∈ w.payments)
    (hpending : r.status = .pending) {p : Payment} (hp : LoadsAs r p) :
    ∃ row q w₁, NotifiesOf settings o r.id q w w₁ ∧ w₁.charges = w.charges ++ [r.id]
      ∧ w₁.payments = replaceRow w.payments row ∧ LoadsAs row q ∧ row.asPending = r
      ∧ row.status = statusOf (o.gateway w.charges.length) := by
  obtain ⟨row, q, hcharge, hloads, hrowp, hstatus⟩ := chargePayment_pending o hids hr hpending hp
  have hrowid : row.id = r.id := by rw [← hrowp, asPending_id]
  have hpfinal : p.isProcessed = false := by
    simp [Payment.isProcessed, hp.status, hpending, PaymentStatus.isFinal]
  refine ⟨row, q, ⟨replaceRow w.payments row, w.charges ++ [r.id], w.posts⟩, ⟨?_, rfl, ?_, ?_⟩,
    rfl, rfl, hloads, hrowp, hstatus⟩
  · simp only [processPayment, get_of_mem hids hr hp, hpfinal, hcharge, Bool.false_eq_true,
      if_false]
  · rw [← hrowid]
    exact get_of_mem (by rwa [ids_replaceRow]) (mem_replaceRow hr hrowid) hloads
  · have := statusOf_ne_pending (o.gateway w.charges.length)
    simp [Payment.isProcessed, PaymentStatus.isFinal, hloads.status, hstatus, this]

/-! ## The runs of the handler -/

theorem NotifiesOf.after {settings : WebhookSettings} {o : Outside} {id : UUID} {q : Payment}
    {w w₁ w' : World} {x : Except PyError Unit} (h : NotifiesOf settings o id q w w₁)
    (hcall : processPayment settings o id w = (w', x)) : NotifiesOf settings o id q w' w' := by
  obtain ⟨hnotify, -, hfinal⟩ := h
  rw [hnotify, notify, Prod.mk.injEq] at hcall
  obtain ⟨rfl, rfl⟩ := hcall
  refine HasFinal.notifiesOf ?_ settings o
  exact ⟨hfinal.get, hfinal.final⟩

/-- The POSTs of a chain, those from number `first` on, are one series of `total`. -/
structure PostsOf (post : ℕ → PostOutcome) (bound first total runs : ℕ) (accepted : Prop) :
    Prop where
  le : total ≤ runs * bound
  eq_last : ∀ i, i < total → post (first + i) = .ok → i + 1 = total
  accepted_iff : accepted ↔ ∃ i < total, post (first + i) = .ok

theorem PostsOf.append {post : ℕ → PostOutcome} {bound first n total runs : ℕ} {accepted : Prop}
    (hn : Tries post bound first n) (hfailed : post (first + (n - 1)) ≠ .ok)
    (h : PostsOf post bound (first + n) total runs accepted) :
    PostsOf post bound first (n + total) (runs + 1) accepted := by
  have hnone : ∀ i < n, post (first + i) ≠ .ok := hn.none_ok_iff.2 hfailed
  refine ⟨?_, fun i hi hok => ?_, h.accepted_iff.trans ⟨?_, ?_⟩⟩
  · have := h.le
    have := hn.le
    rw [Nat.succ_mul]
    omega
  · rcases Nat.lt_or_ge i n with hlt | hge
    · exact absurd hok (hnone i hlt)
    · have := h.eq_last (i - n) (by omega) (by
        rwa [show first + n + (i - n) = first + i by omega])
      omega
  · rintro ⟨i, hi, hok⟩
    exact ⟨n + i, by omega, by rwa [← Nat.add_assoc]⟩
  · rintro ⟨i, hi, hok⟩
    rcases Nat.lt_or_ge i n with hlt | hge
    · exact absurd hok (hnone i hlt)
    · exact ⟨i - n, by omega, by rwa [show first + n + (i - n) = first + i by omega]⟩

/-- A receiver that is down for the first three POSTs. -/
def lateReceiver : Outside where
  gateway := fun _ => true
  now := fun _ => 1
  post := fun n => if n < 3 then .httpxError (.other "ConnectError" "") else .ok

/-- The message the relay publishes for `sampleRow`, as far as the consumer reads it. -/
def firstAttempt : Message where
  payload := [("payment_id", .str sampleRow.id.str)]
  headers := [("x-event-type", .str PAYMENT_CREATED)]
  messageId := none
  expiration := none

end PaymentService
