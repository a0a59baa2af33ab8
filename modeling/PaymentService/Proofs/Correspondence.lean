import PaymentService.Lib.Pairing
import PaymentService.Proofs.SystemSteps
import Mathlib.Tactic.NormNum
import Mathlib.Tactic.Ring

/-!
# Payments and events correspond

The COMMIT of a request adds a payment and its event together, and nothing else adds a row to
either table. Passes change what an event's row says of its publishing and calls change a payment's
status and time, so with those left out (`OutboxRow.asNew`, `PaymentRow.asPending`) the two tables
only grow, in step (`tables_step`).
-/

namespace PaymentService

open Python Labelled

variable {cmd : ℕ → CreatePaymentCommand} {draw : ℕ → Draw} {batchSize : ℕ → ℕ}
  {settings : RabbitSettings}

/-! ## An event and its payment -/

/-- The event is the one `payment_created` makes of the payment in the row. -/
structure Announces (m : OutboxRow) (r : PaymentRow) : Prop where
  aggregateId : m.aggregateId = r.id
  eventType : m.eventType = PAYMENT_CREATED
  paymentId : m.payload.lookup "payment_id" = some (.str r.id.str)
  amount : ∃ text d, m.payload.lookup "amount" = some (.str text)
    ∧ Decimal.readFinite text = some d ∧ d.toRat = r.amount.toDecimal.toRat
  currency : m.payload.lookup "currency" = some (.str r.currency.value)
  webhookUrl : m.payload.lookup "webhook_url" = some (.str r.webhookUrl)
  idempotencyKey : m.payload.lookup "idempotency_key" = some (.str r.idempotencyKey)

theorem toRat_toDecimal (n : Numeric) : n.toDecimal.toRat = n.cents * (10 : ℚ) ^ (-2 : ℤ) := by
  have habs : ((n.cents.natAbs : ℕ) : ℚ) = |(n.cents : ℚ)| := by
    rw [← Int.cast_abs, Int.abs_eq_natAbs, Int.cast_natCast]
  simp only [Numeric.toDecimal, SciDecimal.toRat, habs, decide_eq_true_eq]
  split_ifs with h
  · rw [abs_of_neg (by exact_mod_cast h)]
    ring
  · rw [abs_of_nonneg (by exact_mod_cast not_lt.1 h)]
    ring

/-- The column holds the number itself when it has no more than two places. -/
theorem toRat_of_cents {d : SciDecimal} {n : Numeric} (hscale : -d.exp ≤ 2)
    (h : n.cents = Numeric.centsOf d) : n.toDecimal.toRat = d.toRat := by
  have hexp : (10 : ℚ) ^ d.exp = (10 : ℚ) ^ (d.exp + 2).toNat * (10 : ℚ) ^ (-2 : ℤ) := by
    rw [← zpow_natCast, ← zpow_add₀ (by norm_num)]
    congr 1
    omega
  have hcents : (Numeric.centsOf d : ℚ) =
      (if d.neg then -1 else 1) * d.coeff * (10 : ℚ) ^ (d.exp + 2).toNat := by
    have hplaces : 0 ≤ d.exp + 2 := by omega
    simp only [Numeric.centsOf, hplaces, if_true]
    cases d.neg <;> simp
  rw [toRat_toDecimal, h, hcents, SciDecimal.toRat, hexp, mul_assoc]

theorem Inserted.announces {c : CreatePaymentCommand} {d : Draw} {db db' : Db} {payment : Payment}
    {row : PaymentRow} {message : OutboxRow} (h : Inserted c d db payment row message db') :
    Announces message row := by
  have hid : row.id = payment.id := h.rowOf.id
  have hcurrency : row.currency = payment.currency := h.rowOf.currency
  have hurl : row.webhookUrl = payment.webhookUrl.value := h.rowOf.webhookUrl
  rw [messageToRow_ok h.event]
  refine ⟨hid.symm, rfl, ?_, ⟨(Decimal.finite payment.amount.value).str, payment.amount.value, ?_,
    Decimal.readFinite_str _, ?_⟩, ?_, ?_, ?_⟩
  · rw [hid]
    rfl
  · rfl
  · exact (toRat_of_cents payment.amount.scale h.rowOf.cents).symm
  · rw [hcurrency]
    rfl
  · rw [hurl]
    rfl
  · rw [h.rowOf.key]
    rfl

/-! ## What the steps leave of the rows -/

/-- The row as it was inserted. -/
def OutboxRow.asNew (m : OutboxRow) : OutboxRow :=
  { m with
    publishedAt := none
    attempts := 0
    lastError := none }

theorem OutboxRow.asNew_afterPublish (m : OutboxRow) (o : PublishOutcome) :
    (m.afterPublish o).asNew = m.asNew := by
  cases o <;> rfl

theorem asPending_step {s s' : ProcessState} {a : ProcessLabel} (hinv : ProcessInv s)
    (h : processMachine.step s a = some s') (hold : ∀ row, a ≠ .insert row) :
    s'.payments.map PaymentRow.asPending = s.payments.map PaymentRow.asPending := by
  cases processMachine_trans h with
  | @commit k id p applied hc =>
    rw [ProcessState.setCall_payments, ProcessState.endSession_payments, ProcessState.committed,
      List.map_map]
    refine List.map_congr_left fun r hr => ?_
    rw [Function.comp_apply]
    rcases hf : s.writes.find? fun w => w.call = k ∧ w.row.id = r.id with _ | w <;> rw [hf]
    · rfl
    · have hmatch := List.find?_some hf
      simp only [Bool.decide_and, Bool.and_eq_true, decide_eq_true_eq] at hmatch
      have hreplaces := (hinv.writes w (List.mem_of_find?_eq_some hf)).replaces
      have hrow : w.row.asPending = r := eq_of_id hinv.ids hreplaces hr hmatch.2
      rw [← hrow]
      rfl
  | insert hfresh => exact absurd rfl (hold _)
  | update hc => simp
  | _ => rfl

theorem asNew_pass {s s' : RelayState} {k : ℕ} {act : PassAct} (hinv : RelayInv s)
    (h : passStep batchSize s k act = some s') :
    s'.outbox.map OutboxRow.asNew = s.outbox.map OutboxRow.asNew := by
  cases passStep_trans h with
  | @commit k done n hk =>
    change (writeRows s.outbox done).map OutboxRow.asNew = _
    rw [writeRows, List.map_map]
    refine List.map_congr_left fun r hr => ?_
    rw [Function.comp_apply]
    rcases hf : done.find? fun m => m.id = r.id with _ | d <;> rw [hf]
    · rfl
    · have hid : d.id = r.id := by simpa using List.find?_some hf
      obtain ⟨m, hm, -, o, rfl, -⟩ := (hinv.live k done [] n hk).through d
        (List.mem_of_find?_eq_some hf)
      rw [OutboxRow.afterPublish_id] at hid
      rw [List.inj_on_of_nodup_map hinv.ids hm hr hid]
      exact OutboxRow.asNew_afterPublish r o
  | publish hk => simp
  | _ => rfl

/-- A step leaves both tables as they are, up to what it may change in a row, or adds the rows of
one request. -/
theorem tables_step {s s' : SystemState} {a : SystemLabel} (hinv : SystemInv cmd draw s)
    (h : SystemTrans cmd draw batchSize settings s a s') :
    (s'.process.payments.map PaymentRow.asPending = s.process.payments.map PaymentRow.asPending
        ∧ s'.relay.outbox.map OutboxRow.asNew = s.relay.outbox.map OutboxRow.asNew)
      ∨ ∃ i payment row message, a = .create i .next
        ∧ Inserted (cmd i) (draw i) s.db payment row message s'.db := by
  cases h with
  | created hpc h => exact .inr ⟨_, _, _, _, rfl, h⟩
  | pass h => exact .inl ⟨rfl, asNew_pass hinv.relay h⟩
  | begin hx hpc hstart h =>
    exact .inl ⟨asPending_step (a := .call _ (.begin _)) hinv.process h (by simp), rfl⟩
  | @crash d x hx =>
    refine .inl ⟨?_, rfl⟩
    rcases hk : processStep s.process d .kill with _ | process
    · rfl
    · exact asPending_step (a := .call d .kill) hinv.process hk (by simp)
  | call hx hpc h => exact .inl ⟨asPending_step (a := .call _ _) hinv.process h (by simp), rfl⟩
  | _ => exact .inl ⟨rfl, rfl⟩

/-! ## The correspondence -/

theorem announces_asNew {m : OutboxRow} {r : PaymentRow} :
    Announces m.asNew r.asPending ↔ Announces m r :=
  ⟨fun h => ⟨h.1, h.2, h.3, h.4, h.5, h.6, h.7⟩, fun h => ⟨h.1, h.2, h.3, h.4, h.5, h.6, h.7⟩⟩

structure TablesOk (s : SystemState) : Prop where
  pairs : List.Forall₂ Announces (s.relay.outbox.map OutboxRow.asNew)
    (s.process.payments.map PaymentRow.asPending)
  keys : (s.process.payments.map PaymentRow.idempotencyKey).Nodup

theorem TablesOk.forall₂ {s : SystemState} (h : TablesOk s) :
    List.Forall₂ Announces s.relay.outbox s.process.payments :=
  (List.forall₂_map_right_iff.1 (List.forall₂_map_left_iff.1 h.pairs)).imp
    fun _ _ => announces_asNew.1

theorem tablesOk_step {s s' : SystemState} {a : SystemLabel} (hinv : SystemInv cmd draw s)
    (htables : TablesOk s) (h : (system cmd draw batchSize settings).step s a = some s') :
    TablesOk s' := by
  rcases tables_step hinv (system_trans hinv.requests h) with
    ⟨hpayments, houtbox⟩ | ⟨i, payment, row, message, -, hinserted⟩
  · refine ⟨hpayments ▸ houtbox ▸ htables.pairs, ?_⟩
    have hkeys : ∀ rows : List PaymentRow, rows.map PaymentRow.idempotencyKey
        = (rows.map PaymentRow.asPending).map PaymentRow.idempotencyKey := fun rows => by
      rw [List.map_map]
      rfl
    rw [hkeys, hpayments, ← hkeys]
    exact htables.keys
  · obtain ⟨hpayments, houtbox⟩ := Db.mk.inj hinserted.db
    refine ⟨?_, ?_⟩
    · rw [hpayments, houtbox, List.map_append, List.map_append]
      exact List.rel_append htables.pairs
        (.cons (announces_asNew.2 hinserted.announces) .nil)
    · rw [hpayments, List.map_append, List.nodup_append]
      refine ⟨htables.keys, by simp, fun x hx y hy hxy => ?_⟩
      obtain ⟨r, hr, rfl⟩ := List.mem_map.1 hx
      exact hinserted.key r hr (hxy.trans (List.mem_singleton.1 hy))

theorem tablesOk_run {s : SystemState}
    (h : (system cmd draw batchSize settings).Reachable .init s) : TablesOk s :=
  (h.inv (I := fun s => SystemInv cmd draw s ∧ TablesOk s)
    (fun _ _ _ hs hstep => ⟨systemInv_step hs.1 hstep, tablesOk_step hs.1 hs.2 hstep⟩)
    ⟨systemInv_init, .nil, List.nodup_nil⟩).2

/-! ## Requests that create nothing -/

/-- Who has committed replies so, whatever steps follow. -/
theorem hasCreated_step {s s' : SystemState} {a : SystemLabel} (hinv : SystemInv cmd draw s)
    (h : (system cmd draw batchSize settings).step s a = some s') {i : ℕ}
    (hcreated : (s.requests i).HasCreated) : (s'.requests i).HasCreated := by
  cases system_trans hinv.requests h with
  | @request j act r hstep =>
    by_cases hij : i = j
    · subst hij
      simpa [SystemState.setRequest] using hcreated.step hstep
    · simpa [SystemState.setRequest, hij] using hcreated
  | @created j payment row message hpc hinserted =>
    by_cases hij : i = j
    · subst hij
      exact ⟨payment, .inl (by simp [SystemState.setRequest])⟩
    · simpa [SystemState.setRequest, SystemState.setDb, hij] using hcreated
  | _ => exact hcreated

/-- A request's step changes the tables only if the request has committed by then. -/
theorem hasCreated_of_db_ne {s s' : SystemState} {i : ℕ} {act : CreateAct}
    (hinv : SystemInv cmd draw s)
    (h : (system cmd draw batchSize settings).step s (.create i act) = some s')
    (hne : s'.db ≠ s.db) : (s'.requests i).HasCreated := by
  cases system_trans hinv.requests h with
  | request hstep => exact absurd rfl hne
  | created hpc hinserted =>
    exact ⟨_, .inl (congrArg Request.pc (Function.update_self i _ s.requests))⟩

/-- In every reachable state each payment has one event and each event one payment, the two agree,
and no key occurs twice. A request that has not committed, whether it is under way, has raised, has
replayed or was killed, has changed nothing in either table. -/
theorem tables_correspond {as : List SystemLabel} {s : SystemState}
    (hrun : (system cmd draw batchSize settings).run .init as = some s) :
    (∀ r ∈ s.process.payments, ∃ m ∈ s.relay.outbox, Announces m r
        ∧ ∀ m' ∈ s.relay.outbox, m'.eventType = PAYMENT_CREATED → m'.aggregateId = r.id → m' = m)
      ∧ (∀ m ∈ s.relay.outbox, m.eventType = PAYMENT_CREATED →
          ∃ r ∈ s.process.payments, Announces m r
            ∧ ∀ r' ∈ s.process.payments, m.aggregateId = r'.id → r' = r)
      ∧ (s.relay.outbox.map OutboxRow.id).Nodup
      ∧ (s.process.payments.map PaymentRow.id).Nodup
      ∧ (s.process.payments.map PaymentRow.idempotencyKey).Nodup
      ∧ ∀ i, ¬ (s.requests i).HasCreated →
          ∀ x ∈ (system cmd draw batchSize settings).steps .init as, ∀ act,
            x.2.1 = .create i act → x.2.2.db = x.1.db := by
  have hinv := systemInv_run ⟨as, hrun⟩
  have htables := tablesOk_run ⟨as, hrun⟩
  have hkey : ∀ (m : OutboxRow) (r : PaymentRow), Announces m r → m.aggregateId = r.id :=
    fun _ _ h => h.aggregateId
  refine ⟨fun r hr => ?_, fun m hm _ => ?_, hinv.relay.ids, hinv.process.ids, htables.keys,
    fun i hi x hx act hlabel => ?_⟩
  · obtain ⟨m, hm, hmr, hunique⟩ :=
      Pairing.existsUnique_left hkey hinv.process.ids htables.forall₂ hr
    exact ⟨m, hm, hmr, fun m' hm' _ => hunique m' hm'⟩
  · exact Pairing.existsUnique_right hkey hinv.process.ids htables.forall₂ hm
  · by_contra hne
    have hbefore := systemInv_run (Machine.reachable_of_mem_steps hx).1
    have hstep := (Machine.mem_steps hx).1
    rw [hlabel] at hstep
    obtain ⟨bs, hafter⟩ := Machine.run_after_mem_steps hrun hx
    refine hi (Machine.inv_run
      (I := fun s => SystemInv cmd draw s ∧ (s.requests i).HasCreated)
      (fun _ _ _ hs h => ⟨systemInv_step hs.1 h, hasCreated_step hs.1 h hs.2⟩)
      ⟨systemInv_step hbefore hstep, hasCreated_of_db_ne hbefore hstep hne⟩ hafter).2

theorem sampleLabels_correspond : ∃ s, sampleSystem.run .init sampleLabels = some s
    ∧ s.process.payments.map PaymentRow.status = [.succeeded]
    ∧ ∀ r ∈ s.process.payments, ∃ m ∈ s.relay.outbox, Announces m r := by
  obtain ⟨s, hrun, hstatus⟩ := sampleLabels_run
  refine ⟨s, hrun, hstatus, fun r hr => ?_⟩
  obtain ⟨m, hm, hmr, -⟩ := (tables_correspond hrun).1 r hr
  exact ⟨m, hm, hmr⟩

end PaymentService
