import PaymentService.Proofs.SystemSteps

/-!
# A final status is written once

A committed row changes at one kind of step only, the COMMIT of a call whose update matched it while
it was pending, and then it says what the gateway answered to that call (`row_step`, `row_origin`).
A row that is final stays as it is, so of all the calls of a payment one at most makes such a step.
-/

namespace PaymentService

open Python Labelled

/-! ## One answer for a call -/

/-- Whether the gateway has not answered a call that stands somewhere. -/
def ProcessPc.isUnanswered : ProcessPc → Bool
  | get | charge _ | charging _ => true
  | _ => false

structure AnswerInv (s : ProcessState) : Prop where
  once : (s.answers.map Answer.call).Nodup
  answered : ∀ a ∈ s.answers, ∃ c, s.calls a.call = some c ∧ c.pc.isUnanswered = false

section

variable {s s' : ProcessState} {k : ℕ} {c' : ProcessCall}

/-- A call that was not answered may go anywhere without an answer. -/
theorem AnswerInv.of_call (h : AnswerInv s) (hanswers : s'.answers = s.answers)
    (hcalls : s'.calls = Function.update s.calls k (some c'))
    (hpc : ∀ c, s.calls k = some c → c.pc.isUnanswered = false → c'.pc.isUnanswered = false) :
    AnswerInv s' := by
  refine ⟨hanswers ▸ h.once, fun a ha => ?_⟩
  obtain ⟨c, hc, hanswered⟩ := h.answered a (hanswers ▸ ha)
  rw [hcalls]
  by_cases hk : a.call = k
  · rw [hk, Function.update_self]
    exact ⟨c', rfl, hpc c (hk ▸ hc) hanswered⟩
  · rw [Function.update_of_ne hk]
    exact ⟨c, hc, hanswered⟩

theorem isUnanswered_afterCharge (p : Payment) (b : Bool) (now : ℤ) :
    (afterCharge p b now).isUnanswered = false := by
  unfold afterCharge
  split <;> rfl

theorem isUnanswered_afterUpdateStatus (p : Payment) (row : Except PyError (Option PaymentRow)) :
    (afterUpdateStatus p row).isUnanswered = false := by
  cases row <;> rfl

theorem isUnanswered_afterCommit (p : Payment) (applied : Bool) :
    (afterCommit p applied).isUnanswered = false := by
  cases applied <;> rfl

theorem isUnanswered_afterGetAgain (p : Payment) (found : Except PyError (Option Payment)) :
    (afterGetAgain p found).isUnanswered = false := by
  cases found <;> rfl

theorem AnswerInv.answer (h : AnswerInv s) {id : UUID} {p : Payment}
    (hc : s.calls k = some ⟨id, .charging p⟩) (b : Bool) (now : ℤ) :
    AnswerInv ({ s with answers := s.answers ++ [Answer.mk k p.id b now] }.setCall k
      ⟨id, afterCharge p b now⟩) := by
  have hnew : ∀ a ∈ s.answers, a.call ≠ k := by
    rintro a ha rfl
    obtain ⟨c, hc', hanswered⟩ := h.answered a ha
    rw [hc, Option.some_inj] at hc'
    rw [← hc'] at hanswered
    cases hanswered
  refine ⟨?_, fun a ha => ?_⟩
  · simp only [ProcessState.setCall_answers, List.map_append, List.map_cons, List.map_nil,
      List.nodup_append]
    refine ⟨h.once, by simp, fun x hx y hy hxy => ?_⟩
    obtain ⟨a, ha, rfl⟩ := List.mem_map.1 hx
    exact hnew a ha (hxy.trans (List.mem_singleton.1 hy))
  · rw [ProcessState.setCall_calls]
    rcases List.mem_append.1 ha with ha | ha
    · obtain ⟨c, hc', hanswered⟩ := h.answered a ha
      rw [Function.update_of_ne (hnew a ha)]
      exact ⟨c, hc', hanswered⟩
    · rw [List.mem_singleton.1 ha, Function.update_self]
      exact ⟨_, rfl, isUnanswered_afterCharge p b now⟩

theorem answerInv_step {a : ProcessLabel} (h : AnswerInv s)
    (hstep : processMachine.step s a = some s') : AnswerInv s' := by
  cases processMachine_trans hstep with
  | begin hc => exact h.of_call rfl rfl (by simp [hc])
  | get hc => exact h.of_call rfl rfl (by simp [hc, ProcessPc.isUnanswered])
  | charge hc => exact h.of_call rfl rfl (by simp [hc, ProcessPc.isUnanswered])
  | answer hc => exact h.answer hc _ _
  | update hc =>
    exact h.of_call (by simp) (by rw [ProcessState.setCall_calls, ProcessState.write_calls])
      fun _ _ _ => isUnanswered_afterUpdateStatus _ _
  | commit hc => exact h.of_call rfl rfl fun _ _ _ => isUnanswered_afterCommit _ _
  | getAgain hc => exact h.of_call rfl rfl fun _ _ _ => isUnanswered_afterGetAgain _ _
  | send hc => exact h.of_call rfl rfl fun _ _ _ => rfl
  | accept hc => exact h.of_call rfl rfl fun _ _ _ => rfl
  | @stop k id pc stopped act hc hrunning hact hstopped =>
    refine h.of_call rfl rfl fun _ _ _ => ?_
    cases stopped <;> first | rfl | cases hstopped
  | insert hfresh => exact ⟨h.once, h.answered⟩

end

/-! ## What a step does to a row -/

section

variable {s s' : ProcessState} {a : ProcessLabel}

/-- The step is the COMMIT of a call that found the row pending, and the new version says what the
gateway answered to the call. -/
def AppliedBy (s : ProcessState) (a : ProcessLabel) (r' : PaymentRow) : Prop :=
  ∃ k p, a = .call k .next ∧ s.calls k = some ⟨r'.id, .commit p true⟩ ∧ AnsweredAs s k r'

theorem appliedBy_of_write (hinv : ProcessInv s) {w : PendingWrite} (hw : w ∈ s.writes) :
    AppliedBy s (.call w.call .next) w.row := by
  obtain ⟨p, hcall⟩ := (hinv.writes w hw).call
  exact ⟨w.call, p, rfl, hcall, (hinv.writes w hw).answered⟩

/-- Every committed row was there before the step, or is new, or is the version a call wrote. -/
theorem row_origin (hinv : ProcessInv s) (h : processMachine.step s a = some s') {r' : PaymentRow}
    (hr' : r' ∈ s'.payments) : r' ∈ s.payments ∨ a = .insert r'
      ∨ (r'.asPending ∈ s.payments ∧ AppliedBy s a r') := by
  cases processMachine_trans h with
  | @commit k id p applied hc =>
    obtain ⟨r, hr, he⟩ := List.mem_map.1 (show r' ∈ s.committed k from hr')
    rcases hf : s.writes.find? fun w => w.call = k ∧ w.row.id = r.id with _ | w <;> rw [hf] at he
    · exact .inl (he ▸ hr)
    · have hw := List.mem_of_find?_eq_some hf
      have hmatch := List.find?_some hf
      simp only [Bool.decide_and, Bool.and_eq_true, decide_eq_true_eq] at hmatch
      obtain rfl : w.row = r' := he
      exact .inr (.inr ⟨(hinv.writes w hw).replaces, hmatch.1 ▸ appliedBy_of_write hinv hw⟩)
  | insert hfresh =>
    rcases List.mem_append.1 hr' with hr' | hr'
    · exact .inl hr'
    · exact .inr (.inl (by rw [List.mem_singleton.1 hr']))
  | update hc => exact .inl (by simpa using hr')
  | _ => exact .inl hr'

/-- A committed row stays, or it was pending and a call's version takes its place. -/
theorem row_step (hinv : ProcessInv s) (h : processMachine.step s a = some s') {r : PaymentRow}
    (hr : r ∈ s.payments) : r ∈ s'.payments
      ∨ ∃ r' ∈ s'.payments, r'.asPending = r ∧ AppliedBy s a r' := by
  cases processMachine_trans h with
  | @commit k id p applied hc =>
    rcases committed_cases (k := k) hinv hr with ⟨w, hw, hk, rfl, hmem⟩ | ⟨hr', -⟩
    · exact .inr ⟨w.row, hmem, rfl, hk ▸ appliedBy_of_write hinv hw⟩
    · exact .inl hr'
  | insert hfresh => exact .inl (List.mem_append_left _ hr)
  | update hc => exact .inl (by simpa using hr)
  | _ => exact .inl hr

/-- A call that commits an update that matched makes a pending row final. -/
theorem commit_applied (hinv : ProcessInv s) {k : ℕ} {id : UUID} {p : Payment}
    (hc : s.calls k = some ⟨id, .commit p true⟩)
    (h : processMachine.step s (.call k .next) = some s') :
    ∃ row ∈ s'.payments, row.id = id ∧ row.asPending ∈ s.payments ∧ row.status ≠ .pending := by
  obtain ⟨hid, row, hw, hp⟩ := hinv.calls k _ hc
  obtain ⟨b, now, -, hstatus, -⟩ := (hinv.writes _ hw).answered
  simp only [processMachine, processStep, hc, Option.bind_some, processNext,
    Option.some.injEq] at h
  refine ⟨row, ?_, hp.id.symm.trans hid, (hinv.writes _ hw).replaces,
    hstatus ▸ statusOf_ne_pending b⟩
  rw [← h]
  exact written_committed hinv hw

end

/-! ## Along a run of the service -/

variable {cmd : ℕ → CreatePaymentCommand} {draw : ℕ → Draw} {batchSize : ℕ → ℕ}
  {settings : RabbitSettings}

/-- The step is the COMMIT of a call of payment `id` whose `update_status` returned `True`. -/
def commitsApplied (id : UUID) (x : SystemState × SystemLabel × SystemState) : Bool :=
  match x.2.1 with
  | .call d .next =>
    match x.1.process.calls d with
    | some ⟨paymentId, .commit _ true⟩ => paymentId = id
    | _ => false
  | _ => false

theorem commitsApplied_iff {id : UUID} {x : SystemState × SystemLabel × SystemState} :
    commitsApplied id x = true ↔
      ∃ d p, x.2.1 = .call d .next ∧ x.1.process.calls d = some ⟨id, .commit p true⟩ := by
  unfold commitsApplied
  constructor
  · intro h
    split at h
    · rename_i d hlabel
      split at h
      · rename_i paymentId p hc
        rw [decide_eq_true_eq] at h
        exact ⟨d, p, hlabel, h ▸ hc⟩
      · cases h
    · cases h
  · rintro ⟨d, p, hlabel, hc⟩
    simp [hlabel, hc]

/-- What a step of the service does to the rows of `payments`. -/
structure RowsStepOk (s : SystemState) (a : SystemLabel) (s' : SystemState) : Prop where
  row : ∀ r ∈ s.process.payments, r ∈ s'.process.payments ∨ ∃ r' ∈ s'.process.payments,
    r'.asPending = r ∧ r'.status ≠ .pending ∧ ∃ d p, a = .call d .next
      ∧ s.process.calls d = some ⟨r'.id, .commit p true⟩ ∧ AnsweredAs s.process d r'
  origin : ∀ r' ∈ s'.process.payments, r' ∈ s.process.payments
    ∨ (r'.status = .pending ∧ ∃ i, a = .create i .next)
    ∨ (r'.asPending ∈ s.process.payments ∧ ∃ d p, a = .call d .next
        ∧ s.process.calls d = some ⟨r'.id, .commit p true⟩)

theorem AnsweredAs.final {s : ProcessState} {k : ℕ} {row : PaymentRow} (h : AnsweredAs s k row) :
    row.status ≠ .pending := by
  obtain ⟨b, now, -, hstatus, -⟩ := h
  exact hstatus ▸ statusOf_ne_pending b

theorem rowsStepOk {s s' : SystemState} {a : SystemLabel} (hinv : SystemInv cmd draw s)
    (h : (system cmd draw batchSize settings).step s a = some s') : RowsStepOk s a s' := by
  rcases (system_trans hinv.requests h).process with he | ⟨b, hseen, hb⟩
  · exact ⟨fun r hr => .inl (he ▸ hr), fun r hr => .inl (he ▸ hr)⟩
  refine ⟨fun r hr => ?_, fun r hr => ?_⟩
  · rcases row_step hinv.process hb hr with hr | ⟨r', hr', hp, k, p, rfl, hc, hanswered⟩
    · exact .inl hr
    · cases hseen
      exact .inr ⟨r', hr', hp, hanswered.final, k, p, rfl, hc, hanswered⟩
  · rcases row_origin hinv.process hb hr with hr | rfl | ⟨hr, k, p, rfl, hc, -⟩
    · exact .inl hr
    · cases hseen with
      | create i hpending => exact .inr (.inl ⟨hpending, i, rfl⟩)
    · cases hseen
      exact .inr (.inr ⟨hr, k, p, rfl, hc⟩)

/-- Whether the row of a payment is final, as a number. -/
def finals (s : SystemState) (id : UUID) : ℕ :=
  if ∃ r ∈ s.process.payments, r.id = id ∧ r.status ≠ .pending then 1 else 0

/-- The row of a payment becomes final at the steps that commit an update of it that matched. -/
theorem finals_step {s s' : SystemState} {a : SystemLabel} (hinv : SystemInv cmd draw s)
    (h : (system cmd draw batchSize settings).step s a = some s') (id : UUID) :
    finals s' id = finals s id + if commitsApplied id (s, a, s') then 1 else 0 := by
  have hrows := rowsStepOk hinv h
  have hkeep : ∀ r ∈ s.process.payments, r.status ≠ .pending → r ∈ s'.process.payments := by
    intro r hr hfinal
    rcases hrows.row r hr with hr' | ⟨r', -, rfl, -⟩
    · exact hr'
    · exact absurd rfl hfinal
  by_cases hcommit : commitsApplied id (s, a, s') = true
  · obtain ⟨d, p, rfl, hc⟩ := commitsApplied_iff.1 hcommit
    obtain ⟨row, hrow, hid, hpending, hfinal⟩ := commit_applied hinv.process hc
      (call_process h)
    have hbefore : ¬ ∃ r ∈ s.process.payments, r.id = id ∧ r.status ≠ .pending := by
      rintro ⟨r, hr, hrid, hrfinal⟩
      rw [eq_of_id hinv.process.ids hr hpending (hrid.trans hid.symm)] at hrfinal
      exact hrfinal rfl
    rw [finals, if_pos ⟨row, hrow, hid, hfinal⟩, finals, if_neg hbefore, if_pos hcommit]
  · have hiff : (∃ r ∈ s'.process.payments, r.id = id ∧ r.status ≠ .pending) ↔
        ∃ r ∈ s.process.payments, r.id = id ∧ r.status ≠ .pending := by
      constructor
      · rintro ⟨r, hr, hrid, hfinal⟩
        rcases hrows.origin r hr with hr | ⟨hpending, -⟩ | ⟨-, d, p, hlabel, hc⟩
        · exact ⟨r, hr, hrid, hfinal⟩
        · exact absurd hpending hfinal
        · exact absurd (commitsApplied_iff.2 ⟨d, p, hlabel, hrid ▸ hc⟩) hcommit
      · rintro ⟨r, hr, hrid, hfinal⟩
        exact ⟨r, hkeep r hr hfinal, hrid, hfinal⟩
    rw [finals, finals, if_neg hcommit]
    simp only [hiff, add_zero]

theorem answerInv_systemStep {s s' : SystemState} {a : SystemLabel} (hinv : SystemInv cmd draw s)
    (hanswers : AnswerInv s.process) (h : (system cmd draw batchSize settings).step s a = some s') :
    AnswerInv s'.process := by
  rcases (system_trans hinv.requests h).process with he | ⟨b, -, hb⟩
  · exact he ▸ hanswers
  · exact answerInv_step hanswers hb

theorem answerInv_run {s : SystemState}
    (h : (system cmd draw batchSize settings).Reachable .init s) : AnswerInv s.process :=
  (h.inv (I := fun s => SystemInv cmd draw s ∧ AnswerInv s.process)
    (fun _ _ _ hs hstep => ⟨systemInv_step hs.1 hstep, answerInv_systemStep hs.1 hs.2 hstep⟩)
    ⟨systemInv_init, List.nodup_nil, by simp [SystemState.init, ProcessState.init]⟩).2

/-- Whatever the order of the steps and wherever requests, passes, handlers and calls fail or die:
a row is pending as long as `processed_at` is null; it changes at the COMMIT of one call, from
pending to what the gateway answered to that call, and in nothing else; and at most one call of a
payment ever commits an update that matched. -/
theorem status_written_once {as : List SystemLabel} {s : SystemState}
    (hrun : (system cmd draw batchSize settings).run .init as = some s) :
    (∀ x ∈ (system cmd draw batchSize settings).steps .init as,
      (∀ r ∈ x.2.2.process.payments, r.status = .pending ↔ r.processedAt = none)
        ∧ RowsStepOk x.1 x.2.1 x.2.2)
      ∧ (∀ id, ((system cmd draw batchSize settings).steps .init as).countP (commitsApplied id) ≤ 1)
      ∧ (∀ a ∈ s.process.answers, ∀ b ∈ s.process.answers, a.call = b.call → a = b)
      ∧ (s.process.payments.map PaymentRow.id).Nodup := by
  have hinv := systemInv_run ⟨as, hrun⟩
  refine ⟨fun x hx => ⟨fun r _ => r.processedAt_matches_status, ?_⟩, fun id => ?_,
    fun a ha b hb => ?_, hinv.process.ids⟩
  · exact rowsStepOk (systemInv_run (Machine.reachable_of_mem_steps hx).1) (Machine.mem_steps hx).1
  · have hcount := Machine.countP_steps (I := SystemInv cmd draw) (P := commitsApplied id)
      (f := fun s => finals s id) (fun _ _ _ => systemInv_step)
      (fun _ _ _ hs hstep => finals_step hs hstep id) systemInv_init hrun
    have hle : finals s id ≤ 1 := by
      unfold finals
      split_ifs <;> omega
    omega
  · exact List.inj_on_of_nodup_map (answerInv_run ⟨as, hrun⟩).once ha hb

theorem sampleLabels_written_once : ∃ s, sampleSystem.run .init sampleLabels = some s
    ∧ s.process.payments.map PaymentRow.status = [.succeeded]
    ∧ ∀ id, (sampleSystem.steps .init sampleLabels).countP (commitsApplied id) ≤ 1 := by
  obtain ⟨s, hrun, hstatus⟩ := sampleLabels_run
  exact ⟨s, hrun, hstatus, (status_written_once hrun).2.1⟩

end PaymentService
