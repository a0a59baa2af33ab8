import PaymentService.Proofs.ProcessInv

/-!
# How often a payment is charged

The check of `is_processed`, the charge and the conditional update are steps of their own, and the
update only says which of several charges is recorded. A second charge is made exactly when a call
that read the payment as pending goes on while another has charged it and has not committed, or
has committed since.
-/

namespace PaymentService

open Python Labelled

/-- The invocations of the gateway for a payment. -/
def ProcessState.chargesOf (s : ProcessState) (id : UUID) : ℕ :=
  s.charges.countP fun c => c.paymentId = id

/-- A call stands, or was stopped, between its charge and the end of its commit. -/
def ProcessPc.holdsCharge : ProcessPc → Bool
  | charging _ | updateStatus _ | commit _ _ => true
  | raised at_ _ | killed at_ => at_.holdsCharge
  | get | charge _ | getAgain _ | send _ | sending _ | returned => false

/-- A call of a payment has charged it and has not got past its commit. -/
def ProcessState.HoldsCharge (s : ProcessState) (k : ℕ) (id : UUID) : Prop :=
  ∃ pc, s.calls k = some ⟨id, pc⟩ ∧ pc.holdsCharge = true

/-- The row of a payment is pending. -/
def ProcessState.IsPending (s : ProcessState) (id : UUID) : Prop :=
  ∃ r ∈ s.payments, r.id = id ∧ r.status = .pending

/-- The payment is still pending, and no other call of it, running or stopped, has charged it
without its commit having taken effect. -/
structure ChargeSafe (s : ProcessState) (k : ℕ) (id : UUID) : Prop where
  pending : s.IsPending id
  alone : ∀ j, j ≠ k → ¬ s.HoldsCharge j id

/-- What the charges of a payment say of its row and its calls. -/
structure ChargeInv (s : ProcessState) (id : UUID) : Prop where
  unheld : s.chargesOf id = 0 → ∀ j, ¬ s.HoldsCharge j id
  pending : s.chargesOf id = 0 → ∀ j p, s.calls j = some ⟨id, .charge p⟩ → s.IsPending id
  charged : 0 < s.chargesOf id →
    (∃ r ∈ s.payments, r.id = id ∧ r.status ≠ .pending) ∨ ∃ j, s.HoldsCharge j id

section

variable {s s' : ProcessState} {k : ℕ} {id : UUID} {pc pc' : ProcessPc}

theorem holdsCharge_stopped {stopped : ProcessPc} (h : stopped.stoppedAt = some pc) :
    stopped.holdsCharge = pc.holdsCharge := by
  cases stopped with
  | raised _ _ | killed _ => cases h; rfl
  | _ => cases h

theorem afterGet_charge {p : Payment}
    (h : afterGet id (PaymentRepository.get s.payments id) = .charge p) : s.IsPending id := by
  rcases hg : PaymentRepository.get s.payments id with e | found <;> rw [hg] at h
  · cases h
  · rcases get_eq_ok hg with ⟨rfl, -⟩ | ⟨r, hr, q, hrid, hq, rfl⟩
    · cases h
    · simp only [afterGet, Payment.isProcessed, PaymentStatus.isFinal, ne_eq, decide_not,
        Bool.not_eq_true', decide_eq_false_iff_not, hq.status] at h
      split_ifs at h with hpending
      exact ⟨r, hr, hrid, hpending⟩

theorem holdsCharge_afterGet (found : Except PyError (Option Payment)) :
    (afterGet id found).holdsCharge = false := by
  unfold afterGet
  split
  · rfl
  · rfl
  · split <;> rfl

theorem holdsCharge_afterCharge (p : Payment) (b : Bool) (now : ℤ) :
    (afterCharge p b now).holdsCharge = true := by
  unfold afterCharge
  split <;> rfl

theorem holdsCharge_afterUpdateStatus (p : Payment) (row : Except PyError (Option PaymentRow)) :
    (afterUpdateStatus p row).holdsCharge = true := by
  unfold afterUpdateStatus
  split <;> rfl

theorem afterGetAgain_pc (p : Payment) (found : Except PyError (Option Payment)) :
    (afterGetAgain p found).holdsCharge = false ∧ ∀ q, afterGetAgain p found ≠ .charge q := by
  unfold afterGetAgain
  split <;> exact ⟨rfl, fun _ => by simp⟩

theorem holdsCharge_update {c : ProcessCall} (id : UUID) (j : ℕ)
    (hcalls : s'.calls = Function.update s.calls k (some c)) :
    s'.HoldsCharge j id ↔
      (j ≠ k ∧ s.HoldsCharge j id) ∨ (j = k ∧ c.paymentId = id ∧ c.pc.holdsCharge = true) := by
  unfold ProcessState.HoldsCharge
  rw [hcalls]
  by_cases hj : j = k
  · subst hj
    obtain ⟨id', pc⟩ := c
    simp only [Function.update_self, Option.some.injEq, ProcessCall.mk.injEq, ne_eq,
      not_true_eq_false, false_and, true_and, false_or]
    constructor
    · rintro ⟨_, ⟨rfl, rfl⟩, h⟩
      exact ⟨rfl, h⟩
    · rintro ⟨rfl, h⟩
      exact ⟨pc, ⟨rfl, rfl⟩, h⟩
  · simp [hj]

/-- A step of a call that charges nothing and changes no row, and holds a charge after it if and
only if it did before. -/
theorem ChargeInv.of_call (h : ChargeInv s id) {id' : UUID} (hpay : s'.payments = s.payments)
    (hcharges : s'.charges = s.charges)
    (hcalls : s'.calls = Function.update s.calls k (some ⟨id', pc'⟩))
    (hid : ∀ c, s.calls k = some c → c.paymentId = id')
    (hhold : pc'.holdsCharge = true ↔ s.HoldsCharge k id')
    (hread : ∀ p, pc' = .charge p → s.IsPending id') : ChargeInv s' id := by
  have hof : s'.chargesOf id = s.chargesOf id := by unfold ProcessState.chargesOf; rw [hcharges]
  have hsame : ∀ j, s'.HoldsCharge j id ↔ s.HoldsCharge j id := by
    intro j
    rw [holdsCharge_update id j hcalls]
    by_cases hj : j = k
    · subst hj
      simp only [ne_eq, not_true_eq_false, false_and, true_and, false_or]
      constructor
      · rintro ⟨rfl, hpc⟩
        exact hhold.1 hpc
      · rintro ⟨pc, hc, hpc⟩
        obtain rfl := hid _ hc
        exact ⟨rfl, hhold.2 ⟨pc, hc, hpc⟩⟩
    · simp [hj]
  refine ⟨fun h0 j => ?_, fun h0 j p hj => ?_, fun hpos => ?_⟩
  · rw [hsame]
    exact h.unheld (hof ▸ h0) j
  · unfold ProcessState.IsPending
    rw [hpay]
    by_cases hjk : j = k
    · rw [hcalls, hjk, Function.update_self, Option.some.injEq, ProcessCall.mk.injEq] at hj
      exact hj.1 ▸ hread p hj.2
    · rw [hcalls, Function.update_of_ne hjk] at hj
      exact h.pending (hof ▸ h0) j p hj
  · rcases h.charged (hof ▸ hpos) with hfinal | ⟨j, hj⟩
    · exact .inl (hpay ▸ hfinal)
    · exact .inr ⟨j, (hsame j).2 hj⟩

theorem chargesOf_charge (s : ProcessState) (k : ℕ) (c : ProcessCall) (p : Payment) (id : UUID) :
    ({ s with charges := s.charges ++ [Charge.mk k p.id] }.setCall k c).chargesOf id
      = s.chargesOf id + if p.id = id then 1 else 0 := by
  simp [ProcessState.chargesOf]

theorem ChargeInv.charge (h : ChargeInv s id) {id' : UUID} {p : Payment} (hpid : p.id = id')
    (hc : s.calls k = some ⟨id', .charge p⟩) :
    ChargeInv ({ s with charges := s.charges ++ [Charge.mk k p.id] }.setCall k
      ⟨id', .charging p⟩) id := by
  have hcalls : ({ s with charges := s.charges ++ [Charge.mk k p.id] }.setCall k
      ⟨id', .charging p⟩).calls = Function.update s.calls k (some ⟨id', .charging p⟩) := rfl
  have hupdate := fun j => holdsCharge_update id j hcalls
  have hof := chargesOf_charge s k ⟨id', .charging p⟩ p id
  by_cases hid : id' = id
  · rw [if_pos (hpid.trans hid)] at hof
    refine ⟨fun h0 => by omega, fun h0 => by omega, fun _ => .inr ⟨k, (hupdate k).2 ?_⟩⟩
    exact .inr ⟨rfl, hid, rfl⟩
  · rw [if_neg (fun he => hid (hpid.symm.trans he)), Nat.add_zero] at hof
    refine ⟨fun h0 j hj => ?_, fun h0 j q hj => ?_, fun hpos => ?_⟩
    · rcases (hupdate j).1 hj with ⟨-, hj⟩ | ⟨-, he, -⟩
      · exact h.unheld (hof ▸ h0) j hj
      · exact hid he
    · by_cases hjk : j = k
      · subst hjk
        simp at hj
      · exact h.pending (hof ▸ h0) j q (by simpa [Function.update_of_ne hjk] using hj)
    · rcases h.charged (hof ▸ hpos) with hfinal | ⟨j, hj⟩
      · exact .inl hfinal
      · refine .inr ⟨j, (hupdate j).2 (.inl ⟨fun hjk => ?_, hj⟩)⟩
        obtain ⟨pc, hpc, -⟩ := hj
        rw [hjk, hc, Option.some.injEq, ProcessCall.mk.injEq] at hpc
        exact hid hpc.1

theorem ChargeInv.commit (hinv : ProcessInv s) (h : ChargeInv s id) {id' : UUID} {p : Payment}
    {applied : Bool} (hc : s.calls k = some ⟨id', .commit p applied⟩) :
    ChargeInv (({ s with payments := s.committed k }.endSession k).setCall k
      ⟨id', afterCommit p applied⟩) id := by
  have hcalls : (({ s with payments := s.committed k }.endSession k).setCall k
      ⟨id', afterCommit p applied⟩).calls
        = Function.update s.calls k (some ⟨id', afterCommit p applied⟩) := rfl
  have hupdate := fun j => holdsCharge_update id j hcalls
  have hafter : (afterCommit p applied).holdsCharge = false := by cases applied <;> rfl
  refine ⟨fun h0 j hj => ?_, fun h0 j q hj => ?_, fun hpos => ?_⟩
  · rcases (hupdate j).1 hj with ⟨-, hj⟩ | ⟨-, -, hj⟩
    · exact h.unheld h0 j hj
    · simp [hafter] at hj
  · by_cases hjk : j = k
    · subst hjk
      cases applied <;> simp [afterCommit] at hj
    · obtain ⟨r, hr, hrid, hpending⟩ :=
        h.pending h0 j q (by simpa [Function.update_of_ne hjk] using hj)
      rcases committed_cases (k := k) hinv hr with ⟨w, hw, hwk, he, -⟩ | ⟨hr', -⟩
      · obtain ⟨q, hcall⟩ := (hinv.writes w hw).call
        have hwid : w.row.id = id := by rw [← asPending_id, he, hrid]
        exact absurd ⟨_, hwk ▸ hwid ▸ hcall, rfl⟩ (h.unheld h0 k)
      · exact ⟨r, hr', hrid, hpending⟩
  · rcases h.charged hpos with ⟨r, hr, hrid, hf⟩ | ⟨j, hj⟩
    · exact .inl ⟨r, (later_committed hinv).final hr hf, hrid, hf⟩
    · by_cases hjk : j = k
      · subst hjk
        obtain ⟨pc, hpc, -⟩ := hj
        rw [hc, Option.some.injEq, ProcessCall.mk.injEq] at hpc
        obtain ⟨rfl, -⟩ := hpc
        have hok := (hinv.commit hc).calls j _ (Function.update_self _ _ _)
        cases applied with
        | true =>
          obtain ⟨hpid, r, hr, hp, hf⟩ := hok
          exact .inl ⟨r, hr, hp.id.symm.trans hpid, hf⟩
        | false => exact .inl hok.2
      · exact .inr ⟨j, (hupdate j).2 (.inl ⟨hjk, hj⟩)⟩

theorem ChargeInv.stop (h : ChargeInv s id) {id' : UUID} {stopped : ProcessPc}
    (hc : s.calls k = some ⟨id', pc⟩) (hstopped : stopped.stoppedAt = some pc) :
    ChargeInv ((s.endSession k).setCall k ⟨id', stopped⟩) id := by
  refine h.of_call rfl rfl rfl (by simp [hc]) ?_ ?_
  · rw [holdsCharge_stopped hstopped]
    exact ⟨fun hpc => ⟨pc, hc, hpc⟩, fun ⟨pc', hc', hpc'⟩ => by simp_all⟩
  · rintro q rfl
    cases hstopped

theorem ChargeInv.insert (h : ChargeInv s id) (row : PaymentRow) :
    ChargeInv { s with payments := s.payments ++ [row] } id := by
  refine ⟨h.unheld, fun h0 j p hj => ?_, fun hpos => ?_⟩
  · obtain ⟨r, hr, hrow⟩ := h.pending h0 j p hj
    exact ⟨r, List.mem_append_left _ hr, hrow⟩
  · rcases h.charged hpos with ⟨r, hr, hrow⟩ | hheld
    · exact .inl ⟨r, List.mem_append_left _ hr, hrow⟩
    · exact .inr hheld

theorem chargeInv_step {a : ProcessLabel} (hinv : ProcessInv s) (h : ChargeInv s id)
    (hstep : processMachine.step s a = some s') : ChargeInv s' id := by
  have hold : ∀ {id' : UUID} {pc : ProcessPc} {k : ℕ}, s.calls k = some ⟨id', pc⟩ →
      (pc.holdsCharge = true ↔ s.HoldsCharge k id') := fun {id' pc k} hc =>
    ⟨fun hpc => ⟨pc, hc, hpc⟩, fun ⟨pc', hc', hpc'⟩ => by simp_all⟩
  cases processMachine_trans hstep with
  | begin hc =>
    exact h.of_call rfl rfl rfl (by simp [hc])
      ⟨fun h => absurd h (by decide), fun ⟨_, hpc, _⟩ => by simp [hc] at hpc⟩ (by simp)
  | get hc =>
    exact h.of_call rfl rfl rfl (by simp [hc]) (by rw [holdsCharge_afterGet]; exact hold hc)
      fun _ => afterGet_charge
  | charge hc => exact h.charge (hinv.calls _ _ hc).1 hc
  | @answer k id' p b now hc =>
    have hholds := holdsCharge_afterCharge p b now
    exact h.of_call rfl rfl rfl (by simp [hc]) (by rw [hholds]; exact hold hc)
      fun q hq => by simp [hq, ProcessPc.holdsCharge] at hholds
  | @update k id' p hc hfree =>
    have hholds := holdsCharge_afterUpdateStatus p (PaymentRepository.updateStatus s.payments p)
    exact h.of_call (by simp) (by simp)
      (by rw [ProcessState.setCall_calls, ProcessState.write_calls]) (by simp [hc])
      (by rw [hholds]; exact hold hc) fun q hq => by simp [hq, ProcessPc.holdsCharge] at hholds
  | commit hc => exact h.commit hinv hc
  | @getAgain k id' p hc =>
    have hafter := afterGetAgain_pc p (PaymentRepository.get s.payments p.id)
    exact h.of_call rfl rfl rfl (by simp [hc]) (by rw [hafter.1]; exact hold hc)
      fun q hq => absurd hq (hafter.2 q)
  | send hc =>
    have hheld := hold hc
    exact h.of_call rfl rfl rfl (by simp [hc]) hheld (by simp)
  | accept hc =>
    have hheld := hold hc
    exact h.of_call rfl rfl rfl (by simp [hc]) hheld (by simp)
  | stop hc hrunning hact hstopped => exact h.stop hc hstopped
  | insert hfresh => exact h.insert _

/-! ## Charges along a run -/

theorem chargesOf_le {a : ProcessLabel} (hstep : processMachine.step s a = some s') :
    s.chargesOf id ≤ s'.chargesOf id := by
  cases processMachine_trans hstep with
  | charge hc =>
    rw [chargesOf_charge]
    exact Nat.le_add_right _ _
  | update hc hfree => simp [ProcessState.chargesOf]
  | _ => exact le_refl _

/-- Where a charge is safe there was none. -/
theorem chargesOf_eq_zero (hinv : ProcessInv s) (h : ChargeInv s id) {p : Payment}
    (hc : s.calls k = some ⟨id, .charge p⟩) (hsafe : ChargeSafe s k id) : s.chargesOf id = 0 := by
  by_contra hne
  rcases h.charged (Nat.pos_of_ne_zero hne) with ⟨r, hr, hrid, hf⟩ | ⟨j, hj⟩
  · obtain ⟨r', hr', hrid', hpending⟩ := hsafe.pending
    exact hf (eq_of_id hinv.ids hr hr' (hrid.trans hrid'.symm) ▸ hpending)
  · refine hsafe.alone j (fun hjk => ?_) hj
    obtain ⟨pc, hpc, hholds⟩ := hj
    rw [hjk, hc, Option.some.injEq, ProcessCall.mk.injEq] at hpc
    rw [← hpc.2] at hholds
    cases hholds

/-- Where a payment has no charge yet, its next charge is safe. -/
theorem chargeSafe_of_eq_zero (h : ChargeInv s id) {p : Payment}
    (hc : s.calls k = some ⟨id, .charge p⟩) (h0 : s.chargesOf id = 0) : ChargeSafe s k id :=
  ⟨h.pending h0 k p hc, fun j _ => h.unheld h0 j⟩

theorem chargesOf_step_le_one (hinv : ProcessInv s) (h : ChargeInv s id) {a : ProcessLabel}
    (hstep : processMachine.step s a = some s')
    (hsafe : ∀ k p, a = .call k .next → s.calls k = some ⟨id, .charge p⟩ → ChargeSafe s k id)
    (hle : s.chargesOf id ≤ 1) : s'.chargesOf id ≤ 1 := by
  cases processMachine_trans hstep with
  | @charge k id' p hc =>
    rw [chargesOf_charge]
    split_ifs with hid
    · obtain rfl : id' = id := (hinv.calls k _ hc).1.symm.trans hid
      rw [chargesOf_eq_zero hinv h hc (hsafe k p rfl hc)]
    · exact hle
  | update hc hfree => simpa [ProcessState.chargesOf] using hle
  | _ => exact hle

end

theorem chargeInv_init (payments : List PaymentRow) (id : UUID) :
    ChargeInv (.init payments) id := by
  refine ⟨?_, ?_, ?_⟩ <;> simp [ProcessState.init, ProcessState.HoldsCharge, ProcessState.chargesOf]

/-- A run charges a payment at most once if and only if each charge of it is made while its row is
pending and no other call of it holds a charge. -/
theorem charged_once_iff {payments : List PaymentRow} (hids : (payments.map PaymentRow.id).Nodup)
    {as : List ProcessLabel} {s : ProcessState}
    (hrun : processMachine.run (.init payments) as = some s) (id : UUID) :
    s.chargesOf id ≤ 1 ↔
      ∀ x ∈ processMachine.steps (.init payments) as, ∀ k p, x.2.1 = .call k .next →
        x.1.calls k = some ⟨id, .charge p⟩ → ChargeSafe x.1 k id := by
  have hinv : ∀ {u}, processMachine.Reachable (.init payments) u →
      ProcessInv u ∧ ChargeInv u id := by
    intro u hu
    refine hu.inv (I := fun u => ProcessInv u ∧ ChargeInv u id) (fun s a s' hs h => ?_)
      ⟨processInv_init hids, chargeInv_init payments id⟩
    exact ⟨processInv_step hs.1 h, chargeInv_step hs.1 hs.2 h⟩
  constructor
  · intro hle x hx k p hlabel hc
    have hpre := hinv (Machine.reachable_of_mem_steps hx).1
    refine chargeSafe_of_eq_zero hpre.2 hc ?_
    obtain ⟨hstep, -⟩ := Machine.mem_steps hx
    obtain ⟨bs, hbs⟩ := Machine.run_after_mem_steps hrun hx
    have hmono : x.2.2.chargesOf id ≤ s.chargesOf id :=
      Machine.rel_run (I := fun _ => True) (fun _ _ _ _ _ => trivial)
        (fun _ _ _ _ h => chargesOf_le h) (fun _ => le_refl _) (fun _ _ _ => le_trans) trivial hbs
    have hcharge : x.2.2.chargesOf id = x.1.chargesOf id + 1 := by
      rw [hlabel] at hstep
      have hpid := (hpre.1.calls k _ hc).1
      simp only [processMachine, processStep, hc, Option.bind_some, processNext,
        Option.some.injEq] at hstep
      rw [← hstep, chargesOf_charge, if_pos hpid]
    omega
  · intro hsafe
    have hzero : (ProcessState.init payments).chargesOf id ≤ 1 := by
      simp [ProcessState.init, ProcessState.chargesOf]
    refine Machine.inv_run_steps (I := fun u => u.chargesOf id ≤ 1) (fun x hx hstep hle => ?_)
      hzero hrun
    have hpre := hinv (Machine.reachable_of_mem_steps hx).1
    exact chargesOf_step_le_one hpre.1 hpre.2 hstep (hsafe x hx) hle

/-- The message of a payment delivered to two consumers that both read it before either commits;
both calls return. -/
def twoDeliveries (id : UUID) : List ProcessLabel :=
  [.call 0 (.begin id), .call 1 (.begin id), .call 0 .next, .call 1 .next, .call 0 .next,
    .call 1 .next, .call 0 (.answer true 5), .call 1 (.answer false 6), .call 0 .next,
    .call 0 .next, .call 1 .next, .call 1 .next, .call 1 .next, .call 0 .next, .call 1 .next,
    .call 0 .next, .call 1 .next]

theorem charged_twice : ¬ ∀ (as : List ProcessLabel) (s : ProcessState),
    processMachine.run (.init [sampleRow]) as = some s → s.chargesOf sampleRow.id ≤ 1 :=
  fun h => absurd (h (twoDeliveries sampleRow.id) _ rfl) (by decide)

/-- The message of a payment delivered twice, the second time after the first call returned. -/
def deliveredAgain (id : UUID) : List ProcessLabel :=
  [.call 0 (.begin id), .call 0 .next, .call 0 .next, .call 0 (.answer true 5), .call 0 .next,
    .call 0 .next, .call 0 .next, .call 0 .next, .call 1 (.begin id), .call 1 .next,
    .call 1 .next, .call 1 .next]

/-- Of the two, the one that charges the payment once charges it safely, and the other does not. -/
theorem deliveredAgain_safe : (∃ s,
    processMachine.run (.init [sampleRow]) (deliveredAgain sampleRow.id) = some s
      ∧ s.chargesOf sampleRow.id = 1
      ∧ ∀ x ∈ processMachine.steps (.init [sampleRow]) (deliveredAgain sampleRow.id),
        ∀ k p, x.2.1 = .call k .next → x.1.calls k = some ⟨sampleRow.id, .charge p⟩ →
          ChargeSafe x.1 k sampleRow.id) ∧
    ¬ ∀ x ∈ processMachine.steps (.init [sampleRow]) (twoDeliveries sampleRow.id),
      ∀ k p, x.2.1 = .call k .next → x.1.calls k = some ⟨sampleRow.id, .charge p⟩ →
        ChargeSafe x.1 k sampleRow.id :=
  ⟨⟨_, rfl, by decide, (charged_once_iff (by decide) rfl sampleRow.id).1 (by decide)⟩,
    fun h => absurd ((charged_once_iff (by decide) rfl sampleRow.id).2 h) (by decide)⟩

end PaymentService
