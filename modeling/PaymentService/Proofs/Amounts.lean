import PaymentService.Api
import PaymentService.Proofs.RequestSteps

/-!
# The text of an amount

The event of a payment spells the amount as the client wrote it, the notification spells what the
`Numeric(18, 2)` column gave back. The column always gives two places, so the two agree exactly if
the client wrote two (`encodersAgree_iff`).
-/

namespace PaymentService

open Python SciDecimal

/-! ## The digits of an accepted amount -/

theorem amountField_ok {d : SciDecimal} (h : amountField d = true) :
    d.neg = false ∧ d.coeff ≠ 0 ∧ d.leftDigits ≤ 16 := by
  simp only [amountField, Bool.and_eq_true, Bool.not_eq_true', decide_eq_true_eq] at h
  obtain ⟨⟨⟨⟨hneg, hcoeff⟩, -⟩, hwhole⟩, -⟩ := h
  refine ⟨hneg, hcoeff, ?_⟩
  simp only [leftDigits, Numeral.toChars, List.length_map]
  omega

/-- An amount that passes both checks is a number of hundredths that the column holds. -/
theorem centsOf_bounds {d : SciDecimal} (h : amountField d = true) (hscale : -d.exp ≤ 2) :
    0 ≤ Numeric.centsOf d ∧ (Numeric.centsOf d).natAbs < 10 ^ 18 := by
  obtain ⟨hneg, -, hleft⟩ := amountField_ok h
  have hcents : Numeric.centsOf d = (d.coeff * 10 ^ (d.exp + 2).toNat : ℕ) := by
    simp only [Numeric.centsOf, hneg, if_pos (show 0 ≤ d.exp + 2 by omega), Bool.false_eq_true,
      if_false]
  rw [hcents, Int.natAbs_natCast]
  refine ⟨Int.natCast_nonneg _, ?_⟩
  calc d.coeff * 10 ^ (d.exp + 2).toNat
      < 10 ^ (Numeral.toChars d.coeff).length * 10 ^ (d.exp + 2).toNat :=
        Nat.mul_lt_mul_of_pos_right (Numeral.lt_pow_length_toChars _) (by positivity)
    _ = 10 ^ ((Numeral.toChars d.coeff).length + (d.exp + 2).toNat) := (pow_add _ _ _).symm
    _ ≤ 10 ^ 18 := by
        refine Nat.pow_le_pow_right (by decide) ?_
        unfold leftDigits at hleft
        omega

/-! ## The two encoders -/

/-- The text under `"amount"`. -/
def amountText (fields : Dict) : Option String :=
  match fields.lookup "amount" with
  | some (.str text) => some text
  | _ => none

theorem amountText_paymentCreated (payment : Payment) (messageId : UUID) :
    amountText (paymentCreated payment messageId).payload =
      some (Decimal.finite payment.amount.value).str := rfl

theorem amountText_webhookPayload (payment : Payment) :
    amountText (webhookPayload payment) = some (Decimal.finite payment.amount.value).str := rfl

/-- The event of a payment spells its amount with two places, and so as the notification does that
is made of any version of the payment's row. -/
structure EncodersAgree (payment : Payment) : Prop where
  plain : ∀ messageId, ∃ text, amountText (paymentCreated payment messageId).payload = some text
    ∧ HasPlaces 2 text.toList
  same : ∀ requestHash row, (paymentToModel payment requestHash).toRow = .ok row →
    ∀ r : PaymentRow, r.asPending = row.asPending → ∀ loaded, r.toPayment = .ok loaded →
      ∀ messageId, amountText (webhookPayload loaded) =
        amountText (paymentCreated payment messageId).payload

/-- What the column gives back of an amount with two places is the amount. -/
theorem toDecimal_of_cents {d : SciDecimal} {n : Numeric} (hneg : d.neg = false) (hexp : d.exp = -2)
    (h : n.cents = Numeric.centsOf d) : n.toDecimal = d := by
  obtain ⟨neg, coeff, exp⟩ := d
  subst hneg hexp
  simp only [Numeric.centsOf, Int.reduceNeg, Int.reduceAdd, le_refl, if_true, Int.toNat_zero,
    pow_zero, mul_one, Bool.false_eq_true, if_false] at h
  simp only [Numeric.toDecimal, h, Int.natAbs_natCast, SciDecimal.mk.injEq, and_self, and_true]
  simp

/-- A notification has two places, whatever the client wrote. -/
theorem webhookPayload_hasPlaces {r : PaymentRow} {loaded : Payment}
    (h : r.toPayment = .ok loaded) :
    ∃ text, amountText (webhookPayload loaded) = some text ∧ HasPlaces 2 text.toList := by
  refine ⟨_, amountText_webhookPayload loaded, ?_⟩
  rw [(toPayment_iff.1 h).amount, Decimal.str, String.toList_ofList]
  refine (hasPlaces_iff ?_ two_pos (by decide)).2 rfl
  simpa [Numeric.toDecimal] using r.amount_nonneg

/-- The encoders agree on an accepted amount if and only if it was written with two places. -/
theorem encodersAgree_iff {payment : Payment} (h : amountField payment.amount.value = true) :
    EncodersAgree payment ↔ payment.amount.value.exp = -2 := by
  have hneg := (amountField_ok h).1
  constructor
  · rintro ⟨hplain, -⟩
    obtain ⟨text, htext, hplaces⟩ := hplain 0
    rw [amountText_paymentCreated, Option.some.injEq] at htext
    rw [← htext, Decimal.str, String.toList_ofList] at hplaces
    exact (hasPlaces_iff hneg two_pos (by decide)).1 hplaces
  · intro hexp
    refine ⟨fun messageId => ⟨_, rfl, ?_⟩, fun requestHash row hrow r hr loaded hloaded _ => ?_⟩
    · rw [Decimal.str, String.toList_ofList]
      exact (hasPlaces_iff hneg two_pos (by decide)).2 hexp
    · have hcents : r.amount.cents = Numeric.centsOf payment.amount.value :=
        (congrArg (fun r => r.amount.cents) hr :).trans (rowOf_of_toRow hrow).cents
      rw [amountText_webhookPayload, amountText_paymentCreated, (toPayment_iff.1 hloaded).amount,
        toDecimal_of_cents hneg hexp hcents]

theorem sampleRow_encodersAgree : ∃ payment, sampleRow.toPayment = .ok payment
    ∧ EncodersAgree payment := by
  obtain ⟨payment, hp⟩ := sampleRow_loads
  have hamount : payment.amount.value = ⟨false, 10050, -2⟩ := (toPayment_iff.1 hp).amount
  exact ⟨payment, hp, (encodersAgree_iff (by rw [hamount]; decide)).2 (by rw [hamount])⟩

/-- What the two encoders make of a command's amount. -/
def amountTexts (c : CreatePaymentCommand) (d : Draw) :
    Except PyError (Option String × Option String) := do
  let payment ← buildPayment c d
  let row ← (paymentToModel payment c.requestHash).toRow
  let loaded ← row.toPayment
  .ok (amountText (paymentCreated payment d.messageId).payload, amountText (webhookPayload loaded))

/-- 100.5 is "100.5" in the event and "100.50" in the notification. -/
theorem sampleCommand_texts : ∃ payment, buildPayment sampleCommand sampleDraw = .ok payment
    ∧ amountField payment.amount.value = true
    ∧ amountTexts sampleCommand sampleDraw = .ok (some "100.5", some "100.50")
    ∧ ¬ EncodersAgree payment := by
  have htexts : amountTexts sampleCommand sampleDraw = .ok (some "100.5", some "100.50") := by
    decide +kernel
  have hrun := htexts
  simp only [amountTexts, Except.bind_eq_ok] at hrun
  obtain ⟨payment, hbuilt, row, hrow, loaded, hloaded, htext⟩ := hrun
  rw [Except.ok.injEq, Prod.mk.injEq] at htext
  have hamount : payment.amount.value = ⟨false, 1005, -1⟩ := by
    have hread := Decimal.readFinite_str payment.amount.value
    rw [Option.some.inj htext.1, show Decimal.readFinite "100.5" = some ⟨false, 1005, -1⟩ by decide]
      at hread
    exact (Option.some.inj hread).symm
  refine ⟨payment, hbuilt, by rw [hamount]; decide, htexts, fun h => ?_⟩
  have hsame := h.same _ row hrow row rfl loaded hloaded sampleDraw.messageId
  rw [htext.1, htext.2] at hsame
  revert hsame
  decide

end PaymentService
