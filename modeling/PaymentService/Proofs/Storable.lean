import PaymentService.Proofs.Amounts
import PaymentService.Proofs.Sequential
import PaymentService.Python.JsonKeys

/-!
# What the tables take

Whether a payment's row is stored is decided by the characters of its texts and by its metadata
(`exists_toRow_iff`), and of a body's metadata by its strings and floats (`fieldsStorable_dictOf`).
Of the event's texts only the client's own can be refused (`exists_messageToRow_iff`).
-/

namespace PaymentService

open Python

/-! ## Texts without U+0000 -/

theorem textOk_iff {s : String} : textOk s = true ↔ nul ∉ s.toList := by
  simp [textOk]

theorem digitChar_ne_nul {d : ℕ} (h : d < 16) : Nat.digitChar d ≠ nul := by
  interval_cases d <;> decide

theorem textOk_uuid (u : UUID) : textOk u.str = true := by
  rw [textOk_iff, UUID.str, String.toList_ofList]
  intro hmem
  rcases UUID.mem_hyphenate hmem with h | h
  · obtain ⟨d, hd, hc⟩ := List.mem_map.1 h
    exact digitChar_ne_nul (Numeral.fixedDigits_lt (by decide) hd) hc
  · exact absurd h (by decide)

theorem textOk_decimal (d : SciDecimal) : textOk (Decimal.finite d).str = true := by
  have hdigit : ¬ Numeral.isDecimalDigit nul := by decide
  obtain ⟨hwhole, hfrac⟩ := SciDecimal.isDecimalDigit_of_mem_parts d
  rw [textOk_iff, Decimal.str, String.toList_ofList, SciDecimal.toChars]
  simp only [List.mem_append, not_or]
  refine ⟨⟨⟨?_, fun h => hdigit (hwhole _ h)⟩, ?_⟩, ?_⟩
  · unfold SciDecimal.signChars
    split_ifs <;> decide
  · unfold SciDecimal.pointChars
    split_ifs
    · exact List.not_mem_nil
    · rw [List.mem_cons, not_or]
      exact ⟨by decide, fun h => hdigit (hfrac _ h)⟩
  · unfold SciDecimal.tailChars SciDecimal.expChars
    split_ifs
    · exact List.not_mem_nil
    all_goals
      simp only [List.mem_cons, not_or]
      exact ⟨by decide, by decide, fun h => hdigit (Numeral.isDecimalDigit_of_mem_toChars h)⟩

theorem textOk_sha256Hexdigest (bytes : List UInt8) : textOk (sha256Hexdigest bytes) = true := by
  rw [textOk_iff, sha256Hexdigest, String.toList_ofList]
  intro hmem
  obtain ⟨d, hd, hc⟩ := Sha256.mem_hexdigest hmem
  exact digitChar_ne_nul hd hc.symm

/-! ## Metadata -/

/-- No lone surrogate and no U+0000 is in the string. -/
def strOk (s : PyStr) : Bool := s.isText && !s.contains (.ofChar nul)

theorem isText_of_strOk (s : PyStr) (h : strOk s = true) : s.isText = true :=
  (Bool.and_eq_true_iff.1 h).1

theorem toChar?_getD_eq_nul {c : CodePoint} :
    c.toChar?.getD nul = nul ↔ c.toChar?.isSome = true → c = .ofChar nul := by
  rcases hc : c.toChar? with _ | d
  · simp
  · obtain rfl := CodePoint.toChar?_eq_some.1 hc
    simp [CodePoint.ofChar_injective.eq_iff]

theorem textOk_textOf (s : PyStr) : textOk (textOf s) = strOk s := by
  rw [Bool.eq_iff_iff, textOk_iff, textOf, String.toList_ofList, strOk, Bool.and_eq_true,
    PyStr.isText, List.all_eq_true, Bool.not_eq_true', List.contains_eq_mem,
    decide_eq_false_iff_not, List.mem_map]
  constructor
  · intro h
    have hne : ∀ c ∈ s, ¬ (c.toChar?.isSome = true → c = .ofChar nul) :=
      fun c hc himp => h ⟨c, hc, toChar?_getD_eq_nul.2 himp⟩
    exact ⟨fun c hc => (Classical.not_imp.1 (hne c hc)).1, fun hmem => hne _ hmem fun _ => rfl⟩
  · rintro ⟨htext, hnul⟩ ⟨c, hc, heq⟩
    exact hnul (toChar?_getD_eq_nul.1 heq (htext c hc) ▸ hc)

mutual

/-- What `jsonb` takes of a value is decided by its strings and its floats. -/
theorem storable_jsonOf : ∀ j : PyJson, (jsonOf j).storable = j.all strOk PyJson.isFinite
  | .null | .bool _ | .int _ | .float _ => rfl
  | .str s => textOk_textOf s
  | .arr xs => itemsStorable_itemsOf xs
  | .obj fs => fieldsStorable_dictOf fs

theorem itemsStorable_itemsOf : ∀ xs : List PyJson,
    itemsStorable (itemsOf xs) = PyJson.itemsAll strOk PyJson.isFinite xs
  | [] => rfl
  | x :: xs => by
    rw [itemsOf, itemsStorable, PyJson.itemsAll, storable_jsonOf x, itemsStorable_itemsOf xs]

theorem fieldsStorable_dictOf : ∀ fs : List (PyStr × PyJson),
    fieldsStorable (dictOf fs) = PyJson.fieldsAll strOk PyJson.isFinite fs
  | [] => rfl
  | (k, x) :: fs => by
    rw [dictOf, fieldsStorable, PyJson.fieldsAll, textOk_textOf k, storable_jsonOf x,
      fieldsStorable_dictOf fs]

end

/-- What `jsonb` takes is plain JSON. -/
theorem plain_of_storable {fs : List (PyStr × PyJson)} (h : fieldsStorable (dictOf fs) = true) :
    (PyJson.obj fs).all PyStr.isText (fun _ => true) = true ∧ PyJson.Finite (.obj fs) := by
  have hall : (PyJson.obj fs).all strOk PyJson.isFinite = true :=
    (fieldsStorable_dictOf fs).symm.trans h
  exact ⟨PyJson.all_mono isText_of_strOk (fun _ _ => rfl) hall,
    PyJson.all_mono (fun _ _ => rfl) (fun _ hb => hb) hall⟩

/-! ## Columns -/

theorem exists_text_iff {s : String} : (∃ t, text s = .ok t) ↔ textOk s = true := by
  unfold text
  split_ifs with h <;> simp [h]

theorem exists_jsonb_iff {d : Dict} : (∃ e, jsonb d = .ok e) ↔ fieldsStorable d = true := by
  unfold jsonb
  split_ifs with h <;> simp [h]

/-- A `varchar` is a `text` for what is not too long. -/
theorem varchar_eq_text {n : ℕ} {s : String} (h : s.length ≤ n) : varchar n s = text s := by
  unfold varchar text
  by_cases hs : textOk s = true <;> simp [hs, h]

/-! ## Rows -/

/-- What no text and no metadata decides: the CHECK constraints, an amount within its column and
the lengths of the two `varchar`s. -/
structure PaymentModel.ChecksHold (m : PaymentModel) : Prop where
  amount : ∃ n, Numeric.ofDecimal m.amount = .ok n ∧ 0 ≤ n.cents
  status : m.status = .pending ↔ m.processedAt.map DateTime.instant = none
  key : m.idempotencyKey.length ≤ IDEMPOTENCY_KEY_MAX_LENGTH
  hash : m.requestHash.length ≤ 64

section

variable {m : PaymentModel}

theorem exists_toRow_iff (h : m.ChecksHold) : (∃ row, m.toRow = .ok row) ↔
    textOk m.description = true ∧ fieldsStorable m.metadata = true
      ∧ textOk m.idempotencyKey = true ∧ textOk m.requestHash = true
      ∧ textOk m.webhookUrl = true := by
  obtain ⟨n, hn, hnonneg⟩ := h.amount
  simp only [← exists_text_iff, ← exists_jsonb_iff, PaymentModel.toRow, Except.bind_eq_ok,
    varchar_eq_text h.key, varchar_eq_text h.hash]
  constructor
  · rintro ⟨row, amount, -, description, hd, metadata, hm, key, hk, hash, hh, url, hu, -⟩
    exact ⟨⟨_, hd⟩, ⟨_, hm⟩, ⟨_, hk⟩, ⟨_, hh⟩, ⟨_, hu⟩⟩
  · rintro ⟨⟨description, hd⟩, ⟨metadata, hm⟩, ⟨key, hk⟩, ⟨hash, hh⟩, ⟨url, hu⟩⟩
    exact ⟨⟨m.id, n, m.currency, description, metadata, m.status, key, hash, url,
      m.createdAt.instant, m.processedAt.map DateTime.instant, hnonneg, h.status⟩,
      n, hn, description, hd, metadata, hm, key, hk, hash, hh, url, hu,
      by rw [dif_pos hnonneg, dif_pos h.status]⟩

/-- Nothing but a text is refused of such a model. -/
theorem toRow_refused {e : PyError} (h : m.ChecksHold)
    (hmetadata : fieldsStorable m.metadata = true) (hrefused : m.toRow = .error e) :
    e = invalidText := by
  have htext : ∀ {s : String}, text s = .error e → e = invalidText := by
    intro s hs
    unfold text at hs
    split_ifs at hs
    exact (Except.error.inj hs).symm
  obtain ⟨n, hn, hnonneg⟩ := h.amount
  simp only [PaymentModel.toRow, Except.bind_eq_error, varchar_eq_text h.key,
    varchar_eq_text h.hash] at hrefused
  rcases hrefused with hr | ⟨_, hamount, hr | ⟨_, -, hr | ⟨_, -, hr | ⟨_, -, hr | ⟨_, -,
    hr | ⟨_, -, hr⟩⟩⟩⟩⟩⟩
  · rw [hn] at hr
    cases hr
  · exact htext hr
  · rw [jsonb, if_pos hmetadata] at hr
    cases hr
  · exact htext hr
  · exact htext hr
  · exact htext hr
  · rw [hn] at hamount
    cases hamount
    rw [dif_pos hnonneg, dif_pos h.status] at hr
    cases hr

end

/-- An accepted amount fits its column. -/
theorem ofDecimal_accepted {a : Amount} (h : amountField a.value = true) :
    ∃ n, Numeric.ofDecimal a.value = .ok n ∧ 0 ≤ n.cents := by
  obtain ⟨hnonneg, hlt⟩ := centsOf_bounds h a.scale
  exact ⟨⟨_, hlt⟩, by rw [Numeric.ofDecimal, dif_pos hlt], hnonneg⟩

theorem checksHold {payment : Payment} {requestHash : String}
    (hamount : amountField payment.amount.value = true)
    (hstatus : payment.status = .pending ↔ payment.processedAt = none)
    (hhash : requestHash.length ≤ 64) : (paymentToModel payment requestHash).ChecksHold where
  amount := ofDecimal_accepted hamount
  status := hstatus.trans Option.map_eq_none_iff.symm
  key := payment.idempotencyKey.length_le
  hash := hhash

/-- The event's row, for any id and time. -/
theorem exists_messageToRow_iff {payment : Payment} (messageId : UUID) (now : ℤ) :
    (∃ row, (paymentCreated payment messageId).toRow now = .ok row) ↔
      textOk payment.webhookUrl.value = true ∧ textOk payment.idempotencyKey.value = true := by
  have htype : varchar 64 PAYMENT_CREATED = .ok PAYMENT_CREATED := by decide
  have hcurrency : ∀ c : Currency, textOk c.value = true := by
    rintro (_ | _ | _) <;> decide
  have hnames : textOk "payment_id" = true ∧ textOk "amount" = true ∧ textOk "currency" = true
      ∧ textOk "webhook_url" = true ∧ textOk "idempotency_key" = true := by decide
  have hpayload : fieldsStorable (paymentCreated payment messageId).payload = true ↔
      textOk payment.webhookUrl.value = true ∧ textOk payment.idempotencyKey.value = true := by
    simp [paymentCreated, fieldsStorable, Json.storable, hnames, hcurrency, textOk_uuid,
      textOk_decimal]
  rw [← hpayload, ← exists_jsonb_iff]
  simp only [OutboxMessage.toRow, Except.bind_eq_ok]
  constructor
  · rintro ⟨row, eventType, -, payload, hjson, -⟩
    exact ⟨payload, hjson⟩
  · rintro ⟨payload, hjson⟩
    exact ⟨_, PAYMENT_CREATED, htype, payload, hjson, rfl⟩

end PaymentService
