import PaymentService.Proofs.RequestSteps

/-!
# Requests one after another

With its key stored a command changes nothing and gets the reply the stored row gives. With its key
free it adds its rows, or it fails for a reason of its own (`createPayment_ends`). So of commands
one after another only one stores a key, and the others with that key get what its row gives
(`createAll_key`).
-/

namespace PaymentService

open Python

/-! ## Errors of a COMMIT -/

theorem Except.bind_eq_error {ε α β : Type} {x : Except ε α} {f : α → Except ε β} {e : ε} :
    (x >>= f) = .error e ↔ x = .error e ∨ ∃ a, x = .ok a ∧ f a = .error e := by
  cases x with
  | error e' => simp [bind, Except.bind]
  | ok a => simp [bind, Except.bind]

/-- The error is not the one of a lost race. -/
def IsPlain (e : PyError) : Prop :=
  commitError e = e ∧ ∀ text, e ≠ .duplicateIdempotencyKeyError text

theorem isPlain_dataError (text : String) : IsPlain (.dataError text) := ⟨rfl, by simp⟩

theorem isPlain_amountCheck : IsPlain (checkViolation "ck_payments_amount_non_negative") :=
  ⟨by decide +kernel, by simp [checkViolation]⟩

theorem isPlain_statusCheck : IsPlain (checkViolation "ck_payments_processed_at_matches_status") :=
  ⟨by decide +kernel, by simp [checkViolation]⟩

theorem isPlain_outboxKey : IsPlain (uniqueViolation "pk_outbox") :=
  ⟨by decide +kernel, by simp [uniqueViolation]⟩

theorem commitError_duplicate : commitError (uniqueViolation IDEMPOTENCY_KEY_CONSTRAINT) =
    .duplicateIdempotencyKeyError
      "duplicate key value violates unique constraint \"uq_payments_idempotency_key\"" := by
  decide +kernel

theorem varchar_error {n : ℕ} {s : String} {e : PyError} (h : varchar n s = .error e) :
    IsPlain e := by
  unfold varchar at h
  split_ifs at h <;> cases h <;> exact isPlain_dataError _

theorem text_error {s : String} {e : PyError} (h : text s = .error e) : IsPlain e := by
  unfold text at h
  split_ifs at h
  cases h
  exact isPlain_dataError _

theorem jsonb_error {d : Dict} {e : PyError} (h : jsonb d = .error e) : IsPlain e := by
  unfold jsonb at h
  split_ifs at h
  cases h
  exact isPlain_dataError _

theorem ofDecimal_error {d : SciDecimal} {e : PyError} (h : Numeric.ofDecimal d = .error e) :
    IsPlain e := by
  unfold Numeric.ofDecimal at h
  split_ifs at h
  cases h
  exact isPlain_dataError _

theorem toRow_error {m : PaymentModel} {e : PyError} (h : m.toRow = .error e) : IsPlain e := by
  simp only [PaymentModel.toRow, Except.bind_eq_error] at h
  rcases h with h | ⟨_, -, h | ⟨_, -, h | ⟨_, -, h | ⟨_, -, h | ⟨_, -, h | ⟨_, -, h⟩⟩⟩⟩⟩⟩
  · exact ofDecimal_error h
  · exact text_error h
  · exact jsonb_error h
  · exact varchar_error h
  · exact varchar_error h
  · exact text_error h
  · split_ifs at h <;> cases h
    · exact isPlain_statusCheck
    · exact isPlain_amountCheck

theorem messageToRow_error {m : OutboxMessage} {now : ℤ} {e : PyError}
    (h : m.toRow now = .error e) : IsPlain e := by
  simp only [OutboxMessage.toRow, Except.bind_eq_error] at h
  rcases h with h | ⟨_, -, h | ⟨_, -, h⟩⟩
  · exact varchar_error h
  · exact jsonb_error h
  · cases h

theorem insertMessage_error {db : Db} {now : ℤ} {message : OutboxMessage} {e : PyError}
    (h : db.insertMessage now message = .error e) : IsPlain e := by
  simp only [Db.insertMessage, Except.bind_eq_error] at h
  rcases h with h | ⟨row, -, h⟩
  · exact messageToRow_error h
  · split_ifs at h
    cases h
    exact isPlain_outboxKey

/-! ## The COMMIT of a request -/

/-- The key is stored. -/
def KeyStored (payments : List PaymentRow) (key : String) : Prop :=
  ∃ r ∈ payments, r.idempotencyKey = key

theorem find?_eq_none_iff {payments : List PaymentRow} {key : String} :
    payments.find? (·.idempotencyKey = key) = none ↔ ¬ KeyStored payments key := by
  simp [KeyStored]

/-- How the COMMIT of a payment's rows ends: the payment's row cannot be stored, or its key is
taken, or something else is wrong, or it succeeds. -/
inductive CommitEnds (c : CreatePaymentCommand) (d : Draw) (payment : Payment) (db : Db) :
    Except PyError Db → Prop
  | unstorable {e : PyError} (h : (paymentToModel payment c.requestHash).toRow = .error e)
    (hplain : IsPlain e) : CommitEnds c d payment db (.error e)
  | taken {row : PaymentRow} (h : (paymentToModel payment c.requestHash).toRow = .ok row)
    (hstored : KeyStored db.payments c.idempotencyKey) :
    CommitEnds c d payment db (.error (uniqueViolation IDEMPOTENCY_KEY_CONSTRAINT))
  | failed {row : PaymentRow} {e : PyError}
    (h : (paymentToModel payment c.requestHash).toRow = .ok row)
    (hfree : ¬ KeyStored db.payments c.idempotencyKey) (hplain : IsPlain e) :
    CommitEnds c d payment db (.error e)
  | inserted {stored row : PaymentRow} {message : OutboxRow} {db' : Db}
    (h : (paymentToModel payment c.requestHash).toRow = .ok stored)
    (hfree : ¬ KeyStored db.payments c.idempotencyKey)
    (hinserted : Inserted c d db payment row message db') : CommitEnds c d payment db (.ok db')

section

variable {c : CreatePaymentCommand} {d : Draw} {db : Db} {payment : Payment}

theorem commit_stagedSession : (stagedSession c d payment).commit db d.insertedAt =
    (db.insertPayment (paymentToModel payment c.requestHash) >>= fun db =>
      db.insertMessage d.insertedAt (paymentCreated payment d.messageId)) := by
  simp [Session.commit, stagedSession]

/-- With the payment's id new. -/
theorem commit_ends (hbuilt : buildPayment c d = .ok payment)
    (hid : ∀ r ∈ db.payments, r.id ≠ d.paymentId) :
    CommitEnds c d payment db ((stagedSession c d payment).commit db d.insertedAt) := by
  obtain ⟨hpid, -, hkey, -⟩ := buildPayment_ok hbuilt
  rcases hrow : (paymentToModel payment c.requestHash).toRow with e | row
  · rw [commit_stagedSession, Db.insertPayment, hrow]
    exact .unstorable hrow (toRow_error hrow)
  have hrowOf := rowOf_of_toRow hrow
  have hrowid : db.payments.any (fun r => r.id = row.id) = false := by
    have : row.id = d.paymentId := hrowOf.id.trans hpid
    simpa [this] using hid
  have hrowkey : row.idempotencyKey = c.idempotencyKey := hrowOf.key.trans hkey
  by_cases hstored : KeyStored db.payments c.idempotencyKey
  · have hany : db.payments.any (fun r => r.idempotencyKey = row.idempotencyKey) = true := by
      obtain ⟨r, hr, hrk⟩ := hstored
      exact List.any_eq_true.2 ⟨r, hr, by simp [hrk, hrowkey]⟩
    rw [commit_stagedSession, Db.insertPayment, hrow]
    simp only [bind, Except.bind, hrowid, hany, Bool.false_eq_true, if_false, if_true]
    exact .taken hrow hstored
  · rcases hc : (stagedSession c d payment).commit db d.insertedAt with e | db'
    · refine .failed hrow hstored ?_
      rw [commit_stagedSession, Except.bind_eq_error] at hc
      rcases hc with hc | ⟨db₁, -, hc⟩
      · have hany : db.payments.any (fun r => r.idempotencyKey = row.idempotencyKey) = false := by
          rw [List.any_eq_false]
          intro r hr
          simpa [hrowkey] using fun hrk => hstored ⟨r, hr, hrk⟩
        rw [Db.insertPayment, hrow] at hc
        simp only [bind, Except.bind, hrowid, hany, Bool.false_eq_true, if_false] at hc
        cases hc
      · exact insertMessage_error hc
    · obtain ⟨row', message, hinserted⟩ := inserted_of_commit hbuilt hc
      exact .inserted hrow hstored hinserted

/-! ## What the use case does alone -/

/-- The reply to a command whose key is stored in a row. -/
def storedReply (row : PaymentRow) (c : CreatePaymentCommand) : CreateReply :=
  match row.toPayment with
  | .error e => .error e
  | .ok payment => replayReply ⟨payment, row.requestHash⟩ c

theorem createPayment_stored {row : PaymentRow}
    (h : db.payments.find? (·.idempotencyKey = c.idempotencyKey) = some row) :
    createPayment db c d = (db, storedReply row c) := by
  simp only [createPayment, PaymentRepository.getByIdempotencyKey, h, storedReply]
  rcases row.toPayment with e | payment <;> rfl

theorem createPayment_invalid {e : PyError} (hfree : ¬ KeyStored db.payments c.idempotencyKey)
    (h : buildPayment c d = .error e) : createPayment db c d = (db, .error e) := by
  simp only [createPayment, PaymentRepository.getByIdempotencyKey, find?_eq_none_iff.2 hfree, h]

theorem createPayment_failed {e : PyError} (hfree : ¬ KeyStored db.payments c.idempotencyKey)
    (hbuilt : buildPayment c d = .ok payment) (hplain : IsPlain e)
    (h : (stagedSession c d payment).commit db d.insertedAt = .error e) :
    createPayment db c d = (db, .error e) := by
  rw [stagedSession] at h
  simp only [createPayment, PaymentRepository.getByIdempotencyKey, find?_eq_none_iff.2 hfree,
    hbuilt, h, hplain.1]
  cases e with
  | duplicateIdempotencyKeyError text => exact absurd rfl (hplain.2 text)
  | _ => rfl

theorem createPayment_created {db' : Db} (hfree : ¬ KeyStored db.payments c.idempotencyKey)
    (hbuilt : buildPayment c d = .ok payment)
    (h : (stagedSession c d payment).commit db d.insertedAt = .ok db') :
    createPayment db c d = (db', .ok ⟨payment, true⟩) := by
  rw [stagedSession] at h
  simp only [createPayment, PaymentRepository.getByIdempotencyKey, find?_eq_none_iff.2 hfree,
    hbuilt, h]

/-- The command fails whoever else uses its key: its payment cannot be built, its rows cannot be
stored, or the event's id is in the outbox. -/
def FailsItself (c : CreatePaymentCommand) (d : Draw) (outbox : List OutboxRow) (e : PyError) :
    Prop :=
  buildPayment c d = .error e ∨ ∃ payment, buildPayment c d = .ok payment ∧
    ((paymentToModel payment c.requestHash).toRow = .error e
      ∨ (paymentCreated payment d.messageId).toRow d.insertedAt = .error e
      ∨ e = uniqueViolation "pk_outbox" ∧ ∃ m ∈ outbox, m.id = d.messageId)

theorem FailsItself.mono {outbox outbox' : List OutboxRow} {e : PyError}
    (hsub : ∀ m ∈ outbox, m ∈ outbox') (h : FailsItself c d outbox e) :
    FailsItself c d outbox' e := by
  rcases h with h | ⟨payment, hbuilt, h | h | ⟨he, m, hm, hid⟩⟩
  · exact .inl h
  · exact .inr ⟨payment, hbuilt, .inl h⟩
  · exact .inr ⟨payment, hbuilt, .inr (.inl h)⟩
  · exact .inr ⟨payment, hbuilt, .inr (.inr ⟨he, m, hsub m hm, hid⟩)⟩

theorem insertPayment_error {model : PaymentModel} {e : PyError}
    (hid : ∀ r ∈ db.payments, r.id ≠ model.id)
    (hkey : ∀ row, model.toRow = .ok row → ∀ r ∈ db.payments, r.idempotencyKey ≠ row.idempotencyKey)
    (h : db.insertPayment model = .error e) : model.toRow = .error e := by
  simp only [Db.insertPayment, Except.bind_eq_error] at h
  rcases h with h | ⟨row, hrow, h⟩
  · exact h
  · have hrowid := (rowOf_of_toRow hrow).id
    have hids : db.payments.any (fun r => r.id = row.id) = false := by
      simpa [hrowid] using hid
    have hkeys : db.payments.any (fun r => r.idempotencyKey = row.idempotencyKey) = false := by
      simpa using hkey row hrow
    simp only [hids, hkeys, Bool.false_eq_true, if_false, reduceCtorEq] at h

theorem failsItself_of_commit {e : PyError} (hfree : ¬ KeyStored db.payments c.idempotencyKey)
    (hid : ∀ r ∈ db.payments, r.id ≠ d.paymentId) (hbuilt : buildPayment c d = .ok payment)
    (h : (stagedSession c d payment).commit db d.insertedAt = .error e) :
    FailsItself c d db.outbox e := by
  obtain ⟨hpid, -, hkey, -⟩ := buildPayment_ok hbuilt
  rw [commit_stagedSession, Except.bind_eq_error] at h
  refine .inr ⟨payment, hbuilt, ?_⟩
  rcases h with h | ⟨db₁, hdb₁, h⟩
  · refine .inl (insertPayment_error (fun r hr => (hid r hr).trans_eq hpid.symm)
      (fun row hrow r hr hrk => ?_) h)
    exact hfree ⟨r, hr, hrk.trans ((rowOf_of_toRow hrow).key.trans hkey)⟩
  · obtain ⟨row, -, -, -, rfl⟩ := insertPayment_ok hdb₁
    simp only [Db.insertMessage, Except.bind_eq_error] at h
    rcases h with h | ⟨message, hmessage, h⟩
    · exact .inr (.inl h)
    · split_ifs at h with hany
      cases h
      obtain ⟨m, hm, hmid⟩ := List.any_eq_true.1 hany
      refine .inr (.inr ⟨rfl, m, hm, ?_⟩)
      rw [messageToRow_ok hmessage] at hmid
      exact of_decide_eq_true hmid

/-- How a command alone ends. -/
inductive EndsAlone (c : CreatePaymentCommand) (d : Draw) (db : Db) : Db × CreateReply → Prop
  | stored {row : PaymentRow}
    (h : db.payments.find? (·.idempotencyKey = c.idempotencyKey) = some row) :
    EndsAlone c d db (db, storedReply row c)
  | failed {e : PyError} (hfree : ¬ KeyStored db.payments c.idempotencyKey)
    (h : FailsItself c d db.outbox e) : EndsAlone c d db (db, .error e)
  | created {payment : Payment} {row : PaymentRow} {message : OutboxRow} {db' : Db}
    (hfree : ¬ KeyStored db.payments c.idempotencyKey)
    (h : Inserted c d db payment row message db') : EndsAlone c d db (db', .ok ⟨payment, true⟩)

theorem createPayment_ends (hid : ∀ r ∈ db.payments, r.id ≠ d.paymentId) :
    EndsAlone c d db (createPayment db c d) := by
  rcases hfind : db.payments.find? (·.idempotencyKey = c.idempotencyKey) with _ | row
  · have hfree := find?_eq_none_iff.1 hfind
    rcases hbuilt : buildPayment c d with e | payment
    · rw [createPayment_invalid hfree hbuilt]
      exact .failed hfree (.inl hbuilt)
    · have hends := commit_ends hbuilt hid
      rcases hc : (stagedSession c d payment).commit db d.insertedAt with e | db' <;>
        rw [hc] at hends
      · have hplain : IsPlain e := by
          cases hends with
          | unstorable h hplain => exact hplain
          | taken h hstored => exact absurd hstored hfree
          | failed h hfree hplain => exact hplain
        rw [createPayment_failed hfree hbuilt hplain hc]
        exact .failed hfree (failsItself_of_commit hfree hid hbuilt hc)
      · rw [createPayment_created hfree hbuilt hc]
        cases hends with
        | inserted h hfree hinserted => exact .created hfree hinserted
  · rw [createPayment_stored hfind]
    exact .stored hfind

end

/-! ## Commands one after another -/

section

variable {ι : Type} {cmd : ι → CreatePaymentCommand} {draw : ι → Draw} {db : Db}

/-- The commands to come have ids that are not in use. -/
structure Fresh (draw : ι → Draw) (db : Db) (is : List ι) : Prop where
  nodup : is.Nodup
  ids : ∀ i ∈ is, ∀ r ∈ db.payments, r.id ≠ (draw i).paymentId

theorem Fresh.ends {i : ι} {is : List ι} (h : Fresh draw db (i :: is)) :
    EndsAlone (cmd i) (draw i) db (createPayment db (cmd i) (draw i)) :=
  createPayment_ends (h.ids i List.mem_cons_self)

theorem Fresh.tail (hdraw : Function.Injective fun i => (draw i).paymentId) {i : ι} {is : List ι}
    (h : Fresh draw db (i :: is)) : Fresh draw (createPayment db (cmd i) (draw i)).1 is := by
  obtain ⟨hi, hnodup⟩ := List.nodup_cons.1 h.nodup
  refine ⟨hnodup, fun j hj r hr => ?_⟩
  have hold := h.ids j (List.mem_cons_of_mem _ hj)
  have hends : EndsAlone (cmd i) (draw i) db (createPayment db (cmd i) (draw i)) := h.ends
  generalize createPayment db (cmd i) (draw i) = x at hends hr
  cases hends with
  | stored _ => exact hold r hr
  | failed _ _ => exact hold r hr
  | created hfree hinserted =>
    rw [hinserted.db] at hr
    rcases List.mem_append.1 hr with hr | hr
    · exact hold r hr
    · obtain rfl := List.mem_singleton.1 hr
      rw [hinserted.rowOf.id.trans (buildPayment_ok hinserted.built).1]
      exact fun he => hi (hdraw he ▸ hj)

/-- How commands one after another end for one key: it was stored before, or no command stored it,
or one did. -/
inductive KeyEnds (cmd : ι → CreatePaymentCommand) (draw : ι → Draw) (key : String) (db db' : Db)
    (replies : List (ι × CreateReply)) : Prop
  | stored {row : PaymentRow} (before : db.payments.find? (·.idempotencyKey = key) = some row)
    (after : db'.payments.find? (·.idempotencyKey = key) = some row)
    (replies : ∀ x ∈ replies, (cmd x.1).idempotencyKey = key → x.2 = storedReply row (cmd x.1))
  | free (before : db.payments.find? (·.idempotencyKey = key) = none)
    (after : db'.payments.find? (·.idempotencyKey = key) = none)
    (replies : ∀ x ∈ replies, (cmd x.1).idempotencyKey = key →
      ∃ e, x.2 = .error e ∧ FailsItself (cmd x.1) (draw x.1) db'.outbox e)
  | created {i : ι} {payment : Payment} {row : PaymentRow}
    (before : db.payments.find? (·.idempotencyKey = key) = none)
    (after : db'.payments.find? (·.idempotencyKey = key) = some row)
    (hasKey : (cmd i).idempotencyKey = key) (built : buildPayment (cmd i) (draw i) = .ok payment)
    (rowOf : RowOf (paymentToModel payment (cmd i).requestHash) row)
    (creator : (i, .ok ⟨payment, true⟩) ∈ replies)
    (replies : ∀ x ∈ replies, (cmd x.1).idempotencyKey = key → x = (i, .ok ⟨payment, true⟩)
      ∨ (∃ e, x.2 = .error e ∧ FailsItself (cmd x.1) (draw x.1) db'.outbox e)
      ∨ x.2 = storedReply row (cmd x.1))

/-- A command with another key in front. -/
theorem KeyEnds.cons_other {key : String} {db₁ db' : Db} {replies : List (ι × CreateReply)}
    {x : ι × CreateReply} (hx : (cmd x.1).idempotencyKey ≠ key)
    (hfind : db₁.payments.find? (·.idempotencyKey = key) =
      db.payments.find? (·.idempotencyKey = key))
    (h : KeyEnds cmd draw key db₁ db' replies) : KeyEnds cmd draw key db db' (x :: replies) := by
  cases h with
  | stored before after hreplies =>
    exact .stored (hfind ▸ before) after
      (List.forall_mem_cons.2 ⟨fun hk => absurd hk hx, hreplies⟩)
  | free before after hreplies =>
    exact .free (hfind ▸ before) after
      (List.forall_mem_cons.2 ⟨fun hk => absurd hk hx, hreplies⟩)
  | created before after hkey built rowOf creator hreplies =>
    exact .created (hfind ▸ before) after hkey built rowOf (List.mem_cons_of_mem _ creator)
      (List.forall_mem_cons.2 ⟨fun hk => absurd hk hx, hreplies⟩)

/-- A command that finds its key stored in front. -/
theorem KeyEnds.cons_stored {i : ι} {db' : Db} {replies : List (ι × CreateReply)} {row : PaymentRow}
    (hfind : db.payments.find? (·.idempotencyKey = (cmd i).idempotencyKey) = some row)
    (h : KeyEnds cmd draw (cmd i).idempotencyKey db db' replies) :
    KeyEnds cmd draw (cmd i).idempotencyKey db db' ((i, storedReply row (cmd i)) :: replies) := by
  cases h with
  | stored before after hreplies =>
    obtain rfl := Option.some.inj (hfind.symm.trans before)
    exact .stored before after (List.forall_mem_cons.2 ⟨fun _ => rfl, hreplies⟩)
  | free before => simp [hfind] at before
  | created before => simp [hfind] at before

/-- A command that fails for itself in front. -/
theorem KeyEnds.cons_failed {i : ι} {db' : Db} {replies : List (ι × CreateReply)} {e : PyError}
    (hfree : ¬ KeyStored db.payments (cmd i).idempotencyKey)
    (hfails : FailsItself (cmd i) (draw i) db'.outbox e)
    (h : KeyEnds cmd draw (cmd i).idempotencyKey db db' replies) :
    KeyEnds cmd draw (cmd i).idempotencyKey db db' ((i, .error e) :: replies) := by
  cases h with
  | stored before =>
    rw [find?_eq_none_iff.2 hfree] at before
    cases before
  | free before after hreplies =>
    exact .free before after (List.forall_mem_cons.2 ⟨fun _ => ⟨e, rfl, hfails⟩, hreplies⟩)
  | created before after hkey built rowOf creator hreplies =>
    exact .created before after hkey built rowOf (List.mem_cons_of_mem _ creator)
      (List.forall_mem_cons.2 ⟨fun _ => .inr (.inl ⟨e, rfl, hfails⟩), hreplies⟩)

/-- The command that stores the key in front. -/
theorem KeyEnds.cons_created {i : ι} {db₁ db' : Db} {replies : List (ι × CreateReply)}
    {payment : Payment} {row : PaymentRow} {message : OutboxRow}
    (hfree : ¬ KeyStored db.payments (cmd i).idempotencyKey)
    (hinserted : Inserted (cmd i) (draw i) db payment row message db₁)
    (hfind : db₁.payments.find? (·.idempotencyKey = (cmd i).idempotencyKey) = some row)
    (h : KeyEnds cmd draw (cmd i).idempotencyKey db₁ db' replies) :
    KeyEnds cmd draw (cmd i).idempotencyKey db db' ((i, .ok ⟨payment, true⟩) :: replies) := by
  cases h with
  | stored before after hreplies =>
    obtain rfl := Option.some.inj (hfind.symm.trans before)
    exact .created (find?_eq_none_iff.2 hfree) after rfl hinserted.built hinserted.rowOf
      List.mem_cons_self
      (List.forall_mem_cons.2 ⟨fun _ => .inl rfl, fun x hx hk => .inr (.inr (hreplies x hx hk))⟩)
  | free before => simp [hfind] at before
  | created before => simp [hfind] at before

theorem Inserted.find? {c : CreatePaymentCommand} {d : Draw} {payment : Payment} {row : PaymentRow}
    {message : OutboxRow} {db' : Db} (h : Inserted c d db payment row message db') (key : String) :
    db'.payments.find? (·.idempotencyKey = key) =
      (db.payments.find? (·.idempotencyKey = key)).or
        (if c.idempotencyKey = key then some row else none) := by
  have hkey : row.idempotencyKey = c.idempotencyKey :=
    h.rowOf.key.trans (buildPayment_ok h.built).2.2.1
  by_cases hk : c.idempotencyKey = key <;> simp [h.db, hkey, hk]

theorem createAll_key (hdraw : Function.Injective fun i => (draw i).paymentId) (key : String) :
    ∀ {is : List ι} {db : Db}, Fresh draw db is →
      (∀ m ∈ db.outbox, m ∈ (createAll cmd draw db is).1.outbox) ∧
        KeyEnds cmd draw key db (createAll cmd draw db is).1 (createAll cmd draw db is).2
  | [], db, _ => by
    refine ⟨fun _ h => h, ?_⟩
    rcases hfind : db.payments.find? (·.idempotencyKey = key) with _ | row
    · exact .free hfind hfind (by simp [createAll])
    · exact .stored hfind hfind (by simp [createAll])
  | i :: is, db, hfresh => by
    obtain ⟨houtbox, hrest⟩ := createAll_key hdraw key (hfresh.tail hdraw)
    have hends : EndsAlone (cmd i) (draw i) db (createPayment db (cmd i) (draw i)) := hfresh.ends
    simp only [createAll]
    generalize createPayment db (cmd i) (draw i) = x at hends houtbox hrest
    by_cases hkey : (cmd i).idempotencyKey = key
    · subst hkey
      cases hends with
      | stored hfind => exact ⟨houtbox, hrest.cons_stored hfind⟩
      | failed hfree hfails => exact ⟨houtbox, hrest.cons_failed hfree (hfails.mono houtbox)⟩
      | created hfree hinserted =>
        refine ⟨fun m hm => houtbox m ?_, hrest.cons_created hfree hinserted ?_⟩
        · rw [hinserted.db]
          exact List.mem_append_left _ hm
        · rw [hinserted.find?, find?_eq_none_iff.2 hfree, if_pos rfl, Option.none_or]
    · cases hends with
      | stored hfind => exact ⟨houtbox, hrest.cons_other hkey rfl⟩
      | failed hfree hfails => exact ⟨houtbox, hrest.cons_other hkey rfl⟩
      | created hfree hinserted =>
        refine ⟨fun m hm => houtbox m ?_, hrest.cons_other hkey ?_⟩
        · rw [hinserted.db]
          exact List.mem_append_left _ hm
        · rw [hinserted.find?, if_neg hkey, Option.or_none]

end

end PaymentService
