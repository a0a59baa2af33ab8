import PaymentService.GetPayment
import PaymentService.Proofs.Amounts
import PaymentService.Proofs.Notifications
import PaymentService.Proofs.Provenance
import PaymentService.Proofs.Sequential

/-!
# What clients read

A client learns of a payment from the answer to its POST, from GET and from the notification. All
three are made of the committed row, which has one later version at most, so what a client was told
stays true: GET finds a payment that was ever answered for, its pending answer is followed by one
final answer and nothing else, and the notification says what GET says.
-/

namespace PaymentService

open Python SciDecimal Labelled

variable {cmd : ℕ → CreatePaymentCommand} {draw : ℕ → Draw} {batchSize : ℕ → ℕ}
  {settings : RabbitSettings}

/-! ## Rows and responses -/

/-- The response a row is read as. -/
def PaymentRow.response (r : PaymentRow) : PaymentResponse where
  id := r.id
  amount := r.amount.toDecimal
  currency := r.currency
  description := r.description
  metadata := r.metadata
  status := r.status
  idempotencyKey := r.idempotencyKey
  webhookUrl := r.webhookUrl
  createdAt := .utc r.createdAt
  processedAt := r.processedAt.map .utc

theorem fromDomain_of_loadsAs {r : PaymentRow} {p : Payment} (h : LoadsAs r p) :
    PaymentResponse.fromDomain p = r.response := by
  simp only [PaymentResponse.fromDomain, PaymentRow.response, h.id, h.amount, h.currency,
    h.description, h.metadata, h.status, h.idempotencyKey, h.webhookUrl, h.createdAt, h.processedAt]

/-- Every row can be loaded, and no id occurs twice. -/
structure Readable (payments : List PaymentRow) : Prop where
  ids : (payments.map PaymentRow.id).Nodup
  loads : ∀ r ∈ payments, ∃ p, LoadsAs r p

section

variable {payments : List PaymentRow} {id : UUID}

theorem Readable.getPayment_of_mem (h : Readable payments) {r : PaymentRow} (hr : r ∈ payments) :
    getPayment payments r.id = .ok r.response := by
  obtain ⟨p, hp⟩ := h.loads r hr
  simp only [getPayment, findPayment, get_of_mem h.ids hr hp, fromDomain_of_loadsAs hp]

theorem getPayment_of_not_mem (h : ∀ r ∈ payments, r.id ≠ id) :
    getPayment payments id = .error (.error 404 s!"Платёж {id.str} не найден") := by
  have hfind : payments.find? (·.id = id) = none :=
    List.find?_eq_none.2 fun r hr => by simpa using h r hr
  simp only [getPayment, findPayment, PaymentRepository.get, hfind]
  rfl

theorem Readable.of_getPayment (h : Readable payments) {body : PaymentResponse}
    (hget : getPayment payments id = .ok body) : ∃ r ∈ payments, r.id = id ∧ body = r.response := by
  by_cases hr : ∃ r ∈ payments, r.id = id
  · obtain ⟨r, hr, rfl⟩ := hr
    rw [h.getPayment_of_mem hr, Except.ok.injEq] at hget
    exact ⟨r, hr, rfl, hget.symm⟩
  · rw [getPayment_of_not_mem fun r hr' hid => hr ⟨r, hr', hid⟩] at hget
    cases hget

end

theorem readable_run {s : SystemState}
    (h : (system cmd draw batchSize settings).Reachable .init s) :
    Readable s.process.payments where
  ids := (systemInv_run h).process.ids
  loads r hr := loads_of_asPending ((provenance_run h).rows r hr)

/-! ## Later rows -/

theorem Later.trans {rows rows' rows'' : List PaymentRow} (h : Later rows rows')
    (h' : Later rows' rows'') : Later rows rows'' := by
  intro r hr
  obtain ⟨r', hr', he, hfinal⟩ := h r hr
  obtain ⟨r'', hr'', he', hfinal'⟩ := h' r' hr'
  refine ⟨r'', hr'', he'.trans he, fun hf => ?_⟩
  obtain rfl := hfinal hf
  exact hfinal' hf

theorem later_step {s s' : SystemState} {a : SystemLabel} (hinv : SystemInv cmd draw s)
    (h : (system cmd draw batchSize settings).step s a = some s') :
    Later s.process.payments s'.process.payments := by
  intro r hr
  rcases (rowsStepOk hinv h).row r hr with hr' | ⟨r', hr', rfl, -⟩
  · exact ⟨r, hr', rfl, fun _ => rfl⟩
  · exact ⟨r', hr', rfl, fun hf => absurd rfl hf⟩

theorem later_run {as : List SystemLabel} {s t : SystemState}
    (hs : (system cmd draw batchSize settings).Reachable .init s)
    (hrun : (system cmd draw batchSize settings).run s as = some t) :
    Later s.process.payments t.process.payments :=
  Machine.rel_run (I := SystemInv cmd draw)
    (R := fun s s' => Later s.process.payments s'.process.payments) (fun _ _ _ => systemInv_step)
    (fun _ _ _ => later_step) (fun _ => Later.refl _) (fun _ _ _ => Later.trans)
    (systemInv_run hs) hrun

/-- What a later read says: the same, or the final answer to what was pending. -/
inductive ReadsOn (body : PaymentResponse) : PaymentResponse → Prop
  | same : ReadsOn body body
  | final {status : PaymentStatus} {t : DateTime} (hpending : body.status = .pending)
    (hnone : body.processedAt = none) (hfinal : status ≠ .pending) :
    ReadsOn body { body with
      status := status
      processedAt := some t }

theorem readsOn_of_later {r r' : PaymentRow} (he : r'.asPending = r.asPending)
    (hfinal : r.status ≠ .pending → r' = r) : ReadsOn r.response r'.response := by
  by_cases hpending : r.status = .pending
  · rw [asPending_of_pending hpending] at he
    subst he
    rcases ht : r'.processedAt with _ | t
    · have hsame := asPending_of_pending (r'.processedAt_matches_status.2 ht)
      exact hsame.symm ▸ .same
    · have hlater : r'.response = { r'.asPending.response with
          status := r'.status
          processedAt := some (.utc t) } := by
        simp [PaymentRow.response, PaymentRow.asPending, ht]
      rw [hlater]
      exact .final rfl rfl fun h => by simp [r'.processedAt_matches_status.1 h] at ht
  · rw [hfinal hpending]
    exact .same

/-! ## Notifications -/

/-- The notification says what the response says, field by field. -/
structure Tells (n : Notification) (body : PaymentResponse) : Prop where
  paymentId : n.paymentId = body.id
  url : n.url = body.webhookUrl
  payload : n.payload = [("payment_id", .str body.id.str), ("status", .str body.status.value),
    ("amount", .str (Decimal.finite body.amount).str), ("currency", .str body.currency.value),
    ("description", .str body.description), ("metadata", .obj body.metadata),
    ("created_at", .str body.createdAt.isoformat),
    ("processed_at", (body.processedAt.map fun t => .str t.isoformat).getD .null)]

theorem tells_notificationOf (p : Payment) : Tells (notificationOf p) (.fromDomain p) :=
  ⟨rfl, rfl, rfl⟩

/-! ## Answers to POST -/

/-- The request is about to answer with a payment, or has, or died over it. -/
def Request.Answers (r : Request) (p : Payment) (created : Bool) : Prop :=
  r.pc = .reply (.ok ⟨p, created⟩) ∨ r.pc = .replied (.ok ⟨p, created⟩)
    ∨ r.pc = .killed (.reply (.ok ⟨p, created⟩))

/-- The payment of an answer is that of a row with the command's key, in this version of the row or,
while it was pending, in the version before. -/
structure AnsweredFrom (c : CreatePaymentCommand) (r : PaymentRow) (p : Payment) : Prop where
  id : r.id = p.id
  createdAt : p.createdAt = .utc r.createdAt
  key : r.idempotencyKey = c.idempotencyKey
  hash : c.requestHash.length ≤ 64 → r.requestHash = c.requestHash
  final : p.status ≠ .pending → p.status = r.status ∧ p.processedAt = r.processedAt.map .utc

theorem AnsweredFrom.later {c : CreatePaymentCommand} {r r' : PaymentRow} {p : Payment}
    (h : AnsweredFrom c r p) (he : r'.asPending = r.asPending)
    (hfinal : r.status ≠ .pending → r' = r) : AnsweredFrom c r' p := by
  by_cases hpending : r.status = .pending
  · rw [asPending_of_pending hpending] at he
    subst he
    refine ⟨h.id, h.createdAt, h.key, h.hash, fun hp => absurd (h.final hp).1 ?_⟩
    exact hp
  · exact hfinal hpending ▸ h

section

variable {c : CreatePaymentCommand} {d : Draw} {db db' : Db} {r r' : Request} {p : Payment}
  {created : Bool}

/-- A replay answers with what a row with the key and the hash of the command loads as. -/
def ReplayedFrom (c : CreatePaymentCommand) (db : Db) (p : Payment) : Prop :=
  ∃ row ∈ db.payments, row.idempotencyKey = c.idempotencyKey ∧ row.requestHash = c.requestHash
    ∧ LoadsAs row p

theorem replayedFrom_of_replay {existing : StoredPayment}
    (hfound : PaymentRepository.getByIdempotencyKey db.payments c.idempotencyKey =
      .ok (some existing)) (h : replayReply existing c = .ok ⟨p, created⟩) :
    created = false ∧ ReplayedFrom c db p := by
  have hcreated :
      created = false ∧ existing.requestHash = c.requestHash ∧ existing.payment = p := by
    simp only [replayReply, replay] at h
    split_ifs at h with hhash
    · cases h
    · cases h
      exact ⟨rfl, not_not.1 hhash, rfl⟩
  obtain ⟨hfalse, hhash, rfl⟩ := hcreated
  unfold PaymentRepository.getByIdempotencyKey at hfound
  split at hfound
  · cases hfound
  · rename_i row hfind
    rcases hp : row.toPayment with e | q <;> simp only [hp, Except.map] at hfound <;> cases hfound
    refine ⟨hfalse, row, List.mem_of_find?_eq_some hfind, ?_, hhash, toPayment_iff.1 hp⟩
    simpa using List.find?_some hfind

/-- Where the answer of a request comes from: it had it before the step, it read it, or it is the
payment it has just committed. -/
inductive AnswerOrigin (c : CreatePaymentCommand) (d : Draw) (db db' : Db) (r : Request)
    (p : Payment) : Bool → Prop
  | before {created : Bool} (h : r.Answers p created) : AnswerOrigin c d db db' r p created
  | replayed (h : ReplayedFrom c db p) : AnswerOrigin c d db db' r p false
  | committed (hpc : r.pc = .commit p) (h : r.session.commit db d.insertedAt = .ok db') :
    AnswerOrigin c d db db' r p true

theorem afterCommitError_ne_ok (e : PyError) (session : Session) :
    ¬ Request.Answers ⟨afterCommitError e, session⟩ p created := by
  unfold afterCommitError
  split <;> simp [Request.Answers]

theorem answerOrigin_next (h : createNext c d db r = some (db', r'))
    (hanswers : r'.Answers p created) : AnswerOrigin c d db db' r p created := by
  obtain ⟨pc, session⟩ := r
  unfold createNext at h
  cases pc with
  | lookup | lookupAgain e =>
    cases h
    rcases hfound : PaymentRepository.getByIdempotencyKey db.payments c.idempotencyKey with
      e | _ | existing <;>
      simp only [hfound, afterLookup, afterLookupAgain, Request.Answers, reduceCtorEq, or_self,
        or_false, CreatePc.reply.injEq] at hanswers
    obtain ⟨rfl, hreplayed⟩ := replayedFrom_of_replay hfound hanswers
    exact .replayed hreplayed
  | build =>
    rcases hb : buildPayment c d with e | payment <;> rw [hb] at h <;> cases h <;>
      simp [Request.Answers] at hanswers
  | addPayment payment | addEvent payment | rollback e =>
    cases h
    simp [Request.Answers] at hanswers
  | commit payment =>
    rcases hc : session.commit db d.insertedAt with e | db₁ <;> simp only [hc] at h <;> cases h
    · exact absurd hanswers (afterCommitError_ne_ok e session)
    · simp only [Request.Answers, CreatePc.reply.injEq, Except.ok.injEq,
        CreatePaymentResult.mk.injEq, reduceCtorEq, or_self, or_false] at hanswers
      obtain ⟨rfl, rfl⟩ := hanswers
      exact .committed rfl hc
  | reply reply =>
    cases h
    simp only [Request.Answers, CreatePc.replied.injEq, reduceCtorEq, false_or,
      or_false] at hanswers
    exact .before (.inl (congrArg CreatePc.reply hanswers))
  | replied reply => cases h
  | killed at_ => cases h

theorem answerOrigin {act : CreateAct} (h : createStep c d db r act = some (db', r'))
    (hanswers : r'.Answers p created) : AnswerOrigin c d db db' r p created := by
  cases act with
  | next => exact answerOrigin_next h hanswers
  | fail e =>
    obtain ⟨r₁, hfail, h⟩ := Option.map_eq_some_iff.1 h
    cases h
    unfold createFail at hfail
    split at hfail <;> cases hfail
    case h_6 => exact absurd hanswers (afterCommitError_ne_ok e _)
    all_goals simp [Request.Answers] at hanswers
  | kill =>
    obtain ⟨r₁, hkill, h⟩ := Option.map_eq_some_iff.1 h
    cases h
    unfold createKill at hkill
    split at hkill <;> cases hkill
    simp only [Request.Answers, CreatePc.killed.injEq, reduceCtorEq, false_or] at hanswers
    exact .before (.inl hanswers)

/-! ## The row of a committed payment -/

theorem createdAt_of_toRow {m : PaymentModel} {row : PaymentRow} (h : m.toRow = .ok row) :
    row.createdAt = m.createdAt.instant := by
  simp only [PaymentModel.toRow, Except.bind_eq_ok] at h
  obtain ⟨amount, -, description, -, metadata, -, key, -, hash, -, url, -, h⟩ := h
  split_ifs at h
  cases h
  rfl

theorem answeredFrom_committed (hbuilt : buildPayment c d = .ok p)
    (h : (stagedSession c d p).commit db d.insertedAt = .ok db') :
    ∃ row message, db' = ⟨db.payments ++ [row], db.outbox ++ [message]⟩
      ∧ AnsweredFrom c row p := by
  obtain ⟨hid, hstatus, hkey, -, hcreated, -⟩ := buildPayment_ok hbuilt
  simp only [commit_stagedSession, Db.insertPayment, Except.bind_eq_ok] at h
  obtain ⟨db₁, ⟨row, hrow, hinsert⟩, hmessage⟩ := h
  split_ifs at hinsert
  cases hinsert
  obtain ⟨message, -, -, rfl⟩ := insertMessage_ok hmessage
  have hrowOf := rowOf_of_toRow hrow
  refine ⟨row, message, rfl, hrowOf.id, ?_, hrowOf.key.trans hkey,
    fun hlength => varchar_of_le hlength hrowOf.requestHash, fun hp => absurd hstatus hp⟩
  rw [hcreated, createdAt_of_toRow hrow]
  simp [paymentToModel, hcreated]

end

/-! ## Answers along a run -/

structure AnswersInv (cmd : ℕ → CreatePaymentCommand) (s : SystemState) : Prop where
  answered : ∀ i p created, (s.requests i).Answers p created →
    ∃ r ∈ s.process.payments, AnsweredFrom (cmd i) r p
  once : ∀ i j, (s.requests i).HasCreated → (s.requests j).HasCreated →
    (cmd i).idempotencyKey = (cmd j).idempotencyKey → i = j

section

variable {s s' : SystemState}

/-- What a step does to the answers: one that was not there before is that of the request that
steps, and a new payment is in the table. -/
theorem answers_step {a : SystemLabel} (hinv : SystemInv cmd draw s)
    (h : (system cmd draw batchSize settings).step s a = some s') {i : ℕ} {p : Payment}
    {created : Bool} (hanswers : (s'.requests i).Answers p created) :
    (s.requests i).Answers p created
      ∨ (created = false ∧ ReplayedFrom (cmd i) s.db p ∧ s'.db = s.db)
      ∨ ((∃ act, a = .create i act) ∧ ∃ row message,
        s'.process.payments = s.process.payments ++ [row] ∧ AnsweredFrom (cmd i) row p
          ∧ ∃ payment, Inserted (cmd i) (draw i) s.db payment row message s'.db) := by
  cases a with
  | create j act =>
    obtain ⟨⟨db, r⟩, hstep, rfl⟩ := Option.map_eq_some_iff.1 h
    by_cases hij : i = j
    · subst hij
      simp only [SystemState.setRequest, Function.update_self] at hanswers
      cases answerOrigin hstep hanswers with
      | before h => exact .inl h
      | replayed hreplayed =>
        rcases (requestStepOk (hinv.requests i) hstep).unchanged with
          rfl | ⟨payment, row, message, -, -, rfl, -⟩
        · exact .inr (.inl ⟨rfl, hreplayed, rfl⟩)
        · simp [Request.Answers] at hanswers
      | committed hpc hcommit =>
        have hok := hinv.requests i
        rw [RequestOk, hpc] at hok
        obtain ⟨hbuilt, hsession⟩ := hok
        rw [hsession] at hcommit
        obtain ⟨row, message, hdb, hfrom⟩ := answeredFrom_committed hbuilt hcommit
        obtain ⟨row', message', hinserted⟩ := inserted_of_commit hbuilt hcommit
        obtain ⟨hrows, hmessages⟩ := Db.mk.inj (hdb.symm.trans hinserted.db)
        obtain rfl : row = row' := by simpa using hrows
        refine .inr (.inr ⟨⟨act, rfl⟩, row, message', ?_, hfrom, p, hinserted⟩)
        exact congrArg Db.payments hdb
    · refine .inl ?_
      simpa [SystemState.setRequest, SystemState.setDb, hij] using hanswers
  | _ =>
    have htrans := system_trans hinv.requests h
    refine .inl ?_
    cases htrans <;> exact hanswers

theorem answersInv_step {a : SystemLabel} (hinv : SystemInv cmd draw s)
    (hanswers : AnswersInv cmd s)
    (h : (system cmd draw batchSize settings).step s a = some s') : AnswersInv cmd s' := by
  have hlater := later_step hinv h
  have hkeep : ∀ i p, (∃ r ∈ s.process.payments, AnsweredFrom (cmd i) r p) →
      ∃ r ∈ s'.process.payments, AnsweredFrom (cmd i) r p := by
    rintro i p ⟨r, hr, hfrom⟩
    obtain ⟨r', hr', he, hfinal⟩ := hlater r hr
    exact ⟨r', hr', hfrom.later he hfinal⟩
  -- a request that has just committed found no row with its key
  have hnew : ∀ i, (s'.requests i).HasCreated → ¬ (s.requests i).HasCreated →
      (∃ act, a = .create i act) ∧ ∀ j, (s.requests j).HasCreated →
        (cmd j).idempotencyKey ≠ (cmd i).idempotencyKey := by
    rintro i ⟨p, hp⟩ hbefore
    rcases answers_step hinv h hp with
      hp | ⟨hfalse, -⟩ | ⟨ha, row, message, -, hfrom, payment, hins⟩
    · exact absurd ⟨p, hp⟩ hbefore
    · cases hfalse
    · refine ⟨ha, fun j ⟨q, hq⟩ hkey => ?_⟩
      obtain ⟨r, hr, hrfrom⟩ := hanswers.answered j q true hq
      exact hins.key r hr ((hrfrom.key.trans hkey).trans hfrom.key.symm)
  refine ⟨fun i p created hi => ?_, fun i j hi hj hkey => ?_⟩
  · rcases answers_step hinv h hi with hi | ⟨-, ⟨row, hrow, hkey, hhash, hp⟩, hdb⟩ |
      ⟨-, row, message, hrows, hfrom, -⟩
    · exact hkeep i p (hanswers.answered i p created hi)
    · refine hkeep i p ⟨row, hrow, hp.id.symm, hp.createdAt, hkey, fun _ => hhash, fun _ => ?_⟩
      exact ⟨hp.status, hp.processedAt⟩
    · exact ⟨row, hrows ▸ List.mem_append_right _ List.mem_cons_self, hfrom⟩
  · by_cases hi' : (s.requests i).HasCreated <;> by_cases hj' : (s.requests j).HasCreated
    · exact hanswers.once i j hi' hj' hkey
    · exact absurd hkey ((hnew j hj hj').2 i hi')
    · exact absurd hkey.symm ((hnew i hi hi').2 j hj')
    · obtain ⟨act, hai⟩ := (hnew i hi hi').1
      obtain ⟨act', haj⟩ := (hnew j hj hj').1
      rw [hai, SystemLabel.create.injEq] at haj
      exact haj.1

theorem answersInv_run (h : (system cmd draw batchSize settings).Reachable .init s) :
    AnswersInv cmd s := by
  refine (h.inv (I := fun s => SystemInv cmd draw s ∧ AnswersInv cmd s)
    (fun _ _ _ hs hstep => ⟨systemInv_step hs.1 hstep, answersInv_step hs.1 hs.2 hstep⟩)
    ⟨systemInv_init, ?_, ?_⟩).2
  · simp [SystemState.init, Request.start, Request.Answers]
  · simp [SystemState.init, Request.start, Request.HasCreated]

end

/-- In every run, and whatever has failed or died in it: GET of any id is a 200 with the row's
fields, its amount with two places, or a 404 for an id no row has; what it answered once it answers
again, at most made final in between; a notification sent says what GET says from then on; and a
POST that was answered with a payment is followed by a GET that finds it, with the time it was
created and, if the answer was final, with that status. -/
theorem reads_agree {as bs : List SystemLabel} {s t : SystemState}
    (hs : (system cmd draw batchSize settings).run .init as = some s)
    (ht : (system cmd draw batchSize settings).run s bs = some t) :
    (∀ id, (∃ body, getPayment t.process.payments id = .ok body ∧ body.id = id
          ∧ HasPlaces 2 (Decimal.finite body.amount).str.toList)
        ∨ (getPayment t.process.payments id = .error (.error 404 s!"Платёж {id.str} не найден")
          ∧ ∀ r ∈ t.process.payments, r.id ≠ id))
      ∧ (∀ id body, getPayment s.process.payments id = .ok body →
        ∃ body', getPayment t.process.payments id = .ok body' ∧ ReadsOn body body')
      ∧ (∀ n ∈ s.process.sent, ∃ body, getPayment t.process.payments n.paymentId = .ok body
        ∧ body.status ≠ .pending ∧ Tells n body)
      ∧ ∀ i p created, (s.requests i).Answers p created →
        ∃ body, getPayment t.process.payments p.id = .ok body ∧ body.id = p.id
          ∧ body.createdAt = p.createdAt ∧ body.idempotencyKey = (cmd i).idempotencyKey
          ∧ (p.status ≠ .pending → body.status = p.status ∧ body.processedAt = p.processedAt) := by
  have hreach : (system cmd draw batchSize settings).Reachable .init t :=
    ⟨as ++ bs, Machine.run_append.2 ⟨s, hs, ht⟩⟩
  have hread := readable_run hreach
  have hreadBefore := readable_run ⟨as, hs⟩
  have hlater := later_run ⟨as, hs⟩ ht
  refine ⟨fun id => ?_, fun id body hget => ?_, fun n hn => ?_, fun i p created hi => ?_⟩
  · by_cases hr : ∃ r ∈ t.process.payments, r.id = id
    · obtain ⟨r, hr, rfl⟩ := hr
      refine .inl ⟨_, hread.getPayment_of_mem hr, rfl, ?_⟩
      obtain ⟨p, hp⟩ := hread.loads r hr
      obtain ⟨text, htext, hplaces⟩ := webhookPayload_hasPlaces (toPayment_iff.2 hp)
      rw [amountText_webhookPayload, Option.some_inj, hp.amount] at htext
      exact htext ▸ hplaces
    · exact .inr ⟨getPayment_of_not_mem fun r hr' hid => hr ⟨r, hr', hid⟩,
        fun r hr' hid => hr ⟨r, hr', hid⟩⟩
  · obtain ⟨r, hr, rfl, rfl⟩ := hreadBefore.of_getPayment hget
    obtain ⟨r', hr', he, hfinal⟩ := hlater r hr
    have hid : r'.id = r.id := by rw [← asPending_id r', he, asPending_id]
    exact ⟨r'.response, hid ▸ hread.getPayment_of_mem hr', readsOn_of_later he hfinal⟩
  · obtain ⟨r, hr, hfinal, p, hp, rfl⟩ := (systemInv_run ⟨as, hs⟩).process.sent n hn
    refine ⟨r.response, ?_, hfinal, fromDomain_of_loadsAs hp ▸ tells_notificationOf p⟩
    have hid : (notificationOf p).paymentId = r.id := hp.id
    exact hid ▸ hread.getPayment_of_mem (hlater.final hr hfinal)
  · obtain ⟨r, hr, hfrom⟩ := (answersInv_run ⟨as, hs⟩).answered i p created hi
    obtain ⟨r', hr', he, hfinal⟩ := hlater r hr
    have hfrom := hfrom.later he hfinal
    refine ⟨r'.response, hfrom.id ▸ hread.getPayment_of_mem hr', hfrom.id, hfrom.createdAt.symm,
      hfrom.key, fun hp => ?_⟩
    obtain ⟨hstatus, hprocessed⟩ := hfrom.final hp
    exact ⟨hstatus.symm, hprocessed.symm⟩

theorem sampleLabels_reads_agree : ∃ s t, sampleSystem.run .init (sampleLabels.take 11) = some s
    ∧ sampleSystem.run s (sampleLabels.drop 11) = some t
    ∧ t.process.payments.map PaymentRow.status = [.succeeded]
    ∧ ∀ id body, getPayment s.process.payments id = .ok body →
      ∃ body', getPayment t.process.payments id = .ok body' ∧ ReadsOn body body' := by
  obtain ⟨t, hrun, hstatus⟩ := sampleLabels_run
  rw [← List.take_append_drop 11 sampleLabels] at hrun
  obtain ⟨s, hs, ht⟩ := Machine.run_append.1 hrun
  exact ⟨s, t, hs, ht, hstatus, (reads_agree hs ht).2.1⟩

/-- In every run, whatever requests fail, die or race, two that were answered with a payment for one
key have the same payment and the same hash of the body, and one of them at most created it. -/
theorem one_payment_per_key {as : List SystemLabel} {s : SystemState}
    (hrun : (system cmd draw batchSize settings).run .init as = some s)
    (hhash : ∀ i, (cmd i).requestHash.length ≤ 64) {i j : ℕ} {p q : Payment} {b c : Bool}
    (hi : (s.requests i).Answers p b) (hj : (s.requests j).Answers q c)
    (hkey : (cmd i).idempotencyKey = (cmd j).idempotencyKey) :
    p.id = q.id ∧ p.createdAt = q.createdAt ∧ (cmd i).requestHash = (cmd j).requestHash
      ∧ (b = true → c = true → i = j) := by
  have hanswers := answersInv_run ⟨as, hrun⟩
  obtain ⟨r, hr, hfrom⟩ := hanswers.answered i p b hi
  obtain ⟨r', hr', hfrom'⟩ := hanswers.answered j q c hj
  obtain rfl : r = r' := List.inj_on_of_nodup_map (tablesOk_run ⟨as, hrun⟩).keys hr hr'
    ((hfrom.key.trans hkey).trans hfrom'.key.symm)
  refine ⟨hfrom.id.symm.trans hfrom'.id, hfrom.createdAt.trans hfrom'.createdAt.symm,
    (hfrom.hash (hhash i)).symm.trans (hfrom'.hash (hhash j)), fun hb hc => ?_⟩
  subst hb hc
  exact hanswers.once i j ⟨p, hi⟩ ⟨q, hj⟩ hkey

/-- The id and the flag of an answer that was sent. -/
def Request.answer (r : Request) : Option (UUID × Bool) :=
  match r.pc with
  | .replied (.ok ⟨p, created⟩) => some (p.id, created)
  | _ => none

theorem answers_of_answer {r : Request} {id : UUID} {created : Bool}
    (h : r.answer = some (id, created)) : ∃ p, r.Answers p created ∧ p.id = id := by
  unfold Request.answer at h
  split at h
  · rename_i p b hpc
    simp only [Option.some.injEq, Prod.mk.injEq] at h
    obtain ⟨rfl, rfl⟩ := h
    exact ⟨p, .inr (.inl hpc), rfl⟩
  · cases h

/-- Two requests with one key, the second after the first. -/
def repeatedLabels : List SystemLabel :=
  List.replicate 6 (.create 0 .next) ++ List.replicate 2 (.create 1 .next)

theorem repeatedLabels_one_payment : ∃ s p q, sampleSystem.run .init repeatedLabels = some s
    ∧ (s.requests 0).Answers p true ∧ (s.requests 1).Answers q false ∧ p.id = q.id := by
  have h : (sampleSystem.run .init repeatedLabels).map
      (fun s => ((s.requests 0).answer, (s.requests 1).answer)) =
        some (some (1, true), some (1, false)) := by
    decide +kernel
  obtain ⟨s, hrun, hanswers⟩ := Option.map_eq_some_iff.1 h
  obtain ⟨h₀, h₁⟩ := Prod.mk.inj hanswers
  obtain ⟨p, hp, -⟩ := answers_of_answer h₀
  obtain ⟨q, hq, -⟩ := answers_of_answer h₁
  exact ⟨s, p, q, hrun, hp, hq,
    (one_payment_per_key hrun (fun _ => by decide) hp hq rfl).1⟩

end PaymentService
