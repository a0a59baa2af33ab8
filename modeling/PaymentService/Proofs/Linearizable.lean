import PaymentService.Lib.Linearization
import PaymentService.Proofs.Sequential

/-!
# Concurrent requests are as good as requests one after another

A request whose key it finds stored, at its first lookup or after a lost race, is as good as one
that runs alone at that moment; one that creates its payment, as one that runs alone at its COMMIT.
One that is bound to fail, because its payment cannot be built or its row cannot be stored, is as
good as one that runs alone at its first lookup, whoever stores the key later (`create_points`).
-/

namespace PaymentService

open Python Labelled

/-! ## Where the reply is decided -/

/-- The reply to a command that fails for itself if its key is free. -/
def doomedReply (c : CreatePaymentCommand) (d : Draw) : Option CreateReply :=
  match buildPayment c d with
  | .error e => some (.error e)
  | .ok payment =>
    match (paymentToModel payment c.requestHash).toRow with
    | .error e => some (.error e)
    | .ok _ => none

/-- The reply of a request, once nothing can change it. -/
def Request.decided (c : CreatePaymentCommand) (d : Draw) (r : Request) : Option CreateReply :=
  match r.pc with
  | .build | .addPayment _ | .addEvent _ | .commit _ => doomedReply c d
  | .reply reply | .replied reply => some reply
  | .lookup | .rollback _ | .lookupAgain _ | .killed _ => none

section

variable {c : CreatePaymentCommand} {d : Draw} {db db' : Db} {r r' : Request}

theorem doomedReply_of_toRow {payment : Payment} (hbuilt : buildPayment c d = .ok payment)
    {row : PaymentRow} (h : (paymentToModel payment c.requestHash).toRow = .ok row) :
    doomedReply c d = none := by
  simp only [doomedReply, hbuilt, h]

theorem doomedReply_of_toRow_error {payment : Payment} (hbuilt : buildPayment c d = .ok payment)
    {e : PyError} (h : (paymentToModel payment c.requestHash).toRow = .error e) :
    doomedReply c d = some (.error e) := by
  simp only [doomedReply, hbuilt, h]

theorem commit_unstorable {payment : Payment} {e : PyError}
    (h : (paymentToModel payment c.requestHash).toRow = .error e) :
    (stagedSession c d payment).commit db d.insertedAt = .error e := by
  rw [commit_stagedSession, Db.insertPayment, h]
  rfl

/-- A doomed command alone, with its key free, fails as it is bound to. -/
theorem createPayment_doomed (hfree : ¬ KeyStored db.payments c.idempotencyKey)
    {reply : CreateReply} (h : doomedReply c d = some reply) :
    createPayment db c d = (db, reply) := by
  unfold doomedReply at h
  rcases hbuilt : buildPayment c d with e | payment <;> rw [hbuilt] at h
  · cases h
    exact createPayment_invalid hfree hbuilt
  · rcases hrow : (paymentToModel payment c.requestHash).toRow with e | row <;>
      simp only [hrow] at h <;> cases h
    exact createPayment_failed hfree hbuilt (toRow_error hrow) (commit_unstorable hrow)

theorem afterCommitError_plain {e : PyError} (h : IsPlain e) :
    afterCommitError e = .reply (.error e) := by
  rw [afterCommitError, h.1]
  cases e with
  | duplicateIdempotencyKeyError text => exact absurd rfl (h.2 text)
  | _ => rfl

theorem lookup_stored {payments : List PaymentRow} {row : PaymentRow}
    (h : payments.find? (·.idempotencyKey = c.idempotencyKey) = some row) :
    afterLookup c (PaymentRepository.getByIdempotencyKey payments c.idempotencyKey) =
        .reply (storedReply row c)
      ∧ ∀ e, afterLookupAgain c e
          (PaymentRepository.getByIdempotencyKey payments c.idempotencyKey) =
        .reply (storedReply row c) := by
  simp only [PaymentRepository.getByIdempotencyKey, h, storedReply]
  rcases row.toPayment with e | payment
  · exact ⟨rfl, fun _ => rfl⟩
  · exact ⟨rfl, fun _ => rfl⟩

/-- The step leaves the database and what is decided alone, or the request is now as good as
run. -/
def IsPoint (c : CreatePaymentCommand) (d : Draw) (db : Db) (r : Request) (db' : Db)
    (r' : Request) : Prop :=
  (db' = db ∧ r'.decided c d = r.decided c d) ∨
    (db' = (createPayment db c d).1 ∧ r.decided c d = none ∧
      r'.decided c d = some (createPayment db c d).2)

theorem lookup_point (session : Session) : IsPoint c d db ⟨.lookup, session⟩ db
    ⟨afterLookup c (PaymentRepository.getByIdempotencyKey db.payments c.idempotencyKey),
      session⟩ := by
  rcases hfind : db.payments.find? (·.idempotencyKey = c.idempotencyKey) with _ | row
  · have hfree := find?_eq_none_iff.1 hfind
    have hpc : afterLookup c (PaymentRepository.getByIdempotencyKey db.payments
        c.idempotencyKey) = .build := by
      simp only [PaymentRepository.getByIdempotencyKey, hfind, afterLookup]
    rw [hpc, IsPoint]
    rcases hdoomed : doomedReply c d with _ | reply
    · exact .inl ⟨rfl, hdoomed⟩
    · rw [createPayment_doomed hfree hdoomed]
      exact .inr ⟨rfl, rfl, hdoomed⟩
  · rw [(lookup_stored hfind).1, IsPoint, createPayment_stored hfind]
    exact .inr ⟨rfl, rfl, rfl⟩

theorem commit_point {payment : Payment} (hbuilt : buildPayment c d = .ok payment)
    (hid : ∀ row ∈ db.payments, row.id ≠ d.paymentId)
    (h : createNext c d db ⟨.commit payment, stagedSession c d payment⟩ = some (db', r')) :
    IsPoint c d db ⟨.commit payment, stagedSession c d payment⟩ db' r' := by
  have hends := commit_ends hbuilt hid
  unfold IsPoint
  rcases hc : (stagedSession c d payment).commit db d.insertedAt with e | db₁ <;>
    simp only [createNext, hc, Option.some.injEq, Prod.mk.injEq] at h <;>
    obtain ⟨rfl, rfl⟩ := h <;> rw [hc] at hends
  · cases hends with
    | unstorable hrow hplain =>
      rw [afterCommitError_plain hplain]
      exact .inl ⟨rfl, (doomedReply_of_toRow_error hbuilt hrow).symm⟩
    | taken hrow hkey =>
      rw [afterCommitError, commitError_duplicate]
      exact .inl ⟨rfl, (doomedReply_of_toRow hbuilt hrow).symm⟩
    | failed hrow hfree hplain =>
      rw [afterCommitError_plain hplain, createPayment_failed hfree hbuilt hplain hc]
      exact .inr ⟨rfl, doomedReply_of_toRow hbuilt hrow, rfl⟩
  · cases hends with
    | inserted hrow hfree hinserted =>
      rw [createPayment_created hfree hbuilt hc]
      exact .inr ⟨rfl, doomedReply_of_toRow hbuilt hrow, rfl⟩

theorem next_point (hok : RequestOk c d r)
    (hstored : ∀ e, r.pc = .lookupAgain e → KeyStored db.payments c.idempotencyKey)
    (hid : ∀ payment, r.pc = .commit payment → ∀ row ∈ db.payments, row.id ≠ d.paymentId)
    (h : createNext c d db r = some (db', r')) : IsPoint c d db r db' r' := by
  obtain ⟨pc, session⟩ := r
  cases pc with
  | lookup =>
    cases h
    exact lookup_point session
  | build =>
    unfold createNext at h
    rcases hbuilt : buildPayment c d with e | payment <;> rw [hbuilt] at h <;> cases h
    · refine .inl ⟨rfl, ?_⟩
      simp only [Request.decided, doomedReply, hbuilt]
    · exact .inl ⟨rfl, rfl⟩
  | commit payment =>
    obtain ⟨hbuilt, rfl⟩ := hok
    exact commit_point hbuilt (hid payment rfl) h
  | lookupAgain error =>
    cases h
    rcases hfind : db.payments.find? (·.idempotencyKey = c.idempotencyKey) with _ | row
    · exact absurd (hstored error rfl) (find?_eq_none_iff.1 hfind)
    · rw [(lookup_stored hfind).2, IsPoint, createPayment_stored hfind]
      exact .inr ⟨rfl, rfl, rfl⟩
  | replied reply => cases h
  | killed at_ => cases h
  | _ =>
    cases h
    exact .inl ⟨rfl, rfl⟩

/-- The request has lost a race and is on its way to the second lookup. -/
def Request.HasLost (r : Request) : Prop :=
  ∃ e, r.pc = .rollback e ∨ r.pc = .lookupAgain e

/-- Only a taken key sends a request there. -/
theorem next_hasLost (hok : RequestOk c d r)
    (hlost : r.HasLost → KeyStored db.payments c.idempotencyKey)
    (hid : ∀ payment, r.pc = .commit payment → ∀ row ∈ db.payments, row.id ≠ d.paymentId)
    (h : createNext c d db r = some (db', r')) (h' : r'.HasLost) :
    KeyStored db.payments c.idempotencyKey := by
  obtain ⟨pc, session⟩ := r
  unfold createNext at h
  cases pc with
  | lookup =>
    cases h
    obtain ⟨e, he⟩ := h'
    unfold afterLookup at he
    split at he <;> simp at he
  | build =>
    rcases hbuilt : buildPayment c d with e | payment <;> rw [hbuilt] at h <;> cases h <;>
      simp [Request.HasLost] at h'
  | commit payment =>
    obtain ⟨hbuilt, rfl⟩ := hok
    have hends := commit_ends hbuilt (hid payment rfl)
    rcases hc : (stagedSession c d payment).commit db d.insertedAt with e | db₁ <;>
      simp only [hc, Option.some.injEq, Prod.mk.injEq] at h <;> obtain ⟨rfl, rfl⟩ := h <;>
      rw [hc] at hends
    · cases hends with
      | taken hrow hkey => exact hkey
      | unstorable hrow hplain =>
        rw [afterCommitError_plain hplain] at h'
        simp [Request.HasLost] at h'
      | failed hrow hfree hplain =>
        rw [afterCommitError_plain hplain] at h'
        simp [Request.HasLost] at h'
    · simp [Request.HasLost] at h'
  | rollback error => exact hlost ⟨error, .inl rfl⟩
  | lookupAgain error => exact hlost ⟨error, .inr rfl⟩
  | replied reply => cases h
  | killed at_ => cases h
  | _ =>
    cases h
    simp [Request.HasLost] at h'

end

/-! ## Requests with one key -/

variable {ι : Type} {cmd : ι → CreatePaymentCommand} {draw : ι → Draw}

/-- The request has replied. -/
def CreateState.Replied (s : CreateState ι) (i : ι) (reply : CreateReply) : Prop :=
  (s.requests i).pc = .replied reply

/-- What the requests with a key have been told, once all have replied. A row that was there at the
start is taken to load, as a row of this service does. Only a hash too long for its column is stored
as another than its command's. -/
structure KeyLaw (cmd : ι → CreatePaymentCommand) (draw : ι → Draw) (db : Db) (s : CreateState ι)
    (key : String) : Prop where
  samePayment : ∀ i j p q, (cmd i).idempotencyKey = key → (cmd j).idempotencyKey = key →
    s.Replied i (.ok p) → s.Replied j (.ok q) → p.payment.id = q.payment.id
  storedBefore : KeyStored db.payments key → ∀ i p, (cmd i).idempotencyKey = key →
    s.Replied i (.ok p) → p.created = false
  freeBefore : ¬ KeyStored db.payments key →
    (∃ i p, (cmd i).idempotencyKey = key ∧ s.Replied i (.ok p)) →
      ∃! i, (cmd i).idempotencyKey = key ∧
        ∃ payment, payment.id = (draw i).paymentId ∧ s.Replied i (.ok ⟨payment, true⟩)
  conflict : ∀ row, s.db.payments.find? (·.idempotencyKey = key) = some row →
    (row ∈ db.payments → ∃ payment, row.toPayment = .ok payment) →
      ∀ i reply, (cmd i).idempotencyKey = key → s.Replied i reply →
        row.requestHash ≠ (cmd i).requestHash →
          (∃ text, reply = .error (.idempotencyConflictError text))
            ∨ (∃ e, reply = .error e ∧ FailsItself (cmd i) (draw i) s.db.outbox e)
            ∨ 64 < (cmd i).requestHash.length ∧ ∃ payment, reply = .ok ⟨payment, true⟩

theorem storedReply_ok {row : PaymentRow} {c : CreatePaymentCommand} {p : CreatePaymentResult}
    (h : storedReply row c = .ok p) : p.created = false ∧ p.payment.id = row.id := by
  unfold storedReply at h
  rcases hrow : row.toPayment with e | payment <;> rw [hrow] at h
  · cases h
  · simp only [replayReply, replay] at h
    split_ifs at h
    · cases h
    · obtain rfl := Except.ok.inj h
      exact ⟨rfl, (toPayment_iff.1 hrow).id⟩

theorem storedReply_conflict {row : PaymentRow} {c : CreatePaymentCommand} {payment : Payment}
    (hrow : row.toPayment = .ok payment) (hhash : row.requestHash ≠ c.requestHash) :
    ∃ text, storedReply row c = .error (.idempotencyConflictError text) := by
  simp only [storedReply, hrow, replayReply, replay, if_pos hhash]
  exact ⟨_, rfl⟩

/-- Whoever is told of a payment is told of the one stored. -/
theorem KeyEnds.payment_id {key : String} {db db' : Db} {replies : List (ι × CreateReply)}
    (h : KeyEnds cmd draw key db db' replies) {i : ι} {p : CreatePaymentResult}
    (hkey : (cmd i).idempotencyKey = key) (hi : (i, .ok p) ∈ replies) :
    ∃ row, db'.payments.find? (·.idempotencyKey = key) = some row ∧ p.payment.id = row.id := by
  cases h with
  | stored before after hreplies =>
    exact ⟨_, after, (storedReply_ok (hreplies _ hi hkey).symm).2⟩
  | free before after hreplies =>
    obtain ⟨e, he, -⟩ := hreplies _ hi hkey
    cases he
  | created before after hk built rowOf creator hreplies =>
    refine ⟨_, after, ?_⟩
    rcases hreplies _ hi hkey with he | ⟨e, he, -⟩ | he
    · cases he
      exact rowOf.id.symm
    · cases he
    · exact (storedReply_ok he.symm).2

theorem KeyEnds.existsUnique_creator {key : String} {db db' : Db}
    {replies : List (ι × CreateReply)} (h : KeyEnds cmd draw key db db' replies)
    (hfree : ¬ KeyStored db.payments key) {i : ι} {p : CreatePaymentResult}
    (hi : (cmd i).idempotencyKey = key) (hp : (i, .ok p) ∈ replies) :
    ∃! j, (cmd j).idempotencyKey = key ∧ ∃ payment, payment.id = (draw j).paymentId
      ∧ (j, .ok ⟨payment, true⟩) ∈ replies := by
  have hnone := find?_eq_none_iff.2 hfree
  cases h with
  | stored before => simp [hnone] at before
  | free before after hreplies =>
    obtain ⟨e, he, -⟩ := hreplies _ hp hi
    cases he
  | @created k payment row before after hk built rowOf creator hreplies =>
    refine ⟨k, ⟨hk, payment, (buildPayment_ok built).1, creator⟩, ?_⟩
    rintro j ⟨hj, q, -, hq⟩
    rcases hreplies _ hq hj with he | ⟨e, he, -⟩ | he
    · exact congrArg Prod.fst he
    · cases he
    · cases (storedReply_ok he.symm).1

theorem KeyEnds.conflict {key : String} {db db' : Db} {replies : List (ι × CreateReply)}
    (h : KeyEnds cmd draw key db db' replies) {row : PaymentRow}
    (hrow : db'.payments.find? (·.idempotencyKey = key) = some row)
    (hloads : row ∈ db.payments → ∃ payment, row.toPayment = .ok payment) {i : ι}
    {reply : CreateReply} (hi : (cmd i).idempotencyKey = key) (hreply : (i, reply) ∈ replies)
    (hhash : row.requestHash ≠ (cmd i).requestHash) :
    (∃ text, reply = .error (.idempotencyConflictError text))
      ∨ (∃ e, reply = .error e ∧ FailsItself (cmd i) (draw i) db'.outbox e)
      ∨ 64 < (cmd i).requestHash.length ∧ ∃ payment, reply = .ok ⟨payment, true⟩ := by
  cases h with
  | stored before after hreplies =>
    obtain rfl := Option.some.inj (hrow.symm.trans after)
    obtain ⟨payment, hpayment⟩ := hloads (List.mem_of_find?_eq_some before)
    obtain ⟨text, htext⟩ := storedReply_conflict hpayment hhash
    exact .inl ⟨text, (hreplies _ hreply hi).trans htext⟩
  | free before after => simp [hrow] at after
  | created before after hk built rowOf creator hreplies =>
    obtain rfl := Option.some.inj (hrow.symm.trans after)
    rcases hreplies _ hreply hi with he | ⟨e, he, hfails⟩ | he
    · cases he
      refine .inr (.inr ⟨?_, _, rfl⟩)
      by_contra hlen
      exact hhash (varchar_of_le (not_lt.1 hlen) rowOf.requestHash)
    · exact .inr (.inl ⟨e, he, hfails⟩)
    · obtain ⟨payment, hpayment⟩ := rowOf.loads
      obtain ⟨text, htext⟩ := storedReply_conflict (toPayment_iff.2 hpayment) hhash
      exact .inl ⟨text, he.trans htext⟩

theorem keyLaw_of_ends {key : String} {db : Db} {s : CreateState ι}
    {replies : List (ι × CreateReply)} (h : KeyEnds cmd draw key db s.db replies)
    (hreplied : ∀ i reply, s.Replied i reply ↔ (i, reply) ∈ replies) :
    KeyLaw cmd draw db s key where
  samePayment i j p q hi hj hp hq := by
    obtain ⟨row, hrow, hpid⟩ := h.payment_id hi ((hreplied _ _).1 hp)
    obtain ⟨row', hrow', hqid⟩ := h.payment_id hj ((hreplied _ _).1 hq)
    obtain rfl := Option.some.inj (hrow.symm.trans hrow')
    exact hpid.trans hqid.symm
  storedBefore hstored i p hi hp := by
    have hne := mt find?_eq_none_iff.1 (not_not.2 hstored)
    cases h with
    | stored before after hreplies =>
      exact (storedReply_ok (hreplies _ ((hreplied _ _).1 hp) hi).symm).1
    | free before => exact absurd before hne
    | created before => exact absurd before hne
  freeBefore hfree := by
    rintro ⟨i, p, hi, hp⟩
    simp only [hreplied]
    exact h.existsUnique_creator hfree hi ((hreplied _ _).1 hp)
  conflict row hrow hloads i reply hi hreply hhash :=
    h.conflict hrow hloads hi ((hreplied _ _).1 hreply) hhash

/-! ## Runs -/

structure CreateInv (cmd : ι → CreatePaymentCommand) (draw : ι → Draw) (s : CreateState ι) :
    Prop where
  requests : ∀ i, RequestOk (cmd i) (draw i) (s.requests i)
  lost : ∀ i, (s.requests i).HasLost → KeyStored s.db.payments (cmd i).idempotencyKey
  ids : ∀ i, ∀ r ∈ s.db.payments, r.id = (draw i).paymentId → (s.requests i).HasCreated

theorem CreateInv.id_ne {s : CreateState ι} (hinv : CreateInv cmd draw s) {i : ι}
    {payment : Payment} (hpc : (s.requests i).pc = .commit payment) :
    ∀ r ∈ s.db.payments, r.id ≠ (draw i).paymentId := by
  intro r hr hid
  obtain ⟨payment', h⟩ := hinv.ids i r hr hid
  simp [hpc] at h

theorem createInv_init {db : Db} (hfresh : ∀ i, ∀ r ∈ db.payments, r.id ≠ (draw i).paymentId) :
    CreateInv cmd draw (.init db) where
  requests _ := requestOk_start
  lost i h := by simp [CreateState.init, Request.start, Request.HasLost] at h
  ids i r hr hid := absurd hid (hfresh i r hr)

theorem createAll_eq : ∀ (db : Db) (is : List ι),
    createAll cmd draw db is = inOrder (fun db i => createPayment db (cmd i) (draw i)) db is
  | _, [] => rfl
  | db, i :: is => by
    rw [createAll, inOrder, createAll_eq]

variable [DecidableEq ι]

theorem createMachine_step {s s' : CreateState ι} {i : ι}
    (h : (createMachine cmd draw).step s i = some s') : ∃ db r,
      createNext (cmd i) (draw i) s.db (s.requests i) = some (db, r)
        ∧ s' = ⟨db, Function.update s.requests i r⟩ := by
  obtain ⟨⟨db, r⟩, hnext, rfl⟩ := Option.map_eq_some_iff.1 h
  exact ⟨db, r, hnext, rfl⟩

theorem createInv_step (hdraw : Function.Injective fun i => (draw i).paymentId)
    {s s' : CreateState ι} {i : ι} (hinv : CreateInv cmd draw s)
    (h : (createMachine cmd draw).step s i = some s') : CreateInv cmd draw s' := by
  obtain ⟨db, r, hnext, rfl⟩ := createMachine_step h
  obtain ⟨hok, hdb⟩ := requestStepOk_next (hinv.requests i) hnext
  have hgrows : ∀ row ∈ s.db.payments, row ∈ db.payments := by
    rcases hdb with rfl | ⟨payment, row, message, -, -, -, hinserted⟩
    · exact fun _ h => h
    · rw [hinserted.db]
      exact fun _ h => List.mem_append_left _ h
  have hkey : ∀ key, KeyStored s.db.payments key → KeyStored db.payments key :=
    fun key ⟨row, hrow, hk⟩ => ⟨row, hgrows row hrow, hk⟩
  refine ⟨fun j => ?_, fun j hj => ?_, fun j row hrow hid => ?_⟩
  · by_cases hji : j = i
    · subst hji
      simpa using hok
    · simpa [hji] using hinv.requests j
  · by_cases hji : j = i
    · subst hji
      simp only [Function.update_self] at hj
      exact hkey _ (next_hasLost (hinv.requests j) (hinv.lost j) (fun _ => hinv.id_ne) hnext hj)
    · simp only [Function.update_of_ne hji] at hj
      exact hkey _ (hinv.lost j hj)
  · have hold : row ∈ s.db.payments → (Function.update s.requests i r j).HasCreated := by
      intro hrow
      have hcreated := hinv.ids j row hrow hid
      by_cases hji : j = i
      · subst hji
        rw [Function.update_self]
        have hstep : createStep (cmd j) (draw j) s.db (s.requests j) .next = some (db, r) := hnext
        exact hcreated.step hstep
      · rwa [Function.update_of_ne hji]
    rcases hdb with rfl | ⟨payment, row', message, -, -, rfl, hinserted⟩
    · exact hold hrow
    · rw [hinserted.db] at hrow
      rcases List.mem_append.1 hrow with hrow | hrow
      · exact hold hrow
      · obtain rfl := List.mem_singleton.1 hrow
        have hj : i = j := hdraw (((buildPayment_ok hinserted.built).1.symm.trans
          hinserted.rowOf.id.symm).trans hid)
        subst hj
        simp only [Function.update_self]
        exact ⟨payment, .inl rfl⟩

theorem create_points (hdraw : Function.Injective fun i => (draw i).paymentId) :
    Points (createMachine cmd draw) (CreateInv cmd draw) CreateState.db
      (fun db i => createPayment db (cmd i) (draw i))
      (fun s i => (s.requests i).decided (cmd i) (draw i)) where
  inv _ _ _ hs h := createInv_step hdraw hs h
  others s i s' hs h j hj := by
    obtain ⟨db, r, -, rfl⟩ := createMachine_step h
    simp [hj]
  point s i s' hs h := by
    obtain ⟨db, r, hnext, rfl⟩ := createMachine_step h
    have hpoint := next_point (hs.requests i) (fun e he => hs.lost i ⟨e, .inr he⟩)
      (fun _ => hs.id_ne) hnext
    simpa [IsPoint] using hpoint

/-! ## Linearizability -/

/-- A run of requests is as good as the requests one after another, each put where one of its own
steps is. -/
theorem create_linearizable (hdraw : Function.Injective fun i => (draw i).paymentId) {db : Db}
    (hfresh : ∀ i, ∀ r ∈ db.payments, r.id ≠ (draw i).paymentId) {as : List ι} {s : CreateState ι}
    (hrun : (createMachine cmd draw).run (.init db) as = some s) :
    ∃ order, List.Sublist order as ∧ order.Nodup ∧ (createAll cmd draw db order).1 = s.db
      ∧ (∀ i reply, s.Replied i reply → (i, reply) ∈ (createAll cmd draw db order).2)
      ∧ ((∀ i, ∃ reply, s.Replied i reply) →
        (∀ i, i ∈ order) ∧ ∀ key, KeyLaw cmd draw db s key) := by
  obtain ⟨order, hsub, hnodup, hdb, hreplies, -, hall⟩ :=
    (create_points hdraw).linearizable (createInv_init hfresh) hrun
  rw [← createAll_eq] at hdb hreplies
  change (createAll cmd draw db order).1 = s.db at hdb
  have hdecided : ∀ {i reply}, s.Replied i reply →
      (s.requests i).decided (cmd i) (draw i) = some reply := by
    intro i reply h
    simp only [CreateState.Replied] at h
    simp only [Request.decided, h]
  have horder : ∀ i reply, s.Replied i reply → i ∈ order := by
    intro i reply h
    rcases hall i reply (hdecided h) with hstart | hi
    · cases hstart
    · exact hi
  have hmem : ∀ i reply, s.Replied i reply → (i, reply) ∈ (createAll cmd draw db order).2 := by
    intro i reply h
    have hi : i ∈ (createAll cmd draw db order).2.map Prod.fst := by
      rw [createAll_eq, map_fst_inOrder]
      exact horder i reply h
    obtain ⟨⟨i, reply'⟩, hx, rfl⟩ := List.mem_map.1 hi
    obtain rfl := Option.some.inj ((hdecided h).symm.trans (hreplies _ hx))
    exact hx
  refine ⟨order, hsub, hnodup, hdb, hmem, fun hdone => ⟨fun i => ?_, fun key => ?_⟩⟩
  · obtain ⟨reply, h⟩ := hdone i
    exact horder i reply h
  · have hends : KeyEnds cmd draw key db (createAll cmd draw db order).1
        (createAll cmd draw db order).2 :=
      (createAll_key hdraw key ⟨hnodup, fun i _ => hfresh i⟩).2
    rw [hdb] at hends
    refine keyLaw_of_ends hends fun i reply => ⟨hmem i reply, fun h => ?_⟩
    obtain ⟨reply', h'⟩ := hdone i
    obtain rfl := Option.some.inj ((hdecided h').symm.trans (hreplies _ h))
    exact h'

/-! ## A lost race -/

def racerDraw (i : Fin 2) : Draw := ⟨⟨i, by omega⟩, ⟨2 + i, by omega⟩, 0, 0⟩

/-- Two requests with one key, of which both find it free and the second loses. -/
def racingRequests : List (Fin 2) := [0, 1, 0, 0, 0, 0, 1, 1, 1, 1, 1, 1, 1, 0]

def Request.hasReplied (r : Request) : Bool :=
  match r.pc with
  | .replied _ => true
  | _ => false

theorem racingRequests_keyLaw : ∃ s,
    (createMachine (fun _ => sampleCommand) racerDraw).run (.init ⟨[], []⟩) racingRequests = some s
      ∧ (∀ i, ∃ reply, s.Replied i reply)
      ∧ ∀ key, KeyLaw (fun _ => sampleCommand) racerDraw ⟨[], []⟩ s key := by
  have hdraw : Function.Injective fun i => (racerDraw i).paymentId := by decide
  have h : ((createMachine (fun _ => sampleCommand) racerDraw).run (.init ⟨[], []⟩)
      racingRequests).map (fun s => decide (∀ i, (s.requests i).hasReplied)) = some true := by
    decide +kernel
  obtain ⟨s, hrun, hdone⟩ := Option.map_eq_some_iff.1 h
  have hreplied : ∀ i, ∃ reply, s.Replied i reply := by
    intro i
    have hi := of_decide_eq_true hdone i
    unfold Request.hasReplied at hi
    split at hi
    · exact ⟨_, ‹_›⟩
    · cases hi
  obtain ⟨order, -, -, -, -, hlaw⟩ := create_linearizable hdraw (by simp) hrun
  exact ⟨s, hrun, hreplied, (hlaw hreplied).2⟩

end PaymentService
