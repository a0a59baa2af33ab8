import PaymentService.Lib.Ledger
import PaymentService.Proofs.Readers

/-!
# The service is a ledger of payments

A payment is opened under its idempotency key by the COMMIT of its request and settled by the COMMIT
of the call that processed it. Replays quote the entry and notifications tell its outcome, and with
every other step of the service the ledger stands still. So a run of the service, with all its
queues, retries and crashes, shows its clients a run of `Ledger`.
-/

namespace PaymentService

open Python Labelled Ledger

variable {cmd : ℕ → CreatePaymentCommand} {draw : ℕ → Draw} {batchSize : ℕ → ℕ}
  {settings : RabbitSettings}

/-! ## The book -/

abbrev Outcome := PaymentStatus × Option DateTime

abbrev PaymentEntry := Entry String PaymentResponse Outcome

abbrev PaymentEvent := Event UUID String PaymentResponse Outcome

namespace PaymentResponse

/-- The payment as it was created. -/
def asCreated (body : PaymentResponse) : PaymentResponse :=
  { body with
    status := .pending
    processedAt := none }

def outcome (body : PaymentResponse) : Option Outcome :=
  if body.status = .pending then none else some (body.status, body.processedAt)

def entry (body : PaymentResponse) : PaymentEntry :=
  ⟨body.idempotencyKey, body.asCreated, body.outcome⟩

end PaymentResponse

/-- What GET answers of an entry. -/
def bodyOf (e : PaymentEntry) : PaymentResponse :=
  match e.outcome with
  | none => e.data
  | some (status, processedAt) => { e.data with
      status := status
      processedAt := processedAt }

/-- The book a table is. -/
def bookOf (payments : List PaymentRow) : Book UUID String PaymentResponse Outcome := fun id =>
  (payments.find? (·.id = id)).map fun r => r.response.entry

section

variable {payments : List PaymentRow} {r : PaymentRow} {id : UUID}

theorem bookOf_of_mem (hids : (payments.map PaymentRow.id).Nodup) (hr : r ∈ payments) :
    bookOf payments r.id = some r.response.entry := by
  have hfind : payments.find? (·.id = r.id) = some r :=
    find?_eq_some_of_unique hr (by simp) fun r' hr' h => eq_of_id hids hr' hr (by simpa using h)
  rw [bookOf, hfind]
  rfl

theorem bookOf_eq_none (h : ∀ r ∈ payments, r.id ≠ id) : bookOf payments id = none := by
  have hfind : payments.find? (·.id = id) = none :=
    List.find?_eq_none.2 fun r hr => by simpa using h r hr
  rw [bookOf, hfind]
  rfl

theorem exists_row_of_bookOf {e : PaymentEntry} (h : bookOf payments id = some e) :
    ∃ r ∈ payments, r.id = id ∧ e = r.response.entry := by
  obtain ⟨r, hr, rfl⟩ := Option.map_eq_some_iff.1 h
  exact ⟨r, List.mem_of_find?_eq_some hr, by simpa using List.find?_some hr, rfl⟩

theorem bodyOf_response (r : PaymentRow) : bodyOf r.response.entry = r.response := by
  by_cases hpending : r.status = .pending
  · have hnone := r.processedAt_matches_status.1 hpending
    simp [bodyOf, PaymentResponse.entry, PaymentResponse.outcome, PaymentResponse.asCreated,
      PaymentRow.response, hpending, hnone]
  · simp [bodyOf, PaymentResponse.entry, PaymentResponse.outcome, PaymentResponse.asCreated,
      PaymentRow.response, hpending]

/-- GET reads the book. -/
theorem getPayment_eq_book (h : Readable payments) (id : UUID) :
    getPayment payments id = (bookOf payments id).elim
      (.error (.error 404 s!"Платёж {id.str} не найден")) fun e => .ok (bodyOf e) := by
  by_cases hr : ∃ r ∈ payments, r.id = id
  · obtain ⟨r, hr, rfl⟩ := hr
    rw [h.getPayment_of_mem hr, bookOf_of_mem h.ids hr, Option.elim_some, bodyOf_response]
  · have hnone : ∀ r ∈ payments, r.id ≠ id := fun r hr' hid => hr ⟨r, hr', hid⟩
    rw [getPayment_of_not_mem hnone, bookOf_eq_none hnone]
    rfl

end

/-! ## What clients are shown -/

/-- The answer to a request that finds its key taken. -/
def quoteOf (key : String) (payment : Payment) : PaymentEvent :=
  .quoted payment.id key (PaymentResponse.fromDomain payment).asCreated
    (PaymentResponse.fromDomain payment).outcome

def tellOf (payment : Payment) : PaymentEvent :=
  .told payment.id (PaymentResponse.fromDomain payment).asCreated
    (PaymentResponse.fromDomain payment).outcome

/-- What a request's step is for the ledger: the COMMIT that leaves a new row, or a lookup it
replies from. -/
def requestEvents (c : CreatePaymentCommand) (r r' : Request) (payments : List PaymentRow) :
    List PaymentEvent :=
  match r.pc, r'.pc with
  | .commit payment, .reply (.ok _) =>
    (payments.filter (·.id = payment.id)).map fun row =>
      .opened row.id row.idempotencyKey row.response.asCreated
  | .lookup, .reply (.ok result) | .lookupAgain _, .reply (.ok result) =>
    [quoteOf c.idempotencyKey result.payment]
  | _, _ => []

/-- What a call's step is, from where the call stood. -/
def callEvents : ProcessPc → List PaymentEvent
  | .commit payment true => [.settled payment.id (payment.status, payment.processedAt)]
  | .send payment => [tellOf payment]
  | _ => []

def actEvents (call : Option ProcessCall) : ProcessAct → List PaymentEvent
  | .next => (call.map fun c => callEvents c.pc).getD []
  | .begin _ | .answer _ _ | .fail _ | .kill => []

def eventsOf (cmd : ℕ → CreatePaymentCommand) (x : SystemState × SystemLabel × SystemState) :
    List PaymentEvent :=
  match x.2.1 with
  | .create i _ =>
    requestEvents (cmd i) (x.1.requests i) (x.2.2.requests i) x.2.2.process.payments
  | .call d act => actEvents (x.1.process.calls d) act
  | _ => []

section

variable {s s' : SystemState}

theorem quote_runs {payments : List PaymentRow} (hids : (payments.map PaymentRow.id).Nodup)
    {row : PaymentRow} (hrow : row ∈ payments) {p : Payment} (hp : LoadsAs row p) :
    Runs (bookOf payments) [quoteOf row.idempotencyKey p] (bookOf payments) := by
  have hbook := bookOf_of_mem hids hrow
  rw [quoteOf, fromDomain_of_loadsAs hp, hp.id]
  exact .single (.quoted hbook)

theorem tell_runs {payments : List PaymentRow} (hids : (payments.map PaymentRow.id).Nodup)
    {row : PaymentRow} (hrow : row ∈ payments) {p : Payment} (hp : LoadsAs row p)
    (hfinal : row.status ≠ .pending) :
    Runs (bookOf payments) [tellOf p] (bookOf payments) := by
  have hbook := bookOf_of_mem hids hrow
  have houtcome : row.response.outcome ≠ none := by
    simp [PaymentResponse.outcome, PaymentRow.response, hfinal]
  rw [tellOf, fromDomain_of_loadsAs hp, hp.id]
  exact .single (.told hbook houtcome)

/-- A row that is added opens an entry. -/
theorem open_runs {payments : List PaymentRow} {row : PaymentRow} (hpending : row.status = .pending)
    (hid : ∀ r ∈ payments, r.id ≠ row.id)
    (hkey : ∀ r ∈ payments, r.idempotencyKey ≠ row.idempotencyKey) :
    Runs (bookOf payments) [.opened row.id row.idempotencyKey row.response.asCreated]
      (bookOf (payments ++ [row])) := by
  have hnext : bookOf (payments ++ [row]) = Function.update (bookOf payments) row.id
      (some ⟨row.idempotencyKey, row.response.asCreated, none⟩) := by
    funext id
    by_cases h : id = row.id
    · subst h
      have hfind : payments.find? (·.id = row.id) = none :=
        List.find?_eq_none.2 fun r hr => by simpa using hid r hr
      simp [bookOf, List.find?_append, hfind, PaymentResponse.entry, PaymentResponse.outcome,
        PaymentRow.response, hpending]
    · simp [bookOf, List.find?_append, Function.update_of_ne h, Ne.symm h]
  rw [hnext]
  refine .single (.opened (bookOf_eq_none hid) fun i e he hk => ?_)
  obtain ⟨r, hr, -, rfl⟩ := exists_row_of_bookOf he
  exact hkey r hr hk

end

/-! ## Calls -/

section

variable {s s' : ProcessState} {k : ℕ} {id : UUID} {p : Payment}

/-- A COMMIT leaves the rows of other payments as they are. -/
theorem bookOf_committed_of_ne (hinv : ProcessInv s) (hwrites : ∀ w ∈ s.writes, w.call = k →
    w.row.id ≠ id) : bookOf (s.committed k) id = bookOf s.payments id := by
  have hids : ((s.committed k).map PaymentRow.id).Nodup := ids_committed ▸ hinv.ids
  by_cases hr : ∃ r ∈ s.payments, r.id = id
  · obtain ⟨r, hr, rfl⟩ := hr
    rw [bookOf_of_mem hinv.ids hr]
    rcases committed_cases (k := k) hinv hr with ⟨w, hw, hk, rfl, -⟩ | ⟨hr', -⟩
    · exact absurd rfl (hwrites w hw hk)
    · exact bookOf_of_mem hids hr'
  · have hnone : ∀ r ∈ s.payments, r.id ≠ id := fun r hr' hid => hr ⟨r, hr', hid⟩
    have hnone' : ∀ r ∈ s.committed k, r.id ≠ id := fun r hr' hid => by
      have hmem : r.id ∈ s.payments.map PaymentRow.id := ids_committed ▸ List.mem_map_of_mem hr'
      obtain ⟨q, hq, hqid⟩ := List.mem_map.1 hmem
      exact hnone q hq (hqid.trans hid)
    rw [bookOf_eq_none hnone, bookOf_eq_none hnone']

/-- The COMMIT of a call whose update matched settles the entry of its payment. -/
theorem settle_runs (hinv : ProcessInv s) (hc : s.calls k = some ⟨id, .commit p true⟩) :
    Runs (bookOf s.payments) [.settled p.id (p.status, p.processedAt)]
      (bookOf (s.committed k)) := by
  obtain ⟨hid, row, hw, hp⟩ := hinv.calls k _ hc
  have hids : ((s.committed k).map PaymentRow.id).Nodup := ids_committed ▸ hinv.ids
  have hfinal : row.status ≠ .pending := (hinv.writes _ hw).answered.final
  have hbefore := bookOf_of_mem hinv.ids (hinv.writes _ hw).replaces
  have hafter := bookOf_of_mem hids (written_committed hinv hw)
  -- All a call has written is its one version of this row.
  have hown : ∀ w ∈ s.writes, w.call = k → w.row.id = row.id := by
    rintro w hw' hk
    obtain ⟨q, hq⟩ := (hinv.writes w hw').call
    rw [hk, hc, Option.some_inj, ProcessCall.mk.injEq] at hq
    exact hq.1.symm.trans (hid.symm.trans hp.id)
  have hnext : bookOf (s.committed k) = Function.update (bookOf s.payments) row.id
      (some { row.asPending.response.entry with outcome := some (p.status, p.processedAt) }) := by
    funext i
    by_cases h : i = row.id
    · subst h
      rw [hafter, Function.update_self]
      simp [PaymentResponse.entry, PaymentResponse.outcome, PaymentResponse.asCreated,
        PaymentRow.response, PaymentRow.asPending, hp.status, hp.processedAt, hfinal]
    · rw [Function.update_of_ne h, bookOf_committed_of_ne hinv fun w hw' hk he =>
        h (he.symm.trans (hown w hw' hk))]
  rw [hnext, hp.id]
  refine .single (.settled hbefore ?_)
  simp [PaymentResponse.entry, PaymentResponse.outcome, PaymentRow.response, PaymentRow.asPending]

theorem not_applied_runs (hinv : ProcessInv s) (hc : s.calls k = some ⟨id, .commit p false⟩) :
    Runs (bookOf s.payments) [] (bookOf (s.committed k)) := by
  have hnext : bookOf (s.committed k) = bookOf s.payments := by
    funext i
    refine bookOf_committed_of_ne hinv fun w hw hk => ?_
    obtain ⟨q, hq⟩ := (hinv.writes w hw).call
    rw [hk, hc] at hq
    cases hq
  rw [hnext]
  exact .nil

/-- The events of a call's step. -/
theorem call_runs (hinv : ProcessInv s) {act : ProcessAct} (h : processStep s k act = some s') :
    Runs (bookOf s.payments) (actEvents (s.calls k) act) (bookOf s'.payments) := by
  cases processStep_trans h with
  | begin | answer => exact .nil
  | get hc | charge hc | getAgain hc | accept hc =>
    rw [hc]
    exact .nil
  | update hc =>
    rw [hc]
    simp only [ProcessState.setCall_payments, ProcessState.write_payments]
    exact .nil
  | @commit k id p applied hc =>
    rw [hc]
    cases applied with
    | true => exact settle_runs hinv hc
    | false => exact not_applied_runs hinv hc
  | send hc =>
    obtain ⟨-, r, hr, hp, hfinal⟩ := hinv.calls k _ hc
    rw [hc]
    exact tell_runs hinv.ids hr hp hfinal
  | stop hc hrunning hact =>
    rcases hact with rfl | ⟨e, rfl⟩ <;> exact .nil

end

/-! ## Requests -/

section

variable {c : CreatePaymentCommand} {d : Draw} {db : Db} {r r' : Request}

theorem requestEvents_eq_nil (h : ∀ result, r'.pc ≠ .reply (.ok result))
    (payments : List PaymentRow) : requestEvents c r r' payments = [] := by
  unfold requestEvents
  split
  · exact absurd ‹_› (h _)
  · exact absurd ‹_› (h _)
  · exact absurd ‹_› (h _)
  · rfl

theorem afterCommitError_ne_reply (e : PyError) (result : CreatePaymentResult) :
    afterCommitError e ≠ .reply (.ok result) := by
  unfold afterCommitError
  split <;> simp

/-- What a lookup replies from is a quote. -/
theorem lookup_runs (hids : (db.payments.map PaymentRow.id).Nodup)
    (hpc : r.pc = .lookup ∨ ∃ error, r.pc = .lookupAgain error)
    (hreply : ∀ result, r'.pc = .reply (.ok result) → ∃ existing,
      PaymentRepository.getByIdempotencyKey db.payments c.idempotencyKey = .ok (some existing)
        ∧ replayReply existing c = .ok result) :
    Runs (bookOf db.payments) (requestEvents c r r' db.payments) (bookOf db.payments) := by
  by_cases hquote : ∃ result, r'.pc = .reply (.ok result)
  · obtain ⟨result, hresult⟩ := hquote
    obtain ⟨existing, hfound, hreplay⟩ := hreply result hresult
    obtain ⟨-, row, hrow, hkey, -, hp⟩ := replayedFrom_of_replay hfound hreplay
    have hevents : requestEvents c r r' db.payments
        = [quoteOf row.idempotencyKey result.payment] := by
      rw [hkey]
      rcases hpc with hpc | ⟨error, hpc⟩ <;> simp only [requestEvents, hpc, hresult]
    rw [hevents]
    exact quote_runs hids hrow hp
  · rw [requestEvents_eq_nil fun result h => hquote ⟨result, h⟩]
    exact .nil

theorem request_runs (hok : RequestOk c d r) (hids : (db.payments.map PaymentRow.id).Nodup)
    {act : CreateAct} (h : createStep c d db r act = some (db, r')) :
    Runs (bookOf db.payments) (requestEvents c r r' db.payments) (bookOf db.payments) := by
  have hnil : (∀ result, r'.pc ≠ .reply (.ok result)) →
      Runs (bookOf db.payments) (requestEvents c r r' db.payments) (bookOf db.payments) :=
    fun hne => requestEvents_eq_nil hne db.payments ▸ .nil
  obtain ⟨pc, session⟩ := r
  cases act with
  | kill =>
    obtain ⟨r₁, hkill, h⟩ := Option.map_eq_some_iff.1 h
    cases h
    unfold createKill at hkill
    split at hkill <;> cases hkill
    exact hnil (by simp)
  | fail e =>
    obtain ⟨r₁, hfail, h⟩ := Option.map_eq_some_iff.1 h
    cases h
    unfold createFail at hfail
    split at hfail <;> cases hfail
    case h_6 => exact hnil (afterCommitError_ne_reply e)
    all_goals exact hnil (by simp)
  | next =>
    simp only [createStep, createNext] at h
    cases pc with
    | lookup =>
      cases h
      refine lookup_runs hids (.inl rfl) fun result h => ?_
      simp only [afterLookup] at h
      split at h
      · cases h
      · exact ⟨_, ‹_›, CreatePc.reply.inj h⟩
      · cases h
    | lookupAgain error =>
      cases h
      refine lookup_runs hids (.inr ⟨error, rfl⟩) fun result h => ?_
      simp only [afterLookupAgain] at h
      split at h
      · cases h
      · exact ⟨_, ‹_›, CreatePc.reply.inj h⟩
      · cases h
    | build =>
      rcases hb : buildPayment c d with e | payment <;> rw [hb] at h <;> cases h <;>
        exact hnil (by simp)
    | addPayment payment | addEvent payment | rollback error =>
      cases h
      exact hnil (by simp)
    | commit payment =>
      rcases hc : session.commit db d.insertedAt with e | db₁ <;> simp only [hc] at h <;> cases h
      · exact hnil (afterCommitError_ne_reply e)
      · obtain ⟨hbuilt, hsession⟩ := hok
        obtain rfl : session = stagedSession c d payment := hsession
        obtain ⟨row, message, hinserted⟩ := inserted_of_commit hbuilt hc
        -- The COMMIT has added a row.
        exact absurd (congrArg (List.length ∘ Db.payments) hinserted.db) (by simp)
    | reply reply =>
      cases h
      exact hnil (by simp)
    | replied reply | killed at_ => cases h

theorem requestEvents_created {payment : Payment} {row : PaymentRow} {message : OutboxRow}
    {db' : Db} (hpc : r.pc = .commit payment) (hpc' : r'.pc = .reply (.ok ⟨payment, true⟩))
    (h : Inserted c d db payment row message db') : requestEvents c r r' db'.payments
      = [.opened row.id row.idempotencyKey row.response.asCreated] := by
  have hid : row.id = payment.id := h.rowOf.id
  have hold : db.payments.filter (fun q => decide (q.id = payment.id)) = [] :=
    List.filter_eq_nil_iff.2 fun q hq => by simpa [← hid] using h.id q hq
  simp [requestEvents, hpc, hpc', h.db, List.filter_append, hold, hid]

theorem created_runs {payment : Payment} {row : PaymentRow} {message : OutboxRow} {db' : Db}
    (hpc : r.pc = .commit payment) (hpc' : r'.pc = .reply (.ok ⟨payment, true⟩))
    (h : Inserted c d db payment row message db') :
    Runs (bookOf db.payments) (requestEvents c r r' db'.payments) (bookOf db'.payments) := by
  have hstatus : row.status = .pending := h.rowOf.status.trans (buildPayment_ok h.built).2.1
  rw [requestEvents_created hpc hpc' h, h.db]
  exact open_runs hstatus h.id h.key

end

/-! ## Runs -/

/-- A step of the service is what its events say, and nothing else, for the ledger. -/
theorem ledger_step {s s' : SystemState} {a : SystemLabel} (hinv : SystemInv cmd draw s)
    (h : (system cmd draw batchSize settings).step s a = some s') :
    Runs (bookOf s.process.payments) (eventsOf cmd (s, a, s')) (bookOf s'.process.payments) := by
  cases system_trans hinv.requests h with
  | @request i act r hstep =>
    have hself : (s.setRequest i r).requests i = r := Function.update_self _ _ _
    simp only [eventsOf, hself]
    exact request_runs (hinv.requests i) hinv.process.ids hstep
  | @created i payment row message hpc hinserted =>
    have hself : ((s.setDb ⟨s.process.payments ++ [row], s.relay.outbox ++ [message]⟩).setRequest i
        ⟨.reply (.ok ⟨payment, true⟩), .empty⟩).requests i
          = ⟨.reply (.ok ⟨payment, true⟩), .empty⟩ := Function.update_self _ _ _
    simp only [eventsOf, hself]
    exact created_runs hpc rfl hinserted
  | call hx hpc hstep => exact call_runs hinv.process hstep
  | begin hx hpc hstart hstep => exact call_runs hinv.process hstep
  | @crash d x hx =>
    rcases hk : processStep s.process d .kill with _ | process
    · exact .nil
    · exact call_runs hinv.process hk
  | _ => exact .nil

/-- The events of a run. -/
def history (cmd : ℕ → CreatePaymentCommand)
    (steps : List (SystemState × SystemLabel × SystemState)) : List PaymentEvent :=
  steps.flatMap (eventsOf cmd)

theorem ledger_run : ∀ {as : List SystemLabel} {s t : SystemState}, SystemInv cmd draw s →
    (system cmd draw batchSize settings).run s as = some t →
      Runs (bookOf s.process.payments)
        (history cmd ((system cmd draw batchSize settings).steps s as)) (bookOf t.process.payments)
  | [], s, t, _, h => by
    simp only [Machine.run_nil, Option.some.injEq] at h
    exact h ▸ .nil
  | a :: as, s, t, hinv, h => by
    obtain ⟨s', hstep, hrest⟩ := Machine.run_cons.1 h
    rw [Machine.steps_cons_of_step hstep, history, List.flatMap_cons]
    exact (ledger_step hinv hstep).append (ledger_run (systemInv_step hinv hstep) hrest)

/-! ## Nothing is shown but events -/

def isTold : PaymentEvent → Bool
  | .told _ _ _ => true
  | .opened _ _ _ | .settled _ _ | .quoted _ _ _ _ => false

/-- The notification a `told` is. -/
def Shows (n : Notification) (x : PaymentEvent) : Prop :=
  ∃ body, Tells n body ∧ x = .told body.id body.asCreated body.outcome

theorem requestEvents_not_told (c : CreatePaymentCommand) (r r' : Request)
    (payments : List PaymentRow) : (requestEvents c r r' payments).filter isTold = [] := by
  unfold requestEvents
  split
  · exact List.filter_eq_nil_iff.2 fun x hx => by
      obtain ⟨row, -, rfl⟩ := List.mem_map.1 hx
      simp [isTold]
  · rfl
  · rfl
  · rfl

/-- A call's step that sends something tells it. -/
theorem told_call {s s' : ProcessState} {k : ℕ} {act : ProcessAct}
    (h : processStep s k act = some s') : ∃ new, s'.sent = s.sent ++ new
      ∧ List.Forall₂ Shows new ((actEvents (s.calls k) act).filter isTold) := by
  cases processStep_trans h with
  | begin | answer => exact ⟨[], by simp, .nil⟩
  | get hc | charge hc | getAgain hc | accept hc =>
    rw [hc]
    exact ⟨[], by simp, .nil⟩
  | update hc =>
    rw [hc]
    exact ⟨[], by simp, .nil⟩
  | @commit k id p applied hc =>
    rw [hc]
    cases applied <;> exact ⟨[], by simp, .nil⟩
  | @send k id p hc =>
    rw [hc]
    exact ⟨[notificationOf p], rfl, .cons ⟨_, tells_notificationOf p, rfl⟩ .nil⟩
  | stop hc hrunning hact =>
    rcases hact with rfl | ⟨e, rfl⟩ <;> exact ⟨[], by simp, .nil⟩

theorem told_step {s s' : SystemState} {a : SystemLabel} (hinv : SystemInv cmd draw s)
    (h : (system cmd draw batchSize settings).step s a = some s') :
    ∃ new, s'.process.sent = s.process.sent ++ new
      ∧ List.Forall₂ Shows new ((eventsOf cmd (s, a, s')).filter isTold) := by
  cases system_trans hinv.requests h with
  | request | created =>
    refine ⟨[], (List.append_nil _).symm, ?_⟩
    simp only [eventsOf, requestEvents_not_told]
    exact .nil
  | call hx hpc hstep => exact told_call hstep
  | begin hx hpc hstart hstep => exact told_call hstep
  | @crash d x hx =>
    rcases hk : processStep s.process d .kill with _ | process
    · exact ⟨[], (List.append_nil _).symm, .nil⟩
    · exact told_call hk
  | _ => exact ⟨[], (List.append_nil _).symm, .nil⟩

theorem told_run : ∀ {as : List SystemLabel} {s t : SystemState}, SystemInv cmd draw s →
    (system cmd draw batchSize settings).run s as = some t →
      ∃ new, t.process.sent = s.process.sent ++ new ∧ List.Forall₂ Shows new
        ((history cmd ((system cmd draw batchSize settings).steps s as)).filter isTold)
  | [], s, t, _, h => by
    simp only [Machine.run_nil, Option.some.injEq] at h
    exact ⟨[], by simp [h], .nil⟩
  | a :: as, s, t, hinv, h => by
    obtain ⟨s', hstep, hrest⟩ := Machine.run_cons.1 h
    obtain ⟨new, hsent, hshows⟩ := told_step hinv hstep
    obtain ⟨later, hsent', hshows'⟩ := told_run (systemInv_step hinv hstep) hrest
    refine ⟨new ++ later, by rw [hsent', hsent, List.append_assoc], ?_⟩
    rw [Machine.steps_cons_of_step hstep, history, List.flatMap_cons, List.filter_append]
    exact List.rel_append hshows hshows'

/-- The event that answered a request. -/
def AnsweredIn (c : CreatePaymentCommand) (p : Payment) (l : List PaymentEvent) : Bool → Prop
  | true => ∃ data, .opened p.id c.idempotencyKey data ∈ l
  | false => quoteOf c.idempotencyKey p ∈ l

section

variable {c : CreatePaymentCommand} {d : Draw} {db db' : Db} {r r' : Request} {p : Payment}
  {created : Bool}

theorem answeredIn_lookup (hpc : r.pc = .lookup ∨ ∃ error, r.pc = .lookupAgain error)
    {existing : StoredPayment} (hfound : PaymentRepository.getByIdempotencyKey db.payments
      c.idempotencyKey = .ok (some existing)) (hreplay : replayReply existing c = .ok ⟨p, created⟩)
    (hpc' : r'.pc = .reply (.ok ⟨p, created⟩)) (payments : List PaymentRow) :
    AnsweredIn c p (requestEvents c r r' payments) created := by
  obtain ⟨rfl, -⟩ := replayedFrom_of_replay hfound hreplay
  have hevents : requestEvents c r r' payments = [quoteOf c.idempotencyKey p] := by
    rcases hpc with hpc | ⟨error, hpc⟩ <;> simp only [requestEvents, hpc, hpc']
  rw [hevents]
  exact List.mem_singleton_self _

theorem answers_afterLookup {session : Session} {found : Except PyError (Option StoredPayment)}
    (h : Request.Answers ⟨afterLookup c found, session⟩ p created) : ∃ existing,
      found = .ok (some existing) ∧ replayReply existing c = .ok ⟨p, created⟩ := by
  rcases found with e | _ | existing
  · simp [Request.Answers, afterLookup] at h
  · simp [Request.Answers, afterLookup] at h
  · simp only [Request.Answers, afterLookup, CreatePc.reply.injEq, reduceCtorEq, or_self,
      or_false] at h
    exact ⟨existing, rfl, h⟩

theorem answers_afterLookupAgain {session : Session} {error : PyError}
    {found : Except PyError (Option StoredPayment)}
    (h : Request.Answers ⟨afterLookupAgain c error found, session⟩ p created) : ∃ existing,
      found = .ok (some existing) ∧ replayReply existing c = .ok ⟨p, created⟩ := by
  rcases found with e | _ | existing
  · simp [Request.Answers, afterLookupAgain] at h
  · simp [Request.Answers, afterLookupAgain] at h
  · simp only [Request.Answers, afterLookupAgain, CreatePc.reply.injEq, reduceCtorEq, or_self,
      or_false] at h
    exact ⟨existing, rfl, h⟩

/-- A request answers with what it answered before or what its step's event says. -/
theorem answered_next (hok : RequestOk c d r) (h : createNext c d db r = some (db', r'))
    (hanswers : r'.Answers p created) : r.Answers p created
      ∨ AnsweredIn c p (requestEvents c r r' db'.payments) created := by
  obtain ⟨pc, session⟩ := r
  unfold createNext at h
  cases pc with
  | lookup =>
    cases h
    obtain ⟨existing, hfound, hreplay⟩ := answers_afterLookup hanswers
    refine .inr (answeredIn_lookup (.inl rfl) hfound hreplay ?_ _)
    simp only [hfound, afterLookup, hreplay]
  | lookupAgain error =>
    cases h
    obtain ⟨existing, hfound, hreplay⟩ := answers_afterLookupAgain hanswers
    refine .inr (answeredIn_lookup (.inr ⟨error, rfl⟩) hfound hreplay ?_ _)
    simp only [hfound, afterLookupAgain, hreplay]
  | build =>
    rcases hb : buildPayment c d with e | payment <;> rw [hb] at h <;> cases h <;>
      simp [Request.Answers] at hanswers
  | addPayment payment | addEvent payment | rollback e =>
    cases h
    simp [Request.Answers] at hanswers
  | commit payment =>
    rcases hc : session.commit db d.insertedAt with e | db₁ <;> simp only [hc] at h <;> cases h
    · exact absurd hanswers (afterCommitError_ne_ok e session)
    · simp only [Request.Answers, CreatePc.reply.injEq, Except.ok.injEq,
        CreatePaymentResult.mk.injEq, reduceCtorEq, or_self, or_false] at hanswers
      obtain ⟨rfl, rfl⟩ := hanswers
      obtain ⟨hbuilt, hsession⟩ := hok
      obtain rfl : session = stagedSession c d payment := hsession
      obtain ⟨row, message, hinserted⟩ := inserted_of_commit hbuilt hc
      have hkey : row.idempotencyKey = c.idempotencyKey :=
        hinserted.rowOf.key.trans (buildPayment_ok hbuilt).2.2.1
      have hid : row.id = payment.id := hinserted.rowOf.id
      refine .inr ⟨row.response.asCreated, ?_⟩
      rw [requestEvents_created rfl rfl hinserted, hkey, hid]
      exact List.mem_singleton_self _
  | reply reply =>
    cases h
    simp only [Request.Answers, CreatePc.replied.injEq, reduceCtorEq, false_or,
      or_false] at hanswers
    exact .inl (.inl (congrArg CreatePc.reply hanswers))
  | replied reply | killed at_ => cases h

theorem answered_request (hok : RequestOk c d r) {act : CreateAct}
    (h : createStep c d db r act = some (db', r')) (hanswers : r'.Answers p created) :
    r.Answers p created ∨ AnsweredIn c p (requestEvents c r r' db'.payments) created := by
  cases act with
  | next => exact answered_next hok h hanswers
  | fail e =>
    obtain ⟨r₁, hfail, h⟩ := Option.map_eq_some_iff.1 h
    cases h
    unfold createFail at hfail
    split at hfail <;> cases hfail
    case h_6 => exact absurd hanswers (afterCommitError_ne_ok e _)
    all_goals simp [Request.Answers] at hanswers
  | kill =>
    obtain ⟨r₁, hkill, h⟩ := Option.map_eq_some_iff.1 h
    cases h
    unfold createKill at hkill
    split at hkill <;> cases hkill
    simp only [Request.Answers, CreatePc.killed.injEq, reduceCtorEq, false_or] at hanswers
    exact .inl (.inl hanswers)

theorem AnsweredIn.mono {l l' : List PaymentEvent} (h : AnsweredIn c p l created)
    (hl : ∀ x ∈ l, x ∈ l') : AnsweredIn c p l' created := by
  cases created with
  | true =>
    obtain ⟨data, hdata⟩ := h
    exact ⟨data, hl _ hdata⟩
  | false => exact hl _ h

end

theorem answered_step {s s' : SystemState} {a : SystemLabel} (hinv : SystemInv cmd draw s)
    (h : (system cmd draw batchSize settings).step s a = some s') {i : ℕ} {p : Payment}
    {created : Bool} (hanswers : (s'.requests i).Answers p created) :
    (s.requests i).Answers p created ∨ AnsweredIn (cmd i) p (eventsOf cmd (s, a, s')) created := by
  cases a with
  | create j act =>
    obtain ⟨⟨db, r⟩, hstep, rfl⟩ := Option.map_eq_some_iff.1 h
    by_cases hij : i = j
    · subst hij
      simp only [SystemState.setRequest, Function.update_self] at hanswers
      simp only [eventsOf, SystemState.setRequest, Function.update_self]
      exact answered_request (hinv.requests i) hstep hanswers
    · refine .inl ?_
      simpa [SystemState.setRequest, SystemState.setDb, hij] using hanswers
  | _ =>
    have htrans := system_trans hinv.requests h
    refine .inl ?_
    cases htrans <;> exact hanswers

theorem answered_run : ∀ {as : List SystemLabel} {s t : SystemState}, SystemInv cmd draw s →
    (system cmd draw batchSize settings).run s as = some t → ∀ i p created,
      (t.requests i).Answers p created → (s.requests i).Answers p created ∨ AnsweredIn (cmd i) p
        (history cmd ((system cmd draw batchSize settings).steps s as)) created
  | [], s, t, _, h, i, p, created, hanswers => by
    simp only [Machine.run_nil, Option.some.injEq] at h
    exact .inl (h ▸ hanswers)
  | a :: as, s, t, hinv, h, i, p, created, hanswers => by
    obtain ⟨s', hstep, hrest⟩ := Machine.run_cons.1 h
    rw [Machine.steps_cons_of_step hstep, history, List.flatMap_cons]
    rcases answered_run (systemInv_step hinv hstep) hrest i p created hanswers with hs' | hlater
    · exact (answered_step hinv hstep hs').imp_right fun hnow =>
        hnow.mono fun x hx => List.mem_append_left _ hx
    · exact .inr (hlater.mono fun x hx => List.mem_append_right _ hx)

/-- Whatever the order of the steps and wherever requests, passes, handlers and calls fail or die:
the events of a run are a run of the ledger, whose book is what GET reads. Every notification is
told by it, in its order, and every answer to a POST opened or quoted an entry of it. So no key and
no payment is opened twice, none is settled twice, and all that was ever shown agrees with the book
at the end. -/
theorem service_is_ledger {as : List SystemLabel} {s : SystemState}
    (hrun : (system cmd draw batchSize settings).run .init as = some s) :
    Runs (fun _ => none) (history cmd ((system cmd draw batchSize settings).steps .init as))
        (bookOf s.process.payments)
      ∧ (∀ id, getPayment s.process.payments id = (bookOf s.process.payments id).elim
        (.error (.error 404 s!"Платёж {id.str} не найден")) fun e => .ok (bodyOf e))
      ∧ List.Forall₂ Shows s.process.sent
        ((history cmd ((system cmd draw batchSize settings).steps .init as)).filter isTold)
      ∧ (∀ i p created, (s.requests i).Answers p created → AnsweredIn (cmd i) p
        (history cmd ((system cmd draw batchSize settings).steps .init as)) created)
      ∧ (history cmd ((system cmd draw batchSize settings).steps .init as)).Pairwise
        (fun x y => ¬ x.Clashes y)
      ∧ ∀ x ∈ history cmd ((system cmd draw batchSize settings).steps .init as),
        x.Agrees (bookOf s.process.payments) := by
  have hruns := ledger_run systemInv_init hrun
  obtain ⟨new, hsent, hshows⟩ := told_run systemInv_init hrun
  refine ⟨hruns, getPayment_eq_book (readable_run ⟨as, hrun⟩), ?_, fun i p created hanswers => ?_,
    hruns.once, hruns.agrees⟩
  · rw [hsent]
    exact hshows
  · rcases answered_run systemInv_init hrun i p created hanswers with hbefore | hin
    · simp [SystemState.init, Request.start, Request.Answers] at hbefore
    · exact hin

theorem sampleLabels_is_ledger : ∃ s, sampleSystem.run .init sampleLabels = some s
    ∧ (history (fun _ => sampleCommand) (sampleSystem.steps .init sampleLabels)).map isTold
      = [false, false, true]
    ∧ Runs (fun _ => none) (history (fun _ => sampleCommand)
      (sampleSystem.steps .init sampleLabels)) (bookOf s.process.payments) := by
  obtain ⟨s, hrun, -⟩ := sampleLabels_run
  exact ⟨s, hrun, by decide +kernel, (service_is_ledger hrun).1⟩

end PaymentService
