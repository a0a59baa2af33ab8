import PaymentService.Consumer
import PaymentService.Proofs.Rows
import Mathlib.Algebra.Order.Ring.Rat
import Mathlib.Tactic.Ring
import Mathlib.Tactic.Linarith

/-!
# The chain of retries

What one message leads to is a chain of runs of the handler. Each failed attempt below the bound
puts the message into `payments.retry`, and from there, when it expires, it is the next one in
`payments.new`; the chain ends with an accepted message or with one in `payments.dlq`
(`exists_chain`, `consume_chain`). With a use case that always fails the attempts are numbered one
after another up to the bound (`retry_chain`).
-/

namespace PaymentService

open Python

/-! ## Headers -/

/-- An `x-attempt` header that is absent, or an integer, or a text, be it of an integer or not. -/
def IsCounter (headers : Headers) : Prop :=
  match headers.lookup ATTEMPT_HEADER with
  | none | some (.int _) | some (.str _) => True
  | some _ => False

theorem attemptOf_eq_ok {headers : Headers} (h : IsCounter headers) :
    ∃ a, attemptOf headers = .ok a ∧ 1 ≤ a := by
  unfold IsCounter at h
  unfold attemptOf
  split at h
  · rename_i hl
    exact ⟨1, by rw [hl], le_rfl⟩
  · rename_i i hl
    exact ⟨max i 1, by rw [hl]; rfl, le_max_right i 1⟩
  · rename_i s hl
    rw [hl]
    rcases hi : intOf 10 s.toList with _ | i
    · exact ⟨1, by simp [intOfHeader, hi, Except.map], le_rfl⟩
    · exact ⟨max i 1, by simp [intOfHeader, hi, Except.map], le_max_right i 1⟩
  · exact h.elim

@[simp] theorem lookup_failureHeaders (attempt : ℤ) (error : PyError) :
    (failureHeaders attempt error).lookup ATTEMPT_HEADER = some (.int attempt) := by
  simp [failureHeaders]

theorem attemptOf_failureHeaders {attempt : ℤ} (h : 1 ≤ attempt) (error : PyError) :
    attemptOf (failureHeaders attempt error) = .ok attempt := by
  simp [attemptOf, intOfHeader, Except.map, h]

/-- A message that failed for the `attempt`-th time waits, for the next one, twice as long for each
attempt before it. -/
structure IsRetry (settings : RabbitSettings) (payload : Dict) (attempt : ℤ) (p : Publish) :
    Prop where
  route : route p.exchange p.routingKey = [retryQueue]
  payload : p.message.payload = payload
  header : p.message.headers.lookup ATTEMPT_HEADER = some (.int (attempt + 1))
  expiration : p.message.expiration =
    some (settings.retryBaseDelaySeconds * 2 ^ (attempt - 1))

/-- A message that is given up stays in `payments.dlq` with the number of its last attempt. -/
structure IsDead (payload : Dict) (attempt : ℤ) (p : Publish) : Prop where
  route : route p.exchange p.routingKey = [dlqQueue]
  payload : p.message.payload = payload
  header : p.message.headers.lookup ATTEMPT_HEADER = some (.int attempt)
  expiration : p.message.expiration = none

theorem isRetry_toRetry (settings : RabbitSettings) (payload : Dict) (attempt : ℤ)
    (error : PyError) :
    IsRetry settings payload attempt (toRetry settings payload attempt error) :=
  ⟨route_retry, rfl, lookup_failureHeaders _ _, rfl⟩

theorem isDead_toDlq (payload : Dict) (attempt : ℤ) (error : PyError) :
    IsDead payload attempt (toDlq payload attempt error) :=
  ⟨route_dead, rfl, lookup_failureHeaders _ _, rfl⟩

/-! ## Chains -/

section Chain

variable {ω : Type} (settings : RabbitSettings) (useCase : UUID → ω → ω × Except PyError Unit)
  (id : UUID)

/-- The message of a retry when it is back in `payments.new`. -/
def returned (settings : RabbitSettings) (payload : Dict) (attempt : ℤ) (error : PyError) :
    Message :=
  { (toRetry settings payload attempt error).message with expiration := none }

/-- The runs a message of payment `id` leads to, and the publish that ends them, `none` when the
last run succeeded. -/
inductive Chain : Message → ω → List (HandlerRun ω) → ω → Option Publish → Prop
  | accepted {m : Message} {w w' : ω} (h : useCase id w = (w', .ok ())) :
      Chain m w [⟨m, w, w', .ok none⟩] w' none
  | dead {m : Message} {w w' : ω} {e : PyError} {attempt : ℤ}
      (hattempt : attemptOf m.headers = .ok attempt) (h : useCase id w = (w', .error e))
      (hN : settings.maxDeliveryAttempts ≤ attempt) :
      Chain m w [⟨m, w, w', .ok (some (toDlq m.payload attempt e))⟩] w'
        (some (toDlq m.payload attempt e))
  | retried {m : Message} {w w' w'' : ω} {e : PyError} {attempt : ℤ}
      {runs : List (HandlerRun ω)} {last : Option Publish}
      (hattempt : attemptOf m.headers = .ok attempt) (h : useCase id w = (w', .error e))
      (hN : attempt < settings.maxDeliveryAttempts)
      (hrest : Chain (returned settings m.payload attempt e) w' runs w'' last) :
      Chain m w (⟨m, w, w', .ok (some (toRetry settings m.payload attempt e))⟩ :: runs) w'' last

theorem attemptOf_returned {payload : Dict} {attempt : ℤ} (h : 1 ≤ attempt) (error : PyError) :
    attemptOf (returned settings payload attempt error).headers = .ok (attempt + 1) :=
  attemptOf_failureHeaders (by omega) error

/-- Every message with a number leads to a chain: the number grows until the bound is met. -/
theorem exists_chain (m : Message) (w : ω) {attempt : ℤ}
    (hattempt : attemptOf m.headers = .ok attempt) (h1 : 1 ≤ attempt) :
    ∃ runs w' last, Chain settings useCase id m w runs w' last := by
  induction hd : (settings.maxDeliveryAttempts - attempt).toNat generalizing m w attempt with
  | zero =>
    rcases hu : useCase id w with ⟨w', _ | _⟩
    · exact ⟨_, _, _, .dead hattempt hu (by omega)⟩
    · exact ⟨_, _, _, .accepted hu⟩
  | succ d ih =>
    rcases hu : useCase id w with ⟨w', e | _⟩
    · obtain ⟨runs, w'', last, hrest⟩ := ih (returned settings m.payload attempt e) w'
        (attemptOf_returned settings h1 e) (by omega) (by omega)
      exact ⟨_, _, _, .retried hattempt hu (by omega) hrest⟩
    · exact ⟨_, _, _, .accepted hu⟩

/-! ## The consumer follows the chain -/

/-- One message in `payments.new`, with the runs before it. -/
def waiting (m : Message) (w : ω) (runs : List (HandlerRun ω)) : ConsumerState ω :=
  ⟨Queues.empty.enqueue [newQueue] m, w, runs⟩

/-- The queues at the end of a chain. -/
def endQueues : Option Publish → Queues
  | none => Queues.empty
  | some p => Queues.empty.publish p

@[simp] theorem dequeue_enqueue_new (m : Message) :
    (Queues.empty.enqueue [newQueue] m).dequeue newQueue 0 = Queues.empty := by
  funext q
  rcases eq_or_ne q newQueue with rfl | hq
  · simp [Queues.dequeue, Queues.enqueue, Queues.empty]
  · simp [Queues.dequeue, Queues.enqueue, Queues.empty, hq]

@[simp] theorem dequeue_enqueue_retry (m : Message) :
    (Queues.empty.enqueue [retryQueue] m).dequeue retryQueue 0 = Queues.empty := by
  funext q
  rcases eq_or_ne q retryQueue with rfl | hq
  · simp [Queues.dequeue, Queues.enqueue, Queues.empty]
  · simp [Queues.dequeue, Queues.enqueue, Queues.empty, hq]

theorem consumerStep_waiting {m : Message} {w w' : ω} {last : Option Publish}
    (h : handlePaymentCreated settings useCase m w = (w', .ok last))
    (runs : List (HandlerRun ω)) :
    consumerStep settings useCase (waiting m w runs) =
      some ⟨endQueues last, w', runs ++ [⟨m, w, w', .ok last⟩]⟩ := by
  have hq : Queues.empty.enqueue [newQueue] m newQueue = [m] := by
    simp [Queues.enqueue, Queues.empty]
  simp only [consumerStep, waiting, hq, h, dequeue_enqueue_new]
  cases last <;> rfl

theorem handle_ok {m : Message} (hid : paymentIdOf m.payload = .ok id) {attempt : ℤ}
    (hattempt : attemptOf m.headers = .ok attempt) {w w' : ω}
    (h : useCase id w = (w', .ok ())) :
    handlePaymentCreated settings useCase m w = (w', .ok none) := by
  simp only [handlePaymentCreated, hid, hattempt, h]

theorem handle_error {m : Message} (hid : paymentIdOf m.payload = .ok id) {attempt : ℤ}
    (hattempt : attemptOf m.headers = .ok attempt) {w w' : ω} {e : PyError}
    (h : useCase id w = (w', .error e)) :
    handlePaymentCreated settings useCase m w =
      (w', .ok (some (onFailure settings m.payload attempt e))) := by
  simp only [handlePaymentCreated, hid, hattempt, h]

theorem consumerStep_retry (payload : Dict) (attempt : ℤ) (e : PyError) (w : ω)
    (runs : List (HandlerRun ω)) :
    consumerStep settings useCase
        ⟨endQueues (some (toRetry settings payload attempt e)), w, runs⟩ =
      some (waiting (returned settings payload attempt e) w runs) := by
  have hq : endQueues (some (toRetry settings payload attempt e)) =
      Queues.empty.enqueue [retryQueue] (toRetry settings payload attempt e).message := by
    simp only [endQueues, Queues.publish, toRetry, route_retry]
  have hnew : endQueues (some (toRetry settings payload attempt e)) newQueue = [] := by
    rw [hq]
    simp [Queues.enqueue, Queues.empty, show newQueue ≠ retryQueue by decide]
  have hretry : endQueues (some (toRetry settings payload attempt e)) retryQueue =
      [(toRetry settings payload attempt e).message] := by
    rw [hq]
    simp [Queues.enqueue, Queues.empty]
  simp only [consumerStep, hnew, hretry]
  rw [hq, dequeue_enqueue_retry]
  simp only [Queues.deadLetter, deadLetter_retry]
  rfl

theorem endQueues_dlq {p : Publish} (h : route p.exchange p.routingKey = [dlqQueue]) :
    endQueues (some p) dlqQueue = [p.message] := by
  simp [endQueues, Queues.publish, h, Queues.enqueue, Queues.empty]

/-- At the end of a chain only `payments.dlq` can hold a message. -/
theorem endQueues_of_ne {last : Option Publish}
    (h : ∀ p, last = some p → route p.exchange p.routingKey = [dlqQueue]) {q : RabbitQueue}
    (hq : q ≠ dlqQueue) : endQueues last q = [] := by
  rcases last with _ | p
  · rfl
  · simp [endQueues, Queues.publish, h p rfl, Queues.enqueue, Queues.empty, hq]

/-- Nothing is left to do once a message is accepted or dead. -/
theorem consumerStep_idle {last : Option Publish}
    (h : ∀ p, last = some p → route p.exchange p.routingKey = [dlqQueue]) (w : ω)
    (runs : List (HandlerRun ω)) :
    consumerStep settings useCase ⟨endQueues last, w, runs⟩ = none := by
  have hnew : endQueues last newQueue = [] := endQueues_of_ne h (by decide)
  have hretry : endQueues last retryQueue = [] := endQueues_of_ne h (by decide)
  simp only [consumerStep, hnew, hretry]

theorem consume_idle {last : Option Publish}
    (h : ∀ p, last = some p → route p.exchange p.routingKey = [dlqQueue]) (w : ω)
    (runs : List (HandlerRun ω)) :
    ∀ fuel, consume settings useCase fuel ⟨endQueues last, w, runs⟩ =
      some ⟨endQueues last, w, runs⟩
  | 0 => by simp [consume, consumerStep_idle settings useCase h]
  | fuel + 1 => by simp [consume, consumerStep_idle settings useCase h]

theorem consume_step {s s' : ConsumerState ω} (h : consumerStep settings useCase s = some s')
    (fuel : ℕ) : consume settings useCase (fuel + 1) s = consume settings useCase fuel s' := by
  rw [consume, h]

variable {settings useCase id}

/-- With two steps for each of its runs the consumer is at the end of the chain. -/
theorem consume_chain {m : Message} {w w' : ω} {runs : List (HandlerRun ω)}
    {last : Option Publish} (h : Chain settings useCase id m w runs w' last) {attempt : ℤ}
    (hid : paymentIdOf m.payload = .ok id) (hattempt : attemptOf m.headers = .ok attempt)
    (h1 : 1 ≤ attempt) (done : List (HandlerRun ω)) (fuel : ℕ) :
    consume settings useCase (fuel + 2 * runs.length) (waiting m w done) =
      some ⟨endQueues last, w', done ++ runs⟩ := by
  induction h generalizing attempt done with
  | @accepted m w w' hu =>
    have hstep := consumerStep_waiting settings useCase
      (handle_ok settings useCase id hid hattempt hu) done
    exact (consume_step settings useCase hstep (fuel + 1)).trans
      (consume_idle settings useCase (by simp) _ _ _)
  | @dead m w w' e k hk hu hN =>
    have hhandle := handle_error settings useCase id hid hk hu
    rw [onFailure, if_pos hN] at hhandle
    refine (consume_step settings useCase
      (consumerStep_waiting settings useCase hhandle done) (fuel + 1)).trans
      (consume_idle settings useCase (fun p hp => ?_) _ _ _)
    obtain rfl := Option.some_inj.1 hp
    exact route_dead
  | @retried m w w' w'' e k runs last hk hu hN hrest ih =>
    obtain rfl : k = attempt := Except.ok.inj (hk.symm.trans hattempt)
    have hhandle := handle_error settings useCase id hid hk hu
    rw [onFailure, if_neg (Int.not_le.2 hN)] at hhandle
    have hstep := consumerStep_waiting settings useCase hhandle done
    have hback := consumerStep_retry settings useCase m.payload k e w'
      (done ++ [⟨m, w, w', .ok (some (toRetry settings m.payload k e))⟩])
    have hrun := ih hid (attemptOf_returned settings h1 e) (by omega)
      (done ++ [⟨m, w, w', .ok (some (toRetry settings m.payload k e))⟩])
    rw [List.append_assoc, List.singleton_append] at hrun
    exact (consume_step settings useCase hstep (fuel + 2 * runs.length + 1)).trans
      ((consume_step settings useCase hback (fuel + 2 * runs.length)).trans hrun)

/-! ## What the runs are -/

theorem Chain.head {m : Message} {w w' : ω} {runs : List (HandlerRun ω)} {last : Option Publish}
    (h : Chain settings useCase id m w runs w' last) :
    ∃ r rest, runs = r :: rest ∧ r.message = m ∧ r.before = w := by
  cases h <;> exact ⟨_, _, rfl, rfl, rfl⟩

/-- Each run but the first is on the message the run before it published. -/
theorem Chain.message_succ {m : Message} {w w' : ω} {runs : List (HandlerRun ω)}
    {last : Option Publish} (h : Chain settings useCase id m w runs w' last) :
    ∀ {k : ℕ} {r r' : HandlerRun ω}, runs[k]? = some r → runs[k + 1]? = some r' →
      ∃ p, r.result = .ok (some p) ∧ r'.message = { p.message with expiration := none } := by
  induction h with
  | accepted hu => simp
  | dead hk hu hN => simp
  | retried hk hu hN hrest ih =>
    rintro (_ | k) r r' hr hr'
    · obtain ⟨r₀, rest, rfl, hm, -⟩ := hrest.head
      simp only [List.getElem?_cons_zero, Option.some.injEq] at hr
      simp only [zero_add, List.getElem?_cons_succ, List.getElem?_cons_zero,
        Option.some.injEq] at hr'
      subst hr hr'
      exact ⟨_, rfl, hm⟩
    · exact ih hr hr'

/-- The last run published what the chain ends with. -/
theorem Chain.getLast {m : Message} {w w' : ω} {runs : List (HandlerRun ω)}
    {last : Option Publish} (h : Chain settings useCase id m w runs w' last) :
    ∀ {r : HandlerRun ω}, runs.getLast? = some r → r.result = .ok last ∧ r.after = w' := by
  induction h with
  | accepted hu => simp
  | dead hk hu hN => simp
  | retried hk hu hN hrest ih =>
    obtain ⟨r₀, rest, rfl, -⟩ := hrest.head
    intro r hr
    rw [List.getLast?_cons_cons] at hr
    exact ih hr

theorem Chain.last_isDead {m : Message} {w w' : ω} {runs : List (HandlerRun ω)} {p : Publish}
    {last : Option Publish} (h : Chain settings useCase id m w runs w' last)
    (hlast : last = some p) : ∃ attempt, IsDead m.payload attempt p := by
  induction h with
  | accepted hu => simp at hlast
  | dead hk hu hN =>
    obtain rfl := Option.some_inj.1 hlast
    exact ⟨_, isDead_toDlq _ _ _⟩
  | retried hk hu hN hrest ih => exact ih hlast

/-- What a chain leaves in the queues. -/
theorem Chain.endQueues_eq {m : Message} {w w' : ω} {runs : List (HandlerRun ω)}
    {last : Option Publish} (h : Chain settings useCase id m w runs w' last) :
    endQueues last dlqQueue = (last.map Publish.message).toList
      ∧ endQueues last newQueue = [] ∧ endQueues last retryQueue = [] := by
  have hroute : ∀ p, last = some p → route p.exchange p.routingKey = [dlqQueue] := by
    intro p hp
    obtain ⟨attempt, hdead⟩ := h.last_isDead hp
    exact hdead.route
  refine ⟨?_, endQueues_of_ne hroute (by decide), endQueues_of_ne hroute (by decide)⟩
  rcases last with _ | p
  · rfl
  · rw [endQueues_dlq (hroute p rfl)]
    rfl

/-- A message that is given up was handled until its number met the bound. -/
theorem Chain.length_le {m : Message} {w w' : ω} {runs : List (HandlerRun ω)}
    {last : Option Publish} (h : Chain settings useCase id m w runs w' last) {attempt : ℤ}
    (hattempt : attemptOf m.headers = .ok attempt) (h1 : 1 ≤ attempt) :
    (runs.length : ℤ) ≤ max 1 (settings.maxDeliveryAttempts - attempt + 1) ∧
      (last.isSome → (runs.length : ℤ) = max 1 (settings.maxDeliveryAttempts - attempt + 1)) := by
  induction h generalizing attempt with
  | accepted hu => simp
  | dead hk hu hN =>
    obtain rfl := Except.ok.inj (hk.symm.trans hattempt)
    simp only [List.length_singleton]
    omega
  | retried hk hu hN hrest ih =>
    obtain rfl := Except.ok.inj (hk.symm.trans hattempt)
    obtain ⟨hle, heq⟩ := ih (attemptOf_returned settings h1 _) (by omega)
    rw [List.length_cons]
    exact ⟨by omega, fun hlast => by have := heq hlast; omega⟩

/-! ## A use case that always fails -/

theorem Chain.last_of_fails (hfail : ∀ id w, ∃ e, (useCase id w).2 = .error e) {m : Message}
    {w w' : ω} {runs : List (HandlerRun ω)} {last : Option Publish}
    (h : Chain settings useCase id m w runs w' last) : last.isSome := by
  induction h with
  | @accepted m w w' hu =>
    obtain ⟨e, he⟩ := hfail id w
    simp [hu] at he
  | dead hk hu hN => rfl
  | retried hk hu hN hrest ih => exact ih

theorem Chain.run_of_fails (hfail : ∀ id w, ∃ e, (useCase id w).2 = .error e) {m : Message}
    {w w' : ω} {runs : List (HandlerRun ω)} {last : Option Publish}
    (h : Chain settings useCase id m w runs w' last) {attempt : ℤ}
    (hattempt : attemptOf m.headers = .ok attempt) (h1 : 1 ≤ attempt) :
    ∀ {k : ℕ} {r : HandlerRun ω}, runs[k]? = some r →
      r.message.payload = m.payload ∧ attemptOf r.message.headers = .ok (attempt + k) ∧
        ∃ p, r.result = .ok (some p) ∧
          (attempt + k < settings.maxDeliveryAttempts →
            IsRetry settings m.payload (attempt + k) p) ∧
          (settings.maxDeliveryAttempts ≤ attempt + k → IsDead m.payload (attempt + k) p) := by
  induction h generalizing attempt with
  | @accepted m w w' hu =>
    obtain ⟨e, he⟩ := hfail id w
    simp [hu] at he
  | @dead m w w' e a hk hu hN =>
    obtain rfl : a = attempt := Except.ok.inj (hk.symm.trans hattempt)
    rintro (_ | k) r hr
    · obtain rfl := Option.some_inj.1 hr
      rw [Nat.cast_zero, add_zero]
      exact ⟨rfl, hk, _, rfl, fun h => absurd hN (Int.not_le.2 h), fun _ => isDead_toDlq _ _ _⟩
    · simp at hr
  | @retried m w w' w'' e a runs last hk hu hN hrest ih =>
    obtain rfl : a = attempt := Except.ok.inj (hk.symm.trans hattempt)
    rintro (_ | k) r hr
    · obtain rfl := Option.some_inj.1 hr
      rw [Nat.cast_zero, add_zero]
      exact ⟨rfl, hk, _, rfl, fun _ => isRetry_toRetry _ _ _ _,
        fun h => absurd h (Int.not_le.2 hN)⟩
    · have := ih (attemptOf_returned settings h1 _) (by omega) hr
      rw [show a + 1 + (k : ℤ) = a + ((k + 1 : ℕ) : ℤ) by push_cast; ring] at this
      exact this

/-- What becomes of a message with number `attempt` that fails whenever it is handled. -/
structure RetryLaw (settings : RabbitSettings) (m : Message) (attempt : ℤ)
    (s : ConsumerState ω) : Prop where
  length : (s.runs.length : ℤ) = max 1 (settings.maxDeliveryAttempts - attempt + 1)
  handled : ∀ (k : ℕ) r, s.runs[k]? = some r →
    r.message.payload = m.payload ∧ attemptOf r.message.headers = .ok (attempt + k)
  retried : ∀ (k : ℕ) r, s.runs[k]? = some r → attempt + k < settings.maxDeliveryAttempts →
    ∃ p, r.result = .ok (some p) ∧ IsRetry settings m.payload (attempt + k) p
  dead : ∀ (k : ℕ) r, s.runs[k]? = some r → settings.maxDeliveryAttempts ≤ attempt + k →
    ∃ p, r.result = .ok (some p) ∧ IsDead m.payload (max attempt settings.maxDeliveryAttempts) p
      ∧ k + 1 = s.runs.length ∧ s.queues dlqQueue = [p.message]
  travels : ∀ (k : ℕ) r r', s.runs[k]? = some r → s.runs[k + 1]? = some r' →
    ∃ p, r.result = .ok (some p) ∧ r'.message = { p.message with expiration := none }
  published : s.published.length = s.runs.length
  idle : s.queues newQueue = [] ∧ s.queues retryQueue = []

theorem retryLaw_of_chain (hfail : ∀ id w, ∃ e, (useCase id w).2 = .error e) {m : Message}
    {w w' : ω} {runs : List (HandlerRun ω)} {last : Option Publish}
    (h : Chain settings useCase id m w runs w' last) {attempt : ℤ}
    (hattempt : attemptOf m.headers = .ok attempt) (h1 : 1 ≤ attempt) :
    RetryLaw settings m attempt ⟨endQueues last, w', runs⟩ := by
  have hlength := (h.length_le hattempt h1).2 (h.last_of_fails hfail)
  have hlt : ∀ {k : ℕ} {r : HandlerRun ω}, runs[k]? = some r → k < runs.length := fun hr =>
    (List.getElem?_eq_some_iff.1 hr).1
  have hlast : ∃ r p, runs.getLast? = some r ∧ last = some p ∧
      IsDead m.payload (max attempt settings.maxDeliveryAttempts) p := by
    obtain ⟨r, hr⟩ : ∃ r, runs[runs.length - 1]? = some r :=
      ⟨_, List.getElem?_eq_getElem (by omega)⟩
    have hget : runs.getLast? = some r := List.getLast?_eq_getElem?.trans hr
    obtain ⟨-, -, p, hp, -, hdead⟩ := h.run_of_fails hfail hattempt h1 hr
    rw [(h.getLast hget).1] at hp
    have hmax : attempt + (runs.length - 1 : ℕ) = max attempt settings.maxDeliveryAttempts := by
      omega
    rw [hmax] at hdead
    exact ⟨r, p, hget, Except.ok.inj hp, hdead (le_max_right _ _)⟩
  obtain ⟨r₀, p₀, hr₀, rfl, hdead₀⟩ := hlast
  refine ⟨hlength, fun k r hr => ?_, fun k r hr hk => ?_, fun k r hr hk => ?_,
    fun k r r' hr hr' => h.message_succ hr hr', ?_, h.endQueues_eq.2⟩
  · obtain ⟨hpayload, ha, -⟩ := h.run_of_fails hfail hattempt h1 hr
    exact ⟨hpayload, ha⟩
  · obtain ⟨-, -, p, hp, hretry, -⟩ := h.run_of_fails hfail hattempt h1 hr
    exact ⟨p, hp, hretry hk⟩
  · have hk' : k + 1 = runs.length := by
      have := hlt hr
      omega
    rw [show k = runs.length - 1 by omega, ← List.getLast?_eq_getElem?, hr₀] at hr
    obtain rfl := Option.some.inj hr
    exact ⟨p₀, (h.getLast hr₀).1, hdead₀, hk', endQueues_dlq hdead₀.route⟩
  · refine List.filterMap_length_eq_length.2 fun r hr => ?_
    obtain ⟨k, hk⟩ := List.getElem?_of_mem hr
    obtain ⟨-, -, p, hp, -⟩ := h.run_of_fails hfail hattempt h1 hk
    rw [hp]
    rfl

end Chain

/-- Any use case that always fails, any first message with a payment's id and a number. -/
theorem retry_chain {ω : Type} (settings : RabbitSettings)
    (useCase : UUID → ω → ω × Except PyError Unit)
    (hfail : ∀ id w, ∃ e, (useCase id w).2 = .error e) (m : Message)
    (hid : ∃ id, paymentIdOf m.payload = .ok id) (hheader : IsCounter m.headers) (w : ω) :
    ∃ attempt steps s, attemptOf m.headers = .ok attempt ∧
      (∀ fuel, steps ≤ fuel → consume settings useCase fuel (.init m w) = some s) ∧
      RetryLaw settings m attempt s := by
  obtain ⟨id, hid⟩ := hid
  obtain ⟨attempt, hattempt, h1⟩ := attemptOf_eq_ok hheader
  obtain ⟨runs, w', last, h⟩ := exists_chain settings useCase id m w hattempt h1
  refine ⟨attempt, 2 * runs.length, ⟨endQueues last, w', runs⟩, hattempt, fun fuel hfuel => ?_,
    retryLaw_of_chain hfail h hattempt h1⟩
  have hrun := consume_chain h hid hattempt h1 [] (fuel - 2 * runs.length)
  rwa [Nat.sub_add_cancel hfuel, List.nil_append] at hrun

/-- A message of `sampleRow` with the number of its second attempt. -/
def secondAttempt : Message where
  payload := [("payment_id", .str sampleRow.id.str)]
  headers := [(ATTEMPT_HEADER, .str " +2 ")]
  messageId := none
  expiration := none

theorem paymentIdOf_secondAttempt : paymentIdOf secondAttempt.payload = .ok sampleRow.id := by
  simp [paymentIdOf, secondAttempt, UUID.ofText_str, Except.mapError]

theorem secondAttempt_retries : ∃ attempt steps s, attemptOf secondAttempt.headers = .ok attempt ∧
    (∀ fuel, steps ≤ fuel → consume (.ofRetry 4 (3 / 2))
      (fun _ w => (w + 1, .error (.other "E" ""))) fuel (.init secondAttempt 0) = some s)
    ∧ RetryLaw (.ofRetry 4 (3 / 2)) secondAttempt attempt s :=
  retry_chain _ _ (fun _ _ => ⟨_, rfl⟩) _ ⟨_, paymentIdOf_secondAttempt⟩
    trivial (0 : ℕ)

end PaymentService
