import PaymentService.Storage
import PaymentService.Lib.Machine

/-!
# `OutboxRelay`

`publishBatch` is one pass with nothing else at work on the table. The machine below it has any
number of passes: a pass locks its batch, publishes one message after another inside its
transaction, and commits what became of them or is aborted. The broker keeps a record of what it
accepted, and an aborted pass does not take back what it published.
-/

namespace PaymentService

open Python Labelled

def MAX_LAST_ERROR_LENGTH : ℕ := 500

/-- How `publisher.publish` ends: it returns, or it raises, and then the broker may have accepted
the message or not. -/
inductive PublishOutcome
  | published (now : ℤ)
  | refused (error : PyError)
  | unconfirmed (error : PyError)

def PublishOutcome.isAccepted : PublishOutcome → Bool
  | published _ | unconfirmed _ => true
  | refused _ => false

def PublishOutcome.isPublished : PublishOutcome → Bool
  | published _ => true
  | refused _ | unconfirmed _ => false

/-- The message after the `try` of the loop. -/
def OutboxRow.afterPublish (m : OutboxRow) : PublishOutcome → OutboxRow
  | .published now => { m with publishedAt := some now }
  | .refused e | .unconfirmed e => { m with
      attempts := m.attempts + 1
      lastError := some (truncate MAX_LAST_ERROR_LENGTH e.str) }

/-- The rows of some ids, in the order of the ids. -/
def rowsIn (outbox : List OutboxRow) (order : List UUID) : List OutboxRow :=
  order.filterMap fun id => outbox.find? fun r => r.id = id

/-- An order `ORDER BY created_at` can give the rows a statement sees; rows of one time come in any
order. -/
def isSnapshotOrder (outbox : List OutboxRow) (order : List UUID) : Bool :=
  decide order.Nodup &&
    decide (((rowsIn outbox order).map OutboxRow.createdAt).Pairwise (· ≤ ·))

/-- `_lock_unpublished`: of the rows seen, the first that are unpublished and not locked. -/
def lockUnpublished (outbox : List OutboxRow) (isLocked : UUID → Bool) (order : List UUID)
    (batchSize : ℕ) : List OutboxRow :=
  ((rowsIn outbox order).filter fun m =>
    m.publishedAt = none ∧ isLocked m.id = false).take batchSize

/-- The table after a COMMIT of changed rows. -/
def writeRows (outbox changed : List OutboxRow) : List OutboxRow :=
  outbox.map fun r => (changed.find? fun m => m.id = r.id).getD r

/-! ## A pass alone -/

/-- The loop of `publish_batch`: the messages it leaves, and `published`. -/
def publishMessages (publish : OutboxRow → PublishOutcome) :
    List OutboxRow → List OutboxRow × ℕ
  | [] => ([], 0)
  | m :: ms =>
    let rest := publishMessages publish ms
    (m.afterPublish (publish m) :: rest.1,
      (if (publish m).isPublished then 1 else 0) + rest.2)

/-- `publish_batch` where the transaction commits. -/
def publishBatch (batchSize : ℕ) (publish : OutboxRow → PublishOutcome) (order : List UUID)
    (outbox : List OutboxRow) : List OutboxRow × ℕ :=
  let x := publishMessages publish (lockUnpublished outbox (fun _ => false) order batchSize)
  (writeRows outbox x.1, x.2)

/-- An order `ORDER BY created_at` can give all rows of the table. -/
def isTableOrder (outbox : List OutboxRow) (order : List UUID) : Bool :=
  isSnapshotOrder outbox order && outbox.all fun r => order.contains r.id

/-- The table after some passes of one relay, with each pass's publishes and the order its rows
came in. -/
def tableAfter (batchSize : ℕ) (publish : ℕ → OutboxRow → PublishOutcome)
    (orders : ℕ → List UUID) (outbox : List OutboxRow) : ℕ → List OutboxRow
  | 0 => outbox
  | i + 1 => (publishBatch batchSize (publish i) (orders i)
      (tableAfter batchSize publish orders outbox i)).1

/-! ## Passes among others -/

/-- What a pass is about to do; `done` are the messages it is through with. -/
inductive PassPc
  | start
  | publishing (done todo : List OutboxRow) (published : ℕ)
  | committed (published : ℕ)
  | aborted

/-- A message the broker has accepted, from which pass, and whether `publish` returned. -/
structure Accepted where
  pass : ℕ
  id : UUID
  eventType : String
  payload : Dict
  confirmed : Bool

structure RowLock where
  pass : ℕ
  id : UUID
deriving DecidableEq

structure RelayState where
  outbox : List OutboxRow
  locks : List RowLock
  passes : ℕ → PassPc
  accepted : List Accepted

inductive PassAct
  | lock (order : List UUID)
  | publish (outcome : PublishOutcome)
  | commit
  | abort

namespace RelayState

def init (outbox : List OutboxRow) : RelayState := ⟨outbox, [], fun _ => .start, []⟩

def isLocked (s : RelayState) (id : UUID) : Bool := s.locks.any fun l => l.id = id

def setPass (s : RelayState) (k : ℕ) (pc : PassPc) : RelayState :=
  { s with passes := Function.update s.passes k pc }

/-- `FOR UPDATE`. -/
def lock (s : RelayState) (k : ℕ) (messages : List OutboxRow) : RelayState :=
  { s with locks := s.locks ++ messages.map fun m => RowLock.mk k m.id }

/-- The transaction of a pass has ended. -/
def unlock (s : RelayState) (k : ℕ) : RelayState :=
  { s with locks := s.locks.filter (·.pass ≠ k) }

/-- The broker's record after a `publish`. -/
def offer (s : RelayState) (k : ℕ) (m : OutboxRow) (outcome : PublishOutcome) : RelayState :=
  if outcome.isAccepted then
    { s with accepted := s.accepted ++ [⟨k, m.id, m.eventType, m.payload, outcome.isPublished⟩] }
  else s

end RelayState

def passStep (batchSize : ℕ → ℕ) (s : RelayState) (k : ℕ) : PassAct → Option RelayState
  | .lock order =>
    match s.passes k with
    | .start =>
      if isSnapshotOrder s.outbox order then
        let messages := lockUnpublished s.outbox s.isLocked order (batchSize k)
        some ((s.lock k messages).setPass k (.publishing [] messages 0))
      else none
    | _ => none
  | .publish outcome =>
    match s.passes k with
    | .publishing done (m :: todo) published =>
      some ((s.offer k m outcome).setPass k (.publishing (done ++ [m.afterPublish outcome]) todo
        (published + if outcome.isPublished then 1 else 0)))
    | _ => none
  | .commit =>
    match s.passes k with
    | .publishing done [] published =>
      some (({ s with outbox := writeRows s.outbox done }.unlock k).setPass k
        (.committed published))
    | _ => none
  | .abort =>
    match s.passes k with
    | .start | .publishing _ _ _ => some ((s.unlock k).setPass k .aborted)
    | _ => none

/-- A pass's step, or a row another session's COMMIT adds; no session but a pass's publishes. -/
inductive RelayLabel
  | pass (k : ℕ) (act : PassAct)
  | insert (row : OutboxRow)

/-- Passes `0, 1, …` of any number of relays, each with its relay's batch size. -/
def relayMachine (batchSize : ℕ → ℕ) : Machine RelayState RelayLabel where
  step s
  | .pass k act => passStep batchSize s k act
  | .insert row =>
    if row.publishedAt ≠ none ∨ s.outbox.any (fun r => r.id = row.id) then none
    else some { s with outbox := s.outbox ++ [row] }

end PaymentService
