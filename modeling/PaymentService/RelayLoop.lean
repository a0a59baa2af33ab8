import PaymentService.OutboxRelay
import Mathlib.Data.Nat.Pairing

/-!
# `OutboxRelay.run`

Any number of relays on one table, each in its loop: a pass, and a sleep after one that published
nothing or raised. A pass is one of `relayMachine`, the `j`-th pass of relay `i` under a number of
its own.
-/

namespace PaymentService

open Labelled

/-- Where a relay's `run` is: in its `j`-th `publish_batch`, in the sleep after it, or cancelled. -/
inductive LoopPc
  | passing (j : ℕ)
  | sleeping (j : ℕ)
  | cancelled

structure LoopState where
  relay : RelayState
  loops : ℕ → LoopPc

/-- A step of a relay's pass, where `abort` raises an `Exception`; the end of a sleep; the
cancellation of a relay's task; a row another session's COMMIT adds. -/
inductive LoopLabel
  | pass (i : ℕ) (act : PassAct)
  | wake (i : ℕ)
  | cancel (i : ℕ)
  | insert (row : OutboxRow)

def passNumber (i j : ℕ) : ℕ := Nat.pair i j

/-- Relay `i` takes batches of its own size. -/
def passBatchSize (batchSize : ℕ → ℕ) (k : ℕ) : ℕ := batchSize k.unpair.1

/-- `published` in `run`, once `publish_batch` is over. -/
def PassPc.published? : PassPc → Option ℕ
  | committed published => some published
  | aborted => some 0
  | start | publishing _ _ _ => none

/-- The loop after a step of its `j`-th pass. -/
def loopAfter (j : ℕ) (pc : PassPc) : LoopPc :=
  match pc.published? with
  | none => .passing j
  | some published => if published = 0 then .sleeping j else .passing (j + 1)

namespace LoopState

def init (outbox : List OutboxRow) : LoopState := ⟨.init outbox, fun _ => .passing 0⟩

def setLoop (s : LoopState) (i : ℕ) (pc : LoopPc) : LoopState :=
  { s with loops := Function.update s.loops i pc }

end LoopState

def loopStep (batchSize : ℕ → ℕ) (s : LoopState) : LoopLabel → Option LoopState
  | .pass i act =>
    match s.loops i with
    | .passing j =>
      (passStep (passBatchSize batchSize) s.relay (passNumber i j) act).map fun relay =>
        { s with relay }.setLoop i (loopAfter j (relay.passes (passNumber i j)))
    | .sleeping _ | .cancelled => none
  | .wake i =>
    match s.loops i with
    | .sleeping j => some (s.setLoop i (.passing (j + 1)))
    | .passing _ | .cancelled => none
  | .cancel i =>
    match s.loops i with
    -- `session.begin()` rolls back.
    | .passing j =>
      (passStep (passBatchSize batchSize) s.relay (passNumber i j) .abort).map fun relay =>
        { s with relay }.setLoop i .cancelled
    | .sleeping _ => some (s.setLoop i .cancelled)
    | .cancelled => none
  | .insert row =>
    ((relayMachine (passBatchSize batchSize)).step s.relay (.insert row)).map fun relay =>
      { s with relay }

/-- The relays `0, 1, …`, each with its batch size. -/
def relayLoops (batchSize : ℕ → ℕ) : Machine LoopState LoopLabel := ⟨loopStep batchSize⟩

end PaymentService
