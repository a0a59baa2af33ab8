import PaymentService.Broker
import PaymentService.Lib.Amortized

/-!
# Sums over the queues

A weight for each message of each queue, added up over the three queues of the service: what is put
into a queue adds its weight, and what is taken out takes it away.
-/

namespace PaymentService

open Amortized

def serviceQueues : Finset RabbitQueue := {newQueue, retryQueue, dlqQueue}

theorem new_mem_serviceQueues : newQueue ∈ serviceQueues := by decide

theorem retry_mem_serviceQueues : retryQueue ∈ serviceQueues := by decide

theorem dlq_mem_serviceQueues : dlqQueue ∈ serviceQueues := by decide

def queueSum (w : RabbitQueue → Message → ℕ) (queues : Queues) : ℕ :=
  ∑ q ∈ serviceQueues, ((queues q).map (w q)).sum

variable {w : RabbitQueue → Message → ℕ} {queues : Queues} {q : RabbitQueue}

/-- Only one queue has changed. -/
theorem queueSum_off {queues' : Queues} (hq : q ∈ serviceQueues)
    (hoff : ∀ q', q' ≠ q → queues' q' = queues q') :
    queueSum w queues' + ((queues q).map (w q)).sum =
      queueSum w queues + ((queues' q).map (w q)).sum :=
  sum_off id hq fun q' hne =>
    show ((queues' q').map (w q')).sum = ((queues q').map (w q')).sum by rw [hoff q' hne]

theorem queueSum_enqueue (hq : q ∈ serviceQueues) (m : Message) :
    queueSum w (queues.enqueue [q] m) = queueSum w queues + w q m := by
  have hsum := queueSum_off (w := w) hq fun q' hne =>
    show queues.enqueue [q] m q' = queues q' by simp [Queues.enqueue, hne]
  have hself : queues.enqueue [q] m q = queues q ++ [m] := by simp [Queues.enqueue]
  rw [hself, List.map_append, List.sum_append, List.map_singleton, List.sum_singleton] at hsum
  omega

theorem queueSum_dequeue (hq : q ∈ serviceQueues) {n : ℕ} {m : Message}
    (hm : (queues q)[n]? = some m) :
    queueSum w (queues.dequeue q n) + w q m = queueSum w queues := by
  have hsum := queueSum_off (w := w) hq fun q' hne =>
    show queues.dequeue q n q' = queues q' from Function.update_of_ne hne _ _
  have herase := sum_map_eraseIdx (w q) hm
  have hself : queues.dequeue q n q = (queues q).eraseIdx n := Function.update_self _ _ _
  rw [hself] at hsum
  omega

end PaymentService
