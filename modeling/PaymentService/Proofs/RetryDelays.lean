import PaymentService.RetryQueue
import Mathlib.Tactic.Linarith

/-!
# A retry waits its own delay when no message before it waits longer

The messages of all payments and attempts share one queue, and its TTL bounds every delay.
-/

namespace PaymentService

open Python TimedFifo

variable {settings : RabbitSettings}

/-- The queue's TTL in seconds. -/
def retryQueueTtl : ℚ := RETRY_QUEUE_TTL_MS / 1000

example : retryQueueTtl = 24 * 60 * 60 := by decide +kernel

theorem expiryTime_eq (e : Entry FailedAttempt ℚ) :
    expiryTime settings e = e.time + min (e.item.delay settings) retryQueueTtl := rfl

theorem expiryTime_of_le {e : Entry FailedAttempt ℚ} (h : e.item.delay settings ≤ retryQueueTtl) :
    expiryTime settings e = dueTime settings e := by
  rw [expiryTime_eq, min_eq_left h, dueTime]

theorem expiryTime_le (e : Entry FailedAttempt ℚ) :
    expiryTime settings e ≤ e.time + retryQueueTtl :=
  add_le_add_right (min_le_right _ _) _

variable (settings) in
/-- No delay is beyond the queue's TTL, and no message is due before one published earlier. -/
structure KeepsOrder (es : List (Entry FailedAttempt ℚ)) : Prop where
  short : ∀ e ∈ es, e.item.delay settings ≤ retryQueueTtl
  ordered : (es.map (dueTime settings)).Pairwise (· ≤ ·)

variable {now : ℚ} {labels : List (Label FailedAttempt ℚ)} {s : State FailedAttempt ℚ}

theorem KeepsOrder.expiryTimes {es : List (Entry FailedAttempt ℚ)}
    (h : KeepsOrder settings es) : (es.map (expiryTime settings)).Pairwise (· ≤ ·) := by
  rw [List.map_congr_left fun e he => expiryTime_of_le (h.short e he)]
  exact h.ordered

theorem KeepsOrder.left (h : KeepsOrder settings s.published) :
    KeepsOrder settings (s.left.map Prod.fst) where
  short e he := h.short e (List.mem_append_left _ he)
  ordered := by
    have := h.ordered
    rw [State.published, List.map_append, List.pairwise_append] at this
    exact this.1

/-- A message that came back when it was due was not cut short by the queue's TTL. -/
theorem delay_le_ttl (hinv : Inv (expiryTime settings) s) {r : Entry FailedAttempt ℚ × ℚ}
    (hr : r ∈ s.left) (hdue : r.2 = dueTime settings r.1) :
    r.1.item.delay settings ≤ retryQueueTtl := by
  obtain ⟨x, htime, hxt⟩ := hinv.exists_deadline hr
  have hle : expiryTime settings x ≤ x.time + retryQueueTtl := expiryTime_le x
  rw [hxt, hdue, dueTime] at hle
  linarith

theorem onTime_iff_keepsOrder (hinv : Inv (expiryTime settings) s) :
    (∀ r ∈ s.left, r.2 = dueTime settings r.1) ↔
      KeepsOrder settings (s.left.map Prod.fst) := by
  have hshort : (∀ r ∈ s.left, r.1.item.delay settings ≤ retryQueueTtl) →
      ((∀ r ∈ s.left, r.2 = dueTime settings r.1) ↔
        (s.left.map fun r => dueTime settings r.1).Pairwise (· ≤ ·)) := by
    intro hle
    have hexpiry : ∀ r ∈ s.left, expiryTime settings r.1 = dueTime settings r.1 :=
      fun r hr => expiryTime_of_le (hle r hr)
    rw [← List.map_congr_left hexpiry, ← hinv.leaves.onTime_iff]
    exact forall₂_congr fun r hr => by rw [hexpiry r hr]
  constructor
  · intro hdue
    have hle := fun r hr => delay_le_ttl hinv hr (hdue r hr)
    refine ⟨?_, ?_⟩
    · rw [List.forall_mem_map]
      exact hle
    · rw [List.map_map]
      exact (hshort hle).1 hdue
  · rintro ⟨hle, hord⟩
    rw [List.forall_mem_map] at hle
    rw [List.map_map] at hord
    exact (hshort hle).2 hord

/-- Along any run from an empty queue. -/
theorem retry_delays (h : (retryMachine settings).run (.init now) labels = some s) :
    s.published.map Entry.item = labels.filterMap Label.item? ∧
      (KeepsOrder settings s.published → (∀ r ∈ s.left, r.2 = dueTime settings r.1)
        ∧ ∀ e ∈ s.waiting, s.now ≤ dueTime settings e) ∧
      ((∀ r ∈ s.left, r.2 = dueTime settings r.1) ↔
        KeepsOrder settings (s.left.map Prod.fst)) := by
  have hinv : Inv (expiryTime settings) s := inv_run h
  refine ⟨published_run h, fun hkeeps => ⟨?_, ?_⟩, onTime_iff_keepsOrder hinv⟩
  · exact (onTime_iff_keepsOrder hinv).2 hkeeps.left
  · intro e he
    rw [← expiryTime_of_le (hkeeps.short e (List.mem_append_right _ he))]
    exact hinv.not_overdue hkeeps.expiryTimes he

/-- A base delay of five seconds, and three attempts. -/
def sampleSettings : RabbitSettings := {}

/-- The first attempt at one payment fails, and a second later the second at another. -/
def keptOrder : List (Label FailedAttempt ℚ) :=
  [.publish ⟨[], 1, .other "E" ""⟩, .wait 1, .publish ⟨[], 2, .other "E" ""⟩, .wait 5, .leave,
    .wait 11, .leave]

theorem keptOrder_run : ∃ s, (retryMachine sampleSettings).run (.init 0) keptOrder = some s ∧
    (s.published.map (fun e => e.item.delay sampleSettings),
      s.published.map (dueTime sampleSettings), s.left.map Prod.snd) =
        ([5, 10], [5, 11], [5, 11]) := by
  have h : ((retryMachine sampleSettings).run (.init 0) keptOrder).map (fun s =>
      (s.published.map (fun e => e.item.delay sampleSettings),
        s.published.map (dueTime sampleSettings), s.left.map Prod.snd)) =
          some ([5, 10], [5, 11], [5, 11]) := by
    decide +kernel
  exact Option.map_eq_some_iff.1 h

/-- Both come back when they are due, after five and after eleven seconds. -/
theorem keptOrder_delays : ∃ s, (retryMachine sampleSettings).run (.init 0) keptOrder = some s ∧
    KeepsOrder sampleSettings s.published ∧ s.left.map Prod.snd = [5, 11] ∧
    ∀ r ∈ s.left, r.2 = dueTime sampleSettings r.1 := by
  obtain ⟨s, hrun, htimes⟩ := keptOrder_run
  simp only [Prod.mk.injEq] at htimes
  obtain ⟨hdelays, hdue, hleft⟩ := htimes
  have hkeeps : KeepsOrder sampleSettings s.published := by
    refine ⟨?_, ?_⟩
    · rw [← List.forall_mem_map (f := fun e : Entry FailedAttempt ℚ => e.item.delay sampleSettings)
        (P := fun d => d ≤ retryQueueTtl), hdelays]
      decide +kernel
    · rw [hdue]
      decide +kernel
  exact ⟨s, hrun, hkeeps, hleft, ((retry_delays hrun).2.1 hkeeps).1⟩

/-- The second attempt at one payment fails, and a second later the first at another. -/
def overtaken : List (Label FailedAttempt ℚ) :=
  [.publish ⟨[], 2, .other "E" ""⟩, .wait 1, .publish ⟨[], 1, .other "E" ""⟩, .wait 10, .leave,
    .leave]

theorem overtaken_run : ∃ s, (retryMachine sampleSettings).run (.init 0) overtaken = some s ∧
    s.left.map (fun r => (r.2, dueTime sampleSettings r.1)) = [(10, 10), (10, 6)] := by
  have h : ((retryMachine sampleSettings).run (.init 0) overtaken).map (fun s =>
      s.left.map fun r => (r.2, dueTime sampleSettings r.1)) = some [(10, 10), (10, 6)] := by
    decide +kernel
  exact Option.map_eq_some_iff.1 h

/-- The second message, due after six seconds, comes back after ten. -/
theorem overtaken_late : ∃ s, (retryMachine sampleSettings).run (.init 0) overtaken = some s ∧
    ¬ ∀ r ∈ s.left, r.2 = dueTime sampleSettings r.1 := by
  obtain ⟨s, hrun, hleft⟩ := overtaken_run
  refine ⟨s, hrun, fun hall => ?_⟩
  have hmem : ((10 : ℚ), (6 : ℚ)) ∈ s.left.map fun r => (r.2, dueTime sampleSettings r.1) := by
    rw [hleft]
    simp
  obtain ⟨r, hr, hpair⟩ := List.mem_map.1 hmem
  have hdue := hall r hr
  rw [(Prod.mk.inj hpair).1, (Prod.mk.inj hpair).2] at hdue
  exact absurd hdue (by decide +kernel)

end PaymentService
