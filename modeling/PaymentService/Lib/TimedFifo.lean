import PaymentService.Lib.Machine
import Mathlib.Order.Bounds.Basic

/-!
# A FIFO queue whose items expire

Only the item at the head of the queue can leave it, and it does so at its deadline, or at once if
it gets to the head later. Time does not pass the deadline of the head. So an item leaves at the
latest deadline of those up to its own (`Leaves.split`), and every item leaves at its own deadline
exactly when the deadlines come in the order of the items (`Leaves.onTime_iff`).
-/

namespace TimedFifo

open Labelled

variable {α T : Type*} [LinearOrder T]

/-- An item and the time it was put into the queue. -/
structure Entry (α T : Type*) where
  item : α
  time : T

/-- The entries that have left, oldest first, go with the times they left at. -/
structure State (α T : Type*) where
  now : T
  waiting : List (Entry α T)
  left : List (Entry α T × T)

inductive Label (α T : Type*)
  | publish (a : α)
  | leave
  | wait (t : T)

def State.init (now : T) : State α T := ⟨now, [], []⟩

/-- Everything that was put into the queue, in that order. -/
def State.published (s : State α T) : List (Entry α T) := s.left.map Prod.fst ++ s.waiting

def step (deadline : Entry α T → T) : State α T → Label α T → Option (State α T)
  | ⟨now, waiting, left⟩, .publish a =>
    if now ≤ deadline ⟨a, now⟩ then some ⟨now, waiting ++ [⟨a, now⟩], left⟩ else none
  | ⟨_, [], _⟩, .leave => none
  | ⟨now, e :: waiting, left⟩, .leave =>
    if deadline e ≤ now then some ⟨now, waiting, left ++ [(e, now)]⟩ else none
  | ⟨now, waiting, left⟩, .wait t =>
    if now ≤ t ∧ ∀ e ∈ waiting.head?, t ≤ deadline e then some ⟨t, waiting, left⟩ else none

def queue (deadline : Entry α T → T) : Machine (State α T) (Label α T) := ⟨step deadline⟩

section

variable (deadline : Entry α T → T)

/-- Each entry has left at the latest deadline of those up to it. -/
inductive Leaves : List (Entry α T × T) → Prop
  | nil : Leaves []
  | snoc {left : List (Entry α T × T)} {e : Entry α T} {t : T} (h : Leaves left)
      (ht : IsGreatest {d | ∃ x ∈ left.map Prod.fst ++ [e], deadline x = d} t) :
      Leaves (left ++ [(e, t)])

/-- What every step keeps: entries leave as they should, and time has not passed the deadline of
the head unless one before it was later. -/
structure Inv (s : State α T) : Prop where
  leaves : Leaves deadline s.left
  past : ∀ x ∈ s.left, deadline x.1 ≤ s.now
  head : ∀ e ∈ s.waiting.head?, ∃ x ∈ s.left.map Prod.fst ++ [e], s.now ≤ deadline x
  ordered : (s.published.map Entry.time).Pairwise (· ≤ ·)
  time_le : ∀ e ∈ s.published, e.time ≤ s.now

variable {deadline}

theorem inv_init (now : T) : Inv deadline (State.init now) where
  leaves := .nil
  past := by simp [State.init]
  head := by simp [State.init]
  ordered := by simp [State.init, State.published]
  time_le := by simp [State.init, State.published]

theorem inv_publish {now : T} {waiting : List (Entry α T)} {left : List (Entry α T × T)} {a : α}
    (h : Inv deadline ⟨now, waiting, left⟩) (ha : now ≤ deadline ⟨a, now⟩) :
    Inv deadline ⟨now, waiting ++ [⟨a, now⟩], left⟩ where
  leaves := h.leaves
  past := h.past
  head := by
    rcases waiting with _ | ⟨e, waiting⟩
    · rintro e ⟨⟩
      exact ⟨⟨a, now⟩, by simp, ha⟩
    · exact h.head
  ordered := by
    have hord := h.ordered
    have hle := h.time_le
    simp only [State.published] at hord hle ⊢
    rw [← List.append_assoc, List.map_append, List.pairwise_append]
    refine ⟨hord, List.pairwise_singleton _ _, fun t ht u hu => ?_⟩
    obtain ⟨e, he, rfl⟩ := List.mem_map.1 ht
    rw [List.map_singleton, List.mem_singleton] at hu
    exact hu ▸ hle e he
  time_le := by
    have hle := h.time_le
    simp only [State.published] at hle ⊢
    rw [← List.append_assoc]
    intro e he
    rcases List.mem_append.1 he with he | he
    · exact hle e he
    · rw [List.mem_singleton] at he
      exact he ▸ le_rfl

theorem inv_leave {now : T} {e : Entry α T} {waiting : List (Entry α T)}
    {left : List (Entry α T × T)} (h : Inv deadline ⟨now, e :: waiting, left⟩)
    (he : deadline e ≤ now) : Inv deadline ⟨now, waiting, left ++ [(e, now)]⟩ := by
  obtain ⟨x, hx, hnow⟩ := h.head e rfl
  have hle : ∀ y ∈ left.map Prod.fst ++ [e], deadline y ≤ now := by
    intro y hy
    rcases List.mem_append.1 hy with hy | hy
    · obtain ⟨z, hz, rfl⟩ := List.mem_map.1 hy
      exact h.past z hz
    · rw [List.mem_singleton] at hy
      exact hy ▸ he
  refine ⟨.snoc h.leaves ⟨⟨x, hx, (hle x hx).antisymm hnow⟩, ?_⟩, ?_, ?_, ?_, ?_⟩
  · rintro d ⟨y, hy, rfl⟩
    exact hle y hy
  · intro y hy
    rcases List.mem_append.1 hy with hy | hy
    · exact h.past y hy
    · obtain rfl := List.mem_singleton.1 hy
      exact he
  · intro e' _
    exact ⟨x, List.mem_append_left _ (by simpa using hx), hnow⟩
  · simpa [State.published] using h.ordered
  · simpa [State.published] using h.time_le

theorem inv_wait {now t : T} {waiting : List (Entry α T)} {left : List (Entry α T × T)}
    (h : Inv deadline ⟨now, waiting, left⟩) (ht : now ≤ t)
    (hhead : ∀ e ∈ waiting.head?, t ≤ deadline e) : Inv deadline ⟨t, waiting, left⟩ where
  leaves := h.leaves
  past x hx := (h.past x hx).trans ht
  head e he := ⟨e, by simp, hhead e he⟩
  ordered := h.ordered
  time_le e he := (h.time_le e he).trans ht

theorem inv_step (s : State α T) (l : Label α T) (s' : State α T) (h : Inv deadline s)
    (hs : (queue deadline).step s l = some s') : Inv deadline s' := by
  obtain ⟨now, waiting, left⟩ := s
  simp only [queue] at hs
  cases l with
  | publish a =>
    simp only [step] at hs
    split_ifs at hs with ha
    cases hs
    exact inv_publish h ha
  | leave =>
    rcases waiting with _ | ⟨e, waiting⟩
    · cases hs
    · simp only [step] at hs
      split_ifs at hs with he
      cases hs
      exact inv_leave h he
  | wait t =>
    simp only [step] at hs
    split_ifs at hs with ht
    cases hs
    exact inv_wait h ht.1 ht.2

theorem inv_run {now : T} {labels : List (Label α T)} {s : State α T}
    (h : (queue deadline).run (.init now) labels = some s) : Inv deadline s :=
  Machine.inv_run inv_step (inv_init now) h

/-! ## What was put in -/

/-- The item a label puts into the queue. -/
def Label.item? : Label α T → Option α
  | .publish a => some a
  | _ => none

theorem published_step {s s' : State α T} {l : Label α T}
    (hs : (queue deadline).step s l = some s') :
    s'.published.map Entry.item = s.published.map Entry.item ++ l.item?.toList := by
  obtain ⟨now, waiting, left⟩ := s
  simp only [queue] at hs
  cases l with
  | publish a =>
    simp only [step] at hs
    split_ifs at hs
    cases hs
    simp [State.published, Label.item?]
  | leave =>
    rcases waiting with _ | ⟨e, waiting⟩
    · cases hs
    · simp only [step] at hs
      split_ifs at hs
      cases hs
      simp [State.published, Label.item?]
  | wait t =>
    simp only [step] at hs
    split_ifs at hs
    cases hs
    simp [State.published, Label.item?]

/-- What was published has left or waits, in the order it was published in. -/
theorem published_run : ∀ {labels : List (Label α T)} {s s' : State α T},
    (queue deadline).run s labels = some s' →
      s'.published.map Entry.item = s.published.map Entry.item ++ labels.filterMap Label.item?
  | [], s, s', h => by
    cases h
    simp
  | l :: labels, s, s', h => by
    obtain ⟨s₁, h₁, h₂⟩ := Machine.run_cons.1 h
    rw [published_run h₂, published_step h₁, List.append_assoc, List.filterMap_cons]
    rcases l.item? with _ | a <;> rfl

/-! ## When entries leave -/

theorem Leaves.split {left : List (Entry α T × T)} (h : Leaves deadline left) :
    ∀ {before after : List (Entry α T × T)} {e : Entry α T} {t : T},
      left = before ++ (e, t) :: after →
        IsGreatest {d | ∃ x ∈ before.map Prod.fst ++ [e], deadline x = d} t := by
  induction h with
  | nil =>
    intro before after e t heq
    simp at heq
  | @snoc left e' t' h ht ih =>
    intro before after e t heq
    rcases List.eq_nil_or_concat after with rfl | ⟨after, x, rfl⟩
    · obtain ⟨rfl, hpair⟩ := List.append_inj' heq rfl
      cases hpair
      exact ht
    · rw [List.concat_eq_append, ← List.cons_append, ← List.append_assoc] at heq
      exact ih (List.append_inj' heq rfl).1

/-- An entry leaves at the deadline of one that was put in no later. -/
theorem Inv.exists_deadline {s : State α T} (h : Inv deadline s) {e : Entry α T} {t : T}
    (he : (e, t) ∈ s.left) : ∃ x, x.time ≤ e.time ∧ deadline x = t := by
  obtain ⟨before, after, hsplit⟩ := List.mem_iff_append.1 he
  obtain ⟨⟨x, hx, hxt⟩, -⟩ := h.leaves.split hsplit
  refine ⟨x, ?_, hxt⟩
  have hord := h.ordered
  rw [State.published, hsplit] at hord
  simp only [List.map_append, List.map_cons, List.append_assoc, List.pairwise_append] at hord
  rcases List.mem_append.1 hx with hx | hx
  · exact hord.2.2 _ (List.mem_map_of_mem hx) _ (by simp)
  · rw [List.mem_singleton] at hx
    exact hx ▸ le_rfl

/-- Every entry leaves exactly at its deadline if and only if no deadline comes after a later
one. -/
theorem Leaves.onTime_iff {left : List (Entry α T × T)} (h : Leaves deadline left) :
    (∀ x ∈ left, x.2 = deadline x.1) ↔ (left.map fun x => deadline x.1).Pairwise (· ≤ ·) := by
  induction h with
  | nil => simp
  | @snoc left e t h ht ih =>
    have hmem : (∀ x ∈ left ++ [(e, t)], x.2 = deadline x.1) ↔
        (∀ x ∈ left, x.2 = deadline x.1) ∧ t = deadline e := by
      simp [or_imp, forall_and]
    have hpair : ((left ++ [(e, t)]).map fun x => deadline x.1).Pairwise (· ≤ ·) ↔
        (left.map fun x => deadline x.1).Pairwise (· ≤ ·)
          ∧ ∀ x ∈ left, deadline x.1 ≤ deadline e := by
      rw [List.map_append, List.pairwise_append, List.forall_mem_map, List.map_singleton]
      simp only [List.pairwise_singleton, List.mem_singleton, forall_eq, true_and]
    rw [hmem, hpair, ih]
    refine and_congr_right fun _ => ⟨?_, ?_⟩
    · rintro rfl x hx
      exact ht.2 ⟨x.1, List.mem_append_left _ (List.mem_map_of_mem hx), rfl⟩
    · intro hle
      obtain ⟨⟨y, hy, rfl⟩, hub⟩ := ht
      refine le_antisymm ?_ (hub ⟨e, by simp, rfl⟩)
      rcases List.mem_append.1 hy with hy | hy
      · obtain ⟨x, hx, rfl⟩ := List.mem_map.1 hy
        exact hle x hx
      · rw [List.mem_singleton] at hy
        exact hy ▸ le_rfl

/-- While deadlines come in order, nothing waits beyond its own. -/
theorem Inv.not_overdue {s : State α T} (h : Inv deadline s)
    (hord : (s.published.map deadline).Pairwise (· ≤ ·)) {e : Entry α T} (he : e ∈ s.waiting) :
    s.now ≤ deadline e := by
  obtain ⟨now, _ | ⟨e', waiting⟩, left⟩ := s
  · cases he
  · obtain ⟨x, hx, hnow⟩ := h.head e' rfl
    refine hnow.trans ?_
    rw [State.published, show left.map Prod.fst ++ e' :: waiting =
      (left.map Prod.fst ++ [e']) ++ waiting by simp, List.map_append,
      List.pairwise_append] at hord
    rcases List.mem_cons.1 he with rfl | he
    · rcases List.mem_append.1 hx with hx | hx
      · have hle := hord.1
        rw [List.map_append, List.pairwise_append] at hle
        exact hle.2.2 _ (List.mem_map_of_mem hx) _ (by simp)
      · rw [List.mem_singleton] at hx
        exact hx ▸ le_rfl
    · exact hord.2.2 _ (List.mem_map_of_mem hx) _ (List.mem_map_of_mem he)

end

end TimedFifo
