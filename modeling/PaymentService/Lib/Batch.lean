import Mathlib.Data.Finset.Card
import Mathlib.Order.Basic

/-!
# Batches of the oldest items

Each pass takes the oldest pending items, as many as fit into a batch, and the items that are not
stuck leave. While fewer stuck items than fit are as old as any other item, every pass makes one of
the others leave (`exists_not_stuck`), so they have all left after as many passes as there were
(`drained`). An item behind a batch of stuck ones is never taken (`not_mem_take`).
-/

namespace Batch

variable {α κ : Type*} [LinearOrder κ] {key : α → κ} {B : ℕ}

/-- The batch holds the oldest of the pending items, as many as fit. -/
structure IsOldest (key : α → κ) (B : ℕ) (pending batch : Finset α) : Prop where
  subset : batch ⊆ pending
  card : batch.card = min B pending.card
  oldest : ∀ a ∈ batch, ∀ b ∈ pending, b ∉ batch → key a ≤ key b

section

variable [DecidableEq α]

theorem isOldest_take {l : List α} (hnodup : l.Nodup)
    (hsorted : l.Pairwise fun a b => key a ≤ key b) :
    IsOldest key B l.toFinset (l.take B).toFinset := by
  refine ⟨fun a ha => ?_, ?_, fun a ha b hb hnot => ?_⟩
  · exact List.mem_toFinset.2 (List.mem_of_mem_take (List.mem_toFinset.1 ha))
  · rw [List.toFinset_card_of_nodup hnodup,
      List.toFinset_card_of_nodup (hnodup.sublist (List.take_sublist _ _)), List.length_take]
  · rw [List.mem_toFinset] at ha hb hnot
    have hdrop : b ∈ l.drop B := by
      rw [← List.take_append_drop B l, List.mem_append] at hb
      exact hb.resolve_left hnot
    rw [← List.take_append_drop B l, List.pairwise_append] at hsorted
    exact hsorted.2.2 a ha b hdrop

/-- An item that a batch of others comes before is not taken. -/
theorem not_mem_take {le : α → α → Prop} {l : List α} (hnodup : l.Nodup)
    (hsorted : l.Pairwise le) {g : α} {ahead : Finset α}
    (hahead : ∀ b ∈ ahead, b ∈ l ∧ b ≠ g ∧ ¬ le g b) (hcard : B ≤ ahead.card) :
    g ∉ l.take B := by
  intro hg
  have hsub : insert g ahead ⊆ (l.take B).toFinset := by
    intro b hb
    rw [List.mem_toFinset]
    rcases Finset.mem_insert.1 hb with rfl | hb
    · exact hg
    · obtain ⟨hbl, -, hnle⟩ := hahead b hb
      rw [← List.take_append_drop B l, List.mem_append] at hbl
      refine hbl.resolve_right fun hdrop => hnle ?_
      rw [← List.take_append_drop B l, List.pairwise_append] at hsorted
      exact hsorted.2.2 g hg b hdrop
  have hle := Finset.card_le_card hsub
  rw [Finset.card_insert_of_notMem fun h => (hahead g h).2.1 rfl,
    List.toFinset_card_of_nodup (hnodup.sublist (List.take_sublist _ _)), List.length_take] at hle
  omega

end

section

variable {stuck : α → Prop} [DecidablePred stuck] {pending batch : Finset α}

/-- Fewer stuck items than fit into a batch are as old as any item that is not stuck. -/
def HasRoom (key : α → κ) (B : ℕ) (stuck : α → Prop) [DecidablePred stuck]
    (pending : Finset α) : Prop :=
  ∀ g ∈ pending, ¬ stuck g → (pending.filter fun b => stuck b ∧ key b ≤ key g).card < B

theorem IsOldest.exists_not_stuck (h : IsOldest key B pending batch)
    (hroom : HasRoom key B stuck pending) (hleft : ∃ g ∈ pending, ¬ stuck g) :
    ∃ g ∈ batch, ¬ stuck g := by
  by_contra hall
  push Not at hall
  obtain ⟨g, hg, hgood⟩ := hleft
  have hout : g ∉ batch := fun hin => hgood (hall g hin)
  have hsub : batch ⊆ pending.filter fun b => stuck b ∧ key b ≤ key g := fun b hb =>
    Finset.mem_filter.2 ⟨h.subset hb, hall b hb, h.oldest b hb g hg hout⟩
  have hlt : batch.card < pending.card :=
    Finset.card_lt_card ⟨h.subset, fun hle => hout (hle hg)⟩
  have hle := Finset.card_le_card hsub
  have := hroom g hg hgood
  have := h.card
  omega

variable [DecidableEq α]

/-- What is still pending after a pass. -/
def remaining (stuck : α → Prop) [DecidablePred stuck] (pending batch : Finset α) : Finset α :=
  pending.filter fun a => a ∈ batch → stuck a

theorem HasRoom.remaining (h : HasRoom key B stuck pending) (batch : Finset α) :
    HasRoom key B stuck (remaining stuck pending batch) := by
  intro g hg hgood
  refine lt_of_le_of_lt (Finset.card_le_card ?_) (h g (Finset.mem_filter.1 hg).1 hgood)
  exact Finset.filter_subset_filter _ (Finset.filter_subset _ _)

/-- The items that can leave and have not. -/
def leaving (stuck : α → Prop) [DecidablePred stuck] (pending : Finset α) : Finset α :=
  pending.filter fun a => ¬ stuck a

theorem leaving_remaining_lt (h : IsOldest key B pending batch)
    (hroom : HasRoom key B stuck pending) (hleft : (leaving stuck pending).Nonempty) :
    (leaving stuck (remaining stuck pending batch)).card < (leaving stuck pending).card := by
  obtain ⟨g, hg⟩ := hleft
  obtain ⟨hg, hgood⟩ := Finset.mem_filter.1 hg
  obtain ⟨a, ha, hagood⟩ := h.exists_not_stuck hroom ⟨g, hg, hgood⟩
  refine Finset.card_lt_card
    ⟨Finset.filter_subset_filter _ (Finset.filter_subset _ _), fun hle => ?_⟩
  have hmem := hle (Finset.mem_filter.2 ⟨h.subset ha, hagood⟩)
  exact hagood ((Finset.mem_filter.1 (Finset.mem_filter.1 hmem).1).2 ha)

/-- After as many passes as there were items to leave, they have left. -/
theorem drained (key : α → κ) (B : ℕ) (stuck : α → Prop) [DecidablePred stuck]
    {pending batch : ℕ → Finset α} (hbatch : ∀ i, IsOldest key B (pending i) (batch i))
    (hnext : ∀ i, pending (i + 1) = remaining stuck (pending i) (batch i))
    (hroom : HasRoom key B stuck (pending 0)) {n : ℕ} (hn : (leaving stuck (pending 0)).card ≤ n) :
    ∀ a ∈ pending n, stuck a := by
  have hrooms : ∀ i, HasRoom key B stuck (pending i) := by
    intro i
    induction i with
    | zero => exact hroom
    | succ i ih => exact hnext i ▸ ih.remaining _
  have hcard : ∀ i, (leaving stuck (pending i)).card ≤ (leaving stuck (pending 0)).card - i := by
    intro i
    induction i with
    | zero => exact le_refl _
    | succ i ih =>
      rw [hnext]
      rcases (leaving stuck (pending i)).eq_empty_or_nonempty with hempty | hleft
      · have hsub : leaving stuck (remaining stuck (pending i) (batch i)) ⊆
            leaving stuck (pending i) :=
          Finset.filter_subset_filter _ (Finset.filter_subset _ _)
        rw [hempty, Finset.subset_empty] at hsub
        simp [hsub]
      · have := leaving_remaining_lt (hbatch i) (hrooms i) hleft
        omega
  intro a ha
  by_contra hgood
  have hpos : 0 < (leaving stuck (pending n)).card :=
    Finset.card_pos.2 ⟨a, Finset.mem_filter.2 ⟨ha, hgood⟩⟩
  have := hcard n
  omega

end

/-! ## Batches that leave whole -/

section

variable [DecidableEq α] {pending : ℕ → Finset α} {taken : ℕ → List α}

/-- Each pass takes a batch of the oldest, in order, and the whole batch leaves. -/
structure Takes (key : α → κ) (B : ℕ) (pending : ℕ → Finset α) (taken : ℕ → List α) : Prop where
  sorted : ∀ i, (taken i).Pairwise fun a b => a ≠ b ∧ key a ≤ key b
  oldest : ∀ i, IsOldest key B (pending i) (taken i).toFinset
  next : ∀ i, pending (i + 1) = pending i \ (taken i).toFinset

namespace Takes

variable (h : Takes key B pending taken)
include h

theorem card_pending : ∀ i, (pending i).card = (pending 0).card - i * B
  | 0 => by simp
  | i + 1 => by
    rw [h.next, Finset.card_sdiff_of_subset (h.oldest i).subset, (h.oldest i).card,
      card_pending i, Nat.add_mul]
    omega

theorem length_taken (i : ℕ) : (taken i).length = min B ((pending 0).card - i * B) := by
  rw [← h.card_pending, ← (h.oldest i).card, List.toFinset_card_of_nodup
    ((h.sorted i).imp And.left)]

theorem mem_pending_iff (n : ℕ) {a : α} :
    a ∈ pending 0 ↔ a ∈ (List.range n).flatMap taken ∨ a ∈ pending n := by
  induction n with
  | zero => simp
  | succ n ih =>
    have hsub : a ∈ taken n → a ∈ pending n := fun ha =>
      (h.oldest n).subset (List.mem_toFinset.2 ha)
    rw [ih, List.range_succ, List.flatMap_append, List.mem_append, h.next, Finset.mem_sdiff,
      List.mem_toFinset]
    simp only [List.flatMap_cons, List.flatMap_nil, List.append_nil]
    tauto

theorem pending_subset {i j : ℕ} (hij : i ≤ j) : pending j ⊆ pending i := by
  induction hij with
  | refl => exact fun _ ha => ha
  | step _ ih => exact (h.next _ ▸ Finset.sdiff_subset).trans ih

/-- Over any number of passes the oldest come first, and nothing comes twice. -/
theorem sorted_flatMap (n : ℕ) :
    ((List.range n).flatMap taken).Pairwise fun a b => a ≠ b ∧ key a ≤ key b := by
  refine List.pairwise_flatMap.2 ⟨fun i _ => h.sorted i, ?_⟩
  refine List.pairwise_lt_range.imp fun {i j} hij a ha b hb => ?_
  have hlater : b ∈ pending (i + 1) :=
    h.pending_subset hij ((h.oldest j).subset (List.mem_toFinset.2 hb))
  rw [h.next, Finset.mem_sdiff] at hlater
  have hmem : a ∈ (taken i).toFinset := List.mem_toFinset.2 ha
  exact ⟨fun he => hlater.2 (he ▸ hmem), (h.oldest i).oldest a hmem b hlater.1 hlater.2⟩

end Takes

end

end Batch
