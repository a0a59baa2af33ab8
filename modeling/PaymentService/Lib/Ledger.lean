import Mathlib.Data.List.Basic
import Mathlib.Logic.Function.Basic

/-!
# A ledger

Entries are opened under a key of their own and settled once. What a ledger tells of an entry it
has when it tells it: the whole entry, settled or not, to whoever asks by the key, and the outcome
to whom it concerns. So all that is ever told of an entry agrees with what it says in the end
(`Runs.agrees`).
-/

namespace Ledger

variable {ι κ δ ω : Type*}

/-- What an entry was opened with, and its outcome once it is settled. -/
structure Entry (κ δ ω : Type*) where
  key : κ
  data : δ
  outcome : Option ω

abbrev Book (ι κ δ ω : Type*) := ι → Option (Entry κ δ ω)

inductive Event (ι κ δ ω : Type*)
  | opened (id : ι) (key : κ) (data : δ)
  | settled (id : ι) (outcome : ω)
  | quoted (id : ι) (key : κ) (data : δ) (outcome : Option ω)
  | told (id : ι) (data : δ) (outcome : Option ω)

/-! ## Entries grow, and events agree with them -/

/-- An entry later on: the same, or settled where it was open. -/
structure Entry.Grows (e e' : Entry κ δ ω) : Prop where
  key : e'.key = e.key
  data : e'.data = e.data
  outcome : e.outcome ≠ none → e'.outcome = e.outcome

theorem Entry.Grows.refl (e : Entry κ δ ω) : e.Grows e := ⟨rfl, rfl, fun _ => rfl⟩

theorem Entry.Grows.trans {e e' e'' : Entry κ δ ω} (h : e.Grows e') (h' : e'.Grows e'') :
    e.Grows e'' where
  key := h'.key.trans h.key
  data := h'.data.trans h.data
  outcome hsettled := by
    have hsame := h.outcome hsettled
    exact (h'.outcome (hsame ▸ hsettled)).trans hsame

/-- The event agrees with the entries of a book. -/
def Event.Agrees (b : Book ι κ δ ω) : Event ι κ δ ω → Prop
  | .opened id key data => ∃ e, b id = some e ∧ e.key = key ∧ e.data = data
  | .settled id outcome => ∃ e, b id = some e ∧ e.outcome = some outcome
  | .quoted id key data outcome => ∃ e, b id = some e ∧ e.key = key ∧ e.data = data
      ∧ (outcome ≠ none → e.outcome = outcome)
  | .told id data outcome => ∃ e, b id = some e ∧ e.data = data ∧ e.outcome = outcome
      ∧ outcome ≠ none

/-- No ledger has the two, in this order or the other. -/
def Event.Clashes : Event ι κ δ ω → Event ι κ δ ω → Prop
  | .opened id key _, .opened id' key' _ => id = id' ∨ key = key'
  | .settled id _, .settled id' _ => id = id'
  | _, _ => False

theorem Event.Agrees.later {b b₁ : Book ι κ δ ω} {x : Event ι κ δ ω} (h : x.Agrees b)
    (hgrows : ∀ id e, b id = some e → ∃ e', b₁ id = some e' ∧ e.Grows e') : x.Agrees b₁ := by
  cases x with
  | opened id key data =>
    obtain ⟨e, he, hkey, hdata⟩ := h
    obtain ⟨e', he', hg⟩ := hgrows id e he
    exact ⟨e', he', hg.key.trans hkey, hg.data.trans hdata⟩
  | settled id outcome =>
    obtain ⟨e, he, ho⟩ := h
    obtain ⟨e', he', hg⟩ := hgrows id e he
    exact ⟨e', he', (hg.outcome (by simp [ho])).trans ho⟩
  | quoted id key data outcome =>
    obtain ⟨e, he, hkey, hdata, ho⟩ := h
    obtain ⟨e', he', hg⟩ := hgrows id e he
    refine ⟨e', he', hg.key.trans hkey, hg.data.trans hdata, fun hsettled => ?_⟩
    exact (hg.outcome (ho hsettled ▸ hsettled)).trans (ho hsettled)
  | told id data outcome =>
    obtain ⟨e, he, hdata, ho, hsettled⟩ := h
    obtain ⟨e', he', hg⟩ := hgrows id e he
    exact ⟨e', he', hg.data.trans hdata, (hg.outcome (ho ▸ hsettled)).trans ho, hsettled⟩

/-! ## Steps -/

section

variable [DecidableEq ι]

inductive Step : Book ι κ δ ω → Event ι κ δ ω → Book ι κ δ ω → Prop
  | opened {b : Book ι κ δ ω} {id : ι} {key : κ} {data : δ} (hid : b id = none)
    (hkey : ∀ i e, b i = some e → e.key ≠ key) :
    Step b (.opened id key data) (Function.update b id (some ⟨key, data, none⟩))
  | settled {b : Book ι κ δ ω} {id : ι} {e : Entry κ δ ω} {outcome : ω} (he : b id = some e)
    (hopen : e.outcome = none) :
    Step b (.settled id outcome) (Function.update b id (some { e with outcome := some outcome }))
  | quoted {b : Book ι κ δ ω} {id : ι} {e : Entry κ δ ω} (he : b id = some e) :
    Step b (.quoted id e.key e.data e.outcome) b
  | told {b : Book ι κ δ ω} {id : ι} {e : Entry κ δ ω} (he : b id = some e)
    (hsettled : e.outcome ≠ none) : Step b (.told id e.data e.outcome) b

inductive Runs : Book ι κ δ ω → List (Event ι κ δ ω) → Book ι κ δ ω → Prop
  | nil {b : Book ι κ δ ω} : Runs b [] b
  | cons {b b₁ b₂ : Book ι κ δ ω} {x : Event ι κ δ ω} {l : List (Event ι κ δ ω)}
    (h : Step b x b₁) (hrest : Runs b₁ l b₂) : Runs b (x :: l) b₂

variable {b b₁ b₂ : Book ι κ δ ω} {x : Event ι κ δ ω} {l l' : List (Event ι κ δ ω)}

theorem Runs.single (h : Step b x b₁) : Runs b [x] b₁ := .cons h .nil

theorem Runs.append (h : Runs b l b₁) (h' : Runs b₁ l' b₂) : Runs b (l ++ l') b₂ := by
  induction h with
  | nil => exact h'
  | cons hstep _ ih => exact .cons hstep (ih h')

theorem Step.grows (h : Step b x b₁) {id : ι} {e : Entry κ δ ω} (he : b id = some e) :
    ∃ e', b₁ id = some e' ∧ e.Grows e' := by
  cases h with
  | @opened i key data hid hkey =>
    have hne : id ≠ i := by
      rintro rfl
      rw [hid] at he
      cases he
    exact ⟨e, by rw [Function.update_of_ne hne, he], .refl e⟩
  | @settled i f outcome hf hopen =>
    by_cases hid : id = i
    · subst hid
      obtain rfl : f = e := Option.some.inj (hf.symm.trans he)
      exact ⟨_, Function.update_self _ _ _, rfl, rfl, fun hsettled => absurd hopen hsettled⟩
    · exact ⟨e, by rw [Function.update_of_ne hid, he], .refl e⟩
  | quoted | told => exact ⟨e, he, .refl e⟩

theorem Runs.grows (h : Runs b l b₁) {id : ι} {e : Entry κ δ ω} (he : b id = some e) :
    ∃ e', b₁ id = some e' ∧ e.Grows e' := by
  induction h generalizing e with
  | nil => exact ⟨e, he, .refl e⟩
  | cons hstep _ ih =>
    obtain ⟨e₁, he₁, hgrows⟩ := hstep.grows he
    obtain ⟨e₂, he₂, hgrows'⟩ := ih he₁
    exact ⟨e₂, he₂, hgrows.trans hgrows'⟩

theorem Step.agrees (h : Step b x b₁) : x.Agrees b₁ := by
  cases h with
  | opened hid hkey => exact ⟨_, Function.update_self _ _ _, rfl, rfl⟩
  | settled he hopen => exact ⟨_, Function.update_self _ _ _, rfl⟩
  | quoted he => exact ⟨_, he, rfl, rfl, fun _ => rfl⟩
  | told he hsettled => exact ⟨_, he, rfl, rfl, hsettled⟩

/-- Whatever was ever opened, settled or told agrees with the book in the end. -/
theorem Runs.agrees (h : Runs b l b₁) : ∀ x ∈ l, x.Agrees b₁ := by
  induction h with
  | nil => simp
  | cons hstep hrest ih =>
    rintro y hy
    rcases List.mem_cons.1 hy with rfl | hy
    · exact hstep.agrees.later fun _ _ he => hrest.grows he
    · exact ih y hy

/-- What a book has entries of does not happen again. -/
theorem Step.not_clashes {y : Event ι κ δ ω} (hx : x.Agrees b) (h : Step b y b₁) :
    ¬ x.Clashes y := by
  intro hclash
  cases h with
  | @opened id key data hid hkey =>
    cases x with
    | opened i k d =>
      obtain ⟨e, he, hk, -⟩ := hx
      rcases hclash with rfl | rfl
      · rw [hid] at he
        cases he
      · exact hkey i e he hk
    | settled | quoted | told => cases hclash
  | @settled id e outcome he hopen =>
    cases x with
    | settled i o =>
      obtain ⟨e', he', ho⟩ := hx
      obtain rfl : i = id := hclash
      rw [he, Option.some_inj] at he'
      rw [← he', hopen] at ho
      cases ho
    | opened | quoted | told => cases hclash
  | quoted | told => cases x <;> cases hclash

/-- No id and no key is opened twice, and no entry is settled twice. -/
theorem Runs.once (h : Runs b l b₁) : l.Pairwise fun x y => ¬ x.Clashes y := by
  have hrest : ∀ {b b₁ : Book ι κ δ ω} {l : List (Event ι κ δ ω)} {x : Event ι κ δ ω},
      x.Agrees b → Runs b l b₁ → ∀ y ∈ l, ¬ x.Clashes y := by
    intro b b₁ l x hx h
    induction h with
    | nil => simp
    | cons hstep _ ih =>
      rintro y hy
      rcases List.mem_cons.1 hy with rfl | hy
      · exact hstep.not_clashes hx
      · exact ih (hx.later fun _ _ he => hstep.grows he) y hy
  induction h with
  | nil => exact .nil
  | cons hstep hruns ih => exact .cons (hrest hstep.agrees hruns) ih

end

end Ledger
