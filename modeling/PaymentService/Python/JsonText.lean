import PaymentService.Python.Json
import PaymentService.Lib.PrefixCode
import Mathlib.Tactic.IntervalCases

/-!
# A JSON text has one value

The text of a value can be taken off the front of a longer text, so a text has one value
(`render_split`), and two values have one text exactly if they are the same up to the order of the
items of their `dict`s (`dumps_eq_iff`).
-/

namespace Python

open PrefixCode

namespace PyJson

/-! ## Strings -/

/-- The characters written with a backslash. -/
def special (m : Fin 34) : CodePoint :=
  if m.val < 32 then ⟨m.val, by omega⟩ else if m.val = 32 then .ofChar '"' else .ofChar '\\'

theorem escapeChar_special : ∀ m : Fin 34, (escapeChar (special m)).head? = some (.ofChar '\\')
    ∧ 2 ≤ (escapeChar (special m)).length := by
  decide +kernel

theorem special_inj : ∀ m n : Fin 34,
    escapeChar (special m) <+: escapeChar (special n) → m = n := by
  decide +kernel

/-- A character is written as it is or is one of the special ones. -/
theorem escapeChar_cases (c : CodePoint) : (∃ m, special m = c) ∨
    escapeChar c = [c] ∧ c ≠ .ofChar '"' ∧ c ≠ .ofChar '\\' := by
  by_cases hlt : c.val < 32
  · exact .inl ⟨⟨c.val, by omega⟩, by simp [special, hlt]⟩
  by_cases hquote : c = .ofChar '"'
  · exact .inl ⟨32, by rw [hquote]; rfl⟩
  by_cases hslash : c = .ofChar '\\'
  · exact .inl ⟨33, by rw [hslash]; rfl⟩
  refine .inr ⟨?_, hquote, hslash⟩
  have hne : ∀ d : Char, d.toNat < 32 → c ≠ .ofChar d := by
    rintro d hd rfl
    exact hlt hd
  rw [escapeChar, if_neg hquote, if_neg hslash, if_neg (hne _ (by decide)),
    if_neg (hne _ (by decide)), if_neg (hne _ (by decide)), if_neg (by omega), if_neg (by omega),
    if_neg hlt]

theorem escapeChar_ne_nil (c : CodePoint) : escapeChar c ≠ [] := by
  rcases escapeChar_cases c with ⟨m, rfl⟩ | ⟨h, -⟩
  · intro hnil
    have := (escapeChar_special m).2
    simp [hnil] at this
  · simp [h]

theorem escapeChar_head (c : CodePoint) : (escapeChar c).head? ≠ some (.ofChar '"') := by
  rcases escapeChar_cases c with ⟨m, rfl⟩ | ⟨h, hquote, -⟩
  · rw [(escapeChar_special m).1]
    decide
  · simpa [h] using hquote

theorem prefixFree_escapeChar : PrefixFree escapeChar := by
  intro c d h
  rcases escapeChar_cases c with ⟨m, rfl⟩ | ⟨hc, -, hslash⟩ <;>
    rcases escapeChar_cases d with ⟨n, rfl⟩ | ⟨hd, -⟩
  · rw [special_inj m n h]
  · have hle := h.length_le
    have htwo := (escapeChar_special m).2
    rw [hd, List.length_singleton] at hle
    omega
  · obtain ⟨r, hr⟩ := h
    have hhead := (escapeChar_special n).1
    rw [← hr, hc] at hhead
    exact absurd (Option.some.inj hhead) hslash
  · rw [hc, hd] at h
    simpa using h

theorem quote_split {s t u v : PyStr} (h : quote s ++ u = quote t ++ v) : s = t ∧ u = v := by
  simp only [quote, List.cons_append, List.append_assoc, List.cons.injEq, true_and,
    List.nil_append] at h
  exact prefixFree_escapeChar.flatMap_split escapeChar_ne_nil escapeChar_head h

theorem isText_escapeChar (c : CodePoint) :
    PyStr.isText (escapeChar c) = c.toChar?.isSome := by
  rcases escapeChar_cases c with ⟨m, rfl⟩ | ⟨h, -⟩
  · revert m
    decide +kernel
  · simp [h]

theorem isText_quote (s : PyStr) : PyStr.isText (quote s) = PyStr.isText s := by
  have hflat : PyStr.isText (s.flatMap escapeChar) = PyStr.isText s := by
    induction s with
    | nil => rfl
    | cons c s ih => rw [List.flatMap_cons, PyStr.isText_append, isText_escapeChar, ih]; rfl
  simp [quote, hflat]

/-! ## Numbers -/

def numberChars : List Char :=
  ['0', '1', '2', '3', '4', '5', '6', '7', '8', '9', '+', '-', '.', 'e']

def isNumberSymbol (c : CodePoint) : Bool := (lit numberChars).contains c

/-- What `float.__repr__` is relied on for, where the float is finite. -/
structure IsFloatRepr (floatRepr : BitVec 64 → List Char) : Prop where
  injective : ∀ x y, isFinite x → isFinite y → floatRepr x = floatRepr y → x = y
  chars : ∀ x, isFinite x → ∀ c ∈ floatRepr x, c ∈ numberChars
  marked : ∀ x, isFinite x → '.' ∈ floatRepr x ∨ 'e' ∈ floatRepr x

theorem lit_injective : Function.Injective lit :=
  List.map_injective_iff.2 CodePoint.ofChar_injective

theorem isNumberSymbol_lit {cs : List Char} (h : ∀ c ∈ cs, c ∈ numberChars) :
    ∀ c ∈ lit cs, isNumberSymbol c := by
  intro c hc
  obtain ⟨d, hd, rfl⟩ := List.mem_map.1 hc
  exact List.contains_iff_mem.2 (List.mem_map_of_mem (h d hd))

theorem mem_toChars {n : ℕ} {c : Char} (h : c ∈ Numeral.toChars n) :
    c ∈ numberChars ∧ c ≠ '.' ∧ c ≠ 'e' ∧ c ≠ '-' := by
  obtain ⟨d, hd, rfl⟩ := List.mem_map.1 h
  have hlt : d < 10 := Numeral.digitsOf_lt (by decide) hd
  interval_cases d <;> decide

theorem mem_intChars {i : ℤ} {c : Char} (h : c ∈ intChars i) :
    c ∈ numberChars ∧ c ≠ '.' ∧ c ≠ 'e' := by
  unfold intChars at h
  split_ifs at h
  · rcases List.mem_cons.1 h with rfl | h
    · decide
    · exact ⟨(mem_toChars h).1, (mem_toChars h).2.1, (mem_toChars h).2.2.1⟩
  · exact ⟨(mem_toChars h).1, (mem_toChars h).2.1, (mem_toChars h).2.2.1⟩

theorem intChars_ne_nil (i : ℤ) : intChars i ≠ [] := by
  unfold intChars
  split_ifs
  · simp
  · exact Numeral.toChars_ne_nil _

theorem intChars_injective : Function.Injective intChars := by
  intro i j h
  have hsign : ∀ {m n : ℕ}, '-' :: Numeral.toChars m ≠ Numeral.toChars n := by
    intro m n heq
    exact (mem_toChars (heq ▸ List.mem_cons_self)).2.2.2 rfl
  have habs : ∀ {m n : ℕ}, Numeral.toChars m = Numeral.toChars n → m = n := by
    intro m n heq
    rw [← Numeral.ofChars_toChars m, heq, Numeral.ofChars_toChars]
  unfold intChars at h
  split_ifs at h with hi hj hj
  · have := habs (List.cons.inj h).2
    omega
  · exact absurd h hsign
  · exact absurd h.symm hsign
  · have := habs h
    omega

section

variable {floatRepr : BitVec 64 → List Char}

theorem floatChars_of_finite {x : BitVec 64} (h : isFinite x) :
    floatChars floatRepr x = floatRepr x := if_pos h

theorem IsFloatRepr.ne_nil (hr : IsFloatRepr floatRepr) {x : BitVec 64} (h : isFinite x) :
    floatRepr x ≠ [] := by
  rcases hr.marked x h with hm | hm <;> exact List.ne_nil_of_mem hm

/-! ## The first symbol -/

/-- Which values a symbol starts; 6 for a number and 7 for none. -/
def symbolKind (c : CodePoint) : ℕ :=
  if c = .ofChar 'n' then 0
  else if c = .ofChar 't' then 1
  else if c = .ofChar 'f' then 2
  else if c = .ofChar '"' then 3
  else if c = .ofChar '[' then 4
  else if c = .ofChar '{' then 5
  else if isNumberSymbol c then 6
  else 7

def kind : PyJson → ℕ
  | .null => 0
  | .bool true => 1
  | .bool false => 2
  | .str _ => 3
  | .arr _ => 4
  | .obj _ => 5
  | .int _ | .float _ => 6

theorem symbolKind_number {c : Char} (h : c ∈ numberChars) : symbolKind (.ofChar c) = 6 := by
  have hall : numberChars.all (fun c => symbolKind (.ofChar c) = 6) = true := by decide +kernel
  exact of_decide_eq_true (List.all_eq_true.1 hall c h)

theorem number_head {cs : List Char} (hne : cs ≠ []) (h : ∀ c ∈ cs, c ∈ numberChars) :
    ∃ c r, lit cs = c :: r ∧ symbolKind c = 6 := by
  rcases cs with _ | ⟨c, cs⟩
  · exact absurd rfl hne
  · exact ⟨.ofChar c, lit cs, rfl, symbolKind_number (h c List.mem_cons_self)⟩

/-- The floats of a value are finite. -/
abbrev Finite (j : PyJson) : Prop := j.all (fun _ => true) isFinite = true

theorem render_head (hr : IsFloatRepr floatRepr) : ∀ {j : PyJson}, Finite j →
    ∃ c r, render floatRepr j = c :: r ∧ symbolKind c = kind j
  | .null, _ | .bool true, _ | .bool false, _ | .str _, _ | .arr _, _ | .obj _, _ =>
    ⟨_, _, rfl, rfl⟩
  | .int i, _ => by
    rw [render]
    exact number_head (intChars_ne_nil i) fun c hc => (mem_intChars hc).1
  | .float x, h => by
    have hx : isFinite x := h
    rw [render, floatChars_of_finite hx]
    exact number_head (hr.ne_nil hx) (hr.chars x hx)

/-! ## Values -/

/-- What may follow a value: not another symbol of a number. -/
def IsTail (s : PyStr) : Prop := ∀ c ∈ s.head?, ¬ isNumberSymbol c

theorem isTail_cons {c : Char} {s : PyStr} (h : ¬ isNumberSymbol (.ofChar c)) :
    IsTail (.ofChar c :: s) := by
  rintro d ⟨⟩
  exact h

theorem isTail_renderItems (xs : List PyJson) (s : PyStr) :
    IsTail (renderItems floatRepr false xs ++ s) := by
  cases xs <;> exact isTail_cons (by decide +kernel)

theorem isTail_renderFields (xs : List (PyStr × PyJson)) (s : PyStr) :
    IsTail (renderFields floatRepr false xs ++ s) := by
  rcases xs with _ | ⟨⟨k, x⟩, xs⟩ <;> exact isTail_cons (by decide +kernel)

theorem number_split {cs ds : List Char} {s t : PyStr} (hc : ∀ c ∈ cs, c ∈ numberChars)
    (hd : ∀ d ∈ ds, d ∈ numberChars) (hs : IsTail s) (ht : IsTail t)
    (h : lit cs ++ s = lit ds ++ t) : cs = ds ∧ s = t := by
  obtain ⟨hlit, hst⟩ := run_split (isNumberSymbol_lit hc) (isNumberSymbol_lit hd) hs ht h
  exact ⟨lit_injective hlit, hst⟩

/-- No float is written like an integer. -/
theorem intChars_ne_floatRepr (hr : IsFloatRepr floatRepr) {i : ℤ} {x : BitVec 64}
    (hx : isFinite x) : intChars i ≠ floatRepr x := by
  intro heq
  rcases hr.marked x hx with hm | hm <;> rw [← heq] at hm
  · exact (mem_intChars hm).2.1 rfl
  · exact (mem_intChars hm).2.2 rfl

theorem kind_eq (hr : IsFloatRepr floatRepr) {a b : PyJson} (ha : Finite a) (hb : Finite b)
    {s t : PyStr} (h : render floatRepr a ++ s = render floatRepr b ++ t) : kind a = kind b := by
  obtain ⟨c, r, hc, hca⟩ := render_head hr ha
  obtain ⟨d, q, hd, hdb⟩ := render_head hr hb
  rw [hc, hd] at h
  rw [← hca, ← hdb, (List.cons.inj h).1]

/-- A value does not start like what ends an array or separates items. -/
theorem render_ne_cons (hr : IsFloatRepr floatRepr) {a : PyJson} (ha : Finite a) {c : CodePoint}
    (hc : symbolKind c = 7) {s t : PyStr} : render floatRepr a ++ s ≠ c :: t := by
  obtain ⟨d, r, hd, hda⟩ := render_head hr ha
  rw [hd]
  intro h
  have hcd := (List.cons.inj h).1
  rw [hcd, hc] at hda
  cases a <;> try cases hda
  rename_i b
  cases b <;> cases hda

mutual

/-- The value a text starts with, and so its rest. -/
theorem render_split (hr : IsFloatRepr floatRepr) : ∀ {a b : PyJson} {s t : PyStr},
    Finite a → Finite b → IsTail s → IsTail t →
      render floatRepr a ++ s = render floatRepr b ++ t → a = b ∧ s = t
  | .null, b, s, t, ha, hb, hs, ht, h => by
    rcases b with _ | (_ | _) | _ | _ | _ | _ | _ <;> cases kind_eq hr ha hb h
    exact ⟨rfl, List.append_cancel_left h⟩
  | .bool true, b, s, t, ha, hb, hs, ht, h => by
    rcases b with _ | (_ | _) | _ | _ | _ | _ | _ <;> cases kind_eq hr ha hb h
    exact ⟨rfl, List.append_cancel_left h⟩
  | .bool false, b, s, t, ha, hb, hs, ht, h => by
    rcases b with _ | (_ | _) | _ | _ | _ | _ | _ <;> cases kind_eq hr ha hb h
    exact ⟨rfl, List.append_cancel_left h⟩
  | .int i, b, s, t, ha, hb, hs, ht, h => by
    rcases b with _ | (_ | _) | j | y | _ | _ | _ <;> cases kind_eq hr ha hb h
    · rw [render, render] at h
      obtain ⟨hij, hst⟩ :=
        number_split (fun _ hc => (mem_intChars hc).1) (fun _ hc => (mem_intChars hc).1) hs ht h
      exact ⟨congrArg _ (intChars_injective hij), hst⟩
    · have hy : isFinite y := hb
      rw [render, render, floatChars_of_finite hy] at h
      exact absurd (number_split (fun _ hc => (mem_intChars hc).1) (hr.chars y hy) hs ht h).1
        (intChars_ne_floatRepr hr hy)
  | .float x, b, s, t, ha, hb, hs, ht, h => by
    have hx : isFinite x := ha
    rcases b with _ | (_ | _) | j | y | _ | _ | _ <;> cases kind_eq hr ha hb h
    · rw [render, render, floatChars_of_finite hx] at h
      exact absurd (number_split (hr.chars x hx) (fun _ hc => (mem_intChars hc).1) hs ht h).1.symm
        (intChars_ne_floatRepr hr hx)
    · have hy : isFinite y := hb
      rw [render, render, floatChars_of_finite hx, floatChars_of_finite hy] at h
      obtain ⟨hxy, hst⟩ := number_split (hr.chars x hx) (hr.chars y hy) hs ht h
      exact ⟨congrArg _ (hr.injective x y hx hy hxy), hst⟩
  | .str u, b, s, t, ha, hb, hs, ht, h => by
    rcases b with _ | (_ | _) | _ | _ | v | _ | _ <;> cases kind_eq hr ha hb h
    obtain ⟨huv, hst⟩ := quote_split h
    exact ⟨congrArg _ huv, hst⟩
  | .arr xs, b, s, t, ha, hb, hs, ht, h => by
    rcases b with _ | (_ | _) | _ | _ | _ | ys | _ <;> cases kind_eq hr ha hb h
    obtain ⟨hxy, hst⟩ := renderItems_split hr ha hb (List.cons.inj h).2
    exact ⟨congrArg _ hxy, hst⟩
  | .obj fs, b, s, t, ha, hb, hs, ht, h => by
    rcases b with _ | (_ | _) | _ | _ | _ | _ | gs <;> cases kind_eq hr ha hb h
    obtain ⟨hfg, hst⟩ := renderFields_split hr ha hb (List.cons.inj h).2
    exact ⟨congrArg _ hfg, hst⟩

theorem renderItems_split (hr : IsFloatRepr floatRepr) : ∀ {xs ys : List PyJson} {s t : PyStr}
    {first : Bool}, itemsAll (fun _ => true) isFinite xs → itemsAll (fun _ => true) isFinite ys →
      renderItems floatRepr first xs ++ s = renderItems floatRepr first ys ++ t → xs = ys ∧ s = t
  | [], [], s, t, first, hx, hy, h => ⟨rfl, List.append_cancel_left h⟩
  | [], y :: ys, s, t, first, hx, hy, h => by
    simp only [itemsAll, Bool.and_eq_true] at hy
    cases first
    · exact absurd (List.cons.inj h).1 (by decide +kernel)
    · rw [renderItems, renderItems, List.append_assoc, List.append_assoc] at h
      exact absurd h.symm (render_ne_cons hr hy.1 (by decide +kernel))
  | x :: xs, [], s, t, first, hx, hy, h => by
    simp only [itemsAll, Bool.and_eq_true] at hx
    cases first
    · exact absurd (List.cons.inj h).1 (by decide +kernel)
    · rw [renderItems, renderItems, List.append_assoc, List.append_assoc] at h
      exact absurd h (render_ne_cons hr hx.1 (by decide +kernel))
  | x :: xs, y :: ys, s, t, first, hx, hy, h => by
    simp only [itemsAll, Bool.and_eq_true] at hx hy
    rw [renderItems, renderItems, List.append_assoc, List.append_assoc, List.append_assoc,
      List.append_assoc] at h
    obtain ⟨hxy, hrest⟩ := render_split hr hx.1 hy.1 (isTail_renderItems xs s)
      (isTail_renderItems ys t) (List.append_cancel_left h)
    obtain ⟨htail, hst⟩ := renderItems_split hr hx.2 hy.2 hrest
    exact ⟨by rw [hxy, htail], hst⟩

theorem renderFields_split (hr : IsFloatRepr floatRepr) : ∀ {fs gs : List (PyStr × PyJson)}
    {s t : PyStr} {first : Bool}, fieldsAll (fun _ => true) isFinite fs →
      fieldsAll (fun _ => true) isFinite gs →
      renderFields floatRepr first fs ++ s = renderFields floatRepr first gs ++ t →
      fs = gs ∧ s = t
  | [], [], s, t, first, hf, hg, h => ⟨rfl, List.append_cancel_left h⟩
  | [], (k, y) :: gs, s, t, first, hf, hg, h => by
    cases first <;> exact absurd (List.cons.inj h).1 (by decide +kernel)
  | (k, x) :: fs, [], s, t, first, hf, hg, h => by
    cases first <;> exact absurd (List.cons.inj h).1 (by decide +kernel)
  | (k, x) :: fs, (l, y) :: gs, s, t, first, hf, hg, h => by
    simp only [fieldsAll, Bool.and_eq_true] at hf hg
    simp only [renderFields, List.append_assoc, List.cons_append] at h
    obtain ⟨hkl, hvalue⟩ := quote_split (List.append_cancel_left h)
    obtain ⟨hxy, hrest⟩ := render_split hr hf.1.2 hg.1.2 (isTail_renderFields fs s)
      (isTail_renderFields gs t) (List.cons.inj hvalue).2
    obtain ⟨htail, hst⟩ := renderFields_split hr hf.2 hg.2 hrest
    exact ⟨by rw [hkl, hxy, htail], hst⟩

end

/-! ## Surrogates -/

mutual

/-- A text has the lone surrogates of its strings. -/
theorem isText_render : ∀ j : PyJson,
    PyStr.isText (render floatRepr j) = j.all PyStr.isText fun _ => true
  | .null | .bool true | .bool false => by simp [render, all, lit]
  | .int _ | .float _ => by simp [render, all, lit]
  | .str s => by rw [render, isText_quote, all]
  | .arr xs => by simp [render, all, isText_renderItems]
  | .obj fs => by simp [render, all, isText_renderFields]

theorem isText_renderItems : ∀ (first : Bool) (xs : List PyJson),
    PyStr.isText (renderItems floatRepr first xs) = itemsAll PyStr.isText (fun _ => true) xs
  | _, [] => by simp [renderItems, itemsAll]
  | first, x :: xs => by
    cases first <;> simp [renderItems, itemsAll, comma, isText_render x, isText_renderItems]

theorem isText_renderFields : ∀ (first : Bool) (fs : List (PyStr × PyJson)),
    PyStr.isText (renderFields floatRepr first fs) = fieldsAll PyStr.isText (fun _ => true) fs
  | _, [] => by simp [renderFields, fieldsAll]
  | first, (k, x) :: fs => by
    cases first <;> simp [renderFields, fieldsAll, comma, isText_quote, isText_render x,
      isText_renderFields, Bool.and_assoc]

end

end

end PyJson

end Python
