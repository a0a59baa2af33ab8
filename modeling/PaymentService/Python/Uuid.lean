import PaymentService.Python.Text

/-!
# `uuid.UUID`

A UUID is a 128-bit number. Its text is 32 hexadecimal digits in five groups; the constructor
also takes braces, a `urn:uuid:` in front and hyphens anywhere, and reads back what `str` writes
(`ofText_str`).
-/

namespace Python

structure UUID where
  int : ℕ
  lt : int < 2 ^ 128
deriving DecidableEq, Repr

namespace UUID

/-- The UUIDs of small numbers, as `UUID(int=n)`. -/
instance (n : ℕ) : OfNat UUID n := ⟨n % 2 ^ 128, Nat.mod_lt n (Nat.two_pow_pos 128)⟩

theorem toNat_lt {i : ℤ} (h : 0 ≤ i ∧ i < 2 ^ 128) : i.toNat < 2 ^ 128 := by omega

def hex (u : UUID) : List Char := (Numeral.fixedDigits 16 32 u.int).map Nat.digitChar

/-- The groups of 8, 4, 4, 4 and 12 digits. -/
def hyphenate (h : List Char) : List Char :=
  h.take 8 ++ '-' :: ((h.drop 8).take 4 ++ '-' :: ((h.drop 12).take 4 ++ '-' ::
    ((h.drop 16).take 4 ++ '-' :: h.drop 20)))

def str (u : UUID) : String := String.ofList (hyphenate u.hex)

/-- `text.replace(pat, "")`; `skip` characters are still inside an occurrence. -/
def removeFrom (pat : List Char) : ℕ → List Char → List Char
  | _, [] => []
  | 0, c :: cs =>
    if pat.isPrefixOf (c :: cs) then removeFrom pat (pat.length - 1) cs
    else c :: removeFrom pat 0 cs
  | skip + 1, _ :: cs => removeFrom pat skip cs

def isBrace (c : Char) : Bool := c = '{' || c = '}'

def digitsIn (text : String) : List Char :=
  let bare := removeFrom ['u', 'u', 'i', 'd', ':'] 0 (removeFrom ['u', 'r', 'n', ':'] 0 text.toList)
  (stripBy isBrace bare).filter (· ≠ '-')

/-- `UUID(text)`, with the text of its `ValueError`. -/
def ofText (text : String) : Except String UUID :=
  if (digitsIn text).length ≠ 32 then .error "badly formed hexadecimal UUID string"
  else
    match intOf 16 (digitsIn text) with
    | none => .error ("invalid literal for int() with base 16: '" ++ String.ofList (digitsIn text)
        ++ "'")
    | some i =>
      if h : 0 ≤ i ∧ i < 2 ^ 128 then .ok ⟨i.toNat, toNat_lt h⟩
      else .error "int is out of range (need a 128-bit value)"

/-! ## Reading what `str` writes -/

theorem removeFrom_eq_self {pat : List Char} : ∀ {cs : List Char},
    (∀ c ∈ cs, pat.head? ≠ some c) → pat ≠ [] → removeFrom pat 0 cs = cs
  | [], _, _ => by simp [removeFrom]
  | c :: cs, h, hne => by
    obtain ⟨p, pat, rfl⟩ := List.exists_cons_of_ne_nil hne
    have hc : p ≠ c := by simpa using h c List.mem_cons_self
    rw [removeFrom, if_neg (by simp [List.isPrefixOf, hc]),
      removeFrom_eq_self (fun d hd => h d (List.mem_cons_of_mem _ hd)) hne]

theorem mem_hyphenate {h : List Char} {c : Char} (hc : c ∈ hyphenate h) : c ∈ h ∨ c = '-' := by
  simp only [hyphenate, List.mem_append, List.mem_cons] at hc
  rcases hc with hc | rfl | hc | rfl | hc | rfl | hc | rfl | hc
  · exact .inl (List.mem_of_mem_take hc)
  · exact .inr rfl
  · exact .inl (List.mem_of_mem_drop (List.mem_of_mem_take hc))
  · exact .inr rfl
  · exact .inl (List.mem_of_mem_drop (List.mem_of_mem_take hc))
  · exact .inr rfl
  · exact .inl (List.mem_of_mem_drop (List.mem_of_mem_take hc))
  · exact .inr rfl
  · exact .inl (List.mem_of_mem_drop hc)

theorem filter_hyphenate {h : List Char} (hh : ∀ c ∈ h, c ≠ '-') :
    (hyphenate h).filter (· ≠ '-') = h := by
  have hfilter : ∀ {cs : List Char}, (∀ c ∈ cs, c ∈ h) → cs.filter (· ≠ '-') = cs := by
    intro cs hcs
    exact List.filter_eq_self.2 fun c hc => by simpa using hh c (hcs c hc)
  have hdrop : ∀ n, ∀ c ∈ h.drop n, c ∈ h := fun _ _ hc => List.mem_of_mem_drop hc
  have htake : ∀ n k, ∀ c ∈ (h.drop n).take k, c ∈ h :=
    fun n _ c hc => hdrop n c (List.mem_of_mem_take hc)
  have hsplit : ∀ n k, (h.drop n).take k ++ h.drop (n + k) = h.drop n := by
    intro n k
    rw [← List.drop_drop, List.take_append_drop]
  simp only [hyphenate, List.filter_append, List.filter_cons, ne_eq, not_true_eq_false,
    decide_false, Bool.false_eq_true, if_false]
  have h0 := @hfilter (h.take 8) fun _ hc => List.mem_of_mem_take hc
  have h1 := hfilter (htake 8 4)
  have h2 := hfilter (htake 12 4)
  have h3 := hfilter (htake 16 4)
  have h4 := hfilter (hdrop 20)
  simp only [ne_eq] at h0 h1 h2 h3 h4
  rw [h0, h1, h2, h3, h4, hsplit 16 4, hsplit 12 4, hsplit 8 4, List.take_append_drop]

theorem hex_plain (u : UUID) : ∀ c ∈ u.hex, c ∉ ['-', '+', '_', 'x', 'X', 'u', '{', '}'] := by
  intro c hc
  obtain ⟨d, hd, rfl⟩ := List.mem_map.1 hc
  exact (digitChar_plain (Numeral.fixedDigits_lt (by decide) hd)).1

theorem digitsIn_str (u : UUID) : digitsIn u.str = u.hex := by
  have hplain := hex_plain u
  simp only [List.mem_cons, List.not_mem_nil, or_false, not_or] at hplain
  have hu : ∀ c ∈ hyphenate u.hex, 'u' ≠ c := by
    intro c hc
    rcases mem_hyphenate hc with hc | rfl
    · exact fun h => (hplain c hc).2.2.2.2.2.1 h.symm
    · decide
  have hbrace : ∀ c ∈ hyphenate u.hex, ¬ isBrace c := by
    intro c hc
    rcases mem_hyphenate hc with hc | rfl
    · simp only [isBrace, Bool.or_eq_true, decide_eq_true_eq]
      exact not_or.2 ⟨(hplain c hc).2.2.2.2.2.2.1, (hplain c hc).2.2.2.2.2.2.2⟩
    · decide
  have hurn : removeFrom ['u', 'r', 'n', ':'] 0 (hyphenate u.hex) = hyphenate u.hex :=
    removeFrom_eq_self (fun c hc h => hu c hc (Option.some.inj h)) (by decide)
  have huuid : removeFrom ['u', 'u', 'i', 'd', ':'] 0 (hyphenate u.hex) = hyphenate u.hex :=
    removeFrom_eq_self (fun c hc h => hu c hc (Option.some.inj h)) (by decide)
  simp only [digitsIn, str, String.toList_ofList, hurn, huuid, stripBy_eq_self hbrace]
  exact filter_hyphenate fun c hc => (hplain c hc).1

theorem ofText_str (u : UUID) : ofText u.str = .ok u := by
  have hlen : u.hex.length = 32 := by simp [hex]
  have hint : intOf 16 u.hex = some (u.int : ℤ) := by
    have hlt : u.int < 16 ^ 32 := u.lt
    have hne : Numeral.fixedDigits 16 32 u.int ≠ [] :=
      List.ne_nil_of_length_pos (by rw [Numeral.length_fixedDigits]; decide)
    rw [hex, intOf_map_digitChar (le_refl 16) hne
      (fun d hd => Numeral.fixedDigits_lt (by decide) hd) (fun h => absurd h (by decide)),
      Numeral.valueOf_fixedDigits 32 u.int hlt]
  have hrange : 0 ≤ (u.int : ℤ) ∧ (u.int : ℤ) < 2 ^ 128 :=
    ⟨Int.natCast_nonneg _, by exact_mod_cast u.lt⟩
  rw [ofText, digitsIn_str, if_neg (not_not.2 hlen), hint]
  simp only [dif_pos hrange, Int.toNat_natCast]

end UUID

end Python
