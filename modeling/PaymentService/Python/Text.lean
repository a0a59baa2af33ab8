import PaymentService.Lib.Numeral

/-!
# Python's `str.strip` and `int`

Whitespace and decimal digits are Unicode's (15.1, the version of Python 3.13). `int` reads an
optional sign and digits that single underscores may separate, and refuses more than 4300 of them
in base ten.
-/

namespace Python

def isSpace (c : Char) : Bool :=
  let n := c.toNat
  (9 ≤ n && n ≤ 13) || (28 ≤ n && n ≤ 32) || n == 0x85 || n == 0xA0 || n == 0x1680
    || (0x2000 ≤ n && n ≤ 0x200A) || n == 0x2028 || n == 0x2029 || n == 0x202F || n == 0x205F
    || n == 0x3000

/-- What `int` skips around a number: not the four ASCII separators. -/
def isIntSpace (c : Char) : Bool := isSpace c && !(28 ≤ c.toNat && c.toNat ≤ 31)

/-- The characters of `p` taken off both ends. -/
def stripBy (p : Char → Bool) (cs : List Char) : List Char :=
  ((cs.dropWhile p).reverse.dropWhile p).reverse

def strip (cs : List Char) : List Char := stripBy isSpace cs

/-- The slice `text[:n]`. -/
def truncate (n : ℕ) (s : String) : String := String.ofList (s.toList.take n)

theorem length_truncate_le (n : ℕ) (s : String) : (truncate n s).length ≤ n := by
  simp [truncate]

/-- The zeros of the runs of ten decimal digits beyond ASCII. -/
def decimalZeros : List ℕ :=
  [0x660, 0x6F0, 0x7C0, 0x966, 0x9E6, 0xA66, 0xAE6, 0xB66, 0xBE6, 0xC66, 0xCE6, 0xD66, 0xDE6,
    0xE50, 0xED0, 0xF20, 0x1040, 0x1090, 0x17E0, 0x1810, 0x1946, 0x19D0, 0x1A80, 0x1A90, 0x1B50,
    0x1BB0, 0x1C40, 0x1C50, 0xA620, 0xA8D0, 0xA900, 0xA9D0, 0xA9F0, 0xAA50, 0xABF0, 0xFF10,
    0x104A0, 0x10D30, 0x11066, 0x110F0, 0x11136, 0x111D0, 0x112F0, 0x11450, 0x114D0, 0x11650,
    0x116C0, 0x11730, 0x118E0, 0x11950, 0x11C50, 0x11D50, 0x11DA0, 0x11F50, 0x16A60, 0x16AC0,
    0x16B50, 0x1D7CE, 0x1D7D8, 0x1D7E2, 0x1D7EC, 0x1D7F6, 0x1E140, 0x1E2F0, 0x1E4F0, 0x1E950,
    0x1FBF0]

def digitOf (base : ℕ) (c : Char) : Option ℕ :=
  let value :=
    if c.toNat < 128 then Numeral.digitVal c
    else (decimalZeros.find? fun z => z ≤ c.toNat && c.toNat < z + 10).map (c.toNat - ·)
  value.filter (· < base)

/-- Digits with single underscores between them; `afterDigit` says the last character was one. -/
def readDigits (base : ℕ) : Bool → ℕ → List Char → Option ℕ
  | afterDigit, acc, [] => if afterDigit then some acc else none
  | afterDigit, acc, c :: cs =>
    match digitOf base c with
    | some d => readDigits base true (acc * base + d) cs
    | none => if c = '_' ∧ afterDigit then readDigits base false acc cs else none

/-- In base sixteen a leading `0x` or `0x_` is skipped. -/
def skipPrefix (base : ℕ) : List Char → List Char
  | '0' :: x :: '_' :: cs => if base = 16 ∧ (x = 'x' ∨ x = 'X') then cs else '0' :: x :: '_' :: cs
  | '0' :: x :: cs => if base = 16 ∧ (x = 'x' ∨ x = 'X') then cs else '0' :: x :: cs
  | cs => cs

def maxStrDigits : ℕ := 4300

def unsignedOf (base : ℕ) (cs : List Char) : Option ℕ :=
  if base = 10 ∧ maxStrDigits < (cs.filter fun c => (digitOf base c).isSome).length then none
  else readDigits base false 0 (skipPrefix base cs)

/-- `int(text, base)`, with `none` for its `ValueError`. -/
def intOf (base : ℕ) (cs : List Char) : Option ℤ :=
  match stripBy isIntSpace cs with
  | '-' :: cs => (unsignedOf base cs).map fun n => -(n : ℤ)
  | '+' :: cs => (unsignedOf base cs).map fun n => (n : ℤ)
  | cs => (unsignedOf base cs).map fun n => (n : ℤ)

/-! ## Plain numerals -/

theorem stripBy_eq_self {p : Char → Bool} {cs : List Char} (h : ∀ c ∈ cs, ¬ p c) :
    stripBy p cs = cs := by
  have hdrop : ∀ {ds : List Char}, (∀ c ∈ ds, ¬ p c) → ds.dropWhile p = ds := by
    rintro (_ | ⟨d, ds⟩) hds
    · rfl
    · exact List.dropWhile_cons_of_neg (hds d List.mem_cons_self)
  rw [stripBy, hdrop h, hdrop fun c hc => h c (List.mem_reverse.1 hc), List.reverse_reverse]

/-- The characters `int` treats specially are none of the digits. -/
theorem digitChar_plain {d : ℕ} (h : d < 16) :
    Nat.digitChar d ∉ ['-', '+', '_', 'x', 'X', 'u', '{', '}'] ∧ ¬ isSpace (Nat.digitChar d)
      ∧ (Nat.digitChar d).toNat < 128 := by
  interval_cases d <;> decide

theorem digitOf_digitChar {base d : ℕ} (hb : base ≤ 16) (h : d < base) :
    digitOf base (Nat.digitChar d) = some d := by
  have hd : d < 16 := by omega
  simp [digitOf, (digitChar_plain hd).2.2, Numeral.digitVal_digitChar hd, h]

theorem readDigits_map_digitChar {base : ℕ} (hb : base ≤ 16) :
    ∀ {ds : List ℕ} {b : Bool} {acc : ℕ}, (∀ d ∈ ds, d < base) → (b = true ∨ ds ≠ []) →
      readDigits base b acc (ds.map Nat.digitChar)
        = some (ds.foldl (fun acc d => acc * base + d) acc)
  | [], b, acc, _, h => by
    rcases h with rfl | h
    · rfl
    · exact absurd rfl h
  | d :: ds, b, acc, hds, _ => by
    rw [List.map_cons, readDigits, digitOf_digitChar hb (hds d List.mem_cons_self)]
    exact readDigits_map_digitChar hb (fun e he => hds e (List.mem_cons_of_mem _ he)) (.inl rfl)

theorem skipPrefix_eq_self {base : ℕ} {cs : List Char} (h : ∀ c ∈ cs, c ≠ 'x' ∧ c ≠ 'X') :
    skipPrefix base cs = cs := by
  have hx : ∀ {c : Char}, c ∈ cs → ¬ (base = 16 ∧ (c = 'x' ∨ c = 'X')) :=
    fun hc hor => hor.2.elim (h _ hc).1 (h _ hc).2
  unfold skipPrefix
  split
  · rw [if_neg (hx (by simp))]
  · rw [if_neg (hx (by simp))]
  · rfl

theorem intOf_map_digitChar {base : ℕ} (hb : base ≤ 16) {ds : List ℕ} (hne : ds ≠ [])
    (hds : ∀ d ∈ ds, d < base) (hlen : base = 10 → ds.length ≤ maxStrDigits) :
    intOf base (ds.map Nat.digitChar) = some (Numeral.valueOf base ds : ℤ) := by
  have hlt : ∀ d ∈ ds, d < 16 := fun d hd => (hds d hd).trans_le hb
  have hstrip : stripBy isIntSpace (ds.map Nat.digitChar) = ds.map Nat.digitChar := by
    refine stripBy_eq_self fun c hc hspace => ?_
    obtain ⟨d, hd, rfl⟩ := List.mem_map.1 hc
    exact (digitChar_plain (hlt d hd)).2.1 (Bool.and_eq_true_iff.1 hspace).1
  have hplain : ∀ c ∈ ds.map Nat.digitChar, c ∉ ['-', '+', '_', 'x', 'X', 'u', '{', '}'] := by
    intro c hc
    obtain ⟨d, hd, rfl⟩ := List.mem_map.1 hc
    exact (digitChar_plain (hlt d hd)).1
  simp only [List.mem_cons, List.not_mem_nil, or_false, not_or] at hplain
  have hunsigned : unsignedOf base (ds.map Nat.digitChar) = some (Numeral.valueOf base ds) := by
    have hle := List.length_filter_le (fun c => (digitOf base c).isSome) (ds.map Nat.digitChar)
    rw [List.length_map] at hle
    rw [unsignedOf, if_neg (by rintro ⟨rfl, h⟩; have := hlen rfl; omega),
      skipPrefix_eq_self fun c hc => ⟨(hplain c hc).2.2.2.1, (hplain c hc).2.2.2.2.1⟩,
      readDigits_map_digitChar hb hds (.inr hne)]
    rfl
  rw [intOf, hstrip]
  split
  · rename_i heq
    exact absurd rfl (hplain '-' (by rw [heq]; exact List.mem_cons_self)).1
  · rename_i heq
    exact absurd rfl (hplain '+' (by rw [heq]; exact List.mem_cons_self)).2.1
  · rw [hunsigned]
    rfl

example : intOf 10 " -1_000\n".toList = some (-1000) := by decide
example : intOf 10 "1__0".toList = none := by decide
example : intOf 10 ['\x1c', '1'] = none := by decide

end Python
