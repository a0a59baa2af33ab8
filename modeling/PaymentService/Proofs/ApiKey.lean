import PaymentService.Api

/-!
# The API key is compared only as ASCII

A header with any other character, or one that is compared with such a key, does not lead to a 401:
the comparison itself raises. An empty header counts as none, so it does not pass even where it is
the key (`requireApiKey_iff`).
-/

namespace PaymentService

open Python

/-- What `APIKeyHeader(auto_error=False)` is relied on for: an empty header is as good as none. -/
structure IsApiKeyHeader (apiKeyHeader : Option PyStr → Option PyStr) : Prop where
  absent : apiKeyHeader none = none
  empty : apiKeyHeader (some []) = none
  present : ∀ {s}, s ≠ [] → apiKeyHeader (some s) = some s

/-- What the gate is for: the request passes with the configured key, and any other is answered
with a 401. -/
structure GatesOn (apiKeyHeader : Option PyStr → Option PyStr) (expected : PyStr)
    (header : Option PyStr) : Prop where
  admits : securityGate apiKeyHeader expected header = .ok () ↔ header = some expected
  refuses : header ≠ some expected →
    securityGate apiKeyHeader expected header = .error UNAUTHORIZED

/-! ## `require_api_key` -/

theorem requireApiKey_ascii {expected apiKey : PyStr} (hkey : apiKey.isAscii)
    (hexpected : expected.isAscii) :
    requireApiKey expected (some apiKey) =
      if apiKey = expected then .ok () else .error UNAUTHORIZED := by
  simp only [requireApiKey, compareDigest, hkey, hexpected, Bool.and_self, if_true]
  by_cases heq : apiKey = expected
  · rw [if_pos heq, beq_iff_eq.2 heq]
  · rw [if_neg heq, beq_eq_false_iff_ne.2 heq]

theorem requireApiKey_nonAscii {expected apiKey : PyStr}
    (h : ¬ (apiKey.isAscii ∧ expected.isAscii)) :
    requireApiKey expected (some apiKey) = .error (.raised
      (.typeError "comparing strings with non-ASCII characters is not supported")) := by
  rw [← Bool.and_eq_true_iff, Bool.not_eq_true] at h
  simp only [requireApiKey, compareDigest, h, Bool.false_eq_true, if_false]

/-! ## The gate -/

section

variable {apiKeyHeader : Option PyStr → Option PyStr} {expected : PyStr} {header : Option PyStr}

/-- A header that is not passed on is answered with a 401, which is right unless it is the key. -/
theorem gatesOn_dropped (h : apiKeyHeader header = none) :
    GatesOn apiKeyHeader expected header ↔ header ≠ some expected := by
  have hgate : securityGate apiKeyHeader expected header = .error UNAUTHORIZED := by
    rw [securityGate, h, requireApiKey]
  constructor
  · intro hworks heq
    rw [hworks.admits.2 heq] at hgate
    cases hgate
  · intro hne
    refine ⟨⟨fun h => ?_, fun heq => absurd heq hne⟩, fun _ => hgate⟩
    rw [h] at hgate
    cases hgate

theorem gatesOn_passed {key : PyStr} (h : apiKeyHeader (some key) = some key) :
    GatesOn apiKeyHeader expected (some key) ↔ key.isAscii ∧ expected.isAscii := by
  have hgate : securityGate apiKeyHeader expected (some key) =
      requireApiKey expected (some key) := by rw [securityGate, h]
  constructor
  · intro hworks
    by_contra hascii
    have hraised := hgate.trans (requireApiKey_nonAscii hascii)
    by_cases heq : key = expected
    · rw [hworks.admits.2 (congrArg some heq)] at hraised
      cases hraised
    · rw [hworks.refuses fun hsome => heq (Option.some.inj hsome)] at hraised
      cases hraised
  · rintro ⟨hkey, hexpected⟩
    rw [requireApiKey_ascii hkey hexpected] at hgate
    refine ⟨?_, ?_⟩ <;> rw [hgate]
    · split_ifs with heq
      · exact iff_of_true rfl (congrArg some heq)
      · exact iff_of_false (fun h => nomatch h) fun hsome => heq (Option.some.inj hsome)
    · intro hne
      rw [if_neg fun heq => hne (congrArg some heq)]

theorem isAscii_latin1 (bytes : List (BitVec 8)) :
    (PyStr.latin1 bytes).isAscii ↔ ∀ b ∈ bytes, b < 128 := by
  simp [PyStr.isAscii, PyStr.latin1, BitVec.lt_def, Fin.lt_def]

/-- The gate does its work exactly when there is no header, or it is empty and the key is not, or
header and key are ASCII. -/
theorem requireApiKey_iff (hf : IsApiKeyHeader apiKeyHeader) (expected : PyStr)
    (header : Option (List (BitVec 8))) :
    GatesOn apiKeyHeader expected (header.map PyStr.latin1) ↔
      ∀ bytes, header = some bytes → (bytes = [] ∧ expected ≠ [])
        ∨ (bytes ≠ [] ∧ (∀ b ∈ bytes, b < 128) ∧ expected.isAscii) := by
  rcases header with _ | _ | ⟨b, bytes⟩
  · simp [gatesOn_dropped hf.absent]
  · have hdropped : apiKeyHeader ((some []).map PyStr.latin1) = none := hf.empty
    rw [gatesOn_dropped hdropped]
    constructor
    · rintro hne _ ⟨⟩
      exact .inl ⟨rfl, fun hempty => hne (congrArg some hempty.symm)⟩
    · intro h heq
      rcases h [] rfl with ⟨-, hne⟩ | ⟨hne, -⟩
      · exact hne (Option.some.inj heq).symm
      · exact hne rfl
  · have hpassed := hf.present (s := PyStr.latin1 (b :: bytes)) (List.cons_ne_nil _ _)
    rw [Option.map_some, gatesOn_passed hpassed, isAscii_latin1]
    constructor
    · rintro hascii _ ⟨⟩
      exact .inr ⟨List.cons_ne_nil _ _, hascii⟩
    · intro h
      rcases h _ rfl with ⟨hnil, -⟩ | ⟨-, hascii⟩
      · exact absurd hnil (List.cons_ne_nil _ _)
      · exact hascii

end

/-! ## Two headers -/

def sampleApiKeyHeader : Option PyStr → Option PyStr
  | some [] => none
  | header => header

theorem isApiKeyHeader_sample : IsApiKeyHeader sampleApiKeyHeader where
  absent := rfl
  empty := rfl
  present {s} h := by
    rcases s with _ | ⟨c, s⟩
    · exact absurd rfl h
    · rfl

/-- The key of the README's example. -/
def sampleApiKey : PyStr := .ofString "local-dev-api-key"

theorem sampleApiKey_gatesOn : GatesOn sampleApiKeyHeader sampleApiKey (some sampleApiKey) := by
  have hlatin1 : sampleApiKey =
      PyStr.latin1 ("local-dev-api-key".toList.map fun c => BitVec.ofNat 8 c.toNat) := by
    decide +kernel
  rw [hlatin1]
  refine (requireApiKey_iff isApiKeyHeader_sample _ (some _)).2 ?_
  rintro _ ⟨⟩
  exact .inr ⟨by decide +kernel, by decide +kernel, by decide +kernel⟩

/-- A header that is one byte, `é` in Latin-1. -/
theorem requireApiKey_nonAscii_header :
    ¬ GatesOn sampleApiKeyHeader sampleApiKey (some (PyStr.latin1 [0xE9#8])) := by
  intro h
  have := h.refuses (by decide +kernel)
  revert this
  decide +kernel

end PaymentService
