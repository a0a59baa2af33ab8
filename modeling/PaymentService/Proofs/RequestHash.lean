import PaymentService.Api
import PaymentService.Python.JsonKeys

/-!
# What is hashed of a request

The bytes `request_hash` hashes are the same for two bodies exactly if every field is, the amount as
a decimal with its exponent and the metadata up to the order of keys (`payload_eq_iff`).
-/

namespace PaymentService

open Python

/-- Bodies with the same fields; `metadata` is compared as JSON. -/
structure SameBody (r₁ r₂ : CreatePaymentRequest) : Prop where
  amount : r₁.amount = r₂.amount
  currency : r₁.currency = r₂.currency
  description : r₁.description = r₂.description
  metadata : PyJson.Same (.obj r₁.metadata) (.obj r₂.metadata)
  webhookUrl : r₁.webhookUrl = r₂.webhookUrl

namespace CreatePaymentRequest

/-- No lone surrogate is in the body. -/
def IsText (r : CreatePaymentRequest) : Prop :=
  (PyJson.obj r.metadata).all PyStr.isText (fun _ => true) = true

/-- How deep the values of `metadata` are nested. -/
def depth (scalar : ℕ) (r : CreatePaymentRequest) : ℕ := PyJson.fieldsDepth scalar r.metadata

end CreatePaymentRequest

/-- What `model_dump(mode="json")` is relied on for: metadata that is plain JSON is left as it is
down to a depth, and deeper metadata is refused. Whether a scalar counts for the depth is left
open. -/
structure IsModelDump (scalar maxDepth : ℕ)
    (modelDump : CreatePaymentRequest → Except PyError (List (PyStr × PyJson))) : Prop where
  plain : ∀ r, r.IsText → PyJson.Finite (.obj r.metadata) → r.depth scalar ≤ maxDepth →
    modelDump r = .ok r.fields
  deep : ∀ r, maxDepth < r.depth scalar → ∃ e, modelDump r = .error e

namespace SameBody

variable {r₁ r₂ : CreatePaymentRequest}

theorem isText (h : SameBody r₁ r₂) (h₁ : r₁.IsText) : r₂.IsText := by
  rw [CreatePaymentRequest.IsText, ← h.metadata.all_eq r₁.metadata_keys r₂.metadata_keys]
  exact h₁

theorem finite (h : SameBody r₁ r₂) (h₁ : PyJson.Finite (.obj r₁.metadata)) :
    PyJson.Finite (.obj r₂.metadata) := by
  rw [PyJson.Finite, ← h.metadata.all_eq r₁.metadata_keys r₂.metadata_keys]
  exact h₁

theorem depth_eq (h : SameBody r₁ r₂) (scalar : ℕ) : r₁.depth scalar = r₂.depth scalar :=
  Nat.succ.inj (h.metadata.depth_eq r₁.metadata_keys r₂.metadata_keys scalar)

end SameBody

/-! ## UTF-8 -/

theorem PyStr.encode_ofString (t : String) :
    (PyStr.ofString t).encode = some t.toUTF8.data.toList := by
  rw [PyStr.encode, PyStr.toString?_ofString, Option.map_some]

theorem utf8_injective {t u : String} (h : t.toUTF8.data.toList = u.toUTF8.data.toList) :
    t = u := by
  rw [String.toUTF8_eq_toByteArray, String.toUTF8_eq_toByteArray] at h
  exact String.toByteArray_inj.1 (ByteArray.ext (Array.toList_inj.1 h))

theorem encode_injective {s t : PyStr} (hs : s.isText = true) (ht : t.isText = true)
    (h : s.encode = t.encode) : s = t := by
  obtain ⟨u, rfl⟩ := PyStr.isText_iff.1 hs
  obtain ⟨v, rfl⟩ := PyStr.isText_iff.1 ht
  rw [PyStr.encode_ofString, PyStr.encode_ofString] at h
  rw [utf8_injective (Option.some.inj h)]

/-! ## The fields of a body -/

namespace CreatePaymentRequest

variable {r r₁ r₂ : CreatePaymentRequest}

theorem currencyValue_injective : Function.Injective Currency.value := by
  intro a b h
  cases a <;> cases b <;> revert h <;> decide

theorem decimalStr_injective {d e : SciDecimal}
    (h : (Decimal.finite d).str = (Decimal.finite e).str) : d = e := by
  have hd := Decimal.readFinite_str d
  rw [h, Decimal.readFinite_str] at hd
  exact (Option.some.inj hd).symm

theorem nodup_fields (r : CreatePaymentRequest) : (r.fields.map Prod.fst).Nodup :=
  show [PyStr.ofString "amount", .ofString "currency", .ofString "description",
    .ofString "metadata", .ofString "webhook_url"].Nodup by decide +kernel

theorem keysOk_fields (r : CreatePaymentRequest) : (PyJson.obj r.fields).keysOk = true := by
  have hmetadata := r.metadata_keys
  rw [PyJson.keysOk, decide_eq_true r.nodup_fields, Bool.true_and]
  simp only [fields, PyJson.fieldsKeysOk, PyJson.keysOk, Bool.true_and,
    Bool.and_true] at hmetadata ⊢
  exact hmetadata

theorem isText_fields :
    (PyJson.obj r.fields).all PyStr.isText (fun _ => true) = true ↔ r.IsText := by
  simp only [IsText, fields, PyJson.all, PyJson.fieldsAll, PyStr.isText_ofString, Bool.true_and,
    Bool.and_true]

theorem finite_fields :
    PyJson.Finite (.obj r.fields) ↔ PyJson.Finite (.obj r.metadata) := by
  simp only [PyJson.Finite, fields, PyJson.all, PyJson.fieldsAll, Bool.true_and, Bool.and_true]

theorem same_fields :
    PyJson.Same (.obj r₁.fields) (.obj r₂.fields) ↔ SameBody r₁ r₂ := by
  have hamount : (PyStr.ofString "amount", PyJson.str (.ofString (Decimal.finite r₂.amount).str))
      ∈ r₂.fields := by simp [fields]
  have hcurrency : (PyStr.ofString "currency", PyJson.str (.ofString r₂.currency.value))
      ∈ r₂.fields := by simp [fields]
  have hdescription : (PyStr.ofString "description", PyJson.str (.ofString r₂.description))
      ∈ r₂.fields := by simp [fields]
  have hmetadata : (PyStr.ofString "metadata", PyJson.obj r₂.metadata)
      ∈ r₂.fields := by simp [fields]
  have hurl : (PyStr.ofString "webhook_url", PyJson.str (.ofString r₂.webhookUrl))
      ∈ r₂.fields := by simp [fields]
  have hlen : r₁.fields.length = r₂.fields.length := rfl
  have hfield : ∀ {k : PyStr} {x y : PyJson}, (k, y) ∈ r₂.fields →
      ((∃ z, (k, z) ∈ r₂.fields ∧ PyJson.Same x z) ↔ PyJson.Same x y) :=
    fun h => PyJson.exists_field_iff r₂.nodup_fields h
  rw [PyJson.Same, and_iff_right hlen]
  generalize r₂.fields = gs at hamount hcurrency hdescription hmetadata hurl hfield
  simp only [fields, PyJson.SameFields, hfield hamount, hfield hcurrency, hfield hdescription,
    hfield hmetadata, hfield hurl]
  constructor
  · rintro ⟨hamount, hcurrency, hdescription, hmetadata, hurl, -⟩
    exact ⟨decimalStr_injective (PyStr.ofString_injective hamount),
      currencyValue_injective (PyStr.ofString_injective hcurrency),
      PyStr.ofString_injective hdescription, hmetadata, PyStr.ofString_injective hurl⟩
  · rintro ⟨hamount, hcurrency, hdescription, hmetadata, hurl⟩
    exact ⟨by rw [hamount]; rfl, by rw [hcurrency]; rfl, by rw [hdescription]; rfl,
      hmetadata, by rw [hurl]; rfl, trivial⟩

end CreatePaymentRequest

/-! ## The bytes -/

section

variable {modelDump : CreatePaymentRequest → Except PyError (List (PyStr × PyJson))}
  {floatRepr : BitVec 64 → List Char} {r r₁ r₂ : CreatePaymentRequest}

theorem isText_dumps_fields (floatRepr : BitVec 64 → List Char) (r : CreatePaymentRequest) :
    ((PyJson.obj r.fields).dumps floatRepr).isText = true ↔ r.IsText := by
  rw [PyJson.isText_dumps, CreatePaymentRequest.isText_fields]

theorem payload_ok (floatRepr : BitVec 64 → List Char) (hdump : modelDump r = .ok r.fields)
    (h : r.IsText) : ∃ bytes, r.payload modelDump floatRepr = .ok bytes
      ∧ ((PyJson.obj r.fields).dumps floatRepr).encode = some bytes := by
  obtain ⟨t, ht⟩ := PyStr.isText_iff.1 ((isText_dumps_fields floatRepr r).2 h)
  refine ⟨t.toUTF8.data.toList, ?_, ?_⟩
  · simp only [CreatePaymentRequest.payload, hdump, bind, Except.bind, ht, PyStr.encode_ofString]
  · rw [ht, PyStr.encode_ofString]

/-- A body that has a hash is nested no deeper than the dump goes. -/
theorem depth_le_of_payload {scalar maxDepth : ℕ} (hd : IsModelDump scalar maxDepth modelDump)
    {bytes : List UInt8} (h : r.payload modelDump floatRepr = .ok bytes) :
    r.depth scalar ≤ maxDepth := by
  by_contra hdeep
  obtain ⟨e, hraises⟩ := hd.deep r (not_le.1 hdeep)
  rw [CreatePaymentRequest.payload, hraises] at h
  cases h

/-- Two bodies without surrogates and with finite floats, whose dumps are their fields, are hashed
from the same bytes if and only if they are the same. -/
theorem payload_eq_iff (hr : PyJson.IsFloatRepr floatRepr) (hd₁ : modelDump r₁ = .ok r₁.fields)
    (hd₂ : modelDump r₂ = .ok r₂.fields) (h₁ : r₁.IsText) (h₂ : r₂.IsText)
    (hf₁ : PyJson.Finite (.obj r₁.metadata)) (hf₂ : PyJson.Finite (.obj r₂.metadata)) :
    ∃ b₁ b₂, r₁.payload modelDump floatRepr = .ok b₁ ∧ r₂.payload modelDump floatRepr = .ok b₂ ∧
      (b₁ = b₂ ↔ SameBody r₁ r₂) := by
  obtain ⟨b₁, hb₁, he₁⟩ := payload_ok floatRepr hd₁ h₁
  obtain ⟨b₂, hb₂, he₂⟩ := payload_ok floatRepr hd₂ h₂
  refine ⟨b₁, b₂, hb₁, hb₂, ?_⟩
  rw [← CreatePaymentRequest.same_fields,
    ← PyJson.dumps_eq_iff hr (CreatePaymentRequest.finite_fields.2 hf₁)
      (CreatePaymentRequest.finite_fields.2 hf₂) r₁.keysOk_fields r₂.keysOk_fields]
  constructor
  · rintro rfl
    exact encode_injective ((isText_dumps_fields floatRepr r₁).2 h₁)
      ((isText_dumps_fields floatRepr r₂).2 h₂) (he₁.trans he₂.symm)
  · intro h
    rw [h, he₂] at he₁
    exact (Option.some.inj he₁).symm

end

/-! ## Two bodies -/

/-- A `repr` that is Python's on `1.0`. -/
def sampleFloatRepr (bits : BitVec 64) : List Char :=
  if bits = 0x3FF0000000000000#64 then ['1', '.', '0'] else Numeral.toChars bits.toNat ++ ['.', 'e']

theorem toChars_injective {m n : ℕ} (h : Numeral.toChars m = Numeral.toChars n) : m = n := by
  rw [← Numeral.ofChars_toChars m, h, Numeral.ofChars_toChars]

theorem isFloatRepr_sample : PyJson.IsFloatRepr sampleFloatRepr where
  injective x y _ _ h := by
    unfold sampleFloatRepr at h
    split_ifs at h with hx hy hy
    · rw [hx, hy]
    · exact absurd (congrArg List.getLast? h) (by simp)
    · exact absurd (congrArg List.getLast? h) (by simp)
    · exact BitVec.eq_of_toNat_eq (toChars_injective (List.append_cancel_right h))
  chars x _ c hc := by
    have hone : ['1', '.', '0'].all (· ∈ PyJson.numberChars) = true := by decide
    have hend : ['.', 'e'].all (· ∈ PyJson.numberChars) = true := by decide
    unfold sampleFloatRepr at hc
    split_ifs at hc
    · exact of_decide_eq_true (List.all_eq_true.1 hone c hc)
    · rcases List.mem_append.1 hc with hc | hc
      · exact (PyJson.mem_toChars hc).1
      · exact of_decide_eq_true (List.all_eq_true.1 hend c hc)
  marked x _ := by
    unfold sampleFloatRepr
    split_ifs <;> simp

/-- A dump that goes 254 levels deep, scalars included. -/
def sampleDump (r : CreatePaymentRequest) : Except PyError (List (PyStr × PyJson)) :=
  if r.depth 1 ≤ 254 then .ok r.fields
  else .error (.valueError "Circular reference detected (depth exceeded)")

theorem isModelDump_sample : IsModelDump 1 254 sampleDump where
  plain _ _ _ h := if_pos h
  deep _ h := ⟨_, if_neg (not_le.2 h)⟩

theorem amountField_sample : amountField ⟨false, 150000, -2⟩ = true := by decide

theorem sampleDescription_le : "order".length ≤ DESCRIPTION_MAX_LENGTH := by
  decide +kernel

/-- A body of 1500.00 roubles. -/
def sampleBody (metadata : List (PyStr × PyJson)) (h : (PyJson.obj metadata).keysOk = true) :
    CreatePaymentRequest :=
  ⟨⟨false, 150000, -2⟩, .RUB, "order", metadata, "https://shop.example/hook",
    amountField_sample, sampleDescription_le, h⟩

def sampleMetadata : List (PyStr × PyJson) :=
  [(.ofString "b", .float 0x3FF0000000000000#64), (.ofString "a", .arr [.int 1, .bool true])]

theorem keysOk_sampleMetadata : (PyJson.obj sampleMetadata).keysOk = true := by decide +kernel

theorem keysOk_reverse_sampleMetadata : (PyJson.obj sampleMetadata.reverse).keysOk = true := by
  decide +kernel

abbrev firstBody : CreatePaymentRequest := sampleBody sampleMetadata keysOk_sampleMetadata

abbrev secondBody : CreatePaymentRequest :=
  sampleBody sampleMetadata.reverse keysOk_reverse_sampleMetadata

theorem firstBody_isText : firstBody.IsText := by
  unfold CreatePaymentRequest.IsText
  decide +kernel

theorem firstBody_dump : sampleDump firstBody = .ok firstBody.fields :=
  if_pos (show PyJson.fieldsDepth 1 sampleMetadata ≤ 254 by decide +kernel)

theorem secondBody_dump : sampleDump secondBody = .ok secondBody.fields :=
  if_pos (show PyJson.fieldsDepth 1 sampleMetadata.reverse ≤ 254 by decide +kernel)

theorem sampleBody_payload_eq :
    ∃ b₁ b₂, firstBody.payload sampleDump sampleFloatRepr = .ok b₁ ∧
      secondBody.payload sampleDump sampleFloatRepr = .ok b₂ ∧
      (b₁ = b₂ ↔ SameBody firstBody secondBody) :=
  payload_eq_iff isFloatRepr_sample firstBody_dump secondBody_dump firstBody_isText
    (show (PyJson.obj sampleMetadata.reverse).all PyStr.isText (fun _ => true) = true by
      decide +kernel)
    (by decide +kernel) (by decide +kernel)

example : (firstBody.payload sampleDump sampleFloatRepr).toOption =
    (PyStr.ofString ("\x7b\"amount\":\"1500.00\",\"currency\":\"RUB\",\"description\":\"order\","
      ++ "\"metadata\":\x7b\"a\":[1,true],\"b\":1.0\x7d,"
      ++ "\"webhook_url\":\"https://shop.example/hook\"\x7d")).encode := by
  decide +kernel

end PaymentService
