import Tokenweir.Contract.Codec
import Tokenweir.Lib.Schema

/-!
# The published schema

`usage_record_json_schema` with its meaning, and that the decoder accepts what the schema
describes, but for the version, which may be newer or absent.

* `usageRecordJsonSchema`, `relaxedSchema`;
* `Field.Takes`, the values that the constructor takes; `takes_kwargs_iff`, that they are those that
  the relaxed schema describes;
* `schema_agrees`.
-/

namespace Tokenweir

/-! ### The document -/

/-- `_BLANK_CHARACTERS`, a range for each part of the literal. -/
def blankCharacters : List (ℕ × ℕ) :=
  [(0x09, 0x09), (0x0a, 0x0a), (0x0b, 0x0b), (0x0c, 0x0c), (0x0d, 0x0d), (0x1c, 0x1f),
    (0x20, 0x20), (0x85, 0x85), (0xa0, 0xa0), (0x1680, 0x1680), (0x2000, 0x200a),
    (0x2028, 0x2028), (0x2029, 0x2029), (0x202f, 0x202f), (0x205f, 0x205f), (0x3000, 0x3000),
    (0xfeff, 0xfeff)]

def Schema.nullableString : List Keyword := [.type [.string, .null]]

def Schema.requiredString : List Keyword :=
  [.type [.string], .minLength 1, .pattern blankCharacters]

def Schema.tokenCount : List Keyword := [.type [.integer], .minimum 0]

/-- What the schema says of a field; annotations are left out. -/
def Field.keywords : Field → List Keyword
  | .schemaVersion => [.type [.integer], .const (.number 1)]
  | .requestId | .appId | .endpoint | .model | .status => Schema.requiredString
  | .workload | .parentRequestId | .queue | .ts => Schema.nullableString
  | .count _ => Schema.tokenCount
  | .latencyMs => [.type [.integer, .null], .minimum 0]
  | .pricingMode =>
    [.type [.string, .null],
      .enum [.string (Text.of PricingMode.apiMetered.value),
        .string (Text.of PricingMode.subscription.value), .null]]

/-- `usage_record_json_schema`. -/
def usageRecordJsonSchema : ObjectSchema where
  properties := Field.all.map fun f => (f.key, f.keywords)
  required := Field.schemaVersion.key :: Field.required.map Field.key

/-- What the relaxed schema says of a field: any version from 1 on. -/
def Field.relaxedKeywords : Field → List Keyword
  | .schemaVersion => [.type [.integer], .minimum 1]
  | f => f.keywords

/-- The field rules of the schema, with the documented relaxation that `schema_version` may be
absent, or any integer from 1 on. -/
def relaxedSchema : ObjectSchema where
  properties := Field.all.map fun f => (f.key, f.relaxedKeywords)
  required := Field.required.map Field.key

/-! ### Blank strings -/

theorem inRanges_blankCharacters (c : CodePoint) : inRanges blankCharacters c = isBlankChar c := by
  unfold inRanges blankCharacters isBlankChar Text.isSpace
  rw [Bool.eq_iff_iff]
  simp only [List.any_cons, List.any_nil, Bool.or_eq_true, Bool.and_eq_true, decide_eq_true_eq,
    beq_iff_eq, Bool.or_false]
  omega

theorem pattern_holds {s : Text} : (Keyword.pattern blankCharacters).holds (.str s) = true ↔
    NonBlank s := by
  show (s.any fun c => !inRanges blankCharacters c) = true ↔ _
  rw [funext fun c => congrArg Bool.not (inRanges_blankCharacters c)]
  rfl

/-! ### Values of fields -/

/-- The values that the constructor takes for a field. -/
def Field.Takes (v : Json) : Field → Prop
  | .requestId | .appId | .endpoint | .model | .status => ∃ s, NonBlank s ∧ v = .str s
  | .workload | .parentRequestId | .queue | .ts => ∃ s, v = (Scalar.ofText s).toJson
  | .count _ => ∃ n : ℕ, v = .int n
  | .latencyMs => ∃ n, v = (Scalar.ofNat n).toJson
  | .pricingMode => ∃ mode, v = (Scalar.ofMode mode).toJson
  | .schemaVersion => ∃ n : ℕ, 1 ≤ n ∧ v = .int n

/-- Values that are taken are those of a record. -/
theorem exists_scalar_iff {value : Field → Json} :
    (∃ r : UsageRecord, ∀ f, value f = (r.scalar f).toJson) ↔ ∀ f : Field, f.Takes (value f) := by
  constructor
  · rintro ⟨r, h⟩ f
    rw [h f]
    cases f with
    | requestId => exact ⟨_, r.requestId_nonBlank, rfl⟩
    | appId => exact ⟨_, r.appId_nonBlank, rfl⟩
    | endpoint => exact ⟨_, r.endpoint_nonBlank, rfl⟩
    | model => exact ⟨_, r.model_nonBlank, rfl⟩
    | status => exact ⟨_, r.status_nonBlank, rfl⟩
    | schemaVersion => exact ⟨_, r.schemaVersion_pos, rfl⟩
    | _ => exact ⟨_, rfl⟩
  · intro h
    obtain ⟨requestId, h₁, hrequestId⟩ := h .requestId
    obtain ⟨appId, h₂, happId⟩ := h .appId
    obtain ⟨endpoint, h₃, hendpoint⟩ := h .endpoint
    obtain ⟨model, h₄, hmodel⟩ := h .model
    obtain ⟨status, h₅, hstatus⟩ := h .status
    obtain ⟨workload, hworkload⟩ := h .workload
    obtain ⟨parentRequestId, hparent⟩ := h .parentRequestId
    obtain ⟨queue, hqueue⟩ := h .queue
    obtain ⟨counts, hcounts⟩ : ∃ counts : CountField → ℕ, ∀ c, value (.count c) = .int (counts c) :=
      Classical.skolem.1 fun c => h (.count c)
    obtain ⟨latencyMs, hlatency⟩ := h .latencyMs
    obtain ⟨pricingMode, hmode⟩ := h .pricingMode
    obtain ⟨ts, hts⟩ := h .ts
    obtain ⟨schemaVersion, h₆, hversion⟩ := h .schemaVersion
    refine ⟨⟨⟨requestId, appId, endpoint, model, status, workload, parentRequestId, queue, counts,
      latencyMs, pricingMode, ts, schemaVersion⟩, h₁, h₂, h₃, h₄, h₅, h₆⟩, fun f => ?_⟩
    cases f with
    | count c => exact hcounts c
    | _ => assumption

/-- The value of a field that the constructor is given. -/
def Field.coerced (f : Field) (v : Json) : Json :=
  if f ∈ Field.wireInteger then coerceInteger v else v

theorem isInt_iff {x : ℚ} : x.isInt = true ↔ ∃ n : ℤ, x = n := by
  rw [Rat.isInt, beq_iff_eq]
  exact ⟨fun h => ⟨x.num, (Rat.coe_int_num_of_den_eq_one h).symm⟩, by rintro ⟨n, rfl⟩; rfl⟩

/-- An integral number is taken as the integer that it is. -/
theorem coerceInteger_eq_int {v : Json} {n : ℤ} :
    coerceInteger v = .int n ↔ v.rational = some (n : ℚ) := by
  cases v with
  | int m => simp [coerceInteger, Json.rational]
  | float x =>
    cases x with
    | none => simp [coerceInteger, Json.rational]
    | some x =>
      rw [coerceInteger, Json.rational]
      split
      · rename_i hx
        obtain ⟨m, rfl⟩ := isInt_iff.1 hx
        simp
      · rename_i hx
        constructor
        · intro h
          cases h
        · intro h
          exact absurd (isInt_iff.2 ⟨n, Option.some.inj h⟩) hx
  | _ => simp [coerceInteger, Json.rational]

theorem coerceInteger_eq_null {v : Json} : coerceInteger v = .null ↔ v = .null := by
  cases v with
  | float x =>
    cases x with
    | none => simp [coerceInteger]
    | some x =>
      rw [coerceInteger]
      split <;> simp
  | _ => simp [coerceInteger]

/-! ### The keywords of a field -/

theorem requiredString_iff {v : Json} :
    (∀ keyword ∈ Schema.requiredString, keyword.holds v = true) ↔
      ∃ s, NonBlank s ∧ v = .str s := by
  simp only [Schema.requiredString, List.forall_mem_cons, List.not_mem_nil, false_imp_iff,
    implies_true, and_true]
  constructor
  · rintro ⟨htype, -, hpattern⟩
    cases v with
    | str s => exact ⟨s, pattern_holds.1 hpattern, rfl⟩
    | _ => cases htype
  · rintro ⟨s, hs, rfl⟩
    refine ⟨rfl, ?_, pattern_holds.2 hs⟩
    -- a string that is not blank is not empty
    cases s with
    | nil => exact absurd hs (by decide)
    | cons c s => simp [Keyword.holds]

theorem nullableString_iff {v : Json} :
    (∀ keyword ∈ Schema.nullableString, keyword.holds v = true) ↔
      ∃ s, v = (Scalar.ofText s).toJson := by
  simp only [Schema.nullableString, List.forall_mem_cons, List.not_mem_nil, false_imp_iff,
    implies_true, and_true]
  constructor
  · intro htype
    cases v with
    | null => exact ⟨none, rfl⟩
    | str s => exact ⟨some s, rfl⟩
    | _ => cases htype
  · rintro ⟨_ | s, rfl⟩ <;> rfl

/-- An integer that is not too small. -/
theorem integer_iff {m : ℕ} {v : Json} :
    (v.rational.any Rat.isInt = true ∧ (Keyword.minimum m).holds v = true) ↔
      ∃ n : ℕ, m ≤ n ∧ coerceInteger v = .int n := by
  simp only [coerceInteger_eq_int, Keyword.holds]
  constructor
  · rintro ⟨hint, hmin⟩
    obtain ⟨x, hx, hint⟩ := (Option.any_eq_true ..).1 hint
    obtain ⟨n, rfl⟩ := isInt_iff.1 hint
    rw [hx, Option.all_some, decide_eq_true_eq] at hmin
    have hle : (m : ℤ) ≤ n := by exact_mod_cast hmin
    lift n to ℕ using (Int.natCast_nonneg m).trans hle
    exact ⟨n, by exact_mod_cast hle, hx⟩
  · rintro ⟨n, hle, hx⟩
    rw [hx]
    refine ⟨isInt_iff.2 ⟨n, rfl⟩, decide_eq_true ?_⟩
    exact_mod_cast hle

theorem hasType_integer (v : Json) :
    (Keyword.type [.integer]).holds v = v.rational.any Rat.isInt := by
  simp [Keyword.holds, Json.hasType]

theorem tokenCount_iff {v : Json} :
    (∀ keyword ∈ Schema.tokenCount, keyword.holds v = true) ↔ ∃ n : ℕ, coerceInteger v = .int n := by
  simp only [Schema.tokenCount, List.forall_mem_cons, List.not_mem_nil, false_imp_iff,
    implies_true, and_true, hasType_integer]
  have h := integer_iff (m := 0) (v := v)
  simpa only [Nat.cast_zero, Nat.zero_le, true_and] using h

theorem latencyMs_iff {v : Json} :
    (∀ keyword ∈ Field.latencyMs.keywords, keyword.holds v = true) ↔
      ∃ n, coerceInteger v = (Scalar.ofNat n).toJson := by
  have hint := integer_iff (m := 0) (v := v)
  simp only [Nat.cast_zero, Nat.zero_le, true_and] at hint
  simp only [Field.keywords, List.forall_mem_cons, List.not_mem_nil, false_imp_iff, implies_true,
    and_true]
  constructor
  · rintro ⟨htype, hmin⟩
    have htype : v.rational.any Rat.isInt = true ∨ v = .null := by
      cases v <;> simp_all [Keyword.holds, Json.hasType, Json.rational]
    rcases htype with htype | rfl
    · obtain ⟨n, hn⟩ := hint.1 ⟨htype, hmin⟩
      exact ⟨some n, hn⟩
    · exact ⟨none, rfl⟩
  · rintro ⟨_ | n, hn⟩
    · obtain rfl := coerceInteger_eq_null.1 hn
      exact ⟨rfl, rfl⟩
    · obtain ⟨htype, hmin⟩ := hint.2 ⟨n, hn⟩
      refine ⟨?_, hmin⟩
      simp [Keyword.holds, Json.hasType, htype]

theorem pricingMode_iff {v : Json} :
    (∀ keyword ∈ Field.pricingMode.keywords, keyword.holds v = true) ↔
      ∃ mode, v = (Scalar.ofMode mode).toJson := by
  simp only [Field.keywords, List.forall_mem_cons, List.not_mem_nil, false_imp_iff, implies_true,
    and_true]
  constructor
  · rintro ⟨htype, henum⟩
    cases v with
    | null => exact ⟨none, rfl⟩
    | str s =>
      simp only [Keyword.holds, Literal.equals, List.any_cons, List.any_nil, Bool.or_false,
        Bool.or_eq_true, decide_eq_true_eq] at henum
      rcases henum with rfl | rfl
      · exact ⟨some .apiMetered, rfl⟩
      · exact ⟨some .subscription, rfl⟩
    | _ => cases htype
  · rintro ⟨_ | _ | _, rfl⟩
    · exact ⟨rfl, rfl⟩
    · exact ⟨rfl, rfl⟩
    · exact ⟨rfl, rfl⟩

theorem schemaVersion_iff {v : Json} :
    (∀ keyword ∈ Field.schemaVersion.relaxedKeywords, keyword.holds v = true) ↔
      ∃ n : ℕ, 1 ≤ n ∧ coerceInteger v = .int n := by
  simp only [Field.relaxedKeywords, List.forall_mem_cons, List.not_mem_nil, false_imp_iff,
    implies_true, and_true, hasType_integer]
  have h := integer_iff (m := 1) (v := v)
  simpa only [Nat.cast_one] using h

/-- **The values that are taken** are those that the relaxed schema describes. -/
theorem takes_coerced_iff {f : Field} {v : Json} :
    f.Takes (f.coerced v) ↔ ∀ keyword ∈ f.relaxedKeywords, keyword.holds v = true := by
  cases f with
  | requestId | appId | endpoint | model | status => exact requiredString_iff.symm
  | workload | parentRequestId | queue | ts => exact nullableString_iff.symm
  | count c => cases c <;> exact tokenCount_iff.symm
  | latencyMs => exact latencyMs_iff.symm
  | pricingMode => exact pricingMode_iff.symm
  | schemaVersion => exact schemaVersion_iff.symm

/-! ### The agreement -/

/-- A field that is absent is taken by its default, unless it is required. -/
theorem takes_default_iff {f : Field} : f.Takes f.default ↔ f ∉ Field.required := by
  cases f with
  | requestId | appId | endpoint | model | status =>
    refine iff_of_false ?_ (by decide)
    rintro ⟨s, -, h⟩
    cases h
  | count c => cases c <;> exact iff_of_true ⟨0, rfl⟩ (by decide)
  | schemaVersion => exact iff_of_true ⟨1, le_rfl, rfl⟩ (by decide)
  | workload | parentRequestId | queue | ts | latencyMs | pricingMode =>
    exact iff_of_true ⟨none, rfl⟩ (by decide)

/-- What the constructor is given for a field of a payload. -/
theorem takes_kwargs_iff {f : Field} {p : Json} :
    f.Takes ((coerceWireIntegers (kwargsOf p) f).getD f.default) ↔
      (f ∈ Field.required → (p.get f.key).isSome = true) ∧
      ∀ w, p.get f.key = some w → ∀ keyword ∈ f.relaxedKeywords, keyword.holds w = true := by
  have hkwargs : coerceWireIntegers (kwargsOf p) f = (p.get f.key).map f.coerced := by
    unfold coerceWireIntegers kwargsOf Field.coerced
    split
    · rfl
    · exact Option.map_id'.symm
  rw [hkwargs]
  cases p.get f.key with
  | none => simp [takes_default_iff]
  | some v => simp [takes_coerced_iff]

/-- **The decoder accepts** what the relaxed schema describes. -/
theorem exists_fromDict_iff {p : Json} :
    (∃ r, fromDict p = .ok r) ↔ relaxedSchema.validates p = true := by
  have hmapping : p.hasType .object = p.isMapping := by
    cases p <;> rfl
  simp only [fromDict_eq_ok, exists_and_left, exists_scalar_iff, takes_kwargs_iff,
    ObjectSchema.validates_iff, hmapping, relaxedSchema, List.forall_mem_map]
  refine and_congr_right fun _ => ?_
  constructor
  · intro h
    exact ⟨fun f hf => (h f).1 hf, fun f _ => (h f).2⟩
  · rintro ⟨hrequired, hkeywords⟩ f
    exact ⟨hrequired f, hkeywords f (Field.mem_all f)⟩

/-- The schema is stricter than the relaxed one. -/
theorem relaxed_of_validates {p : Json} (h : usageRecordJsonSchema.validates p = true) :
    relaxedSchema.validates p = true := by
  obtain ⟨hobject, hrequired, hkeywords⟩ := ObjectSchema.validates_iff.1 h
  refine ObjectSchema.validates_iff.2
    ⟨hobject, fun key hkey => hrequired key (List.mem_cons_of_mem _ hkey), ?_⟩
  simp only [relaxedSchema, usageRecordJsonSchema, List.forall_mem_map] at hkeywords ⊢
  intro f hf w hw
  have hholds := hkeywords f hf w hw
  cases f with
  | schemaVersion =>
    simp only [Field.keywords, Field.relaxedKeywords, List.forall_mem_cons, List.not_mem_nil,
      false_imp_iff, implies_true, and_true] at hholds ⊢
    obtain ⟨htype, hconst⟩ := hholds
    refine ⟨htype, ?_⟩
    have hone : w.rational = some 1 := of_decide_eq_true hconst
    rw [Keyword.holds, hone]
    decide
  | _ => exact hholds

/-- The dict of a record of this version is described by the schema. -/
theorem validates_toPayload {r : UsageRecord} (h : r.schemaVersion = 1) :
    usageRecordJsonSchema.validates r.toPayload = true := by
  have hrelaxed := exists_fromDict_iff.1 ⟨r, fromDict_toPayload r⟩
  obtain ⟨hobject, -, hkeywords⟩ := ObjectSchema.validates_iff.1 hrelaxed
  refine ObjectSchema.validates_iff.2 ⟨hobject, ?_, ?_⟩
  · simp only [usageRecordJsonSchema, List.forall_mem_cons, List.forall_mem_map, get_toPayload,
      Option.isSome_some, implies_true, and_true]
  · simp only [relaxedSchema, usageRecordJsonSchema, List.forall_mem_map] at hkeywords ⊢
    intro f hf w hw
    have hholds := hkeywords f hf w hw
    cases f with
    | schemaVersion =>
      rw [get_toPayload] at hw
      obtain rfl := Option.some.inj hw
      rw [UsageRecord.scalar, h]
      decide
    | _ => exact hholds

/-- **The schema and the decoder agree.** What the schema describes is accepted; the dict of a
record of version 1 is described by it; and what is accepted is what its field rules describe,
where the version may be absent or newer, and anything else is a `ValueError`. -/
theorem schema_agrees :
    (∀ p, usageRecordJsonSchema.validates p = true → ∃ r, fromDict p = .ok r) ∧
    (∀ r : UsageRecord, r.schemaVersion = 1 →
      usageRecordJsonSchema.validates r.toPayload = true) ∧
    (∀ p, (∃ r, fromDict p = .ok r) ↔ relaxedSchema.validates p = true) ∧
    (∀ p e, fromDict p = .error e → e.IsValueError) :=
  ⟨fun _ h => exists_fromDict_iff.2 (relaxed_of_validates h), fun _ => validates_toPayload,
    fun _ => exists_fromDict_iff, fun p => onlyValueErrors_fromDict p⟩

end Tokenweir
