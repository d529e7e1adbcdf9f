import Tokenweir.Contract.Record
import Tokenweir.Lib.Except

/-!
# Records and payloads

`UsageRecord.to_dict` and `UsageRecord.from_dict`, with the constructor and its checks on
arguments of any type that JSON has, nested as deep as one likes.

* `Field`, `Scalar`, `toDict`; `ContractError`;
* `coerceWireIntegers`, `construct`, `fromDict`;
* `construct_eq_ok`, the constructor returns the record whose dict its arguments are;
  `fromDict_eq_ok`, `fromDict_toPayload`.
-/

namespace Tokenweir

/-! ### Fields -/

/-- The fields of the dataclass, in its order. -/
inductive Field
  | requestId
  | appId
  | endpoint
  | model
  | status
  | workload
  | parentRequestId
  | queue
  | count (c : CountField)
  | latencyMs
  | pricingMode
  | ts
  | schemaVersion
  deriving DecidableEq

namespace Field

/-- The name of a field, which is its key in a payload. -/
def name : Field → String
  | requestId => "request_id"
  | appId => "app_id"
  | endpoint => "endpoint"
  | model => "model"
  | status => "status"
  | workload => "workload"
  | parentRequestId => "parent_request_id"
  | queue => "queue"
  | count c => c.name
  | latencyMs => "latency_ms"
  | pricingMode => "pricing_mode"
  | ts => "ts"
  | schemaVersion => "schema_version"

def key (f : Field) : Text := Text.of f.name

/-- `dataclasses.fields`. -/
def all : List Field :=
  [requestId, appId, endpoint, model, status, workload, parentRequestId, queue,
    count .inputTokens, count .outputTokens, count .cacheCreationInputTokens,
    count .cacheReadInputTokens, latencyMs, pricingMode, ts, schemaVersion]

theorem mem_all (f : Field) : f ∈ all := by
  cases f with
  | count c => cases c <;> decide
  | _ => decide

/-- `REQUIRED_FIELDS`. -/
def required : List Field := [requestId, appId, endpoint, model, status]

/-- `TOKEN_COUNT_FIELDS`. -/
def tokenCount : List Field :=
  [count .inputTokens, count .outputTokens, count .cacheCreationInputTokens,
    count .cacheReadInputTokens]

/-- `_WIRE_INTEGER_FIELDS`. -/
def wireInteger : List Field := tokenCount ++ [latencyMs, schemaVersion]

/-- The default of a field; a required one has none, and is never missing when it is read. -/
def default : Field → Json
  | count _ => .int 0
  | schemaVersion => .int 1
  | _ => .null

end Field

/-! ### `to_dict` -/

/-- A value of a record's dict. -/
inductive Scalar
  | null
  | int (n : ℤ)
  | str (s : Text)
  deriving DecidableEq

namespace Scalar

def ofText : Option Text → Scalar
  | none => null
  | some s => str s

def ofNat : Option ℕ → Scalar
  | none => null
  | some n => int n

def ofMode : Option PricingMode → Scalar
  | none => null
  | some mode => str (Text.of mode.value)

def toJson : Scalar → Json
  | null => .null
  | int n => .int n
  | str s => .str s

end Scalar

namespace UsageRecord

/-- A field of a record, as `to_dict` writes it. -/
def scalar (r : UsageRecord) : Field → Scalar
  | .requestId => .str r.requestId
  | .appId => .str r.appId
  | .endpoint => .str r.endpoint
  | .model => .str r.model
  | .status => .str r.status
  | .workload => .ofText r.workload
  | .parentRequestId => .ofText r.parentRequestId
  | .queue => .ofText r.queue
  | .count c => .int (r.counts c)
  | .latencyMs => .ofNat r.latencyMs
  | .pricingMode => .ofMode r.pricingMode
  | .ts => .ofText r.ts
  | .schemaVersion => .int r.schemaVersion

/-- `to_dict`. -/
def toDict (r : UsageRecord) : List (Text × Scalar) :=
  Field.all.map fun f => (f.key, r.scalar f)

/-- The dict as a payload. -/
def toPayload (r : UsageRecord) : Json := .obj (r.toDict.map fun item => (item.1, item.2.toJson))

end UsageRecord

/-! ### `from_dict` -/

/-- The exceptions of the contract, with the field and the value that they name. -/
inductive ContractError
  | notMapping (payload : Json)
  | missing (fields : List Field)
  | requiredType (field : Field) (value : Json)
  | blank (field : Field)
  | optionalType (field : Field) (value : Json)
  | integerType (field : Field) (value : Json)
  | negative (field : Field) (value : ℤ)
  | versionType (value : Json)
  | version (value : ℤ)
  | pricingMode (value : Json)
  /-- Python's own: arguments that the constructor has not been given. -/
  | arguments (fields : List Field)

/-- All are a `ValueError` but the last one, which is a `TypeError`. -/
def ContractError.IsValueError : ContractError → Prop
  | .arguments _ => False
  | _ => True

/-- `_validate_required_str`. -/
def validateRequiredStr (f : Field) : Json → Except ContractError { s : Text // NonBlank s }
  | .str s => if h : NonBlank s then .ok ⟨s, h⟩ else .error (.blank f)
  | v => .error (.requiredType f v)

/-- `_validate_optional_str`. -/
def validateOptionalStr (f : Field) : Json → Except ContractError (Option Text)
  | .null => .ok none
  | .str s => .ok (some s)
  | v => .error (.optionalType f v)

/-- `_validate_non_negative_int`. -/
def validateNonNegativeInt (f : Field) (allowNone : Bool) : Json → Except ContractError (Option ℕ)
  | .null => if allowNone then .ok none else .error (.integerType f .null)
  | .int n => if n < 0 then .error (.negative f n) else .ok (some n.toNat)
  | v => .error (.integerType f v)

/-- The check of `schema_version`. -/
def validateSchemaVersion : Json → Except ContractError { n : ℕ // 1 ≤ n }
  | .int n => if h : 1 ≤ n.toNat then .ok ⟨n.toNat, h⟩ else .error (.version n)
  | v => .error (.versionType v)

/-- `PricingMode.coerce`. -/
def PricingMode.coerce : Json → Except ContractError (Option PricingMode)
  | .null => .ok none
  | .str s =>
    match [apiMetered, subscription].find? fun mode => s = Text.of mode.value with
    | some mode => .ok (some mode)
    | none => .error (.pricingMode (.str s))
  | v => .error (.pricingMode v)

/-- `__post_init__`, and the record that is left. -/
def postInit (value : Field → Json) : Except ContractError UsageRecord := do
  let requestId ← validateRequiredStr .requestId (value .requestId)
  let appId ← validateRequiredStr .appId (value .appId)
  let endpoint ← validateRequiredStr .endpoint (value .endpoint)
  let model ← validateRequiredStr .model (value .model)
  let status ← validateRequiredStr .status (value .status)
  let workload ← validateOptionalStr .workload (value .workload)
  let parentRequestId ← validateOptionalStr .parentRequestId (value .parentRequestId)
  let queue ← validateOptionalStr .queue (value .queue)
  let ts ← validateOptionalStr .ts (value .ts)
  let count (c : CountField) := validateNonNegativeInt (.count c) false (value (.count c))
  let input ← count .inputTokens
  let output ← count .outputTokens
  let cacheCreation ← count .cacheCreationInputTokens
  let cacheRead ← count .cacheReadInputTokens
  let latencyMs ← validateNonNegativeInt .latencyMs true (value .latencyMs)
  let schemaVersion ← validateSchemaVersion (value .schemaVersion)
  let pricingMode ← PricingMode.coerce (value .pricingMode)
  return {
    requestId := requestId.1
    appId := appId.1
    endpoint := endpoint.1
    model := model.1
    status := status.1
    workload, parentRequestId, queue, ts, latencyMs, pricingMode
    counts := fun
      | .inputTokens => input.getD 0
      | .outputTokens => output.getD 0
      | .cacheCreationInputTokens => cacheCreation.getD 0
      | .cacheReadInputTokens => cacheRead.getD 0
    schemaVersion := schemaVersion.1
    requestId_nonBlank := requestId.2
    appId_nonBlank := appId.2
    endpoint_nonBlank := endpoint.2
    model_nonBlank := model.2
    status_nonBlank := status.2
    schemaVersion_pos := schemaVersion.2 }

/-- The constructor, on keyword arguments. -/
def construct (kwargs : Field → Option Json) : Except ContractError UsageRecord :=
  let absent := Field.required.filter fun f => (kwargs f).isNone
  if absent ≠ [] then .error (.arguments absent)
  else postInit fun f => (kwargs f).getD f.default

/-- `_coerce_wire_integers`, of one value. -/
def coerceInteger : Json → Json
  | .float (some x) => if x.isInt then .int x.num else .float (some x)
  | v => v

/-- `_coerce_wire_integers`. -/
def coerceWireIntegers (kwargs : Field → Option Json) (f : Field) : Option Json :=
  if f ∈ Field.wireInteger then (kwargs f).map coerceInteger else kwargs f

/-- The known keys of a payload. -/
def kwargsOf (payload : Json) (f : Field) : Option Json := payload.get f.key

/-- `from_dict`. -/
def fromDict (payload : Json) : Except ContractError UsageRecord :=
  let kwargs := kwargsOf payload
  let missing := Field.required.filter fun f => (kwargs f).isNone
  if !payload.isMapping then .error (.notMapping payload)
  else if missing ≠ [] then .error (.missing missing)
  else construct (coerceWireIntegers kwargs)

/-! ### What the constructor returns -/

section Checks

variable {f : Field} {v : Json}

theorem validateRequiredStr_eq_ok {s : { s : Text // NonBlank s }} :
    validateRequiredStr f v = .ok s ↔ v = .str s.1 := by
  constructor
  · intro h
    unfold validateRequiredStr at h
    split at h
    · split at h
      · obtain rfl := Except.ok.inj h
        rfl
      · cases h
    · cases h
  · rintro rfl
    exact dif_pos s.2

theorem validateOptionalStr_eq_ok {s : Option Text} :
    validateOptionalStr f v = .ok s ↔ v = (Scalar.ofText s).toJson := by
  constructor
  · intro h
    unfold validateOptionalStr at h
    split at h
    · obtain rfl := Except.ok.inj h
      rfl
    · obtain rfl := Except.ok.inj h
      rfl
    · cases h
  · rintro rfl
    cases s <;> rfl

theorem validateNonNegativeInt_eq_ok {allowNone : Bool} {n : Option ℕ} :
    validateNonNegativeInt f allowNone v = .ok n ↔
      v = (Scalar.ofNat n).toJson ∧ (n = none → allowNone = true) := by
  constructor
  · intro h
    unfold validateNonNegativeInt at h
    split at h
    · split at h
      · obtain rfl := Except.ok.inj h
        exact ⟨rfl, fun _ => by assumption⟩
      · cases h
    · split at h
      · cases h
      · rename_i m hm
        obtain rfl := Except.ok.inj h
        refine ⟨?_, fun h => nomatch h⟩
        show Json.int m = .int (m.toNat : ℤ)
        rw [Int.toNat_of_nonneg (not_lt.1 hm)]
    · cases h
  · rintro ⟨rfl, hnone⟩
    cases n with
    | none => exact if_pos (hnone rfl)
    | some n =>
      show (if (n : ℤ) < 0 then .error (.negative f n) else Except.ok (some (n : ℤ).toNat)) = _
      rw [if_neg (Int.natCast_nonneg n).not_gt, Int.toNat_natCast]

theorem validateSchemaVersion_eq_ok {n : { n : ℕ // 1 ≤ n }} :
    validateSchemaVersion v = .ok n ↔ v = .int (n.1 : ℤ) := by
  constructor
  · intro h
    unfold validateSchemaVersion at h
    split at h
    · split at h
      · rename_i m hm
        obtain rfl := Except.ok.inj h
        show Json.int m = .int (m.toNat : ℤ)
        rw [Int.toNat_of_nonneg (by omega)]
      · cases h
    · cases h
  · rintro rfl
    exact dif_pos n.2

theorem coerce_eq_ok {mode : Option PricingMode} :
    PricingMode.coerce v = .ok mode ↔ v = (Scalar.ofMode mode).toJson := by
  constructor
  · intro h
    unfold PricingMode.coerce at h
    split at h
    · obtain rfl := Except.ok.inj h
      rfl
    · split at h
      · rename_i s mode' hmode
        obtain rfl := Except.ok.inj h
        have hs := List.find?_some hmode
        rw [of_decide_eq_true hs]
        rfl
      · cases h
    · cases h
  · rintro rfl
    rcases mode with _ | _ | _
    · rfl
    · rfl
    · rfl

end Checks

/-- The record that is left has the values it was given. -/
theorem postInit_eq_ok {value : Field → Json} {r : UsageRecord} :
    postInit value = .ok r ↔ ∀ f, value f = (r.scalar f).toJson := by
  have hsome : ∀ {n : Option ℕ}, (n = none → false = true) → ∃ m, n = some m := fun {n} h =>
    Option.ne_none_iff_exists'.1 fun hn => Bool.false_ne_true (h hn)
  unfold postInit
  simp only [bind_eq_ok, validateRequiredStr_eq_ok, validateOptionalStr_eq_ok,
    validateNonNegativeInt_eq_ok, validateSchemaVersion_eq_ok, coerce_eq_ok]
  constructor
  · rintro ⟨requestId, h₁, appId, h₂, endpoint, h₃, model, h₄, status, h₅, workload, h₆,
      parentRequestId, h₇, queue, h₈, ts, h₉, input, ⟨h₁₀, hinput⟩, output, ⟨h₁₁, houtput⟩,
      cacheCreation, ⟨h₁₂, hcreation⟩, cacheRead, ⟨h₁₃, hread⟩, latencyMs, ⟨h₁₄, -⟩,
      schemaVersion, h₁₅, pricingMode, h₁₆, h⟩ f
    obtain ⟨input, rfl⟩ := hsome hinput
    obtain ⟨output, rfl⟩ := hsome houtput
    obtain ⟨cacheCreation, rfl⟩ := hsome hcreation
    obtain ⟨cacheRead, rfl⟩ := hsome hread
    obtain rfl := Except.ok.inj h
    cases f with
    | count c => cases c <;> assumption
    | _ => assumption
  · intro h
    have hgiven : ∀ {n : ℕ}, some n = none → false = true := fun hn =>
      absurd hn (Option.some_ne_none _)
    refine ⟨⟨_, r.requestId_nonBlank⟩, h _, ⟨_, r.appId_nonBlank⟩, h _, ⟨_, r.endpoint_nonBlank⟩, h _,
      ⟨_, r.model_nonBlank⟩, h _, ⟨_, r.status_nonBlank⟩, h _, r.workload, h _,
      r.parentRequestId, h _, r.queue, h _, r.ts, h _, some _, ⟨h _, hgiven⟩, some _,
      ⟨h _, hgiven⟩, some _, ⟨h _, hgiven⟩, some _, ⟨h _, hgiven⟩, r.latencyMs,
      ⟨h _, fun _ => trivial⟩, ⟨_, r.schemaVersion_pos⟩, h _, r.pricingMode, h _, ?_⟩
    refine congrArg Except.ok ?_
    congr
    funext c
    cases c <;> rfl

/-- A required field is not left to its default. -/
theorem isSome_of_required {kwargs : Field → Option Json} {r : UsageRecord} {f : Field}
    (hf : f ∈ Field.required) (h : (kwargs f).getD f.default = (r.scalar f).toJson) :
    (kwargs f).isSome = true := by
  cases hk : kwargs f with
  | some v => rfl
  | none =>
    rw [hk, Option.getD_none] at h
    simp only [Field.required, List.mem_cons, List.not_mem_nil, or_false] at hf
    rcases hf with rfl | rfl | rfl | rfl | rfl <;> cases h

/-- **The constructor** returns the record whose dict its arguments are, with the defaults. -/
theorem construct_eq_ok {kwargs : Field → Option Json} {r : UsageRecord} :
    construct kwargs = .ok r ↔ ∀ f, (kwargs f).getD f.default = (r.scalar f).toJson := by
  unfold construct
  dsimp only
  constructor
  · intro h
    split at h
    · cases h
    · exact postInit_eq_ok.1 h
  · intro h
    rw [if_neg, postInit_eq_ok.2 h]
    rw [not_not, List.filter_eq_nil_iff]
    intro f hf hnone
    have hsome := isSome_of_required hf (h f)
    rw [Option.isNone_iff_eq_none.1 hnone] at hsome
    cases hsome

theorem coerceWireIntegers_isNone (kwargs : Field → Option Json) (f : Field) :
    (coerceWireIntegers kwargs f).isNone = (kwargs f).isNone := by
  unfold coerceWireIntegers
  split
  · exact Option.isNone_map
  · rfl

/-- **The decoder** returns the record whose dict the known keys of the payload are, with the
defaults, after integral floats have been made integers. -/
theorem fromDict_eq_ok {payload : Json} {r : UsageRecord} :
    fromDict payload = .ok r ↔ payload.isMapping = true ∧
      ∀ f, (coerceWireIntegers (kwargsOf payload) f).getD f.default = (r.scalar f).toJson := by
  unfold fromDict
  dsimp only
  constructor
  · intro h
    split at h
    · cases h
    · rename_i hmapping
      split at h
      · cases h
      · exact ⟨by simpa using hmapping, construct_eq_ok.1 h⟩
  · rintro ⟨hmapping, h⟩
    rw [hmapping, if_neg (by decide), if_neg, construct_eq_ok.2 h]
    rw [not_not, List.filter_eq_nil_iff]
    intro f hf hnone
    have hsome := isSome_of_required hf (h f)
    rw [← coerceWireIntegers_isNone] at hnone
    rw [Option.isNone_iff_eq_none.1 hnone] at hsome
    cases hsome

/-! ### Round trips -/

theorem get_toPayload (r : UsageRecord) (f : Field) :
    r.toPayload.get f.key = some (r.scalar f).toJson := by
  cases f with
  | count c => cases c <;> rfl
  | _ => rfl

/-- The dict of a record needs no coercion. -/
theorem coerceInteger_toJson (s : Scalar) : coerceInteger s.toJson = s.toJson := by
  cases s <;> rfl

/-- **The dict of a record** is read back as the record. -/
theorem fromDict_toPayload (r : UsageRecord) : fromDict r.toPayload = .ok r := by
  refine fromDict_eq_ok.2 ⟨rfl, fun f => ?_⟩
  have hkwargs : coerceWireIntegers (kwargsOf r.toPayload) f = some (r.scalar f).toJson := by
    unfold coerceWireIntegers kwargsOf
    rw [get_toPayload, Option.map_some, coerceInteger_toJson, ite_self]
  rw [hkwargs, Option.getD_some]

/-! ### What the decoder raises -/

/-- Any exception is a `ValueError`. -/
def OnlyValueErrors {α : Type} (x : Except ContractError α) : Prop :=
  ∀ e, x = .error e → e.IsValueError

section Raises

variable {α β : Type}

theorem onlyValueErrors_ok (a : α) : OnlyValueErrors (.ok a) := fun _ h => nomatch h

theorem onlyValueErrors_error {e : ContractError} (h : e.IsValueError) :
    OnlyValueErrors (.error e : Except ContractError α) := by
  rintro _ ⟨⟩
  exact h

theorem OnlyValueErrors.bind {x : Except ContractError α} {g : α → Except ContractError β}
    (hx : OnlyValueErrors x) (hg : ∀ a, OnlyValueErrors (g a)) : OnlyValueErrors (x >>= g) := by
  cases x with
  | error e => exact onlyValueErrors_error (hx e rfl)
  | ok a => exact hg a

theorem onlyValueErrors_requiredStr (f : Field) (v : Json) :
    OnlyValueErrors (validateRequiredStr f v) := by
  unfold validateRequiredStr
  split
  · split
    · exact onlyValueErrors_ok _
    · exact onlyValueErrors_error trivial
  · exact onlyValueErrors_error trivial

theorem onlyValueErrors_optionalStr (f : Field) (v : Json) :
    OnlyValueErrors (validateOptionalStr f v) := by
  unfold validateOptionalStr
  split
  · exact onlyValueErrors_ok _
  · exact onlyValueErrors_ok _
  · exact onlyValueErrors_error trivial

theorem onlyValueErrors_nonNegativeInt (f : Field) (allowNone : Bool) (v : Json) :
    OnlyValueErrors (validateNonNegativeInt f allowNone v) := by
  unfold validateNonNegativeInt
  split
  · split
    · exact onlyValueErrors_ok _
    · exact onlyValueErrors_error trivial
  · split
    · exact onlyValueErrors_error trivial
    · exact onlyValueErrors_ok _
  · exact onlyValueErrors_error trivial

theorem onlyValueErrors_schemaVersion (v : Json) : OnlyValueErrors (validateSchemaVersion v) := by
  unfold validateSchemaVersion
  split
  · split
    · exact onlyValueErrors_ok _
    · exact onlyValueErrors_error trivial
  · exact onlyValueErrors_error trivial

theorem onlyValueErrors_coerce (v : Json) : OnlyValueErrors (PricingMode.coerce v) := by
  unfold PricingMode.coerce
  split
  · exact onlyValueErrors_ok _
  · split
    · exact onlyValueErrors_ok _
    · exact onlyValueErrors_error trivial
  · exact onlyValueErrors_error trivial

theorem onlyValueErrors_postInit (value : Field → Json) : OnlyValueErrors (postInit value) := by
  unfold postInit
  iterate 5 refine (onlyValueErrors_requiredStr _ _).bind fun _ => ?_
  iterate 4 refine (onlyValueErrors_optionalStr _ _).bind fun _ => ?_
  iterate 5 refine (onlyValueErrors_nonNegativeInt _ _ _).bind fun _ => ?_
  refine (onlyValueErrors_schemaVersion _).bind fun _ => ?_
  refine (onlyValueErrors_coerce _).bind fun _ => ?_
  exact onlyValueErrors_ok _

/-- **The decoder** raises nothing else: Python's own `TypeError` for a missing argument is not
reached. -/
theorem onlyValueErrors_fromDict (payload : Json) : OnlyValueErrors (fromDict payload) := by
  unfold fromDict
  dsimp only
  split
  · exact onlyValueErrors_error trivial
  · split
    · exact onlyValueErrors_error trivial
    · rename_i hmissing
      unfold construct
      simp only [coerceWireIntegers_isNone]
      rw [if_neg hmissing]
      exact onlyValueErrors_postInit _

end Raises

end Tokenweir
