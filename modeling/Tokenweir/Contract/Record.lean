import Mathlib.Tactic
import Tokenweir.Lib.Text

/-!
# The usage record

The model of `tokenweir.contract.UsageRecord`, for field values of their declared types.
The checks of `__post_init__` are fields of the structure, so a record that exists is
valid.

* `CountField`, `TokenTotals`, the four counts as one value;
* `PricingMode`, `isBlankChar`, `NonBlank`;
* `Fields`, the arguments of the constructor, and `UsageRecord`; `buildRecord`.
-/

namespace Tokenweir

/-! ### The counts -/

/-- `TOKEN_COUNT_FIELDS`, in the record's order. -/
inductive CountField
  | inputTokens
  | outputTokens
  | cacheCreationInputTokens
  | cacheReadInputTokens
  deriving DecidableEq, Repr

instance : Fintype CountField where
  elems := {.inputTokens, .outputTokens, .cacheCreationInputTokens, .cacheReadInputTokens}
  complete f := by cases f <;> decide

/-- The name of a field on the wire and in the store. -/
def CountField.name : CountField → String
  | .inputTokens => "input_tokens"
  | .outputTokens => "output_tokens"
  | .cacheCreationInputTokens => "cache_creation_input_tokens"
  | .cacheReadInputTokens => "cache_read_input_tokens"

/-- The four counts. They are never negative. -/
abbrev TokenTotals := CountField → ℕ

/-! ### The record -/

/-- `PricingMode`. -/
inductive PricingMode
  | apiMetered
  | subscription
  deriving DecidableEq, Repr

def PricingMode.value : PricingMode → String
  | .apiMetered => "api_metered"
  | .subscription => "subscription"

/-- `_BLANK_CHARACTERS`: Python's white space and ECMA-262's. -/
def isBlankChar (c : CodePoint) : Bool := Text.isSpace c || c.val == 0xfeff

/-- `_NON_BLANK_RE` finds a match. -/
def NonBlank (s : Text) : Prop := s.any (fun c => !isBlankChar c) = true

instance (s : Text) : Decidable (NonBlank s) := inferInstanceAs (Decidable (_ = true))

/-- The constructor's arguments. -/
structure Fields where
  requestId : Text
  appId : Text
  endpoint : Text
  model : Text
  status : Text
  workload : Option Text := none
  parentRequestId : Option Text := none
  queue : Option Text := none
  counts : TokenTotals := 0
  latencyMs : Option ℕ := none
  pricingMode : Option PricingMode := none
  ts : Option Text := none
  schemaVersion : ℕ := 1
  deriving DecidableEq

/-- `UsageRecord`: its required strings are not blank. -/
structure UsageRecord extends Fields where
  requestId_nonBlank : NonBlank requestId
  appId_nonBlank : NonBlank appId
  endpoint_nonBlank : NonBlank endpoint
  model_nonBlank : NonBlank model
  status_nonBlank : NonBlank status
  schemaVersion_pos : 1 ≤ schemaVersion
  deriving DecidableEq

/-- `build_record`: `none` where the constructor raises. -/
def buildRecord (f : Fields) : Option UsageRecord :=
  if h : NonBlank f.requestId ∧ NonBlank f.appId ∧ NonBlank f.endpoint ∧ NonBlank f.model ∧
      NonBlank f.status ∧ 1 ≤ f.schemaVersion then
    some ⟨f, h.1, h.2.1, h.2.2.1, h.2.2.2.1, h.2.2.2.2.1, h.2.2.2.2.2⟩
  else none

/-- A record that is built carries the values it was given. -/
theorem buildRecord_toFields {f : Fields} {r : UsageRecord} (h : buildRecord f = some r) :
    r.toFields = f := by
  unfold buildRecord at h
  split_ifs at h
  cases h
  rfl

end Tokenweir
