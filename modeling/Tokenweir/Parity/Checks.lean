import Tokenweir.Lib.Double
import Tokenweir.Lib.Format
import Tokenweir.Lib.Probing
import Tokenweir.Parity.Splits

/-!
# Comparisons

The model of what the parity command of `tokenweir.parity` compares without a network: the three
identities of `consistency_checks` over the turns of a transcript, and `compare_usage`, field by
field.

* `Raised`, `fstring`;
* `CheckResult`, `cacheCreationSums`, `iterationsSum`, `cacheReadMonotonic`, `consistencyChecks`;
* `FieldComparison`, `compareField`, `compareUsage`;
* `consistencyChecks_eq_ok`, `compareUsage_eq_ok`, when they do not raise.
-/

namespace Tokenweir.Parity

open ClaudeCode Probing

/-- What gets out of the command. -/
inductive Raised
  /-- A quotient of integers that is too large for a float. -/
  | overflowError
  /-- An integer of too many digits, in a formatted string. -/
  | valueError
  /-- A surrogate, in what is printed. -/
  | unicodeEncodeError

/-- A formatted string. -/
def fstring (ps : List Piece) : Except Raised (List Piece) :=
  if Formats ps then .ok ps else .error .valueError

theorem fstring_eq_ok (ps qs : List Piece) : fstring ps = .ok qs ↔ Formats ps ∧ qs = ps := by
  unfold fstring
  by_cases h : Formats ps
  · rw [if_pos h, Except.ok.injEq, eq_comm, and_iff_right h]
  · rw [if_neg h]
    exact iff_of_false (by rintro ⟨⟩) fun hps => h hps.1

/-! ### The checks of a transcript -/

/-- The status of a check. -/
inductive CheckStatus
  | pass
  | fail
  | notApplicable

/-- `str.upper` of a status. -/
def CheckStatus.upper : CheckStatus → String
  | pass => "PASS"
  | fail => "FAIL"
  | notApplicable => "NOT_APPLICABLE"

/-- `CheckResult`. -/
structure CheckResult where
  name : String
  status : CheckStatus
  detail : List Piece
  checked : ℕ
  totalTurns : ℕ
  failures : List (List Piece)

/-- The result of a check that did not run. -/
def notApplicable (name detail : String) (turns : List Turn) : CheckResult where
  name := name
  status := .notApplicable
  detail := [.words detail]
  checked := 0
  totalTurns := turns.length
  failures := []

/-- The result of a check that did run, on some things, of which some turns carried the field. -/
def checkResult (name things : String) (checked carried : ℕ) (turns : List Turn)
    (failures : List (List Piece)) : CheckResult where
  name := name
  status := if failures = [] then .pass else .fail
  detail := [.size (checked - failures.length), .words "/", .size checked, .words things,
    .words " (", .size carried, .words " of ", .size turns.length,
    .words " turns carried this field)"]
  checked := checked
  totalTurns := turns.length
  failures := failures

/-- What `_cache_creation_sums` compares of a turn: the sum of the breakdown, and the total. -/
def creation (t : Turn) : Option (ℤ × ℤ) :=
  match t.usage.get (Text.of "cache_creation"),
    numeric (t.usage.get (Text.of "cache_creation_input_tokens")) with
  | some (.obj breakdown), some total =>
    (breakdown.mapM fun kv => numeric (some kv.2)).map fun parts => (parts.sum, total)
  | _, _ => none

/-- The failures of `_cache_creation_sums`. -/
def creationFailures (turns : List Turn) : List (List Piece) :=
  turns.filterMap fun t =>
    match creation t with
    | some (summed, total) =>
      if summed ≠ total then
        some [idPiece t.messageId, .words ": cache_creation sums to ", .int summed,
          .words ", cache_creation_input_tokens is ", .int total]
      else none
    | none => none

/-- The result of `_cache_creation_sums`, with its failures. -/
def creationResult (turns : List Turn) (failures : List (List Piece)) : CheckResult :=
  let checked := (turns.filterMap creation).length
  if checked = 0 then
    notApplicable "cache_creation_sums"
      "no turn carried both a cache_creation breakdown and a total" turns
  else checkResult "cache_creation_sums" " turns consistent" checked checked turns failures

/-- `_cache_creation_sums`. -/
def cacheCreationSums (turns : List Turn) : Except Raised CheckResult := do
  let failures ← (creationFailures turns).mapM fstring
  .ok (creationResult turns failures)

/-- What `_iterations_sum` compares of a turn: the sum of the iterations, and the top level. -/
def iterations (t : Turn) : Option (TokenTotals × TokenTotals) :=
  match t.usage.get (Text.of "iterations") with
  | some (.arr xs) =>
    match xs.filter Json.isMapping with
    | [] => none
    | entries => some (entries.foldl (fun summed e => summed + fromMapping e) 0, fromMapping t.usage)
  | _ => none

/-- `TokenTotals.as_dict`, formatted. -/
def dictPieces (t : TokenTotals) : List Piece :=
  [.words "\x7b'input_tokens': ", .int (t .inputTokens),
    .words ", 'output_tokens': ", .int (t .outputTokens),
    .words ", 'cache_creation_input_tokens': ", .int (t .cacheCreationInputTokens),
    .words ", 'cache_read_input_tokens': ", .int (t .cacheReadInputTokens), .words "\x7d"]

/-- The failures of `_iterations_sum`. -/
def iterationFailures (turns : List Turn) : List (List Piece) :=
  turns.filterMap fun t =>
    match iterations t with
    | some (summed, top) =>
      if summed ≠ top then
        some ([idPiece t.messageId, .words ": iterations sum to "] ++ dictPieces summed ++
          [.words ", top level is "] ++ dictPieces top)
      else none
    | none => none

/-- The result of `_iterations_sum`, with its failures. -/
def iterationsResult (turns : List Turn) (failures : List (List Piece)) : CheckResult :=
  let checked := (turns.filterMap iterations).length
  if checked = 0 then
    notApplicable "iterations_sum" "no turn carried an iterations breakdown" turns
  else checkResult "iterations_sum" " turns consistent" checked checked turns failures

/-- `_iterations_sum`. -/
def iterationsSum (turns : List Turn) : Except Raised CheckResult := do
  let failures ← (iterationFailures turns).mapM fstring
  .ok (iterationsResult turns failures)

/-- The values of `_cache_read_monotonic`. -/
def cacheReads (turns : List Turn) : List (Option Text × ℤ) :=
  turns.filterMap fun t =>
    (numeric (t.usage.get (Text.of "cache_read_input_tokens"))).map fun value =>
      (t.messageId, value)

/-- The failures of `_cache_read_monotonic`: a value that is below the one before it. -/
def readFailures (turns : List Turn) : List (List Piece) :=
  let values := cacheReads turns
  (values.zip values.tail).filterMap fun (earlier, later) =>
    if later.2 < earlier.2 then
      some [idPiece later.1, .words ": ", .int earlier.2, .words " -> ", .int later.2]
    else none

/-- The result of `_cache_read_monotonic`, with its failures. -/
def readResult (turns : List Turn) (failures : List (List Piece)) : CheckResult :=
  let values := cacheReads turns
  if values.length < 2 then
    notApplicable "cache_read_monotonic" "fewer than two turns carried cache_read_input_tokens" turns
  else
    checkResult "cache_read_monotonic" " transitions non-decreasing" (values.length - 1)
      values.length turns failures

/-- `_cache_read_monotonic`. -/
def cacheReadMonotonic (turns : List Turn) : Except Raised CheckResult := do
  let failures ← (readFailures turns).mapM fstring
  .ok (readResult turns failures)

/-- `consistency_checks`. -/
def consistencyChecks (turns : List Turn) : Except Raised (List CheckResult) := do
  let creation ← cacheCreationSums turns
  let iterations ← iterationsSum turns
  let reads ← cacheReadMonotonic turns
  .ok [creation, iterations, reads]

/-- The results of the checks, if they do not raise. -/
def checkResults (turns : List Turn) : List CheckResult :=
  [creationResult turns (creationFailures turns), iterationsResult turns (iterationFailures turns),
    readResult turns (readFailures turns)]

theorem mapM_fstring_eq_ok {fs gs : List (List Piece)} :
    fs.mapM fstring = .ok gs ↔ (∀ f ∈ fs, Formats f) ∧ gs = fs := by
  rw [mapM_eq_ok (g := id) fstring_eq_ok, List.map_id]

/-- **The checks** raise exactly if a failure cannot be formatted. -/
theorem consistencyChecks_eq_ok {turns : List Turn} {rs : List CheckResult} :
    consistencyChecks turns = .ok rs ↔
      ((∀ f ∈ creationFailures turns, Formats f) ∧ (∀ f ∈ iterationFailures turns, Formats f) ∧
        ∀ f ∈ readFailures turns, Formats f) ∧ rs = checkResults turns := by
  unfold consistencyChecks cacheCreationSums iterationsSum cacheReadMonotonic
  simp only [bind_eq_ok, mapM_fstring_eq_ok]
  constructor
  · rintro ⟨_, ⟨_, ⟨hcreation, rfl⟩, ⟨⟩⟩, _, ⟨_, ⟨hiterations, rfl⟩, ⟨⟩⟩, _,
      ⟨_, ⟨hreads, rfl⟩, ⟨⟩⟩, ⟨⟩⟩
    exact ⟨⟨hcreation, hiterations, hreads⟩, rfl⟩
  · rintro ⟨⟨hcreation, hiterations, hreads⟩, rfl⟩
    exact ⟨_, ⟨_, ⟨hcreation, rfl⟩, rfl⟩, _, ⟨_, ⟨hiterations, rfl⟩, rfl⟩, _,
      ⟨_, ⟨hreads, rfl⟩, rfl⟩, rfl⟩

/-! ### Two usage objects -/

/-- The status of a field. -/
inductive FieldStatus
  | parity
  | offset
  | absent

/-- The words of a status. -/
def FieldStatus.words : FieldStatus → String
  | parity => "parity"
  | offset => "offset"
  | absent => "absent"

/-- `FieldComparison`. -/
structure FieldComparison where
  name : Text
  reference : Option Json
  observed : Option Json
  status : FieldStatus
  difference : Option ℤ
  ratio : Option ℚ

/-- `BILLING_FIELDS`. -/
def billingFields : List Text :=
  [Text.of CountField.inputTokens.name, Text.of CountField.outputTokens.name,
    Text.of CountField.cacheCreationInputTokens.name, Text.of CountField.cacheReadInputTokens.name]

/-- The keys of a mapping. -/
def keys : Json → List Text
  | .obj kvs => kvs.map Prod.fst
  | _ => []

/-- `isinstance(value, bool)`. -/
def isBool : Json → Bool
  | .bool _ => true
  | _ => false

/-- `_equal`, whatever `==` makes of two values. -/
def equalValues (equal : Json → Json → Bool) (left right : Json) : Bool :=
  if isBool left ≠ isBool right then false else equal left right

/-- The names that `compare_usage` reports. -/
def reportedNames (reference observed : Json) : List Text :=
  (keys reference ++ keys observed).foldl
    (fun names name => if name ∈ names then names else names ++ [name]) billingFields

/-- The comparison of a field that both sides count. -/
def countComparison (name : Text) (ref obs : ℤ) (ratio : Option ℚ) : FieldComparison where
  name := name
  reference := some (.int ref)
  observed := some (.int obs)
  status := if obs - ref = 0 then .parity else .offset
  difference := some (obs - ref)
  ratio := ratio

/-- The body of the loop of `compare_usage`. -/
def compareField (equal : Json → Json → Bool) (reference observed : Json) (name : Text) :
    Except Raised FieldComparison :=
  match reference.get name, observed.get name with
  | some ref, some obs =>
    match numeric (some ref), numeric (some obs) with
    | some refN, some obsN =>
      if refN = 0 then .ok (countComparison name refN obsN none)
      else
        match trueDivide obsN refN with
        | some ratio => .ok (countComparison name refN obsN (some ratio))
        | none => .error .overflowError
    | _, _ =>
      .ok ⟨name, some ref, some obs, if equalValues equal ref obs then .parity else .offset, none,
        none⟩
  | ref, obs => .ok ⟨name, ref, obs, .absent, none, none⟩

/-- `compare_usage`. -/
def compareUsage (equal : Json → Json → Bool) (reference observed : Json) :
    Except Raised (List FieldComparison) :=
  (reportedNames reference observed).mapM (compareField equal reference observed)

/-- A field that both sides count has a ratio, unless the reference is zero. -/
def HasRatio (reference observed : Json) (name : Text) : Prop :=
  ∀ ref obs, numeric (reference.get name) = some ref → numeric (observed.get name) = some obs →
    ref ≠ 0 → trueDivide obs ref ≠ none

/-- The comparison of a field, if it does not raise. -/
def comparison (equal : Json → Json → Bool) (reference observed : Json) (name : Text) :
    FieldComparison :=
  match reference.get name, observed.get name with
  | some ref, some obs =>
    match numeric (some ref), numeric (some obs) with
    | some refN, some obsN =>
      countComparison name refN obsN (if refN = 0 then none else trueDivide obsN refN)
    | _, _ =>
      ⟨name, some ref, some obs, if equalValues equal ref obs then .parity else .offset, none, none⟩
  | ref, obs => ⟨name, ref, obs, .absent, none, none⟩

theorem compareField_eq_ok {equal : Json → Json → Bool} {reference observed : Json} (name : Text)
    (c : FieldComparison) : compareField equal reference observed name = .ok c ↔
      HasRatio reference observed name ∧ c = comparison equal reference observed name := by
  unfold compareField HasRatio comparison
  rcases reference.get name with _ | ref
  · exact ok_eq_ok (by rintro _ _ ⟨⟩)
  rcases observed.get name with _ | obs
  · exact ok_eq_ok (by rintro _ _ _ ⟨⟩)
  dsimp only
  rcases numeric (some ref) with _ | refN
  · exact ok_eq_ok (by rintro _ _ ⟨⟩)
  rcases numeric (some obs) with _ | obsN
  · exact ok_eq_ok (by rintro _ _ _ ⟨⟩)
  dsimp only
  by_cases hzero : refN = 0
  · rw [if_pos hzero, if_pos hzero]
    refine ok_eq_ok ?_
    rintro _ _ ⟨⟩ ⟨⟩ hne
    exact absurd hzero hne
  · rw [if_neg hzero, if_neg hzero]
    rcases hratio : trueDivide obsN refN with _ | ratio
    · exact iff_of_false (by rintro ⟨⟩) fun h => h.1 _ _ rfl rfl hzero hratio
    · refine ok_eq_ok ?_
      rintro _ _ ⟨⟩ ⟨⟩ -
      rw [hratio]
      exact Option.some_ne_none ratio

/-- **The comparison of two usage objects** raises exactly if a field has no ratio. -/
theorem compareUsage_eq_ok {equal : Json → Json → Bool} {reference observed : Json}
    {cs : List FieldComparison} : compareUsage equal reference observed = .ok cs ↔
      (∀ name ∈ reportedNames reference observed, HasRatio reference observed name) ∧
        cs = (reportedNames reference observed).map (comparison equal reference observed) :=
  mapM_eq_ok compareField_eq_ok

end Tokenweir.Parity
