import Tokenweir.Lib.Regex
import Tokenweir.Lib.Unicode

/-!
# Phases

The model of the taxonomy of phases in `tokenweir.orchestrator`: the kinds, the labels, and the
parser of what is written for them.

* `PhaseKind`, `kindOf`; `collapse`;
* `englishOrdinal`, `parsePhase`, with the two patterns;
* `phaseLabel`, `normalizePhase`, `isCanonicalPhase`.
-/

namespace Tokenweir.Orchestrator

open Regex

/-! ### Kinds -/

/-- `PhaseKind`. -/
inductive PhaseKind
  | implementation
  | review
  | fix
  deriving DecidableEq, Repr

/-- The wire spelling of a kind. -/
def PhaseKind.value : PhaseKind → Text
  | .implementation => Text.of "implementation"
  | .review => Text.of "review"
  | .fix => Text.of "fix"

/-- `_KIND_BY_WORD`. -/
def kindByWord : List (Text × PhaseKind) :=
  [(Text.of "implementation", .implementation), (Text.of "implement", .implementation),
    (Text.of "review", .review), (Text.of "fix", .fix), (Text.of "bug fix", .fix),
    (Text.of "bug-fix", .fix), (Text.of "bugfix", .fix)]

/-- `_KIND_BY_WORD.get`. -/
def kindOf (word : Text) : Option PhaseKind := kindByWord.lookup word

/-! ### Separators -/

def blank : CodePoint := CodePoint.of ' '

def hyphen : CodePoint := CodePoint.of '-'

/-- A separator that is read as a blank. -/
def foldSeparator (c : CodePoint) : CodePoint :=
  if c = CodePoint.of '_' ∨ c = CodePoint.of '#' then blank else c

/-- Every run of white space made one blank; the flag says whether one has begun. -/
def squeeze : Bool → Text → Text
  | _, [] => []
  | inRun, c :: s =>
    if Text.isSpace c then
      if inRun then squeeze true s else blank :: squeeze true s
    else c :: squeeze false s

/-- `_collapse`. -/
def collapse (value : Text) : Text := (squeeze false (value.map foldSeparator)).strip

/-! ### Numbers -/

/-- The `ValueError`s of the module. -/
inductive OrchestratorError
  /-- Python's own: a number of more than 4300 digits. -/
  | tooManyDigits
  | unknownKind (kind : Text)
  | occurrence (n : ℤ)
  | phaseBlank
  | phaseOccurrence (phase : Text)
  | notGiven (name : String)
  | pricingMode (value : Text)
  deriving DecidableEq

/-- The digits of a number that Python converts. -/
def maxDigits : ℕ := 4300

/-- `int`, of decimal digits. -/
def int (u : Unicode) (digits : Text) : Except OrchestratorError ℕ :=
  if digits.length ≤ maxDigits then .ok (u.number digits) else .error .tooManyDigits

/-- `str`, of a positive number. -/
def str (n : ℕ) : Except OrchestratorError Text :=
  if (Text.decimal n).length ≤ maxDigits then .ok (Text.decimal n) else .error .tooManyDigits

/-- The suffix of a number in English. -/
def ordinalSuffix (n : ℕ) : Text :=
  if 11 ≤ n % 100 ∧ n % 100 ≤ 13 then Text.of "th"
  else if n % 10 = 1 then Text.of "st"
  else if n % 10 = 2 then Text.of "nd"
  else if n % 10 = 3 then Text.of "rd"
  else Text.of "th"

/-- `_english_ordinal`. -/
def englishOrdinal (u : Unicode) (digits suffix : Text) : Option ℕ :=
  match int u digits with
  | .error _ => none
  | .ok number => if u.lower suffix = ordinalSuffix number then some number else none

/-! ### The parser -/

/-- What a dot matches. -/
def notNewline (c : CodePoint) : Bool := c ≠ CodePoint.of '\n'

/-- `_LEADING_ORDINAL_RE`. -/
def leadingOrdinalRe (u : Unicode) : Regex :=
  all [group 1 (plus (one u.isDecimal)), group 2 (anyOf (word "st") [word "nd", word "rd", word "th"]),
    spaces, group 3 (many true (one notNewline)), finish]

/-- `_TRAILING_NUMBER_RE`. -/
def trailingNumberRe (u : Unicode) : Regex :=
  all [group 1 (many false (one notNewline)), alt (char '-') (plus (char ' ')),
    group 2 (plus (one u.isDecimal)), finish]

/-- `_CANONICAL_RE`. -/
def canonicalRe (u : Unicode) : Regex :=
  all [anyOf (literal PhaseKind.implementation.value)
      [literal PhaseKind.review.value, literal PhaseKind.fix.value],
    opt (seq (char '-') (seq (one fun c => CodePoint.of '1' ≤ c && c ≤ CodePoint.of '9')
      (many true (one u.isDecimal)))), finish]

/-- `_ParsedPhase`. -/
structure ParsedPhase where
  kind : Option PhaseKind := none
  occurrence : Option ℕ := none
  badOccurrence : Bool := false
  deriving DecidableEq

/-- A kind with a number: an occurrence is positive. -/
def ParsedPhase.numbered (kind : PhaseKind) (number : ℕ) : ParsedPhase :=
  if number < 1 then { kind := some kind, badOccurrence := true }
  else { kind := some kind, occurrence := some number }

/-- The number before the kind. -/
def parseLeading (u : Unicode) (lowered : Text) : Option ParsedPhase := do
  let leading ← matchAt (leadingOrdinalRe u) lowered
  let number ← englishOrdinal u ((leading.group 1).getD []) ((leading.group 2).getD [])
  let kind ← kindOf ((leading.group 3).getD []).strip
  return .numbered kind number

/-- The number after the kind. -/
def parseTrailing (u : Unicode) (lowered : Text) : Except OrchestratorError ParsedPhase :=
  match matchAt (trailingNumberRe u) lowered with
  | none => .ok {}
  | some trailing =>
    match kindOf ((trailing.group 1).getD []) with
    | none => .ok {}
    | some kind => (int u ((trailing.group 2).getD [])).map (ParsedPhase.numbered kind)

/-- `_parse_phase`. -/
def parsePhase (u : Unicode) (lowered : Text) : Except OrchestratorError ParsedPhase :=
  match kindOf lowered with
  | some direct => .ok { kind := some direct }
  | none =>
    match parseLeading u lowered with
    | some parsed => .ok parsed
    | none => parseTrailing u lowered

/-! ### Labels -/

/-- The label of a kind and an occurrence, if Python can write the number. -/
def label (kind : PhaseKind) : Option ℕ → Except OrchestratorError Text
  | none => .ok kind.value
  | some n => (str n).map fun digits => kind.value ++ hyphen :: digits

/-- What stands for a phase or a kind: a member of the enumeration, or a string. -/
inductive PhaseArg
  | member (kind : PhaseKind)
  | text (value : Text)

/-- `PhaseKind.coerce`. -/
def PhaseKind.coerce (u : Unicode) : PhaseArg → Except OrchestratorError PhaseKind
  | .member kind => .ok kind
  | .text value =>
    match kindOf (u.lower (collapse value)) with
    | some kind => .ok kind
    | none => .error (.unknownKind value)

/-- `phase_label`. -/
def phaseLabel (u : Unicode) (kind : PhaseArg) (occurrence : Option ℤ) :
    Except OrchestratorError Text := do
  let resolved ← PhaseKind.coerce u kind
  match occurrence with
  | none => .ok resolved.value
  | some n => if n < 1 then .error (.occurrence n) else label resolved (some n.toNat)

/-- `normalize_phase`, of a string. -/
def normalizePhase (u : Unicode) (value : Text) : Except OrchestratorError (Option Text) :=
  if collapse value = [] then .ok none
  else do
    let parsed ← parsePhase u (u.lower (collapse value))
    match parsed.kind, parsed.badOccurrence with
    | some kind, false => (label kind parsed.occurrence).map some
    | _, _ => return some (collapse value)

/-- `is_canonical_phase`, of a string. -/
def isCanonicalPhase (u : Unicode) (value : Text) : Bool := (matchAt (canonicalRe u) value).isSome

end Tokenweir.Orchestrator
