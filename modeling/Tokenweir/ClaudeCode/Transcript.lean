import Mathlib.Tactic
import Tokenweir.Contract.Record

/-!
# Reading a transcript

The model of the scan in `tokenweir.claude_code`. A transcript is a list of lines, each
as `json.loads` reads it after `strip`.

* `fromMapping` and `coerceCount`, the counts of an untrusted value;
* `scanLine`, `scanLines`, `scanTranscript`;
* `totals_append_le`, a longer transcript has no smaller totals.
-/

namespace Tokenweir.ClaudeCode

/-! ### Counts -/

/-- `_coerce_count`, of a value that may be missing. -/
def coerceCount : Option Json → ℕ
  | some (.int n) => n.toNat
  | some (.float (some x)) => if 0 ≤ x ∧ x.den = 1 then x.num.toNat else 0
  | _ => 0

/-- `TokenTotals.from_mapping`. -/
def fromMapping (data : Json) : TokenTotals :=
  fun f => coerceCount (data.get (Text.of f.name))

/-- `TokenTotals.covers`. -/
def covers (current baseline : TokenTotals) : Prop := ∀ f, baseline f ≤ current f

instance (current baseline : TokenTotals) : Decidable (covers current baseline) :=
  inferInstanceAs (Decidable (∀ f, baseline f ≤ current f))

theorem covers_iff {current baseline : TokenTotals} :
    covers current baseline ↔ baseline ≤ current := Iff.rfl

/-- `turn_delta`: `none` when the transcript regressed. -/
def turnDelta (current baseline : TokenTotals) : Option TokenTotals :=
  if covers current baseline then some (current - baseline) else none

theorem turnDelta_eq_some {current baseline delta : TokenTotals}
    (h : turnDelta current baseline = some delta) :
    baseline ≤ current ∧ baseline + delta = current := by
  unfold turnDelta at h
  split_ifs at h with hcov
  cases h
  refine ⟨hcov, ?_⟩
  funext f
  exact Nat.add_sub_cancel' (hcov f)

theorem turnDelta_eq_none {current baseline : TokenTotals} :
    turnDelta current baseline = none ↔ ¬ baseline ≤ current := by
  unfold turnDelta
  by_cases h : covers current baseline
  · simp [h, covers_iff.1 h]
  · simp [h, mt covers_iff.2 h]

/-! ### The scan -/

/-- A line of a transcript: blank, not JSON, or a value. -/
inductive Line
  | blank
  | notJson
  | entry (value : Json)

/-- `_text`: a non-blank string, stripped. -/
def text : Option Json → Option Text
  | some (.str s) => if s.strip = [] then none else some s.strip
  | _ => none

/-- The local variables of `scan_transcript`. -/
structure Scan where
  seen : List Text := []
  totals : TokenTotals := 0
  counted : ℕ := 0
  lastModel : Option Text := none
  lastMessageId : Option Text := none
  lastTimestamp : Option Text := none

/-- The usage a line carries, with its message and its entry. -/
def Line.usage : Line → Option (Json × Json × Json)
  | .entry value =>
    if value.isMapping then
      match value.get (Text.of "message") with
      | none => none
      | some message =>
        if message.isMapping then
          match message.get (Text.of "usage") with
          | none => none
          | some usage => if usage.isMapping then some (value, message, usage) else none
        else none
    else none
  | _ => none

/-- The body of the loop, for a line that carries usage and is no repetition. -/
def Scan.count (s : Scan) (entry message usage : Json) (identity : Option Text) : Scan where
  seen := identity.toList ++ s.seen
  totals := s.totals + fromMapping usage
  counted := s.counted + 1
  lastModel := text (message.get (Text.of "model")) <|> s.lastModel
  lastMessageId := identity
  lastTimestamp := text (entry.get (Text.of "timestamp")) <|> s.lastTimestamp

/-- The body of the loop. -/
def scanLine (s : Scan) (l : Line) : Scan :=
  match l.usage with
  | none => s
  | some (entry, message, usage) =>
    match text (message.get (Text.of "id")) with
    | none => s.count entry message usage none
    | some identity =>
      if identity ∈ s.seen then s else s.count entry message usage (some identity)

/-- The loop. -/
def scanLines (ls : List Line) : Scan := ls.foldl scanLine {}

/-- `ScanResult`. -/
structure ScanResult where
  totals : TokenTotals := 0
  counted : ℕ := 0
  lastModel : Option Text := none
  lastMessageId : Option Text := none
  lastTimestamp : Option Text := none
  readable : Bool := true

/-- How reading the file goes: it cannot be opened, it raises after some lines, or it reaches
the end. -/
inductive Reading
  | openFails
  | stopsAfter (lines : ℕ)
  | whole
  deriving DecidableEq, Repr

/-- The result of a pass over these lines. -/
def Scan.result (s : Scan) (readable : Bool) : ScanResult :=
  ⟨s.totals, s.counted, s.lastModel, s.lastMessageId, s.lastTimestamp, readable⟩

/-- `scan_transcript`. -/
def scanTranscript (file : List Line) : Reading → ScanResult
  | .openFails => { readable := false }
  | .stopsAfter n => (scanLines (file.take n)).result false
  | .whole => (scanLines file).result true

/-- The totals of the whole transcript. -/
def totals (file : List Line) : TokenTotals := (scanLines file).totals

/-! ### Growth -/

theorem scanLine_totals_le (s : Scan) (l : Line) : s.totals ≤ (scanLine s l).totals := by
  have hcount : ∀ entry message usage identity,
      s.totals ≤ (s.count entry message usage identity).totals := fun _ _ _ _ =>
    le_add_of_nonneg_right zero_le
  unfold scanLine
  split
  · exact le_rfl
  · split
    · exact hcount _ _ _ _
    · split_ifs
      · exact le_rfl
      · exact hcount _ _ _ _

theorem foldl_scanLine_totals_le (s : Scan) (ls : List Line) :
    s.totals ≤ (ls.foldl scanLine s).totals := by
  induction ls generalizing s with
  | nil => exact le_rfl
  | cons l ls ih => exact (scanLine_totals_le s l).trans (ih (scanLine s l))

/-- A longer transcript has no smaller totals. -/
theorem totals_append_le (ls ms : List Line) : totals ls ≤ totals (ls ++ ms) := by
  unfold totals scanLines
  rw [List.foldl_append]
  exact foldl_scanLine_totals_le _ ms

/-- A pass counts no more than the transcript holds. -/
theorem scanTranscript_totals_le (file : List Line) (r : Reading) :
    (scanTranscript file r).totals ≤ totals file := by
  cases r with
  | openFails => exact zero_le
  | stopsAfter n =>
    have h := totals_append_le (file.take n) (file.drop n)
    rwa [List.take_append_drop] at h
  | whole => exact le_rfl

/-- A pass that reached the end counted everything. -/
theorem scanTranscript_totals_eq {file : List Line} {r : Reading}
    (h : (scanTranscript file r).readable = true) : (scanTranscript file r).totals = totals file := by
  cases r with
  | openFails => cases h
  | stopsAfter n => cases h
  | whole => rfl

end Tokenweir.ClaudeCode
