import Tokenweir.Parity.Probes

/-!
# The parity command

The model of `main` of `tokenweir.parity`, probe after probe, up to the report that it prints and
its exit status.

* `Args`, `Setting`, what a run is given;
* `Line`, `Line.pieces`, the lines of the report; `say`, `sayAll`, `printed`;
* `envelopeStage`, `probeA`, `probeAResult`, `accountLine`, `probeAPrime`, `verdict`, `probeB`;
* `report`, `probes`, `main`.
-/

namespace Tokenweir.Parity

open ClaudeCode Probing

/-! ### What a run is given -/

/-- The arguments, as they are parsed: the model is not blank. -/
structure Args where
  transcript : Text
  model : Text
  model_not_blank : model.strip ≠ []
  control : Bool
  sample : ℤ
  sample_prints : Prints sample

/-- The arguments, the transcript, where the credential comes from, what the requests are answered,
and what `==` makes of two values. -/
structure Setting where
  args : Args
  file : List ClaudeCode.Line
  reading : Reading
  environment : Option Text
  credentialFile : Option Text
  opener : ℕ → Request → Reply
  equal : Json → Json → Bool

/-! ### Lines -/

/-- The lines of the report. -/
inductive Line
  /-- A line without anything in it. -/
  | fixed (words : String)
  | transcript (path : Text)
  | turnsRead (n : ℕ)
  | model (name : Text)
  | check (name : String) (status : CheckStatus) (detail : List Piece)
  | failure (pieces : List Piece)
  | moreFailures (n : ℕ)
  | envelopeFailed (message : Text)
  | envelope (e : ℤ) (length : ℕ)
  | turnFailed (id : Option Text) (message : Text)
  | turnIncomparable (id : Option Text)
  | turnWithoutEnvelope (id : Option Text) (reported tokenizer : ℤ)
  | turnMeasured (id : Option Text) (reported tokenizer bare offset : ℤ)
  | constant (offset : ℤ) (n : ℕ)
  | varies (distinct : List ℤ) (n : ℕ)
  | ratios (lowest highest : ℚ)
  | counts (measured eligible excluded unrecoverable separatelyCounted noText accounted total : ℕ)
  | shortfall (n : ℕ) (sample : ℤ)
  | failed (message : Text)
  | promptMeasured (reported bare thinking offset : ℤ)
  | controlConstant (offset : ℤ) (n : ℕ)
  | controlVaries (distinct : List ℤ)
  | parity (c : ℤ)
  | difference (c api : ℤ)
  | transcriptOnly (c : ℤ)
  | drift (distinct : List ℤ)
  | rowCompared (id : Option Text)
  | apiKeys (keys : List Text)
  | transcriptKeys (keys : List Text)
  | comparison (c : FieldComparison)

/-- What is formatted for a line. -/
def Line.pieces : Line → List Piece
  | fixed words => [.words words]
  | transcript path => [.words "transcript: ", .raw path]
  | turnsRead n => [.words "turns with usage: ", .size n]
  | model name => [.words "model (API probes): ", .raw name]
  | check name status detail =>
    [.words "  ", .words name, .words ": ", .words status.upper, .words " — "] ++ detail
  | failure pieces => .words "      " :: pieces
  | moreFailures n => [.words "      … and ", .size n, .words " more"]
  | envelopeFailed message => [.words "count_tokens envelope: FAILED — ", .raw message]
  | envelope e length =>
    [.words "count_tokens envelope E = ", .int e,
      .words " tokens (derived as 2*c1-c2 by doubling a ", .size length,
      .words "-char turn; bare text count = count_tokens - E)"]
  | turnFailed id message => [.words "  ", idPiece id, .words ": FAILED — ", .raw message]
  | turnIncomparable id => [.words "  ", idPiece id, .words ": incomparable (a count was absent)"]
  | turnWithoutEnvelope id reported tokenizer =>
    [.words "  ", idPiece id, .words ": transcript ", .int reported, .words ", count_tokens ",
      .int tokenizer, .words " (no envelope: bare count unavailable)"]
  | turnMeasured id reported tokenizer bare offset =>
    [.words "  ", idPiece id, .words ": transcript ", .int reported, .words ", count_tokens ",
      .int tokenizer, .words ", bare text ", .int bare, .words ", transcript-bare ", .signed offset]
  | constant offset n =>
    [.words "  Probe A result: transcript = bare_text ", .signed offset,
      .words ", CONSTANT across ", .size n, .words " turn(s) — no scale factor."]
  | varies distinct n =>
    [.words "  Probe A result: difference VARIES across ", .size n, .words " turn(s): "] ++
      listPieces distinct ++ [.words " — investigate before trusting subscription numbers."]
  | ratios lowest highest =>
    [.words "  (ratio transcript/bare spans ", .fixed lowest, .words "-", .fixed highest,
      .words "; a scale factor would hold this constant and grow the difference instead)"]
  | counts measured eligible excluded unrecoverable separatelyCounted noText accounted total =>
    [.words "  ", .size measured, .words " of ", .size eligible,
      .words " eligible turn(s) measured; ", .size excluded, .words " excluded (",
      .size unrecoverable, .words " unmeasurable — tool_use or unrecoverable thinking; ",
      .size separatelyCounted, .words " with thinking counted separately; ", .size noText,
      .words " with no text at all); ", .size accounted, .words " accounted for of ", .size total,
      .words " total"]
  | shortfall n sample =>
    [.words "  NOTE: ", .size n, .words " eligible turn(s) were not measured (--sample ",
      .int sample, .words ")"]
  | failed message => [.words "  FAILED — ", .raw message]
  | promptMeasured reported bare thinking offset =>
    [.words "  api ", .int reported, .words ", bare text ", .int bare, .words ", thinking ",
      .int thinking, .words ", api-(text+thinking) ", .signed offset]
  | controlConstant offset n =>
    [.words "  Probe A' result: api = bare_text + thinking ", .signed offset,
      .words ", CONSTANT across ", .size n, .words " call(s)."]
  | controlVaries distinct => .words "  Probe A' result: VARIES: " :: listPieces distinct
  | parity c =>
    [.words "  ==> PARITY. One rule, one constant (", .signed c,
      .words "), both auth modes. No correction factor."]
  | difference c api =>
    [.words "  ==> DIFFERENCE. Transcript constant ", .signed c,
      .words " vs api constant ", .signed api,
      .words ": the gap is the correction to carry with the emitter."]
  | transcriptOnly c =>
    [.words "  ==> Transcript side only: a constant offset of ", .signed c,
      .words " against the tokenizer, so the counts are real tokens and unscaled. Whether the ",
      .words "API reports the *same* constant is the API-side control question — re-run with ",
      .words "--control to confirm it, or see docs/parity-subscription-vs-api.md for the ",
      .words "recorded result."]
  | drift distinct =>
    .words "  ==> DRIFT on the transcript side: the offset varies (" :: listPieces distinct ++
      [.words "). Re-run with --control before trusting subscription numbers."]
  | rowCompared id => [.words "  transcript row compared: ", idPiece id]
  | apiKeys ks => [.words "  API usage keys:        ", .keys ks]
  | transcriptKeys ks => [.words "  transcript usage keys: ", .keys ks]
  | comparison c =>
    [.words "    ", .raw c.name, .words ": ", .words c.status.words, .words " (api=",
      strPiece c.reference, .words ", transcript=", strPiece c.observed, .words ")"]

/-- A line is formatted. -/
def say (l : Line) : Except Raised Line :=
  if Formats l.pieces then .ok l else .error .valueError

/-- Some lines are formatted. -/
def sayAll (ls : List Line) : Except Raised (List Line) := ls.mapM say

/-- The report is printed, and the exit status returned. -/
def printed (status : ℕ) (report : List Line) : Except Raised (ℕ × List Line) :=
  if ∀ l ∈ report, Encodable l.pieces then .ok (status, report) else .error .unicodeEncodeError

/-- An empty line. -/
def blankLine : Line := .fixed ""

/-- `_render_checks`. -/
def renderChecks (results : List CheckResult) : List Line :=
  .fixed "Probe C — internal consistency of the Max transcript (offline)" ::
    results.flatMap fun r =>
      .check r.name r.status r.detail :: (r.failures.take 5).map .failure ++
        (if 5 < r.failures.length then [.moreFailures (r.failures.length - 5)] else [])

/-! ### Probe A -/

/-- The turns in the headline. -/
def eligible (turns : List Turn) : List Turn := turns.filter isHeadlineEligible

/-- The turns that are not. -/
def excluded (turns : List Turn) : List Turn := turns.filter fun t => !isHeadlineEligible t

/-- The first of the turns with the longest text, of a list that begins with one. -/
def longestOf (t : Turn) (turns : List Turn) : Turn :=
  turns.foldl (fun l t => if l.outputText.length < t.outputText.length then t else l) t

/-- What a probe comes to: its lines, its failures, and the number of the next request. -/
structure Stage where
  lines : List Line
  failures : ℕ
  next : ℕ

/-- The derivation of the envelope. -/
def envelopeStage (p : ApiProbe) (model : Text) (textOnly : List Turn) :
    Except Raised (Stage × Option ℤ) :=
  match textOnly with
  | [] => .ok (⟨[blankLine], 0, 0⟩, none)
  | t :: ts => do
    let longest := longestOf t ts
    match p.envelope model longest.outputText 0 with
    | (.error message, next) =>
      let l ← say (.envelopeFailed message)
      .ok (⟨[l, blankLine], 1, next⟩, none)
    | (.ok e, next) =>
      let l ← say (.envelope e longest.outputText.length)
      .ok (⟨[l, blankLine], 0, next⟩, some e)

/-- The local variables of the loop of Probe A. -/
structure LoopA where
  lines : List Line := []
  measured : ℕ := 0
  offsets : List ℤ := []
  ratios : List ℚ := []
  failures : ℕ := 0
  broke : Bool := false

/-- `reported / bare`, if `bare` is not zero. -/
def ratioOf (reported bare : ℤ) : Except Raised (List ℚ) :=
  if bare = 0 then .ok []
  else
    match trueDivide reported bare with
    | some ratio => .ok [ratio]
    | none => .error .overflowError

/-- The body of the loop of Probe A, after its requests. -/
def LoopA.note (envelope : Option ℤ) (s : LoopA) (t : Turn) : TurnAnswer → Except Raised LoopA
  | .failed message => do
    let l ← say (.turnFailed t.messageId message)
    .ok { s with lines := s.lines ++ [l], failures := s.failures + 1, broke := true }
  | .incomparable => do
    let l ← say (.turnIncomparable t.messageId)
    .ok { s with lines := s.lines ++ [l] }
  | .measured reported tokenizer =>
    match envelope with
    | none => do
      let l ← say (.turnWithoutEnvelope t.messageId reported tokenizer)
      .ok { s with lines := s.lines ++ [l], measured := s.measured + 1 }
    | some e => do
      let bare := tokenizer - e
      let offset := reported - bare
      let ratio ← ratioOf reported bare
      let l ← say (.turnMeasured t.messageId reported tokenizer bare offset)
      .ok { s with
        lines := s.lines ++ [l]
        measured := s.measured + 1
        offsets := s.offsets ++ [offset]
        ratios := s.ratios ++ ratio }

/-- `turns[:sample]`. -/
def slice (turns : List Turn) (sample : ℤ) : List Turn :=
  turns.take (if sample < 0 then turns.length + sample else sample).toNat

/-- The loop of Probe A. -/
def probeA (p : ApiProbe) (a : Args) (textOnly : List Turn) (envelope : Option ℤ) (next : ℕ) :
    Except Raised (LoopA × ℕ) :=
  probe (askTurn p a.model) TurnAnswer.breaks (LoopA.note envelope) (slice textOnly a.sample) {} next

/-- `sorted(set(offsets))`. -/
def sortedSet (offsets : List ℤ) : List ℤ := offsets.dedup.insertionSort (· ≤ ·)

/-- The result of Probe A. -/
def probeAResult (offsets : List ℤ) (ratios : List ℚ) : List Line :=
  if offsets = [] then []
  else
    [blankLine,
      match sortedSet offsets with
      | [c] => .constant c offsets.length
      | distinct => .varies distinct offsets.length] ++
    match ratios with
    | r :: s :: rs => [.ratios ((s :: rs).foldl min r) ((s :: rs).foldl max r)]
    | _ => []

/-- An excluded turn is unrecoverable. -/
def isUnrecoverable (t : Turn) : Bool := t.hasUnaccountedBlocks || t.thinkingTokens ≠ 0

/-- An excluded turn is counted separately. -/
def isSeparatelyCounted (t : Turn) : Bool := !isUnrecoverable t && t.thinkingText ≠ []

/-- The line that accounts for all turns. -/
def accountLine (turns : List Turn) (measured : ℕ) : Line :=
  let unrecoverable := (excluded turns).countP isUnrecoverable
  let separatelyCounted := (excluded turns).countP isSeparatelyCounted
  .counts measured (eligible turns).length (excluded turns).length unrecoverable separatelyCounted
    ((excluded turns).length - unrecoverable - separatelyCounted)
    ((eligible turns).length + (excluded turns).length) turns.length

/-- Probe A measured nothing, and did not break. -/
def noneMeasured (turns : List Turn) (s : LoopA) : Prop :=
  eligible turns ≠ [] ∧ s.measured = 0 ∧ s.broke = false

instance (turns : List Turn) (s : LoopA) : Decidable (noneMeasured turns s) :=
  inferInstanceAs (Decidable (eligible turns ≠ [] ∧ s.measured = 0 ∧ s.broke = false))

/-- The failures up to the end of Probe A. -/
def failuresA (turns : List Turn) (e : Stage) (s : LoopA) : ℕ :=
  e.failures + (if eligible turns = [] then 1 else 0) + s.failures +
    (if noneMeasured turns s then 1 else 0)

/-- The lines after the loop of Probe A: its result, the account of all turns, and what the sample
left out. -/
def afterA (a : Args) (turns : List Turn) (e : Stage) (s : LoopA) : List Line :=
  probeAResult s.offsets s.ratios ++ [accountLine turns s.measured] ++
    (if eligible turns ≠ [] ∧ s.measured < (eligible turns).length ∧ failuresA turns e s = 0 then
      [.shortfall ((eligible turns).length - s.measured) a.sample] else [])

/-! ### Probe A' and the verdict -/

/-- The local variables of the loop of Probe A'. -/
structure LoopAPrime where
  lines : List Line := []
  offsets : List ℤ := []
  failures : ℕ := 0
  broke : Bool := false

/-- The body of the loop of Probe A', after its requests. -/
def LoopAPrime.note (envelope : ℤ) (s : LoopAPrime) : PromptAnswer → Except Raised LoopAPrime
  | .failed message => do
    let l ← say (.failed message)
    .ok { s with lines := s.lines ++ [l], failures := s.failures + 1, broke := true }
  | .unreported =>
    .ok { s with lines := s.lines ++ [.fixed "  incomparable (no output_tokens, or no text produced)"] }
  | .uncounted => .ok { s with lines := s.lines ++ [.fixed "  incomparable (no count returned)"] }
  | .measured reported tokenizer thinking => do
    let bare := tokenizer - envelope
    let offset := reported - bare - thinking
    let l ← say (.promptMeasured reported bare thinking offset)
    .ok { s with lines := s.lines ++ [l], offsets := s.offsets ++ [offset] }

/-- The end of Probe A', after its loop: its lines, and its offsets. -/
def afterAPrime (s : LoopAPrime) (next : ℕ) : Stage × List ℤ :=
  if s.offsets = [] ∧ s.broke = false then
    (⟨s.lines ++ [.fixed ("  Probe A' measured 0 of the control prompt(s) (every response was " ++
      "incomparable) — control NOT MEASURED")], s.failures + 1, next⟩, [])
  else (⟨s.lines, s.failures, next⟩, s.offsets)

/-- Probe A' when it is skipped. -/
def skippedAPrime (a : Args) (next : ℕ) : Stage :=
  if !a.control then
    ⟨[.fixed ("  SKIPPED (pass --control to run it; it is the only expensive probe — 4 " ++
      "generations. Probe B below still generates once, 16 tokens.)")], 0, next⟩
  else ⟨[.fixed "  SKIPPED (no envelope, so a bare count cannot be recovered)"], 0, next⟩

/-- Probe A', and its offsets. -/
def probeAPrime (p : ApiProbe) (a : Args) (envelope : Option ℤ) (next : ℕ) :
    Except Raised (Stage × List ℤ) :=
  if !a.control then .ok (skippedAPrime a next, [])
  else
    match envelope with
    | none => .ok (skippedAPrime a next, [])
    | some e => do
      let (s, next) ← probe (askPrompt p a.model) PromptAnswer.breaks
        (fun s _ r => LoopAPrime.note e s r) controlPrompts {} next
      .ok (afterAPrime s next)

/-- The verdict, of the offsets of the transcript and of those of the control. -/
def verdict (offsets apiOffsets : List ℤ) : List Line :=
  if apiOffsets ≠ [] then
    [blankLine,
      match sortedSet apiOffsets with
      | [c] => .controlConstant c apiOffsets.length
      | distinct => .controlVaries distinct,
      match sortedSet apiOffsets, sortedSet offsets with
      | [api], [transcript] =>
        if api = transcript then .parity api else .difference transcript api
      | _, _ => .fixed "  ==> NO VERDICT: a constant was not established on both sides."]
  else if offsets ≠ [] then
    match sortedSet offsets with
    | [c] => [.transcriptOnly c]
    | distinct => [.drift distinct]
  else []

/-! ### Probe B -/

/-- `sorted` of some keys. -/
def sortedKeys (usage : Json) : List Text := (keys usage).insertionSort fun s t => s.le t

/-- The last turn, of a list that begins with one. -/
def lastTurn (t : Turn) (ts : List Turn) : Turn := ts.getLast?.getD t

/-- Probe B, against the last turn. -/
def probeB (p : ApiProbe) (a : Args) (equal : Json → Json → Bool) (reference : Turn) (next : ℕ) :
    Except Raised (List Line × ℕ) :=
  match p.messages a.model (Text.of "Reply with the single word: ok") 16 next with
  | .error message => do
    let l ← say (.failed message)
    .ok ([l], 1)
  | .ok (usage, _) => do
    let head ← sayAll [.rowCompared reference.messageId, .apiKeys (sortedKeys usage),
      .transcriptKeys (sortedKeys reference.usage)]
    let comparisons ← compareUsage equal usage reference.usage
    let lines ← sayAll ((comparisons.filter fun c => c.name ∈ billingFields).map .comparison)
    .ok (head ++ lines, 0)

/-! ### The command -/

/-- The first lines. -/
def heading (a : Args) (turns : List Turn) : List Line :=
  [.transcript a.transcript, .turnsRead turns.length, .model a.model, blankLine]

/-- The last lines of a run without a credential. -/
def partialRun : List Line :=
  [.fixed "Probe A — output-side parity: SKIPPED (no credential configured)",
    .fixed "Probe A' — API-side control: SKIPPED (no credential configured)",
    .fixed "Probe B — API usage field shape: SKIPPED (no credential configured)",
    blankLine,
    .fixed "This is a PARTIAL run. Set ANTHROPIC_API_KEY or pass --credential-file",
    .fixed "to run the probes that need the provider's tokenizer."]

/-- The report of the probes, of what each of them came to. -/
def report (turns : List Turn) (e : Stage) (s : LoopA) (after control judged shape : List Line) :
    List Line :=
  e.lines ++
    [.fixed "Probe A — output-side parity (transcript vs the tokenizer, same text)"] ++
    (if eligible turns = [] then
      [.fixed "  no eligible turn was available; headline NOT MEASURED"] else []) ++
    s.lines ++
    (if noneMeasured turns s then
      [.fixed ("  Probe A measured 0 of the eligible turn(s) sampled (every count was " ++
        "absent) — headline NOT MEASURED")] else []) ++
    after ++ [blankLine] ++
    [.fixed "Probe A' — the same arithmetic on the API's own generations"] ++ control ++ judged ++
    [blankLine, .fixed "Probe B — the API's own usage field shape"] ++ shape

/-- The probes, with a credential, of the turns of a transcript that has some: what is printed of
them, and the number of failures. -/
def probes (s : Setting) (p : ApiProbe) (t : Turn) (ts : List Turn) :
    Except Raised (List Line × ℕ) := do
  let turns := t :: ts
  let (e, envelope) ← envelopeStage p s.args.model (eligible turns)
  let (a, next) ← probeA p s.args (eligible turns) envelope e.next
  let after ← sayAll (afterA s.args turns e a)
  let (c, apiOffsets) ← probeAPrime p s.args envelope next
  let judged ← sayAll (verdict a.offsets apiOffsets)
  let (b, failed) ← probeB p s.args s.equal (lastTurn t ts) c.next
  .ok (report turns e a after c.lines judged b, failuresA turns e a + c.failures + failed)

/-- `main`: the exit status, and what is printed. -/
def main (s : Setting) : Except Raised (ℕ × List Line) :=
  match iterTurns s.file s.reading with
  | [] =>
    printed 1 (heading s.args [] ++ [.fixed "No turns with usage were read — nothing to measure."])
  | t :: ts => do
    let checks ← consistencyChecks (t :: ts)
    let head := heading s.args (t :: ts) ++ renderChecks checks ++ [blankLine]
    match credential s.environment s.credentialFile with
    | none => printed 2 (head ++ partialRun)
    | some key =>
      if key.strip = [] then .error .valueError
      else do
        let (lines, failures) ← probes s ⟨key, s.opener⟩ t ts
        printed (if failures ≠ 0 then 3 else 0) (head ++ lines)

end Tokenweir.Parity
