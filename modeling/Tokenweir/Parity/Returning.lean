import Tokenweir.Parity.Outcome

/-!
# When the parity command returns

The command does not raise exactly if what it formats and prints can be formatted and printed, and
then it comes to its `outcome`.

* `ChecksFit`, `ProbesFit`, `Fits`, the condition on the transcript and the answers;
* `probesOutcome`, `probes_eq_ok`, `probesFit_iff`; `checksFit_iff`;
* `outcome`, `main_eq_ok`.
-/

namespace Tokenweir.Parity

open ClaudeCode Probing

/-- The turns of a transcript. -/
def Setting.turns (s : Setting) : List Turn := iterTurns s.file s.reading

/-- The probe of a run, if a credential is configured. -/
def Setting.probe (s : Setting) : Option ApiProbe :=
  (credential s.environment s.credentialFile).map fun key => ⟨key, s.opener⟩

/-! ### The condition -/

/-- The failures of the checks can be formatted, and those shown can be printed. -/
def ChecksFit (turns : List Turn) : Prop :=
  ∀ fs ∈ [creationFailures turns, iterationFailures turns, readFailures turns],
    (∀ f ∈ fs, Formats f) ∧ ∀ f ∈ fs.take 5, Encodable f

/-- What the probes come to can be printed. -/
structure ProbesFit (p : ApiProbe) (a : Args) (ts : List Turn) (reference : Turn) : Prop where
  derived : EnvelopeFits p a.model (eligible ts)
  turns : ∀ x ∈ (turnAnswers p a (eligible ts)).1,
    TurnFits (envelopeOf p a.model (eligible ts)) x
  prompts : ∀ x ∈ (promptAnswers p a (eligible ts)).1,
    PromptFits (controlEnvelope p a (eligible ts)) x
  shape : ShapeFits (shapeAnswer p a (eligible ts)) reference

/-- What the command formats and prints can be formatted and printed: the path and the model have
no surrogates, and so on for each message id, message and value that is shown; no integer that is
shown has more than 4300 digits; and no quotient is too large for a float. -/
structure Fits (s : Setting) : Prop where
  transcript : Encodes s.args.transcript
  model : Encodes s.args.model
  checks : ChecksFit s.turns
  probes : ∀ p ∈ s.probe, ∀ reference ∈ s.turns.getLast?, ProbesFit p s.args s.turns reference

variable {p : ApiProbe} {a : Args} {ts : List Turn}

/-! ### What a run comes to -/

theorem prints_turnOffsets (h : ∀ x ∈ (turnAnswers p a (eligible ts)).1,
    TurnFormats (envelopeOf p a.model (eligible ts)) x) :
    ∀ n ∈ (turnOutcome p a (eligible ts)).offsets, Prints n := by
  rw [turnOutcome_eq]
  exact prints_of_offset h

theorem afterAPrime_offsets (s : LoopAPrime) (next : ℕ) : (afterAPrime s next).2 = s.offsets := by
  unfold afterAPrime
  split
  · rename_i h
    exact h.1.symm
  · rfl

/-- The offsets of Probe A': those of its loop, if it was run. -/
theorem mem_controlOffsets {textOnly : List Turn} {n : ℤ} :
    n ∈ (controlOutcome p a textOnly).2 ↔ ∃ e ∈ controlEnvelope p a textOnly,
      n ∈ (promptAnswers p a textOnly).1.filterMap (promptOffset e) := by
  unfold controlOutcome
  cases controlEnvelope p a textOnly with
  | none => simp
  | some e =>
    dsimp only
    rw [afterAPrime_offsets]
    simp [promptOutcome]

theorem prints_controlOffsets {textOnly : List Turn}
    (h : ∀ e ∈ controlEnvelope p a textOnly, ∀ x ∈ (promptAnswers p a textOnly).1,
      PromptFormats e x) : ∀ n ∈ (controlOutcome p a textOnly).2, Prints n := by
  intro n hn
  obtain ⟨e, he, hmem⟩ := mem_controlOffsets.1 hn
  exact prints_of_promptOffset (h e he) n hmem

/-- The probes do not raise. -/
structure ProbesFormat (p : ApiProbe) (a : Args) (equal : Json → Json → Bool) (ts : List Turn)
    (reference : Turn) : Prop where
  derived : ∀ e ∈ envelopeOf p a.model (eligible ts), Prints e
  turns : ∀ x ∈ (turnAnswers p a (eligible ts)).1,
    TurnFormats (envelopeOf p a.model (eligible ts)) x
  prompts : ∀ e ∈ controlEnvelope p a (eligible ts), ∀ x ∈ (promptAnswers p a (eligible ts)).1,
    PromptFormats e x
  shape : ShapeFormats equal (shapeAnswer p a (eligible ts)) reference

/-- What the probes come to: what is printed of them, and the number of failures. -/
def probesOutcome (p : ApiProbe) (a : Args) (equal : Json → Json → Bool) (ts : List Turn)
    (reference : Turn) : List Line × ℕ :=
  let e := envelopeOutcome p a.model (eligible ts)
  let s := turnOutcome p a (eligible ts)
  let c := controlOutcome p a (eligible ts)
  let b := shapeOutcome equal (shapeAnswer p a (eligible ts)) reference
  (report ts e s (afterA a ts e s) c.1.lines (verdict s.offsets c.2) b.1,
    failuresA ts e s + c.1.failures + b.2)

/-- **The probes** raise exactly if one of them does. -/
theorem probes_eq_ok {s : Setting} {t : Turn} {ts : List Turn} {r : List Line × ℕ} :
    probes s p t ts = .ok r ↔
      ProbesFormat p s.args s.equal (t :: ts) (lastTurn t ts) ∧
        r = probesOutcome p s.args s.equal (t :: ts) (lastTurn t ts) := by
  unfold probes
  simp only [bind_eq_ok, envelopeStage_eq_ok, sayAll_eq_ok]
  constructor
  · rintro ⟨_, ⟨hderived, rfl⟩, x, hx, h⟩
    obtain ⟨hturns, rfl⟩ := probeA_eq_ok.1 hx
    obtain ⟨_, ⟨-, rfl⟩, y, hy, h⟩ := h
    obtain ⟨hprompts, rfl⟩ := probeAPrime_eq_ok.1 hy
    obtain ⟨_, ⟨-, rfl⟩, z, hz, h⟩ := h
    obtain ⟨hshape, rfl⟩ := probeB_eq_ok.1 hz
    exact ⟨⟨hderived, hturns, hprompts, hshape⟩, (Except.ok.inj h).symm⟩
  · rintro ⟨⟨hderived, hturns, hprompts, hshape⟩, rfl⟩
    have hoffsets := prints_turnOffsets hturns
    have hcontrol := prints_controlOffsets hprompts
    exact ⟨_, ⟨hderived, rfl⟩, _, probeA_eq_ok.2 ⟨hturns, rfl⟩, _,
      ⟨fun l => formats_afterA hoffsets, rfl⟩, _, probeAPrime_eq_ok.2 ⟨hprompts, rfl⟩, _,
      ⟨fun l => formats_verdict hoffsets hcontrol, rfl⟩, _, probeB_eq_ok.2 ⟨hshape, rfl⟩, rfl⟩

/-! ### What can be printed -/

/-- A line with nothing in it can be printed. -/
theorem encodable_snoc {ls : List Line} {words : String} :
    (∀ l ∈ ls ++ [Line.fixed words], Encodable l.pieces) ↔ ∀ l ∈ ls, Encodable l.pieces := by
  rw [List.forall_mem_append, and_iff_left]
  intro l hl
  rw [List.mem_singleton.1 hl]
  exact encodable_fixed words

theorem forall_mem_ite {P : Line → Prop} {c : Prop} [Decidable c] {l : Line} (h : P l) :
    ∀ m ∈ if c then [l] else [], P m := by
  split
  · simpa using h
  · simp

/-- What has to be printed of the report of the probes. -/
theorem encodable_report {e : Stage} {s : LoopA} {after control judged shape : List Line}
    (hafter : ∀ l ∈ after, Encodable l.pieces) (hjudged : ∀ l ∈ judged, Encodable l.pieces) :
    (∀ l ∈ report ts e s after control judged shape, Encodable l.pieces) ↔
      (∀ l ∈ e.lines, Encodable l.pieces) ∧ (∀ l ∈ s.lines, Encodable l.pieces) ∧
        (∀ l ∈ control, Encodable l.pieces) ∧ ∀ l ∈ shape, Encodable l.pieces := by
  have hfixed : ∀ words, ∀ l ∈ [Line.fixed words], Encodable l.pieces := fun words l hl => by
    rw [List.mem_singleton.1 hl]
    exact encodable_fixed words
  have hlast : ∀ l ∈ [blankLine, .fixed "Probe B — the API's own usage field shape"],
      Encodable l.pieces := by
    rw [List.forall_mem_cons]
    exact ⟨encodable_fixed _, hfixed _⟩
  unfold report
  simp only [List.forall_mem_append]
  constructor
  · rintro ⟨⟨⟨⟨⟨⟨⟨⟨⟨⟨⟨he, -⟩, -⟩, hs⟩, -⟩, -⟩, -⟩, -⟩, hcontrol⟩, -⟩, -⟩, hshape⟩
    exact ⟨he, hs, hcontrol, hshape⟩
  · rintro ⟨he, hs, hcontrol, hshape⟩
    exact ⟨⟨⟨⟨⟨⟨⟨⟨⟨⟨⟨he, hfixed _⟩, forall_mem_ite (encodable_fixed _)⟩, hs⟩,
      forall_mem_ite (encodable_fixed _)⟩, hafter⟩, hfixed _⟩, hfixed _⟩, hcontrol⟩, hjudged⟩,
      hlast⟩, hshape⟩

/-- What has to be printed of Probe A'. -/
theorem encodable_control {textOnly : List Turn} :
    (∀ l ∈ (controlOutcome p a textOnly).1.lines, Encodable l.pieces) ↔
      ∀ e ∈ controlEnvelope p a textOnly, ∀ x ∈ (promptAnswers p a textOnly).1,
        Encodable (promptLine e x).pieces := by
  have hskipped : ∀ next, ∀ l ∈ (skippedAPrime a next).lines, Encodable l.pieces := by
    intro next l hl
    unfold skippedAPrime at hl
    split at hl
    · rw [List.mem_singleton.1 hl]
      exact encodable_fixed _
    · rw [List.mem_singleton.1 hl]
      exact encodable_fixed _
  unfold controlOutcome
  cases controlEnvelope p a textOnly with
  | none => exact iff_of_true (hskipped _) (by rintro _ ⟨⟩)
  | some e =>
    have hloop : (∀ l ∈ (promptOutcome p a textOnly e).lines, Encodable l.pieces) ↔
        ∀ x ∈ (promptAnswers p a textOnly).1, Encodable (promptLine e x).pieces :=
      List.forall_mem_map
    have hsome : ∀ {P : ℤ → Prop}, (∀ e' ∈ some e, P e') ↔ P e := by simp
    rw [hsome, ← hloop]
    dsimp only
    unfold afterAPrime
    split
    · exact encodable_snoc
    · exact Iff.rfl

theorem promptsFit_iff {textOnly : List Turn} :
    (∀ x ∈ (promptAnswers p a textOnly).1, PromptFits (controlEnvelope p a textOnly) x) ↔
      (∀ e ∈ controlEnvelope p a textOnly, ∀ x ∈ (promptAnswers p a textOnly).1,
        PromptFormats e x) ∧
      ∀ e ∈ controlEnvelope p a textOnly, ∀ x ∈ (promptAnswers p a textOnly).1,
        Encodable (promptLine e x).pieces := by
  cases h : controlEnvelope p a textOnly with
  | none =>
    have hnil : (promptAnswers p a textOnly).1 = [] := by rw [promptAnswers, h]
    rw [hnil]
    simp
  | some e => simp only [promptFits_iff, Option.mem_some_iff, forall_eq', forall_and]

/-- **What the probes come to can be printed** exactly if they do not raise, and their report can
be printed. -/
theorem probesFit_iff (equal : Json → Json → Bool) {reference : Turn} :
    ProbesFit p a ts reference ↔ ProbesFormat p a equal ts reference ∧
      ∀ l ∈ (probesOutcome p a equal ts reference).1, Encodable l.pieces := by
  rw [probesOutcome, encodable_report (fun l => encodable_afterA) fun l => encodable_verdict,
    encodable_control]
  have hturns : (∀ l ∈ (turnOutcome p a (eligible ts)).lines, Encodable l.pieces) ↔
      ∀ x ∈ (turnAnswers p a (eligible ts)).1,
        Encodable (turnLine (envelopeOf p a.model (eligible ts)) x).pieces := by
    rw [turnOutcome_eq]
    exact List.forall_mem_map
  rw [hturns]
  constructor
  · rintro ⟨hderived, hfits, hprompts, hshape⟩
    obtain ⟨hderived, he⟩ := envelopeFits_iff.1 hderived
    obtain ⟨hprompts, hcontrol⟩ := promptsFit_iff.1 hprompts
    obtain ⟨hformats, hshape⟩ := shapeFits_iff.1 hshape
    exact ⟨⟨hderived, fun x hx => (turnFits_iff.1 (hfits x hx)).1, hprompts, hformats⟩, he,
      fun x hx => (turnFits_iff.1 (hfits x hx)).2, hcontrol, hshape⟩
  · rintro ⟨⟨hderived, hformats, hprompts, hshape⟩, he, hfits, hcontrol, hshapeLines⟩
    exact ⟨envelopeFits_iff.2 ⟨hderived, he⟩,
      fun x hx => turnFits_iff.2 ⟨hformats x hx, hfits x hx⟩,
      promptsFit_iff.2 ⟨hprompts, hcontrol⟩, shapeFits_iff.2 ⟨hshape, hshapeLines⟩⟩

/-! ### The checks -/

theorem creationResult_failures (ts : List Turn) :
    (creationResult ts (creationFailures ts)).failures = creationFailures ts := by
  unfold creationResult
  dsimp only
  split
  · rename_i h
    rw [List.length_eq_zero_iff, List.filterMap_eq_nil_iff] at h
    refine (List.filterMap_eq_nil_iff.2 fun t ht => ?_).symm
    rw [h t ht]
  · rfl

theorem iterationsResult_failures (ts : List Turn) :
    (iterationsResult ts (iterationFailures ts)).failures = iterationFailures ts := by
  unfold iterationsResult
  dsimp only
  split
  · rename_i h
    rw [List.length_eq_zero_iff, List.filterMap_eq_nil_iff] at h
    refine (List.filterMap_eq_nil_iff.2 fun t ht => ?_).symm
    rw [h t ht]
  · rfl

theorem readResult_failures (ts : List Turn) :
    (readResult ts (readFailures ts)).failures = readFailures ts := by
  unfold readResult
  dsimp only
  split
  · rename_i h
    unfold readFailures
    dsimp only
    rcases hreads : cacheReads ts with _ | ⟨x, _ | ⟨y, values⟩⟩
    · rfl
    · rfl
    · rw [hreads] at h
      simp at h
  · rfl

/-- The detail of a check has only sizes in it. -/
theorem encodable_detail {r : CheckResult} (h : r ∈ checkResults ts) : Encodable r.detail := by
  have happlicable : ∀ name things checked carried failures,
      Encodable (checkResult name things checked carried ts failures).detail := by
    intro name things checked carried failures
    simp [checkResult, Encodable]
  have hnot : ∀ name detail, Encodable (notApplicable name detail ts).detail := by
    intro name detail
    simp [notApplicable, Encodable]
  simp only [checkResults, List.mem_cons, List.not_mem_nil, or_false] at h
  rcases h with rfl | rfl | rfl
  · unfold creationResult
    dsimp only
    split
    · exact hnot _ _
    · exact happlicable _ _ _ _ _
  · unfold iterationsResult
    dsimp only
    split
    · exact hnot _ _
    · exact happlicable _ _ _ _ _
  · unfold readResult
    dsimp only
    split
    · exact hnot _ _
    · exact happlicable _ _ _ _ _

/-- What has to be printed of the checks. -/
theorem encodable_renderChecks : (∀ l ∈ renderChecks (checkResults ts), Encodable l.pieces) ↔
    ∀ fs ∈ [creationFailures ts, iterationFailures ts, readFailures ts],
      ∀ f ∈ fs.take 5, Encodable f := by
  have hresult : ∀ r ∈ checkResults ts,
      ((∀ l ∈ Line.check r.name r.status r.detail :: (r.failures.take 5).map Line.failure ++
          (if 5 < r.failures.length then [Line.moreFailures (r.failures.length - 5)] else []),
        Encodable l.pieces) ↔ ∀ f ∈ r.failures.take 5, Encodable f) := by
    intro r hr
    have hcheck : Encodable (Line.check r.name r.status r.detail).pieces := by
      simpa [Line.pieces, encodable_cons] using encodable_detail hr
    have hmore : ∀ n, Encodable (Line.moreFailures n).pieces := by
      simp [Encodable, Line.pieces]
    rw [List.cons_append, List.forall_mem_cons, List.forall_mem_append, List.forall_mem_map,
      and_iff_right hcheck, and_iff_left (forall_mem_ite (hmore _))]
    simp only [Line.pieces, encodable_cons, Piece.strings_words, List.not_mem_nil, false_implies,
      implies_true, true_and]
  have hfixed : Encodable
      (Line.fixed "Probe C — internal consistency of the Max transcript (offline)").pieces :=
    encodable_fixed _
  unfold renderChecks
  rw [List.forall_mem_cons, and_iff_right hfixed]
  simp only [List.forall_mem_flatMap]
  rw [forall₂_congr hresult]
  simp only [checkResults, List.forall_mem_cons, creationResult_failures,
    iterationsResult_failures, readResult_failures, List.not_mem_nil, false_implies, implies_true]

theorem checksFit_iff : ChecksFit ts ↔
    ((∀ f ∈ creationFailures ts, Formats f) ∧ (∀ f ∈ iterationFailures ts, Formats f) ∧
      ∀ f ∈ readFailures ts, Formats f) ∧
    ∀ l ∈ renderChecks (checkResults ts), Encodable l.pieces := by
  rw [encodable_renderChecks]
  simp only [ChecksFit, List.forall_mem_cons, List.not_mem_nil, false_implies, implies_true,
    and_true]
  tauto

/-! ### The command -/

/-- What the command comes to: its status, and what is printed. -/
def outcome (s : Setting) : ℕ × List Line :=
  match s.turns with
  | [] =>
    (1, heading s.args [] ++ [.fixed "No turns with usage were read — nothing to measure."])
  | t :: ts =>
    let head := heading s.args (t :: ts) ++ renderChecks (checkResults (t :: ts)) ++ [blankLine]
    match s.probe with
    | none => (2, head ++ partialRun)
    | some p =>
      let r := probesOutcome p s.args s.equal (t :: ts) (lastTurn t ts)
      (if r.2 ≠ 0 then 3 else 0, head ++ r.1)

theorem encodable_heading : (∀ l ∈ heading a ts, Encodable l.pieces) ↔
    Encodes a.transcript ∧ Encodes a.model := by
  simp [heading, Encodable, Line.pieces, blankLine]

theorem getLast?_eq_lastTurn (t : Turn) (ts : List Turn) :
    (t :: ts).getLast? = some (lastTurn t ts) := List.getLast?_cons

theorem encodable_partialRun : ∀ l ∈ partialRun, Encodable l.pieces := by
  simp only [partialRun, blankLine, List.forall_mem_cons, encodable_fixed, List.not_mem_nil,
    false_implies, implies_true, and_self]

/-- Without turns there is nothing but the heading. -/
theorem fits_of_nil {s : Setting} (h : s.turns = []) :
    Fits s ↔ Encodes s.args.transcript ∧ Encodes s.args.model := by
  constructor
  · exact fun hfits => ⟨hfits.transcript, hfits.model⟩
  · rintro ⟨htranscript, hmodel⟩
    refine ⟨htranscript, hmodel, ?_, ?_⟩
    · rw [h]
      simp [ChecksFit, creationFailures, iterationFailures, readFailures, cacheReads]
    · rw [h]
      rintro p - _ ⟨⟩

theorem fits_of_cons {s : Setting} {t : Turn} {ts : List Turn} (h : s.turns = t :: ts) :
    Fits s ↔ (Encodes s.args.transcript ∧ Encodes s.args.model) ∧ ChecksFit (t :: ts) ∧
      ∀ p ∈ s.probe, ProbesFit p s.args (t :: ts) (lastTurn t ts) := by
  have hlast : s.turns.getLast? = some (lastTurn t ts) := by rw [h, getLast?_eq_lastTurn]
  constructor
  · rintro ⟨htranscript, hmodel, hchecks, hprobes⟩
    rw [h] at hchecks
    exact ⟨⟨htranscript, hmodel⟩, hchecks, fun p hp => h ▸ hprobes p hp _ hlast⟩
  · rintro ⟨⟨htranscript, hmodel⟩, hchecks, hprobes⟩
    refine ⟨htranscript, hmodel, h ▸ hchecks, fun p hp reference hreference => ?_⟩
    rw [hlast] at hreference
    cases hreference
    rw [h]
    exact hprobes p hp

/-- **The command** raises exactly if something that it shows cannot be formatted or printed. -/
theorem main_eq_ok {s : Setting} {r : ℕ × List Line} :
    main s = .ok r ↔ Fits s ∧ r = outcome s := by
  unfold main outcome
  rcases hturns : s.turns with _ | ⟨t, ts⟩
  · rw [fits_of_nil hturns, ← @encodable_heading s.args []]
    rw [Setting.turns] at hturns
    rw [hturns]
    dsimp only
    rw [printed_eq_ok, encodable_snoc]
  · have hhead : (∀ l ∈ heading s.args (t :: ts) ++ renderChecks (checkResults (t :: ts)) ++
        [blankLine], Encodable l.pieces) ↔
          (Encodes s.args.transcript ∧ Encodes s.args.model) ∧
            ∀ l ∈ renderChecks (checkResults (t :: ts)), Encodable l.pieces := by
      rw [blankLine, encodable_snoc, List.forall_mem_append, encodable_heading]
    rw [fits_of_cons hturns, checksFit_iff]
    rw [Setting.turns] at hturns
    rw [hturns, Setting.probe]
    dsimp only
    rw [bind_eq_ok]
    simp only [consistencyChecks_eq_ok]
    rcases hkey : credential s.environment s.credentialFile with _ | key
    · simp only [printed_eq_ok, Option.map_none]
      constructor
      · rintro ⟨_, ⟨hformats, rfl⟩, hall, rfl⟩
        rw [List.forall_mem_append, hhead] at hall
        exact ⟨⟨hall.1.1, ⟨hformats, hall.1.2⟩, by rintro _ ⟨⟩⟩, rfl⟩
      · rintro ⟨⟨hargs, ⟨hformats, hchecks⟩, -⟩, rfl⟩
        refine ⟨_, ⟨hformats, rfl⟩, ?_, rfl⟩
        rw [List.forall_mem_append, hhead]
        exact ⟨⟨hargs, hchecks⟩, encodable_partialRun⟩
    · have hstrip := credential_strip hkey
      have hne : key.strip ≠ [] := by
        rw [hstrip.2]
        exact hstrip.1
      simp only [if_neg hne, Option.map_some, bind_eq_ok, probes_eq_ok, printed_eq_ok]
      constructor
      · rintro ⟨_, ⟨hformats, rfl⟩, _, ⟨hprobes, rfl⟩, hall, rfl⟩
        rw [List.forall_mem_append, hhead] at hall
        refine ⟨⟨hall.1.1, ⟨hformats, hall.1.2⟩, ?_⟩, rfl⟩
        rintro _ ⟨⟩
        exact (probesFit_iff s.equal).2 ⟨hprobes, hall.2⟩
      · rintro ⟨⟨hargs, ⟨hformats, hchecks⟩, hprobes⟩, rfl⟩
        obtain ⟨hprobes, hlines⟩ := (probesFit_iff s.equal).1 (hprobes _ rfl)
        refine ⟨_, ⟨hformats, rfl⟩, _, ⟨hprobes, rfl⟩, ?_, rfl⟩
        rw [List.forall_mem_append, hhead]
        exact ⟨⟨hargs, hchecks⟩, hlines⟩

end Tokenweir.Parity
