import Tokenweir.Parity.Returning

/-!
# Exit status and verdict of the parity command

Whatever the transcript is and whatever the requests are answered, a run of the command that
returns tells the truth: its status, its verdict, and its account of the turns.

* `Standing`, of a turn; `Established`, `OneConstant`, `Accounts`, what a report says; `Sound`;
* `accounts_accountLine`, `established_of_failures`, `oneConstant_of_parity`;
* `main_sound_iff`; `not_main_sound`, a run that raises.
-/

namespace Tokenweir.Parity

open ClaudeCode Probing

/-! ### What a report says -/

/-- Where a turn stands in the account. -/
inductive Standing
  | eligible
  /-- Blocks, or thinking, that cannot be recovered. -/
  | unrecoverable
  /-- Thinking that is counted separately. -/
  | separatelyCounted
  | noText
  deriving DecidableEq

/-- The standing of a turn. -/
def standing (t : Turn) : Standing :=
  if t.hasUnaccountedBlocks = true ∨ t.thinkingTokens ≠ 0 then .unrecoverable
  else if t.thinkingText ≠ [] then .separatelyCounted
  else if t.outputText.strip = [] then .noText
  else .eligible

/-- The turns of a standing. -/
def countOf (turns : List Turn) (k : Standing) : ℕ := turns.countP fun t => standing t = k

/-- The account of the turns: each has its standing, and is counted once. -/
structure Accounts (ts : List Turn)
    (eligible excluded unrecoverable separatelyCounted noText accounted total : ℕ) : Prop where
  eligible_eq : eligible = countOf ts .eligible
  unrecoverable_eq : unrecoverable = countOf ts .unrecoverable
  separatelyCounted_eq : separatelyCounted = countOf ts .separatelyCounted
  noText_eq : noText = countOf ts .noText
  excluded_eq : excluded = unrecoverable + separatelyCounted + noText
  accounted_eq : accounted = eligible + unrecoverable + separatelyCounted + noText
  total_eq : total = ts.length
  all_accounted : accounted = total

variable (p : ApiProbe) (a : Args) (ts : List Turn)

/-- All that was asked for was measured: the envelope was derived, Probe A measured a turn, Probe B
succeeded, nothing failed, and Probe A' measured a response if it was asked for. -/
structure Established : Prop where
  derived : ∃ e, envelopeOf p a.model (eligible ts) = some e
  turn_measured : ∃ t reported tokenizer,
    (t, .measured reported tokenizer) ∈ (turnAnswers p a (eligible ts)).1
  no_turn_failed : ∀ t message, (t, .failed message) ∉ (turnAnswers p a (eligible ts)).1
  prompt_measured : a.control = true → ∃ prompt reported tokenizer thinking,
    (prompt, .measured reported tokenizer thinking) ∈ (promptAnswers p a (eligible ts)).1
  no_prompt_failed : ∀ prompt message,
    (prompt, .failed message) ∉ (promptAnswers p a (eligible ts)).1
  shape : ∃ usage produced, shapeAnswer p a (eligible ts) = .ok (usage, produced)

/-- Each offset of the transcript and each offset of the control is this integer, and there are
offsets of both. -/
def OneConstant (c : ℤ) : Prop :=
  a.control = true ∧ ∃ e, envelopeOf p a.model (eligible ts) = some e ∧
    (∃ t reported tokenizer,
      (t, .measured reported tokenizer) ∈ (turnAnswers p a (eligible ts)).1) ∧
    (∃ prompt reported tokenizer thinking,
      (prompt, .measured reported tokenizer thinking) ∈ (promptAnswers p a (eligible ts)).1) ∧
    (∀ t reported tokenizer,
      (t, .measured reported tokenizer) ∈ (turnAnswers p a (eligible ts)).1 →
        reported - (tokenizer - e) = c) ∧
    ∀ prompt reported tokenizer thinking,
      (prompt, .measured reported tokenizer thinking) ∈ (promptAnswers p a (eligible ts)).1 →
        reported - (tokenizer - e) - thinking = c

variable {p a ts}

/-- **The command is sound**: it returns one of its four statuses and does not raise, and what the
status, the verdict and the account say is so. -/
def Sound (s : Setting) : Prop :=
  ∃ status lines, main s = .ok (status, lines) ∧ status ∈ [0, 1, 2, 3] ∧
    (status = 0 → ∃ p, s.probe = some p ∧ Established p s.args s.turns) ∧
    (∀ c, .parity c ∈ lines → ∃ p, s.probe = some p ∧ OneConstant p s.args s.turns c) ∧
    (∀ measured eligible excluded unrecoverable separatelyCounted noText accounted total,
      .counts measured eligible excluded unrecoverable separatelyCounted noText accounted total ∈
          lines →
        Accounts s.turns eligible excluded unrecoverable separatelyCounted noText accounted total) ∧
    (s.turns ≠ [] → s.probe ≠ none →
      ∃ measured eligible excluded unrecoverable separatelyCounted noText accounted total,
        .counts measured eligible excluded unrecoverable separatelyCounted noText accounted total ∈
          lines)

/-! ### The account -/

theorem isHeadlineEligible_iff {t : Turn} :
    isHeadlineEligible t = true ↔ standing t = .eligible := by
  unfold isHeadlineEligible standing
  by_cases hblocks : t.hasUnaccountedBlocks = true
  · simp [hblocks]
  · by_cases hthinking : t.thinkingTokens = 0
    · by_cases htext : t.thinkingText = []
      · by_cases hblank : t.outputText.strip = [] <;>
          simp [hblocks, hthinking, htext, hblank]
      · simp [hblocks, hthinking, htext]
    · simp [hthinking]

theorem isUnrecoverable_iff {t : Turn} :
    isUnrecoverable t = true ↔ standing t = .unrecoverable := by
  unfold isUnrecoverable standing
  by_cases h : t.hasUnaccountedBlocks = true ∨ t.thinkingTokens ≠ 0
  · rw [if_pos h]
    simpa using h
  · rw [if_neg h]
    refine iff_of_false (by simpa using h) ?_
    split_ifs <;> simp

theorem isSeparatelyCounted_iff {t : Turn} :
    isSeparatelyCounted t = true ↔ standing t = .separatelyCounted := by
  have hunrecoverable := isUnrecoverable_iff (t := t)
  unfold isSeparatelyCounted
  cases h : isUnrecoverable t with
  | true =>
    rw [hunrecoverable.1 h]
    simp
  | false =>
    rw [h] at hunrecoverable
    have hnot : ¬(t.hasUnaccountedBlocks = true ∨ t.thinkingTokens ≠ 0) := by
      simpa [isUnrecoverable] using h
    rw [standing, if_neg hnot]
    by_cases htext : t.thinkingText ≠ []
    · simp [htext]
    · rw [if_neg htext]
      refine iff_of_false (by simpa using htext) ?_
      split_ifs <;> simp

/-- Each turn has one standing. -/
theorem countOf_all (turns : List Turn) :
    countOf turns .eligible + countOf turns .unrecoverable + countOf turns .separatelyCounted +
      countOf turns .noText = turns.length := by
  induction turns with
  | nil => rfl
  | cons t turns ih =>
    unfold countOf at ih ⊢
    simp only [List.countP_cons, List.length_cons]
    cases standing t <;> simp <;> omega

theorem length_eligible (turns : List Turn) : (eligible turns).length = countOf turns .eligible := by
  rw [eligible, countOf, List.countP_eq_length_filter]
  refine congrArg List.length (List.filter_congr fun t _ => ?_)
  rw [Bool.eq_iff_iff, isHeadlineEligible_iff, decide_eq_true_eq]

theorem length_excluded (turns : List Turn) :
    (eligible turns).length + (excluded turns).length = turns.length := by
  rw [eligible, excluded, ← List.countP_eq_length_filter, ← List.countP_eq_length_filter]
  rw [List.length_eq_countP_add_countP isHeadlineEligible (l := turns)]
  exact congrArg _ (List.countP_congr fun t _ => by simp)

/-- Of the excluded turns, as of all of them, those of a standing are counted. -/
theorem countP_excluded {f : Turn → Bool} {k : Standing} (hk : k ≠ .eligible)
    (hf : ∀ t, f t = true ↔ standing t = k) : (excluded turns).countP f = countOf turns k := by
  rw [excluded, List.countP_filter, countOf]
  refine List.countP_congr fun t _ => ?_
  rw [Bool.and_eq_true, hf, decide_eq_true_eq, Bool.not_eq_true', and_iff_left_iff_imp]
  rintro rfl
  rw [Bool.eq_false_iff, ne_eq, isHeadlineEligible_iff]
  exact hk

/-- The account is right. -/
theorem accounts_accountLine {turns : List Turn}
    {m measured eligible excluded unrecoverable separatelyCounted noText accounted total : ℕ}
    (h : Line.counts measured eligible excluded unrecoverable separatelyCounted noText accounted
      total = accountLine turns m) :
    Accounts turns eligible excluded unrecoverable separatelyCounted noText accounted total := by
  have hall := countOf_all turns
  have hlength := length_excluded turns
  have heligible := length_eligible turns
  have hunrecoverable : (Parity.excluded turns).countP isUnrecoverable =
      countOf turns .unrecoverable := countP_excluded (by simp) fun t => isUnrecoverable_iff
  have hseparately : (Parity.excluded turns).countP isSeparatelyCounted =
      countOf turns .separatelyCounted := countP_excluded (by simp) fun t => isSeparatelyCounted_iff
  unfold accountLine at h
  rw [hunrecoverable, hseparately] at h
  injection h
  subst_vars
  constructor <;> omega

/-! ### What the status says -/

theorem isMeasured_iff {r : TurnAnswer} :
    r.isMeasured = true ↔ ∃ reported tokenizer, r = .measured reported tokenizer := by
  cases r <;> simp [TurnAnswer.isMeasured]

theorem derived_of_failures {textOnly : List Turn} (hne : textOnly ≠ [])
    (h : (envelopeOutcome p a.model textOnly).failures = 0) :
    ∃ e, envelopeOf p a.model textOnly = some e := by
  obtain ⟨t, ts, rfl⟩ := List.exists_cons_of_ne_nil hne
  unfold envelopeOutcome at h
  unfold envelopeOf
  simp only [derivation] at h ⊢
  split at h
  · rename_i e next longest heq
    rw [heq]
    exact ⟨e, rfl⟩
  · cases h
  · rename_i heq
    cases heq

theorem not_mem_of_countP {α : Type} {xs : List α} {f : α → Bool} (h : xs.countP f = 0) {x : α}
    (hx : f x = true) : x ∉ xs := by
  intro hmem
  rw [List.countP_eq_zero] at h
  exact h x hmem hx

theorem any_eq_false_of_countP {α : Type} {xs : List α} {f : α → Bool} (h : xs.countP f = 0) :
    xs.any f = false := by
  rw [List.countP_eq_zero] at h
  rw [List.any_eq_false]
  exact h

/-- If Probe A' did not fail, nothing broke it, and it measured a response if it was run. -/
theorem control_of_failures {textOnly : List Turn}
    (h : (controlOutcome p a textOnly).1.failures = 0) :
    ((promptAnswers p a textOnly).1.countP fun x => x.2.breaks) = 0 ∧
      ∀ e ∈ controlEnvelope p a textOnly, ∃ prompt reported tokenizer thinking,
        (prompt, .measured reported tokenizer thinking) ∈ (promptAnswers p a textOnly).1 := by
  unfold controlOutcome at h
  cases hcontrol : controlEnvelope p a textOnly with
  | none =>
    have hnil : (promptAnswers p a textOnly).1 = [] := by rw [promptAnswers, hcontrol]
    rw [hnil]
    exact ⟨rfl, by rintro _ ⟨⟩⟩
  | some e =>
    rw [hcontrol] at h
    dsimp only at h
    unfold afterAPrime at h
    by_cases hnone : (promptOutcome p a textOnly e).offsets = [] ∧
        (promptOutcome p a textOnly e).broke = false
    · rw [if_pos hnone] at h
      cases h
    · rw [if_neg hnone] at h
      have hcount : ((promptAnswers p a textOnly).1.countP fun x => x.2.breaks) = 0 := h
      refine ⟨hcount, ?_⟩
      rintro _ ⟨⟩
      have hbroke : (promptOutcome p a textOnly e).broke = false := any_eq_false_of_countP hcount
      have hoffsets : (promptAnswers p a textOnly).1.filterMap (promptOffset e) ≠ [] :=
        fun hnil => hnone ⟨hnil, hbroke⟩
      obtain ⟨n, hn⟩ := List.exists_mem_of_ne_nil _ hoffsets
      obtain ⟨⟨prompt, r⟩, hmem, hoffset⟩ := List.mem_filterMap.1 hn
      rcases r with message | _ | _ | ⟨reported, tokenizer, thinking⟩
      · cases hoffset
      · cases hoffset
      · cases hoffset
      · exact ⟨prompt, reported, tokenizer, thinking, hmem⟩

/-- **Without a failure** all that was asked for was measured. -/
theorem established_of_failures {equal : Json → Json → Bool} {reference : Turn}
    (h : (probesOutcome p a equal ts reference).2 = 0) : Established p a ts := by
  simp only [probesOutcome, failuresA, Nat.add_eq_zero_iff] at h
  obtain ⟨⟨⟨⟨⟨hderivation, heligible⟩, hfailures⟩, hmeasured⟩, hcontrol⟩, hshape⟩ := h
  have hne : eligible ts ≠ [] := fun hnil => by simp [hnil] at heligible
  obtain ⟨e, he⟩ := derived_of_failures hne hderivation
  rw [turnOutcome_eq] at hfailures hmeasured
  dsimp only at hfailures
  have hbroke := any_eq_false_of_countP hfailures
  obtain ⟨hprompts, hcontrol⟩ := control_of_failures hcontrol
  refine ⟨⟨e, he⟩, ?_, fun t message => not_mem_of_countP hfailures rfl, ?_,
    fun prompt message => not_mem_of_countP hprompts rfl, ?_⟩
  · have hcount : ((turnAnswers p a (eligible ts)).1.countP fun x => x.2.isMeasured) ≠ 0 := by
      intro hzero
      have hnone : noneMeasured ts (turnOutcome p a (eligible ts)) := by
        rw [turnOutcome_eq]
        exact ⟨hne, hzero, hbroke⟩
      rw [turnOutcome_eq] at hnone
      rw [if_pos hnone] at hmeasured
      cases hmeasured
    obtain ⟨⟨t, r⟩, hmem, hr⟩ := List.countP_pos_iff.1 (Nat.pos_of_ne_zero hcount)
    obtain ⟨reported, tokenizer, hr⟩ := isMeasured_iff.1 hr
    exact ⟨t, reported, tokenizer, hr ▸ hmem⟩
  · intro hasked
    exact hcontrol e (by rw [controlEnvelope, if_pos hasked, he]; rfl)
  · unfold shapeOutcome at hshape
    split at hshape
    · cases hshape
    · rename_i usage produced heq
      exact ⟨usage, produced, heq⟩

/-! ### What the verdict and the account say -/

/-- The lines that draw a conclusion: the verdict of parity, and the account. -/
def Line.concludes : Line → Bool
  | parity _ => true
  | counts .. => true
  | _ => false

theorem not_mem_of_concludes {ls : List Line} {l : Line} (h : ∀ m ∈ ls, m.concludes = false)
    (hl : l.concludes = true) : l ∉ ls := by
  intro hmem
  rw [h l hmem] at hl
  cases hl

/-- No line of the envelope draws a conclusion, nor does any of the other probes. -/
theorem concludes_envelope {textOnly : List Turn} :
    ∀ l ∈ (envelopeOutcome p a.model textOnly).lines, l.concludes = false := by
  unfold envelopeOutcome
  split <;> simp [Line.concludes, blankLine]

theorem concludes_turns {textOnly : List Turn} :
    ∀ l ∈ (turnOutcome p a textOnly).lines, l.concludes = false := by
  rw [turnOutcome_eq]
  refine List.forall_mem_map.2 fun x _ => ?_
  unfold turnLine
  split
  · rfl
  · rfl
  · split <;> rfl

theorem concludes_control {textOnly : List Turn} :
    ∀ l ∈ (controlOutcome p a textOnly).1.lines, l.concludes = false := by
  unfold controlOutcome
  split
  · rename_i e _
    have hloop : ∀ l ∈ (promptOutcome p a textOnly e).lines, l.concludes = false := by
      refine List.forall_mem_map.2 fun x _ => ?_
      unfold promptLine
      split <;> rfl
    unfold afterAPrime
    split
    · rw [List.forall_mem_append]
      exact ⟨hloop, by simp [Line.concludes]⟩
    · exact hloop
  · unfold skippedAPrime
    split <;> simp [Line.concludes]

theorem concludes_shape {equal : Json → Json → Bool} {answer : Except Text (Json × Text)}
    {reference : Turn} : ∀ l ∈ (shapeOutcome equal answer reference).1, l.concludes = false := by
  unfold shapeOutcome
  split
  · simp [Line.concludes]
  · rw [List.forall_mem_append]
    refine ⟨by simp [Line.concludes], List.forall_mem_map.2 fun c _ => rfl⟩

theorem concludes_renderChecks {rs : List CheckResult} :
    ∀ l ∈ renderChecks rs, l.concludes = false := by
  unfold renderChecks
  rw [List.forall_mem_cons]
  refine ⟨rfl, ?_⟩
  rw [List.forall_mem_flatMap]
  intro r _
  rw [List.cons_append, List.forall_mem_cons, List.forall_mem_append]
  exact ⟨rfl, List.forall_mem_map.2 fun f _ => rfl, forall_mem_ite rfl⟩

/-- **A conclusion** of the report of the probes is drawn after Probe A, or in the verdict. -/
theorem mem_probesOutcome {equal : Json → Json → Bool} {reference : Turn} {l : Line}
    (hl : l.concludes = true) (h : l ∈ (probesOutcome p a equal ts reference).1) :
    l ∈ afterA a ts (envelopeOutcome p a.model (eligible ts)) (turnOutcome p a (eligible ts)) ∨
      l ∈ verdict (turnOutcome p a (eligible ts)).offsets (controlOutcome p a (eligible ts)).2 := by
  have hfixed : ∀ words, l ∉ [Line.fixed words] := fun words hmem => by
    rw [List.mem_singleton.1 hmem] at hl
    cases hl
  have hif : ∀ (c : Prop) [Decidable c] words, l ∉ if c then [Line.fixed words] else [] :=
    fun c _ words => not_mem_of_concludes (forall_mem_ite rfl) hl
  have hlast : l ∉ [blankLine, .fixed "Probe B — the API's own usage field shape"] :=
    not_mem_of_concludes (by simp [blankLine, Line.concludes]) hl
  simp only [probesOutcome, report, List.mem_append] at h
  rcases h with ((((((((((h | h) | h) | h) | h) | h) | h) | h) | h) | h) | h) | h
  · exact absurd h (not_mem_of_concludes concludes_envelope hl)
  · exact absurd h (hfixed _)
  · exact absurd h (hif _ _)
  · exact absurd h (not_mem_of_concludes concludes_turns hl)
  · exact absurd h (hif _ _)
  · exact .inl h
  · exact absurd h (hfixed _)
  · exact absurd h (hfixed _)
  · exact absurd h (not_mem_of_concludes concludes_control hl)
  · exact .inr h
  · exact absurd h hlast
  · exact absurd h (not_mem_of_concludes concludes_shape hl)

/-- A conclusion of a run is one of its probes. -/
theorem mem_outcome {s : Setting} {l : Line} (hl : l.concludes = true) (h : l ∈ (outcome s).2) :
    ∃ p reference, s.probe = some p ∧
      l ∈ (probesOutcome p s.args s.equal s.turns reference).1 := by
  have hheading : ∀ ts, l ∉ heading s.args ts := fun ts =>
    not_mem_of_concludes (by simp [heading, blankLine, Line.concludes]) hl
  unfold outcome at h
  rcases hturns : s.turns with _ | ⟨t, ts⟩
  · rw [hturns] at h
    rcases List.mem_append.1 h with h | h
    · exact absurd h (hheading _)
    · exact absurd h (not_mem_of_concludes (by simp [Line.concludes]) hl)
  · have hhead : l ∉ heading s.args (t :: ts) ++ renderChecks (checkResults (t :: ts)) ++
        [blankLine] := by
      rw [List.mem_append, List.mem_append, not_or, not_or]
      exact ⟨⟨hheading _, not_mem_of_concludes concludes_renderChecks hl⟩,
        not_mem_of_concludes (by simp [blankLine, Line.concludes]) hl⟩
    rw [hturns] at h
    dsimp only at h
    cases hprobe : s.probe with
    | none =>
      rw [hprobe] at h
      rcases List.mem_append.1 h with h | h
      · exact absurd h hhead
      · exact absurd h
          (not_mem_of_concludes (by simp [partialRun, blankLine, Line.concludes]) hl)
    | some p =>
      rw [hprobe] at h
      rcases List.mem_append.1 h with h | h
      · exact absurd h hhead
      · exact ⟨p, lastTurn t ts, rfl, h⟩

theorem parity_not_mem_afterA {e : Stage} {s : LoopA} {c : ℤ} : .parity c ∉ afterA a ts e s := by
  intro h
  rcases mem_afterA h with h | h | ⟨n, h⟩
  · rcases mem_probeAResult h with h | ⟨d, -, n, h⟩ | ⟨n, h⟩ | ⟨x, y, h⟩ <;> cases h
  · cases h
  · cases h

/-- The offset of a turn that was measured is one of Probe A. -/
theorem turn_mem_offsets {textOnly : List Turn} {e : ℤ}
    (he : envelopeOf p a.model textOnly = some e) {n : ℤ} :
    n ∈ (turnOutcome p a textOnly).offsets ↔ ∃ t reported tokenizer,
      (t, .measured reported tokenizer) ∈ (turnAnswers p a textOnly).1 ∧
        reported - (tokenizer - e) = n := by
  rw [turnOutcome_eq, he]
  dsimp only
  rw [List.mem_filterMap]
  constructor
  · rintro ⟨⟨t, message | _ | ⟨reported, tokenizer⟩⟩, hmem, hoffset⟩
    · cases hoffset
    · cases hoffset
    · exact ⟨t, reported, tokenizer, hmem, Option.some.inj hoffset⟩
  · rintro ⟨t, reported, tokenizer, hmem, rfl⟩
    exact ⟨_, hmem, rfl⟩

/-- The offset of a response that was measured is one of Probe A'. -/
theorem prompt_mem_offsets {textOnly : List Turn} {n : ℤ} :
    n ∈ (controlOutcome p a textOnly).2 ↔ ∃ e ∈ controlEnvelope p a textOnly,
      ∃ prompt reported tokenizer thinking,
        (prompt, .measured reported tokenizer thinking) ∈ (promptAnswers p a textOnly).1 ∧
          reported - (tokenizer - e) - thinking = n := by
  rw [mem_controlOffsets]
  refine exists_congr fun e => and_congr_right fun _ => ?_
  rw [List.mem_filterMap]
  constructor
  · rintro ⟨⟨prompt, message | _ | _ | ⟨reported, tokenizer, thinking⟩⟩, hmem, hoffset⟩
    · cases hoffset
    · cases hoffset
    · cases hoffset
    · exact ⟨prompt, reported, tokenizer, thinking, hmem, Option.some.inj hoffset⟩
  · rintro ⟨prompt, reported, tokenizer, thinking, hmem, rfl⟩
    exact ⟨_, hmem, rfl⟩

/-- **PARITY** is said only if there is one constant. -/
theorem oneConstant_of_parity {equal : Json → Json → Bool} {reference : Turn} {c : ℤ}
    (h : .parity c ∈ (probesOutcome p a equal ts reference).1) : OneConstant p a ts c := by
  have hverdict := (mem_probesOutcome rfl h).resolve_left parity_not_mem_afterA
  obtain ⟨hcontrol, hoffsets⟩ : sortedSet (controlOutcome p a (eligible ts)).2 = [c] ∧
      sortedSet (turnOutcome p a (eligible ts)).offsets = [c] := by
    rcases mem_verdict hverdict with ⟨s, h⟩ | ⟨d, -, n, h⟩ | h | ⟨d, hcontrol, hoffsets, h⟩ |
      ⟨d, -, d', -, h⟩ | ⟨d, -, h⟩ | h
    · cases h
    · cases h
    · cases h
    · cases h
      exact ⟨hcontrol, hoffsets⟩
    · cases h
    · cases h
    · cases h
  obtain ⟨hsome, hall⟩ := sortedSet_eq_singleton.1 hoffsets
  obtain ⟨hsome', hall'⟩ := sortedSet_eq_singleton.1 hcontrol
  -- a control offset shows that the control was asked for, and the envelope derived
  obtain ⟨n', hn'⟩ := List.exists_mem_of_ne_nil _ hsome'
  obtain ⟨e, he, prompt, reported', tokenizer', thinking, hprompt, -⟩ := prompt_mem_offsets.1 hn'
  have hasked : a.control = true := by
    by_contra hnot
    rw [controlEnvelope, if_neg hnot] at he
    cases he
  have henvelope : envelopeOf p a.model (eligible ts) = some e := by
    rwa [controlEnvelope, if_pos hasked] at he
  obtain ⟨n, hn⟩ := List.exists_mem_of_ne_nil _ hsome
  obtain ⟨t, reported, tokenizer, hturn, -⟩ := (turn_mem_offsets henvelope).1 hn
  refine ⟨hasked, e, henvelope, ⟨t, reported, tokenizer, hturn⟩,
    ⟨prompt, reported', tokenizer', thinking, hprompt⟩, ?_, ?_⟩
  · intro t reported tokenizer hmem
    exact hall _ ((turn_mem_offsets henvelope).2 ⟨t, reported, tokenizer, hmem, rfl⟩)
  · intro prompt reported tokenizer thinking hmem
    exact hall' _ (prompt_mem_offsets.2 ⟨e, he, prompt, reported, tokenizer, thinking, hmem, rfl⟩)

/-- **The account** that is given is that of the turns. -/
theorem accounts_of_counts {equal : Json → Json → Bool} {reference : Turn}
    {measured eligible' excluded unrecoverable separatelyCounted noText accounted total : ℕ}
    (h : .counts measured eligible' excluded unrecoverable separatelyCounted noText accounted total ∈
      (probesOutcome p a equal ts reference).1) :
    Accounts ts eligible' excluded unrecoverable separatelyCounted noText accounted total := by
  rcases mem_probesOutcome rfl h with h | h
  · rcases mem_afterA h with h | h | ⟨n, h⟩
    · rcases mem_probeAResult h with h | ⟨d, -, n, h⟩ | ⟨n, h⟩ | ⟨x, y, h⟩ <;> cases h
    · exact accounts_accountLine h
    · cases h
  · rcases mem_verdict h with ⟨s, h⟩ | ⟨d, -, n, h⟩ | h | ⟨d, -, -, h⟩ | ⟨d, -, d', -, h⟩ |
      ⟨d, -, h⟩ | h <;> cases h

/-- An account is given. -/
theorem accountLine_mem {equal : Json → Json → Bool} {reference : Turn} :
    accountLine ts (turnOutcome p a (eligible ts)).measured ∈
      (probesOutcome p a equal ts reference).1 := by
  simp only [probesOutcome, report, afterA, List.mem_append, List.mem_singleton]
  tauto

/-! ### The command is sound -/

/-- What a run comes to is sound, whatever it was given. -/
theorem outcome_sound (s : Setting) :
    (outcome s).1 ∈ [0, 1, 2, 3] ∧
    ((outcome s).1 = 0 → ∃ p, s.probe = some p ∧ Established p s.args s.turns) ∧
    (∀ c, .parity c ∈ (outcome s).2 →
      ∃ p, s.probe = some p ∧ OneConstant p s.args s.turns c) ∧
    (∀ measured eligible excluded unrecoverable separatelyCounted noText accounted total,
      .counts measured eligible excluded unrecoverable separatelyCounted noText accounted total ∈
          (outcome s).2 →
        Accounts s.turns eligible excluded unrecoverable separatelyCounted noText accounted total) ∧
    (s.turns ≠ [] → s.probe ≠ none →
      ∃ measured eligible excluded unrecoverable separatelyCounted noText accounted total,
        .counts measured eligible excluded unrecoverable separatelyCounted noText accounted total ∈
          (outcome s).2) := by
  refine ⟨?_, ?_, ?_, ?_, ?_⟩
  · unfold outcome
    split
    · simp
    · split
      · simp
      · dsimp only
        split <;> simp
  · unfold outcome
    rcases s.turns with _ | ⟨t, ts⟩
    · rintro ⟨⟩
    · rcases s.probe with _ | p
      · rintro ⟨⟩
      · dsimp only
        intro h
        have hfailures : (probesOutcome p s.args s.equal (t :: ts) (lastTurn t ts)).2 = 0 := by
          by_contra hne
          rw [if_pos hne] at h
          cases h
        exact ⟨p, rfl, established_of_failures hfailures⟩
  · intro c h
    obtain ⟨p, reference, hprobe, hmem⟩ := mem_outcome rfl h
    exact ⟨p, hprobe, oneConstant_of_parity hmem⟩
  · intro measured eligible excluded unrecoverable separatelyCounted noText accounted total h
    obtain ⟨p, reference, -, hmem⟩ := mem_outcome rfl h
    exact accounts_of_counts hmem
  · unfold outcome
    rcases s.turns with _ | ⟨t, ts⟩
    · exact fun hne => absurd rfl hne
    · rcases s.probe with _ | p
      · exact fun _ hne => absurd rfl hne
      · intro _ _
        exact ⟨_, _, _, _, _, _, _, _, List.mem_append_right _ accountLine_mem⟩

/-- **The parity command is sound** exactly if what it shows can be formatted and printed. -/
theorem main_sound_iff (s : Setting) : Sound s ↔ Fits s := by
  constructor
  · rintro ⟨status, lines, hmain, -⟩
    exact (main_eq_ok.1 hmain).1
  · intro h
    exact ⟨(outcome s).1, (outcome s).2, main_eq_ok.2 ⟨h, rfl⟩, outcome_sound s⟩

/-! ### A run that raises -/

/-- A transcript of a single response, with a count of `10 ^ 400` output tokens. -/
def hugeTranscript : List ClaudeCode.Line :=
  [.entry (.obj [(Text.of "message", .obj [(Text.of "id", .str (Text.of "a")),
    (Text.of "content", .arr [textBlock "x"]),
    (Text.of "usage", .obj [(Text.of "output_tokens", .int (10 ^ 400))])])])]

/-- Answers from which an envelope of one token is derived, and a text of one token. -/
def plainAnswers (n : ℕ) (r : Request) : Reply :=
  if r.endpoint = .messages then .body (Text.of "\x7b\"usage\":\x7b\x7d\x7d")
  else if n = 1 then .body (Text.of "\x7b\"input_tokens\":3\x7d")
  else .body (Text.of "\x7b\"input_tokens\":2\x7d")

/-- A run over this transcript, with a credential. -/
def hugeSetting : Setting where
  args :=
    { transcript := Text.of "t"
      model := Text.of "m"
      model_not_blank := by decide
      control := false
      sample := 20
      sample_prints := by decide +kernel }
  file := hugeTranscript
  reading := .whole
  environment := some (Text.of "k")
  credentialFile := none
  opener := plainAnswers
  equal := fun _ _ => true

/-- **The command is not sound**: it raises over a transcript of a single response. -/
theorem not_main_sound : ¬Sound hugeSetting := by
  rintro ⟨status, lines, hmain, -⟩
  have hfits := (main_eq_ok.1 hmain).1
  have hkey : credential hugeSetting.environment hugeSetting.credentialFile =
      some (Text.of "k") := by decide +kernel
  have hprobe : hugeSetting.probe = some ⟨Text.of "k", plainAnswers⟩ := by
    rw [Setting.probe, hkey]
    rfl
  have hturns : hugeSetting.turns.getLast?.isSome = true := by decide +kernel
  obtain ⟨reference, hreference⟩ := Option.isSome_iff_exists.1 hturns
  have henvelope : envelopeOf ⟨Text.of "k", plainAnswers⟩ hugeSetting.args.model
      (eligible hugeSetting.turns) = some 1 := by decide +kernel
  have hmeasured : ((turnAnswers ⟨Text.of "k", plainAnswers⟩ hugeSetting.args
      (eligible hugeSetting.turns)).1.any fun x => x.2 = .measured (10 ^ 400) 2) = true := by
    decide +kernel
  obtain ⟨⟨t, r⟩, hmem, hr⟩ := List.any_eq_true.1 hmeasured
  obtain rfl := of_decide_eq_true hr
  have hfit := ((hfits.probes _ hprobe reference hreference).turns _ hmem).2
  refine (hfit.2.2 1 henvelope).2.2 (by decide) ?_
  have hhuge : (2 : ℚ) ^ 1024 ≤ 10 ^ 400 := by
    calc (2 : ℚ) ^ 1024 = (2 ^ 256) ^ 4 := by rw [← pow_mul]
      _ ≤ (10 ^ 100) ^ 4 := pow_le_pow_left₀ (by positivity) (by norm_num) 4
      _ = 10 ^ 400 := by rw [← pow_mul]
  refine roundDouble_eq_none ?_
  norm_num
  exact hhuge

end Tokenweir.Parity
