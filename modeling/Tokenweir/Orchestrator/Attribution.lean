import Tokenweir.Contract.Codec
import Tokenweir.Orchestrator.Normalization

/-!
# Attribution through the environment

`attribution_env`, which an orchestrator exports for an iteration, and `attribution_from_env` of the
hook, which reads it back.

* `attributionEnv`; `attributionFromEnv`;
* `present_requiredText`, `attribution_round_trip`.
-/

namespace Tokenweir.Orchestrator

variable {u : Unicode}

/-! ### The producer -/

/-- `ATTRIBUTION_ENV`. -/
def issueKeyName : String := "MADO_ISSUE_KEY"
def phaseName : String := "MADO_PHASE"
def streamIdName : String := "MADO_STREAM_ID"
def pricingModeName : String := "MADO_PRICING_MODE"

/-- What stands for a pricing mode: a member of the enumeration, or a string. -/
inductive ModeArg
  | member (mode : PricingMode)
  | text (value : Text)

/-- `PricingMode.coerce`. -/
def coerceMode : Option ModeArg → Except OrchestratorError (Option PricingMode)
  | none => .ok none
  | some (.member mode) => .ok (some mode)
  | some (.text value) =>
    match PricingMode.coerce (.str value) with
    | .ok mode => .ok mode
    | .error _ => .error (.pricingMode value)

/-- `_required_text`. -/
def requiredText (name : String) : Option Text → Except OrchestratorError Text
  | none => .ok []
  | some value => if NonBlank value then .ok value.strip else .error (.notGiven name)

/-- A phase as a string, which a member of the enumeration is too. -/
def PhaseArg.toText : PhaseArg → Text
  | .member kind => kind.value
  | .text value => value

/-- The checks of a phase. -/
def checkPhase (u : Unicode) : Option PhaseArg → Except OrchestratorError Unit
  | none => .ok ()
  | some phase =>
    if collapse phase.toText = [] then .error .phaseBlank
    else do
      let parsed ← parsePhase u (u.lower (collapse phase.toText))
      if parsed.badOccurrence then .error (.phaseOccurrence phase.toText) else .ok ()

/-- The label of a phase. -/
def phaseOf (u : Unicode) : Option PhaseArg → Except OrchestratorError (Option Text)
  | none => .ok none
  | some (.member kind) => .ok (some kind.value)
  | some (.text value) => normalizePhase u value

/-- `attribution_env`. -/
def attributionEnv (u : Unicode) (issueKey : Option Text) (phase : Option PhaseArg)
    (streamId : Option Text) (pricingMode : Option ModeArg) :
    Except OrchestratorError (List (String × Text)) := do
  let mode ← coerceMode pricingMode
  checkPhase u phase
  let label ← phaseOf u phase
  let issueKey ← requiredText "issue_key" issueKey
  let streamId ← requiredText "stream_id" streamId
  return [(issueKeyName, issueKey), (phaseName, label.getD []), (streamIdName, streamId),
    (pricingModeName, (mode.map fun mode => Text.of mode.value).getD [])]

/-! ### The environment -/

/-- The variables of an environment. -/
abbrev Env := String → Option Text

/-- `env.update`. -/
def Env.update (e : Env) (block : List (String × Text)) : Env :=
  fun name => (block.lookup name).or (e name)

/-! ### The consumer -/

/-- `_env`. -/
def readEnv (e : Env) (name : String) : Option Text :=
  (e name).bind fun value => if value.strip = [] then none else some value.strip

/-- What the hook writes in a record. -/
structure Attribution where
  workload : Option Text
  queue : Option Text
  parentRequestId : Option Text
  pricingMode : PricingMode
  deriving DecidableEq

/-- The pricing mode that is declared, or a subscription. -/
def declaredMode : Option Text → PricingMode
  | none => .subscription
  | some declared =>
    match PricingMode.coerce (.str declared) with
    | .ok (some mode) => mode
    | _ => .subscription

/-- The phase that is written, normalized. -/
def writtenPhase (u : Unicode) : Option Text → Except OrchestratorError (Option Text)
  | none => .ok none
  | some written => normalizePhase u written

/-- `attribution_from_env`. -/
def attributionFromEnv (u : Unicode) (e : Env) : Except OrchestratorError Attribution := do
  let queue ← writtenPhase u (readEnv e phaseName)
  return {
    workload := readEnv e issueKeyName
    queue
    parentRequestId := readEnv e streamIdName
    pricingMode := declaredMode (readEnv e pricingModeName) }

/-! ### What is read back -/

theorem nonBlank_strip {v : Text} (h : NonBlank v) : v.strip ≠ [] := by
  intro hnil
  obtain ⟨c, hc, hsolid⟩ := List.any_eq_true.1 h
  have hspace := strip_eq_nil.1 hnil c hc
  simp only [isBlankChar, hspace, Bool.true_or, Bool.not_true] at hsolid
  cases hsolid

/-- The value of a variable, as it is read. -/
def present (value : Text) : Option Text := if value.strip = [] then none else some value.strip

theorem present_requiredText {name : String} {arg : Option Text} {value : Text}
    (h : requiredText name arg = .ok value) : present value = arg.map Text.strip := by
  unfold requiredText at h
  split at h
  · obtain rfl := Except.ok.inj h
    rfl
  · split at h
    · rename_i v hv
      obtain rfl := Except.ok.inj h
      rw [present, Text.strip_strip, if_neg (nonBlank_strip hv)]
      rfl
    · cases h

theorem present_value (mode : PricingMode) :
    present (Text.of mode.value) = some (Text.of mode.value) := by
  cases mode <;> decide +kernel

/-- What is normalized is tidy, and no blank. -/
theorem tidy_of_normalized {v l : Text} (h : normalizePhase u v = .ok (some l)) :
    Tidy l ∧ l ≠ [] := by
  have hne : collapse v ≠ [] := by
    intro hnil
    rw [normalizePhase_nil hnil] at h
    cases h
  rcases normalizePhase_cases (u := u) hne with ⟨k, occurrence, -, hpos, -, -, -, -, hv⟩ |
    ⟨-, -, hv⟩ | ⟨-, -, -, hv⟩
  · obtain rfl := Option.some.inj (Except.ok.inj (hv.symm.trans h))
    have htidy := tidy_collapse (labelText k occurrence)
    rw [collapse_labelText] at htidy
    exact ⟨htidy, (names_labelText (u := u) k hpos).ne_nil⟩
  · cases hv.symm.trans h
  · obtain rfl := Option.some.inj (Except.ok.inj (hv.symm.trans h))
    exact ⟨tidy_collapse v, hne⟩

theorem present_of_tidy {l : Text} (h : Tidy l) (hne : l ≠ []) : present l = some l := by
  rw [present, Text.strip_of_ends h.head h.last, if_neg hne]

/-- The phase that is exported is read back as it was normalized, and is not missing. -/
theorem phase_read_back {phase : Option PhaseArg} {label : Option Text}
    (hcheck : checkPhase u phase = .ok ()) (h : phaseOf u phase = .ok label) :
    writtenPhase u (present (label.getD [])) = .ok label ∧
      (label = none → phase = none) := by
  have hlabel : ∀ l, normalizePhase u l = .ok (some l) →
      writtenPhase u (present l) = .ok (some l) := by
    intro l hl
    obtain ⟨htidy, hne⟩ := tidy_of_normalized hl
    rw [present_of_tidy htidy hne]
    exact hl
  rcases phase with _ | ⟨kind | value⟩
  · obtain rfl := Except.ok.inj h
    exact ⟨rfl, fun _ => rfl⟩
  · obtain rfl := Except.ok.inj h
    refine ⟨hlabel _ ?_, nofun⟩
    exact (@normalizePhase_labelText u kind none (by rintro _ ⟨⟩) (by rintro _ ⟨⟩)).1
  · have hne : collapse value ≠ [] := by
      intro hnil
      have herror : checkPhase u (some (.text value)) = .error .phaseBlank := if_pos hnil
      rw [herror] at hcheck
      cases hcheck
    cases label with
    | none =>
      rcases normalizePhase_cases (u := u) hne with ⟨_, _, -, -, -, -, -, -, hv⟩ | ⟨-, -, hv⟩ |
        ⟨-, -, -, hv⟩
      · cases hv.symm.trans h
      · cases hv.symm.trans h
      · cases hv.symm.trans h
    | some l => exact ⟨hlabel l (normalizePhase_idem h), nofun⟩

theorem declared_read_back (mode : Option PricingMode) :
    declaredMode (present ((mode.map fun mode => Text.of mode.value).getD [])) =
      mode.getD .subscription := by
  rcases mode with _ | _ | _
  · rfl
  · rw [Option.map_some, Option.getD_some, present_value]
    rfl
  · rw [Option.map_some, Option.getD_some, present_value]
    rfl

theorem strip_ne_of_requiredText {name : String} {arg : Option Text} {value : Text}
    (h : requiredText name arg = .ok value) : ∀ v ∈ arg, v.strip ≠ [] := by
  rintro v ⟨⟩
  rw [requiredText] at h
  split at h
  · rename_i hv
    exact nonBlank_strip hv
  · cases h

/-- A record with an attribution. -/
def attributed (r : UsageRecord) (a : Attribution) : UsageRecord :=
  { r with
    workload := a.workload
    queue := a.queue
    parentRequestId := a.parentRequestId
    pricingMode := some a.pricingMode }

/-- The arguments of a record, with those of an attribution. -/
def attributedArguments (r : UsageRecord) (a : Attribution) : Field → Option Json
  | .workload => some (Scalar.ofText a.workload).toJson
  | .queue => some (Scalar.ofText a.queue).toJson
  | .parentRequestId => some (Scalar.ofText a.parentRequestId).toJson
  | .pricingMode => some (Scalar.ofMode (some a.pricingMode)).toJson
  | f => some (r.scalar f).toJson

/-- The constructor takes an attribution as it is. -/
theorem construct_attributed (r : UsageRecord) (a : Attribution) :
    construct (attributedArguments r a) = .ok (attributed r a) := by
  refine construct_eq_ok.2 fun f => ?_
  cases f <;> rfl

/-- **The attribution** that an orchestrator exports is what the hook reads, whatever was in the
environment before: nothing is missing, and the constructor of a record accepts it. -/
theorem attribution_round_trip (u : Unicode) (e : Env) {issueKey : Option Text}
    {phase : Option PhaseArg} {streamId : Option Text} {pricingMode : Option ModeArg}
    {block : List (String × Text)}
    (h : attributionEnv u issueKey phase streamId pricingMode = .ok block) :
    ∃ mode queue, coerceMode pricingMode = .ok mode ∧ phaseOf u phase = .ok queue ∧
      (queue = none → phase = none) ∧ (∀ v ∈ issueKey, v.strip ≠ []) ∧ (∀ v ∈ streamId, v.strip ≠ []) ∧
      ∃ a, attributionFromEnv u (e.update block) = .ok a ∧
        a.workload = issueKey.map Text.strip ∧ a.queue = queue ∧
        a.parentRequestId = streamId.map Text.strip ∧ a.pricingMode = mode.getD .subscription ∧
        ∀ r, construct (attributedArguments r a) = .ok (attributed r a) := by
  simp only [attributionEnv, bind_eq_ok] at h
  obtain ⟨mode, hmode, ⟨⟩, hcheck, queue, hqueue, issue, hissue, stream, hstream, hblock⟩ := h
  obtain rfl := Except.ok.inj hblock
  obtain ⟨hphase, hgiven⟩ := phase_read_back hcheck hqueue
  refine ⟨mode, queue, hmode, hqueue, hgiven, strip_ne_of_requiredText hissue,
    strip_ne_of_requiredText hstream, ?_⟩
  set block := [(issueKeyName, issue), (phaseName, queue.getD []), (streamIdName, stream),
    (pricingModeName, (mode.map fun mode => Text.of mode.value).getD [])] with hblock
  have hread : ∀ name value, block.lookup name = some value →
      readEnv (e.update block) name = present value := by
    intro name value hlookup
    rw [readEnv, Env.update, hlookup]
    rfl
  have hwritten : writtenPhase u (readEnv (e.update block) phaseName) = .ok queue := by
    rw [hread phaseName _ rfl]
    exact hphase
  refine ⟨⟨issueKey.map Text.strip, queue, streamId.map Text.strip, mode.getD .subscription⟩, ?_,
    rfl, rfl, rfl, rfl, fun r => construct_attributed r _⟩
  rw [attributionFromEnv, hwritten, hread issueKeyName _ rfl, hread streamIdName _ rfl,
    hread pricingModeName _ rfl, present_requiredText hissue, present_requiredText hstream,
    declared_read_back]
  rfl

/-- An iteration of an orchestrator, after another one. -/
theorem attribution_first_review :
    ∃ mode queue, coerceMode none = .ok mode ∧
      phaseOf .ascii (some (.text (Text.of "1st review"))) = .ok queue ∧
      (queue = none → some (PhaseArg.text (Text.of "1st review")) = none) ∧
      (∀ v ∈ some (Text.of " TOKWEIR-8 "), v.strip ≠ []) ∧ (∀ v ∈ (none : Option Text), v.strip ≠ []) ∧
      ∃ a, attributionFromEnv .ascii (Env.update (fun _ => some (Text.of "stale"))
          [(issueKeyName, Text.of "TOKWEIR-8"), (phaseName, Text.of "review-1"), (streamIdName, []),
            (pricingModeName, [])]) = .ok a ∧
        a.workload = (some (Text.of " TOKWEIR-8 ")).map Text.strip ∧ a.queue = queue ∧
        a.parentRequestId = (none : Option Text).map Text.strip ∧
        a.pricingMode = mode.getD .subscription ∧
        ∀ r, construct (attributedArguments r a) = .ok (attributed r a) :=
  attribution_round_trip .ascii _ (by rfl)

end Tokenweir.Orchestrator
