import Tokenweir.Parity.Returning

/-!
# The credential in the report

Whatever the requests of the parity command are answered, be it the credential itself, no failure
that is reported shows it. The text of an answer is scrubbed; the texts that are not scrubbed are
the command's own.

* `ownTexts`, what is not scrubbed; `Concealable`;
* `not_infix_scrub`; `ErrorText`, where a reported failure comes from, and `ErrorText.hides`;
* `Line.message`; `Scrubbed`, of the lines of a report;
* `main_hides_credential`.
-/

namespace Tokenweir.Parity

open Probing

/-! ### What is scrubbed, and what is not -/

/-- The endpoints, and the names of the types that are no mapping. -/
def endpoints : List Endpoint := [.countTokens, .messages]

def plainTypes : List String := ["NoneType", "bool", "int", "float", "str", "list"]

/-- `_post` got a body that is not JSON, or no mapping. -/
def notJson (e : Endpoint) : Text :=
  Text.of "POST " ++ e.path ++ Text.of " returned a body that is not JSON"

def notObject (e : Endpoint) (name : String) : Text :=
  Text.of "POST " ++ e.path ++ Text.of " returned " ++ Text.of name ++ Text.of ", not an object"

/-- The texts of a `ProbeError` that are not scrubbed. -/
def ownTexts : List Text :=
  endpoints.map notJson ++ endpoints.flatMap (fun e => plainTypes.map (notObject e)) ++
    [Text.of "POST /v1/messages returned no usage object",
      Text.of "count_tokens did not return an input_tokens count"]

/-- A credential that can be concealed: there is no mark in it, and it is in no text of the
command. -/
structure Concealable (key : Text) : Prop where
  no_mark : CodePoint.of '*' ∉ key
  not_own : ∀ m ∈ ownTexts, ¬key <:+: m

/-- A credential that is longer than the texts of the command, as those of the provider are. -/
theorem concealable_of_length {key : Text} (hmark : CodePoint.of '*' ∉ key)
    (hlength : 63 < key.length) : Concealable key where
  no_mark := hmark
  not_own := by
    have hown : ∀ m ∈ ownTexts, m.length ≤ 63 := by decide +kernel
    intro m hm hpart
    exact absurd (hpart.length_le.trans (hown m hm)) (not_le.2 hlength)

/-- **What is scrubbed** does not show the credential. -/
theorem not_infix_scrub {key : Text} (hne : key ≠ []) (hmark : CodePoint.of '*' ∉ key)
    (m : Text) : ¬key <:+: scrub m key := by
  have hstars : ∀ c ∈ Text.of "***", c = CodePoint.of '*' := fun c hc =>
    List.eq_of_mem_replicate (n := 3) hc
  rintro ⟨A, B, h⟩
  rw [scrub, if_neg hne, List.append_assoc] at h
  exact Masking.mask_hides hne hstars (List.cons_ne_nil _ _)
    (.of_notMem hstars (List.cons_ne_nil _ _) hne hmark) h.symm

/-! ### Where a failure comes from -/

/-- The text of a failure: scrubbed, or one of the command's own. -/
def ErrorText (key m : Text) : Prop := (∃ raw, m = scrub raw key) ∨ m ∈ ownTexts

/-- A failure does not show a credential that can be concealed. -/
theorem ErrorText.hides {key m : Text} (h : ErrorText key m) (hne : key ≠ [])
    (hkey : Concealable key) : ¬key <:+: m := by
  rcases h with ⟨raw, rfl⟩ | hown
  · exact not_infix_scrub hne hkey.no_mark raw
  · exact hkey.not_own m hown

theorem mem_endpoints (e : Endpoint) : e ∈ endpoints := by
  cases e <;> simp [endpoints]

theorem typeName_mem {v : Json} (h : v.isMapping = false) : typeName v ∈ plainTypes := by
  cases v with
  | obj kvs => cases h
  | null => simp [typeName, plainTypes]
  | bool b => simp [typeName, plainTypes]
  | int n => simp [typeName, plainTypes]
  | float x => simp [typeName, plainTypes]
  | str s => simp [typeName, plainTypes]
  | arr xs => simp [typeName, plainTypes]

variable {p : ApiProbe} {model m : Text}

/-- **`_post`** raises what is scrubbed, or what quotes nothing of the answer. -/
theorem errorText_of_post {r : Request} {n : ℕ} (h : p.post r n = .error m) :
    ErrorText p.key m := by
  unfold ApiProbe.post at h
  split at h
  · exact .inl ⟨_, (Except.error.inj h).symm⟩
  · exact .inl ⟨_, (Except.error.inj h).symm⟩
  · split at h
    · refine .inr ?_
      rw [← Except.error.inj h]
      exact List.mem_append_left _ (List.mem_append_left _
        (List.mem_map_of_mem (mem_endpoints r.endpoint)))
    · rename_i parsed _
      by_cases hmapping : parsed.isMapping = true
      · rw [if_pos hmapping] at h
        cases h
      · rw [if_neg hmapping] at h
        refine .inr ?_
        rw [← Except.error.inj h]
        refine List.mem_append_left _ (List.mem_append_right _ (List.mem_flatMap.2
          ⟨r.endpoint, mem_endpoints r.endpoint, List.mem_map_of_mem ?_⟩))
        exact typeName_mem (Bool.eq_false_of_not_eq_true hmapping)

theorem errorText_of_messages {text : Text} {maxTokens n : ℕ}
    (h : p.messages model text maxTokens n = .error m) : ErrorText p.key m := by
  unfold ApiProbe.messages at h
  split at h
  · rename_i message hpost
    rw [← Except.error.inj h]
    exact errorText_of_post hpost
  · split at h
    · cases h
    · rw [← Except.error.inj h]
      exact .inr (List.mem_append_right _ (List.mem_cons_self ..))

theorem errorText_of_envelope {text : Text} {n : ℕ}
    (h : (p.envelope model text n).1 = .error m) : ErrorText p.key m := by
  unfold ApiProbe.envelope at h
  split at h
  · rename_i message hsingle
    rw [← Except.error.inj h]
    exact errorText_of_post hsingle
  · split at h
    · rename_i message hdouble
      rw [← Except.error.inj h]
      exact errorText_of_post hdouble
    · split at h
      · cases h
      · rw [← Except.error.inj h]
        exact .inr (List.mem_append_right _ (List.mem_cons_of_mem _ (List.mem_cons_self ..)))

/-- A round of Probe A fails with what its request raised. -/
theorem errorText_of_askTurn {t : Turn} {n : ℕ} (h : (askTurn p model t n).1 = .failed m) :
    ErrorText p.key m := by
  unfold askTurn at h
  split at h
  · rename_i message hcount
    rw [← TurnAnswer.failed.inj h]
    exact errorText_of_post hcount
  · split at h <;> cases h

/-- A round of Probe A' fails with what one of its two requests raised. -/
theorem errorText_of_askPrompt {prompt : String × ℕ} {n : ℕ}
    (h : (askPrompt p model prompt n).1 = .failed m) : ErrorText p.key m := by
  unfold askPrompt at h
  split at h
  · rename_i message hmessages
    rw [← PromptAnswer.failed.inj h]
    exact errorText_of_messages hmessages
  · split at h
    · cases h
    · split at h
      · cases h
      · split at h
        · rename_i message hcount
          rw [← PromptAnswer.failed.inj h]
          exact errorText_of_post hcount
        · split at h <;> cases h

/-! ### What the lines show -/

/-- The text of a `ProbeError` that a line shows. -/
def Line.message : Line → Option Text
  | envelopeFailed message => some message
  | turnFailed _ message => some message
  | failed message => some message
  | _ => none

/-- The failures that some lines show are scrubbed, or the command's own. -/
def Scrubbed (key : Text) (ls : List Line) : Prop := ∀ l ∈ ls, ∀ m ∈ l.message, ErrorText key m

variable {key : Text} {ls ms : List Line} {a : Args} {ts textOnly : List Turn}

theorem Scrubbed.append (hls : Scrubbed key ls) (hms : Scrubbed key ms) :
    Scrubbed key (ls ++ ms) := List.forall_mem_append.2 ⟨hls, hms⟩

theorem Scrubbed.cons {l : Line} (hl : ∀ m ∈ l.message, ErrorText key m)
    (hls : Scrubbed key ls) : Scrubbed key (l :: ls) := List.forall_mem_cons.2 ⟨hl, hls⟩

/-- Lines that show no failure. -/
theorem scrubbed_of_quiet (h : ∀ l ∈ ls, l.message = none) : Scrubbed key ls := by
  intro l hl m hm
  rw [h l hl] at hm
  cases hm

theorem scrubbed_fixed (words : String) : Scrubbed key [.fixed words] :=
  scrubbed_of_quiet (List.forall_mem_singleton.2 rfl)

theorem scrubbed_ite {c : Prop} [Decidable c] {l : Line} (h : l.message = none) :
    Scrubbed key (if c then [l] else []) := by
  by_cases hc : c
  · rw [if_pos hc]
    exact scrubbed_of_quiet (List.forall_mem_singleton.2 h)
  · rw [if_neg hc]
    exact scrubbed_of_quiet (List.forall_mem_nil _)

theorem scrubbed_envelope : Scrubbed p.key (envelopeOutcome p model textOnly).lines := by
  unfold envelopeOutcome derivation
  rcases textOnly with _ | ⟨t, ts⟩
  · exact scrubbed_fixed ""
  · dsimp only
    rcases henvelope : (p.envelope model (longestOf t ts).outputText 0).1 with message | e
    · refine Scrubbed.cons ?_ (scrubbed_fixed "")
      rintro _ ⟨⟩
      exact errorText_of_envelope henvelope
    · refine Scrubbed.cons ?_ (scrubbed_fixed "")
      rintro _ ⟨⟩

theorem scrubbed_turns : Scrubbed p.key (turnOutcome p a textOnly).lines := by
  rw [turnOutcome_eq]
  intro l hl m hm
  obtain ⟨⟨t, r⟩, hmem, rfl⟩ := List.mem_map.1 hl
  obtain ⟨n, rfl⟩ := exists_ask hmem
  rcases hr : (askTurn p a.model t n).1 with message | _ | ⟨reported, tokenizer⟩
  · simp only [turnLine, hr, Line.message, Option.mem_some] at hm
    exact hm ▸ errorText_of_askTurn hr
  · simp [turnLine, hr, Line.message] at hm
  · cases henvelope : envelopeOf p a.model textOnly <;>
      simp [turnLine, hr, henvelope, Line.message] at hm

theorem scrubbed_afterA {e : Stage} {s : LoopA} : Scrubbed key (afterA a ts e s) := by
  refine scrubbed_of_quiet fun l hl => ?_
  rcases mem_afterA hl with hl | rfl | ⟨n, rfl⟩
  · rcases mem_probeAResult hl with rfl | ⟨c, -, n, rfl⟩ | ⟨n, rfl⟩ | ⟨x, y, rfl⟩ <;> rfl
  · rfl
  · rfl

theorem scrubbed_prompts {e : ℤ} : Scrubbed p.key (promptOutcome p a textOnly e).lines := by
  intro l hl m hm
  obtain ⟨⟨prompt, r⟩, hmem, rfl⟩ := List.mem_map.1 hl
  unfold promptAnswers at hmem
  split at hmem
  · obtain ⟨n, rfl⟩ := exists_ask hmem
    rcases hr : (askPrompt p a.model prompt n).1 with
      message | _ | _ | ⟨reported, tokenizer, thinking⟩
    · simp only [promptLine, hr, Line.message, Option.mem_some] at hm
      exact hm ▸ errorText_of_askPrompt hr
    · simp [promptLine, hr, Line.message] at hm
    · simp [promptLine, hr, Line.message] at hm
    · simp [promptLine, hr, Line.message] at hm
  · cases hmem

theorem scrubbed_control : Scrubbed p.key (controlOutcome p a textOnly).1.lines := by
  unfold controlOutcome
  split
  · unfold afterAPrime
    split
    · exact scrubbed_prompts.append (scrubbed_fixed _)
    · exact scrubbed_prompts
  · unfold skippedAPrime
    split <;> exact scrubbed_fixed _

theorem scrubbed_verdict {offsets apiOffsets : List ℤ} :
    Scrubbed key (verdict offsets apiOffsets) := by
  refine scrubbed_of_quiet fun l hl => ?_
  rcases mem_verdict hl with ⟨s, rfl⟩ | ⟨c, -, n, rfl⟩ | rfl | ⟨c, -, -, rfl⟩ |
    ⟨c, -, d, -, rfl⟩ | ⟨c, -, rfl⟩ | rfl <;> rfl

theorem scrubbed_shape {equal : Json → Json → Bool} {reference : Turn} :
    Scrubbed p.key (shapeOutcome equal (shapeAnswer p a textOnly) reference).1 := by
  rcases hanswer : shapeAnswer p a textOnly with message | ⟨usage, produced⟩
  · rintro _ (_ | ⟨_, ⟨⟩⟩) _ ⟨⟩
    exact errorText_of_messages hanswer
  · refine Scrubbed.append (scrubbed_of_quiet ?_) (scrubbed_of_quiet ?_)
    · simp [Line.message]
    · intro l hl
      obtain ⟨c, -, rfl⟩ := List.mem_map.1 hl
      rfl

theorem scrubbed_probes {equal : Json → Json → Bool} {reference : Turn} :
    Scrubbed p.key (probesOutcome p a equal ts reference).1 := by
  unfold probesOutcome report
  dsimp only
  exact scrubbed_envelope.append (scrubbed_fixed _) |>.append (scrubbed_ite rfl)
    |>.append scrubbed_turns |>.append (scrubbed_ite rfl) |>.append scrubbed_afterA
    |>.append (scrubbed_fixed "") |>.append (scrubbed_fixed _) |>.append scrubbed_control
    |>.append scrubbed_verdict
    |>.append ((scrubbed_fixed "").append (scrubbed_fixed _)) |>.append scrubbed_shape

theorem scrubbed_heading : Scrubbed key (heading a ts) :=
  scrubbed_of_quiet (by simp [heading, Line.message, blankLine])

theorem scrubbed_renderChecks (results : List CheckResult) :
    Scrubbed key (renderChecks results) := by
  refine scrubbed_of_quiet ?_
  unfold renderChecks
  simp only [List.forall_mem_cons, List.forall_mem_flatMap, List.forall_mem_append]
  refine ⟨rfl, fun r _ => ⟨⟨rfl, ?_⟩, ?_⟩⟩
  · exact List.forall_mem_map.2 fun f _ => rfl
  · split
    · exact List.forall_mem_singleton.2 rfl
    · exact List.forall_mem_nil _

/-- **No failure that is reported shows the credential**, whatever the requests are answered. -/
theorem main_hides_credential {s : Setting} {key : Text} {r : ℕ × List Line}
    (hkey : credential s.environment s.credentialFile = some key) (hconceal : Concealable key)
    (hmain : main s = .ok r) : ∀ l ∈ r.2, ∀ m ∈ l.message, ¬key <:+: m := by
  have hscrubbed : Scrubbed key r.2 := by
    rw [(main_eq_ok.1 hmain).2]
    unfold outcome
    rcases s.turns with _ | ⟨t, ts⟩
    · exact scrubbed_heading.append (scrubbed_fixed _)
    · rw [Setting.probe, hkey]
      exact ((scrubbed_heading.append (scrubbed_renderChecks _)).append (scrubbed_fixed "")).append
        (scrubbed_probes (p := ⟨key, s.opener⟩))
  exact fun l hl m hm => (hscrubbed l hl m hm).hides (credential_strip hkey).1 hconceal

/-! ### A request that is answered with the credential -/

/-- A transcript of a single response, of one word. -/
def wordTranscript : List ClaudeCode.Line :=
  [.entry (.obj [(Text.of "message", .obj [(Text.of "id", .str (Text.of "a")),
    (Text.of "content", .arr [textBlock "x"]),
    (Text.of "usage", .obj [(Text.of "output_tokens", .int 1)])])])]

/-- Each request fails, and the exception quotes the credential. -/
def echo (_ : ℕ) (_ : Request) : Reply := .raised (Text.of "E") (Text.of "bad sk-1")

theorem m_not_blank : (Text.of "m").strip ≠ [] := by decide

theorem twenty_prints : Prints 20 := by decide +kernel

/-- A run over this transcript, with this credential. -/
def echoSetting : Setting where
  args :=
    { transcript := Text.of "t"
      model := Text.of "m"
      model_not_blank := m_not_blank
      control := false
      sample := 20
      sample_prints := twenty_prints }
  file := wordTranscript
  reading := .whole
  environment := some (Text.of "sk-1")
  credentialFile := none
  opener := echo
  equal := fun _ _ => true

theorem credential_echo :
    credential echoSetting.environment echoSetting.credentialFile = some (Text.of "sk-1") := by
  decide +kernel

theorem concealable_echo : Concealable (Text.of "sk-1") := ⟨by decide +kernel, by decide +kernel⟩

/-- Failures are reported, and do not show the credential. -/
theorem main_hides_credential_echo : ∃ r, main echoSetting = .ok r ∧
    (∃ l ∈ r.2, l.message.isSome) ∧ ∀ l ∈ r.2, ∀ m ∈ l.message, ¬Text.of "sk-1" <:+: m := by
  have hmain : ((main echoSetting).toOption.any fun r => r.2.any fun l => l.message.isSome) =
      true := by decide +kernel
  rcases h : main echoSetting with raised | r
  · rw [h] at hmain
    cases hmain
  · rw [h] at hmain
    exact ⟨r, rfl, List.any_eq_true.1 hmain,
      main_hides_credential credential_echo concealable_echo h⟩

end Tokenweir.Parity
