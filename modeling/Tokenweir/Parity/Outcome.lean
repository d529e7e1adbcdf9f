import Tokenweir.Parity.Main

/-!
# What the parity command comes to

The command raises when a string cannot be formatted, a quotient is too large, or the report cannot
be printed. For each of its probes, exactly when it does not raise, and what it then comes to.

* `envelopeOf`, `turnAnswers`, `promptAnswers`, `shapeAnswer`, what the requests are answered;
* `EnvelopeFits`, `TurnFits`, `PromptFits`, `ShapeFits`, what of it can be printed;
* `turnOutcome`, `promptOutcome`, the loops; `envelopeStage_eq_ok`, `probeA_eq_ok`,
  `probeAPrime_eq_ok`, `probeB_eq_ok`.
-/

namespace Tokenweir.Parity

open ClaudeCode Probing

theorem say_eq_ok (l m : Line) : say l = .ok m ↔ Formats l.pieces ∧ m = l := by
  unfold say
  by_cases h : Formats l.pieces
  · rw [if_pos h]
    exact ok_eq_ok h
  · rw [if_neg h]
    exact iff_of_false (by rintro ⟨⟩) fun hl => h hl.1

/-- A line is said, and the program goes on. -/
theorem say_bind_eq_ok {α : Type} {l : Line} {f : Line → α} {x : α} :
    (say l >>= fun m => .ok (f m)) = .ok x ↔ Formats l.pieces ∧ x = f l := by
  rw [bind_eq_ok]
  constructor
  · rintro ⟨m, hm, hx⟩
    obtain ⟨hformats, rfl⟩ := (say_eq_ok l m).1 hm
    exact ⟨hformats, (Except.ok.inj hx).symm⟩
  · rintro ⟨hformats, rfl⟩
    exact ⟨l, (say_eq_ok l l).2 ⟨hformats, rfl⟩, rfl⟩

theorem sayAll_eq_ok {ls ms : List Line} :
    sayAll ls = .ok ms ↔ (∀ l ∈ ls, Formats l.pieces) ∧ ms = ls := by
  rw [sayAll, mapM_eq_ok (g := id) say_eq_ok, List.map_id]

theorem printed_eq_ok {status : ℕ} {report : List Line} {r : ℕ × List Line} :
    printed status report = .ok r ↔ (∀ l ∈ report, Encodable l.pieces) ∧ r = (status, report) := by
  unfold printed
  by_cases h : ∀ l ∈ report, Encodable l.pieces
  · rw [if_pos h]
    exact ok_eq_ok h
  · rw [if_neg h]
    exact iff_of_false (by rintro ⟨⟩) fun hl => h hl.1

/-- The words of the program can be printed. -/
theorem formats_fixed (s : String) : Formats (Line.fixed s).pieces := by
  simp [Formats, Line.pieces]

theorem encodable_fixed (s : String) : Encodable (Line.fixed s).pieces := by
  simp [Encodable, Line.pieces]

/-! ### The envelope -/

/-- The derivation of the envelope, if a turn is eligible. -/
def derivation (p : ApiProbe) (model : Text) : List Turn → Option (Except Text ℤ × ℕ × Turn)
  | [] => none
  | t :: ts =>
    some ((p.envelope model (longestOf t ts).outputText 0).1,
      (p.envelope model (longestOf t ts).outputText 0).2, longestOf t ts)

/-- The envelope, if it was derived. -/
def envelopeOf (p : ApiProbe) (model : Text) (textOnly : List Turn) : Option ℤ :=
  match derivation p model textOnly with
  | some (.ok e, _) => some e
  | _ => none

/-- What the derivation of the envelope comes to can be printed. -/
def EnvelopeFits (p : ApiProbe) (model : Text) (textOnly : List Turn) : Prop :=
  match derivation p model textOnly with
  | some (.ok e, _) => Prints e
  | some (.error message, _) => Encodes message
  | none => True

/-- What the derivation of the envelope comes to. -/
def envelopeOutcome (p : ApiProbe) (model : Text) (textOnly : List Turn) : Stage :=
  match derivation p model textOnly with
  | some (.ok e, next, longest) =>
    ⟨[.envelope e longest.outputText.length, blankLine], 0, next⟩
  | some (.error message, next, _) => ⟨[.envelopeFailed message, blankLine], 1, next⟩
  | none => ⟨[blankLine], 0, 0⟩

variable {p : ApiProbe} {model : Text} {textOnly : List Turn}

/-- The derivation does not raise exactly if the envelope can be formatted. -/
theorem envelopeStage_eq_ok {x : Stage × Option ℤ} : envelopeStage p model textOnly = .ok x ↔
    (∀ e ∈ envelopeOf p model textOnly, Prints e) ∧
      x = (envelopeOutcome p model textOnly, envelopeOf p model textOnly) := by
  unfold envelopeStage envelopeOutcome envelopeOf derivation
  rcases textOnly with _ | ⟨t, ts⟩
  · exact ok_eq_ok (by rintro _ ⟨⟩)
  · dsimp only
    rcases p.envelope model (longestOf t ts).outputText 0 with ⟨message | e, next⟩
    · rw [say_bind_eq_ok]
      refine and_congr_left fun _ => iff_of_true ?_ (by rintro _ ⟨⟩)
      simp [Formats, Line.pieces]
    · rw [say_bind_eq_ok]
      refine and_congr_left fun _ => ?_
      simp [Formats, Line.pieces]

theorem envelopeFits_iff : EnvelopeFits p model textOnly ↔
    (∀ e ∈ envelopeOf p model textOnly, Prints e) ∧
      ∀ l ∈ (envelopeOutcome p model textOnly).lines, Encodable l.pieces := by
  unfold EnvelopeFits envelopeOutcome envelopeOf
  rcases derivation p model textOnly with _ | ⟨message | e, next, longest⟩
  · simp [blankLine, encodable_fixed]
  · simp [blankLine, Encodable, Line.pieces]
  · simp [blankLine, Encodable, Line.pieces]

/-! ### Probe A -/

/-- What the requests of Probe A are answered, and the number of the next one. -/
def turnAnswers (p : ApiProbe) (a : Args) (textOnly : List Turn) : List (Turn × TurnAnswer) × ℕ :=
  answers (askTurn p a.model) TurnAnswer.breaks (slice textOnly a.sample)
    (envelopeOutcome p a.model textOnly).next

/-- What Probe A measured of a turn can be printed, and has a ratio. -/
def TurnFits (envelope : Option ℤ) (x : Turn × TurnAnswer) : Prop :=
  (∀ id ∈ x.1.messageId, Encodes id) ∧
    match x.2 with
    | .failed message => Encodes message
    | .incomparable => True
    | .measured reported tokenizer =>
      Prints reported ∧ Prints tokenizer ∧
        ∀ e ∈ envelope, Prints (tokenizer - e) ∧ Prints (reported - (tokenizer - e)) ∧
          (tokenizer - e ≠ 0 → trueDivide reported (tokenizer - e) ≠ none)

/-- The line of a turn. -/
def turnLine (envelope : Option ℤ) (x : Turn × TurnAnswer) : Line :=
  match x.2 with
  | .failed message => .turnFailed x.1.messageId message
  | .incomparable => .turnIncomparable x.1.messageId
  | .measured reported tokenizer =>
    match envelope with
    | none => .turnWithoutEnvelope x.1.messageId reported tokenizer
    | some e =>
      .turnMeasured x.1.messageId reported tokenizer (tokenizer - e) (reported - (tokenizer - e))

/-- A turn is measured. -/
def TurnAnswer.isMeasured : TurnAnswer → Bool
  | measured _ _ => true
  | _ => false

/-- The offset of a turn. -/
def turnOffset (envelope : Option ℤ) (x : Turn × TurnAnswer) : Option ℤ :=
  match x.2 with
  | .measured reported tokenizer => envelope.map fun e => reported - (tokenizer - e)
  | _ => none

/-- The ratio of a turn. -/
def turnRatio (envelope : Option ℤ) (x : Turn × TurnAnswer) : Option ℚ :=
  match x.2 with
  | .measured reported tokenizer =>
    envelope.bind fun e =>
      if tokenizer - e = 0 then none else trueDivide reported (tokenizer - e)
  | _ => none

/-- What a round of Probe A adds. -/
def LoopA.put (envelope : Option ℤ) (s : LoopA) (x : Turn × TurnAnswer) : LoopA where
  lines := s.lines ++ [turnLine envelope x]
  measured := s.measured + (if x.2.isMeasured then 1 else 0)
  offsets := s.offsets ++ (turnOffset envelope x).toList
  ratios := s.ratios ++ (turnRatio envelope x).toList
  failures := s.failures + (if x.2.breaks then 1 else 0)
  broke := s.broke || x.2.breaks

/-- A round of Probe A does not raise. -/
def TurnFormats (envelope : Option ℤ) (x : Turn × TurnAnswer) : Prop :=
  match x.2 with
  | .measured reported tokenizer =>
    Prints reported ∧ Prints tokenizer ∧
      ∀ e ∈ envelope, Prints (tokenizer - e) ∧ Prints (reported - (tokenizer - e)) ∧
        (tokenizer - e ≠ 0 → trueDivide reported (tokenizer - e) ≠ none)
  | _ => True

theorem turnFits_iff {envelope : Option ℤ} {x : Turn × TurnAnswer} : TurnFits envelope x ↔
    TurnFormats envelope x ∧ Encodable (turnLine envelope x).pieces := by
  obtain ⟨t, message | _ | ⟨reported, tokenizer⟩⟩ := x
  · simp [TurnFits, TurnFormats, turnLine, Encodable, Line.pieces]
  · simp [TurnFits, TurnFormats, turnLine, Encodable, Line.pieces]
  · cases envelope <;>
      simp [TurnFits, TurnFormats, turnLine, Encodable, Line.pieces,
        and_comm]

theorem ratioOf_eq_ok {reported bare : ℤ} {rs : List ℚ} : ratioOf reported bare = .ok rs ↔
    (bare ≠ 0 → trueDivide reported bare ≠ none) ∧
      rs = (if bare = 0 then none else trueDivide reported bare).toList := by
  unfold ratioOf
  by_cases h : bare = 0
  · rw [if_pos h, if_pos h]
    exact ok_eq_ok fun hne => absurd h hne
  · rw [if_neg h, if_neg h]
    rcases trueDivide reported bare with _ | ratio
    · exact iff_of_false (by rintro ⟨⟩) fun hr => hr.1 h rfl
    · exact ok_eq_ok fun _ => Option.some_ne_none ratio

/-- **A round of Probe A** raises exactly if a number cannot be printed or a ratio is too large. -/
theorem note_eq_ok {envelope : Option ℤ} (s : LoopA) (x : Turn × TurnAnswer) (s' : LoopA) :
    LoopA.note envelope s x.1 x.2 = .ok s' ↔ TurnFormats envelope x ∧ s' = s.put envelope x := by
  obtain ⟨t, message | _ | ⟨reported, tokenizer⟩⟩ := x
  · rw [LoopA.note, say_bind_eq_ok]
    refine and_congr (iff_of_true ?_ trivial) ?_
    · simp [Formats, Line.pieces]
    · simp [LoopA.put, turnLine, TurnAnswer.isMeasured, turnOffset, turnRatio, TurnAnswer.breaks]
  · rw [LoopA.note, say_bind_eq_ok]
    refine and_congr (iff_of_true ?_ trivial) ?_
    · simp [Formats, Line.pieces]
    · simp [LoopA.put, turnLine, TurnAnswer.isMeasured, turnOffset, turnRatio, TurnAnswer.breaks]
  · rcases envelope with _ | e
    · rw [LoopA.note, say_bind_eq_ok]
      refine and_congr ?_ ?_
      · simp [TurnFormats, Formats, Line.pieces]
      · simp [LoopA.put, turnLine, TurnAnswer.isMeasured, turnOffset, turnRatio, TurnAnswer.breaks]
    · have hformats : Formats (Line.turnMeasured t.messageId reported tokenizer (tokenizer - e)
          (reported - (tokenizer - e))).pieces ↔ Prints reported ∧ Prints tokenizer ∧
            Prints (tokenizer - e) ∧ Prints (reported - (tokenizer - e)) := by
        simp [Formats, Line.pieces]
      rw [LoopA.note, bind_eq_ok]
      simp only [say_bind_eq_ok, ratioOf_eq_ok, hformats]
      constructor
      · rintro ⟨_, ⟨hratio, rfl⟩, ⟨hreported, htokenizer, hbare, hoffset⟩, rfl⟩
        refine ⟨⟨hreported, htokenizer, ?_⟩, ?_⟩
        · rintro _ ⟨⟩
          exact ⟨hbare, hoffset, hratio⟩
        · simp [LoopA.put, turnLine, TurnAnswer.isMeasured, turnOffset, turnRatio,
            TurnAnswer.breaks]
      · rintro ⟨⟨hreported, htokenizer, hall⟩, rfl⟩
        obtain ⟨hbare, hoffset, hratio⟩ := hall e rfl
        refine ⟨_, ⟨hratio, rfl⟩, ⟨hreported, htokenizer, hbare, hoffset⟩, ?_⟩
        simp [LoopA.put, turnLine, TurnAnswer.isMeasured, turnOffset, turnRatio, TurnAnswer.breaks]

/-- What Probe A comes to. -/
def turnOutcome (p : ApiProbe) (a : Args) (textOnly : List Turn) : LoopA :=
  (turnAnswers p a textOnly).1.foldl (LoopA.put (envelopeOf p a.model textOnly)) {}

variable {a : Args}

/-- **Probe A** does not raise exactly if no round does. -/
theorem probeA_eq_ok {x : LoopA × ℕ} :
    probeA p a textOnly (envelopeOf p a.model textOnly) (envelopeOutcome p a.model textOnly).next =
        .ok x ↔
      (∀ y ∈ (turnAnswers p a textOnly).1, TurnFormats (envelopeOf p a.model textOnly) y) ∧
        x = (turnOutcome p a textOnly, (turnAnswers p a textOnly).2) := by
  obtain ⟨s, n⟩ := x
  rw [probeA, probe_eq_ok note_eq_ok, Prod.mk.injEq]
  exact Iff.rfl

theorem foldl_put {envelope : Option ℤ} (xs : List (Turn × TurnAnswer)) (s : LoopA) :
    xs.foldl (LoopA.put envelope) s =
      { lines := s.lines ++ xs.map (turnLine envelope)
        measured := s.measured + xs.countP fun x => x.2.isMeasured
        offsets := s.offsets ++ xs.filterMap (turnOffset envelope)
        ratios := s.ratios ++ xs.filterMap (turnRatio envelope)
        failures := s.failures + xs.countP fun x => x.2.breaks
        broke := s.broke || xs.any fun x => x.2.breaks } := by
  induction xs generalizing s with
  | nil => simp
  | cons x xs ih =>
    rw [List.foldl_cons, ih, LoopA.put]
    simp only [List.map_cons, List.countP_cons, List.filterMap_cons, List.any_cons, LoopA.mk.injEq,
      List.append_assoc, List.singleton_append, Bool.or_assoc, true_and, and_true]
    refine ⟨?_, ?_, ?_, ?_⟩
    · omega
    · cases turnOffset envelope x <;> rfl
    · cases turnRatio envelope x <;> rfl
    · omega

/-- What Probe A has noted in the end. -/
theorem turnOutcome_eq : turnOutcome p a textOnly =
    { lines := (turnAnswers p a textOnly).1.map (turnLine (envelopeOf p a.model textOnly))
      measured := (turnAnswers p a textOnly).1.countP fun x => x.2.isMeasured
      offsets := (turnAnswers p a textOnly).1.filterMap
        (turnOffset (envelopeOf p a.model textOnly))
      ratios := (turnAnswers p a textOnly).1.filterMap (turnRatio (envelopeOf p a.model textOnly))
      failures := (turnAnswers p a textOnly).1.countP fun x => x.2.breaks
      broke := (turnAnswers p a textOnly).1.any fun x => x.2.breaks } := by
  rw [turnOutcome, foldl_put]
  simp

/-! ### Offsets -/

theorem mem_sortedSet {offsets : List ℤ} {n : ℤ} : n ∈ sortedSet offsets ↔ n ∈ offsets := by
  rw [sortedSet, (List.perm_insertionSort _ _).mem_iff, List.mem_dedup]

/-- The offsets are one and the same integer. -/
theorem sortedSet_eq_singleton {offsets : List ℤ} {c : ℤ} :
    sortedSet offsets = [c] ↔ offsets ≠ [] ∧ ∀ n ∈ offsets, n = c := by
  constructor
  · intro h
    constructor
    · rintro rfl
      cases h
    · intro n hn
      rw [← mem_sortedSet, h] at hn
      exact List.mem_singleton.1 hn
  · rintro ⟨hne, hall⟩
    obtain ⟨n, hn⟩ := List.exists_mem_of_ne_nil offsets hne
    have hnodup : (sortedSet offsets).Nodup :=
      (List.perm_insertionSort _ _).nodup_iff.2 (List.nodup_dedup offsets)
    have hmem : ∀ m, m ∈ sortedSet offsets ↔ m ∈ [c] := fun m => by
      rw [mem_sortedSet, List.mem_singleton]
      constructor
      · exact hall m
      · rintro rfl
        rwa [← hall n hn]
    exact List.perm_singleton.1 ((List.perm_ext_iff_of_nodup hnodup (List.nodup_singleton c)).2 hmem)

/-- The lines of the result of Probe A. -/
theorem mem_probeAResult {offsets : List ℤ} {ratios : List ℚ} {l : Line}
    (h : l ∈ probeAResult offsets ratios) :
    l = blankLine ∨ (∃ c ∈ offsets, ∃ n, l = .constant c n) ∨
      (∃ n, l = .varies (sortedSet offsets) n) ∨ ∃ x y, l = .ratios x y := by
  unfold probeAResult at h
  by_cases hnil : offsets = []
  · rw [if_pos hnil] at h
    cases h
  · rw [if_neg hnil, List.mem_append, List.mem_cons, List.mem_singleton] at h
    rcases h with (rfl | hresult) | hratios
    · exact .inl rfl
    · split at hresult
      · rename_i c hc
        refine .inr (.inl ⟨c, ?_, _, hresult⟩)
        rw [← mem_sortedSet, hc]
        exact List.mem_singleton_self c
      · exact .inr (.inr (.inl ⟨_, hresult⟩))
    · split at hratios
      · exact .inr (.inr (.inr ⟨_, _, List.mem_singleton.1 hratios⟩))
      · cases hratios

/-- The lines after Probe A. -/
theorem mem_afterA {turns : List Turn} {e : Stage} {s : LoopA} {l : Line}
    (h : l ∈ afterA a turns e s) :
    l ∈ probeAResult s.offsets s.ratios ∨ l = accountLine turns s.measured ∨
      ∃ n, l = .shortfall n a.sample := by
  unfold afterA at h
  rw [List.mem_append, List.mem_append, List.mem_singleton, or_assoc] at h
  refine h.imp_right (Or.imp_right fun hshortfall => ?_)
  split at hshortfall
  · exact ⟨_, List.mem_singleton.1 hshortfall⟩
  · cases hshortfall

/-- What is said after Probe A is formatted, as each offset was. -/
theorem formats_afterA {turns : List Turn} {e : Stage} {s : LoopA}
    (h : ∀ n ∈ s.offsets, Prints n) {l : Line} (hl : l ∈ afterA a turns e s) : Formats l.pieces := by
  have hset : Formats (listPieces (sortedSet s.offsets)) :=
    formats_listPieces fun n hn => h n (mem_sortedSet.1 hn)
  rcases mem_afterA hl with hl | rfl | ⟨n, rfl⟩
  · rcases mem_probeAResult hl with rfl | ⟨c, hc, n, rfl⟩ | ⟨n, rfl⟩ | ⟨x, y, rfl⟩
    · exact formats_fixed ""
    · simpa [Formats, Line.pieces] using h c hc
    · simpa [Line.pieces, formats_cons, formats_append, formats_nil] using hset
    · simp [Formats, Line.pieces]
  · simp [Formats, Line.pieces, accountLine]
  · simpa [Formats, Line.pieces] using a.sample_prints

theorem encodable_afterA {turns : List Turn} {e : Stage} {s : LoopA} {l : Line}
    (hl : l ∈ afterA a turns e s) : Encodable l.pieces := by
  rcases mem_afterA hl with hl | rfl | ⟨n, rfl⟩
  · rcases mem_probeAResult hl with rfl | ⟨c, hc, n, rfl⟩ | ⟨n, rfl⟩ | ⟨x, y, rfl⟩
    · exact encodable_fixed ""
    · simp [Encodable, Line.pieces]
    · simpa [Line.pieces, encodable_cons, encodable_append, encodable_nil] using
        encodable_listPieces (sortedSet s.offsets)
    · simp [Encodable, Line.pieces]
  · simp [Encodable, Line.pieces, accountLine]
  · simp [Encodable, Line.pieces]

/-- An offset that is noted was formatted. -/
theorem prints_of_offset {envelope : Option ℤ} {xs : List (Turn × TurnAnswer)}
    (h : ∀ x ∈ xs, TurnFormats envelope x) :
    ∀ n ∈ xs.filterMap (turnOffset envelope), Prints n := by
  intro n hn
  obtain ⟨⟨t, r⟩, hx, hoffset⟩ := List.mem_filterMap.1 hn
  rcases r with message | _ | ⟨reported, tokenizer⟩
  · cases hoffset
  · cases hoffset
  · obtain ⟨e, he, rfl⟩ := Option.map_eq_some_iff.1 hoffset
    exact ((h _ hx).2.2 e he).2.1

/-! ### Probe A' -/

/-- The envelope of Probe A', if that is run. -/
def controlEnvelope (p : ApiProbe) (a : Args) (textOnly : List Turn) : Option ℤ :=
  if a.control then envelopeOf p a.model textOnly else none

/-- What the requests of Probe A' are answered, and the number of the next one. -/
def promptAnswers (p : ApiProbe) (a : Args) (textOnly : List Turn) :
    List ((String × ℕ) × PromptAnswer) × ℕ :=
  match controlEnvelope p a textOnly with
  | some _ =>
    answers (askPrompt p a.model) PromptAnswer.breaks controlPrompts (turnAnswers p a textOnly).2
  | none => ([], (turnAnswers p a textOnly).2)

/-- What Probe A' measured of a response can be printed. -/
def PromptFits (envelope : Option ℤ) (x : (String × ℕ) × PromptAnswer) : Prop :=
  match x.2 with
  | .failed message => Encodes message
  | .measured reported tokenizer thinking =>
    ∀ e ∈ envelope, Prints reported ∧ Prints (tokenizer - e) ∧ Prints thinking ∧
      Prints (reported - (tokenizer - e) - thinking)
  | _ => True

/-- The line of a response. -/
def promptLine (e : ℤ) (x : (String × ℕ) × PromptAnswer) : Line :=
  match x.2 with
  | .failed message => .failed message
  | .unreported => .fixed "  incomparable (no output_tokens, or no text produced)"
  | .uncounted => .fixed "  incomparable (no count returned)"
  | .measured reported tokenizer thinking =>
    .promptMeasured reported (tokenizer - e) thinking (reported - (tokenizer - e) - thinking)

/-- The offset of a response. -/
def promptOffset (e : ℤ) (x : (String × ℕ) × PromptAnswer) : Option ℤ :=
  match x.2 with
  | .measured reported tokenizer thinking => some (reported - (tokenizer - e) - thinking)
  | _ => none

/-- What a round of Probe A' adds. -/
def LoopAPrime.put (e : ℤ) (s : LoopAPrime) (x : (String × ℕ) × PromptAnswer) : LoopAPrime where
  lines := s.lines ++ [promptLine e x]
  offsets := s.offsets ++ (promptOffset e x).toList
  failures := s.failures + (if x.2.breaks then 1 else 0)
  broke := s.broke || x.2.breaks

/-- A round of Probe A' does not raise. -/
def PromptFormats (e : ℤ) (x : (String × ℕ) × PromptAnswer) : Prop :=
  Formats (promptLine e x).pieces

theorem promptFits_iff {e : ℤ} {x : (String × ℕ) × PromptAnswer} : PromptFits (some e) x ↔
    PromptFormats e x ∧ Encodable (promptLine e x).pieces := by
  obtain ⟨prompt, message | _ | _ | ⟨reported, tokenizer, thinking⟩⟩ := x <;>
    simp [PromptFits, PromptFormats, promptLine, Formats, Encodable, Line.pieces]

theorem promptNote_eq_ok {e : ℤ} (s : LoopAPrime) (x : (String × ℕ) × PromptAnswer)
    (s' : LoopAPrime) :
    LoopAPrime.note e s x.2 = .ok s' ↔ PromptFormats e x ∧ s' = s.put e x := by
  obtain ⟨prompt, message | _ | _ | ⟨reported, tokenizer, thinking⟩⟩ := x
  · rw [LoopAPrime.note, say_bind_eq_ok]
    simp [PromptFormats, promptLine, LoopAPrime.put, promptOffset, PromptAnswer.breaks]
  · have hput : s.put e (prompt, .unreported) =
        { s with lines := s.lines ++ [promptLine e (prompt, .unreported)] } := by
      simp [LoopAPrime.put, promptOffset, PromptAnswer.breaks]
    rw [hput]
    exact ok_eq_ok (formats_fixed _)
  · have hput : s.put e (prompt, .uncounted) =
        { s with lines := s.lines ++ [promptLine e (prompt, .uncounted)] } := by
      simp [LoopAPrime.put, promptOffset, PromptAnswer.breaks]
    rw [hput]
    exact ok_eq_ok (formats_fixed _)
  · rw [LoopAPrime.note, say_bind_eq_ok]
    simp [PromptFormats, promptLine, LoopAPrime.put, promptOffset, PromptAnswer.breaks]

theorem foldl_promptPut {e : ℤ} (xs : List ((String × ℕ) × PromptAnswer)) (s : LoopAPrime) :
    xs.foldl (LoopAPrime.put e) s =
      { lines := s.lines ++ xs.map (promptLine e)
        offsets := s.offsets ++ xs.filterMap (promptOffset e)
        failures := s.failures + xs.countP fun x => x.2.breaks
        broke := s.broke || xs.any fun x => x.2.breaks } := by
  induction xs generalizing s with
  | nil => simp
  | cons x xs ih =>
    rw [List.foldl_cons, ih, LoopAPrime.put]
    simp only [List.map_cons, List.countP_cons, List.filterMap_cons, List.any_cons,
      LoopAPrime.mk.injEq, List.append_assoc, List.singleton_append, Bool.or_assoc, true_and,
      and_true]
    refine ⟨?_, ?_⟩
    · cases promptOffset e x <;> rfl
    · omega

/-- What the loop of Probe A' comes to. -/
def promptOutcome (p : ApiProbe) (a : Args) (textOnly : List Turn) (e : ℤ) : LoopAPrime where
  lines := (promptAnswers p a textOnly).1.map (promptLine e)
  offsets := (promptAnswers p a textOnly).1.filterMap (promptOffset e)
  failures := (promptAnswers p a textOnly).1.countP fun x => x.2.breaks
  broke := (promptAnswers p a textOnly).1.any fun x => x.2.breaks

/-- What Probe A' comes to. -/
def controlOutcome (p : ApiProbe) (a : Args) (textOnly : List Turn) : Stage × List ℤ :=
  match controlEnvelope p a textOnly with
  | some e => afterAPrime (promptOutcome p a textOnly e) (promptAnswers p a textOnly).2
  | none => (skippedAPrime a (promptAnswers p a textOnly).2, [])

/-- **Probe A'** does not raise exactly if no round does. -/
theorem probeAPrime_eq_ok {x : Stage × List ℤ} :
    probeAPrime p a (envelopeOf p a.model textOnly) (turnAnswers p a textOnly).2 = .ok x ↔
      (∀ e ∈ controlEnvelope p a textOnly, ∀ y ∈ (promptAnswers p a textOnly).1,
        PromptFormats e y) ∧ x = controlOutcome p a textOnly := by
  unfold probeAPrime controlOutcome promptOutcome promptAnswers controlEnvelope
  cases a.control with
  | false => exact ok_eq_ok (by rintro _ ⟨⟩)
  | true =>
    rcases envelopeOf p a.model textOnly with _ | e
    · exact ok_eq_ok (by rintro _ ⟨⟩)
    · simp only [Bool.not_true, Bool.false_eq_true, if_false, if_true, bind_eq_ok]
      constructor
      · rintro ⟨⟨s, n⟩, hprobe, hx⟩
        obtain ⟨hall, rfl, rfl⟩ := (probe_eq_ok promptNote_eq_ok).1 hprobe
        refine ⟨by rintro _ ⟨⟩; exact hall, ?_⟩
        rw [← Except.ok.inj hx, foldl_promptPut]
        simp
      · rintro ⟨hall, rfl⟩
        refine ⟨_, (probe_eq_ok promptNote_eq_ok).2 ⟨hall e rfl, rfl, rfl⟩, ?_⟩
        rw [foldl_promptPut]
        simp

/-! ### The verdict -/

/-- The lines of the verdict: PARITY only of one and the same offset on both sides. -/
theorem mem_verdict {offsets apiOffsets : List ℤ} {l : Line} (h : l ∈ verdict offsets apiOffsets) :
    (∃ s, l = .fixed s) ∨ (∃ c ∈ apiOffsets, ∃ n, l = .controlConstant c n) ∨
      l = .controlVaries (sortedSet apiOffsets) ∨
      (∃ c, sortedSet apiOffsets = [c] ∧ sortedSet offsets = [c] ∧ l = .parity c) ∨
      (∃ c ∈ offsets, ∃ d ∈ apiOffsets, l = .difference c d) ∨
      (∃ c ∈ offsets, l = .transcriptOnly c) ∨ l = .drift (sortedSet offsets) := by
  have hmem : ∀ {ns : List ℤ} {c : ℤ}, sortedSet ns = [c] → c ∈ ns := fun hc => by
    rw [← mem_sortedSet, hc]
    exact List.mem_singleton_self _
  unfold verdict at h
  by_cases hcontrol : apiOffsets ≠ []
  · rw [if_pos hcontrol, List.mem_cons, List.mem_cons, List.mem_singleton] at h
    rcases h with rfl | h | h
    · exact .inl ⟨_, rfl⟩
    · split at h
      · rename_i c hc
        exact .inr (.inl ⟨c, hmem hc, _, h⟩)
      · exact .inr (.inr (.inl h))
    · split at h
      · rename_i api c hapi hc
        by_cases heq : api = c
        · rw [if_pos heq] at h
          subst heq
          exact .inr (.inr (.inr (.inl ⟨api, hapi, hc, h⟩)))
        · rw [if_neg heq] at h
          exact .inr (.inr (.inr (.inr (.inl ⟨c, hmem hc, api, hmem hapi, h⟩))))
      · exact .inl ⟨_, h⟩
  · rw [if_neg hcontrol] at h
    split at h
    · split at h
      · rename_i c hc
        exact .inr (.inr (.inr (.inr (.inr (.inl ⟨c, hmem hc, List.mem_singleton.1 h⟩)))))
      · exact .inr (.inr (.inr (.inr (.inr (.inr (List.mem_singleton.1 h))))))
    · cases h

/-- The verdict is formatted, as each offset was. -/
theorem formats_verdict {offsets apiOffsets : List ℤ} (h : ∀ n ∈ offsets, Prints n)
    (hapi : ∀ n ∈ apiOffsets, Prints n) {l : Line} (hl : l ∈ verdict offsets apiOffsets) :
    Formats l.pieces := by
  have hset : ∀ {ns : List ℤ}, (∀ n ∈ ns, Prints n) → Formats (listPieces (sortedSet ns)) :=
    fun hns => formats_listPieces fun n hn => hns n (mem_sortedSet.1 hn)
  rcases mem_verdict hl with ⟨s, rfl⟩ | ⟨c, hc, n, rfl⟩ | rfl | ⟨c, hc, -, rfl⟩ |
    ⟨c, hc, d, hd, rfl⟩ | ⟨c, hc, rfl⟩ | rfl
  · exact formats_fixed s
  · simpa [Formats, Line.pieces] using hapi c hc
  · simpa [Line.pieces, formats_cons] using hset hapi
  · have hmem : c ∈ apiOffsets := by
      rw [← mem_sortedSet, hc]
      exact List.mem_singleton_self c
    simpa [Formats, Line.pieces] using hapi c hmem
  · simpa [Formats, Line.pieces] using ⟨h c hc, hapi d hd⟩
  · simpa [Formats, Line.pieces] using h c hc
  · simpa [Line.pieces, formats_cons, formats_append, formats_nil] using hset h

theorem encodable_verdict {offsets apiOffsets : List ℤ} {l : Line}
    (hl : l ∈ verdict offsets apiOffsets) : Encodable l.pieces := by
  rcases mem_verdict hl with ⟨s, rfl⟩ | ⟨c, -, n, rfl⟩ | rfl | ⟨c, -, -, rfl⟩ |
    ⟨c, -, d, -, rfl⟩ | ⟨c, -, rfl⟩ | rfl
  · exact encodable_fixed s
  · simp [Encodable, Line.pieces]
  · simpa [Line.pieces, encodable_cons] using encodable_listPieces (sortedSet apiOffsets)
  · simp [Encodable, Line.pieces]
  · simp [Encodable, Line.pieces]
  · simp [Encodable, Line.pieces]
  · simpa [Line.pieces, encodable_cons, encodable_append, encodable_nil] using
      encodable_listPieces (sortedSet offsets)

/-- An offset of Probe A' was formatted. -/
theorem prints_of_promptOffset {e : ℤ} {xs : List ((String × ℕ) × PromptAnswer)}
    (h : ∀ x ∈ xs, PromptFormats e x) : ∀ n ∈ xs.filterMap (promptOffset e), Prints n := by
  intro n hn
  obtain ⟨⟨prompt, r⟩, hx, hoffset⟩ := List.mem_filterMap.1 hn
  rcases r with message | _ | _ | ⟨reported, tokenizer, thinking⟩
  · cases hoffset
  · cases hoffset
  · cases hoffset
  · have hformats := h _ hx
    simp only [PromptFormats, promptLine, Formats, Line.pieces] at hformats
    cases hoffset
    exact hformats (.signed (reported - (tokenizer - e) - thinking)) (by simp) _ (by simp)

/-! ### Probe B -/

/-- The answer to the request of Probe B. -/
def shapeAnswer (p : ApiProbe) (a : Args) (textOnly : List Turn) : Except Text (Json × Text) :=
  p.messages a.model (Text.of "Reply with the single word: ok") 16
    (controlOutcome p a textOnly).1.next

/-- A value can be printed. -/
def ValueFits : Option Json → Prop
  | some (.str s) => Encodes s
  | some v => ∀ n ∈ v.ints, Prints n
  | none => True

/-- What both sides say of a field can be printed. -/
def FieldFits (usage transcript : Json) (name : Text) : Prop :=
  match numeric (usage.get name), numeric (transcript.get name) with
  | some api, some count => Prints api ∧ Prints count
  | _, _ => ValueFits (usage.get name) ∧ ValueFits (transcript.get name)

/-- What Probe B comes to can be printed, and has ratios. -/
def ShapeFits (answer : Except Text (Json × Text)) (reference : Turn) : Prop :=
  match answer with
  | .error message => Encodes message
  | .ok (usage, _) =>
    (∀ id ∈ reference.messageId, Encodes id) ∧
      (∀ name ∈ reportedNames usage reference.usage, HasRatio usage reference.usage name) ∧
      ∀ name ∈ billingFields, FieldFits usage reference.usage name

theorem valueFits_iff {v : Option Json} : ValueFits v ↔
    (∀ n ∈ (strPiece v).ints, Prints n) ∧ ∀ t ∈ (strPiece v).strings, Encodes t := by
  rcases v with _ | _ | _ | _ | _ | _ | _ | _ <;> simp [ValueFits, strPiece, Json.ints]

theorem comparison_name (equal : Json → Json → Bool) (usage transcript : Json) (name : Text) :
    (comparison equal usage transcript name).name = name := by
  unfold comparison
  split
  · split <;> rfl
  · rfl

/-- What a comparison shows. -/
theorem fieldFits_iff {equal : Json → Json → Bool} {usage transcript : Json} {name : Text}
    (hname : name ∈ billingFields) : FieldFits usage transcript name ↔
      Formats (Line.comparison (comparison equal usage transcript name)).pieces ∧
        Encodable (Line.comparison (comparison equal usage transcript name)).pieces := by
  have hencodes : ∀ n ∈ billingFields, Encodes n := by decide
  have hline : ∀ c : FieldComparison, c.name = name →
      (Formats (Line.comparison c).pieces ∧ Encodable (Line.comparison c).pieces ↔
        ValueFits c.reference ∧ ValueFits c.observed) := by
    rintro c rfl
    simp only [valueFits_iff, Formats, Encodable, Line.pieces, List.forall_mem_cons]
    simp only [Piece.ints_words, Piece.ints_raw, Piece.strings_words, Piece.strings_raw]
    have := hencodes _ hname
    simp [this]
    tauto
  rw [hline _ (comparison_name equal usage transcript name)]
  unfold FieldFits comparison
  rcases usage.get name with _ | ref
  · exact Iff.rfl
  rcases transcript.get name with _ | obs
  · dsimp only
    rcases numeric (some ref) with _ | refN <;> exact Iff.rfl
  dsimp only
  rcases numeric (some ref) with _ | refN
  · exact Iff.rfl
  rcases numeric (some obs) with _ | obsN
  · exact Iff.rfl
  · simp [countComparison, ValueFits, Json.ints]

/-- The names that are reported: the billing fields, and the others in their order. -/
theorem reportedNames_eq (usage transcript : Json) : reportedNames usage transcript =
    firsts (billingFields ++ (keys usage ++ keys transcript)) := by
  have hbilling : firsts billingFields = billingFields := by decide +kernel
  rw [firsts, List.foldl_append]
  exact congrArg (fun names => List.foldl _ names _) hbilling.symm

theorem mem_billing_comparisons {equal : Json → Json → Bool} {usage transcript : Json}
    {c : FieldComparison} :
    c ∈ ((reportedNames usage transcript).map (comparison equal usage transcript)).filter
        (fun c => c.name ∈ billingFields) ↔
      ∃ name ∈ billingFields, c = comparison equal usage transcript name := by
  have hreported : ∀ name ∈ billingFields, name ∈ reportedNames usage transcript := by
    intro name hname
    rw [reportedNames_eq, mem_firsts]
    exact List.mem_append_left _ hname
  rw [List.mem_filter, List.mem_map, decide_eq_true_eq]
  constructor
  · rintro ⟨⟨name, -, rfl⟩, hbilling⟩
    rw [comparison_name] at hbilling
    exact ⟨name, hbilling, rfl⟩
  · rintro ⟨name, hname, rfl⟩
    rw [comparison_name]
    exact ⟨⟨name, hreported name hname, rfl⟩, hname⟩

/-- What Probe B comes to: its lines, and its failures. -/
def shapeOutcome (equal : Json → Json → Bool) (answer : Except Text (Json × Text))
    (reference : Turn) : List Line × ℕ :=
  match answer with
  | .error message => ([.failed message], 1)
  | .ok (usage, _) =>
    ([.rowCompared reference.messageId, .apiKeys (sortedKeys usage),
        .transcriptKeys (sortedKeys reference.usage)] ++
      (((reportedNames usage reference.usage).map (comparison equal usage reference.usage)).filter
        fun c => c.name ∈ billingFields).map .comparison, 0)

/-- Probe B does not raise. -/
def ShapeFormats (equal : Json → Json → Bool) (answer : Except Text (Json × Text))
    (reference : Turn) : Prop :=
  match answer with
  | .error _ => True
  | .ok (usage, _) =>
    (∀ name ∈ reportedNames usage reference.usage, HasRatio usage reference.usage name) ∧
      ∀ name ∈ billingFields,
        Formats (Line.comparison (comparison equal usage reference.usage name)).pieces

variable {equal : Json → Json → Bool} {reference : Turn}

/-- **Probe B** raises exactly if a field has no ratio, or a value cannot be formatted. -/
theorem probeB_eq_ok {next : ℕ} {x : List Line × ℕ} : probeB p a equal reference next = .ok x ↔
    ShapeFormats equal (p.messages a.model (Text.of "Reply with the single word: ok") 16 next)
        reference ∧
      x = shapeOutcome equal (p.messages a.model (Text.of "Reply with the single word: ok") 16 next)
        reference := by
  unfold probeB
  rcases p.messages a.model (Text.of "Reply with the single word: ok") 16 next with
    message | ⟨usage, produced⟩
  · dsimp only
    rw [say_bind_eq_ok]
    exact and_congr_left fun _ => iff_of_true (by simp [Formats, Line.pieces]) trivial
  · have hhead : ∀ l ∈ [Line.rowCompared reference.messageId, .apiKeys (sortedKeys usage),
        .transcriptKeys (sortedKeys reference.usage)], Formats l.pieces := by
      simp [Formats, Line.pieces]
    simp only [bind_eq_ok, sayAll_eq_ok, compareUsage_eq_ok]
    constructor
    · rintro ⟨_, ⟨-, rfl⟩, _, ⟨hratios, rfl⟩, _, ⟨hall, rfl⟩, hx⟩
      refine ⟨⟨hratios, fun name hname => ?_⟩, (Except.ok.inj hx).symm⟩
      exact hall _ (List.mem_map_of_mem (mem_billing_comparisons.2 ⟨name, hname, rfl⟩))
    · rintro ⟨⟨hratios, hall⟩, rfl⟩
      refine ⟨_, ⟨hhead, rfl⟩, _, ⟨hratios, rfl⟩, _, ⟨fun l hl => ?_, rfl⟩, rfl⟩
      obtain ⟨c, hc, rfl⟩ := List.mem_map.1 hl
      obtain ⟨name, hname, rfl⟩ := mem_billing_comparisons.1 hc
      exact hall name hname

theorem shapeFits_iff {answer : Except Text (Json × Text)} : ShapeFits answer reference ↔
    ShapeFormats equal answer reference ∧
      ∀ l ∈ (shapeOutcome equal answer reference).1, Encodable l.pieces := by
  rcases answer with message | ⟨usage, produced⟩
  · simp [ShapeFits, ShapeFormats, shapeOutcome, Encodable, Line.pieces]
  · have hhead : (∀ l ∈ [Line.rowCompared reference.messageId, .apiKeys (sortedKeys usage),
        .transcriptKeys (sortedKeys reference.usage)], Encodable l.pieces) ↔
          ∀ id ∈ reference.messageId, Encodes id := by
      simp [Encodable, Line.pieces]
    show (_ ∧ _ ∧ _) ↔ (_ ∧ _) ∧ _
    rw [shapeOutcome, List.forall_mem_append, hhead]
    constructor
    · rintro ⟨hid, hratios, hall⟩
      refine ⟨⟨hratios, fun name hname => ((fieldFits_iff hname).1 (hall name hname)).1⟩, hid, ?_⟩
      intro l hl
      obtain ⟨c, hc, rfl⟩ := List.mem_map.1 hl
      obtain ⟨name, hname, rfl⟩ := mem_billing_comparisons.1 hc
      exact ((fieldFits_iff hname).1 (hall name hname)).2
    · rintro ⟨⟨hratios, hall⟩, hid, hencodable⟩
      refine ⟨hid, hratios, fun name hname => (fieldFits_iff hname).2 ⟨hall name hname, ?_⟩⟩
      exact hencodable _ (List.mem_map_of_mem (mem_billing_comparisons.2 ⟨name, hname, rfl⟩))

end Tokenweir.Parity
