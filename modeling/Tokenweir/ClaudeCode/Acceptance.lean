import Tokenweir.ClaudeCode.Hook
import Tokenweir.Lib.Iso8601
import Tokenweir.Orchestrator.Attribution
import Tokenweir.Store.Row

/-!
# Records that the contract and the writer accept

The arguments that the hook builds from a transcript and its environment, with the checks that
the constructor of a record and the writer make of them.

* `zulu`, `normalizeTs`; `environmentOf`, `buildFieldsFromEnv`;
* `Acceptable`, what is wanted of them; `Meterable`, when they are;
* `instant_normalizeTs`, the instant of a record; `acceptable_iff`.
-/

namespace Tokenweir.ClaudeCode

open Orchestrator (Env Attribution readEnv attributionFromEnv writtenPhase normalizePhase phaseName
  folded TooLongNumber)

/-! ### The fields -/

/-- A `Z` at the end, replaced. -/
def zulu (s : Text) : Text :=
  if s.getLast? = some (CodePoint.of 'Z') ∨ s.getLast? = some (CodePoint.of 'z') then
    s.dropLast ++ DateTime.utcOffset
  else s

/-- `_normalize_ts`, at a reading of the clock; `none` where it raises. -/
def normalizeTs (now : DateTime) : Option Text → Option Text
  | none => some now.isoFormat
  | some value =>
    if value = [] then some now.isoFormat
    else
      match DateTime.fromIsoFormat (zulu value.strip) with
      | none => some now.isoFormat
      | some parsed => parsed.toUtc.map DateTime.isoFormat

def appIdName : String := "TOKENWEIR_APP_ID"
def endpointName : String := "TOKENWEIR_ENDPOINT"

/-- `DEFAULT_APP_ID`. -/
def defaultAppId : Text := Text.of "claude-code"

/-- `DEFAULT_ENDPOINT`. -/
def defaultEndpoint : Text := Text.of "claude-code/stop-hook"

/-- What a run takes from the variables, the hook's input and the clock. -/
def environmentOf (e : Env) (sessionId : Option Text) (uuid ts : Text) (a : Attribution) :
    Environment where
  appId := (readEnv e appIdName).getD defaultAppId
  endpoint := (readEnv e endpointName).getD defaultEndpoint
  workload := a.workload
  queue := a.queue
  parentRequestId := a.parentRequestId
  pricingMode := a.pricingMode
  sessionId := sessionId
  uuid := uuid
  normalizeTs := fun _ => ts

/-- `build_fields`, with `attribution_from_env`; `none` where it raises. -/
def buildFieldsFromEnv (u : Unicode) (e : Env) (sessionId : Option Text) (uuid : Text)
    (now : DateTime) (delta : TokenTotals) (scan : ScanResult) : Option Fields :=
  match normalizeTs now scan.lastTimestamp, attributionFromEnv u e with
  | some ts, .ok a => some (buildFields (environmentOf e sessionId uuid ts a) delta scan)
  | _, _ => none

/-! ### What is wanted of them -/

/-- The fields are built, the constructor accepts them, and the writer reads the time of the
record: that of the transcript, where the transcript has one. -/
def Acceptable (scan : ScanResult) (fields : Option Fields) : Prop :=
  ∃ f r t, fields = some f ∧ buildRecord f = some r ∧ Store.timestampFor r = some (some t) ∧
    ∀ value ∈ scan.lastTimestamp, ∀ d, DateTime.fromIsoFormat value = some d →
      t.instant = d.instant

/-- The last time of the transcript is one that UTC has a date for; what is not blank for
`str.strip` is not blank for the contract; and the phase has no number that is too long. -/
structure Meterable (u : Unicode) (e : Env) (scan : ScanResult) : Prop where
  time : ∀ value ∈ scan.lastTimestamp, ∀ d, DateTime.fromIsoFormat (zulu value) = some d →
    DateTime.InCalendar d.instant
  messageId : ∀ k ∈ scan.lastMessageId, NonBlank k
  model : ∀ m ∈ scan.lastModel, NonBlank m
  appId : ∀ a ∈ readEnv e appIdName, NonBlank a
  endpoint : ∀ a ∈ readEnv e endpointName, NonBlank a
  phase : ∀ written ∈ readEnv e phaseName, ¬TooLongNumber u (folded u written)

variable {u : Unicode} {e : Env} {scan : ScanResult} {now : DateTime}

/-! ### Times -/

/-- What the writer reads, the producer reads. -/
theorem fromIsoFormat_zulu {value : Text} {d : DateTime}
    (h : DateTime.fromIsoFormat value = some d) : DateTime.fromIsoFormat (zulu value) = some d := by
  obtain ⟨c, hlast, hc⟩ := DateTime.endsInZone_of_fromIsoFormat h
  unfold zulu
  rw [hlast]
  by_cases hzulu : c = CodePoint.of 'Z'
  · rw [if_pos (.inl (congrArg some hzulu))]
    apply DateTime.fromIsoFormat_zulu
    rw [hzulu] at hlast
    rwa [List.dropLast_append_getLast? _ hlast]
  · have hdigit := hc.resolve_right hzulu
    have hlower : c ≠ CodePoint.of 'z' := by
      rintro rfl
      exact absurd hdigit (by decide)
    rwa [if_neg]
    rintro (hsome | hsome)
    · exact hzulu (Option.some.inj hsome)
    · exact hlower (Option.some.inj hsome)

/-- The time of a line is stripped. -/
theorem text_stripped {x : Option Json} {s : Text} (h : text x = some s) :
    s.strip = s ∧ s ≠ [] := by
  unfold text at h
  split at h
  · split_ifs at h with hne
    obtain rfl := Option.some.inj h
    exact ⟨Text.strip_strip _, hne⟩
  · cases h

/-- The last time of a scan is stripped. -/
theorem lastTimestamp_stripped (file : List Line) (r : Reading) :
    ∀ value ∈ (scanTranscript file r).lastTimestamp, value.strip = value ∧ value ≠ [] := by
  have hlines : ∀ ls : List Line, ∀ value ∈ (scanLines ls).lastTimestamp,
      value.strip = value ∧ value ≠ [] := by
    intro ls
    induction ls using List.reverseRecOn with
    | nil => rintro _ ⟨⟩
    | append_singleton ls l ih =>
      have hcount : ∀ entry message usage identity, ∀ value ∈
          ((scanLines ls).count entry message usage identity).lastTimestamp,
          value.strip = value ∧ value ≠ [] := by
        intro entry message usage identity value hvalue
        rcases (Option.orElse_eq_some _ _ _).1 hvalue with htext | ⟨-, hbefore⟩
        · exact text_stripped htext
        · exact ih value hbefore
      rw [scanLines, List.foldl_append]
      show ∀ value ∈ (scanLine (scanLines ls) l).lastTimestamp, _
      unfold scanLine
      split
      · exact ih
      · split
        · exact hcount _ _ _ _
        · split_ifs
          · exact ih
          · exact hcount _ _ _ _
  cases r with
  | openFails => rintro _ ⟨⟩
  | stopsAfter n => exact hlines _
  | whole => exact hlines _

theorem isoFormat_not_blank (t : DateTime) : t.isoFormat.strip ≠ [] := by
  intro hblank
  obtain ⟨hyear, -, -⟩ := DateTime.date_lt t.date
  obtain ⟨c, s, hpad, hdigit⟩ := DateTime.pad_cons (by decide) hyear
  have hmem : c ∈ t.isoFormat := by
    rw [DateTime.isoFormat, DateTime.dateText, hpad]
    exact List.mem_cons_self
  have hspace := Orchestrator.strip_eq_nil.1 hblank c hmem
  rw [Text.isSpace_of_isDigit hdigit] at hspace
  cases hspace

/-- **The time of a record** is read back, as that of the transcript, where it has one. -/
theorem instant_normalizeTs {ts : Text} (h : normalizeTs now scan.lastTimestamp = some ts)
    (hstripped : ∀ value ∈ scan.lastTimestamp, value.strip = value ∧ value ≠ []) :
    ∃ t : DateTime, ts = t.isoFormat ∧ ∀ value ∈ scan.lastTimestamp, ∀ d,
      DateTime.fromIsoFormat value = some d → t.instant = d.instant := by
  cases hlast : scan.lastTimestamp with
  | none =>
    rw [hlast] at h
    exact ⟨now, (Option.some.inj h).symm, by rintro _ ⟨⟩⟩
  | some value =>
    rw [hlast] at h hstripped
    obtain ⟨hstrip, hne⟩ := hstripped value rfl
    rw [normalizeTs, if_neg hne, hstrip] at h
    cases hparsed : DateTime.fromIsoFormat (zulu value) with
    | none =>
      rw [hparsed] at h
      refine ⟨now, (Option.some.inj h).symm, ?_⟩
      rintro _ ⟨⟩ d hd
      rw [fromIsoFormat_zulu hd] at hparsed
      cases hparsed
    | some parsed =>
      rw [hparsed] at h
      obtain ⟨t, ht, rfl⟩ := Option.map_eq_some_iff.1 h
      refine ⟨t, rfl, ?_⟩
      rintro _ ⟨⟩ d hd
      rw [fromIsoFormat_zulu hd] at hparsed
      obtain rfl := Option.some.inj hparsed
      have hcalendar : DateTime.InCalendar d.instant := by
        by_contra hnot
        rw [DateTime.toUtc, DateTime.ofInstant_eq_none hnot] at ht
        cases ht
      have hinstant := DateTime.ofInstant_eq_some hcalendar
      rw [DateTime.toUtc] at ht
      rw [ht] at hinstant
      exact Option.some.inj hinstant

/-- When the time of a record can be written. -/
theorem normalizeTs_isSome (hstripped : ∀ value ∈ scan.lastTimestamp,
    value.strip = value ∧ value ≠ []) : (∃ ts, normalizeTs now scan.lastTimestamp = some ts) ↔
      ∀ value ∈ scan.lastTimestamp, ∀ d, DateTime.fromIsoFormat (zulu value) = some d →
        DateTime.InCalendar d.instant := by
  cases hlast : scan.lastTimestamp with
  | none => exact iff_of_true ⟨_, rfl⟩ (by rintro _ ⟨⟩)
  | some value =>
    rw [hlast] at hstripped
    obtain ⟨hstrip, hne⟩ := hstripped value rfl
    rw [normalizeTs, if_neg hne, hstrip]
    cases hparsed : DateTime.fromIsoFormat (zulu value) with
    | none =>
      refine iff_of_true ⟨_, rfl⟩ ?_
      rintro _ ⟨⟩ d hd
      rw [hparsed] at hd
      cases hd
    | some parsed =>
      constructor
      · rintro ⟨ts, hts⟩ _ ⟨⟩ d hd
        obtain rfl := Option.some.inj (hparsed.symm.trans hd)
        by_contra hnot
        have hnone : parsed.toUtc = none := DateTime.ofInstant_eq_none hnot
        change parsed.toUtc.map DateTime.isoFormat = some ts at hts
        rw [hnone] at hts
        cases hts
      · intro hcalendar
        have hinstant := DateTime.ofInstant_eq_some (hcalendar value rfl parsed hparsed)
        obtain ⟨t, ht, -⟩ := Option.map_eq_some_iff.1 hinstant
        have hutc : parsed.toUtc = some t := ht
        refine ⟨t.isoFormat, ?_⟩
        show parsed.toUtc.map DateTime.isoFormat = _
        rw [hutc]
        rfl

/-! ### The phase -/

theorem normalizePhase_isOk (v : Text) :
    (∃ l, normalizePhase u v = .ok l) ↔ ¬TooLongNumber u (folded u v) := by
  by_cases hnil : Orchestrator.collapse v = []
  · refine iff_of_true ⟨none, Orchestrator.normalizePhase_nil hnil⟩ fun hlong => ?_
    obtain ⟨k, n, hname⟩ := hlong.names
    rw [folded, hnil] at hname
    exact hname.ne_nil rfl
  · rcases Orchestrator.normalizePhase_cases (u := u) hnil with ⟨_, _, -, -, -, hlong, -, -, hl⟩ |
      ⟨hlong, -, hl⟩ | ⟨-, hlong, -, hl⟩
    · exact iff_of_true ⟨_, hl⟩ hlong
    · refine iff_of_false ?_ fun hnot => hnot hlong
      rintro ⟨l, hok⟩
      cases hl.symm.trans hok
    · exact iff_of_true ⟨_, hl⟩ hlong

theorem attributionFromEnv_isOk :
    (∃ a, attributionFromEnv u e = .ok a) ↔
      ∀ written ∈ readEnv e phaseName, ¬TooLongNumber u (folded u written) := by
  have hphase : (∃ a, attributionFromEnv u e = .ok a) ↔
      ∃ l, writtenPhase u (readEnv e phaseName) = .ok l := by
    unfold attributionFromEnv
    cases writtenPhase u (readEnv e phaseName) with
    | error err => exact iff_of_false (by rintro ⟨_, ⟨⟩⟩) (by rintro ⟨_, ⟨⟩⟩)
    | ok l => exact iff_of_true ⟨_, rfl⟩ ⟨l, rfl⟩
  rw [hphase]
  cases readEnv e phaseName with
  | none => exact iff_of_true ⟨none, rfl⟩ (by rintro _ ⟨⟩)
  | some written =>
    rw [writtenPhase, normalizePhase_isOk]
    exact ⟨fun h => by rintro _ ⟨⟩; exact h, fun h => h written rfl⟩

/-! ### The constructor -/

theorem nonBlank_getD {x : Option Text} {default : Text} (h : NonBlank default) :
    NonBlank (x.getD default) ↔ ∀ s ∈ x, NonBlank s := by
  cases x with
  | none => exact iff_of_true h (by rintro _ ⟨⟩)
  | some s => exact ⟨fun hs => by rintro _ ⟨⟩; exact hs, fun hs => hs s rfl⟩

theorem nonBlank_of_mem {s : Text} {c : CodePoint} (hc : c ∈ s) (h : isBlankChar c = false) :
    NonBlank s :=
  List.any_eq_true.2 ⟨c, hc, by rw [h]; rfl⟩

/-- An id that is made up is not blank. -/
theorem nonBlank_requestId {env : Environment} {delta : TokenTotals} :
    NonBlank (buildFields env delta scan).requestId ↔ ∀ k ∈ scan.lastMessageId, NonBlank k := by
  have hcolon : isBlankChar (CodePoint.of ':') = false := by decide
  rw [buildFields]
  cases hlast : scan.lastMessageId with
  | some k => exact ⟨fun h => by rintro _ ⟨⟩; exact h, fun h => h k rfl⟩
  | none =>
    refine iff_of_true ?_ (by rintro _ ⟨⟩)
    cases env.sessionId with
    | none => exact nonBlank_of_mem (List.mem_append_left _ (by decide)) hcolon
    | some sessionId =>
      exact nonBlank_of_mem (List.mem_append_left _ (List.mem_append_right _
        (List.mem_singleton_self _))) hcolon

/-- When the constructor accepts what is built. -/
theorem buildRecord_environmentOf (sessionId : Option Text) (uuid ts : Text) (a : Attribution)
    (delta : TokenTotals) :
    (∃ r, buildRecord (buildFields (environmentOf e sessionId uuid ts a) delta scan) = some r) ↔
      (∀ k ∈ scan.lastMessageId, NonBlank k) ∧ (∀ s ∈ readEnv e appIdName, NonBlank s) ∧
        (∀ s ∈ readEnv e endpointName, NonBlank s) ∧ ∀ m ∈ scan.lastModel, NonBlank m := by
  set f := buildFields (environmentOf e sessionId uuid ts a) delta scan with hf
  have happ : NonBlank f.appId ↔ ∀ s ∈ readEnv e appIdName, NonBlank s :=
    nonBlank_getD (by decide)
  have hendpoint : NonBlank f.endpoint ↔ ∀ s ∈ readEnv e endpointName, NonBlank s :=
    nonBlank_getD (by decide)
  have hmodel : NonBlank f.model ↔ ∀ m ∈ scan.lastModel, NonBlank m := nonBlank_getD (by decide)
  have hstatus : NonBlank f.status := by
    show NonBlank (Text.of "ok")
    decide
  have hversion : 1 ≤ f.schemaVersion := le_refl 1
  have hrequest : NonBlank f.requestId ↔ _ := nonBlank_requestId
  rw [← hrequest, ← happ, ← hendpoint, ← hmodel]
  unfold buildRecord
  constructor
  · rintro ⟨r, hr⟩
    split_ifs at hr with hok
    exact ⟨hok.1, hok.2.1, hok.2.2.1, hok.2.2.2.1⟩
  · rintro ⟨hid, happ, hendpoint, hmodel⟩
    exact ⟨_, dif_pos ⟨hid, happ, hendpoint, hmodel, hstatus, hversion⟩⟩

/-- **What the hook builds is accepted** if and only if the last time of the transcript is one of
the calendar in UTC, nothing that is required is blank for the contract but not for `str.strip`,
and the phase has no number that is too long. -/
theorem acceptable_iff (u : Unicode) (e : Env) (sessionId : Option Text) (uuid : Text)
    (now : DateTime) (delta : TokenTotals) (file : List Line) (reading : Reading) :
    Acceptable (scanTranscript file reading)
        (buildFieldsFromEnv u e sessionId uuid now delta (scanTranscript file reading)) ↔
      Meterable u e (scanTranscript file reading) := by
  have hstripped := lastTimestamp_stripped file reading
  set scan := scanTranscript file reading with hscan
  have htime := @normalizeTs_isSome scan now hstripped
  have hphase := @attributionFromEnv_isOk u e
  constructor
  · rintro ⟨f, r, t, hf, hr, -, -⟩
    unfold buildFieldsFromEnv at hf
    split at hf
    · rename_i ts a hts ha
      obtain rfl := Option.some.inj hf
      obtain ⟨hid, happ, hendpoint, hmodel⟩ := (buildRecord_environmentOf _ _ _ _ _).1 ⟨r, hr⟩
      exact ⟨htime.1 ⟨ts, hts⟩, hid, hmodel, happ, hendpoint, hphase.1 ⟨a, ha⟩⟩
    · cases hf
  · rintro ⟨hcalendar, hid, hmodel, happ, hendpoint, hnumber⟩
    obtain ⟨ts, hts⟩ := htime.2 hcalendar
    obtain ⟨a, ha⟩ := hphase.2 hnumber
    obtain ⟨r, hr⟩ := (buildRecord_environmentOf sessionId uuid ts a delta).2
      ⟨hid, happ, hendpoint, hmodel⟩
    obtain ⟨t, rfl, hinstant⟩ := instant_normalizeTs hts hstripped
    refine ⟨_, r, t, ?_, hr, ?_, hinstant⟩
    · rw [buildFieldsFromEnv, hts, ha]
    · have hfields : r.ts = some t.isoFormat := by
        have htoFields := buildRecord_toFields hr
        rw [show r.ts = r.toFields.ts from rfl, htoFields]
        rfl
      rw [Store.timestampFor, hfields]
      dsimp only
      rw [if_neg (isoFormat_not_blank t), DateTime.fromIsoFormat_isoFormat]
      rfl

/-- A line with a timestamp, and with a model. -/
def stampedLine (timestamp model : Text) : Line :=
  .entry (.obj [(Text.of "timestamp", .str timestamp), (Text.of "message",
    .obj [(Text.of "model", .str model), (Text.of "usage",
      .obj [(Text.of "input_tokens", .int 3)])])])

/-- A byte order mark, which `str.strip` keeps. -/
def byteOrderMark : Text := [0xfeff]

/-- A time of the year 1 that is one of the year before in UTC, and a model that is blank for the
contract only: nothing is built of the one, and what is built of the other is refused. -/
theorem not_acceptable :
    (∀ e sessionId uuid now delta, ¬Acceptable
      (scanTranscript [stampedLine (Text.of "0001-01-01T00:00:00+05:00") (Text.of "m")] .whole)
      (buildFieldsFromEnv .ascii e sessionId uuid now delta
        (scanTranscript [stampedLine (Text.of "0001-01-01T00:00:00+05:00") (Text.of "m")]
          .whole))) ∧
    ∀ e sessionId uuid now delta, ¬Acceptable
      (scanTranscript [stampedLine (Text.of "2026-01-01T00:00:00Z") byteOrderMark] .whole)
      (buildFieldsFromEnv .ascii e sessionId uuid now delta
        (scanTranscript [stampedLine (Text.of "2026-01-01T00:00:00Z") byteOrderMark] .whole)) := by
  constructor
  · intro e sessionId uuid now delta h
    obtain ⟨f, r, t, hf, -, -, -⟩ := h
    have hlast : (scanTranscript
        [stampedLine (Text.of "0001-01-01T00:00:00+05:00") (Text.of "m")] .whole).lastTimestamp =
          some (Text.of "0001-01-01T00:00:00+05:00") := by
      decide +kernel
    have hutc : (DateTime.fromIsoFormat (zulu (Text.of "0001-01-01T00:00:00+05:00").strip)).map
        DateTime.toUtc = some none := by
      decide +kernel
    have hnone : normalizeTs now (some (Text.of "0001-01-01T00:00:00+05:00")) = none := by
      obtain ⟨parsed, hparsed, hnone⟩ := Option.map_eq_some_iff.1 hutc
      rw [normalizeTs, if_neg (by decide), hparsed]
      show parsed.toUtc.map _ = none
      rw [hnone]
      rfl
    rw [buildFieldsFromEnv, hlast, hnone] at hf
    cases hf
  · intro e sessionId uuid now delta h
    obtain ⟨f, r, t, hf, hr, -, -⟩ := h
    unfold buildFieldsFromEnv at hf
    split at hf
    · obtain rfl := Option.some.inj hf
      have hlast : (scanTranscript
          [stampedLine (Text.of "2026-01-01T00:00:00Z") byteOrderMark] .whole).lastModel =
            some byteOrderMark := by
        decide +kernel
      have hmodel := r.model_nonBlank
      rw [show r.model = r.toFields.model from rfl, buildRecord_toFields hr, buildFields,
        hlast] at hmodel
      have hblank : ¬NonBlank byteOrderMark := by decide
      exact hblank hmodel
    · cases hf

end Tokenweir.ClaudeCode
