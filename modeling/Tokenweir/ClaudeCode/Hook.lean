import Mathlib.Tactic
import Tokenweir.ClaudeCode.Transcript
import Tokenweir.Emitter.Model

/-!
# The `Stop` hook

The model of `tokenweir.claude_code.run`, from the scan to the baseline, composed with the
buffered client of `Tokenweir.Emitter`: each run of the hook has a client of its own, whose
worker goes on delivering while `close` waits, after it timed out, and after `run` returned.

* `payload`, `readBaseline`, the state file, which `os.replace` changes at once;
* `Turn`, `turn`, what a run does with its scan and its baseline;
* `Delivery`, `Run`, `World`, `Action`, and `step`: any number of runs, the steps of their
  clients, the growing transcript, and a kill at any moment;
* `hook`, the machine; `Move`, `Step` and `step_cases`, what a step can do.
-/

namespace Tokenweir.ClaudeCode

/-! ### The state file -/

/-- `read_baseline`, of the file's content; `none` when there is no file. -/
def readBaseline : Option Json → TokenTotals
  | none => 0
  | some data =>
    if data.isMapping then
      match data.get (Text.of "cumulative") with
      | none => 0
      | some cumulative => fromMapping cumulative
    else 0

/-- `TokenTotals.as_dict`. -/
def asDict (t : TokenTotals) : Json :=
  .obj [(Text.of CountField.inputTokens.name, .int (t .inputTokens)),
    (Text.of CountField.outputTokens.name, .int (t .outputTokens)),
    (Text.of CountField.cacheCreationInputTokens.name, .int (t .cacheCreationInputTokens)),
    (Text.of CountField.cacheReadInputTokens.name, .int (t .cacheReadInputTokens))]

/-- What `write_baseline` writes. -/
def payload (transcriptPath : Text) (updatedAt : Text) (t : TokenTotals) : Json :=
  .obj [(Text.of "schema", .int 1), (Text.of "transcript_path", .str transcriptPath),
    (Text.of "cumulative", asDict t), (Text.of "updated_at", .str updatedAt)]

theorem fromMapping_asDict (t : TokenTotals) : fromMapping (asDict t) = t := by
  funext f
  cases f <;> rfl

/-- What is written is read back. -/
theorem readBaseline_payload (transcriptPath updatedAt : Text) (t : TokenTotals) :
    readBaseline (some (payload transcriptPath updatedAt t)) = t :=
  fromMapping_asDict t

/-! ### One turn -/

/-- What a run does after it has read its baseline. -/
inductive Turn
  /-- Unreadable: no record, the baseline is left alone. -/
  | leave
  /-- Regressed: no record, the baseline becomes the totals. -/
  | reanchor
  | nothingNew
  | report (delta : TokenTotals)

/-- The branches of `run`. -/
def turn (scan : ScanResult) (baseline : TokenTotals) : Turn :=
  match turnDelta scan.totals baseline with
  | none => if scan.readable then .reanchor else .leave
  | some delta => if delta = 0 then .nothingNew else .report delta

/-- What `build_fields` takes from the environment, the hook's input and the clock. -/
structure Environment where
  appId : Text
  endpoint : Text
  workload : Option Text
  queue : Option Text
  parentRequestId : Option Text
  pricingMode : PricingMode
  sessionId : Option Text
  /-- `uuid4().hex`. -/
  uuid : Text
  /-- What `_normalize_ts` makes of the transcript's timestamp. -/
  normalizeTs : Option Text → Text

/-- `build_fields`. -/
def buildFields (env : Environment) (delta : TokenTotals) (scan : ScanResult) : Fields where
  requestId :=
    match scan.lastMessageId, env.sessionId with
    | some identity, _ => identity
    | none, some sessionId => sessionId ++ Text.of ":" ++ env.uuid
    | none, none => Text.of "claude-code:" ++ env.uuid
  appId := env.appId
  endpoint := env.endpoint
  model := scan.lastModel.getD (Text.of "unknown")
  status := Text.of "ok"
  ts := some (env.normalizeTs scan.lastTimestamp)
  counts := delta
  workload := env.workload
  queue := env.queue
  parentRequestId := env.parentRequestId
  pricingMode := some env.pricingMode

/-- A record of a turn carries the turn's counts. -/
theorem buildRecord_counts {env : Environment} {delta : TokenTotals} {scan : ScanResult}
    {r : UsageRecord} (h : buildRecord (buildFields env delta scan) = some r) :
    r.counts = delta := by
  rw [buildRecord_toFields h]
  rfl

/-! ### Runs -/

/-- The emission of a run: its client, and what its `SinkChoice` says. -/
structure Delivery where
  scan : ScanResult
  cfg : Emitter.Config
  client : Emitter.State UsageRecord
  /-- What `emit_usage` returned. -/
  record : Option UsageRecord
  degraded : Bool
  /-- The named drop counter before the emission. -/
  droppedBefore : Option ℕ
  /-- The drops counted since. -/
  drops : ℕ
  /-- The records of the sink call under way. -/
  inCall : List UsageRecord

/-- `_dropped_count`, now. -/
def Delivery.droppedCount (d : Delivery) : Option ℕ := d.droppedBefore.map (· + d.drops)

/-- `kept`: accepted, and not reported lost. -/
def Delivery.kept (d : Delivery) (delivered : ℕ) : Bool :=
  d.record.isSome && 1 ≤ delivered &&
    (match d.droppedBefore, d.droppedCount with
      | some before, some after => !(before < after)
      | _, _ => true) &&
    !d.degraded

/-- The place of a run. -/
inductive Run
  | started (env : Environment)
  | scanned (env : Environment) (scan : ScanResult)
  /-- Something is to be emitted; the sink is not chosen yet. -/
  | reporting (env : Environment) (scan : ScanResult) (baseline delta : TokenTotals)
  /-- The client is built; `emit_usage` is next. -/
  | connected (env : Environment) (delta : TokenTotals) (d : Delivery)
  /-- In `emitter.close()`. -/
  | closing (d : Delivery)
  /-- `emitter.stats()` was read. -/
  | counted (d : Delivery) (delivered : ℕ)
  /-- In `write_baseline`, before `os.replace`. -/
  | writing (totals : TokenTotals) (d : Option Delivery)
  | returned (d : Option Delivery)
  | killed

/-- A run that has neither returned nor been killed. -/
def Run.live : Run → Bool
  | .returned _ => false
  | .killed => false
  | _ => true

def Run.delivery : Run → Option Delivery
  | .connected _ _ d => some d
  | .closing d => some d
  | .counted d _ => some d
  | .writing _ d => d
  | .returned d => d
  | _ => none

/-- The run with another state of its client. -/
def Run.setDelivery (p : Run) (d : Delivery) : Run :=
  match p with
  | .connected env delta _ => .connected env delta d
  | .closing _ => .closing d
  | .counted _ delivered => .counted d delivered
  | .writing totals _ => .writing totals (some d)
  | .returned _ => .returned (some d)
  | p => p

/-- The transcript, the state file and the runs so far, each known by its place. -/
structure World where
  file : List Line := []
  baseline : Option Json := none
  runs : List Run := []

/-- How the sink's `emit` ends. -/
inductive SinkOutcome
  | stored
  | raised
  /-- A `BaseException`. -/
  | fatal
  /-- It returns, having counted a drop. -/
  | dropped
  /-- It returns, of a stand-in for a transport that could not be built. -/
  | discarded
  deriving DecidableEq, Repr

/-- What is seen from outside. -/
inductive Event
  /-- A pass over the whole file. -/
  | scanned (i : ℕ) (file : List Line)
  | stored (i : ℕ) (rs : List UsageRecord)
  /-- The state file was replaced. -/
  | wrote (i : ℕ)

/-- The atomic steps; `i` is a run. -/
inductive Action
  | grow (ls : List Line)
  | start (env : Environment)
  | scan (i : ℕ) (r : Reading)
  | readBaseline (i : ℕ)
  /-- The sink is chosen and the client built; a named drop counter's value. -/
  | connect (i : ℕ) (cfg : Emitter.Config) (degraded : Bool) (droppedBefore : Option ℕ)
  | emit (i : ℕ)
  /-- A step of the run's client: of its worker, or of its `close`. -/
  | client (i : ℕ) (a : Emitter.Action UsageRecord)
  | sinkReturns (i : ℕ) (o : SinkOutcome)
  | readStats (i : ℕ)
  | decide (i : ℕ)
  /-- `write_baseline` replaces the file, or fails. -/
  | write (i : ℕ) (transcriptPath updatedAt : Text) (ok : Bool)
  | kill (i : ℕ)

/-- The steps of `close`, by the thread of the run. -/
def isClose : Emitter.Action UsageRecord → Bool
  | .closeBegin onWorker => !onWorker
  | .joined | .joinTimedOut | .abandon => true
  | _ => false

/-- The steps of the worker, but for the end of a sink call. -/
def isWorker : Emitter.Action UsageRecord → Bool
  | .acquire _ _ | .wake _ _ | .handOver | .count | .settle | .finish | .closeSink
  | .sinkCloseReturns _ => true
  | _ => false

/-- Whether a step of the client can be taken at this place of the run. -/
def Run.allows (p : Run) (a : Emitter.Action UsageRecord) : Bool :=
  match p with
  | .closing _ => isClose a || isWorker a
  | _ => isWorker a

/-- The records a step hands to the sink; without one, those of the call before. -/
def handedBy (before : List UsageRecord) : List (Emitter.Event UsageRecord) → List UsageRecord
  | [] => before
  | .handed rs :: _ => rs
  | _ :: es => handedBy before es

/-- A step of the client. -/
def Delivery.step (d : Delivery) (a : Emitter.Action UsageRecord) : Option Delivery :=
  match Emitter.step d.cfg d.client a with
  | none => none
  | some (client, es) => some { d with client := client, inCall := handedBy d.inCall es }

/-- The end of a sink call, with the records it stored. -/
def Delivery.sinkReturns (d : Delivery) (o : SinkOutcome) : Option (Delivery × List UsageRecord) :=
  match o, d.degraded with
  | .stored, false => (d.step (.sinkReturns .returned)).map (·, d.inCall)
  | .raised, false => (d.step (.sinkReturns .raised)).map (·, [])
  | .fatal, false => (d.step (.sinkReturns .fatal)).map (·, [])
  | .dropped, false =>
    if d.droppedBefore.isSome then
      (d.step (.sinkReturns .returned)).map fun d => ({ d with drops := d.drops + 1 }, [])
    else none
  | .discarded, true => (d.step (.sinkReturns .returned)).map (·, [])
  | _, _ => none

/-- `emit_usage`: what is built is offered to the client. -/
def Delivery.emit (d : Delivery) (env : Environment) (delta : TokenTotals) : Delivery :=
  match buildRecord (buildFields env delta d.scan) with
  | none => d
  | some r => { d with record := some r, client := (Emitter.offer d.cfg d.client (.record r)).1 }

/-- The place of a run after `read_baseline`. -/
def afterRead (env : Environment) (scan : ScanResult) (baseline : TokenTotals) : Run :=
  match turn scan baseline with
  | .leave => .returned none
  | .reanchor => .writing scan.totals none
  | .nothingNew => .returned none
  | .report delta => .reporting env scan baseline delta

/-- The world with another place for one run. -/
def World.set (w : World) (i : ℕ) (p : Run) : World := { w with runs := w.runs.set i p }

/-- One atomic step. -/
def step (w : World) : Action → Option (World × List Event)
  | .grow ls => some ({ w with file := w.file ++ ls }, [])
  | .start env => some ({ w with runs := w.runs ++ [.started env] }, [])
  | .scan i r =>
    match w.runs[i]? with
    | some (.started env) =>
      some (w.set i (.scanned env (scanTranscript w.file r)),
        if r = .whole then [.scanned i w.file] else [])
    | _ => none
  | .readBaseline i =>
    match w.runs[i]? with
    | some (.scanned env scan) =>
      some (w.set i (afterRead env scan (readBaseline w.baseline)), [])
    | _ => none
  | .connect i cfg degraded droppedBefore =>
    match w.runs[i]? with
    | some (.reporting env scan _ delta) =>
      some (w.set i (.connected env delta
        ⟨scan, cfg, .init UsageRecord, none, degraded, droppedBefore, 0, []⟩), [])
    | _ => none
  | .emit i =>
    match w.runs[i]? with
    | some (.connected env delta d) => some (w.set i (.closing (d.emit env delta)), [])
    | _ => none
  | .client i a =>
    match w.runs[i]? with
    | some p =>
      match p.delivery with
      | some d =>
        if p.allows a then (d.step a).map fun d => (w.set i (p.setDelivery d), []) else none
      | none => none
    | none => none
  | .sinkReturns i o =>
    match w.runs[i]? with
    | some p =>
      match p.delivery with
      | some d =>
        (d.sinkReturns o).map fun x => (w.set i (p.setDelivery x.1), [.stored i x.2])
      | none => none
    | none => none
  | .readStats i =>
    match w.runs[i]? with
    | some (.closing d) =>
      if d.client.closer = .returned ∨ d.client.closer = .abandoned then
        some (w.set i (.counted d d.client.stats.delivered), [])
      else none
    | _ => none
  | .decide i =>
    match w.runs[i]? with
    | some (.counted d delivered) =>
      some (w.set i (if d.kept delivered then .writing d.scan.totals (some d)
        else .returned (some d)), [])
    | _ => none
  | .write i transcriptPath updatedAt ok =>
    match w.runs[i]? with
    | some (.writing totals d) =>
      if ok then
        some ({ w with
            baseline := some (payload transcriptPath updatedAt totals)
            runs := w.runs.set i (.returned d) }, [.wrote i])
      else some (w.set i (.returned d), [])
    | _ => none
  | .kill i =>
    match w.runs[i]? with
    | some _ => some (w.set i .killed, [])
    | none => none

/-- The hook, over any number of runs. -/
def hook : Machine World Action Event := ⟨step⟩

/-! ### What a step can do -/

/-- One run moves, the state file and the transcript as they are. -/
inductive Move (w : World) (i : ℕ) : Action → Run → Run → List Event → Prop
  | scan (env : Environment) (r : Reading) :
      Move w i (.scan i r) (.started env) (.scanned env (scanTranscript w.file r))
        (if r = .whole then [.scanned i w.file] else [])
  | readBaseline (env : Environment) (scan : ScanResult) :
      Move w i (.readBaseline i) (.scanned env scan)
        (afterRead env scan (readBaseline w.baseline)) []
  | connect (env : Environment) (scan : ScanResult) (baseline delta : TokenTotals)
      (cfg : Emitter.Config) (degraded : Bool) (droppedBefore : Option ℕ) :
      Move w i (.connect i cfg degraded droppedBefore) (.reporting env scan baseline delta)
        (.connected env delta
          ⟨scan, cfg, .init UsageRecord, none, degraded, droppedBefore, 0, []⟩) []
  | emit (env : Environment) (delta : TokenTotals) (d : Delivery) :
      Move w i (.emit i) (.connected env delta d) (.closing (d.emit env delta)) []
  | client (p : Run) (d d' : Delivery) (a : Emitter.Action UsageRecord)
      (hd : p.delivery = some d) (ha : p.allows a = true) (hstep : d.step a = some d') :
      Move w i (.client i a) p (p.setDelivery d') []
  | sinkReturns (p : Run) (d d' : Delivery) (o : SinkOutcome) (rs : List UsageRecord)
      (hd : p.delivery = some d) (hstep : d.sinkReturns o = some (d', rs)) :
      Move w i (.sinkReturns i o) p (p.setDelivery d') [.stored i rs]
  | readStats (d : Delivery)
      (hcl : d.client.closer = .returned ∨ d.client.closer = .abandoned) :
      Move w i (.readStats i) (.closing d) (.counted d d.client.stats.delivered) []
  | kept (d : Delivery) (delivered : ℕ) (hk : d.kept delivered = true) :
      Move w i (.decide i) (.counted d delivered) (.writing d.scan.totals (some d)) []
  | notKept (d : Delivery) (delivered : ℕ) (hk : d.kept delivered = false) :
      Move w i (.decide i) (.counted d delivered) (.returned (some d)) []
  | writeFails (totals : TokenTotals) (d : Option Delivery) (transcriptPath updatedAt : Text) :
      Move w i (.write i transcriptPath updatedAt false) (.writing totals d) (.returned d) []
  | kill (p : Run) : Move w i (.kill i) p .killed []

/-- A step of the world. -/
inductive Step (w : World) : Action → World → List Event → Prop
  | grow (ls : List Line) : Step w (.grow ls) { w with file := w.file ++ ls } []
  | start (env : Environment) : Step w (.start env) { w with runs := w.runs ++ [.started env] } []
  | move (i : ℕ) (a : Action) (p p' : Run) (e : List Event) (hp : w.runs[i]? = some p)
      (hmove : Move w i a p p' e) : Step w a (w.set i p') e
  | wrote (i : ℕ) (totals : TokenTotals) (d : Option Delivery) (transcriptPath updatedAt : Text)
      (hp : w.runs[i]? = some (.writing totals d)) :
      Step w (.write i transcriptPath updatedAt true)
        { w with
          baseline := some (payload transcriptPath updatedAt totals)
          runs := w.runs.set i (.returned d) } [.wrote i]

/-- **What a step can do**, once for every invariant. -/
theorem step_cases {w w' : World} {a : Action} {e : List Event} (h : step w a = some (w', e)) :
    Step w a w' e := by
  cases a with
  | grow ls => cases h; exact .grow ls
  | start env => cases h; exact .start env
  | scan i r =>
    simp only [step] at h
    split at h
    · rename_i env hp
      cases h
      exact .move i _ _ _ _ hp (.scan env r)
    · cases h
  | readBaseline i =>
    simp only [step] at h
    split at h
    · rename_i env scan hp
      cases h
      exact .move i _ _ _ _ hp (.readBaseline env scan)
    · cases h
  | connect i cfg degraded droppedBefore =>
    simp only [step] at h
    split at h
    · rename_i env scan b delta hp
      cases h
      exact .move i _ _ _ _ hp (.connect env scan b delta cfg degraded droppedBefore)
    · cases h
  | emit i =>
    simp only [step] at h
    split at h
    · rename_i env delta d hp
      cases h
      exact .move i _ _ _ _ hp (.emit env delta d)
    · cases h
  | client i a =>
    simp only [step] at h
    split at h
    · rename_i p hp
      split at h
      · rename_i d hd
        split_ifs at h with ha
        obtain ⟨d', hd', he⟩ := Option.map_eq_some_iff.1 h
        obtain ⟨rfl, rfl⟩ := Prod.mk.inj he
        exact .move i _ _ _ _ hp (.client p d d' a hd ha hd')
      · cases h
    · cases h
  | sinkReturns i o =>
    simp only [step] at h
    split at h
    · rename_i p hp
      split at h
      · rename_i d hd
        obtain ⟨⟨d', rs⟩, hd', he⟩ := Option.map_eq_some_iff.1 h
        obtain ⟨rfl, rfl⟩ := Prod.mk.inj he
        exact .move i _ _ _ _ hp (.sinkReturns p d d' o rs hd hd')
      · cases h
    · cases h
  | readStats i =>
    simp only [step] at h
    split at h
    · rename_i d hp
      split_ifs at h with hcl
      cases h
      exact .move i _ _ _ _ hp (.readStats d hcl)
    · cases h
  | decide i =>
    simp only [step] at h
    split at h
    · rename_i d k hp
      cases h
      cases hk : d.kept k with
      | true => exact .move i _ _ _ _ hp (.kept d k hk)
      | false => exact .move i _ _ _ _ hp (.notKept d k hk)
    · cases h
  | write i transcriptPath updatedAt ok =>
    simp only [step] at h
    split at h
    · rename_i t d hp
      cases ok with
      | true => cases h; exact .wrote i t d transcriptPath updatedAt hp
      | false => cases h; exact .move i _ _ _ _ hp (.writeFails t d transcriptPath updatedAt)
    · cases h
  | kill i =>
    simp only [step] at h
    split at h
    · rename_i p hp
      cases h
      exact .move i _ _ _ _ hp (.kill p)
    · cases h

end Tokenweir.ClaudeCode
