import Mathlib.Tactic
import Tokenweir.Amqp.Ownership
import Tokenweir.Contract.Acceptance
import Tokenweir.Emitter.Conservation

/-!
# The broker pipeline

`BufferedEmitter` over the `AMQPSink` that `from_url` builds: what becomes of each record that the
worker hands to the sink, and what the broker is asked to do.

* `Publication`, `Pipeline`, `Action`; `step`, `pipeline`, with any interleaving of producers, the
  worker and `close`; `Step` and `step_cases`, what a step can do;
* `Fate`; `emit_outcome`, what one call of `emit` publishes and counts;
* `Account`; `Account.step`, every step keeps the account;
* `publishes_in_order`; `run_oneRecord`, and `published_of_kept` for a client of one record.
-/

namespace Tokenweir.Broker

open Amqp (Sink Emit)
open Emitter (Config State Event acceptedOf batchesOf handedOf)
open Utf8 (encodeUtf8)

/-! ### The parts -/

/-- A call of `basic_publish`: the connection of its channel, the body, and whether it returned. -/
structure Publication where
  connection : ℕ
  body : List ℕ
  returned : Bool
  deriving DecidableEq

structure Pipeline where
  emitter : State UsageRecord := .init UsageRecord
  sink : Sink
  /-- The records of the `emit` under way. -/
  call : Option (List UsageRecord) := none
  /-- What the sink has done to the outside. -/
  log : List Amqp.Event
  sent : List Publication := []

/-- `BufferedEmitter(AMQPSink.from_url(...))`. -/
def Pipeline.start (interval : ℚ) : Pipeline where
  sink := Amqp.fromUrl interval
  log := [.opened 0]

/-- The client's configuration: an `AMQPSink` takes one record at a time and can be closed. -/
def perRecord (cfg : Config) : Config := { cfg with batchSink := false, closable := true }

/-! ### The steps -/

/-- The atomic steps. -/
inductive Action
  /-- A step of a producer, of the worker outside the sink, or of `close`. -/
  | client (a : Emitter.Action UsageRecord)
  /-- The sink's `emit`; what `message_for` does is up to the record. -/
  | emit (i : Emit)
  /-- The sink's `close`. -/
  | close (closeRaises : Bool)

/-- The steps of the client that end a call of the sink. -/
def endsCall : Emitter.Action UsageRecord → Bool
  | .sinkReturns _ | .sinkCloseReturns _ => true
  | _ => false

/-- The call a step of the client begins; without one, the call before. -/
def called (before : Option (List UsageRecord)) :
    List (Event UsageRecord) → Option (List UsageRecord)
  | [] => before
  | .handed rs :: _ => some rs
  | _ :: es => called before es

/-- The calls of `basic_publish` with a body. -/
def publications (body : List ℕ) (es : List Amqp.Event) : List Publication :=
  es.filterMap fun
    | .published c => some ⟨c, body, true⟩
    | .publishFailed c => some ⟨c, body, false⟩
    | _ => none

/-- `emit`, of a record. -/
def Pipeline.emit (s : Pipeline) (r : UsageRecord) (i : Emit) : Pipeline :=
  let p := Amqp.emit s.sink { i with mapped := (messageFor r).isSome }
  { s with
    sink := p.1
    call := none
    log := s.log ++ p.2
    sent := s.sent ++ publications ((messageFor r).getD []) p.2 }

/-- `close`. -/
def Pipeline.close (s : Pipeline) (closeRaises : Bool) : Pipeline :=
  let p := Amqp.close s.sink closeRaises
  { s with sink := p.1, log := s.log ++ p.2 }

/-- A step of the client. -/
def Pipeline.advance (cfg : Config) (s : Pipeline) (a : Emitter.Action UsageRecord) :
    Option (Pipeline × List (Event UsageRecord)) :=
  (Emitter.step (perRecord cfg) s.emitter a).map fun p =>
    ({ s with emitter := p.1, call := called s.call p.2 }, p.2)

/-- One atomic step. The sink never lets an `Exception` out. -/
def step (cfg : Config) (s : Pipeline) :
    Action → Option (Pipeline × List (Event UsageRecord))
  | .client a => if endsCall a then none else s.advance cfg a
  | .emit i =>
    match s.call with
    | some [r] => (s.emit r i).advance cfg (.sinkReturns .returned)
    | _ => none
  | .close closeRaises => (s.close closeRaises).advance cfg (.sinkCloseReturns .returned)

/-- The pipeline as a machine. -/
def pipeline (cfg : Config) : Machine Pipeline Action (Event UsageRecord) := ⟨step cfg⟩

/-! ### What a step can do -/

/-- A step of the pipeline. -/
inductive Step (cfg : Config) (s : Pipeline) : Action → Pipeline → List (Event UsageRecord) → Prop
  | client (a : Emitter.Action UsageRecord) (t : State UsageRecord) (es : List (Event UsageRecord))
      (ha : endsCall a = false) (hstep : Emitter.step (perRecord cfg) s.emitter a = some (t, es)) :
      Step cfg s (.client a) { s with emitter := t, call := called s.call es } es
  | emit (r : UsageRecord) (i : Emit) (t : State UsageRecord) (es : List (Event UsageRecord))
      (hc : s.call = some [r])
      (hstep : Emitter.step (perRecord cfg) s.emitter (.sinkReturns .returned) = some (t, es)) :
      Step cfg s (.emit i) { s.emit r i with emitter := t, call := called none es } es
  | close (closeRaises : Bool) (t : State UsageRecord) (es : List (Event UsageRecord))
      (hstep : Emitter.step (perRecord cfg) s.emitter (.sinkCloseReturns .returned) =
        some (t, es)) :
      Step cfg s (.close closeRaises)
        { s.close closeRaises with emitter := t, call := called s.call es } es

/-- **What a step can do**, once for every invariant. -/
theorem step_cases {cfg : Config} {s t : Pipeline} {a : Action} {e : List (Event UsageRecord)}
    (h : step cfg s a = some (t, e)) : Step cfg s a t e := by
  cases a with
  | client a =>
    simp only [step] at h
    split_ifs at h with ha
    obtain ⟨⟨u, es⟩, hstep, he⟩ := Option.map_eq_some_iff.1 h
    obtain ⟨rfl, rfl⟩ := Prod.mk.inj he
    exact .client a u es (by simpa using ha) hstep
  | emit i =>
    simp only [step] at h
    split at h
    · rename_i r hc
      obtain ⟨⟨u, es⟩, hstep, he⟩ := Option.map_eq_some_iff.1 h
      obtain ⟨rfl, rfl⟩ := Prod.mk.inj he
      exact .emit r i u es hc hstep
    · cases h
  | close closeRaises =>
    obtain ⟨⟨u, es⟩, hstep, he⟩ := Option.map_eq_some_iff.1 h
    obtain ⟨rfl, rfl⟩ := Prod.mk.inj he
    exact .close closeRaises u es hstep

/-! ### One call of `emit` -/

/-- What became of a record that was handed to the sink. -/
structure Fate where
  record : UsageRecord
  /-- The call of `basic_publish`, if it came to one. -/
  publication : Option Publication

/-- Published without an error. -/
def Fate.published (f : Fate) : Bool := f.publication.any (·.returned)

/-- What is published is the message of the record. -/
def Fate.Sound (f : Fate) : Prop := ∀ p ∈ f.publication, messageFor f.record = some p.body

/-- Events that are no publish. -/
theorem publications_eq_nil {body : List ℕ} {es : List Amqp.Event}
    (h : ∀ e ∈ es, ∀ c, e ≠ .published c ∧ e ≠ .publishFailed c) : publications body es = [] := by
  refine List.filterMap_eq_nil_iff.2 fun e he => ?_
  cases e with
  | published c => exact absurd rfl (h _ he c).1
  | publishFailed c => exact absurd rfl (h _ he c).2
  | _ => rfl

theorem publications_append (body : List ℕ) (es fs : List Amqp.Event) :
    publications body (es ++ fs) = publications body es ++ publications body fs :=
  List.filterMap_append

theorem publications_release (body : List ℕ) (s : Sink) (b : Bool) :
    publications body (Amqp.release s b) = [] := by
  refine publications_eq_nil fun e he c => ?_
  have hquiet := Amqp.release_quiet s b e he
  constructor <;>
    · rintro rfl
      cases hquiet

/-- What an `emit` came to: at most one publish, and one count. -/
structure Outcome (body : List ℕ) (s t : Sink) (es : List Amqp.Event) (o : Option Publication) :
    Prop where
  sent : publications body es = o.toList
  body : ∀ p ∈ o, p.body = body
  published : t.published = s.published + (o.any (·.returned)).toNat
  dropped : t.dropped = s.dropped + (!o.any (·.returned)).toNat
  closed : t.closed = s.closed

/-- A publish on a channel. -/
theorem publish_outcome (body : List ℕ) {s : Sink} (hr : s.canReconnect = true) (i : Emit) (c : ℕ) :
    Outcome body s (Amqp.publish s i c).1 (Amqp.publish s i c).2 (some ⟨c, body, i.publishes⟩) := by
  cases hp : i.publishes with
  | true =>
    rw [Amqp.publish_of_succeeds hp]
    exact ⟨rfl, by simp, rfl, rfl, rfl⟩
  | false =>
    rw [Amqp.publish_of_fails hr hp]
    refine ⟨?_, by simp, rfl, rfl, rfl⟩
    rw [publications_append]
    show (_ :: publications body (Amqp.release s i.closeRaises)) ++ [] = _
    rw [publications_release]
    rfl

/-- **One `emit`** publishes its body at most once, and counts the record as published if the
publish returned and as dropped otherwise. A record without a message is not published. -/
theorem emit_outcome (body : List ℕ) {s : Sink} (hr : s.canReconnect = true) (i : Emit) :
    ∃ o, Outcome body s (Amqp.emit s i).1 (Amqp.emit s i).2 o ∧ (i.mapped = false → o = none) := by
  have hcall := Amqp.step_cases s (.emit i)
  have hstep : Amqp.step s (.emit i) = Amqp.emit s i := rfl
  rw [hstep] at hcall
  generalize (Amqp.emit s i).1 = t, (Amqp.emit s i).2 = es at hcall ⊢
  cases hcall with
  | unmapped | refusedClosed | noChannel | backoff | capped =>
    exact ⟨none, ⟨rfl, by simp, rfl, rfl, rfl⟩, fun _ => rfl⟩
  | held _ c hm hc hch =>
    exact ⟨_, publish_outcome body hr i c, fun hno => absurd (hm.symm.trans hno) (by decide)⟩
  | dialFails _ s' hm hc hch hr' hb hd ho =>
    obtain ⟨ends, dials, rfl⟩ := Amqp.mayDial_frame hd
    refine ⟨none, ?_, fun _ => rfl⟩
    cases hdial : i.dial with
    | opened => exact absurd hdial ho
    | refused | noChannel => exact ⟨rfl, by simp, rfl, rfl, rfl⟩
  | redialed _ s' hm hc hch hr' hb hd ho =>
    obtain ⟨ends, dials, rfl⟩ := Amqp.mayDial_frame hd
    have hpublish := publish_outcome body (s := (s.inWindow ends dials).connected) hr i s.opened
    refine ⟨some ⟨s.opened, body, i.publishes⟩, ⟨?_, hpublish.body, hpublish.published,
      hpublish.dropped, hpublish.closed⟩, fun hno => absurd (hm.symm.trans hno) (by decide)⟩
    rw [publications_append]
    exact hpublish.sent

/-! ### The account -/

/-- **The account of a run**: the fates of the records that were handed over, but for the one in the
sink, and the calls of the sink behind them. -/
structure Account (interval : ℚ) (evs : List (Event UsageRecord)) (s : Pipeline) (fs : List Fate)
    (is : List Amqp.Input) (es : List Amqp.Event) : Prop where
  batches : batchesOf evs = fs.map (fun f => [f.record]) ++ s.call.toList
  inCall : s.call.isSome = s.emitter.worker.inCall
  size : ∀ n todo, s.emitter.worker = .inSink n todo → s.call.toList.flatten.length = n
  sent : s.sent = fs.flatMap (·.publication.toList)
  sound : ∀ f ∈ fs, f.Sound
  published : s.sink.published = fs.countP Fate.published
  dropped : s.sink.dropped = fs.countP (!·.published)
  closed : s.sink.closed = s.emitter.worker.isStopped
  run : Amqp.sink.run (Amqp.fromUrl interval) is = some (s.sink, es)
  log : s.log = .opened 0 :: es

theorem account_start (interval : ℚ) : Account interval [] (.start interval) [] [] [] :=
  ⟨rfl, rfl, fun _ _ hw => (by cases hw), rfl, fun f hf => (by cases hf), rfl, rfl, rfl, rfl, rfl⟩

/-- A step of the client that hands nothing over begins no call. -/
theorem called_of_quiet {es : List (Event UsageRecord)} (h : batchesOf es = [])
    (before : Option (List UsageRecord)) : called before es = before := by
  induction es with
  | nil => rfl
  | cons e es ih =>
    rw [Emitter.batchesOf_cons, List.append_eq_nil_iff] at h
    cases e with
    | handed rs => cases h.1
    | _ => exact ih h.2

/-- A call of the sink. -/
theorem Account.snoc {interval : ℚ} {evs : List (Event UsageRecord)} {s : Pipeline} {fs : List Fate}
    {is : List Amqp.Input} {es : List Amqp.Event} (h : Account interval evs s fs is es)
    (i : Amqp.Input) :
    Amqp.sink.run (Amqp.fromUrl interval) (is ++ [i]) =
        some ((Amqp.step s.sink i).1, es ++ (Amqp.step s.sink i).2) ∧
      s.log ++ (Amqp.step s.sink i).2 = .opened 0 :: (es ++ (Amqp.step s.sink i).2) :=
  ⟨Machine.run_snoc.2 ⟨_, _, _, h.run, rfl, rfl⟩, by rw [h.log]; rfl⟩

/-- What the account needs of a step of the client that ends no `emit`. -/
theorem Account.client {interval : ℚ} {cfg : Config} {evs es : List (Event UsageRecord)}
    {s : Pipeline} {fs : List Fate} {is : List Amqp.Input} {log : List Amqp.Event}
    {a : Emitter.Action UsageRecord} {t : State UsageRecord} (h : Account interval evs s fs is log)
    (ha : ∀ o, a ≠ .sinkReturns o)
    (hstep : Emitter.step (perRecord cfg) s.emitter a = some (t, es)) :
    batchesOf (evs ++ es) = fs.map (fun f => [f.record]) ++ (called s.call es).toList ∧
      (called s.call es).isSome = t.worker.inCall ∧
      ∀ n todo, t.worker = .inSink n todo → (called s.call es).toList.flatten.length = n := by
  rw [Emitter.batchesOf_append, h.batches]
  rcases Emitter.step_inCall hstep with ⟨todo, rfl, hw, hin, rfl⟩ | ⟨o, ho, -⟩ | ⟨-, hin, -, he⟩
  · -- the worker was not in a call, so this record is the only one in the sink
    have hnone : s.call = none := by
      have := h.inCall
      rw [hw] at this
      simpa [Emitter.Worker.inCall] using this
    rw [hnone]
    refine ⟨?_, hin.symm, fun n todo' ht => ?_⟩
    · simp [called, Emitter.batchesOf, Event.batchPart]
    · simp only [Emitter.step, hw, Option.some.injEq, Prod.mk.injEq] at hstep
      rw [← hstep.1] at ht
      rw [← (Emitter.Worker.inSink.inj ht).1]
      simp [called]
  · exact absurd ho (ha o)
  · rw [called_of_quiet he, he, List.append_nil]
    refine ⟨rfl, h.inCall.trans hin.symm, fun n todo ht => ?_⟩
    cases hw : s.emitter.worker with
    | inSink m todo' =>
      have hsame := Emitter.step_of_inSink hw ha hstep
      rw [ht] at hsame
      rw [(Emitter.Worker.inSink.inj hsame).1]
      exact h.size m todo' hw
    | _ =>
      rw [hw, ht] at hin
      cases hin

/-- **Every step keeps the account.** -/
theorem Account.step {interval : ℚ} {cfg : Config} {evs e : List (Event UsageRecord)}
    {s t : Pipeline} {a : Action} {fs : List Fate} {is : List Amqp.Input} {es : List Amqp.Event}
    (h : Account interval evs s fs is es)
    (hflag : s.emitter.sinkClosed = s.emitter.worker.pastClose)
    (hstep : step cfg s a = some (t, e)) :
    ∃ fs' is' es', Account interval (evs ++ e) t fs' is' es' := by
  have hstopped : ∀ {b u es}, Emitter.step (perRecord cfg) s.emitter b = some (u, es) →
      u.worker.isStopped = (s.emitter.worker.isStopped || b.isSinkClose) :=
    fun hb => Emitter.step_isStopped hflag rfl hb
  cases step_cases hstep with
  | client b u _ hb hs =>
    have hnot : b.isSinkClose = false ∧ ∀ o, b ≠ .sinkReturns o := by
      constructor
      · cases b <;> first | rfl | cases hb
      · rintro o rfl
        cases hb
    obtain ⟨hbatches, hin, hsize⟩ := h.client hnot.2 hs
    refine ⟨fs, is, es, hbatches, hin, hsize, h.sent, h.sound, h.published, h.dropped, ?_, h.run,
      h.log⟩
    rw [hstopped hs, hnot.1, Bool.or_false]
    exact h.closed
  | close closeRaises u _ hs =>
    obtain ⟨hbatches, hin, hsize⟩ := h.client (fun _ ho => by cases ho) hs
    obtain ⟨hrun, hlog⟩ := h.snoc (.close closeRaises)
    have hclose : (Amqp.close s.sink closeRaises).1 = { s.sink with closed := true } := by
      unfold Amqp.close
      split
      · rename_i hclosed
        rw [← hclosed]
      · rfl
    refine ⟨fs, _, _, hbatches, hin, hsize, h.sent, h.sound, ?_, ?_, ?_, hrun, hlog⟩
    · show (Amqp.close s.sink closeRaises).1.published = _
      rw [hclose]
      exact h.published
    · show (Amqp.close s.sink closeRaises).1.dropped = _
      rw [hclose]
      exact h.dropped
    · show (Amqp.close s.sink closeRaises).1.closed = _
      rw [hclose, hstopped hs]
      exact (Bool.or_true _).symm
  | emit r i u _ hc hs =>
    have hholds := Amqp.holds_of_run (Amqp.holds_fromUrl interval) h.run
    obtain ⟨o, ho, hno⟩ := emit_outcome ((messageFor r).getD []) hholds.canReconnect
      { i with mapped := (messageFor r).isSome }
    obtain ⟨hrun, hlog⟩ := h.snoc (.emit { i with mapped := (messageFor r).isSome })
    rcases Emitter.step_inCall hs with ⟨_, hno', -⟩ | ⟨o', ho', hin, hout, -, he⟩ | ⟨hno', -⟩
    · cases hno'
    · have hcall : called none e = none := called_of_quiet he none
      refine ⟨fs ++ [⟨r, o⟩], _, _, ?_, ?_, fun n todo hw => ?_, ?_, ?_, ?_, ?_, ?_, hrun, hlog⟩
      · show batchesOf (evs ++ e) = _ ++ (called none e).toList
        rw [Emitter.batchesOf_append, he, List.append_nil, h.batches, hc, hcall]
        simp
      · show (called none e).isSome = _
        rw [hcall]
        exact hout.symm
      · rw [hw] at hout
        cases hout
      · show s.sent ++ publications _ _ = _
        rw [h.sent, ho.sent, List.flatMap_append, List.flatMap_singleton]
      · intro f hf
        rcases List.mem_append.1 hf with hf | hf
        · exact h.sound f hf
        · rw [List.mem_singleton.1 hf]
          intro p hp
          have hbody := ho.body p hp
          cases hmessage : messageFor r with
          | none =>
            have hnone := hno (by rw [hmessage]; rfl)
            rw [hnone] at hp
            cases hp
          | some bs =>
            rw [hbody, hmessage]
            rfl
      · show (Amqp.emit s.sink _).1.published = _
        rw [ho.published, h.published, List.countP_append, List.countP_singleton]
        show _ = _ + if Option.any (·.returned) o = true then 1 else 0
        cases Option.any (·.returned) o <;> rfl
      · show (Amqp.emit s.sink _).1.dropped = _
        rw [ho.dropped, h.dropped, List.countP_append, List.countP_singleton]
        show _ = _ + if (!Option.any (·.returned) o) = true then 1 else 0
        cases Option.any (·.returned) o <;> rfl
      · show (Amqp.emit s.sink _).1.closed = _
        rw [ho.closed, h.closed, hstopped hs]
        exact (Bool.or_false _).symm
    · exact absurd rfl (hno' _)

/-! ### The runs of the pipeline -/

/-- A sink call that returns, or a step that is none. -/
def Returns (a : Emitter.Action UsageRecord) : Prop := ∀ o, a = .sinkReturns o → o = .returned

/-- **The pipeline refines the client**, over a sink that always returns. -/
theorem emitter_run {interval : ℚ} {cfg : Config} {as : List Action}
    {evs : List (Event UsageRecord)} {s : Pipeline}
    (h : (pipeline cfg).run (.start interval) as = some (s, evs)) :
    ∃ bs, (∀ b ∈ bs, Returns b) ∧
      (Emitter.emitter UsageRecord (perRecord cfg)).run (.init UsageRecord) bs =
        some (s.emitter, evs) := by
  refine Machine.run_project (M := pipeline cfg)
    (N := Emitter.emitter UsageRecord (perRecord cfg)) Pipeline.emitter Returns
    (fun s a t e hstep => .inr ?_) h
  cases step_cases hstep with
  | client b u _ hb hs =>
    refine ⟨b, ?_, hs⟩
    rintro o rfl
    cases hb
  | emit r i u _ hc hs =>
    exact ⟨.sinkReturns .returned, fun o ho => (Emitter.Action.sinkReturns.inj ho).symm, hs⟩
  | close closeRaises u _ hs => exact ⟨.sinkCloseReturns .returned, fun o ho => (by cases ho), hs⟩

theorem onlyExceptions_of_returns {bs : List (Emitter.Action UsageRecord)}
    (h : ∀ b ∈ bs, Returns b) :
    Emitter.OnlyExceptions bs ∧ Emitter.Action.sinkReturns .raised ∉ bs := by
  constructor <;>
    · intro hmem
      cases h _ hmem _ rfl

theorem account_of_run {interval : ℚ} {cfg : Config} {as : List Action}
    {evs : List (Event UsageRecord)} {s : Pipeline}
    (h : (pipeline cfg).run (.start interval) as = some (s, evs)) :
    ∃ fs is es, Account interval evs s fs is es := by
  refine (Machine.run_induction (M := pipeline cfg)
    (I := fun as evs s => (pipeline cfg).run (.start interval) as = some (s, evs) ∧
      ∃ fs is es, Account interval evs s fs is es)
    ⟨rfl, [], [], [], account_start interval⟩ ?_ h).2
  rintro as evs s a t e ⟨hrun, fs, is, es, hfs⟩ hstep
  obtain ⟨bs, hbs, hclient⟩ := emitter_run hrun
  exact ⟨Machine.run_snoc.2 ⟨_, _, _, hrun, hstep, rfl⟩,
    hfs.step (Emitter.run_sinkLife hclient (onlyExceptions_of_returns hbs).1).flag hstep⟩

theorem countP_published (fs : List Fate) :
    (fs.flatMap (·.publication.toList)).countP (·.returned) = fs.countP Fate.published := by
  induction fs with
  | nil => rfl
  | cons f fs ih =>
    rw [List.flatMap_cons, List.countP_append, ih, List.countP_cons, Nat.add_comm]
    obtain ⟨r, o⟩ := f
    cases o with
    | none => rfl
    | some p =>
      obtain ⟨c, body, returned⟩ := p
      cases returned <;> rfl

/-- The bytes of a message are read back. -/
theorem fromJson_messageFor {r : UsageRecord} {bs : List ℕ} (h : messageFor r = some bs) :
    fromJson (.bytes bs) = .ok r.readBack := by
  obtain ⟨t, ht, rfl⟩ := Option.map_eq_some_iff.1 h
  have hdumps : Dumps r := toJson_isSome_iff.1 (Option.isSome_iff_exists.2 ⟨t, ht⟩)
  obtain ⟨t', p, ht', hdocument, hp⟩ := toJson_of_dumps hdumps messageLayout_blank
  obtain rfl : t = t' := Option.some.inj (ht.symm.trans ht')
  exact (fromJson_of_document hp hdocument).2

section Accounted

variable {interval : ℚ} {cfg : Config} {evs : List (Event UsageRecord)} {s : Pipeline}
  {fs : List Fate} {is : List Amqp.Input} {es : List Amqp.Event}
  {bs : List (Emitter.Action UsageRecord)}

/-- Every record that the sink is done with is counted. -/
theorem Account.counts (h : Account interval evs s fs is es) :
    s.sink.published + s.sink.dropped = fs.length := by
  rw [h.published, h.dropped]
  have hlength := List.length_eq_countP_add_countP Fate.published (l := fs)
  simpa using hlength.symm

theorem Account.handed (h : Account interval evs s fs is es) :
    handedOf evs = fs.map (·.record) ++ s.call.toList.flatten := by
  rw [handedOf, h.batches, List.flatten_append, ← List.flatMap_def, ← List.map_eq_flatMap]

theorem Account.call_eq_none (h : Account interval evs s fs is es)
    (hw : s.emitter.worker.inCall = false) : s.call = none := by
  have hin := h.inCall
  rwa [hw, Option.isSome_eq_false_iff, Option.isNone_iff_eq_none] at hin

variable (hreturns : ∀ b ∈ bs, Returns b)
  (hclient : (Emitter.emitter UsageRecord (perRecord cfg)).run (.init UsageRecord) bs =
    some (s.emitter, evs))

include hreturns hclient

theorem Account.delivered (h : Account interval evs s fs is es) :
    s.emitter.delivered + s.emitter.worker.uncounted =
      fs.length + s.call.toList.flatten.length := by
  obtain ⟨hexc, hraised⟩ := onlyExceptions_of_returns hreturns
  obtain ⟨l, hl⟩ := Emitter.run_ledger hclient hexc
  have hcounted := l.counted
  rw [hl.batches, ← handedOf, h.handed, List.length_append, List.length_map, hl.delivered,
    hl.failed, hl.uncounted, Emitter.run_failed_eq_zero hclient hraised] at hcounted
  omega

/-- What the client counts delivered, the sink is done with. -/
theorem Account.delivered_le (h : Account interval evs s fs is es) :
    s.emitter.delivered ≤ fs.length := by
  have hdelivered := h.delivered hreturns hclient
  cases hw : s.emitter.worker with
  | inSink n todo =>
    -- the record of the call under way is not counted
    rw [hw, h.size n todo hw] at hdelivered
    exact (Nat.add_right_cancel hdelivered).le
  | _ =>
    rw [h.call_eq_none (by rw [hw]; rfl)] at hdelivered
    exact (Nat.le_add_right _ _).trans hdelivered.le

end Accounted

/-- **The broker gets each record at most once, and in order.** After every run, whatever the
interleaving, the dials and the publishes do: the records that the sink is done with are the first
ones of those accepted; `basic_publish` was called at most once for each of them, in this order, and
with bytes that `from_json` reads back as the record, its surrogate pairs joined; `published` counts
the calls that returned and `dropped` the other records. Once the worker has stopped, every accepted
record is published, dropped or abandoned at the close, and every connection that was opened has
been closed once. -/
theorem publishes_in_order {interval : ℚ} {cfg : Config} {as : List Action}
    {evs : List (Event UsageRecord)} {s : Pipeline}
    (h : (pipeline cfg).run (.start interval) as = some (s, evs)) :
    ∃ fs : List Fate,
      fs.map (·.record) <+: acceptedOf evs ∧
      s.sent = fs.flatMap (·.publication.toList) ∧
      (∀ f ∈ fs, ∀ p ∈ f.publication, messageFor f.record = some p.body ∧
        fromJson (.bytes p.body) = .ok f.record.readBack) ∧
      s.sink.published = s.sent.countP (·.returned) ∧
      s.sink.published + s.sink.dropped = fs.length ∧
      s.emitter.failed = 0 ∧ s.emitter.delivered ≤ s.sink.published + s.sink.dropped ∧
      (s.emitter.worker = .stopped →
        s.emitter.accepted =
          s.sink.published + s.sink.dropped + s.emitter.droppedAtClose ∧
        ∀ c, .opened c ∈ s.log →
          s.log.count (.opened c) = 1 ∧ s.log.count (.connClosed c) = 1) := by
  obtain ⟨fs, is, es, hfs⟩ := account_of_run h
  obtain ⟨bs, hbs, hclient⟩ := emitter_run h
  obtain ⟨hexc, hraised⟩ := onlyExceptions_of_returns hbs
  have hpre : fs.map (·.record) <+: acceptedOf evs :=
    (hfs.handed ▸ List.prefix_append _ _).trans (Emitter.run_handed_prefix hclient)
  have hfailed := Emitter.run_failed_eq_zero hclient hraised
  refine ⟨fs, hpre, hfs.sent, fun f hf p hp => ?_, ?_, hfs.counts, hfailed, ?_, fun hw => ?_⟩
  · have hbody := hfs.sound f hf p hp
    exact ⟨hbody, fromJson_messageFor hbody⟩
  · rw [hfs.sent, countP_published, hfs.published]
  · rw [hfs.counts]
    exact hfs.delivered_le hbs hclient
  · have hdelivered := hfs.delivered hbs hclient
    rw [hfs.call_eq_none (by rw [hw]; rfl), hw] at hdelivered
    have hclosed : s.sink.closed = true := by
      rw [hfs.closed, hw]
      rfl
    refine ⟨?_, fun c hc => ?_⟩
    · rw [(Emitter.run_account_stopped hclient hexc hw).2, hfs.counts, hfailed]
      exact congrArg (· + s.emitter.droppedAtClose) hdelivered
    · have hholds := Amqp.holds_of_run (Amqp.holds_fromUrl interval) hfs.run
      rw [hfs.log] at hc ⊢
      obtain ⟨hopened, hclose⟩ := hholds.accounts c
      have honce : (.opened 0 :: es).count (.opened c) = 1 := (hholds.held hc).1
      rw [hclosed, if_neg (fun hno => Bool.noConfusion hno.2), ← hopened] at hclose
      exact ⟨honce, hclose.trans honce⟩

/-- A client of one record, from its `emit` to the end of its worker. -/
def oneRecord (r : UsageRecord) : List Action :=
  [.client (.offer (.record r)), .client (.acquire 0 0), .client .handOver] ++
    .emit ⟨true, 0, 0, .opened, 0, true, 0, false⟩ ::
      [.client .count, .client .settle, .client (.closeBegin false), .client (.acquire 0 0),
        .client .finish, .client .closeSink, .close true]

theorem small_maxBuffer : 0 < 4 := by decide
theorem small_batchSize : 0 < 2 := by decide
theorem small_linger : (0 : ℚ) ≤ 0 := le_rfl

/-- A buffer of four records and batches of two. -/
def small : Config := ⟨4, 2, 0, false, true, small_maxBuffer, small_batchSize, small_linger⟩

/-- The one record is published on the first connection, which is closed. -/
theorem run_oneRecord {r : UsageRecord} {body : List ℕ} (h : messageFor r = some body) :
    ∃ s, (pipeline small).run (.start 0) (oneRecord r) = some (s,
        [.accepted r, .handed [r], .sinkClosed]) ∧ s.emitter.worker = .stopped ∧
      s.emitter.delivered = 1 ∧ s.sink.dropped = 0 ∧
      s.log = [.opened 0, .published 0, .connClosed 0, .warned .closeFailed] := by
  have hbefore : (pipeline small).run (.start 0)
      [.client (.offer (.record r)), .client (.acquire 0 0), .client .handOver] =
      some (⟨{ accepted := 1, inFlight := 1, worker := .inSink 1 [] }, Amqp.fromUrl 0, some [r],
        [.opened 0], []⟩, [.accepted r, .handed [r]]) := rfl
  have hemit : step small ⟨{ accepted := 1, inFlight := 1, worker := .inSink 1 [] },
      Amqp.fromUrl 0, some [r], [.opened 0], []⟩ (.emit ⟨true, 0, 0, .opened, 0, true, 0, false⟩) =
      some (⟨{ accepted := 1, inFlight := 1, worker := .count true 1 [] },
        (Amqp.fromUrl 0).counted, none, [.opened 0, .published 0], [⟨0, body, true⟩]⟩, []) := by
    simp only [step, Pipeline.emit, h]
    rfl
  exact ⟨_, Machine.run_append.2 ⟨_, _, _, hbefore, Machine.run_cons.2 ⟨_, _, _, hemit, rfl, rfl⟩,
    rfl⟩, rfl, rfl, rfl, rfl⟩

theorem message_wireRecord : ∃ body, messageFor wireRecord = some body := by
  have hdumps : Dumps wireRecord := by decide +kernel
  obtain ⟨t, ht⟩ := Option.isSome_iff_exists.1 (toJson_isSome_iff (l := messageLayout).2 hdumps)
  exact ⟨encodeUtf8 t, by rw [messageFor, ht]; rfl⟩

/-- The connection is closed, though its `close` raises. -/
theorem publishes_in_order_one : ∃ s evs,
    (pipeline small).run (.start 0) (oneRecord wireRecord) = some (s, evs) ∧
      s.sink.published = s.sent.countP (·.returned) ∧
      s.emitter.accepted = s.sink.published + s.sink.dropped + s.emitter.droppedAtClose ∧
      s.log.count (.connClosed 0) = 1 := by
  obtain ⟨body, hbody⟩ := message_wireRecord
  obtain ⟨s, hrun, hworker, -, -, hlog⟩ := run_oneRecord hbody
  obtain ⟨fs, -, -, -, hpublished, -, -, -, hend⟩ := publishes_in_order hrun
  obtain ⟨haccepted, hclosed⟩ := hend hworker
  have hopened : .opened 0 ∈ s.log := by rw [hlog]; exact List.mem_cons_self
  exact ⟨s, _, hrun, hpublished, haccepted, (hclosed 0 hopened).2⟩

/-- **What the hook keeps was published.** A client that accepted one record, counts a delivery and
whose sink counts no drop has published the message of that record, once, and nothing else. -/
theorem published_of_kept {interval : ℚ} {cfg : Config} {as : List Action}
    {evs : List (Event UsageRecord)} {s : Pipeline} {r : UsageRecord}
    (h : (pipeline cfg).run (.start interval) as = some (s, evs)) (haccepted : acceptedOf evs = [r])
    (hdelivered : 1 ≤ s.emitter.delivered) (hdropped : s.sink.dropped = 0) :
    ∃ c body, s.sent = [⟨c, body, true⟩] ∧ messageFor r = some body := by
  obtain ⟨fs, is, es, hfs⟩ := account_of_run h
  obtain ⟨bs, hbs, hclient⟩ := emitter_run h
  have hpre : fs.map (·.record) <+: [r] :=
    haccepted ▸ (hfs.handed ▸ List.prefix_append _ _).trans (Emitter.run_handed_prefix hclient)
  have hpos := hdelivered.trans (hfs.delivered_le hbs hclient)
  have hlength := hpre.length_le
  rw [List.length_map, List.length_singleton] at hlength
  obtain ⟨f, rfl⟩ := List.length_eq_one_iff.1 (le_antisymm hlength hpos)
  obtain rfl : f.record = r := List.singleton_inj.1 (hpre.eq_of_length rfl)
  have hpublished : f.published = true := by
    have hnone := hfs.dropped
    rw [hdropped, List.countP_singleton] at hnone
    by_contra hno
    rw [if_pos (by simpa using hno)] at hnone
    cases hnone
  obtain ⟨p, hp, hreturned⟩ := (Option.any_eq_true _ _).1 hpublished
  obtain ⟨c, body, returned⟩ := p
  obtain rfl : returned = true := hreturned
  refine ⟨c, body, ?_, hfs.sound f (List.mem_singleton_self f) _ hp⟩
  rw [hfs.sent, List.flatMap_singleton, hp]
  rfl

theorem published_of_kept_one : ∃ s c body,
    (pipeline small).run (.start 0) (oneRecord wireRecord) =
        some (s, [.accepted wireRecord, .handed [wireRecord], .sinkClosed]) ∧
      s.sent = [⟨c, body, true⟩] ∧ messageFor wireRecord = some body := by
  obtain ⟨body, hbody⟩ := message_wireRecord
  obtain ⟨s, hrun, -, hdelivered, hdropped, -⟩ := run_oneRecord hbody
  obtain ⟨c, body', hsent, hmessage⟩ := published_of_kept hrun rfl hdelivered.ge hdropped
  exact ⟨s, c, body', hrun, hsent, hmessage⟩

end Tokenweir.Broker
