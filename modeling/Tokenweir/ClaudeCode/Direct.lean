import Tokenweir.ClaudeCode.Exactness
import Tokenweir.Rollup.Billing
import Tokenweir.Store.Calls

/-!
# The hook over the direct path

The runs of the hook when `select_sink` gives a `DirectSink` over Postgres: each run has a sink
and a session of the database of its own, and all of them write one table.

* `Session`, `Action`, `step`: the steps of the hook, with those of each sink call in the place
  of its end; `session`, the machine;
* `Held`, the invariant; `Held.hook`, `Held.inside`, `Held.ended`; `run_kept`;
* `session_billed`.
-/

namespace Tokenweir.ClaudeCode.Direct

open Emitter (Outcome)
open Store (DirectSink Database Call Row rowsOf inflight Ready progress_cases)

/-! ### The parts -/

structure Session where
  world : World := {}
  /-- The committed rows, in the order they were written. -/
  table : List Row := []
  /-- The sink of each run. -/
  sinks : ℕ → DirectSink := fun _ => {}
  /-- The rows of the transaction under way in each run's session. -/
  transactions : ℕ → List Row := fun _ => []

/-- The database, as the session of a run has it. -/
def Session.database (s : Session) (i : ℕ) : Database := ⟨s.table, s.transactions i⟩

/-- What a step leaves of a run's sink and of its session. -/
def Session.put (s : Session) (i : ℕ) (sink : DirectSink) (db : Database) : Session where
  world := s.world
  table := db.table
  sinks := Function.update s.sinks i sink
  transactions := Function.update s.transactions i db.transaction

/-- The delivery of a run. -/
def delivery (w : World) (i : ℕ) : Option Delivery := w.runs[i]?.bind Run.delivery

/-! ### The steps -/

inductive Action
  /-- A step of the hook. -/
  | hook (a : ClaudeCode.Action)
  /-- A step of `emit_batch` of a run's sink. -/
  | sink (i : ℕ) (a : Store.Action)

/-- The steps of the hook outside the calls of its sink. The sink is the one of `select_sink`: a
`DirectSink` whose drop counter is named, or a stand-in for one that could not be built. -/
def allows (s : Session) : ClaudeCode.Action → Bool
  | .connect i cfg degraded droppedBefore =>
    cfg.batchSink = !degraded ∧ cfg.closable = true ∧
      droppedBefore = if degraded then none else some (s.sinks i).dropped
  | .sinkReturns _ o => o = .discarded
  | _ => true

/-- What a step of the client does to its sink: a call begins, or `close` is over. -/
def sinkAfter (d : Delivery) (sink : DirectSink) : Emitter.Action UsageRecord → DirectSink
  | .handOver => { sink with call := some (.entered d.inCall) }
  | .sinkCloseReturns _ => { sink with closed := true }
  | _ => sink

/-- The sinks after a step of the hook, which leads to this world. -/
def sinksAfter (w : World) (sinks : ℕ → DirectSink) : ClaudeCode.Action → ℕ → DirectSink
  | .client i a =>
    match delivery w i with
    | some d => if d.degraded then sinks else Function.update sinks i (sinkAfter d (sinks i) a)
    | none => sinks
  | _ => sinks

/-- What the hook sees of the end of a call: whether a drop was counted. -/
def seen (before after : DirectSink) : Outcome → SinkOutcome
  | .returned => if before.dropped < after.dropped then .dropped else .stored
  | .raised => .raised
  | .fatal => .fatal

/-- One atomic step. -/
def step (s : Session) : Action → Option (Session × List Event)
  | .hook a =>
    if allows s a then
      (ClaudeCode.step s.world a).map fun p =>
        ({ s with world := p.1, sinks := sinksAfter p.1 s.sinks a }, p.2)
    else none
  | .sink i a =>
    match delivery s.world i, (s.sinks i).call with
    | some _, some c =>
      match Store.progress (s.sinks i) (s.database i) c a with
      | none => none
      | some (.inside c db) => some (s.put i { s.sinks i with call := some c } db, [])
      | some (.ended o sink db) =>
        (ClaudeCode.step s.world (.sinkReturns i (seen (s.sinks i) sink o))).map fun p =>
          ({ s.put i { sink with call := none } db with world := p.1 }, p.2)
    | _, _ => none

/-- The hook over the direct path, as a machine. -/
def session : Machine Session Action Event := ⟨step⟩

/-! ### The invariant -/

/-- A stored record: its run, the server's clock and the record. -/
abbrev Entry := ℕ × ℤ × UsageRecord

/-- The records that a run has in the table. -/
def entriesOf (i : ℕ) (es : List Entry) : List UsageRecord :=
  (es.filter fun q => q.1 = i).map fun q => q.2.2

theorem entriesOf_append (i : ℕ) (es fs : List Entry) :
    entriesOf i (es ++ fs) = entriesOf i es ++ entriesOf i fs := by
  simp [entriesOf]

/-- The entries of one run are no other run's. -/
theorem entriesOf_map (i j : ℕ) (ps : List (ℤ × UsageRecord)) :
    entriesOf j (ps.map fun p => (i, p)) = if i = j then ps.map Prod.snd else [] := by
  induction ps with
  | nil => simp [entriesOf]
  | cons p ps ih =>
    have hcons : entriesOf j ((p :: ps).map fun p => (i, p)) =
        (if i = j then [p.2] else []) ++ entriesOf j (ps.map fun p => (i, p)) := by
      by_cases hij : i = j <;> simp [entriesOf, hij]
    rw [hcons, ih]
    by_cases hij : i = j <;> simp [hij]

/-- The call of a run's sink is the one that its worker is in, unless the run was killed in it. -/
def InCall (w : World) (i : ℕ) (c : Call) : Prop :=
  w.runs[i]? = some .killed ∨ ∃ d, delivery w i = some d ∧ d.degraded = false ∧
    d.client.worker.inCall = true ∧ c.batch = d.inCall

/-- **What the table holds**: the records that the runs have stored, and those of the calls that
have committed and not counted them yet. The hook reads the drops that its sink has counted. -/
structure Held (evs : List Event) (w : World) (table : List Row) (sinks : ℕ → DirectSink)
    (transactions : ℕ → List Row) (es : List Entry) : Prop where
  table : table = rowsOf (es.map Prod.snd)
  stored : ∀ i, entriesOf i es = storedBy i evs ++ inflight (sinks i).call
  call : ∀ i c, (sinks i).call = some c → InCall w i c
  ready : ∀ i, Ready (transactions i) (sinks i).call
  counted : ∀ i d, delivery w i = some d → d.degraded = false →
    d.droppedCount = some (sinks i).dropped

theorem held_init : Held [] {} [] (fun _ => {}) (fun _ => []) [] where
  table := rfl
  stored _ := rfl
  call i c hc := by cases hc
  ready _ := rfl
  counted i d hd := by simp [delivery] at hd

section Steps

variable {evs e : List Event} {w w' : World} {table : List Row} {sinks : ℕ → DirectSink}
  {transactions : ℕ → List Row} {es : List Entry} {i : ℕ}

/-- One run moves, with its sink and its session. -/
theorem Held.update (h : Held evs w table sinks transactions es)
    (hruns : ∀ j, j ≠ i → w'.runs[j]? = w.runs[j]?) (hevs : ∀ x ∈ e, x.run = i)
    (ps : List (ℤ × UsageRecord)) (sink : DirectSink) (transaction : List Row)
    (hstored : storedBy i evs ++ inflight (sinks i).call ++ ps.map Prod.snd =
      storedBy i (evs ++ e) ++ inflight sink.call)
    (hcall : ∀ c, sink.call = some c → InCall w' i c) (hready : Ready transaction sink.call)
    (hcounted : ∀ d, delivery w' i = some d → d.degraded = false →
      d.droppedCount = some sink.dropped) :
    Held (evs ++ e) w' (table ++ rowsOf ps) (Function.update sinks i sink)
      (Function.update transactions i transaction) (es ++ ps.map fun p => (i, p)) := by
  refine ⟨?_, fun j => ?_, fun j c hc => ?_, fun j => ?_, fun j d hd hdeg => ?_⟩
  · rw [h.table, List.map_append, Store.rowsOf_append, List.map_map]
    simp [Function.comp_def]
  · rw [entriesOf_append, entriesOf_map, h.stored]
    by_cases hj : j = i
    · subst hj
      rw [if_pos rfl, Function.update_self]
      exact hstored
    · have hnone : storedBy j e = [] := storedBy_eq_nil fun x hx hxj => hj (hxj ▸ hevs x hx)
      rw [if_neg (Ne.symm hj), Function.update_of_ne hj, storedBy_append, hnone, List.append_nil,
        List.append_nil]
  · by_cases hj : j = i
    · subst hj
      rw [Function.update_self] at hc
      exact hcall c hc
    · rw [Function.update_of_ne hj] at hc
      have := h.call j c hc
      unfold InCall delivery at this ⊢
      rwa [hruns j hj]
  · by_cases hj : j = i
    · subst hj
      rw [Function.update_self, Function.update_self]
      exact hready
    · rw [Function.update_of_ne hj, Function.update_of_ne hj]
      exact h.ready j
  · by_cases hj : j = i
    · subst hj
      rw [Function.update_self]
      exact hcounted d hd hdeg
    · rw [Function.update_of_ne hj]
      unfold delivery at hd
      rw [hruns j hj] at hd
      exact h.counted j d hd hdeg

/-- One run moves outside the sink. -/
theorem Held.frame (h : Held evs w table sinks transactions es)
    (hruns : ∀ j, j ≠ i → w'.runs[j]? = w.runs[j]?) (hevs : ∀ x ∈ e, x.run = i)
    (hnone : storedBy i e = []) (sink : DirectSink)
    (hsink : inflight sink.call = inflight (sinks i).call)
    (hcall : ∀ c, sink.call = some c → InCall w' i c) (hready : Ready (transactions i) sink.call)
    (hcounted : ∀ d, delivery w' i = some d → d.degraded = false →
      d.droppedCount = some sink.dropped) :
    Held (evs ++ e) w' table (Function.update sinks i sink) transactions es := by
  have hupdate := h.update hruns hevs [] sink (transactions i) (by simp [hnone, hsink]) hcall hready
    hcounted
  simpa [rowsOf] using hupdate

/-- One run moves, its sink as it is. -/
theorem Held.quiet (h : Held evs w table sinks transactions es)
    (hruns : ∀ j, j ≠ i → w'.runs[j]? = w.runs[j]?) (hevs : ∀ x ∈ e, x.run = i)
    (hnone : storedBy i e = []) (hcall : ∀ c, (sinks i).call = some c → InCall w' i c)
    (hcounted : ∀ d, delivery w' i = some d → d.degraded = false →
      d.droppedCount = some (sinks i).dropped) :
    Held (evs ++ e) w' table sinks transactions es := by
  have hframe := h.frame hruns hevs hnone (sinks i) rfl hcall (h.ready i) hcounted
  rwa [Function.update_eq_self] at hframe

/-! ### A step of the hook -/

theorem delivery_eq {p : Run} (hp : w.runs[i]? = some p) : delivery w i = p.delivery := by
  rw [delivery, hp]
  rfl

/-- The run that moved, and the others. -/
theorem getElem?_set {p : Run} (p' : Run) (hp : w.runs[i]? = some p) :
    (w.set i p').runs[i]? = some p' ∧ ∀ j, j ≠ i → (w.set i p').runs[j]? = w.runs[j]? := by
  refine ⟨?_, fun j hj => ?_⟩
  · rw [World.set, List.getElem?_set_self (List.getElem?_eq_some_iff.1 hp).1]
  · rw [World.set, List.getElem?_set_ne (Ne.symm hj)]

theorem delivery_setDelivery {p : Run} {d : Delivery} (hd : p.delivery = some d) (d' : Delivery) :
    (p.setDelivery d').delivery = some d' := by
  cases p <;> first | rfl | cases hd

/-- A run that was killed has no delivery. -/
theorem ne_killed_of_delivery {p : Run} {d : Delivery} (hd : p.delivery = some d) :
    p ≠ .killed := by
  rintro rfl
  cases hd

/-- The call of a run that was not killed is the one that its worker is in. -/
theorem Held.under_way {p : Run} {c : Call} (h : Held evs w table sinks transactions es)
    (hp : w.runs[i]? = some p) (hlive : p ≠ .killed) (hc : (sinks i).call = some c) :
    ∃ d, p.delivery = some d ∧ d.degraded = false ∧ d.client.worker.inCall = true ∧
      c.batch = d.inCall := by
  rcases h.call i c hc with hk | ⟨d, hd, hin⟩
  · rw [hp, Option.some.injEq] at hk
    exact absurd hk hlive
  · rw [delivery_eq hp] at hd
    exact ⟨d, hd, hin⟩

/-- A run without a delivery, that was not killed, is in no call. -/
theorem Held.call_eq_none {p : Run} (h : Held evs w table sinks transactions es)
    (hp : w.runs[i]? = some p) (hlive : p ≠ .killed) (hd : p.delivery = none) :
    (sinks i).call = none := by
  cases hc : (sinks i).call with
  | none => rfl
  | some c =>
    obtain ⟨d, hd', -⟩ := h.under_way hp hlive hc
    rw [hd] at hd'
    cases hd'

/-- Without a batch that is handed over, the batch of the call stays. -/
theorem handedBy_of_quiet {es : List (Emitter.Event UsageRecord)}
    (h : Emitter.batchesOf es = []) (before : List UsageRecord) : handedBy before es = before := by
  induction es with
  | nil => rfl
  | cons e es ih =>
    rw [Emitter.batchesOf_cons, List.append_eq_nil_iff] at h
    cases e with
    | handed rs => cases h.1
    | _ => exact ih h.2

/-- What a step of a client is to its sink. -/
theorem step_call {d d' : Delivery} {a : Emitter.Action UsageRecord} (h : d.step a = some d')
    (ha : ∀ o, a ≠ .sinkReturns o) :
    d'.degraded = d.degraded ∧ d'.droppedCount = d.droppedCount ∧
      (a = .handOver ∧ d.client.worker.inCall = false ∧ d'.client.worker.inCall = true ∨
        a ≠ .handOver ∧ d'.client.worker.inCall = d.client.worker.inCall ∧
          d'.inCall = d.inCall) := by
  unfold Delivery.step at h
  split at h
  · cases h
  rename_i c evs hc
  cases h
  refine ⟨rfl, rfl, ?_⟩
  rcases Emitter.step_inCall hc with ⟨todo, rfl, hw, hin, -⟩ | ⟨o, ho, -⟩ | ⟨-, hin, -, he⟩
  · exact .inl ⟨rfl, by rw [hw]; rfl, hin⟩
  · exact absurd ho (ha o)
  · refine .inr ⟨fun hover => ?_, hin, handedBy_of_quiet he d.inCall⟩
    -- a batch would have been handed over
    subst hover
    simp only [Emitter.step] at hc
    split at hc
    · cases hc
      simp [Emitter.batchesOf, Emitter.Event.batchPart] at he
    · cases hc

/-- A step of a run's client. -/
theorem Held.client {p : Run} {d d' : Delivery} {a : Emitter.Action UsageRecord}
    (h : Held evs w table sinks transactions es) (hp : w.runs[i]? = some p)
    (hd : p.delivery = some d) (ha : p.allows a = true) (hstep : d.step a = some d') :
    Held evs (w.set i (p.setDelivery d')) table
      (sinksAfter (w.set i (p.setDelivery d')) sinks (.client i a)) transactions es := by
  have hnot : ∀ o, a ≠ .sinkReturns o := fun o ho => by
    rw [ho] at ha
    unfold Run.allows at ha
    split at ha <;> simp [isClose, isWorker] at ha
  obtain ⟨hself, hother⟩ := getElem?_set (p.setDelivery d') hp
  have hd' : delivery (w.set i (p.setDelivery d')) i = some d' := by
    rw [delivery_eq hself, delivery_setDelivery hd]
  have hold : delivery w i = some d := (delivery_eq hp).trans hd
  obtain ⟨hdeg, hcount, hcase⟩ := step_call hstep hnot
  have hcounted : d'.degraded = false → d'.droppedCount = some (sinks i).dropped := fun hdeg' => by
    rw [hcount]
    exact h.counted i d hold (hdeg ▸ hdeg')
  -- the call under way is the one of this client
  have hcall : ∀ c, (sinks i).call = some c → d.degraded = false ∧
      d.client.worker.inCall = true ∧ c.batch = d.inCall := fun c hc => by
    obtain ⟨d₀, hd₀, hin⟩ := h.under_way hp (ne_killed_of_delivery hd) hc
    obtain rfl := Option.some.inj (hd.symm.trans hd₀)
    exact hin
  have hsinks : sinksAfter (w.set i (p.setDelivery d')) sinks (.client i a) =
      if d'.degraded then sinks else Function.update sinks i (sinkAfter d' (sinks i) a) := by
    simp only [sinksAfter, hd']
  rw [hsinks, ← List.append_nil evs]
  cases hdegraded : d'.degraded with
  | true =>
    rw [if_pos rfl]
    refine h.quiet hother (fun x hx => by cases hx) rfl (fun c hc => ?_) fun d₀ hd₀ hdeg₀ => ?_
    · rw [hdeg, (hcall c hc).1] at hdegraded
      cases hdegraded
    · rw [hd', Option.some.injEq] at hd₀
      rw [← hd₀, hdegraded] at hdeg₀
      cases hdeg₀
  | false =>
    rw [if_neg Bool.false_ne_true]
    have hdropped : (sinkAfter d' (sinks i) a).dropped = (sinks i).dropped := by
      cases a <;> rfl
    have hcounted' : ∀ d₀, delivery (w.set i (p.setDelivery d')) i = some d₀ →
        d₀.degraded = false →
        d₀.droppedCount = some (sinkAfter d' (sinks i) a).dropped := fun d₀ hd₀ hdeg₀ => by
      rw [hd', Option.some.injEq] at hd₀
      rw [hdropped, ← hd₀]
      exact hcounted hdegraded
    rcases hcase with ⟨rfl, hout, hin⟩ | ⟨hover, hin, hbatch⟩
    · -- a call begins, and none is under way
      have hnone : (sinks i).call = none := by
        cases hc : (sinks i).call with
        | none => rfl
        | some c =>
          rw [(hcall c hc).2.1] at hout
          cases hout
      have hready := h.ready i
      rw [hnone] at hready
      refine h.frame hother (fun x hx => by cases hx) rfl _ ?_ (fun c hc => ?_) hready hcounted'
      · rw [hnone]
        rfl
      · obtain rfl := Option.some.inj hc
        exact .inr ⟨d', hd', hdegraded, hin, rfl⟩
    · have hsame : (sinkAfter d' (sinks i) a).call = (sinks i).call := by
        cases a <;> first | rfl | exact absurd rfl hover
      refine h.frame hother (fun x hx => by cases hx) rfl _ (by rw [hsame]) (fun c hc => ?_)
        (by rw [hsame]; exact h.ready i) hcounted'
      rw [hsame] at hc
      obtain ⟨-, hin', hbatch'⟩ := hcall c hc
      exact .inr ⟨d', hd', hdegraded, hin.trans hin', hbatch'.trans hbatch.symm⟩

/-- One run moves, and its delivery stays. -/
theorem Held.carry {p p' : Run} (h : Held evs w table sinks transactions es)
    (hp : w.runs[i]? = some p) (hp' : w'.runs[i]? = some p')
    (hother : ∀ j, j ≠ i → w'.runs[j]? = w.runs[j]?) (hd : p'.delivery = p.delivery)
    (hlive : p ≠ .killed) (hevs : ∀ x ∈ e, x.run = i) (hnone : storedBy i e = []) :
    Held (evs ++ e) w' table sinks transactions es := by
  have hdelivery : delivery w' i = delivery w i := by
    rw [delivery_eq hp', delivery_eq hp, hd]
  refine h.quiet hother hevs hnone (fun c hc => ?_) fun d hd' => h.counted i d (hdelivery ▸ hd')
  obtain ⟨d, hd', hin⟩ := h.under_way hp hlive hc
  exact .inr ⟨d, by rw [delivery_eq hp', hd, hd'], hin⟩

/-- What is offered to a client leaves its call and its drops. -/
theorem emit_frame (d : Delivery) (env : Environment) (delta : TokenTotals) :
    (d.emit env delta).degraded = d.degraded ∧
      (d.emit env delta).droppedCount = d.droppedCount ∧
      (d.emit env delta).client.worker = d.client.worker ∧
      (d.emit env delta).inCall = d.inCall := by
  unfold Delivery.emit
  split
  · exact ⟨rfl, rfl, rfl, rfl⟩
  · refine ⟨rfl, rfl, ?_, rfl⟩
    unfold Emitter.offer
    dsimp only
    split_ifs <;> rfl

/-- A stand-in takes the batch and keeps nothing. -/
theorem sinkReturns_discarded {d d' : Delivery} {rs : List UsageRecord}
    (h : d.sinkReturns .discarded = some (d', rs)) :
    d.degraded = true ∧ d'.degraded = true ∧ rs = [] := by
  cases hdeg : d.degraded with
  | false => simp [Delivery.sinkReturns, hdeg] at h
  | true =>
    simp only [Delivery.sinkReturns, hdeg] at h
    obtain ⟨d₁, hd₁, he⟩ := Option.map_eq_some_iff.1 h
    obtain ⟨rfl, rfl⟩ := Prod.mk.inj he
    obtain ⟨n, todo, worker, -, rfl, -⟩ := step_sinkReturns hd₁
    exact ⟨rfl, hdeg, rfl⟩

/-- **A step of the hook keeps what the table holds.** -/
theorem Held.hook {a : ClaudeCode.Action} (h : Held evs w table sinks transactions es)
    (hconnect : ∀ i cfg degraded before, a = .connect i cfg degraded before →
      before = if degraded then none else some (sinks i).dropped)
    (hreturns : ∀ i o, a = .sinkReturns i o → o = .discarded)
    (hstep : ClaudeCode.step w a = some (w', e)) :
    Held (evs ++ e) w' table (sinksAfter w' sinks a) transactions es := by
  cases step_cases hstep with
  | grow ls =>
    rw [List.append_nil]
    exact ⟨h.table, h.stored, h.call, h.ready, h.counted⟩
  | start env =>
    have hend : w.runs[w.runs.length]? = none := List.getElem?_eq_none le_rfl
    have hnew : (w.runs ++ [Run.started env])[w.runs.length]? = some (Run.started env) := by simp
    refine h.quiet (i := w.runs.length) (fun j hj => ?_) (fun x hx => by cases hx) rfl
      (fun c hc => ?_) fun d hd => ?_
    · rcases lt_or_gt_of_ne hj with hlt | hlt
      · exact List.getElem?_append_left hlt
      · rw [List.getElem?_eq_none (le_of_lt hlt), List.getElem?_eq_none]
        simpa using hlt
    · -- no call is under way at a place that is still free
      rcases h.call _ c hc with hk | ⟨d, hd, -⟩
      · rw [hend] at hk
        cases hk
      · rw [delivery, hend] at hd
        cases hd
    · rw [delivery_eq hnew] at hd
      cases hd
  | move i a p p' e hp hmove =>
    obtain ⟨hself, hother⟩ := getElem?_set p' hp
    cases hmove with
    | scan env r =>
      refine h.carry hp hself hother rfl (by simp) (fun x hx => ?_) ?_
      · split_ifs at hx
        · rw [List.mem_singleton.1 hx]
          rfl
        · cases hx
      · split_ifs <;> rfl
    | readBaseline env scan =>
      refine h.carry hp hself hother ?_ (by simp) (fun x hx => by cases hx) rfl
      unfold afterRead
      split <;> rfl
    | connect env scan b delta cfg degraded before =>
      have hnone := h.call_eq_none hp (by simp) rfl
      refine h.quiet hother (fun x hx => by cases hx) rfl (fun c hc => ?_) fun d hd hdeg => ?_
      · rw [hnone] at hc
        cases hc
      · rw [delivery_eq hself] at hd
        obtain rfl := Option.some.inj hd
        obtain rfl : degraded = false := hdeg
        have hbefore := hconnect i cfg false before rfl
        rw [if_neg Bool.false_ne_true] at hbefore
        simp [Delivery.droppedCount, hbefore]
    | emit env delta d =>
      obtain ⟨hdeg, hcount, hworker, hbatch⟩ := emit_frame d env delta
      have hold : delivery w i = some d := delivery_eq hp
      refine h.quiet hother (fun x hx => by cases hx) rfl (fun c hc => ?_) fun d' hd' hdeg' => ?_
      · obtain ⟨d₀, hd₀, hin⟩ := h.under_way hp (by simp) hc
        obtain rfl := Option.some.inj hd₀
        refine .inr ⟨d.emit env delta, delivery_eq hself, ?_⟩
        rw [hdeg, hworker, hbatch]
        exact hin
      · rw [delivery_eq hself] at hd'
        obtain rfl := Option.some.inj hd'
        rw [hcount]
        exact h.counted i d hold (hdeg ▸ hdeg')
    | client p d d' a hd ha hs =>
      rw [List.append_nil]
      exact h.client hp hd ha hs
    | sinkReturns p d d' o rs hd hs =>
      obtain rfl := hreturns i o rfl
      obtain ⟨hdeg, hdeg', rfl⟩ := sinkReturns_discarded hs
      have hnew : delivery (w.set i (p.setDelivery d')) i = some d' := by
        rw [delivery_eq hself, delivery_setDelivery hd]
      refine h.quiet hother (fun x hx => by rw [List.mem_singleton.1 hx]; rfl) rfl
        (fun c hc => ?_) fun d₀ hd₀ hdeg₀ => ?_
      · obtain ⟨d₀, hd₀, hdeg₀, -⟩ := h.under_way hp (ne_killed_of_delivery hd) hc
        obtain rfl := Option.some.inj (hd.symm.trans hd₀)
        rw [hdeg] at hdeg₀
        cases hdeg₀
      · rw [hnew, Option.some.injEq] at hd₀
        rw [← hd₀, hdeg'] at hdeg₀
        cases hdeg₀
    | readStats | kept | notKept | writeFails =>
      exact h.carry hp hself hother rfl (by simp) (fun x hx => by cases hx) rfl
    | kill =>
      refine h.quiet hother (fun x hx => by cases hx) rfl (fun c _ => .inl hself) fun d hd => ?_
      rw [delivery_eq hself] at hd
      cases hd
  | wrote i t d transcriptPath updatedAt hp =>
    obtain ⟨hself, hother⟩ := getElem?_set (.returned d) hp
    exact h.carry hp hself hother rfl (by simp) (fun x hx => by rw [List.mem_singleton.1 hx]; rfl)
      rfl

/-! ### A step of a sink -/

/-- A step inside a call. -/
theorem Held.inside {c c' : Call} {a : Store.Action} {db : Database}
    (h : Held evs w table sinks transactions es) (hc : (sinks i).call = some c)
    (hp : Store.progress (sinks i) ⟨table, transactions i⟩ c a = some (.inside c' db)) :
    ∃ es', Held evs w db.table (Function.update sinks i { sinks i with call := some c' })
      (Function.update transactions i db.transaction) es' := by
  have hready := h.ready i
  rw [hc] at hready
  obtain ⟨hbatch, hready', ps, htable, hinflight⟩ := (progress_cases hp).keeps hready
  have hupdate : Held (evs ++ []) w (table ++ rowsOf ps)
      (Function.update sinks i { sinks i with call := some c' })
      (Function.update transactions i db.transaction) (es ++ ps.map fun p => (i, p)) := by
    refine h.update (fun _ _ => rfl) (fun x hx => by cases hx) ps _ _ ?_ (fun c₀ hc₀ => ?_)
      hready' (h.counted i)
    · rw [List.append_nil, hc, hinflight, List.append_assoc]
    · obtain rfl := Option.some.inj hc₀
      have hin := h.call i c hc
      unfold InCall at hin ⊢
      rwa [hbatch]
  rw [List.append_nil] at hupdate
  rw [htable]
  exact ⟨_, hupdate⟩

/-- What the end of a call that stored its batch is to the hook. -/
theorem sinkReturns_stored {d d' : Delivery} {rs : List UsageRecord}
    (h : d.sinkReturns .stored = some (d', rs)) :
    rs = d.inCall ∧ d'.droppedCount = d.droppedCount := by
  cases hdeg : d.degraded with
  | true => simp [Delivery.sinkReturns, hdeg] at h
  | false =>
    simp only [Delivery.sinkReturns, hdeg] at h
    obtain ⟨d₁, hd₁, he⟩ := Option.map_eq_some_iff.1 h
    obtain ⟨rfl, rfl⟩ := Prod.mk.inj he
    obtain ⟨n, todo, worker, -, rfl, -⟩ := step_sinkReturns hd₁
    exact ⟨rfl, rfl⟩

/-- What the end of a call that dropped its batch is to the hook. -/
theorem sinkReturns_dropped {d d' : Delivery} {rs : List UsageRecord}
    (h : d.sinkReturns .dropped = some (d', rs)) :
    rs = [] ∧ d'.droppedCount = d.droppedCount.map (· + 1) := by
  cases hdeg : d.degraded with
  | true => simp [Delivery.sinkReturns, hdeg] at h
  | false =>
    simp only [Delivery.sinkReturns, hdeg] at h
    split_ifs at h
    obtain ⟨d₁, hd₁, he⟩ := Option.map_eq_some_iff.1 h
    obtain ⟨rfl, rfl⟩ := Prod.mk.inj he
    obtain ⟨n, todo, worker, -, rfl, -⟩ := step_sinkReturns hd₁
    refine ⟨rfl, ?_⟩
    unfold Delivery.droppedCount
    cases d.droppedBefore <;> rfl

/-- **The end of a call**, of one record: the hook sees it as stored, and then its row is in the
table, or as dropped. -/
theorem Held.ended {c : Call} {a : Store.Action} {o : Outcome} {sink : DirectSink} {db : Database}
    (h : Held evs w table sinks transactions es) (hc : (sinks i).call = some c)
    (hone : c.batch.length = 1) (hfatal : a.isFatal = false)
    (hp : Store.progress (sinks i) ⟨table, transactions i⟩ c a = some (.ended o sink db))
    (hstep : ClaudeCode.step w (.sinkReturns i (seen (sinks i) sink o)) = some (w', e)) :
    Held (evs ++ e) w' db.table (Function.update sinks i { sink with call := none })
      (Function.update transactions i db.transaction) es := by
  have hready := h.ready i
  rw [hc] at hready
  obtain ⟨rfl, rfl, htr, hend⟩ := (progress_cases hp).settles hready hfatal
  cases step_cases hstep with
  | move i _ p p' e hrun hmove =>
    cases hmove with
    | sinkReturns p d d' _ rs hd hs =>
      obtain ⟨hself, hother⟩ := getElem?_set (p.setDelivery d') hrun
      have hold : delivery w i = some d := (delivery_eq hrun).trans hd
      have hnew : delivery (w.set i (p.setDelivery d')) i = some d' := by
        rw [delivery_eq hself, delivery_setDelivery hd]
      obtain ⟨d₀, hd₀, hdeg, -, hbatch⟩ := h.under_way hrun (ne_killed_of_delivery hd) hc
      obtain rfl := Option.some.inj (hd.symm.trans hd₀)
      have hcount := h.counted i d hold hdeg
      have hevs : ∀ x ∈ [Event.stored i rs], x.run = i := fun x hx => by
        rw [List.mem_singleton.1 hx]
        rfl
      have hby : storedBy i [Event.stored i rs] = rs := by
        simp [storedBy, storedOf, Event.storedPart, List.filter_map, Function.comp_def]
      have key : rs = inflight (some c) ∧ d'.droppedCount = some sink.dropped := by
        rcases hend with ⟨hin, hdropped⟩ | ⟨hin, hdropped⟩
        · have hseen : seen (sinks i) sink .returned = .stored := by
            simp [seen, hdropped]
          rw [hseen] at hs
          obtain ⟨rfl, hcount'⟩ := sinkReturns_stored hs
          exact ⟨hbatch.symm.trans hin.symm, by rw [hcount', hcount, hdropped]⟩
        · have hseen : seen (sinks i) sink .returned = .dropped := by
            simp [seen, hdropped, hone]
          rw [hseen] at hs
          obtain ⟨rfl, hcount'⟩ := sinkReturns_dropped hs
          exact ⟨hin.symm, by rw [hcount', hcount, hdropped, hone]; rfl⟩
      have hupdate := h.update hother hevs [] { sink with call := none } (transactions i) ?_
        (fun c₀ hc₀ => by cases hc₀) htr fun d₀ hd₀ _ => ?_
      · simpa [rowsOf] using hupdate
      · rw [storedBy_append, hby, key.1, hc]
        simp [inflight]
      · rw [hnew, Option.some.injEq] at hd₀
        rw [← hd₀]
        exact key.2

end Steps

/-! ### Sessions -/

/-- One run at a time, and only `Exception`s are raised in the sinks. -/
def Regular (s : Session) : Action → Prop
  | .hook a => Sequential s.world a
  | .sink _ a => a.isFatal = false

/-- No kill, no timed-out `close` and no failed `write_baseline`. -/
def Whole (s : Session) : Action → Prop
  | .hook a => Prompt s.world a
  | .sink _ _ => True

instance (s : Session) : ∀ a, Decidable (Regular s a)
  | .hook a => inferInstanceAs (Decidable (Sequential s.world a))
  | .sink _ a => inferInstanceAs (Decidable (a.isFatal = false))

instance (s : Session) : ∀ a, Decidable (Whole s a)
  | .hook a => inferInstanceAs (Decidable (Prompt s.world a))
  | .sink _ _ => .isTrue trivial

/-- A run delivers at most one record, so its calls are of one. -/
theorem inCall_length {evs : List Event} {w : World} {i : ℕ} {d : Delivery} (hco : Coherent evs w)
    (hd : delivery w i = some d) (hin : d.client.worker.inCall = true) : d.inCall.length = 1 := by
  obtain ⟨p, hp, hpd⟩ := Option.bind_eq_some_iff.1 hd
  have hok := hco.ok i p hp
  obtain ⟨st, hsound⟩ : ∃ st, d.Sound st := by
    cases p with
    | started | scanned | reporting | killed => cases hpd
    | connected env delta d₀ =>
      obtain rfl := Option.some.inj hpd
      exact ⟨_, hok.2.1⟩
    | closing d₀ =>
      obtain rfl := Option.some.inj hpd
      exact ⟨_, hok.2.1⟩
    | counted d₀ k =>
      obtain rfl := Option.some.inj hpd
      exact ⟨_, hok.2.1⟩
    | writing t d₀ =>
      obtain rfl : d₀ = some d := hpd
      exact ⟨_, hok.2.1⟩
    | returned d₀ =>
      obtain rfl : d₀ = some d := hpd
      exact ⟨_, hok.1⟩
  cases hw : d.client.worker with
  | inSink n todo =>
    obtain ⟨hlen, hpos, -⟩ := hsound.call n todo hw
    have hload := hsound.load_le
    have hrecord : d.record.toList.length ≤ 1 := by cases d.record <;> simp
    unfold load at hload
    rw [hw] at hload
    simp only [Emitter.Worker.unhanded, Emitter.Worker.uncounted] at hload
    omega
  | _ =>
    rw [hw] at hin
    cases hin

/-- What a regular session keeps. -/
def Kept (evs : List Event) (s : Session) : Prop :=
  Coherent evs s.world ∧ Alone s.world ∧
    ∃ es, Held evs s.world s.table s.sinks s.transactions es

/-- **What a step of a session is to the hook**: one of its steps, or none. -/
theorem step_hook {s t : Session} {a : Action} {e : List Event} (h : step s a = some (t, e)) :
    (∃ i x, a = .sink i x ∧ t.world = s.world ∧ e = []) ∨
      ∃ b, ClaudeCode.step s.world b = some (t.world, e) ∧
        (a = .hook b ∨ ∃ i x o, a = .sink i x ∧ b = .sinkReturns i o) := by
  cases a with
  | hook a =>
    simp only [step] at h
    split_ifs at h
    obtain ⟨⟨w, es⟩, hstep, he⟩ := Option.map_eq_some_iff.1 h
    obtain ⟨rfl, rfl⟩ := Prod.mk.inj he
    exact .inr ⟨a, hstep, .inl rfl⟩
  | sink i a =>
    simp only [step] at h
    split at h
    · split at h
      · cases h
      · cases h
        exact .inl ⟨i, a, rfl, rfl, rfl⟩
      · rename_i o sink db hp
        obtain ⟨⟨w, es⟩, hstep, he⟩ := Option.map_eq_some_iff.1 h
        obtain ⟨rfl, rfl⟩ := Prod.mk.inj he
        exact .inr ⟨_, hstep, .inr ⟨i, a, _, rfl, rfl⟩⟩
    · cases h

/-- A step of a session keeps what the table holds. -/
theorem Held.step {evs e : List Event} {s t : Session} {a : Action} {es : List Entry}
    (h : Held evs s.world s.table s.sinks s.transactions es) (hco : Coherent evs s.world)
    (hreg : Regular s a) (hstep : step s a = some (t, e)) :
    ∃ es', Held (evs ++ e) t.world t.table t.sinks t.transactions es' := by
  cases a with
  | hook a =>
    simp only [Direct.step] at hstep
    split_ifs at hstep with hallows
    obtain ⟨⟨w, evs'⟩, hs, he⟩ := Option.map_eq_some_iff.1 hstep
    obtain ⟨rfl, rfl⟩ := Prod.mk.inj he
    refine ⟨es, h.hook (fun i cfg degraded before ha => ?_) (fun i o ha => ?_) hs⟩
    · subst ha
      simp only [allows, decide_eq_true_eq] at hallows
      exact hallows.2.2
    · subst ha
      simpa [allows] using hallows
  | sink i a =>
    simp only [Direct.step] at hstep
    split at hstep
    · rename_i d c hd hc
      split at hstep
      · cases hstep
      · rename_i c' db hp
        cases hstep
        rw [List.append_nil]
        exact h.inside hc hp
      · rename_i o sink db hp
        obtain ⟨⟨w, evs'⟩, hs, he⟩ := Option.map_eq_some_iff.1 hstep
        obtain ⟨rfl, rfl⟩ := Prod.mk.inj he
        refine ⟨es, h.ended hc ?_ hreg hp hs⟩
        rcases h.call i c hc with hk | ⟨d₀, hd₀, -, hin, hbatch⟩
        · rw [delivery, hk] at hd
          cases hd
        · rw [hbatch]
          exact inCall_length hco hd₀ hin
    · cases hstep

/-- A regular step is a sequential one of the hook. -/
theorem Kept.step {evs e : List Event} {s t : Session} {a : Action} (h : Kept evs s)
    (hreg : Regular s a) (hstep : step s a = some (t, e)) : Kept (evs ++ e) t := by
  obtain ⟨hco, halone, es, hheld⟩ := h
  have hheld' := hheld.step hco hreg hstep
  rcases step_hook hstep with ⟨i, x, -, hw, rfl⟩ | ⟨b, hb, hab⟩
  · refine ⟨?_, hw ▸ halone, hheld'⟩
    rw [List.append_nil, hw]
    exact hco
  · have hseq : Sequential s.world b := by
      rcases hab with rfl | ⟨i, x, o, -, rfl⟩
      · exact hreg
      · trivial
    exact ⟨(hco.step (halone.undisturbed b) hb).1, halone.step hco hseq hb, hheld'⟩

/-- Every regular session keeps it. -/
theorem run_kept {as : List Action} {s : Session} {evs : List Event}
    (hreg : session.Along Regular {} as) (h : session.run {} as = some (s, evs)) : Kept evs s := by
  have hinit : Kept [] {} := ⟨coherent_init, alone_init, [], held_init⟩
  have hrun := Machine.run_induction_along (M := session) hinit
    (fun _ _ _ _ _ hI hP hs => hI.step hP hs) hreg h
  rwa [List.nil_append] at hrun

/-- Every whole one is settled as well. -/
theorem run_settled {as : List Action} {s : Session} {evs : List Event}
    (hreg : session.Along Regular {} as) (hwhole : session.Along Whole {} as)
    (h : session.run {} as = some (s, evs)) : Settled evs s.world := by
  have hinit : Kept [] {} ∧ Settled [] ({} : Session).world :=
    ⟨⟨coherent_init, alone_init, [], held_init⟩, settled_init⟩
  have hrun := Machine.run_induction_along (M := session)
    (I := fun evs s => Kept evs s ∧ Settled evs s.world) hinit
    (fun evs s a t e hI hP hs => by
      refine ⟨hI.1.step hP.1 hs, ?_⟩
      rcases step_hook hs with ⟨i, x, -, hw, rfl⟩ | ⟨b, hb, hab⟩
      · rw [List.append_nil, hw]
        exact hI.2
      · have hprompt : Prompt s.world b := by
          rcases hab with rfl | ⟨i, x, o, -, rfl⟩
          · exact hP.2
          · trivial
        exact hI.2.step hI.1.1 hprompt hb)
    (hreg.and hwhole) h
  rw [List.nil_append] at hrun
  exact hrun.2

/-! ### What is billed -/

/-- The tokens of some entries. -/
def tokensOf (es : List Entry) : TokenTotals := (es.map fun q => q.2.2.counts).sum

/-- An entry without the clock. -/
def Entry.stored (q : Entry) : ℕ × UsageRecord := (q.1, q.2.2)

theorem tokensOf_eq (es : List Entry) : tokensOf es = countsOf (es.map Entry.stored) := by
  rw [tokensOf, countsOf, List.map_map]
  rfl

/-- How often a run stored a record, by the records of that run. -/
theorem count_entriesOf (i : ℕ) (r : UsageRecord) (es : List Entry) :
    (es.map Entry.stored).count (i, r) = (entriesOf i es).count r := by
  induction es with
  | nil => rfl
  | cons q es ih =>
    have hcons : entriesOf i (q :: es) = (if q.1 = i then [q.2.2] else []) ++ entriesOf i es := by
      by_cases hq : q.1 = i <;> simp [entriesOf, hq]
    rw [List.map_cons, List.count_cons, ih, hcons, List.count_append, add_comm]
    by_cases hq : q.1 = i <;> simp [Entry.stored, hq, List.count_singleton]

theorem count_storedBy (i : ℕ) (r : UsageRecord) (evs : List Event) :
    (storedOf evs).count (i, r) = (storedBy i evs).count r := by
  unfold storedBy
  induction storedOf evs with
  | nil => rfl
  | cons q ps ih =>
    rw [List.count_cons, ih]
    by_cases hq : q.1 = i
    · by_cases hr : q.2 = r <;> simp [hq, hr, Prod.ext_iff]
    · simp [hq, Prod.ext_iff]

section Bills

variable {evs e : List Event} {w w' : World} {table : List Row} {sinks : ℕ → DirectSink}
  {transactions : ℕ → List Row} {es : List Entry} {i : ℕ}

/-- **What a run has stored is in the table.** -/
theorem Held.stored_le (h : Held evs w table sinks transactions es) :
    countsOf (storedOf evs) ≤ tokensOf es := by
  have hsub : (storedOf evs).Subperm (es.map Entry.stored) := by
    rw [List.subperm_ext_iff]
    rintro ⟨i, r⟩ -
    rw [count_entriesOf, count_storedBy, h.stored i, List.count_append]
    exact Nat.le_add_right _ _
  obtain ⟨ps, hperm, hsublist⟩ := hsub
  rw [tokensOf_eq, countsOf, countsOf, ← (hperm.map fun p => p.2.counts).sum_eq]
  exact (hsublist.map fun p => p.2.counts).sum_le_sum fun t _ => zero_le

/-- When every call is counted, the table holds what the runs have stored. -/
theorem tokensOf_eq_countsOf
    (h : ∀ i, entriesOf i es = storedBy i evs) : tokensOf es = countsOf (storedOf evs) := by
  have hperm : (es.map Entry.stored).Perm (storedOf evs) := by
    rw [List.perm_iff_count]
    rintro ⟨i, r⟩
    rw [count_entriesOf, count_storedBy, h i]
  rw [tokensOf_eq, countsOf, countsOf, (hperm.map fun p => p.2.counts).sum_eq]

/-- A call that is under way is that of a run that is still emitting. -/
theorem Held.emitting {c : Call} (h : Held evs w table sinks transactions es)
    (hset : Settled evs w) (hc : (sinks i).call = some c) :
    ∃ p d, w.runs[i]? = some p ∧ p.emitting = true ∧ p.delivery = some d ∧
      d.degraded = false ∧ d.client.worker.inCall = true ∧ c.batch = d.inCall := by
  rcases h.call i c hc with hk | ⟨d, hd, hdeg, hin, hbatch⟩
  · exact (hset i _ hk).elim
  · obtain ⟨p, hp, hpd⟩ := Option.bind_eq_some_iff.1 hd
    have hrun := hset i p hp
    have hdone : d.client.worker ≠ .stopped := fun hw => by
      rw [hw] at hin
      cases hin
    refine ⟨p, d, hp, ?_, hpd, hdeg, hin, hbatch⟩
    cases p with
    | started | scanned | reporting | killed => cases hpd
    | connected | closing => rfl
    | counted d₀ k =>
      obtain rfl := Option.some.inj hpd
      exact absurd hrun.1 hdone
    | writing t d₀ =>
      obtain rfl : d₀ = some d := hpd
      exact absurd hrun hdone
    | returned d₀ =>
      obtain rfl : d₀ = some d := hpd
      exact absurd hrun.1 hdone

/-- **The table never holds more than the transcript.** -/
theorem Held.le_totals (h : Held evs w table sinks transactions es) (hco : Coherent evs w)
    (hset : Settled evs w) : tokensOf es ≤ totals w.file := by
  by_cases hnone : ∀ i, inflight (sinks i).call = []
  · rw [tokensOf_eq_countsOf fun i => by rw [h.stored i, hnone i, List.append_nil]]
    exact hset.stored_le hco
  · -- the one call that is committed and not counted yet: count it
    obtain ⟨i, hi⟩ := not_forall.1 hnone
    obtain ⟨rs, hrs⟩ : ∃ rs, (sinks i).call = some (.wrote rs) := by
      unfold inflight at hi
      split at hi
      · rename_i rs hc
        exact ⟨rs, hc⟩
      · exact absurd rfl hi
    obtain ⟨p, d, hp, hem, hd, hdeg, hin, hbatch⟩ := h.emitting hset hrs
    obtain ⟨d', hd'⟩ : ∃ d', d.sinkReturns .stored = some (d', d.inCall) := by
      cases hw : d.client.worker with
      | inSink n todo => simp [Delivery.sinkReturns, hdeg, Delivery.step, Emitter.step, hw]
      | _ =>
        rw [hw] at hin
        cases hin
    have hstep : ClaudeCode.step w (.sinkReturns i .stored) =
        some (w.set i (p.setDelivery d'), [.stored i d.inCall]) := by
      simp only [ClaudeCode.step, hp, hd, hd', Option.map_some]
    have hprompt : Prompt w (.sinkReturns i .stored) := trivial
    have hund : Undisturbed w (.sinkReturns i .stored) := trivial
    have hle := (hset.step hco hprompt hstep).stored_le (hco.step hund hstep).1
    rw [← tokensOf_eq_countsOf fun j => ?_] at hle
    · exact hle
    · rw [h.stored j, storedBy_append]
      refine congrArg _ ?_
      by_cases hj : j = i
      · subst hj
        rw [hrs, ← hbatch]
        simp [inflight, Call.batch, storedBy, storedOf, Event.storedPart, List.filter_map,
          Function.comp_def]
      · have hquiet : inflight (sinks j).call = [] := by
          cases hc : (sinks j).call with
          | none => rfl
          | some c =>
            obtain ⟨q, -, hq, hqem, -⟩ := h.emitting hset hc
            exact absurd (hco.alone j i q p hq hp hqem hem) hj
        rw [hquiet]
        exact (storedBy_eq_nil fun x hx => by rw [List.mem_singleton.1 hx]; exact Ne.symm hj).symm

/-- **Between two runs the table holds the baseline.** -/
theorem Held.eq_baseline (h : Held evs w table sinks transactions es) (hco : Coherent evs w)
    (hset : Settled evs w) (hdone : ∀ p ∈ w.runs, p.live = false) :
    tokensOf es = readBaseline w.baseline := by
  rw [← hset.stored_eq hco hdone]
  refine tokensOf_eq_countsOf fun i => ?_
  rw [h.stored i]
  cases hc : (sinks i).call with
  | none => exact List.append_nil _
  | some c =>
    obtain ⟨p, -, hp, hem, -⟩ := h.emitting hset hc
    have hlive := hdone p (List.mem_of_getElem? hp)
    rw [live_of_emitting hem] at hlive
    cases hlive

end Bills

/-- The column of the view, and what it sums. -/
def column : CountField → (Rollup.DailyRow → Option ℤ) × (Rollup.Usage → ℤ)
  | .inputTokens => (Rollup.DailyRow.inputTokens, Rollup.Usage.inputTokens)
  | .outputTokens => (Rollup.DailyRow.outputTokens, Rollup.Usage.outputTokens)
  | .cacheCreationInputTokens =>
    (Rollup.DailyRow.cacheCreationInputTokens, Rollup.Usage.cacheCreationInputTokens)
  | .cacheReadInputTokens =>
    (Rollup.DailyRow.cacheReadInputTokens, Rollup.Usage.cacheReadInputTokens)

/-- The tokens of all rows of the view. -/
def billedTokens (rows : List Rollup.DailyRow) (f : CountField) : ℤ :=
  (rows.map fun row => ((column f).1 row).getD 0).sum

theorem column_mem (f : CountField) : column f ∈ Rollup.tokenColumns := by
  cases f <;> simp [column, Rollup.tokenColumns]

theorem column_billed (f : CountField) (p : ℤ × UsageRecord) :
    (column f).2 (Rollup.billed p) = p.2.counts f := by
  cases f <;> rfl

/-- **The view bills the tokens of the table.** -/
theorem billedTokens_eq {es : List Entry} {card : Rollup.RateCard} {rows : List Rollup.DailyRow}
    (h : Rollup.dailyOf (rowsOf (es.map Prod.snd)) card = some rows) (f : CountField) :
    billedTokens rows f = tokensOf es f := by
  have hsum : (tokensOf es f : ℤ) = (es.map fun q => (q.2.2.counts f : ℤ)).sum := by
    clear h
    induction es with
    | nil => rfl
    | cons q es ih =>
      rw [List.map_cons, List.sum_cons, ← ih]
      simp [tokensOf]
  rw [Rollup.dailyOf_rowsOf, Rollup.gatewayUsageDaily_eq] at h
  split_ifs at h
  obtain rfl := Option.some.inj h
  rw [billedTokens, (Rollup.rows_correct _ card).tokens (column f) (column_mem f), hsum]
  simp only [List.map_map, Function.comp_def, column_billed]

/-- **A session is billed exactly.** In every session of the hook over the direct path, one run at
a time, whatever its store refuses and wherever a run is cut short: the view bills at least what
the baseline says was reported. When no run is killed, no `close` times out and no write of the
state file fails, it never bills more than the transcript; between two runs it bills the baseline,
and once a run has read the whole transcript and stored its record, or found nothing new, it bills
exactly the tokens of the transcript. -/
theorem session_billed {as : List Action} {s : Session} {evs : List Event}
    (hreg : session.Along Regular {} as) (hrun : session.run {} as = some (s, evs))
    {card : Rollup.RateCard} {rows : List Rollup.DailyRow}
    (hrows : Rollup.dailyOf s.table card = some rows) :
    (∀ f, (readBaseline s.world.baseline f : ℤ) ≤ billedTokens rows f) ∧
      (session.Along Whole {} as →
        (∀ f, billedTokens rows f ≤ totals s.world.file f) ∧
          ((∀ p ∈ s.world.runs, p.live = false) →
            (∀ f, billedTokens rows f = readBaseline s.world.baseline f) ∧
              ∀ i d, .scanned i s.world.file ∈ evs → s.world.runs[i]? = some (.returned d) →
                d = none ∨ storedBy i evs ≠ [] →
                ∀ f, billedTokens rows f = totals s.world.file f)) := by
  obtain ⟨hco, -, es, hheld⟩ := run_kept hreg hrun
  rw [hheld.table] at hrows
  have hbilled := billedTokens_eq hrows
  refine ⟨fun f => ?_, fun hwhole => ?_⟩
  · have hle : readBaseline s.world.baseline ≤ tokensOf es := by
      rw [hco.exact]
      exact (countsOf_filter_le _ _).trans hheld.stored_le
    rw [hbilled f]
    exact Int.ofNat_le.2 (hle f)
  · have hset := run_settled hreg hwhole hrun
    refine ⟨fun f => ?_, fun hdone => ?_⟩
    · rw [hbilled f]
      exact Int.ofNat_le.2 (hheld.le_totals hco hset f)
    · have heq := hheld.eq_baseline hco hset hdone
      refine ⟨fun f => by rw [hbilled f, heq], fun i d hf hp hleft f => ?_⟩
      have hwrote : i ∈ writers evs ∨ Run.returned d = .returned none := by
        rcases hleft with rfl | hne
        · exact .inr rfl
        · cases d with
          | none => exact .inr rfl
          | some d => exact .inl ((hset i _ hp).2.resolve_left hne)
      have hall : totals s.world.file = readBaseline s.world.baseline :=
        le_antisymm ((hco.seen i _ hf _ hp).2.2 hwrote) hco.le
      rw [hbilled f, heq, hall]

/-- An environment whose records carry a time. -/
def timedEnvironment : Environment :=
  { plainEnvironment with normalizeTs := fun _ => Text.of "2026-01-02T03:04:05+00:00" }

/-- A client that hands over its batches whole. -/
def inBatches : Emitter.Config := Store.direct oneByOne

/-- The run `i`, up to the steps of its sink. -/
def opening (i : ℕ) : List Action :=
  [.hook (.start timedEnvironment), .hook (.scan i .whole), .hook (.readBaseline i),
    .hook (.connect i inBatches false (some 0)), .hook (.emit i), .hook (.client i (.acquire 0 0)),
    .hook (.client i .handOver), .sink i .check, .sink i (.map false)]

/-- The run `i`, after them. -/
def ending (i : ℕ) : List Action :=
  [.sink i .account, .hook (.client i .count), .hook (.client i .settle),
    .hook (.client i (.closeBegin false)), .hook (.client i (.acquire 0 0)),
    .hook (.client i .finish), .hook (.client i .closeSink),
    .hook (.client i (.sinkCloseReturns .returned)), .hook (.client i .joined),
    .hook (.readStats i), .hook (.decide i)]

/-- The store refuses the first turn, and the second one bills the tokens of both. -/
theorem session_billed_outage :
    let as : List Action :=
      [.hook (.grow [usageLine 3])] ++ opening 0 ++ [.sink 0 (.execute 7 .raised 0)] ++ ending 0 ++
      [.hook (.grow [usageLine 4])] ++ opening 1 ++
        [.sink 1 (.execute 8 .returned 1), .sink 1 (.commit .returned true)] ++ ending 1 ++
        [.hook (.write 1 [] [] true)]
    ∃ s evs rows, session.run {} as = some (s, evs) ∧
      Rollup.dailyOf s.table ⟨[], List.nodup_nil⟩ = some rows ∧
      totals s.world.file .inputTokens = 7 ∧ billedTokens rows .inputTokens = 7 := by
  intro as
  have hreg : session.Along Regular {} as := by decide +kernel
  have hend : ∃ s evs, session.run {} as = some (s, evs) ∧
      (∃ rows, Rollup.dailyOf s.table ⟨[], List.nodup_nil⟩ = some rows) ∧
      totals s.world.file .inputTokens = 7 ∧ (∀ p ∈ s.world.runs, p.live = false) ∧
      .scanned 1 s.world.file ∈ evs ∧ (∃ d, s.world.runs[1]? = some (.returned d)) ∧
      storedBy 1 evs ≠ [] :=
    ⟨_, _, rfl, ⟨_, rfl⟩, by decide +kernel, by decide +kernel, .tail _ (.tail _ (.head _)),
      ⟨_, rfl⟩, List.cons_ne_nil _ _⟩
  obtain ⟨s, evs, hrun, ⟨rows, hrows⟩, htotals, hdone, hscan, ⟨d, hd⟩, hne⟩ := hend
  obtain ⟨-, hwhole⟩ := session_billed hreg hrun hrows
  obtain ⟨-, hbilled⟩ := (hwhole (by decide +kernel)).2 hdone
  refine ⟨s, evs, rows, hrun, hrows, htotals, ?_⟩
  rw [hbilled 1 d hscan hd (.inr hne), htotals]
  rfl

end Tokenweir.ClaudeCode.Direct
