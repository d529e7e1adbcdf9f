import Mathlib.Tactic
import Tokenweir.Emitter.Conservation
import Tokenweir.Store.Row

/-!
# The broker-less pipeline

`BufferedEmitter` over `DirectSink` over `PostgresSource`, over a session of a database whose
commit is atomic and whose raised failure means that nothing of the transaction is committed.

* `Database`, `Call`, `DirectSink`, `Pipeline`;
* `progress`, `emit_batch` and the `write` it calls, step by step; `Advance` and `progress_cases`,
  a case for each of their branches;
* `step`, `pipeline`, with any interleaving of producers, the worker and `close`;
* `Step` and `step_cases`, what a step can do.
-/

namespace Tokenweir.Store

open Emitter (Config State Outcome Event)

/-! ### The parts -/

/-- A session of the database. -/
structure Database where
  /-- The committed rows, in the order they were written. -/
  table : List Row := []
  /-- The rows of the transaction under way. -/
  transaction : List Row := []

def Database.commit (db : Database) : Database := ⟨db.table ++ db.transaction, []⟩

/-- What a rollback leaves, and what a failure leaves whose rollback fails as well. -/
def Database.rollback (db : Database) : Database := { db with transaction := [] }

/-- The place of `emit_batch`, and of the `write` it calls. -/
inductive Call
  /-- Before the lock under which `_closed` is read. -/
  | entered (batch : List UsageRecord)
  /-- In `write`, before `rows_for`. -/
  | writing (batch : List UsageRecord)
  /-- Before `executemany`. -/
  | executing (batch : List UsageRecord) (rows : List (List SqlValue))
  | committing (batch : List UsageRecord)
  /-- `write` returned; `_written` is next. -/
  | wrote (batch : List UsageRecord)
  /-- `write` raised; `_dropped` is next. -/
  | failed (batch : List UsageRecord)

/-- The batch of a call. -/
def Call.batch : Call → List UsageRecord
  | .entered rs | .writing rs | .executing rs _ | .committing rs | .wrote rs | .failed rs => rs

/-- The fields of `DirectSink`, with the call under way. -/
structure DirectSink where
  closed : Bool := false
  written : ℕ := 0
  dropped : ℕ := 0
  call : Option Call := none

structure Pipeline where
  emitter : State UsageRecord := .init UsageRecord
  sink : DirectSink := {}
  db : Database := {}

/-- The client's configuration: a `DirectSink` is a `BatchSink` and can be closed. -/
def direct (cfg : Config) : Config := { cfg with batchSink := true, closable := true }

/-! ### The steps -/

/-- The atomic steps. -/
inductive Action
  /-- A step of a producer, of the worker outside the sink, or of `close`. -/
  | client (a : Emitter.Action UsageRecord)
  /-- `_closed` is read. -/
  | check
  /-- `_reject_autocommit` and `rows_for`. -/
  | map (autocommit : Bool)
  /-- `executemany` at a reading of the server's clock; cut short, it has sent some rows. -/
  | execute (now : ℤ) (ends : Outcome) (sent : ℕ)
  /-- `commit`; cut short, it may have committed. -/
  | commit (ends : Outcome) (committed : Bool)
  /-- `_written` or `_dropped` is increased. -/
  | account
  /-- A `BaseException` that is not an `Exception`, between two of these steps. -/
  | interrupt
  /-- The sink's `close` is over. -/
  | sinkClosed (interrupted : Bool)

/-- The steps that raise a `BaseException` that is not an `Exception`. -/
def Action.isFatal : Action → Bool
  | .execute _ ends _ => decide (ends = .fatal)
  | .commit ends _ => decide (ends = .fatal)
  | .interrupt => true
  | .sinkClosed interrupted => interrupted
  | .client _ | .check | .map _ | .account => false

/-- Only `Exception`s were raised. -/
def OnlyExceptions (as : List Action) : Prop := ∀ a ∈ as, a.isFatal = false

/-- How far a step takes a call. -/
inductive Progress
  | inside (call : Call) (db : Database)
  | ended (o : Outcome) (sink : DirectSink) (db : Database)

/-- `emit_batch`, of records only, with `PostgresSource.write`. -/
def progress (sink : DirectSink) (db : Database) : Call → Action → Option Progress
  | .entered rs, .check =>
    if rs = [] then some (.ended .returned sink db)
    else if sink.closed then
      some (.ended .returned { sink with dropped := sink.dropped + rs.length } db)
    else some (.inside (.writing rs) db)
  | .writing rs, .map autocommit =>
    if autocommit then some (.inside (.failed rs) db)
    else
      match rowsFor rs with
      | none => some (.inside (.failed rs) db)
      | some rows => some (.inside (if rows = [] then .wrote rs else .executing rs rows) db)
  | .executing rs rows, .execute now ends sent =>
    match ends with
    | .returned =>
      some (.inside (.committing rs)
        { db with transaction := db.transaction ++ rows.map (insert now) })
    | .raised => some (.inside (.failed rs) db.rollback)
    | .fatal =>
      some (.ended .fatal sink
        { db with transaction := db.transaction ++ (rows.take sent).map (insert now) })
  | .committing rs, .commit ends committed =>
    match ends with
    | .returned => some (.inside (.wrote rs) db.commit)
    | .raised => some (.inside (.failed rs) db.rollback)
    | .fatal => some (.ended .fatal sink (if committed then db.commit else db))
  | .wrote rs, .account =>
    some (.ended .returned { sink with written := sink.written + rs.length } db)
  | .failed rs, .account =>
    some (.ended .returned { sink with dropped := sink.dropped + rs.length } db)
  | _, .interrupt => some (.ended .fatal sink db)
  | _, _ => none

/-! ### A step of a call -/

/-- A step of a call. -/
inductive Advance (sink : DirectSink) (db : Database) : Call → Action → Progress → Prop
  | nothing : Advance sink db (.entered []) .check (.ended .returned sink db)
  | refused (rs : List UsageRecord) :
      Advance sink db (.entered rs) .check
        (.ended .returned { sink with dropped := sink.dropped + rs.length } db)
  | passed (rs : List UsageRecord) (hne : rs ≠ []) (hopen : sink.closed = false) :
      Advance sink db (.entered rs) .check (.inside (.writing rs) db)
  | rejected (rs : List UsageRecord) (autocommit : Bool) :
      Advance sink db (.writing rs) (.map autocommit) (.inside (.failed rs) db)
  | mapped (rs : List UsageRecord) (rows : List (List SqlValue)) (hrows : rowsFor rs = some rows) :
      Advance sink db (.writing rs) (.map false) (.inside (.executing rs rows) db)
  | mappedNothing : Advance sink db (.writing []) (.map false) (.inside (.wrote []) db)
  | executed (rs : List UsageRecord) (rows : List (List SqlValue)) (now : ℤ) (sent : ℕ) :
      Advance sink db (.executing rs rows) (.execute now .returned sent)
        (.inside (.committing rs)
          { db with transaction := db.transaction ++ rows.map (insert now) })
  | executionFailed (rs : List UsageRecord) (rows : List (List SqlValue)) (now : ℤ) (sent : ℕ) :
      Advance sink db (.executing rs rows) (.execute now .raised sent)
        (.inside (.failed rs) db.rollback)
  | executionCut (rs : List UsageRecord) (rows : List (List SqlValue)) (now : ℤ) (sent : ℕ) :
      Advance sink db (.executing rs rows) (.execute now .fatal sent)
        (.ended .fatal sink
          { db with transaction := db.transaction ++ (rows.take sent).map (insert now) })
  | committed (rs : List UsageRecord) (done : Bool) :
      Advance sink db (.committing rs) (.commit .returned done) (.inside (.wrote rs) db.commit)
  | commitFailed (rs : List UsageRecord) (done : Bool) :
      Advance sink db (.committing rs) (.commit .raised done) (.inside (.failed rs) db.rollback)
  | commitCut (rs : List UsageRecord) (done : Bool) :
      Advance sink db (.committing rs) (.commit .fatal done)
        (.ended .fatal sink (if done then db.commit else db))
  | counted (rs : List UsageRecord) :
      Advance sink db (.wrote rs) .account
        (.ended .returned { sink with written := sink.written + rs.length } db)
  | lost (rs : List UsageRecord) :
      Advance sink db (.failed rs) .account
        (.ended .returned { sink with dropped := sink.dropped + rs.length } db)
  | interrupted (c : Call) : Advance sink db c .interrupt (.ended .fatal sink db)

/-- **What a step of a call can do**, once for every invariant. -/
theorem progress_cases {sink : DirectSink} {db : Database} {c : Call} {a : Action} {p : Progress}
    (h : progress sink db c a = some p) : Advance sink db c a p := by
  cases c with
  | entered rs =>
    cases a with
    | check =>
      simp only [progress] at h
      split_ifs at h with hrs hclosed
      · subst hrs
        cases h
        exact .nothing
      · cases h
        exact .refused rs
      · cases h
        exact .passed rs hrs (Bool.eq_false_of_not_eq_true hclosed)
    | interrupt =>
      cases h
      exact .interrupted _
    | _ => cases h
  | writing rs =>
    cases a with
    | map autocommit =>
      simp only [progress] at h
      split_ifs at h with hauto
      · cases h
        exact .rejected rs autocommit
      · obtain rfl := Bool.eq_false_of_not_eq_true hauto
        cases hrows : rowsFor rs with
        | none =>
          rw [hrows] at h
          cases h
          exact .rejected rs false
        | some rows =>
          rw [hrows] at h
          dsimp only at h
          split_ifs at h with hnil
          · subst hnil
            obtain rfl := eq_nil_of_rowsFor hrows
            cases h
            exact .mappedNothing
          · cases h
            exact .mapped rs rows hrows
    | interrupt =>
      cases h
      exact .interrupted _
    | _ => cases h
  | executing rs rows =>
    cases a with
    | execute now ends sent =>
      cases ends with
      | returned =>
        cases h
        exact .executed rs rows now sent
      | raised =>
        cases h
        exact .executionFailed rs rows now sent
      | fatal =>
        cases h
        exact .executionCut rs rows now sent
    | interrupt =>
      cases h
      exact .interrupted _
    | _ => cases h
  | committing rs =>
    cases a with
    | commit ends done =>
      cases ends with
      | returned =>
        cases h
        exact .committed rs done
      | raised =>
        cases h
        exact .commitFailed rs done
      | fatal =>
        cases h
        exact .commitCut rs done
    | interrupt =>
      cases h
      exact .interrupted _
    | _ => cases h
  | wrote rs =>
    cases a with
    | account =>
      cases h
      exact .counted rs
    | interrupt =>
      cases h
      exact .interrupted _
    | _ => cases h
  | failed rs =>
    cases a with
    | account =>
      cases h
      exact .lost rs
    | interrupt =>
      cases h
      exact .interrupted _
    | _ => cases h

/-! ### A step of the pipeline -/

/-- The call a step of the client begins; without one, the call before. -/
def called (before : Option Call) : List (Event UsageRecord) → Option Call
  | [] => before
  | .handed rs :: _ => some (.entered rs)
  | _ :: es => called before es

/-- The steps of the client that end a call of the sink. -/
def endsCall : Emitter.Action UsageRecord → Bool
  | .sinkReturns _ | .sinkCloseReturns _ => true
  | _ => false

/-- A step of the client. -/
def Pipeline.advance (cfg : Config) (s : Pipeline) (a : Emitter.Action UsageRecord)
    (sink : DirectSink) (db : Database) : Option (Pipeline × List (Event UsageRecord)) :=
  (Emitter.step (direct cfg) s.emitter a).map fun p =>
    (⟨p.1, { sink with call := called sink.call p.2 }, db⟩, p.2)

/-- One atomic step. -/
def step (cfg : Config) (s : Pipeline) (a : Action) :
    Option (Pipeline × List (Event UsageRecord)) :=
  match a with
  | .client a => if endsCall a then none else s.advance cfg a s.sink s.db
  | .sinkClosed interrupted =>
    s.advance cfg (.sinkCloseReturns (if interrupted then .fatal else .returned))
      { s.sink with closed := true } s.db
  | a =>
    match s.sink.call with
    | none => none
    | some c =>
      match progress s.sink s.db c a with
      | none => none
      | some (.inside c db) => some ({ s with sink := { s.sink with call := some c }, db := db }, [])
      | some (.ended o sink db) => s.advance cfg (.sinkReturns o) { sink with call := none } db

/-- The pipeline as a machine. -/
def pipeline (cfg : Config) : Machine Pipeline Action (Event UsageRecord) := ⟨step cfg⟩

/-! ### What a step can do -/

/-- A step of the pipeline. -/
inductive Step (cfg : Config) (s : Pipeline) : Action → Pipeline → List (Event UsageRecord) → Prop
  | client (a : Emitter.Action UsageRecord) (t : State UsageRecord) (es : List (Event UsageRecord))
      (ha : endsCall a = false) (hstep : Emitter.step (direct cfg) s.emitter a = some (t, es)) :
      Step cfg s (.client a) ⟨t, { s.sink with call := called s.sink.call es }, s.db⟩ es
  | sinkClosed (interrupted : Bool) (t : State UsageRecord) (es : List (Event UsageRecord))
      (hstep : Emitter.step (direct cfg) s.emitter
        (.sinkCloseReturns (if interrupted then .fatal else .returned)) = some (t, es)) :
      Step cfg s (.sinkClosed interrupted)
        ⟨t, ⟨true, s.sink.written, s.sink.dropped, called s.sink.call es⟩, s.db⟩ es
  | inside (a : Action) (c c' : Call) (db : Database) (hc : s.sink.call = some c)
      (hp : progress s.sink s.db c a = some (.inside c' db)) :
      Step cfg s a { s with sink := { s.sink with call := some c' }, db := db } []
  | ended (a : Action) (c : Call) (o : Outcome) (sink : DirectSink) (db : Database)
      (t : State UsageRecord) (es : List (Event UsageRecord)) (hc : s.sink.call = some c)
      (hp : progress s.sink s.db c a = some (.ended o sink db))
      (hstep : Emitter.step (direct cfg) s.emitter (.sinkReturns o) = some (t, es)) :
      Step cfg s a ⟨t, { sink with call := called none es }, db⟩ es

/-- **What a step can do**, once for every invariant. -/
theorem step_cases {cfg : Config} {s t : Pipeline} {a : Action} {e : List (Event UsageRecord)}
    (h : step cfg s a = some (t, e)) : Step cfg s a t e := by
  have hcall : ∀ a : Action, (match s.sink.call with
      | none => none
      | some c =>
        match progress s.sink s.db c a with
        | none => none
        | some (.inside c db) =>
          some ({ s with sink := { s.sink with call := some c }, db := db }, [])
        | some (.ended o sink db) =>
          s.advance cfg (.sinkReturns o) { sink with call := none } db) = some (t, e) →
      Step cfg s a t e := fun a h => by
    split at h
    · cases h
    · rename_i c hc
      split at h
      · cases h
      · rename_i c' db hp
        cases h
        exact .inside a c c' db hc hp
      · rename_i o sink db hp
        obtain ⟨⟨u, es⟩, hstep, he⟩ := Option.map_eq_some_iff.1 h
        obtain ⟨rfl, rfl⟩ := Prod.mk.inj he
        exact .ended a c o sink db u es hc hp hstep
  cases a with
  | client a =>
    simp only [step] at h
    split_ifs at h with ha
    obtain ⟨⟨u, es⟩, hstep, he⟩ := Option.map_eq_some_iff.1 h
    obtain ⟨rfl, rfl⟩ := Prod.mk.inj he
    exact .client a u es (by simpa using ha) hstep
  | sinkClosed interrupted =>
    obtain ⟨⟨u, es⟩, hstep, he⟩ := Option.map_eq_some_iff.1 h
    obtain ⟨rfl, rfl⟩ := Prod.mk.inj he
    exact .sinkClosed interrupted u es hstep
  | check => exact hcall _ h
  | map autocommit => exact hcall _ h
  | execute now ends sent => exact hcall _ h
  | commit ends committed => exact hcall _ h
  | account => exact hcall _ h
  | interrupt => exact hcall _ h

end Tokenweir.Store
