import Mathlib.Data.Rat.Defs
import Mathlib.Algebra.Order.Ring.Rat
import Tokenweir.Lib.Machine

/-!
# `BufferedEmitter`: the client, its worker and its callers

The model of `tokenweir.emitter`. Every block the source holds under
`self._condition` is one atomic step, and a sink call is a step of its own: the
worker is inside the call (`Worker.inSink`) until the call returns.

* `Config`, with the bounds `_positive_int` and `_non_negative_float` accept;
* `State`, the client's fields, the place the worker thread is at (`Worker`), the
  place of the one `close` call that got past its `_closed` check (`Closer`), and
  the waiters of the condition in the order they arrived;
* the blocks, under the source's names: `offer`, `nextBatch`, `takeBatch`,
  `flushEnter`, `flushWake`, `closeBegin`, `abandon`;
* `step` and `emitter`, the machine whose actions are those blocks. `emit` is one
  `offer`, `emit_batch` one `offer` for each value its iterable yields before it
  ends or raises, so a list of actions is an interleaving of any number of callers
  with the worker.

The record type `ρ` is a parameter: the client only asks whether a value is a
record. A sink does not change the list that it is handed.
-/

namespace Tokenweir.Emitter

/-- What a caller hands to `emit`: a `UsageRecord`, or any other Python value. -/
inductive Value (ρ : Type)
  | record (r : ρ)
  | other
  deriving DecidableEq, Repr

/-- The constructor's arguments, after its checks. -/
structure Config where
  maxBuffer : ℕ
  batchSize : ℕ
  linger : ℚ
  /-- Whether the sink is a `BatchSink`, asked once by the constructor. -/
  batchSink : Bool
  /-- Whether the sink has a callable `close`. -/
  closable : Bool
  maxBuffer_pos : 1 ≤ maxBuffer
  batchSize_pos : 1 ≤ batchSize
  linger_nonneg : 0 ≤ linger

/-- How a call into the sink ends. -/
inductive Outcome
  | returned
  | raised
  /-- A `BaseException` that is not an `Exception`. -/
  | fatal
  deriving DecidableEq, Repr

/-- The place of the worker thread. -/
inductive Worker (ρ : Type)
  /-- Before the lock of `_next_batch`. -/
  | nextBatch
  /-- In the wait for a first record. -/
  | idle
  /-- In the wait for a partial batch to fill. -/
  | linger (deadline : ℚ)
  /-- In `_deliver`, about to hand over the first part of `todo`. -/
  | deliver (todo : List ρ)
  /-- In a sink call with `n` records, `todo` not handed over yet. -/
  | inSink (n : ℕ) (todo : List ρ)
  /-- The sink call ended; `_count_delivered` or `_count_failed` is next. -/
  | count (ok : Bool) (n : ℕ) (todo : List ρ)
  /-- Before `_in_flight = 0` and `notify_all`. -/
  | settle
  /-- Before the `finally` block of `_run`. -/
  | exit
  /-- Before the lock of `_close_sink`. -/
  | closeSink
  /-- In the sink's `close`. -/
  | closing
  | stopped
  deriving DecidableEq, Repr

/-- The place of the `close` call that set `_closed`. -/
inductive Closer
  | none
  | joining
  /-- The join timed out; the block that clears the buffer is next. -/
  | timedOut
  | abandoned
  | returned
  deriving DecidableEq, Repr

/-- A thread waiting on the condition. -/
inductive Waiter
  | worker
  | flusher (i : ℕ)
  deriving DecidableEq, Repr

/-- A `flush` call that is waiting: its thread, whether it has a timeout, and the
number of records accepted when it began. -/
structure Flusher where
  id : ℕ
  timed : Bool
  began : ℕ
  deriving DecidableEq, Repr

/-- The fields of `EmitterStats`. -/
structure EmitterStats where
  accepted : ℕ := 0
  delivered : ℕ := 0
  failed : ℕ := 0
  droppedBufferFull : ℕ := 0
  droppedNotARecord : ℕ := 0
  droppedClosed : ℕ := 0
  droppedAtClose : ℕ := 0
  buffered : ℕ := 0
  workerAlive : Bool := true
  deriving DecidableEq, Repr

/-- `EmitterStats.dropped`: every record taken responsibility for and not delivered. -/
def EmitterStats.dropped (t : EmitterStats) : ℕ :=
  t.failed + t.droppedBufferFull + t.droppedNotARecord + t.droppedClosed + t.droppedAtClose

/-- The warnings the client logs. -/
inductive Warning
  | bufferFull
  | notARecord
  | emitterClosed
  | deliveryFailed
  | workerDied
  | sinkCloseFailed
  | flushTimedOut
  deriving DecidableEq, Repr

structure State (ρ : Type) where
  buffer : List ρ := []
  inFlight : ℕ := 0
  flushWaiters : ℕ := 0
  stopping : Bool := false
  closed : Bool := false
  sinkClosed : Bool := false
  workerAlive : Bool := true
  accepted : ℕ := 0
  delivered : ℕ := 0
  failed : ℕ := 0
  droppedBufferFull : ℕ := 0
  droppedNotARecord : ℕ := 0
  droppedClosed : ℕ := 0
  droppedAtClose : ℕ := 0
  worker : Worker ρ := .nextBatch
  closer : Closer := .none
  /-- The waiters of the condition, the longest waiting first. -/
  waiters : List Waiter := []
  flushers : List Flusher := []
  deriving DecidableEq, Repr

/-- What a step shows to the outside. -/
inductive Event (ρ : Type)
  | accepted (r : ρ)
  | refused (w : Warning)
  | handed (rs : List ρ)
  | warned (w : Warning)
  | abandoned (rs : List ρ)
  | sinkClosed
  | flushed (i : ℕ) (began : ℕ) (drained : Bool)
  | stats (t : EmitterStats)
  deriving DecidableEq, Repr

/-- The atomic steps. Clock readings and the outcome of sink calls are inputs. -/
inductive Action (ρ : Type)
  /-- `_offer`, by any thread. -/
  | offer (v : Value ρ)
  | stats
  /-- `flush` takes the lock; `timed` says whether it was given a timeout. -/
  | flushEnter (i : ℕ) (timed : Bool)
  /-- A waiting `flush` runs again; `late` says whether its time is over. -/
  | flushWake (i : ℕ) (late : Bool)
  /-- The first block of `close`; `onWorker` says whether the worker itself calls it. -/
  | closeBegin (onWorker : Bool)
  /-- `join` returned with the worker thread finished. -/
  | joined
  /-- `join` returned with the worker thread still alive. -/
  | joinTimedOut
  | abandon
  /-- `_next_batch` takes the lock; the two clock readings of the linger. -/
  | acquire (start now : ℚ)
  /-- The worker runs again after a wait. -/
  | wake (start now : ℚ)
  | handOver
  | sinkReturns (o : Outcome)
  | count
  | settle
  | finish
  | closeSink
  | sinkCloseReturns (o : Outcome)
  deriving DecidableEq, Repr

section Blocks

variable {ρ : Type} (cfg : Config) (s : State ρ)

/-- `Condition.notify()`: the longest waiter becomes runnable. -/
def State.notify : State ρ := { s with waiters := s.waiters.tail }

/-- `Condition.notify_all()`. -/
def State.notifyAll : State ρ := { s with waiters := [] }

/-- `_offer`. -/
def offer : Value ρ → State ρ × List (Event ρ)
  | .other =>
    ({ s with droppedNotARecord := s.droppedNotARecord + 1 }, [.refused .notARecord])
  | .record r =>
    if s.closed then
      ({ s with droppedClosed := s.droppedClosed + 1 }, [.refused .emitterClosed])
    else if cfg.maxBuffer ≤ s.buffer.length then
      ({ s with droppedBufferFull := s.droppedBufferFull + 1 }, [.refused .bufferFull])
    else
      (State.notify { s with buffer := s.buffer ++ [r], accepted := s.accepted + 1 },
        [.accepted r])

/-- `stats()`. -/
def State.stats : EmitterStats where
  accepted := s.accepted
  delivered := s.delivered
  failed := s.failed
  droppedBufferFull := s.droppedBufferFull
  droppedNotARecord := s.droppedNotARecord
  droppedClosed := s.droppedClosed
  droppedAtClose := s.droppedAtClose
  buffered := s.buffer.length
  workerAlive := s.workerAlive

/-- What `flush` returns: nothing is buffered and nothing is in flight. -/
def State.isDrained : Bool := s.buffer.isEmpty && s.inFlight == 0

/-- The predicate `flush` waits for. -/
def State.drained : Bool := !s.workerAlive || s.isDrained

/-- The last part of the locked block of `_next_batch`: take up to `batch_size` records.
An empty batch skips `_deliver`. -/
def takeBatch : State ρ :=
  let size := min s.buffer.length cfg.batchSize
  let batch := s.buffer.take size
  { s with
    buffer := s.buffer.drop size
    inFlight := size
    worker := if batch.isEmpty then .settle else .deliver batch }

/-- The linger loop of `_next_batch`, at a test of its condition. -/
def lingerLoop (deadline now : ℚ) : State ρ :=
  if s.buffer.length < cfg.batchSize ∧ s.stopping = false ∧ s.flushWaiters = 0 ∧
      0 < deadline - now then
    { s with worker := .linger deadline, waiters := s.waiters ++ [.worker] }
  else takeBatch cfg s

/-- `_next_batch`, from a test of its first loop's condition. -/
def nextBatch (start now : ℚ) : State ρ :=
  if s.buffer.isEmpty then
    if s.stopping then { s with worker := .exit }
    else { s with worker := .idle, waiters := s.waiters ++ [.worker] }
  else if 0 < cfg.linger ∧ s.buffer.length < cfg.batchSize then
    lingerLoop cfg s (start + cfg.linger) now
  else takeBatch cfg s

/-- `flush`, up to its first wait or its return. -/
def flushEnter (i : ℕ) (timed : Bool) : State ρ × List (Event ρ) :=
  if s.drained then (s.notifyAll, [.flushed i s.accepted s.isDrained])
  else
    ({ s with
        flushWaiters := s.flushWaiters + 1
        waiters := [.flusher i]
        flushers := ⟨i, timed, s.accepted⟩ :: s.flushers }, [])

/-- `flush`, from the end of a wait to the next one or to its return. -/
def flushWake (f : Flusher) (late : Bool) : State ρ × List (Event ρ) :=
  if s.drained ∨ late = true then
    ({ s with
        flushWaiters := s.flushWaiters - 1
        waiters := s.waiters.erase (.flusher f.id)
        flushers := s.flushers.erase f }, [.flushed f.id f.began s.isDrained])
  else ({ s with waiters := s.waiters.erase (.flusher f.id) ++ [.flusher f.id] }, [])

/-- The first block of `close`. The worker does not join itself. -/
def closeBegin (onWorker : Bool) : State ρ :=
  if s.closed then s
  else
    State.notifyAll
      { s with closed := true, stopping := true, closer := if onWorker then .returned else .joining }

/-- The block of a `close` whose join timed out. -/
def abandon : State ρ × List (Event ρ) :=
  ({ s with
      buffer := []
      droppedAtClose := s.droppedAtClose + s.buffer.length
      closer := .abandoned }, [.abandoned s.buffer, .warned .flushTimedOut])

/-- `_deliver` hands over the whole batch to a `BatchSink`, one record to another sink. -/
def handed (todo : List ρ) : List ρ := if cfg.batchSink then todo else todo.take 1

/-- What `_deliver` has not handed over after that. -/
def unhandedAfter (todo : List ρ) : List ρ := if cfg.batchSink then [] else todo.drop 1

/-- `_count_delivered` and `_count_failed`, then the next record of the batch. -/
def count (ok : Bool) (n : ℕ) (todo : List ρ) : State ρ × List (Event ρ) :=
  let next : Worker ρ := if todo.isEmpty then .settle else .deliver todo
  if ok then ({ s with delivered := s.delivered + n, worker := next }, [])
  else ({ s with failed := s.failed + n, worker := next }, [.warned .deliveryFailed])

/-- The `finally` block of `_run`. -/
def finish : State ρ :=
  State.notifyAll { s with workerAlive := false, inFlight := 0, worker := .closeSink }

/-- `_close_sink` up to the sink's own `close`. -/
def closeSink : State ρ × List (Event ρ) :=
  if s.sinkClosed then ({ s with worker := .stopped }, [])
  else if cfg.closable then
    ({ s with sinkClosed := true, worker := .closing }, [.sinkClosed])
  else ({ s with sinkClosed := true, worker := .stopped }, [])

end Blocks

/-! ### The places of the worker -/

section Places

variable {ρ : Type}

/-- The part of the in-flight batch not handed over yet. -/
def Worker.unhanded : Worker ρ → List ρ
  | .deliver todo => todo
  | .inSink _ todo => todo
  | .count _ _ todo => todo
  | _ => []

/-- The number of records handed over and not counted yet. -/
def Worker.uncounted : Worker ρ → ℕ
  | .inSink n _ => n
  | .count _ n _ => n
  | _ => 0

/-- The worker thread ended: `is_alive()` is false. -/
def Worker.isStopped : Worker ρ → Bool
  | .stopped => true
  | _ => false

/-- The worker left its loop. -/
def Worker.done : Worker ρ → Bool
  | .exit => true
  | .closeSink => true
  | .closing => true
  | .stopped => true
  | _ => false

/-- The in-flight records that are in no counter of outcomes yet. -/
def State.pendingCount (s : State ρ) : ℕ := s.worker.unhanded.length + s.worker.uncounted

/-! ### The blocks of `_next_batch` -/

section NextBatch

variable (cfg : Config) (s : State ρ)

theorem lingerLoop_cases (deadline now : ℚ) :
    (lingerLoop cfg s deadline now =
        { s with worker := .linger deadline, waiters := s.waiters ++ [.worker] }) ∨
      lingerLoop cfg s deadline now = takeBatch cfg s := by
  unfold lingerLoop
  split
  · exact Or.inl rfl
  · exact Or.inr rfl

/-- `_next_batch` returns `None`, waits, or takes a batch. -/
theorem nextBatch_cases (start now : ℚ) :
    (s.buffer = [] ∧ s.stopping = true ∧
        nextBatch cfg s start now = { s with worker := .exit }) ∨
      (∃ w, (w = .idle ∨ ∃ d, w = .linger d) ∧
        nextBatch cfg s start now = { s with worker := w, waiters := s.waiters ++ [.worker] }) ∨
      nextBatch cfg s start now = takeBatch cfg s := by
  unfold nextBatch
  split
  · rename_i hb
    split
    · rename_i hs
      exact Or.inl ⟨List.isEmpty_iff.1 hb, hs, rfl⟩
    · exact Or.inr (Or.inl ⟨.idle, Or.inl rfl, rfl⟩)
  · split
    · rcases lingerLoop_cases cfg s (start + cfg.linger) now with h | h
      · exact Or.inr (Or.inl ⟨.linger (start + cfg.linger), Or.inr ⟨_, rfl⟩, h⟩)
      · exact Or.inr (Or.inr h)
    · exact Or.inr (Or.inr rfl)

theorem takeBatch_unhanded :
    (takeBatch cfg s).worker.unhanded =
      s.buffer.take (min s.buffer.length cfg.batchSize) := by
  unfold takeBatch
  by_cases h : s.buffer.take (min s.buffer.length cfg.batchSize) = []
  · simp [h, Worker.unhanded]
  · simp [h, Worker.unhanded]

theorem takeBatch_uncounted : (takeBatch cfg s).worker.uncounted = 0 := by
  unfold takeBatch
  dsimp only
  split <;> rfl

theorem takeBatch_not_done : (takeBatch cfg s).worker.done = false := by
  unfold takeBatch
  dsimp only
  split <;> rfl

end NextBatch

end Places

/-! ### The machine -/

variable {ρ : Type}

/-- One atomic step of the client, its worker or one of its callers. -/
def step (cfg : Config) (s : State ρ) : Action ρ → Option (State ρ × List (Event ρ))
  | .offer v => some (offer cfg s v)
  | .stats => some (s, [.stats s.stats])
  | .flushEnter i timed =>
    if s.flushers.any (·.id == i) then none else some (flushEnter s i timed)
  | .flushWake i late =>
    match s.flushers.find? (·.id == i) with
    | none => none
    | some f =>
      -- without a timeout only a notification ends a wait; a timer may end one at any moment
      if f.timed = false ∧ (late = true ∨ Waiter.flusher i ∈ s.waiters) then none
      else some (flushWake s f late)
  | .closeBegin onWorker => some (closeBegin s onWorker, [])
  | .joined =>
    if s.closer = .joining ∧ s.worker.isStopped = true then some ({ s with closer := .returned }, [])
    else none
  | .joinTimedOut =>
    if s.closer = .joining ∧ s.worker.isStopped = false then some ({ s with closer := .timedOut }, [])
    else none
  | .abandon => if s.closer = .timedOut then some (abandon s) else none
  | .acquire start now =>
    match s.worker with
    | .nextBatch => some (nextBatch cfg s start now, [])
    | _ => none
  | .wake start now =>
    match s.worker with
    | .idle =>
      if Waiter.worker ∈ s.waiters then none else some (nextBatch cfg s start now, [])
    | .linger deadline =>
      some (lingerLoop cfg { s with waiters := s.waiters.erase .worker } deadline now, [])
    | _ => none
  | .handOver =>
    match s.worker with
    | .deliver todo =>
      some ({ s with worker := .inSink (handed cfg todo).length (unhandedAfter cfg todo) },
        [.handed (handed cfg todo)])
    | _ => none
  | .sinkReturns o =>
    match s.worker with
    | .inSink n todo =>
      match o with
      | .returned => some ({ s with worker := .count true n todo }, [])
      | .raised => some ({ s with worker := .count false n todo }, [])
      | .fatal => some ({ s with worker := .exit }, [.warned .workerDied])
    | _ => none
  | .count =>
    match s.worker with
    | .count ok n todo => some (count s ok n todo)
    | _ => none
  | .settle =>
    match s.worker with
    | .settle => some (State.notifyAll { s with inFlight := 0, worker := .nextBatch }, [])
    | _ => none
  | .finish =>
    match s.worker with
    | .exit => some (finish s, [])
    | _ => none
  | .closeSink =>
    match s.worker with
    | .closeSink => some (closeSink cfg s)
    | _ => none
  | .sinkCloseReturns o =>
    match s.worker with
    | .closing =>
      some ({ s with worker := .stopped }, if o = .raised then [.warned .sinkCloseFailed] else [])
    | _ => none

/-- The steps, each with what its action needs of the state. -/
inductive Step (cfg : Config) (s : State ρ) : Action ρ → State ρ → List (Event ρ) → Prop
  | offer (v : Value ρ) : Step cfg s (.offer v) (offer cfg s v).1 (offer cfg s v).2
  | stats : Step cfg s .stats s [.stats s.stats]
  | flushEnter (i : ℕ) (timed : Bool) (fresh : ∀ f ∈ s.flushers, f.id ≠ i) :
      Step cfg s (.flushEnter i timed) (flushEnter s i timed).1 (flushEnter s i timed).2
  | flushWake (f : Flusher) (late : Bool) (mem : f ∈ s.flushers)
      (runnable : f.timed = true ∨ (late = false ∧ Waiter.flusher f.id ∉ s.waiters)) :
      Step cfg s (.flushWake f.id late) (flushWake s f late).1 (flushWake s f late).2
  | closeBegin (onWorker : Bool) : Step cfg s (.closeBegin onWorker) (closeBegin s onWorker) []
  | joined (hc : s.closer = .joining) (hw : s.worker.isStopped = true) :
      Step cfg s .joined { s with closer := .returned } []
  | joinTimedOut (hc : s.closer = .joining) (hw : s.worker.isStopped = false) :
      Step cfg s .joinTimedOut { s with closer := .timedOut } []
  | abandon (hc : s.closer = .timedOut) : Step cfg s .abandon (abandon s).1 (abandon s).2
  | acquire (start now : ℚ) (hw : s.worker = .nextBatch) :
      Step cfg s (.acquire start now) (nextBatch cfg s start now) []
  | wakeIdle (start now : ℚ) (hw : s.worker = .idle) (hn : Waiter.worker ∉ s.waiters) :
      Step cfg s (.wake start now) (nextBatch cfg s start now) []
  | wakeLinger (start now deadline : ℚ) (hw : s.worker = .linger deadline) :
      Step cfg s (.wake start now)
        (lingerLoop cfg { s with waiters := s.waiters.erase .worker } deadline now) []
  | handOver (todo : List ρ) (hw : s.worker = .deliver todo) :
      Step cfg s .handOver
        { s with worker := .inSink (handed cfg todo).length (unhandedAfter cfg todo) }
        [.handed (handed cfg todo)]
  | sinkEnds (n : ℕ) (todo : List ρ) (o : Outcome) (hw : s.worker = .inSink n todo)
      (ho : o ≠ .fatal) :
      Step cfg s (.sinkReturns o) { s with worker := .count (decide (o = .returned)) n todo } []
  | sinkDies (n : ℕ) (todo : List ρ) (hw : s.worker = .inSink n todo) :
      Step cfg s (.sinkReturns .fatal) { s with worker := .exit } [.warned .workerDied]
  | count (ok : Bool) (n : ℕ) (todo : List ρ) (hw : s.worker = .count ok n todo) :
      Step cfg s .count (count s ok n todo).1 (count s ok n todo).2
  | settle (hw : s.worker = .settle) :
      Step cfg s .settle (State.notifyAll { s with inFlight := 0, worker := .nextBatch }) []
  | finish (hw : s.worker = .exit) : Step cfg s .finish (finish s) []
  | closeSink (hw : s.worker = .closeSink) :
      Step cfg s .closeSink (closeSink cfg s).1 (closeSink cfg s).2
  | sinkCloseReturns (o : Outcome) (hw : s.worker = .closing) :
      Step cfg s (.sinkCloseReturns o) { s with worker := .stopped }
        (if o = .raised then [.warned .sinkCloseFailed] else [])

theorem Step.of_eq {cfg : Config} {s t : State ρ} {a : Action ρ} {e : List (Event ρ)}
    {p : State ρ × List (Event ρ)} (h : p = (t, e)) (hs : Step cfg s a p.1 p.2) :
    Step cfg s a t e := by
  subst h
  exact hs

/-- **What a step can do**, once for every invariant. -/
theorem step_cases {cfg : Config} {s t : State ρ} {a : Action ρ} {e : List (Event ρ)}
    (h : step cfg s a = some (t, e)) : Step cfg s a t e := by
  cases a with
  | offer v =>
    simp only [step, Option.some.injEq] at h
    exact .of_eq h (.offer v)
  | stats => cases h; exact .stats
  | flushEnter i timed =>
    simp only [step] at h
    split at h
    · cases h
    · rename_i hany
      simp only [Option.some.injEq] at h
      exact .of_eq h (.flushEnter i timed (by simpa using hany))
  | flushWake i late =>
    simp only [step] at h
    split at h
    · cases h
    · rename_i f hf
      obtain rfl : f.id = i := by simpa using List.find?_some hf
      split at h
      · cases h
      · rename_i hrun
        simp only [Option.some.injEq] at h
        refine .of_eq h (.flushWake f late (List.mem_of_find?_eq_some hf) ?_)
        by_cases ht : f.timed = true
        · exact Or.inl ht
        · right
          simpa [ht] using hrun
  | closeBegin onWorker => cases h; exact .closeBegin onWorker
  | joined =>
    simp only [step] at h
    split at h
    · rename_i hj; cases h; exact .joined hj.1 hj.2
    · cases h
  | joinTimedOut =>
    simp only [step] at h
    split at h
    · rename_i hj; cases h; exact .joinTimedOut hj.1 hj.2
    · cases h
  | abandon =>
    simp only [step] at h
    split at h
    · rename_i hc; cases h; exact .abandon hc
    · cases h
  | acquire start now =>
    simp only [step] at h
    split at h
    · rename_i hw; cases h; exact .acquire start now hw
    · cases h
  | wake start now =>
    simp only [step] at h
    split at h
    · rename_i hw
      split at h
      · cases h
      · rename_i hn; cases h; exact .wakeIdle start now hw hn
    · rename_i d hw; cases h; exact .wakeLinger start now d hw
    · cases h
  | handOver =>
    simp only [step] at h
    split at h
    · rename_i todo hw; cases h; exact .handOver todo hw
    · cases h
  | sinkReturns o =>
    simp only [step] at h
    split at h
    · rename_i n todo hw
      cases o with
      | returned => cases h; exact .sinkEnds n todo .returned hw (by decide)
      | raised => cases h; exact .sinkEnds n todo .raised hw (by decide)
      | fatal => cases h; exact .sinkDies n todo hw
    · cases h
  | count =>
    simp only [step] at h
    split at h
    · rename_i ok n todo hw
      simp only [Option.some.injEq] at h
      exact .of_eq h (.count ok n todo hw)
    · cases h
  | settle =>
    simp only [step] at h
    split at h
    · rename_i hw; cases h; exact .settle hw
    · cases h
  | finish =>
    simp only [step] at h
    split at h
    · rename_i hw; cases h; exact .finish hw
    · cases h
  | closeSink =>
    simp only [step] at h
    split at h
    · rename_i hw
      simp only [Option.some.injEq] at h
      exact .of_eq h (.closeSink hw)
    · cases h
  | sinkCloseReturns o =>
    simp only [step] at h
    split at h
    · rename_i hw; cases h; exact .sinkCloseReturns o hw
    · cases h

/-- The client as a machine. -/
def emitter (ρ : Type) (cfg : Config) : Machine (State ρ) (Action ρ) (Event ρ) :=
  ⟨step cfg⟩

/-- A client just constructed, its worker started. -/
def State.init (ρ : Type) : State ρ := {}

end Tokenweir.Emitter
