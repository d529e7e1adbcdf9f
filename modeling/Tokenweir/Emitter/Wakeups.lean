import Tokenweir.Emitter.Accounting

/-!
# No lost wake-up

Who waits on the condition of the client, and who is going to notify them. A waiter that is in the
queue has not been notified; a wait with a timeout may end at any moment, in the queue or not.

* `Waits`, the invariant of the queue; `step_waits`, `run_waits`;
* `Due`, the worker's next steps notify everyone; `notified_of_due`;
* `wakeups`.
-/

namespace Tokenweir.Emitter

variable {ρ : Type} {cfg : Config} {s t : State ρ} {a : Action ρ} {e : List (Event ρ)}

/-! ### The worker's next notification -/

/-- The worker is before a block that notifies everyone. -/
def State.Notifying (s : State ρ) : Prop := s.worker = .settle ∨ s.worker = .exit

/-- The client is closed and its buffer empty, and the worker is where it sees that next. -/
structure State.Leaving (s : State ρ) : Prop where
  closed : s.closed = true
  stopping : s.stopping = true
  buffer : s.buffer = []
  worker : s.worker = .nextBatch ∨ s.worker = .idle ∧ Waiter.worker ∉ s.waiters ∨
    ∃ d, s.worker = .linger d

/-- The worker notifies everyone in its next block, or in the one after it. -/
def State.Due (s : State ρ) : Prop := s.Notifying ∨ s.Leaving

/-- The steps that the worker takes. -/
def Action.byWorker : Action ρ → Bool
  | .acquire _ _ | .wake _ _ | .handOver | .sinkReturns _ | .count | .settle | .finish | .closeSink |
    .sinkCloseReturns _ => true
  | _ => false

/-- The worker has notified everyone for the last time. -/
def Worker.gone : Worker ρ → Bool
  | .closeSink | .closing | .stopped => true
  | _ => false

/-! ### The queue -/

/-- The queue of the condition: a worker that waits un-notified has nothing to do, and a flush that
waits un-notified is not drained, or is going to be notified. -/
structure Waits (cfg : Config) (s : State ρ) : Prop where
  nodup : s.waiters.Nodup
  worker : Waiter.worker ∈ s.waiters → s.worker = .idle ∨ ∃ d, s.worker = .linger d
  idle : s.worker = .idle → Waiter.worker ∈ s.waiters →
    s.waiters = [.worker] ∧ s.buffer = [] ∧ s.stopping = false
  linger : ∀ d, s.worker = .linger d → Waiter.worker ∈ s.waiters →
    s.waiters = [.worker] ∧ s.flushers = [] ∧ s.stopping = false ∧
      s.buffer.length < cfg.batchSize
  flusher : ∀ i, Waiter.flusher i ∈ s.waiters → (∃ f ∈ s.flushers, f.id = i) ∧
    s.workerAlive = true ∧ (s.drained = true → s.Due)
  flushWaiters : s.flushWaiters = s.flushers.length
  stopping : s.stopping = s.closed
  closer : s.closer ≠ .none → s.closed = true
  inFlight : s.worker.inBatch = false → s.worker ≠ .settle → s.inFlight = 0
  busy : Busy s
  alive : s.workerAlive = !s.worker.gone

/-- A step that leaves the queue, the worker and the buffer as they are. -/
theorem Waits.frame (h : Waits cfg s) (hwaiters : t.waiters = s.waiters)
    (hworker : t.worker = s.worker) (hbuffer : t.buffer = s.buffer)
    (hflags : t.stopping = s.stopping ∧ t.closed = s.closed ∧ t.workerAlive = s.workerAlive)
    (hinFlight : t.inFlight = s.inFlight) (hflushers : t.flushers = s.flushers)
    (hcount : t.flushWaiters = s.flushWaiters) (hcloser : t.closer ≠ .none → t.closed = true) :
    Waits cfg t := by
  obtain ⟨hstopping, hclosed, halive⟩ := hflags
  have hdrained : t.drained = s.drained := by
    rw [State.drained, State.drained, State.isDrained, State.isDrained, halive, hbuffer, hinFlight]
  have hdue : s.Due → t.Due := by
    rintro (hnotifying | hleaving)
    · exact .inl (by rwa [State.Notifying, hworker])
    · refine .inr ⟨hclosed.trans hleaving.closed, hstopping.trans hleaving.stopping,
        hbuffer.trans hleaving.buffer, ?_⟩
      rw [hworker, hwaiters]
      exact hleaving.worker
  refine ⟨hwaiters ▸ h.nodup, ?_, ?_, ?_, ?_, ?_, ?_, hcloser, ?_, ?_, ?_⟩
  · rw [hwaiters, hworker]
    exact h.worker
  · rw [hwaiters, hworker, hbuffer, hstopping]
    exact h.idle
  · rw [hwaiters, hworker, hbuffer, hstopping, hflushers]
    exact h.linger
  · intro i hi
    rw [hwaiters] at hi
    obtain ⟨hmem, hlive, hd⟩ := h.flusher i hi
    refine ⟨hflushers ▸ hmem, halive.trans hlive, fun ht => hdue (hd (hdrained.symm.trans ht))⟩
  · rw [hcount, hflushers]
    exact h.flushWaiters
  · rw [hstopping, hclosed]
    exact h.stopping
  · rw [hworker, hinFlight]
    exact h.inFlight
  · intro hin
    rw [State.pendingCount, hworker]
    rw [hworker] at hin
    exact h.busy hin
  · rw [halive, hworker]
    exact h.alive

/-- After a block that notifies everyone. -/
theorem Waits.cleared (hwaiters : t.waiters = []) (hcount : t.flushWaiters = t.flushers.length)
    (hstopping : t.stopping = t.closed) (hcloser : t.closer ≠ .none → t.closed = true)
    (hinFlight : t.worker.inBatch = false → t.worker ≠ .settle → t.inFlight = 0) (hbusy : Busy t)
    (halive : t.workerAlive = !t.worker.gone) : Waits cfg t := by
  have hnot : ∀ w, w ∉ t.waiters := by
    intro w hw
    rw [hwaiters] at hw
    cases hw
  exact ⟨hwaiters ▸ List.nodup_nil, fun hw => absurd hw (hnot _), fun _ hw => absurd hw (hnot _),
    fun _ _ hw => absurd hw (hnot _), fun _ hw => absurd hw (hnot _), hcount, hstopping, hcloser,
    hinFlight, hbusy, halive⟩

theorem not_drained_of_buffer (halive : s.workerAlive = true) (h : s.buffer ≠ []) :
    ¬s.drained = true := by
  rw [State.drained, State.isDrained, halive, List.isEmpty_eq_false_iff.2 h]
  exact Bool.false_ne_true

theorem not_drained_of_inFlight (halive : s.workerAlive = true) (h : s.inFlight ≠ 0) :
    ¬s.drained = true := by
  rw [State.drained, State.isDrained, halive, beq_eq_false_iff_ne.2 h, Bool.and_false]
  exact Bool.false_ne_true

/-- A flush finds the client drained that has nothing in the buffer and nothing in flight. -/
theorem drained_of_empty (hbuffer : s.buffer = []) (hinFlight : s.inFlight = 0) :
    s.drained = true := by
  rw [State.drained, State.isDrained, hbuffer, hinFlight]
  exact Bool.or_true _

/-- **A record** that is accepted notifies the longest waiter: the worker, if it waits. -/
theorem Waits.offer (h : Waits cfg s) (v : Value ρ) : Waits cfg (offer cfg s v).1 := by
  cases v with
  | other => exact h.frame rfl rfl rfl ⟨rfl, rfl, rfl⟩ rfl rfl rfl h.closer
  | record r =>
    simp only [Emitter.offer]
    split_ifs
    · exact h.frame rfl rfl rfl ⟨rfl, rfl, rfl⟩ rfl rfl rfl h.closer
    · exact h.frame rfl rfl rfl ⟨rfl, rfl, rfl⟩ rfl rfl rfl h.closer
    · refine ⟨h.nodup.tail, fun hw => h.worker (List.mem_of_mem_tail hw), fun hidle hw => ?_,
        fun d hlinger hw => ?_, fun i hi => ?_, h.flushWaiters, h.stopping, h.closer, h.inFlight,
        h.busy, h.alive⟩
      · have hall := (h.idle hidle (List.mem_of_mem_tail hw)).1
        rw [State.notify, hall] at hw
        cases hw
      · have hall := (h.linger d hlinger (List.mem_of_mem_tail hw)).1
        rw [State.notify, hall] at hw
        cases hw
      · obtain ⟨hmem, halive, -⟩ := h.flusher i (List.mem_of_mem_tail hi)
        have hne : s.buffer ++ [r] ≠ [] := by simp
        exact ⟨hmem, halive, fun hd => absurd hd (not_drained_of_buffer halive hne)⟩

/-- A flush notifies everyone before it waits. -/
theorem Waits.flushEnter (h : Waits cfg s) (i : ℕ) (timed : Bool) :
    Waits cfg (flushEnter s i timed).1 := by
  simp only [Emitter.flushEnter]
  split_ifs with hdrained
  · exact .cleared rfl h.flushWaiters h.stopping h.closer h.inFlight h.busy h.alive
  · have halive : s.workerAlive = true := by
      by_contra hdead
      exact hdrained (by rw [State.drained, Bool.eq_false_iff.2 hdead]; rfl)
    refine ⟨List.nodup_singleton _, by simp, by simp, by simp, fun j hj => ?_, ?_, h.stopping,
      h.closer, h.inFlight, h.busy, h.alive⟩
    · obtain rfl : j = i := by simpa using hj
      exact ⟨⟨_, List.mem_cons_self, rfl⟩, halive, fun hd => absurd hd hdrained⟩
    · show s.flushWaiters + 1 = s.flushers.length + 1
      rw [h.flushWaiters]

/-- A state with another queue, and the same worker, is due if it was. -/
theorem State.Due.of_waiters (h : s.Due) (hworker : t.worker = s.worker)
    (hbuffer : t.buffer = s.buffer) (hflags : t.stopping = s.stopping ∧ t.closed = s.closed)
    (hwaiters : Waiter.worker ∈ t.waiters → Waiter.worker ∈ s.waiters) : t.Due := by
  rcases h with hnotifying | hleaving
  · exact .inl (by rwa [State.Notifying, hworker])
  · refine .inr ⟨hflags.2.trans hleaving.closed, hflags.1.trans hleaving.stopping,
      hbuffer.trans hleaving.buffer, ?_⟩
    rw [hworker]
    rcases hleaving.worker with hw | ⟨hw, hnot⟩ | hw
    · exact .inl hw
    · exact .inr (.inl ⟨hw, fun hmem => hnot (hwaiters hmem)⟩)
    · exact .inr (.inr hw)

/-- A flush that returns. -/
theorem Waits.flushReturn (h : Waits cfg s) {f : Flusher} (hf : f ∈ s.flushers) :
    Waits cfg { s with
      flushWaiters := s.flushWaiters - 1
      waiters := s.waiters.erase (.flusher f.id)
      flushers := s.flushers.erase f } := by
  refine ⟨h.nodup.erase _, fun hw => h.worker (List.mem_of_mem_erase hw), fun hidle hw => ?_,
    fun d hlinger hw => ?_, fun i hi => ?_, ?_, h.stopping, h.closer, h.inFlight, h.busy, h.alive⟩
  · obtain ⟨hall, hrest⟩ := h.idle hidle (List.mem_of_mem_erase hw)
    refine ⟨?_, hrest⟩
    show s.waiters.erase _ = _
    rw [hall]
    rfl
  · obtain ⟨-, hnone, -⟩ := h.linger d hlinger (List.mem_of_mem_erase hw)
    rw [hnone] at hf
    cases hf
  · obtain ⟨hne, hmem⟩ := h.nodup.mem_erase_iff.1 hi
    obtain ⟨⟨g, hg, rfl⟩, halive, hdue⟩ := h.flusher i hmem
    have hfg : g ≠ f := by
      rintro rfl
      exact hne rfl
    exact ⟨⟨g, (List.mem_erase_of_ne hfg).2 hg, rfl⟩, halive, fun hd =>
      (hdue hd).of_waiters rfl rfl ⟨rfl, rfl⟩ List.mem_of_mem_erase⟩
  · show s.flushWaiters - 1 = (s.flushers.erase f).length
    rw [h.flushWaiters, List.length_erase_of_mem hf]

/-- A flush that waits again. -/
theorem Waits.flushAgain (h : Waits cfg s) {f : Flusher} (hf : f ∈ s.flushers)
    (hdrained : ¬s.drained = true) :
    Waits cfg { s with waiters := s.waiters.erase (.flusher f.id) ++ [.flusher f.id] } := by
  have halive : s.workerAlive = true := by
    by_contra hdead
    exact hdrained (by rw [State.drained, Bool.eq_false_iff.2 hdead]; rfl)
  have hworker : Waiter.worker ∈ s.waiters.erase (.flusher f.id) ++ [.flusher f.id] →
      Waiter.worker ∈ s.waiters := by
    intro hw
    rcases List.mem_append.1 hw with hw | hw
    · exact List.mem_of_mem_erase hw
    · cases List.mem_singleton.1 hw
  refine ⟨?_, fun hw => h.worker (hworker hw), fun hidle hw => ?_, fun d hlinger hw => ?_,
    fun i hi => ⟨?_, halive, fun hd => absurd hd hdrained⟩, h.flushWaiters, h.stopping, h.closer,
    h.inFlight, h.busy, h.alive⟩
  · refine List.nodup_append.2 ⟨h.nodup.erase _, List.nodup_singleton _, ?_⟩
    rintro w hw v hv rfl
    obtain rfl := List.mem_singleton.1 hv
    exact (h.nodup.mem_erase_iff.1 hw).1 rfl
  · -- a worker that waits for a first record has nothing in flight
    obtain ⟨-, hbuffer, -⟩ := h.idle hidle (hworker hw)
    have hidle : s.worker = .idle := hidle
    exact absurd (drained_of_empty hbuffer (h.inFlight (by rw [hidle]; rfl) (by simp [hidle])))
      hdrained
  · obtain ⟨-, hnone, -⟩ := h.linger d hlinger (hworker hw)
    rw [hnone] at hf
    cases hf
  · rcases List.mem_append.1 hi with hi | hi
    · exact (h.flusher i (List.mem_of_mem_erase hi)).1
    · obtain rfl : i = f.id := by simpa using hi
      exact ⟨f, hf, rfl⟩

/-- A flush that wakes returns, or waits again for what is not drained yet. -/
theorem Waits.flushWake (h : Waits cfg s) {f : Flusher} (hf : f ∈ s.flushers) (late : Bool) :
    Waits cfg (flushWake s f late).1 := by
  simp only [Emitter.flushWake]
  split_ifs with hdrained
  · exact h.flushReturn hf
  · exact h.flushAgain hf fun hd => hdrained (.inl hd)

/-- The block of `close` that abandons the buffer notifies nobody; the worker is going to. -/
theorem Waits.abandon (h : Waits cfg s) (hpending : s.pendingCount ≤ s.inFlight) (hc : s.closer = .timedOut) :
    Waits cfg (abandon s).1 := by
  have hclosed : s.closed = true := h.closer (by simp [hc])
  have hstopping : s.stopping = true := h.stopping.trans hclosed
  refine ⟨h.nodup, h.worker, fun hidle hw => ?_, fun d hlinger hw => ?_, fun i hi => ?_,
    h.flushWaiters, h.stopping, fun _ => hclosed, h.inFlight, h.busy, h.alive⟩
  · have hopen := (h.idle hidle hw).2.2
    rw [hstopping] at hopen
    cases hopen
  · have hopen := (h.linger d hlinger hw).2.2.1
    rw [hstopping] at hopen
    cases hopen
  · obtain ⟨hmem, halive, hdue⟩ := h.flusher i hi
    refine ⟨hmem, halive, fun hd => ?_⟩
    have hzero : s.inFlight = 0 := by
      by_contra hne
      exact absurd hd (not_drained_of_inFlight halive hne)
    have hidle : s.worker.inBatch = false := by
      by_contra hin
      have hbusy := h.busy (Bool.not_eq_false _ ▸ hin)
      omega
    have hgone : s.worker.gone = false := by
      rw [h.alive, Bool.not_eq_true'] at halive
      exact halive
    have hleaving : ∀ hw, State.Due (Emitter.abandon s).1 := fun hw =>
      .inr ⟨hclosed, hstopping, rfl, hw⟩
    cases hw : s.worker with
    | nextBatch => exact hleaving (.inl hw)
    | idle =>
      refine hleaving (.inr (.inl ⟨hw, fun hmem => ?_⟩))
      have hopen := (h.idle hw hmem).2.2
      rw [hstopping] at hopen
      cases hopen
    | linger d => exact hleaving (.inr (.inr ⟨d, hw⟩))
    | settle => exact .inl (.inl hw)
    | exit => exact .inl (.inr hw)
    | deliver | inSink | count =>
      rw [hw] at hidle
      cases hidle
    | closeSink | closing | stopped =>
      rw [hw] at hgone
      cases hgone

/-! ### The blocks of the worker -/

theorem takeBatch_worker (cfg : Config) (s : State ρ) :
    (takeBatch cfg s).worker = .settle ∨
      (∃ batch, (takeBatch cfg s).worker = .deliver batch) ∧ (takeBatch cfg s).inFlight ≠ 0 := by
  have hpos := cfg.batchSize_pos
  simp only [takeBatch]
  split_ifs with hempty
  · exact .inl rfl
  · refine .inr ⟨⟨_, rfl⟩, fun hzero => hempty ?_⟩
    rw [hzero]
    rfl

/-- A batch is taken, or found empty and settled. -/
theorem Waits.takeBatch (h : Waits cfg s) (hnot : Waiter.worker ∉ s.waiters)
    (hgone : s.worker.gone = false) : Waits cfg (takeBatch cfg s) := by
  have hout : ∀ w : Worker ρ, w.inBatch = false → w ≠ .settle →
      (Emitter.takeBatch cfg s).worker ≠ w := by
    rintro w hw hne rfl
    rcases takeBatch_worker cfg s with hsettle | ⟨⟨batch, hdeliver⟩, -⟩
    · exact hne hsettle
    · rw [hdeliver] at hw
      cases hw
  refine ⟨h.nodup, fun hw => absurd hw hnot, fun _ hw => absurd hw hnot,
    fun _ _ hw => absurd hw hnot, fun i hi => ?_, h.flushWaiters, h.stopping, h.closer,
    fun hin hne => absurd rfl (hout _ hin hne), busy_takeBatch cfg s, ?_⟩
  · obtain ⟨hmem, halive, -⟩ := h.flusher i hi
    refine ⟨hmem, halive, fun hd => ?_⟩
    rcases takeBatch_worker cfg s with hsettle | ⟨-, hne⟩
    · exact .inl (.inl hsettle)
    · exact absurd hd (not_drained_of_inFlight halive hne)
  · have hlive : s.workerAlive = true := by rw [h.alive, hgone]; rfl
    show s.workerAlive = _
    rw [hlive]
    rcases takeBatch_worker cfg s with hsettle | ⟨⟨batch, hdeliver⟩, -⟩
    · rw [hsettle]
      rfl
    · rw [hdeliver]
      rfl

/-- A worker that begins to wait is alone in the queue: a flush that waits has something to wait
for. -/
theorem Waits.wait (h : Waits cfg s) {w : Worker ρ}
    (hgone : s.worker.gone = false) (hzero : s.inFlight = 0)
    (hwaiters : s.waiters = []) (hstopping : s.stopping = false)
    (hw : w = .idle ∧ s.buffer = [] ∨
      (∃ d, w = .linger d) ∧ s.flushers = [] ∧ s.buffer.length < cfg.batchSize) :
    Waits cfg { s with worker := w, waiters := s.waiters ++ [.worker] } := by
  have hlive : s.workerAlive = true := by rw [h.alive, hgone]; rfl
  have hall : s.waiters ++ [Waiter.worker] = [.worker] := by rw [hwaiters]; rfl
  refine ⟨?_, fun _ => ?_, fun hidle _ => ⟨hall, ?_, hstopping⟩, fun d hlinger _ => ?_,
    fun i hi => ?_, h.flushWaiters, h.stopping, h.closer, fun _ _ => hzero, ?_, ?_⟩
  · show (s.waiters ++ [Waiter.worker]).Nodup
    rw [hall]
    exact List.nodup_singleton _
  · exact hw.imp (·.1) (·.1)
  · rcases hw with ⟨-, hbuffer⟩ | ⟨⟨d, rfl⟩, -⟩
    · exact hbuffer
    · cases hidle
  · rcases hw with ⟨rfl, -⟩ | ⟨-, hflushers, hlength⟩
    · cases hlinger
    · exact ⟨hall, hflushers, hstopping, hlength⟩
  · have hi : Waiter.flusher i ∈ s.waiters ++ [Waiter.worker] := hi
    rw [hall] at hi
    cases List.mem_singleton.1 hi
  · rcases hw with ⟨rfl, -⟩ | ⟨⟨d, rfl⟩, -⟩
    · exact busy_of_not rfl rfl
    · exact busy_of_not rfl rfl
  · rcases hw with ⟨rfl, -⟩ | ⟨⟨d, rfl⟩, -⟩
    · exact hlive
    · exact hlive

/-- A worker whose wait ends is in the queue no more. -/
theorem Waits.leave (h : Waits cfg s) : Waits cfg { s with waiters := s.waiters.erase .worker } := by
  have hnot : Waiter.worker ∉ s.waiters.erase .worker := h.nodup.not_mem_erase
  refine ⟨h.nodup.erase _, fun hw => absurd hw hnot, fun _ hw => absurd hw hnot,
    fun _ _ hw => absurd hw hnot, fun i hi => ?_, h.flushWaiters, h.stopping, h.closer, h.inFlight,
    h.busy, h.alive⟩
  obtain ⟨hmem, halive, hdue⟩ := h.flusher i (List.mem_of_mem_erase hi)
  exact ⟨hmem, halive, fun hd => (hdue hd).of_waiters rfl rfl ⟨rfl, rfl⟩ List.mem_of_mem_erase⟩

/-- The linger loop waits only for what no flush, no close and no full batch is there for. -/
theorem Waits.lingerLoop (h : Waits cfg s) (hnot : Waiter.worker ∉ s.waiters)
    (hgone : s.worker.gone = false) (hzero : s.inFlight = 0) (deadline now : ℚ) :
    Waits cfg (lingerLoop cfg s deadline now) := by
  unfold Emitter.lingerLoop
  split_ifs with hwait
  · obtain ⟨hlength, hstopping, hcount, -⟩ := hwait
    have hflushers : s.flushers = [] := by
      rw [← List.length_eq_zero_iff, ← h.flushWaiters, hcount]
    refine h.wait hgone hzero ?_ hstopping (.inr ⟨⟨deadline, rfl⟩, hflushers, hlength⟩)
    rw [List.eq_nil_iff_forall_not_mem]
    rintro (_ | i) hi
    · exact hnot hi
    · obtain ⟨⟨f, hf, -⟩, -⟩ := h.flusher i hi
      rw [hflushers] at hf
      cases hf
  · exact h.takeBatch hnot hgone

theorem Waits.nextBatch (h : Waits cfg s) (hnot : Waiter.worker ∉ s.waiters)
    (hworker : s.worker = .nextBatch ∨ s.worker = .idle) (start now : ℚ) :
    Waits cfg (nextBatch cfg s start now) := by
  have hgone : s.worker.gone = false := by
    rcases hworker with hw | hw <;> rw [hw] <;> rfl
  have hzero : s.inFlight = 0 := by
    rcases hworker with hw | hw <;> exact h.inFlight (by rw [hw]; rfl) (by simp [hw])
  unfold Emitter.nextBatch
  split_ifs with hempty hstopping
  · -- the worker leaves its loop, and notifies everyone there
    exact ⟨h.nodup, fun hw => absurd hw hnot, fun _ hw => absurd hw hnot,
      fun _ _ hw => absurd hw hnot,
      fun i hi => ⟨(h.flusher i hi).1, (h.flusher i hi).2.1, fun _ => .inl (.inr rfl)⟩,
      h.flushWaiters, h.stopping, h.closer, fun _ _ => hzero, busy_of_not rfl rfl,
      h.alive.trans (by rw [hgone]; rfl)⟩
  · have hbuffer := List.isEmpty_iff.1 hempty
    have hstopping : s.stopping = false := Bool.eq_false_iff.2 hstopping
    refine h.wait hgone hzero ?_ hstopping (.inl ⟨rfl, hbuffer⟩)
    rw [List.eq_nil_iff_forall_not_mem]
    rintro (_ | i) hi
    · exact hnot hi
    · -- a flush that waits is not drained, or the client is stopping
      rcases (h.flusher i hi).2.2 (drained_of_empty hbuffer hzero) with (hw | hw) | hleaving
      · rcases hworker with hw' | hw' <;> cases hw.symm.trans hw'
      · rcases hworker with hw' | hw' <;> cases hw.symm.trans hw'
      · exact absurd (hleaving.stopping.symm.trans hstopping) (by simp)
  · exact h.lingerLoop hnot hgone hzero _ now
  · exact h.takeBatch hnot hgone

/-- A worker at a batch goes on with it. -/
theorem Waits.atBatch (h : Waits cfg s) (hin : s.worker.inBatch = true)
    (hworker : t.worker.inBatch = true ∨ t.worker = .settle) (hwaiters : t.waiters = s.waiters)
    (hbuffer : t.buffer = s.buffer)
    (hflags : t.stopping = s.stopping ∧ t.closed = s.closed ∧ t.workerAlive = s.workerAlive)
    (hinFlight : t.inFlight = s.inFlight) (hflushers : t.flushers = s.flushers)
    (hcount : t.flushWaiters = s.flushWaiters) (hcloser : t.closer = s.closer) (hbusy : Busy t) :
    Waits cfg t := by
  obtain ⟨hstopping, hclosed, halive⟩ := hflags
  have hnot : Waiter.worker ∉ t.waiters := by
    rw [hwaiters]
    intro hmem
    rcases h.worker hmem with hw | ⟨d, hw⟩ <;> rw [hw] at hin <;> cases hin
  have hdrained : t.drained = s.drained := by
    rw [State.drained, State.drained, State.isDrained, State.isDrained, halive, hbuffer, hinFlight]
  have hgone : t.worker.gone = false ∧ s.worker.gone = false := by
    constructor
    · rcases hworker with hw | hw
      · cases hworker' : t.worker <;> rw [hworker'] at hw <;> first | rfl | cases hw
      · rw [hw]
        rfl
    · cases hworker' : s.worker <;> rw [hworker'] at hin <;> first | rfl | cases hin
  refine ⟨hwaiters ▸ h.nodup, fun hw => absurd hw hnot, fun _ hw => absurd hw hnot,
    fun _ _ hw => absurd hw hnot, fun i hi => ?_, ?_, ?_, ?_, fun hout hne => ?_, hbusy, ?_⟩
  · rw [hwaiters] at hi
    obtain ⟨hmem, hlive, hdue⟩ := h.flusher i hi
    refine ⟨hflushers ▸ hmem, halive.trans hlive, fun hd => ?_⟩
    -- the batch is in flight: nothing is drained
    rcases hdue (hdrained.symm.trans hd) with (hw | hw) | hleaving
    · rw [hw] at hin
      cases hin
    · rw [hw] at hin
      cases hin
    · rcases hleaving.worker with hw | ⟨hw, -⟩ | ⟨d, hw⟩ <;> rw [hw] at hin <;> cases hin
  · rw [hcount, hflushers]
    exact h.flushWaiters
  · rw [hstopping, hclosed]
    exact h.stopping
  · rw [hcloser, hclosed]
    exact h.closer
  · rcases hworker with hw | hw
    · rw [hw] at hout
      cases hout
    · exact absurd hw hne
  · rw [halive, h.alive, hgone.1, hgone.2]

/-- A worker that is gone has left no flush in the queue. -/
theorem Waits.closing (h : Waits cfg s) (hgone : s.worker.gone = true)
    (hworker : t.worker.gone = true) (hwaiters : t.waiters = s.waiters)
    (hflags : t.stopping = s.stopping ∧ t.closed = s.closed ∧ t.workerAlive = s.workerAlive)
    (hinFlight : t.inFlight = s.inFlight) (hflushers : t.flushers = s.flushers)
    (hcount : t.flushWaiters = s.flushWaiters) (hcloser : t.closer = s.closer) : Waits cfg t := by
  obtain ⟨hstopping, hclosed, halive⟩ := hflags
  have hdead : s.workerAlive = false := by rw [h.alive, hgone]; rfl
  have hempty : s.waiters = [] := by
    rw [List.eq_nil_iff_forall_not_mem]
    rintro (_ | i) hi
    · rcases h.worker hi with hw | ⟨d, hw⟩ <;> rw [hw] at hgone <;> cases hgone
    · exact absurd (hdead.symm.trans (h.flusher i hi).2.1) Bool.false_ne_true
  have hout : ∀ w : Worker ρ, w.gone = true → w.inBatch = false ∧ w ≠ .settle := by
    intro w hw
    cases w with
    | closeSink | closing | stopped => exact ⟨rfl, by simp⟩
    | _ => cases hw
  refine .cleared (hwaiters.trans hempty) ?_ ?_ ?_ (fun _ _ => ?_) ?_ ?_
  · rw [hcount, hflushers]
    exact h.flushWaiters
  · rw [hstopping, hclosed]
    exact h.stopping
  · rw [hcloser, hclosed]
    exact h.closer
  · rw [hinFlight]
    exact h.inFlight (hout _ hgone).1 (hout _ hgone).2
  · exact busy_of_not rfl (hout _ hworker).1
  · rw [halive, hdead, hworker]
    rfl

/-- **A step** keeps the queue in order. -/
theorem step_waits {evs : List (Event ρ)} (h : Waits cfg s) (hb : Bounded cfg evs s)
    (ha : a ≠ .sinkReturns .fatal) (hstep : Step cfg s a t e) : Waits cfg t := by
  cases hstep with
  | offer v => exact h.offer v
  | stats => exact h
  | flushEnter i timed => exact h.flushEnter i timed
  | flushWake f late hf => exact h.flushWake hf late
  | closeBegin onWorker =>
    simp only [closeBegin]
    split_ifs
    · exact h
    · exact .cleared rfl h.flushWaiters rfl (fun _ => rfl) h.inFlight h.busy h.alive
    · exact .cleared rfl h.flushWaiters rfl (fun _ => rfl) h.inFlight h.busy h.alive
  | joined hc hw =>
    exact h.frame rfl rfl rfl ⟨rfl, rfl, rfl⟩ rfl rfl rfl fun _ => h.closer (by simp [hc])
  | joinTimedOut hc hw =>
    exact h.frame rfl rfl rfl ⟨rfl, rfl, rfl⟩ rfl rfl rfl fun _ => h.closer (by simp [hc])
  | abandon hc => exact h.abandon hb.pending hc
  | acquire start now hw =>
    refine h.nextBatch (fun hmem => ?_) (.inl hw) start now
    rcases h.worker hmem with hw' | ⟨d, hw'⟩ <;> cases hw.symm.trans hw'
  | wakeIdle start now hw hn => exact h.nextBatch hn (.inr hw) start now
  | wakeLinger start now d hw =>
    exact h.leave.lingerLoop h.nodup.not_mem_erase (by rw [hw]; rfl)
      (h.inFlight (by rw [hw]; rfl) (by simp [hw])) d now
  | handOver todo hw =>
    exact h.atBatch (by rw [hw]; rfl) (.inl rfl) rfl rfl ⟨rfl, rfl, rfl⟩ rfl rfl rfl rfl
      (step_busy h.busy (.handOver todo hw))
  | sinkEnds n todo o hw ho =>
    have hends : Step cfg s _ _ _ := .sinkEnds n todo o hw ho
    exact h.atBatch (by rw [hw]; rfl) (.inl rfl) rfl rfl ⟨rfl, rfl, rfl⟩ rfl rfl rfl rfl
      (step_busy h.busy hends)
  | sinkDies => exact absurd rfl ha
  | count ok n todo hw =>
    have hcount : Step cfg s _ _ _ := .count ok n todo hw
    have hbusy := step_busy h.busy hcount
    have hworker : (count s ok n todo).1.worker.inBatch = true ∨
        (count s ok n todo).1.worker = .settle := by
      cases ok <;> cases todo <;> first | exact .inl rfl | exact .inr rfl
    cases ok with
    | true =>
      exact h.atBatch (by rw [hw]; rfl) hworker rfl rfl ⟨rfl, rfl, rfl⟩ rfl rfl rfl rfl hbusy
    | false =>
      exact h.atBatch (by rw [hw]; rfl) hworker rfl rfl ⟨rfl, rfl, rfl⟩ rfl rfl rfl rfl hbusy
  | settle hw =>
    refine .cleared rfl h.flushWaiters h.stopping h.closer (fun _ _ => rfl) (busy_of_not rfl rfl) ?_
    exact h.alive.trans (by rw [hw]; rfl)
  | finish hw =>
    exact .cleared rfl h.flushWaiters h.stopping h.closer (fun _ _ => rfl) (busy_of_not rfl rfl) rfl
  | closeSink hw =>
    simp only [closeSink]
    split_ifs <;> exact h.closing (by rw [hw]; rfl) rfl rfl ⟨rfl, rfl, rfl⟩ rfl rfl rfl rfl
  | sinkCloseReturns o hw =>
    exact h.closing (by rw [hw]; rfl) rfl rfl ⟨rfl, rfl, rfl⟩ rfl rfl rfl rfl

theorem run_waits {as : List (Action ρ)} {evs : List (Event ρ)}
    (h : (emitter ρ cfg).run (.init ρ) as = some (s, evs)) (hexc : OnlyExceptions as) :
    Waits cfg s := by
  have key := Machine.run_induction (M := emitter ρ cfg)
    (I := fun as evs s => Bounded cfg evs s ∧ (OnlyExceptions as → Waits cfg s))
    ⟨run_bounded (rfl : (emitter ρ cfg).run (.init ρ) [] = some (.init ρ, [])),
      fun _ => .cleared rfl rfl rfl (fun hc => absurd rfl hc) (fun _ _ => rfl)
        (busy_of_not rfl rfl) rfl⟩
    (fun as evs s a t e ih hstep => ⟨step_bounded ih.1 hstep, fun hexc =>
      step_waits (ih.2 (onlyExceptions_snoc.1 hexc).1) ih.1 (onlyExceptions_snoc.1 hexc).2
        (step_cases hstep)⟩) h
  exact key.2 hexc

/-! ### Who is due is notified -/

/-- What the other threads leave to the worker. -/
structure Leaves (s t : State ρ) : Prop where
  worker : t.worker = s.worker
  closed : s.closed = true → t.closed = true
  stopping : s.stopping = true → t.stopping = true
  buffer : s.closed = true → s.buffer = [] → t.buffer = []
  waiters : Waiter.worker ∈ t.waiters → Waiter.worker ∈ s.waiters

theorem Leaves.refl (s : State ρ) : Leaves s s := ⟨rfl, id, id, fun _ => id, id⟩

/-- **A step of another thread** leaves the worker where it is. -/
theorem step_leaves (h : Step cfg s a t e) (ha : a.byWorker = false) : Leaves s t := by
  cases h with
  | offer v =>
    cases v with
    | other => exact ⟨rfl, id, id, fun _ => id, id⟩
    | record r =>
      simp only [offer]
      split_ifs with hclosed
      · exact ⟨rfl, id, id, fun _ => id, id⟩
      · exact ⟨rfl, id, id, fun _ => id, id⟩
      · exact ⟨rfl, id, id, fun hc => absurd hc hclosed, List.mem_of_mem_tail⟩
  | flushEnter i timed =>
    simp only [flushEnter]
    split_ifs
    · exact ⟨rfl, id, id, fun _ => id, by simp [State.notifyAll]⟩
    · exact ⟨rfl, id, id, fun _ => id, by simp⟩
  | flushWake f late =>
    simp only [flushWake]
    split_ifs
    · exact ⟨rfl, id, id, fun _ => id, List.mem_of_mem_erase⟩
    · refine ⟨rfl, id, id, fun _ => id, fun hmem => ?_⟩
      rcases List.mem_append.1 hmem with hmem | hmem
      · exact List.mem_of_mem_erase hmem
      · cases List.mem_singleton.1 hmem
  | closeBegin onWorker =>
    simp only [closeBegin]
    split_ifs
    · exact .refl s
    · exact ⟨rfl, fun _ => rfl, fun _ => rfl, fun _ => id, by simp [State.notifyAll]⟩
    · exact ⟨rfl, fun _ => rfl, fun _ => rfl, fun _ => id, by simp [State.notifyAll]⟩
  | abandon => exact ⟨rfl, id, id, fun _ _ => rfl, id⟩
  | stats | joined | joinTimedOut => exact ⟨rfl, id, id, fun _ => id, id⟩
  | _ => cases ha

/-- Before a block that notifies everyone: the worker's next step is that block. -/
theorem State.Notifying.step (h : s.Notifying) (hstep : Step cfg s a t e) :
    (a.byWorker = true → t.waiters = []) ∧ (a.byWorker = false → t.Notifying) := by
  refine ⟨fun ha => ?_, fun ha => ?_⟩
  · cases hstep with
    | settle | finish => rfl
    | acquire _ _ hw | wakeIdle _ _ hw | wakeLinger _ _ _ hw | handOver _ hw | sinkEnds _ _ _ hw
    | sinkDies _ _ hw | count _ _ _ hw | closeSink hw | sinkCloseReturns _ hw =>
      rcases h with hw' | hw' <;> cases hw.symm.trans hw'
    | _ => cases ha
  · rwa [State.Notifying, (step_leaves hstep ha).worker]

/-- Where the worker leaves its loop, its next step is before such a block. -/
theorem State.Leaving.step (h : s.Leaving) (hstep : Step cfg s a t e) :
    (a.byWorker = true → t.Notifying) ∧ (a.byWorker = false → t.Leaving) := by
  have hnext : ∀ start now, (nextBatch cfg s start now).Notifying := by
    intro start now
    rw [nextBatch, h.buffer, h.stopping]
    exact .inr rfl
  refine ⟨fun ha => ?_, fun ha => ?_⟩
  · cases hstep with
    | acquire start now => exact hnext start now
    | wakeIdle start now => exact hnext start now
    | wakeLinger start now d =>
      -- the loop ends at once, and an empty batch is settled
      simp only [lingerLoop, h.stopping, Bool.true_eq_false, false_and, and_false, if_false,
        takeBatch, h.buffer]
      exact .inl rfl
    | handOver _ hw | sinkEnds _ _ _ hw | sinkDies _ _ hw | count _ _ _ hw | settle hw | finish hw
    | closeSink hw | sinkCloseReturns _ hw =>
      rcases h.worker with hw' | ⟨hw', -⟩ | ⟨d, hw'⟩ <;> cases hw.symm.trans hw'
    | _ => cases ha
  · have hleaves := step_leaves hstep ha
    refine ⟨hleaves.closed h.closed, hleaves.stopping h.stopping, hleaves.buffer h.closed h.buffer, ?_⟩
    rw [hleaves.worker]
    exact h.worker.imp_right (.imp_left fun hidle =>
      ⟨hidle.1, fun hmem => hidle.2 (hleaves.waiters hmem)⟩)

/-- Everyone was notified at some point of a run. -/
def NotifiedIn (cfg : Config) (s : State ρ) (as : List (Action ρ)) : Prop :=
  ∃ bs u fs, bs <+: as ∧ (emitter ρ cfg).run s bs = some (u, fs) ∧ u.waiters = []

/-- The worker can go on, and when it has taken two steps, whatever the others do in between,
everyone was notified. -/
structure Notifies (cfg : Config) (s : State ρ) : Prop where
  enabled : ∃ a t e, Action.byWorker a = true ∧ step cfg s a = some (t, e)
  notified : ∀ as t es, (emitter ρ cfg).run s as = some (t, es) →
    2 ≤ as.countP Action.byWorker → NotifiedIn cfg s as

theorem NotifiedIn.cons {as : List (Action ρ)} (hstep : step cfg s a = some (t, e))
    (h : NotifiedIn cfg t as) : NotifiedIn cfg s (a :: as) := by
  obtain ⟨bs, u, fs, hprefix, hrun, hempty⟩ := h
  exact ⟨a :: bs, u, _, List.cons_prefix_cons.2 ⟨rfl, hprefix⟩,
    Machine.run_cons.2 ⟨t, e, fs, hstep, hrun, rfl⟩, hempty⟩

theorem notified_of_notifying (h : s.Notifying) {as : List (Action ρ)} {es : List (Event ρ)}
    (hrun : (emitter ρ cfg).run s as = some (t, es)) (hcount : 1 ≤ as.countP Action.byWorker) :
    NotifiedIn cfg s as := by
  induction as generalizing s es with
  | nil => cases hcount
  | cons a as ih =>
    obtain ⟨u, e, fs, hstep, hrest, -⟩ := Machine.run_cons.1 hrun
    have hnext := h.step (step_cases hstep)
    cases hworker : a.byWorker with
    | true =>
      exact .cons hstep ⟨[], u, [], List.nil_prefix, rfl, hnext.1 hworker⟩
    | false =>
      rw [List.countP_cons, hworker] at hcount
      exact .cons hstep (ih (hnext.2 hworker) hrest hcount)

theorem notified_of_due (h : s.Due) {as : List (Action ρ)} {es : List (Event ρ)}
    (hrun : (emitter ρ cfg).run s as = some (t, es)) (hcount : 2 ≤ as.countP Action.byWorker) :
    NotifiedIn cfg s as := by
  rcases h with h | h
  · exact notified_of_notifying h hrun (by omega)
  · induction as generalizing s es with
    | nil => cases hcount
    | cons a as ih =>
      obtain ⟨u, e, fs, hstep, hrest, -⟩ := Machine.run_cons.1 hrun
      have hnext := h.step (step_cases hstep)
      rw [List.countP_cons] at hcount
      cases hworker : a.byWorker with
      | true =>
        rw [hworker, if_pos rfl] at hcount
        exact .cons hstep (notified_of_notifying (hnext.1 hworker) hrest (by omega))
      | false =>
        rw [hworker] at hcount
        exact .cons hstep (ih hrest hcount (hnext.2 hworker))

/-- The worker of a state that is due can go on. -/
theorem enabled_of_due (h : s.Due) :
    ∃ a t e, Action.byWorker a = true ∧ step cfg s a = some (t, e) := by
  rcases h with (hw | hw) | h
  · exact ⟨.settle, _, _, rfl, by rw [step, hw]⟩
  · exact ⟨.finish, _, _, rfl, by rw [step, hw]⟩
  · rcases h.worker with hw | ⟨hw, hnot⟩ | ⟨d, hw⟩
    · exact ⟨.acquire 0 0, _, _, rfl, by rw [step, hw]⟩
    · exact ⟨.wake 0 0, _, _, rfl, by rw [step, hw]; exact if_neg hnot⟩
    · exact ⟨.wake 0 0, _, _, rfl, by rw [step, hw]⟩

/-- **No lost wake-up.** In every state of every run with a sink that raises only `Exception`s:

* a worker that waits for a first record, not notified, has none and is not to stop;
* one that waits for a batch to fill, not notified, is waited for by no flush, is not to stop, and
  the batch is not full;
* a flush that waits, not notified, while the client is drained, is notified by the worker within
  its next two steps, and the worker can take them;
* a flush that returns `true` has seen every record that was accepted before it began counted. -/
theorem wakeups (cfg : Config) (as : List (Action ρ)) (evs : List (Event ρ)) (s : State ρ)
    (h : (emitter ρ cfg).run (.init ρ) as = some (s, evs)) (hexc : OnlyExceptions as) :
    (s.worker = .idle → Waiter.worker ∈ s.waiters → s.buffer = [] ∧ s.stopping = false) ∧
    (∀ d, s.worker = .linger d → Waiter.worker ∈ s.waiters →
      s.flushWaiters = 0 ∧ s.stopping = false ∧ s.buffer.length < cfg.batchSize) ∧
    (∀ i, Waiter.flusher i ∈ s.waiters → s.drained = true → Notifies cfg s) ∧
    FlushesTruly cfg s := by
  have hwaits := run_waits h hexc
  refine ⟨fun hidle hw => (hwaits.idle hidle hw).2, fun d hlinger hw => ?_, fun i hi hd => ?_,
    flushesTruly h hexc⟩
  · obtain ⟨-, hflushers, hrest⟩ := hwaits.linger d hlinger hw
    refine ⟨?_, hrest⟩
    rw [hwaits.flushWaiters, hflushers]
    rfl
  · have hdue := (hwaits.flusher i hi).2.2 hd
    exact ⟨enabled_of_due hdue, fun _ _ _ hrun hcount => notified_of_due hdue hrun hcount⟩

/-- The wait of `close` ends before its worker has seen the record: the buffer is cleared, nobody is
notified, and the flush that was waiting is drained. -/
def drainedByClose : List (Action ℕ) :=
  [.offer (.record 1), .flushEnter 0 false, .closeBegin false, .flushWake 0 false, .joinTimedOut,
    .abandon]

theorem wakeups_drainedByClose :
    let cfg : Config := ⟨2, 1, 0, false, false, by decide, by decide, le_rfl⟩
    ∃ s evs, (emitter ℕ cfg).run (.init ℕ) drainedByClose = some (s, evs) ∧
      Waiter.flusher 0 ∈ s.waiters ∧ s.drained = true ∧ Notifies cfg s := by
  intro cfg
  exact ⟨_, _, rfl, by decide, rfl,
    (wakeups cfg drainedByClose _ _ rfl (by simp [drainedByClose, OnlyExceptions])).2.2.1 0
      (by decide) rfl⟩

end Tokenweir.Emitter
