import Tokenweir.Emitter.Wakeups

/-!
# The end of a closed client

Once `close` has begun, the worker drains the buffer, closes the sink and ends: it can always take a
step, and what is left of its work goes down with each one, whatever the other threads do.

* `Worker.work`, `State.work`, the steps that are left; `work_le`, their bound;
* `step_work`, a step of the worker is one of them;
* `Lively`, `run_lively`; `Lively.enabled`, the worker can go on;
* `close_completes`.
-/

namespace Tokenweir.Emitter

variable {ρ : Type} {cfg : Config} {s t : State ρ} {a : Action ρ} {e : List (Event ρ)}

/-! ### What is left to do -/

/-- The steps that are left to a worker with an empty buffer, at most. -/
def Worker.work : Worker ρ → ℕ
  | .nextBatch | .idle => 4
  | .linger _ => 6
  | .deliver todo => 6 + 4 * todo.length
  | .inSink _ todo => 8 + 4 * todo.length
  | .count _ _ todo => 7 + 4 * todo.length
  | .settle => 5
  | .exit => 3
  | .closeSink => 2
  | .closing => 1
  | .stopped => 0

/-- The steps that are left to the worker of a closed client, at most. -/
def State.work (s : State ρ) : ℕ := 7 * s.buffer.length + s.worker.work

/-- A batch is less work than the records it is made of. -/
theorem takeBatch_work (cfg : Config) (s : State ρ) :
    (takeBatch cfg s).work = 7 * s.buffer.length + 5 ∧ s.buffer = [] ∨
      (takeBatch cfg s).work + 1 ≤ 7 * s.buffer.length + 4 := by
  have hpos := cfg.batchSize_pos
  by_cases hb : s.buffer = []
  · left
    refine ⟨?_, hb⟩
    simp [takeBatch, hb, State.work, Worker.work]
  · right
    have hlength := List.length_pos_iff.2 hb
    have hne : s.buffer.take (min s.buffer.length cfg.batchSize) ≠ [] := by
      rw [← List.length_pos_iff, List.length_take]
      omega
    simp only [takeBatch, State.work, List.isEmpty_iff, hne, if_false, Worker.work,
      List.length_drop, List.length_take]
    omega

/-- A client that is to stop does not wait for a batch to fill. -/
theorem lingerLoop_of_stopping (hstopping : s.stopping = true) (deadline now : ℚ) :
    lingerLoop cfg s deadline now = takeBatch cfg s := by
  rw [lingerLoop, if_neg]
  rintro ⟨-, hno, -⟩
  rw [hstopping] at hno
  cases hno

/-- Of a client that is to stop, `_next_batch` takes a batch or returns `None`. -/
theorem nextBatch_work (hstopping : s.stopping = true) (start now : ℚ) :
    (nextBatch cfg s start now).work + 1 ≤ 7 * s.buffer.length + 4 := by
  have htake : s.buffer ≠ [] → (takeBatch cfg s).work + 1 ≤ 7 * s.buffer.length + 4 := fun hb =>
    (takeBatch_work cfg s).resolve_left fun h => hb h.2
  unfold nextBatch
  by_cases hb : s.buffer = []
  · simp [hb, hstopping, State.work, Worker.work]
  · rw [if_neg (by simpa using hb)]
    split_ifs
    · rw [lingerLoop_of_stopping hstopping]
      exact htake hb
    · exact htake hb

theorem nextBatch_flags (cfg : Config) (s : State ρ) (start now : ℚ) :
    (nextBatch cfg s start now).closed = s.closed ∧
      (nextBatch cfg s start now).stopping = s.stopping := by
  rcases nextBatch_cases cfg s start now with ⟨-, -, h⟩ | ⟨w, -, h⟩ | h <;> rw [h] <;>
    exact ⟨rfl, rfl⟩

/-- **A step** of a closed client: the worker has one step less to do, and the others leave it what
it has. -/
theorem step_work (h : Step cfg s a t e) (hclosed : s.closed = true)
    (hstopping : s.stopping = true) (hne : ∀ todo, s.worker = .deliver todo → todo ≠ []) :
    t.closed = true ∧ t.stopping = true ∧ t.work + a.byWorker.toNat ≤ s.work := by
  have same : ∀ {t : State ρ}, a.byWorker = false → t.closed = s.closed →
      t.stopping = s.stopping → t.buffer = s.buffer → t.worker = s.worker →
      t.closed = true ∧ t.stopping = true ∧ t.work + a.byWorker.toNat ≤ s.work := by
    intro t ha hc hs hb hw
    refine ⟨hc.trans hclosed, hs.trans hstopping, ?_⟩
    rw [State.work, State.work, hb, hw, ha]
    exact le_rfl
  -- a step of the worker that leaves the buffer
  have moves : ∀ {t : State ρ} {w w' : Worker ρ}, s.worker = w → t.worker = w' →
      w'.work + 1 ≤ w.work → t.closed = s.closed → t.stopping = s.stopping →
      t.buffer = s.buffer →
      t.closed = true ∧ t.stopping = true ∧ t.work + a.byWorker.toNat ≤ s.work := by
    intro t w w' hw hw' hle hc hs hb
    refine ⟨hc.trans hclosed, hs.trans hstopping, ?_⟩
    have hone : a.byWorker.toNat ≤ 1 := Bool.toNat_le _
    rw [State.work, State.work, hb, hw, hw']
    omega
  cases h with
  | offer v =>
    cases v with
    | other => exact same rfl rfl rfl rfl rfl
    | record r =>
      simp only [offer]
      rw [if_pos hclosed]
      exact same rfl rfl rfl rfl rfl
  | stats | joined | joinTimedOut => exact same rfl rfl rfl rfl rfl
  | flushEnter i timed =>
    unfold flushEnter
    split_ifs <;> exact same rfl rfl rfl rfl rfl
  | flushWake f late =>
    unfold flushWake
    split_ifs <;> exact same rfl rfl rfl rfl rfl
  | closeBegin onWorker =>
    rw [closeBegin, if_pos hclosed]
    exact same rfl rfl rfl rfl rfl
  | abandon =>
    refine ⟨hclosed, hstopping, ?_⟩
    show 7 * 0 + s.worker.work + 0 ≤ 7 * s.buffer.length + s.worker.work
    omega
  | acquire start now hw | wakeIdle start now hw =>
    obtain ⟨hc, hs⟩ := nextBatch_flags cfg s start now
    refine ⟨hc.trans hclosed, hs.trans hstopping, ?_⟩
    rw [State.work, State.work, hw]
    exact nextBatch_work hstopping start now
  | wakeLinger start now deadline hw =>
    rw [lingerLoop_of_stopping (s := { s with waiters := s.waiters.erase .worker }) hstopping]
    refine ⟨hclosed, hstopping, ?_⟩
    have hwork : s.work = 7 * s.buffer.length + 6 := by rw [State.work, hw]; rfl
    have hone : (Action.wake start now : Action ρ).byWorker.toNat = 1 := rfl
    rw [hwork, hone]
    rcases takeBatch_work cfg { s with waiters := s.waiters.erase .worker } with ⟨h, -⟩ | h
    · rw [h]
    · exact h.trans (Nat.add_le_add_left (by decide) _)
  | handOver todo hw =>
    refine moves hw rfl ?_ rfl rfl rfl
    have hpos := List.length_pos_iff.2 (hne todo hw)
    show 8 + 4 * (unhandedAfter cfg todo).length + 1 ≤ 6 + 4 * todo.length
    unfold unhandedAfter
    split_ifs
    · simp only [List.length_nil]
      omega
    · rw [List.length_drop]
      omega
  | sinkEnds n todo o hw => exact moves hw rfl (by simp [Worker.work]) rfl rfl rfl
  | sinkDies n todo hw => exact moves hw rfl (Nat.le_add_right_of_le (Nat.le_add_right 4 4)) rfl rfl rfl
  | count ok n todo hw =>
    have hflags : (count s ok n todo).1.closed = s.closed ∧
        (count s ok n todo).1.stopping = s.stopping ∧ (count s ok n todo).1.buffer = s.buffer := by
      cases ok <;> exact ⟨rfl, rfl, rfl⟩
    cases todo with
    | nil =>
      have hworker : (count s ok n ([] : List ρ)).1.worker = .settle := by cases ok <;> rfl
      exact moves hw hworker (by simp [Worker.work]) hflags.1 hflags.2.1 hflags.2.2
    | cons r todo =>
      have hworker : (count s ok n (r :: todo)).1.worker = .deliver (r :: todo) := by
        cases ok <;> rfl
      exact moves hw hworker (by simp only [Worker.work]; omega) hflags.1 hflags.2.1 hflags.2.2
  | settle hw => exact moves hw rfl (le_refl 5) rfl rfl rfl
  | finish hw => exact moves hw rfl (le_refl 3) rfl rfl rfl
  | closeSink hw =>
    unfold closeSink
    split_ifs <;> exact moves hw rfl (by simp [Worker.work]) rfl rfl rfl
  | sinkCloseReturns o hw => exact moves hw rfl (by simp [Worker.work]) rfl rfl rfl

/-- What is left to do is bounded by the sizes of the buffer and of a batch. -/
theorem work_le {evs : List (Event ρ)} (h : Bounded cfg evs s) :
    s.work ≤ 7 * cfg.maxBuffer + 4 * cfg.batchSize + 8 := by
  have hbuffer := h.buffer
  have hpending := h.pending.trans h.inFlight
  have hworker : s.worker.work ≤ 4 * s.worker.unhanded.length + 8 := by
    cases s.worker with
    | deliver todo | inSink n todo | count ok n todo =>
      simp only [Worker.work, Worker.unhanded]
      omega
    | _ => simp [Worker.work, Worker.unhanded]
  rw [State.pendingCount] at hpending
  rw [State.work]
  omega

/-! ### The worker can go on -/

/-- The two flags of `close` are set together. -/
theorem step_stopping (h : Step cfg s a t e) (hs : s.stopping = s.closed) :
    t.stopping = t.closed := by
  cases h with
  | offer v =>
    cases v with
    | other => exact hs
    | record r =>
      unfold offer
      dsimp only
      split_ifs <;> exact hs
  | flushEnter i timed =>
    unfold flushEnter
    split_ifs <;> exact hs
  | flushWake f late =>
    unfold flushWake
    split_ifs <;> exact hs
  | closeBegin onWorker =>
    unfold closeBegin
    by_cases hc : s.closed = true
    · rw [if_pos hc]
      exact hs
    · rw [if_neg hc]
      rfl
  | acquire start now | wakeIdle start now =>
    obtain ⟨hclosed, hstopping⟩ := nextBatch_flags cfg s start now
    rw [hclosed, hstopping, hs]
  | wakeLinger start now deadline =>
    rcases lingerLoop_cases cfg { s with waiters := s.waiters.erase .worker } deadline now
      with hl | hl <;> rw [hl] <;> exact hs
  | count ok n todo => cases ok <;> exact hs
  | closeSink =>
    unfold closeSink
    split_ifs <;> exact hs
  | _ => exact hs

/-- A run in which the sink has not killed the worker, or one whose worker is past its last
batch. -/
structure Lively (cfg : Config) (s : State ρ) : Prop where
  bounded : ∃ evs, Bounded cfg evs s
  stopping : s.stopping = s.closed
  waits : Waits cfg s ∨ s.worker.done = true

theorem Lively.step (h : Lively cfg s) (hstep : Emitter.step cfg s a = some (t, e)) : Lively cfg t := by
  obtain ⟨⟨evs, hbounded⟩, hstopping, hwaits⟩ := h
  refine ⟨⟨_, step_bounded hbounded hstep⟩, step_stopping (step_cases hstep) hstopping, ?_⟩
  rcases hwaits with hwaits | hdone
  · by_cases ha : a = .sinkReturns .fatal
    · right
      rcases step_inCall hstep with ⟨_, hno, -⟩ | ⟨o, ho, -, -, hd, -⟩ | ⟨hno, -⟩
      · rw [ha] at hno
        cases hno
      · rw [ha] at ho
        exact hd (Action.sinkReturns.inj ho).symm
      · exact absurd ha (hno _)
    · exact .inl (step_waits hwaits hbounded ha (step_cases hstep))
  · exact .inr (step_done hstep hdone)

theorem run_lively {as : List (Action ρ)} {evs : List (Event ρ)}
    (h : (emitter ρ cfg).run (.init ρ) as = some (s, evs)) : Lively cfg s := by
  have hrun : (emitter ρ cfg).run (.init ρ) [] = some (.init ρ, []) := rfl
  exact Machine.run_induction (M := emitter ρ cfg) (I := fun _ _ s => Lively cfg s)
    ⟨⟨_, run_bounded hrun⟩, rfl, .inl (run_waits hrun List.not_mem_nil)⟩
    (fun _ _ _ _ _ _ ih hstep => ih.step hstep) h

/-- **The worker of a closed client can go on** until it has ended. -/
theorem Lively.enabled (h : Lively cfg s) (hclosed : s.closed = true) :
    s.worker = .stopped ∨ ∃ a t e, Action.byWorker a = true ∧ Emitter.step cfg s a = some (t, e) := by
  cases hw : s.worker with
  | nextBatch => exact .inr ⟨.acquire 0 0, _, _, rfl, by rw [Emitter.step, hw]⟩
  | idle =>
    -- a worker that waits for a record has been notified
    have hnot : Waiter.worker ∉ s.waiters := by
      rcases h.waits with hwaits | hdone
      · intro hmem
        have hno := (hwaits.idle hw hmem).2.2
        rw [h.stopping, hclosed] at hno
        cases hno
      · rw [hw] at hdone
        cases hdone
    exact .inr ⟨.wake 0 0, _, _, rfl, by rw [Emitter.step, hw]; exact if_neg hnot⟩
  | linger d => exact .inr ⟨.wake 0 0, _, _, rfl, by rw [Emitter.step, hw]⟩
  | deliver todo => exact .inr ⟨.handOver, _, _, rfl, by rw [Emitter.step, hw]⟩
  | inSink n todo => exact .inr ⟨.sinkReturns .returned, _, _, rfl, by rw [Emitter.step, hw]⟩
  | count ok n todo => exact .inr ⟨.count, _, _, rfl, by rw [Emitter.step, hw]⟩
  | settle => exact .inr ⟨.settle, _, _, rfl, by rw [Emitter.step, hw]⟩
  | exit => exact .inr ⟨.finish, _, _, rfl, by rw [Emitter.step, hw]⟩
  | closeSink => exact .inr ⟨.closeSink, _, _, rfl, by rw [Emitter.step, hw]⟩
  | closing => exact .inr ⟨.sinkCloseReturns .returned, _, _, rfl, by rw [Emitter.step, hw]⟩
  | stopped => exact .inl rfl

/-- **A `close` completes.** From every state of every run in which the client is closed, whatever
the sink raises and the other threads do: the worker takes no more than a bounded number of steps,
the calls of the sink among them, and it can always take one until it has ended. Then the `close`
that waits for it can return. -/
theorem close_completes (cfg : Config) (as bs : List (Action ρ)) {evs es : List (Event ρ)}
    {s t : State ρ} (h : (emitter ρ cfg).run (.init ρ) as = some (s, evs))
    (hclosed : s.closed = true) (hrun : (emitter ρ cfg).run s bs = some (t, es)) :
    bs.countP Action.byWorker + t.work ≤ 7 * cfg.maxBuffer + 4 * cfg.batchSize + 8 ∧
    (t.worker = .stopped ∨ ∃ a u e, Action.byWorker a = true ∧ step cfg t a = some (u, e)) ∧
    (t.worker = .stopped → t.closer = .joining → (step cfg t .joined).isSome = true) := by
  have hstep : ∀ (s : State ρ) (a : Action ρ) (t : State ρ) (e : List (Event ρ)),
      Lively cfg s ∧ s.closed = true → step cfg s a = some (t, e) →
      (Lively cfg t ∧ t.closed = true) ∧ t.work + a.byWorker.toNat ≤ s.work := by
    rintro s a t e ⟨hlively, hclosed⟩ hstep
    obtain ⟨_, hbounded⟩ := hlively.bounded
    obtain ⟨hc, -, hwork⟩ := step_work (step_cases hstep) hclosed
      (hlively.stopping.trans hclosed) hbounded.nonempty
    exact ⟨⟨hlively.step hstep, hc⟩, hwork⟩
  obtain ⟨⟨hlively, hclosed'⟩, hcount⟩ := Machine.run_measure (M := emitter ρ cfg)
    hstep ⟨run_lively h, hclosed⟩ hrun
  refine ⟨hcount.trans (work_le (run_bounded h)), hlively.enabled hclosed', fun hw hc => ?_⟩
  rw [step, if_pos ⟨hc, by rw [hw]; rfl⟩]
  rfl

/-- A record waits when the client is closed: nine steps, and the worker has ended. -/
theorem close_completes_one :
    let cfg : Config := ⟨4, 2, 0, true, true, by decide, by decide, le_rfl⟩
    let bs : List (Action ℕ) := [.acquire 0 0, .handOver, .sinkReturns .raised, .count, .settle,
      .acquire 0 0, .finish, .closeSink, .sinkCloseReturns .returned]
    ∃ s evs t es, (emitter ℕ cfg).run (.init ℕ) [.offer (.record 1), .closeBegin false] =
        some (s, evs) ∧ (emitter ℕ cfg).run s bs = some (t, es) ∧ t.worker = .stopped ∧
      bs.countP Action.byWorker + t.work ≤ 44 ∧ (step cfg t .joined).isSome = true := by
  intro cfg bs
  obtain ⟨hcount, -, hjoined⟩ := close_completes cfg [.offer (.record 1), .closeBegin false] bs
    rfl rfl rfl
  exact ⟨_, _, _, _, rfl, rfl, rfl, hcount, hjoined rfl rfl⟩

end Tokenweir.Emitter
