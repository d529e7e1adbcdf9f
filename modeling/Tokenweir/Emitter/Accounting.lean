import Tokenweir.Emitter.Conservation

/-!
# The account of a client whose sink may raise anything

A `BaseException` of the sink ends the worker in the middle of a batch. What is left of the batch is
lost, and no counter says so.

* `State.balance`, the records that are counted or can still be; `step_balance`;
* `Account`, the balance and what was lost; `run_lost`;
* `Began`, `flushed_of_step`, `flushesTruly`, what a flush has seen;
* `accounting`, exactly when the account of a closed client closes.
-/

namespace Tokenweir.Emitter

variable {ρ : Type} {cfg : Config} {s t : State ρ} {a : Action ρ} {e : List (Event ρ)}

/-- The records with an outcome, in the buffer, or on their way. -/
def State.balance (s : State ρ) : ℕ :=
  s.delivered + s.failed + s.droppedAtClose + s.buffer.length + s.pendingCount

theorem takeBatch_balance (cfg : Config) (s : State ρ) (h : s.pendingCount = 0) :
    (takeBatch cfg s).balance = s.balance := by
  have hpending : (takeBatch cfg s).pendingCount = min s.buffer.length cfg.batchSize :=
    takeBatch_pendingCount cfg s
  have hbuffer : (takeBatch cfg s).buffer.length =
      s.buffer.length - min s.buffer.length cfg.batchSize := List.length_drop
  have hcounts : (takeBatch cfg s).delivered = s.delivered ∧ (takeBatch cfg s).failed = s.failed ∧
      (takeBatch cfg s).droppedAtClose = s.droppedAtClose := ⟨rfl, rfl, rfl⟩
  unfold State.balance
  omega

theorem nextBatch_balance (cfg : Config) (s : State ρ) (start now : ℚ) (h : s.pendingCount = 0) :
    (nextBatch cfg s start now).balance = s.balance ∧
      (nextBatch cfg s start now).accepted = s.accepted := by
  rcases nextBatch_cases cfg s start now with ⟨-, -, hnext⟩ | ⟨w, hw, hnext⟩ | hnext <;> rw [hnext]
  · exact ⟨by rw [State.balance, State.balance, h]; rfl, rfl⟩
  · rcases hw with rfl | ⟨d, rfl⟩ <;> exact ⟨by rw [State.balance, State.balance, h]; rfl, rfl⟩
  · exact ⟨takeBatch_balance cfg s h, rfl⟩

theorem pendingCount_eq_zero {w : Worker ρ} (hw : s.worker = w) (hu : w.unhanded = [])
    (hc : w.uncounted = 0) : s.pendingCount = 0 := by
  rw [State.pendingCount, hw, hu, hc]
  rfl

/-- A batch is handed over whole, or record by record. -/
theorem length_handed (cfg : Config) (todo : List ρ) :
    (unhandedAfter cfg todo).length + (handed cfg todo).length = todo.length := by
  rw [handed, unhandedAfter]
  split_ifs
  · exact Nat.zero_add _
  · rw [Nat.add_comm, ← List.length_append, List.take_append_drop]

/-- **A step** puts into the balance what it accepts, and takes nothing out, as long as the sink
raises only `Exception`s. -/
theorem step_balance (h : Step cfg s a t e) (ha : a ≠ .sinkReturns .fatal) :
    s.accepted + t.balance = t.accepted + s.balance := by
  have quiet : t.accepted = s.accepted → t.balance = s.balance →
      s.accepted + t.balance = t.accepted + s.balance := by
    intro haccepted hbalance
    rw [haccepted, hbalance]
  cases h with
  | offer v =>
    cases v with
    | other => exact quiet rfl rfl
    | record r =>
      revert quiet
      simp only [offer]
      split_ifs
      · exact fun quiet => quiet rfl rfl
      · exact fun quiet => quiet rfl rfl
      · intro _
        simp only [State.balance, State.notify, State.pendingCount, List.length_append,
          List.length_singleton]
        omega
  | flushEnter | flushWake | closeBegin =>
    revert quiet
    simp only [flushEnter, flushWake, closeBegin]
    split_ifs <;> exact fun quiet => quiet rfl rfl
  | abandon =>
    simp only [abandon, State.balance, State.pendingCount, List.length_nil]
    omega
  | acquire start now hw | wakeIdle start now hw =>
    obtain ⟨hbalance, haccepted⟩ := nextBatch_balance cfg s start now
      (pendingCount_eq_zero hw rfl rfl)
    exact quiet haccepted hbalance
  | wakeLinger start now d hw =>
    have hpending := pendingCount_eq_zero hw rfl rfl
    rcases lingerLoop_cases cfg { s with waiters := s.waiters.erase .worker } d now with hl | hl
    · refine quiet (by rw [hl]) ?_
      rw [hl, State.balance, State.balance, hpending]
      rfl
    · refine quiet (by rw [hl]; rfl) ?_
      rw [hl]
      exact takeBatch_balance cfg { s with waiters := s.waiters.erase .worker } hpending
  | handOver todo hw =>
    refine quiet rfl ?_
    rw [State.balance, State.balance]
    refine congrArg (s.delivered + s.failed + s.droppedAtClose + s.buffer.length + ·) ?_
    rw [State.pendingCount, State.pendingCount, hw]
    exact length_handed cfg todo
  | sinkEnds n todo o hw ho =>
    refine quiet rfl ?_
    rw [State.balance, State.balance, State.pendingCount, State.pendingCount, hw]
    rfl
  | sinkDies => exact absurd rfl ha
  | count ok n todo hw =>
    have hnext : (Emitter.count s ok n todo).1.pendingCount = todo.length := by
      cases ok <;> cases todo <;> rfl
    have hpending : s.pendingCount = todo.length + n := by
      rw [State.pendingCount, hw]
      rfl
    have hbalance : (Emitter.count s ok n todo).1.balance = s.balance := by
      rw [State.balance, State.balance, hnext, hpending]
      cases ok with
      | true =>
        show s.delivered + n + s.failed + s.droppedAtClose + s.buffer.length + todo.length = _
        omega
      | false =>
        show s.delivered + (s.failed + n) + s.droppedAtClose + s.buffer.length + todo.length = _
        omega
    cases ok <;> exact quiet rfl hbalance
  | closeSink hw =>
    have hpending := pendingCount_eq_zero hw rfl rfl
    revert quiet
    simp only [closeSink]
    split_ifs <;> exact fun quiet => quiet rfl (by rw [State.balance, State.balance, hpending]; rfl)
  | settle hw | finish hw | sinkCloseReturns o hw =>
    refine quiet rfl ?_
    rw [State.balance, State.balance, pendingCount_eq_zero hw rfl rfl]
    rfl
  | _ => exact quiet rfl rfl

/-- A death takes what is left of the batch out of the balance. -/
theorem death_balance {n : ℕ} {todo : List ρ} (hw : s.worker = .inSink n todo) :
    s.balance = State.balance { s with worker := .exit } + (todo.length + n) := by
  have hpending : s.pendingCount = todo.length + n := by
    rw [State.pendingCount, hw]
    rfl
  rw [State.balance, hpending]
  rfl

/-- The worker does not come back. -/
theorem step_done (h : step cfg s a = some (t, e)) (hs : s.worker.done = true) :
    t.worker.done = true := by
  rcases step_inCall h with ⟨todo, -, hw, -⟩ | ⟨o, -, hin, -⟩ | ⟨-, -, hdone, -⟩
  · rw [hw] at hs
    cases hs
  · rw [Worker.inCall_of_done hs] at hin
    cases hin
  · exact hdone hs

/-- The worker is at a batch. -/
def Worker.inBatch : Worker ρ → Bool
  | .deliver _ | .inSink _ _ | .count _ _ _ => true
  | _ => false

/-- A worker that is at a batch has a record of it on its way. -/
def Busy (s : State ρ) : Prop := s.worker.inBatch = true → 1 ≤ s.pendingCount

theorem busy_of_not {w : Worker ρ} (hw : s.worker = w) (h : w.inBatch = false) : Busy s := by
  intro hin
  rw [hw, h] at hin
  cases hin

theorem busy_takeBatch (cfg : Config) (s : State ρ) : Busy (takeBatch cfg s) := by
  intro hin
  rw [takeBatch_pendingCount]
  by_contra hzero
  have hnil : s.buffer.take (min s.buffer.length cfg.batchSize) = [] := by
    rw [show min s.buffer.length cfg.batchSize = 0 by
      simp only [takeBatch] at hzero
      omega]
    rfl
  have hworker : (takeBatch cfg s).worker = .settle := by
    simp only [takeBatch, hnil]
    rfl
  rw [hworker] at hin
  cases hin

theorem step_busy (hs : Busy s) (h : Step cfg s a t e) : Busy t := by
  have next : ∀ start now, Busy (nextBatch cfg s start now) := by
    intro start now
    rcases nextBatch_cases cfg s start now with ⟨-, -, hnext⟩ | ⟨w, hw, hnext⟩ | hnext <;> rw [hnext]
    · exact busy_of_not rfl rfl
    · rcases hw with rfl | ⟨d, rfl⟩ <;> exact busy_of_not rfl rfl
    · exact busy_takeBatch cfg s
  cases h with
  | offer v =>
    cases v with
    | other => exact hs
    | record r =>
      simp only [offer]
      split_ifs <;> exact hs
  | flushEnter | flushWake | closeBegin =>
    simp only [flushEnter, flushWake, closeBegin]
    split_ifs <;> exact hs
  | acquire start now | wakeIdle start now => exact next start now
  | wakeLinger start now d hw =>
    rcases lingerLoop_cases cfg { s with waiters := s.waiters.erase .worker } d now with hl | hl <;>
      rw [hl]
    · exact busy_of_not rfl rfl
    · exact busy_takeBatch cfg _
  | handOver todo hw =>
    intro _
    have hpending := hs (by rw [hw]; rfl)
    have hlen := length_handed cfg todo
    rw [State.pendingCount, hw] at hpending
    show 1 ≤ (unhandedAfter cfg todo).length + (handed cfg todo).length
    have hzero : (Worker.deliver todo).unhanded.length + (Worker.deliver todo).uncounted =
      todo.length := rfl
    omega
  | sinkEnds n todo o hw =>
    intro _
    have hpending := hs (by rw [hw]; rfl)
    rw [State.pendingCount, hw] at hpending
    exact hpending
  | count ok n todo hw =>
    cases todo with
    | nil => cases ok <;> exact busy_of_not rfl rfl
    | cons r rest =>
      intro _
      cases ok <;> exact Nat.succ_pos _
  | closeSink hw =>
    simp only [closeSink]
    split_ifs <;> exact busy_of_not rfl rfl
  | sinkDies | settle | finish | sinkCloseReturns => exact busy_of_not rfl rfl
  | _ => exact hs

/-- What was lost: nothing, or what the worker had in hand when it died. -/
structure Account (as : List (Action ρ)) (s : State ρ) (lost : ℕ) : Prop where
  accepted : s.accepted = s.balance + lost
  alive : OnlyExceptions as → lost = 0
  dead : ¬OnlyExceptions as → 1 ≤ lost ∧ s.worker.done = true
  busy : Busy s

/-- **A step** loses nothing but what the sink was called for when it kills the worker. -/
theorem Account.step {as : List (Action ρ)} {lost : ℕ}
    (h : Account as s lost) (hstep : step cfg s a = some (t, e)) :
    ∃ lost', Account (as ++ [a]) t lost' := by
  have hcase := step_cases hstep
  have hbusy := step_busy h.busy hcase
  by_cases ha : a = .sinkReturns .fatal
  · subst ha
    have hnot : ¬OnlyExceptions (as ++ [.sinkReturns .fatal]) := fun hexc =>
      (onlyExceptions_snoc.1 hexc).2 rfl
    cases hcase with
    | sinkDies n todo hw =>
      refine ⟨lost + (todo.length + n), ?_, fun hexc => absurd hexc hnot, fun _ => ⟨?_, rfl⟩, hbusy⟩
      · have haccepted := h.accepted
        have hdeath := death_balance hw
        show s.accepted = State.balance { s with worker := .exit } + _
        omega
      · have hpos := h.busy (by rw [hw]; rfl)
        rw [State.pendingCount, hw] at hpos
        exact hpos.trans (Nat.le_add_left _ _)
    | sinkEnds n todo o hw ho => exact absurd rfl ho
  · have hexc : OnlyExceptions (as ++ [a]) ↔ OnlyExceptions as :=
      onlyExceptions_snoc.trans (and_iff_left ha)
    refine ⟨lost, ?_, fun hall => h.alive (hexc.1 hall), fun hnot => ?_, hbusy⟩
    · have hbalance := step_balance hcase ha
      have haccepted := h.accepted
      omega
    · obtain ⟨hpos, hdone⟩ := h.dead fun hall => hnot (hexc.2 hall)
      exact ⟨hpos, step_done hstep hdone⟩

theorem run_lost {as : List (Action ρ)} {evs : List (Event ρ)}
    (h : (emitter ρ cfg).run (.init ρ) as = some (s, evs)) : ∃ lost, Account as s lost :=
  Machine.run_induction (M := emitter ρ cfg) (I := fun as _ s => ∃ lost, Account as s lost)
    ⟨0, rfl, fun _ => rfl, fun hnot => absurd List.not_mem_nil hnot, busy_of_not rfl rfl⟩
    (fun as evs s a t e ih hstep => by
      obtain ⟨lost, haccount⟩ := ih
      exact haccount.step hstep) h

/-! ### What a flush has seen -/

/-- A `flush` began when no more was accepted than now. -/
def Began (s : State ρ) : Prop := ∀ f ∈ s.flushers, f.began ≤ s.accepted

theorem step_began (hs : Began s) (h : Step cfg s a t e) : Began t := by
  have next : ∀ start now, Began (nextBatch cfg s start now) := by
    intro start now
    rcases nextBatch_cases cfg s start now with ⟨-, -, hnext⟩ | ⟨w, hw, hnext⟩ | hnext <;>
      rw [hnext] <;> exact hs
  cases h with
  | offer v =>
    cases v with
    | other => exact hs
    | record r =>
      simp only [offer]
      split_ifs
      · exact hs
      · exact hs
      · exact fun f hf => (hs f hf).trans (Nat.le_succ _)
  | flushEnter i timed =>
    simp only [flushEnter]
    split_ifs
    · exact hs
    · intro f hf
      rcases List.mem_cons.1 hf with rfl | hf
      · exact le_rfl
      · exact hs f hf
  | flushWake f late =>
    simp only [flushWake]
    split_ifs
    · exact fun g hg => hs g (List.mem_of_mem_erase hg)
    · exact hs
  | closeBegin =>
    simp only [closeBegin]
    split_ifs <;> exact hs
  | acquire start now | wakeIdle start now => exact next start now
  | wakeLinger start now d =>
    rcases lingerLoop_cases cfg { s with waiters := s.waiters.erase .worker } d now with hl | hl <;>
      rw [hl] <;> exact hs
  | count ok => cases ok <;> exact hs
  | closeSink =>
    simp only [closeSink]
    split_ifs <;> exact hs
  | _ => exact hs

theorem run_began {as : List (Action ρ)} {evs : List (Event ρ)}
    (h : (emitter ρ cfg).run (.init ρ) as = some (s, evs)) : Began s :=
  Machine.run_induction (M := emitter ρ cfg) (I := fun _ _ s => Began s) (fun _ hf => by cases hf)
    (fun _ _ _ _ _ _ ih hstep => step_began ih (step_cases hstep)) h

/-- What was accepted when `flush` returned `true` has its outcome. -/
def FlushesTruly (cfg : Config) (s : State ρ) : Prop :=
  ∀ a t e i began, step cfg s a = some (t, e) → .flushed i began true ∈ e →
    began ≤ t.accepted ∧ t.accepted = t.delivered + t.failed + t.droppedAtClose

/-- Nothing is buffered, and nothing is in flight: nothing is on its way. -/
theorem balance_of_drained {evs : List (Event ρ)} (hb : Bounded cfg evs s)
    (h : s.isDrained = true) : s.balance = s.delivered + s.failed + s.droppedAtClose := by
  rw [State.isDrained, Bool.and_eq_true, List.isEmpty_iff, beq_iff_eq] at h
  have hpending := hb.pending
  rw [h.2] at hpending
  rw [State.balance, h.1, List.length_nil]
  omega

/-- **What `flush` returns**: whether the client is drained, and since when. -/
theorem flushed_of_step {i began : ℕ} {drained : Bool} (h : Step cfg s a t e)
    (hmem : .flushed i began drained ∈ e) :
    drained = s.isDrained ∧ (began = s.accepted ∨ ∃ f ∈ s.flushers, f.began = began) ∧
      t.accepted = s.accepted ∧ t.delivered = s.delivered ∧ t.failed = s.failed ∧
      t.droppedAtClose = s.droppedAtClose := by
  cases h with
  | offer v =>
    cases v with
    | other => simp [offer] at hmem
    | record r =>
      simp only [offer] at hmem
      split_ifs at hmem <;> simp at hmem
  | flushEnter j timed =>
    revert hmem
    simp only [flushEnter]
    split_ifs
    · intro hmem
      rw [List.mem_singleton, Event.flushed.injEq] at hmem
      exact ⟨hmem.2.2, .inl hmem.2.1, rfl, rfl, rfl, rfl⟩
    · intro hmem
      cases hmem
  | flushWake f late hf =>
    revert hmem
    simp only [flushWake]
    split_ifs
    · intro hmem
      rw [List.mem_singleton, Event.flushed.injEq] at hmem
      exact ⟨hmem.2.2, .inr ⟨f, hf, hmem.2.1.symm⟩, rfl, rfl, rfl, rfl⟩
    · intro hmem
      cases hmem
  | count ok =>
    cases ok with
    | true => cases hmem
    | false => simp [count] at hmem
  | closeSink =>
    simp only [closeSink] at hmem
    split_ifs at hmem <;> simp at hmem
  | sinkCloseReturns o => split_ifs at hmem <;> simp at hmem
  | stats | abandon | handOver | sinkDies => simp [abandon] at hmem
  | _ => cases hmem

/-- **A flush tells the truth** as long as nothing was lost. -/
theorem flushesTruly {as : List (Action ρ)} {evs : List (Event ρ)}
    (h : (emitter ρ cfg).run (.init ρ) as = some (s, evs)) (hexc : OnlyExceptions as) :
    FlushesTruly cfg s := by
  obtain ⟨lost, haccount⟩ := run_lost h
  intro a t e i began hstep hmem
  obtain ⟨hdrained, hbegan, haccepted, hdelivered, hfailed, hdropped⟩ :=
    flushed_of_step (step_cases hstep) hmem
  rw [haccepted, hdelivered, hfailed, hdropped]
  constructor
  · rcases hbegan with rfl | ⟨f, hf, rfl⟩
    · exact le_rfl
    · exact run_began h f hf
  · rw [haccount.accepted, haccount.alive hexc, balance_of_drained (run_bounded h) hdrained.symm]
    rfl

/-! ### The account of a client that is closed -/

/-- Every record that was accepted is counted, and none is left in the buffer. -/
structure Closed (s : State ρ) : Prop where
  buffer : s.buffer = []
  accepted : s.accepted = s.delivered + s.failed + s.droppedAtClose
  dropped : s.accepted - s.delivered ≤ s.stats.dropped

/-- **Accounting**: the account of a client that is closed, its worker stopped, closes exactly where
no `BaseException` came out of the sink for a batch; and where none has, a flush tells the truth. -/
theorem accounting (cfg : Config) (as : List (Action ρ)) (evs : List (Event ρ)) (s : State ρ)
    (h : (emitter ρ cfg).run (.init ρ) as = some (s, evs)) :
    ((s.closer = .returned ∨ s.closer = .abandoned) → s.worker = .stopped →
      (Closed s ↔ OnlyExceptions as)) ∧
    (OnlyExceptions as → FlushesTruly cfg s) := by
  refine ⟨fun _ hw => ⟨fun hclosed => ?_, fun hexc => ?_⟩, flushesTruly h⟩
  · -- what was lost is missing in the counters
    by_contra hnot
    obtain ⟨lost, haccount⟩ := run_lost h
    have hpos := (haccount.dead hnot).1
    have haccepted := haccount.accepted
    rw [State.balance, hclosed.buffer, pendingCount_eq_zero hw rfl rfl, List.length_nil,
      hclosed.accepted] at haccepted
    omega
  · obtain ⟨hbuffer, haccepted⟩ := run_account_stopped h hexc hw
    refine ⟨hbuffer, haccepted, ?_⟩
    rw [haccepted]
    simp only [State.stats, EmitterStats.dropped]
    omega

/-- The sink of one record ends the worker: the record is in no counter, and still the flush that
waited for it, and a second one, return `true`. -/
def deathInBatch : List (Action ℕ) :=
  [.offer (.record 1), .acquire 0 0, .handOver, .flushEnter 0 false, .sinkReturns .fatal, .finish,
    .flushWake 0 false, .closeSink, .closeBegin false, .joined]

theorem accounting_deathInBatch :
    let cfg : Config := ⟨2, 1, 0, false, false, by decide, by decide, le_rfl⟩
    ∃ s evs, (emitter ℕ cfg).run (.init ℕ) deathInBatch = some (s, evs) ∧
      (Closed s ↔ OnlyExceptions deathInBatch) := by
  intro cfg
  exact ⟨_, _, rfl, (accounting cfg deathInBatch _ _ rfl).1 (.inl rfl) rfl⟩

/-- The record of that run is in no counter. -/
theorem not_accounted_deathInBatch :
    let cfg : Config := ⟨2, 1, 0, false, false, by decide, by decide, le_rfl⟩
    ∃ s evs, (emitter ℕ cfg).run (.init ℕ) deathInBatch = some (s, evs) ∧
      s.closer = .returned ∧ s.worker = .stopped ∧ ¬Closed s ∧
      .flushed 0 1 true ∈ evs ∧ s.accepted = 1 ∧ s.delivered + s.failed + s.droppedAtClose = 0 := by
  intro cfg
  exact ⟨_, _, rfl, rfl, rfl, fun h => Nat.one_ne_zero h.accepted, by decide, rfl, rfl⟩

end Tokenweir.Emitter
