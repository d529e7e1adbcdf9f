import Tokenweir.Emitter.Refinement

/-!
# Conservation, order and bound of the buffered client

What the ledger does not see: the verdicts of the offers, the bounds, the exit of
the worker and the close of the sink. Each is an invariant with its step lemma and
its run lemma; `conservation` is the ledger and these together.

* `Tally`, one verdict for each offer, and four counters that count them;
* `Bounded`, the bounds of the buffer and of the batches;
* `SinkLife`, the worker leaves its loop with nothing buffered, and the sink is
  closed once, after its last batch.
-/

namespace Tokenweir.Emitter

variable {ρ : Type}

/-! ### The tally of offers -/

/-- A value that is not a record is refused as such; a record is accepted, or refused because
the client is closed or its buffer is full. -/
def Verdict.fits : Value ρ → Verdict → Prop
  | .other, d => d = .refused .notARecord
  | .record _, d => d = .accepted ∨ d = .refused .emitterClosed ∨ d = .refused .bufferFull

/-- Each offer has its verdict, and each of the four counters counts its own. -/
structure Tally (as : List (Action ρ)) (evs : List (Event ρ)) (s : State ρ) : Prop where
  fits : List.Forall₂ Verdict.fits (offersOf as) (verdictsOf evs)
  accepted : s.accepted = (verdictsOf evs).count .accepted
  bufferFull : s.droppedBufferFull = (verdictsOf evs).count (.refused .bufferFull)
  notARecord : s.droppedNotARecord = (verdictsOf evs).count (.refused .notARecord)
  closed : s.droppedClosed = (verdictsOf evs).count (.refused .emitterClosed)

/-- Only `_offer` ends with a verdict or moves one of its counters. -/
theorem step_no_verdict {cfg : Config} {s t : State ρ} {a : Action ρ} {e : List (Event ρ)}
    (h : Step cfg s a t e) (ha : Action.offerPart a = []) :
    verdictsOf e = [] ∧ t.accepted = s.accepted ∧ t.droppedBufferFull = s.droppedBufferFull ∧
      t.droppedNotARecord = s.droppedNotARecord ∧ t.droppedClosed = s.droppedClosed := by
  have batch : ∀ start now, (nextBatch cfg s start now).accepted = s.accepted ∧
      (nextBatch cfg s start now).droppedBufferFull = s.droppedBufferFull ∧
      (nextBatch cfg s start now).droppedNotARecord = s.droppedNotARecord ∧
      (nextBatch cfg s start now).droppedClosed = s.droppedClosed := by
    intro start now
    rcases nextBatch_cases cfg s start now with ⟨-, -, h'⟩ | ⟨w, -, h'⟩ | h' <;> rw [h'] <;>
      exact ⟨rfl, rfl, rfl, rfl⟩
  cases h with
  | offer v => cases ha
  | flushEnter | flushWake | closeBegin | closeSink =>
    simp only [flushEnter, flushWake, closeBegin, closeSink]
    split_ifs <;> exact ⟨rfl, rfl, rfl, rfl, rfl⟩
  | acquire start now | wakeIdle start now => exact ⟨rfl, batch start now⟩
  | wakeLinger start now d _ =>
    rcases lingerLoop_cases cfg { s with waiters := s.waiters.erase .worker } d now with h' | h'
    all_goals
      rw [h']
      exact ⟨rfl, rfl, rfl, rfl, rfl⟩
  | count ok => cases ok <;> exact ⟨rfl, rfl, rfl, rfl, rfl⟩
  | sinkCloseReturns o => split_ifs <;> exact ⟨rfl, rfl, rfl, rfl, rfl⟩
  | _ => exact ⟨rfl, rfl, rfl, rfl, rfl⟩

theorem Tally.offer {as : List (Action ρ)} {evs : List (Event ρ)} {s : State ρ} (cfg : Config)
    (h : Tally as evs s) (v : Value ρ) :
    Tally (as ++ [.offer v]) (evs ++ (offer cfg s v).2) (offer cfg s v).1 := by
  have snoc : ∀ d, Verdict.fits v d →
      List.Forall₂ Verdict.fits (offersOf (as ++ [.offer v])) (verdictsOf evs ++ [d]) := by
    intro d hd
    rw [offersOf_append]
    exact List.rel_append h.fits (.cons hd .nil)
  cases v with
  | other =>
    exact
      { fits := by simpa [Emitter.offer] using snoc _ rfl
        accepted := by simp [Emitter.offer, h.accepted]
        bufferFull := by simp [Emitter.offer, h.bufferFull]
        notARecord := by simp [Emitter.offer, h.notARecord]
        closed := by simp [Emitter.offer, h.closed] }
  | record r =>
    simp only [Emitter.offer]
    split_ifs
    · exact
        { fits := by simpa using snoc _ (Or.inr (Or.inl rfl))
          accepted := by simp [h.accepted]
          bufferFull := by simp [h.bufferFull]
          notARecord := by simp [h.notARecord]
          closed := by simp [h.closed] }
    · exact
        { fits := by simpa using snoc _ (Or.inr (Or.inr rfl))
          accepted := by simp [h.accepted]
          bufferFull := by simp [h.bufferFull]
          notARecord := by simp [h.notARecord]
          closed := by simp [h.closed] }
    · exact
        { fits := by simpa using snoc _ (Or.inl rfl)
          accepted := by simp [State.notify, h.accepted]
          bufferFull := by simp [State.notify, h.bufferFull]
          notARecord := by simp [State.notify, h.notARecord]
          closed := by simp [State.notify, h.closed] }

theorem step_tally {cfg : Config} {as : List (Action ρ)} {evs e : List (Event ρ)} {s t : State ρ}
    {a : Action ρ} (h : Tally as evs s) (hstep : step cfg s a = some (t, e)) :
    Tally (as ++ [a]) (evs ++ e) t := by
  cases ho : Action.offerPart a with
  | cons v vs =>
    cases step_cases hstep with
    | offer v => exact h.offer cfg v
    | _ => cases ho
  | nil =>
    obtain ⟨he, h₁, h₂, h₃, h₄⟩ := step_no_verdict (step_cases hstep) ho
    have hoff : offersOf (as ++ [a]) = offersOf as := by
      rw [offersOf_append]
      simp [offersOf, ho]
    constructor
    · rw [hoff, verdictsOf_append, he, List.append_nil]; exact h.fits
    all_goals rw [verdictsOf_append, he, List.append_nil]
    · rw [h₁, h.accepted]
    · rw [h₂, h.bufferFull]
    · rw [h₃, h.notARecord]
    · rw [h₄, h.closed]

theorem run_tally {cfg : Config} {as : List (Action ρ)} {evs : List (Event ρ)} {s : State ρ}
    (h : (emitter ρ cfg).run (.init ρ) as = some (s, evs)) : Tally as evs s :=
  Machine.run_induction (M := emitter ρ cfg) (I := Tally) ⟨.nil, rfl, rfl, rfl, rfl⟩
    (fun _ _ _ _ _ _ ih hstep => step_tally ih hstep) h

/-! ### The bounds -/

/-- The buffer and the batches are bounded, and a batch in delivery is not empty. -/
structure Bounded (cfg : Config) (evs : List (Event ρ)) (s : State ρ) : Prop where
  buffer : s.buffer.length ≤ cfg.maxBuffer
  pending : s.pendingCount ≤ s.inFlight
  inFlight : s.inFlight ≤ cfg.batchSize
  batches : ∀ rs ∈ batchesOf evs, rs ≠ [] ∧ rs.length ≤ cfg.batchSize
  nonempty : ∀ todo, s.worker = .deliver todo → todo ≠ []

theorem takeBatch_pendingCount (cfg : Config) (s : State ρ) :
    (takeBatch cfg s).pendingCount = (takeBatch cfg s).inFlight := by
  rw [State.pendingCount, takeBatch_unhanded, takeBatch_uncounted, List.length_take]
  simp [takeBatch]

theorem Bounded.takeBatch {cfg : Config} {evs : List (Event ρ)} {s : State ρ}
    (h : Bounded cfg evs s) : Bounded cfg evs (takeBatch cfg s) where
  buffer := by
    have hb := h.buffer
    simp only [Emitter.takeBatch, List.length_drop]
    omega
  pending := (takeBatch_pendingCount cfg s).le
  inFlight := min_le_right _ _
  batches := h.batches
  nonempty := by
    intro todo ht
    simp only [Emitter.takeBatch] at ht
    split_ifs at ht with hemp
    cases ht
    simpa using hemp

theorem step_bounded {cfg : Config} {evs e : List (Event ρ)} {s t : State ρ} {a : Action ρ}
    (h : Bounded cfg evs s) (hstep : step cfg s a = some (t, e)) :
    Bounded cfg (evs ++ e) t := by
  -- a step that hands nothing over and whose worker has no more to hand over
  have quiet : ∀ {t : State ρ} {e : List (Event ρ)}, batchesOf e = [] → t.buffer = s.buffer →
      t.inFlight = s.inFlight → t.pendingCount ≤ s.pendingCount →
      (∀ todo, t.worker = .deliver todo → todo ≠ []) → Bounded cfg (evs ++ e) t := by
    intro t e he hb hi hp hn
    exact
      { buffer := hb ▸ h.buffer
        pending := hi ▸ hp.trans h.pending
        inFlight := hi ▸ h.inFlight
        batches := by rw [batchesOf_append, he, List.append_nil]; exact h.batches
        nonempty := hn }
  have batch : ∀ start now, Bounded cfg (evs ++ []) (nextBatch cfg s start now) := by
    intro start now
    rcases nextBatch_cases cfg s start now with ⟨-, -, h'⟩ | ⟨w, hw, h'⟩ | h'
    · rw [h']
      exact quiet rfl rfl rfl (Nat.zero_le _) (fun _ ht => by cases ht)
    · rw [h']
      rcases hw with rfl | ⟨d, rfl⟩ <;>
        exact quiet rfl rfl rfl (Nat.zero_le _) (fun _ ht => by cases ht)
    · rw [h', List.append_nil]
      exact h.takeBatch
  cases step_cases hstep with
  | offer v =>
    cases v with
    | other => exact quiet rfl rfl rfl le_rfl h.nonempty
    | record r =>
      simp only [offer]
      split_ifs with _ hfull
      · exact quiet rfl rfl rfl le_rfl h.nonempty
      · exact quiet rfl rfl rfl le_rfl h.nonempty
      · exact
          { buffer := by
              simp only [State.notify, List.length_append, List.length_singleton]
              omega
            pending := h.pending
            inFlight := h.inFlight
            batches := by simpa using h.batches
            nonempty := h.nonempty }
  | flushEnter | flushWake | closeBegin =>
    simp only [flushEnter, flushWake, closeBegin]
    split_ifs <;> exact quiet rfl rfl rfl le_rfl h.nonempty
  | abandon _ =>
    exact
      { h with
        buffer := Nat.zero_le _
        batches := by simpa [abandon] using h.batches }
  | acquire start now | wakeIdle start now => exact batch start now
  | wakeLinger start now d _ =>
    have h' : Bounded cfg evs { s with waiters := s.waiters.erase .worker } := { h with }
    rcases lingerLoop_cases cfg { s with waiters := s.waiters.erase .worker } d now with hl | hl
    · rw [hl]
      exact quiet rfl rfl rfl (Nat.zero_le _) (fun _ ht => by cases ht)
    · rw [hl, List.append_nil]
      exact h'.takeBatch
  | handOver todo hw =>
    have hne := h.nonempty todo hw
    have hlen : (handed cfg todo).length + (unhandedAfter cfg todo).length = todo.length := by
      rw [handed, unhandedAfter]
      split_ifs
      · rfl
      · rw [← List.length_append, List.take_append_drop]
    have hpos : handed cfg todo ≠ [] := by
      unfold handed
      cases cfg.batchSink <;> simp [hne]
    have hp : todo.length ≤ s.inFlight := by
      have := h.pending
      rw [State.pendingCount, hw] at this
      simpa [Worker.unhanded, Worker.uncounted] using this
    exact
      { buffer := h.buffer
        pending := by
          show (unhandedAfter cfg todo).length + (handed cfg todo).length ≤ s.inFlight
          omega
        inFlight := h.inFlight
        batches := by
          intro rs hrs
          rw [batchesOf_append, List.mem_append] at hrs
          rcases hrs with hrs | hrs
          · exact h.batches rs hrs
          · obtain rfl : rs = handed cfg todo := by simpa using hrs
            have := h.inFlight
            exact ⟨hpos, by omega⟩
        nonempty := fun _ ht => by cases ht }
  | sinkEnds n todo o hw _ =>
    refine quiet rfl rfl rfl ?_ (fun _ ht => by cases ht)
    rw [State.pendingCount, State.pendingCount, hw]
    exact le_rfl
  | count ok n todo hw =>
    have hn : ∀ todo', (if todo.isEmpty then .settle else .deliver todo : Worker ρ) = .deliver todo' →
        todo' ≠ [] := by
      intro todo' ht
      split_ifs at ht with hemp
      cases ht
      simpa using hemp
    have hp : State.pendingCount { s with
        worker := (if todo.isEmpty then .settle else .deliver todo : Worker ρ) } ≤
          s.pendingCount := by
      rw [State.pendingCount, State.pendingCount, hw]
      cases todo <;> simp [Worker.unhanded, Worker.uncounted]
    cases ok <;> exact quiet rfl rfl rfl hp hn
  | settle hw =>
    exact
      { h with
        pending := Nat.zero_le _
        inFlight := Nat.zero_le _
        batches := by simpa using h.batches
        nonempty := fun _ ht => by cases ht }
  | finish hw =>
    exact
      { h with
        pending := Nat.zero_le _
        inFlight := Nat.zero_le _
        batches := by simpa using h.batches
        nonempty := fun _ ht => by cases ht }
  | closeSink hw =>
    simp only [closeSink]
    split_ifs <;> exact quiet rfl rfl rfl (Nat.zero_le _) (fun _ ht => by cases ht)
  | sinkCloseReturns o hw =>
    refine quiet ?_ rfl rfl (Nat.zero_le _) (fun _ ht => by cases ht)
    split_ifs <;> rfl
  | sinkDies => exact quiet rfl rfl rfl (Nat.zero_le _) (fun _ ht => by cases ht)
  | _ => exact quiet rfl rfl rfl le_rfl h.nonempty

theorem run_bounded {cfg : Config} {as : List (Action ρ)} {evs : List (Event ρ)} {s : State ρ}
    (h : (emitter ρ cfg).run (.init ρ) as = some (s, evs)) : Bounded cfg evs s :=
  Machine.run_induction (M := emitter ρ cfg) (I := fun _ evs s => Bounded cfg evs s)
    ⟨Nat.zero_le _, le_rfl, Nat.zero_le _, (fun _ h => by cases h), (fun _ ht => by cases ht)⟩
    (fun _ _ _ _ _ _ ih hstep => step_bounded ih hstep) h

/-! ### The end of the worker and of the sink -/

/-- After the close of the sink, no batch and no other close. -/
def NoSinkUse : Event ρ → Event ρ → Prop
  | .sinkClosed, .handed _ => False
  | .sinkClosed, .sinkClosed => False
  | _, _ => True

/-- The worker is in the sink's `close`, or ended. -/
def Worker.pastClose : Worker ρ → Bool
  | .closing => true
  | .stopped => true
  | _ => false

/-- The worker leaves its loop with an empty buffer, and then closes the sink, once. -/
structure SinkLife (cfg : Config) (evs : List (Event ρ)) (s : State ρ) : Prop where
  stopping : s.stopping = s.closed
  exit : s.worker.done = true → s.buffer = [] ∧ s.closed = true
  order : evs.Pairwise NoSinkUse
  after : Event.sinkClosed ∈ evs → s.worker.pastClose = true
  flag : s.sinkClosed = s.worker.pastClose
  closed : s.worker.pastClose = true → cfg.closable = true → Event.sinkClosed ∈ evs

theorem takeBatch_not_pastClose (cfg : Config) (s : State ρ) :
    (takeBatch cfg s).worker.pastClose = false := by
  unfold takeBatch
  dsimp only
  split_ifs <;> rfl

theorem step_sinkLife {cfg : Config} {evs e : List (Event ρ)} {s t : State ρ} {a : Action ρ}
    (h : SinkLife cfg evs s) (ha : a ≠ .sinkReturns .fatal) (hstep : step cfg s a = some (t, e)) :
    SinkLife cfg (evs ++ e) t := by
  have noUse : ∀ {x : Event ρ}, x ≠ .sinkClosed → ∀ y, NoSinkUse x y := by
    intro x hx y
    cases x <;> first | exact absurd rfl hx | cases y <;> trivial
  -- a step before the close of the sink that does not close it
  have before : ∀ {t : State ρ} {e : List (Event ρ)}, s.worker.pastClose = false →
      t.worker.pastClose = false → t.sinkClosed = s.sinkClosed → Event.sinkClosed ∉ e →
      t.stopping = t.closed → (t.worker.done = true → t.buffer = [] ∧ t.closed = true) →
      SinkLife cfg (evs ++ e) t := by
    intro t e hs ht hf he hst hex
    have hnone : Event.sinkClosed ∉ evs := fun hm => by
      have := h.after hm
      rw [hs] at this
      cases this
    exact
      { stopping := hst
        exit := hex
        order := by
          refine List.pairwise_append.2 ⟨h.order, ?_, fun x hx y _ => noUse ?_ y⟩
          · exact List.Pairwise.imp_of_mem (fun {x y} hx _ _ => noUse (fun hc => he (hc ▸ hx)) y)
              (List.pairwise_of_forall (R := fun _ _ => True) fun _ _ => trivial)
          · exact fun hc => hnone (hc ▸ hx)
        after := by simp [hnone, he]
        flag := by rw [hf, h.flag, hs, ht]
        closed := fun hp => by rw [ht] at hp; cases hp }
  -- a step of another thread: the worker stays where it is, and does not use the sink
  have other : ∀ {t : State ρ} {e : List (Event ρ)}, t.worker = s.worker →
      t.sinkClosed = s.sinkClosed → (∀ x ∈ e, x ≠ .sinkClosed ∧ ∀ rs, x ≠ .handed rs) →
      t.stopping = t.closed → (t.worker.done = true → t.buffer = [] ∧ t.closed = true) →
      SinkLife cfg (evs ++ e) t := by
    intro t e hw hf he hst hex
    exact
      { stopping := hst
        exit := hex
        order := by
          refine List.pairwise_append.2 ⟨h.order, ?_, ?_⟩
          · exact List.Pairwise.imp_of_mem (fun {x y} hx _ _ => noUse (he x hx).1 y)
              (List.pairwise_of_forall (R := fun _ _ => True) fun _ _ => trivial)
          · intro x _ y hy
            obtain ⟨h₁, h₂⟩ := he y hy
            cases x <;> cases y <;> first | trivial | exact absurd rfl h₁ | exact absurd rfl (h₂ _)
        after := by
          intro hm
          rw [hw]
          rcases List.mem_append.1 hm with hm | hm
          · exact h.after hm
          · exact absurd rfl (he _ hm).1
        flag := by rw [hf, hw, h.flag]
        closed := fun hp hc => List.mem_append_left _ (h.closed (hw ▸ hp) hc) }
  have batch : ∀ start now, s.worker.pastClose = false → s.worker.done = false →
      SinkLife cfg (evs ++ []) (nextBatch cfg s start now) := by
    intro start now hp hd
    rcases nextBatch_cases cfg s start now with ⟨hb, hs, h'⟩ | ⟨w, hw, h'⟩ | h'
    · rw [h']
      exact before hp rfl rfl (by simp) h.stopping (fun _ => ⟨hb, h.stopping ▸ hs⟩)
    · rw [h']
      rcases hw with rfl | ⟨d, rfl⟩ <;>
        exact before hp rfl rfl (by simp) h.stopping (fun hx => by cases hx)
    · rw [h']
      exact before hp (takeBatch_not_pastClose cfg s) rfl (by simp) h.stopping
        (fun hx => by rw [takeBatch_not_done] at hx; cases hx)
  cases step_cases hstep with
  | offer v =>
    cases v with
    | other => exact other rfl rfl (by simp [offer]) h.stopping h.exit
    | record r =>
      simp only [offer]
      split_ifs with hc
      · exact other rfl rfl (by simp) h.stopping h.exit
      · exact other rfl rfl (by simp) h.stopping h.exit
      · refine other rfl rfl (by simp) h.stopping fun hd => ?_
        exact absurd (h.exit hd).2 hc
  | stats => exact other rfl rfl (by simp) h.stopping h.exit
  | flushEnter | flushWake =>
    simp only [flushEnter, flushWake]
    split_ifs <;> exact other rfl rfl (by simp) h.stopping h.exit
  | closeBegin =>
    simp only [closeBegin]
    split_ifs
    · exact other rfl rfl (by simp) h.stopping h.exit
    all_goals exact other rfl rfl (by simp) rfl (fun hd => ⟨(h.exit hd).1, rfl⟩)
  | joined | joinTimedOut => exact other rfl rfl (by simp) h.stopping h.exit
  | abandon =>
    exact other rfl rfl (by simp [abandon]) h.stopping (fun hd => ⟨rfl, (h.exit hd).2⟩)
  | acquire start now hw | wakeIdle start now hw _ =>
    exact batch start now (by rw [hw]; rfl) (by rw [hw]; rfl)
  | wakeLinger start now d hw =>
    have hp : s.worker.pastClose = false := by rw [hw]; rfl
    rcases lingerLoop_cases cfg { s with waiters := s.waiters.erase .worker } d now with hl | hl <;>
      rw [hl]
    · exact before hp rfl rfl (by simp) h.stopping (fun hx => by cases hx)
    · exact before hp (takeBatch_not_pastClose cfg _) rfl (by simp) h.stopping
        (fun hx => by rw [takeBatch_not_done] at hx; cases hx)
  | handOver todo hw | sinkEnds n todo o hw _ | settle hw =>
    exact before (by rw [hw]; rfl) rfl rfl (by simp) h.stopping (fun hx => by cases hx)
  | sinkDies => exact absurd rfl ha
  | count ok n todo hw =>
    have hp : s.worker.pastClose = false := by rw [hw]; rfl
    cases ok <;> cases todo <;>
      exact before hp rfl rfl (by simp [count]) h.stopping (fun hx => by cases hx)
  | finish hw =>
    have hd := h.exit (by rw [hw]; rfl)
    exact before (by rw [hw]; rfl) rfl rfl (by simp) h.stopping (fun _ => hd)
  | closeSink hw =>
    have hp : s.worker.pastClose = false := by rw [hw]; rfl
    have hd := h.exit (by rw [hw]; rfl)
    have hflag : s.sinkClosed = false := h.flag.trans hp
    have hnone : Event.sinkClosed ∉ evs := fun hm => by
      have := h.after hm
      rw [hp] at this
      cases this
    simp only [closeSink, hflag]
    cases hc : cfg.closable with
    | true =>
      exact
        { stopping := h.stopping
          exit := fun _ => hd
          order := List.pairwise_append.2 ⟨h.order, List.pairwise_singleton _ _,
            fun x hx y _ => noUse (fun he => hnone (he ▸ hx)) y⟩
          after := fun _ => rfl
          flag := rfl
          closed := fun _ _ => by simp }
    | false =>
      exact
        { stopping := h.stopping
          exit := fun _ => hd
          order := by simpa using h.order
          after := fun _ => rfl
          flag := rfl
          closed := fun _ hc' => by rw [hc] at hc'; cases hc' }
  | sinkCloseReturns o hw =>
    have hd := h.exit (by rw [hw]; rfl)
    have hmem : cfg.closable = true → Event.sinkClosed ∈ evs := h.closed (by rw [hw]; rfl)
    have hflag : s.sinkClosed = true := by rw [h.flag, hw]; rfl
    have horder : ∀ x ∈ (if o = .raised then [.warned .sinkCloseFailed] else [] : List (Event ρ)),
        x = .warned .sinkCloseFailed := by
      intro x hx
      split_ifs at hx
      · simpa using hx
      · cases hx
    exact
      { stopping := h.stopping
        exit := fun _ => hd
        order := by
          refine List.pairwise_append.2 ⟨h.order, ?_, ?_⟩
          · split_ifs <;> simp
          · intro x _ y hy
            rw [horder y hy]
            cases x <;> trivial
        after := fun _ => rfl
        flag := hflag
        closed := fun _ hc => List.mem_append_left _ (hmem hc) }

theorem run_sinkLife {cfg : Config} {as : List (Action ρ)} {evs : List (Event ρ)} {s : State ρ}
    (h : (emitter ρ cfg).run (.init ρ) as = some (s, evs)) (hexc : OnlyExceptions as) :
    SinkLife cfg evs s := by
  have key := Machine.run_induction (M := emitter ρ cfg)
    (I := fun as evs s => OnlyExceptions as → SinkLife cfg evs s)
    (fun _ => ⟨rfl, (fun hd => by cases hd), .nil, (fun hm => by cases hm), rfl,
      (fun hp => by cases hp)⟩)
    (fun as es s a t e ih hstep hexc =>
      step_sinkLife (ih (onlyExceptions_snoc.1 hexc).1) (onlyExceptions_snoc.1 hexc).2 hstep)
    h
  exact key hexc

/-- The sink's `close` has been called and is over. -/
def Action.isSinkClose : Action ρ → Bool
  | .sinkCloseReturns _ => true
  | _ => false

theorem takeBatch_not_stopped (cfg : Config) (s : State ρ) :
    (takeBatch cfg s).worker.isStopped = false := by
  unfold takeBatch
  dsimp only
  split_ifs <;> rfl

/-- A worker over a sink that has a `close` ends with the return of that `close` alone. -/
theorem step_isStopped {cfg : Config} {s t : State ρ} {a : Action ρ} {e : List (Event ρ)}
    (hflag : s.sinkClosed = s.worker.pastClose) (hclosable : cfg.closable = true)
    (h : step cfg s a = some (t, e)) :
    t.worker.isStopped = (s.worker.isStopped || a.isSinkClose) := by
  have stay : ∀ {t : State ρ}, t.worker = s.worker → a.isSinkClose = false →
      t.worker.isStopped = (s.worker.isStopped || a.isSinkClose) := fun hw ha => by
    rw [hw, ha, Bool.or_false]
  have next : ∀ start now, (nextBatch cfg s start now).worker.isStopped = false :=
    fun start now => by
      rcases nextBatch_cases cfg s start now with ⟨-, -, h'⟩ | ⟨w, hw, h'⟩ | h'
      · rw [h']
        rfl
      · rw [h']
        rcases hw with rfl | ⟨d, rfl⟩ <;> rfl
      · rw [h']
        exact takeBatch_not_stopped cfg s
  cases step_cases h with
  | offer v =>
    refine stay ?_ rfl
    cases v with
    | other => rfl
    | record r =>
      unfold offer
      dsimp only
      split_ifs <;> rfl
  | stats | joined | joinTimedOut | abandon => exact stay rfl rfl
  | flushEnter i timed _ =>
    refine stay ?_ rfl
    unfold flushEnter
    split_ifs <;> rfl
  | flushWake f late _ _ =>
    refine stay ?_ rfl
    unfold flushWake
    split_ifs <;> rfl
  | closeBegin onWorker =>
    refine stay ?_ rfl
    unfold closeBegin
    split_ifs <;> rfl
  | acquire start now hw | wakeIdle start now hw _ =>
    rw [next, hw]
    rfl
  | wakeLinger start now d hw =>
    rcases lingerLoop_cases cfg { s with waiters := s.waiters.erase .worker } d now with hl | hl
    · rw [hl, hw]
      rfl
    · rw [hl, hw]
      exact takeBatch_not_stopped cfg _
  | handOver todo hw | sinkEnds n todo o hw _ | sinkDies n todo hw | settle hw | finish hw =>
    rw [hw]
    rfl
  | count ok n todo hw =>
    rw [hw]
    cases ok <;> cases todo <;> rfl
  | closeSink hw =>
    rw [hw] at hflag ⊢
    have hopen : s.sinkClosed = false := hflag
    simp [closeSink, hopen, hclosable, Worker.isStopped, Action.isSinkClose]
  | sinkCloseReturns o hw =>
    rw [hw]
    rfl

/-! ### The account of a run -/

/-- Every accepted record is delivered, failed, abandoned, waiting or on its way. -/
theorem run_account {cfg : Config} {as : List (Action ρ)} {evs : List (Event ρ)} {s : State ρ}
    (h : (emitter ρ cfg).run (.init ρ) as = some (s, evs)) (hexc : OnlyExceptions as) :
    s.accepted = s.delivered + s.failed + s.droppedAtClose + s.buffer.length + s.pendingCount := by
  obtain ⟨l, hl⟩ := run_ledger h hexc
  have hlen := l.length_log
  rw [hl.log, ← hl.accepted, hl.delivered, hl.failed, hl.lost, ← hl.atClose, hl.waiting,
    hl.pending, hl.uncounted] at hlen
  exact hlen

/-- The account of a worker that has ended. -/
theorem run_account_stopped {cfg : Config} {as : List (Action ρ)} {evs : List (Event ρ)}
    {s : State ρ} (h : (emitter ρ cfg).run (.init ρ) as = some (s, evs))
    (hexc : OnlyExceptions as) (hw : s.worker = .stopped) :
    s.buffer = [] ∧ s.accepted = s.delivered + s.failed + s.droppedAtClose := by
  have hbuf := ((run_sinkLife h hexc).exit (by rw [hw]; rfl)).1
  refine ⟨hbuf, ?_⟩
  rw [run_account h hexc, hbuf, State.pendingCount, hw]
  rfl

/-- **Conservation, order and bound.** After every interleaving of callers and worker, for
every sink that raises only `Exception`s:

* the accepted records, in order, are those handed over, those of the in-flight batch not
  handed over, and those buffered, or abandoned once a timed-out close has emptied the buffer;
* every accepted record is counted delivered, failed or dropped at close, or is buffered, or is
  in flight and not counted yet;
* every offer has one verdict, which fits the value offered, and each verdict has its counter;
* the buffer and the batches keep their bounds;
* the sink is closed at most once and not used afterwards, and a worker that ended left nothing
  in the buffer and nothing uncounted. -/
theorem conservation (cfg : Config) (as : List (Action ρ)) (evs : List (Event ρ)) (s : State ρ)
    (h : (emitter ρ cfg).run (.init ρ) as = some (s, evs)) (hexc : OnlyExceptions as) :
    (acceptedOf evs = handedOf evs ++ s.worker.unhanded ++
        (if s.closer = .abandoned then abandonedOf evs else s.buffer)) ∧
      (s.accepted = (acceptedOf evs).length ∧
        s.droppedAtClose = (abandonedOf evs).length ∧
        s.accepted = s.delivered + s.failed + s.droppedAtClose + s.buffer.length +
          s.pendingCount) ∧
      (List.Forall₂ Verdict.fits (offersOf as) (verdictsOf evs) ∧
        s.accepted = (verdictsOf evs).count .accepted ∧
        s.droppedBufferFull = (verdictsOf evs).count (.refused .bufferFull) ∧
        s.droppedNotARecord = (verdictsOf evs).count (.refused .notARecord) ∧
        s.droppedClosed = (verdictsOf evs).count (.refused .emitterClosed)) ∧
      (s.buffer.length ≤ cfg.maxBuffer ∧
        ∀ rs ∈ batchesOf evs, rs ≠ [] ∧ rs.length ≤ cfg.batchSize) ∧
      (evs.Pairwise NoSinkUse ∧
        (s.worker = .stopped →
          s.buffer = [] ∧ s.accepted = s.delivered + s.failed + s.droppedAtClose)) := by
  obtain ⟨l, hl⟩ := run_ledger h hexc
  have ht := run_tally h
  have hb := run_bounded h
  have hs := run_sinkLife h hexc
  refine ⟨?_, ⟨hl.accepted, hl.atClose, run_account h hexc⟩,
    ⟨ht.fits, ht.accepted, ht.bufferFull, ht.notARecord, ht.closed⟩, ⟨hb.buffer, hb.batches⟩,
    hs.order, run_account_stopped h hexc⟩
  · have horder := l.conserved
    rw [hl.log, hl.batches, hl.pending, hl.lost, hl.waiting] at horder
    split_ifs with hc
    · rw [horder, hl.cleared hc, List.append_nil]
      rfl
    · rw [horder, hl.abandoned hc, List.append_nil]
      rfl

/-- Three records are accepted, one is refused by the full buffer, the first is in the sink when
the close times out, and the other two are abandoned. -/
theorem conservation_timed_out_close :
    let cfg : Config := ⟨2, 1, 0, false, true, by decide, by decide, le_rfl⟩
    let as : List (Action ℕ) :=
      [.offer (.record 1), .acquire 0 0, .handOver, .offer (.record 2), .offer (.record 3),
        .offer (.record 4), .offer .other, .closeBegin false, .joinTimedOut, .abandon]
    ∃ s evs, (emitter ℕ cfg).run (.init ℕ) as = some (s, evs) ∧
      acceptedOf evs = handedOf evs ++ s.worker.unhanded ++ abandonedOf evs ∧
      s.accepted = s.delivered + s.failed + s.droppedAtClose + s.buffer.length + s.pendingCount ∧
      (handedOf evs, abandonedOf evs) = ([1], [2, 3]) := by
  intro cfg as
  have h := conservation cfg as _ _ rfl (by simp [as, OnlyExceptions])
  exact ⟨_, _, rfl, h.1, h.2.1.2.2, rfl⟩

end Tokenweir.Emitter
