import Tokenweir.Lib.Ledger
import Tokenweir.Emitter.Model

/-!
# The buffered client keeps a ledger

The client refines the ledger of `Tokenweir.Lib.Ledger`: in every run in which the
sink raises only `Exception`s, the history and the state are those of a ledger
(`run_ledger`), each step of the client being one ledger operation or none. What
the ledger knows then holds of the client.

* `acceptedOf`, `batchesOf`, `abandonedOf`, `verdictsOf`, the parts of a history;
* `Books`, a history and a state agree with a ledger; `step_ledger`, `run_ledger`.
-/

namespace Tokenweir.Emitter

variable {ρ : Type}

/-! ### Histories -/

/-- How one `_offer` ended: in the buffer, or refused for a reason. -/
inductive Verdict
  | accepted
  | refused (w : Warning)
  deriving DecidableEq

def Event.acceptedPart : Event ρ → List ρ
  | .accepted r => [r]
  | _ => []

def Event.batchPart : Event ρ → List (List ρ)
  | .handed rs => [rs]
  | _ => []

def Event.abandonedPart : Event ρ → List ρ
  | .abandoned rs => rs
  | _ => []

def Event.verdictPart : Event ρ → List Verdict
  | .accepted _ => [.accepted]
  | .refused w => [.refused w]
  | _ => []

/-- The accepted records, in acceptance order. -/
def acceptedOf (evs : List (Event ρ)) : List ρ := evs.flatMap Event.acceptedPart

/-- The batches handed to the sink, in hand-off order. -/
def batchesOf (evs : List (Event ρ)) : List (List ρ) := evs.flatMap Event.batchPart

/-- The records handed to the sink, in hand-off order. -/
def handedOf (evs : List (Event ρ)) : List ρ := (batchesOf evs).flatten

/-- The records a timed-out `close` abandoned. -/
def abandonedOf (evs : List (Event ρ)) : List ρ := evs.flatMap Event.abandonedPart

/-- How the offers ended, in order. -/
def verdictsOf (evs : List (Event ρ)) : List Verdict := evs.flatMap Event.verdictPart

def Action.offerPart : Action ρ → List (Value ρ)
  | .offer v => [v]
  | _ => []

/-- The values offered, in the order of their `_offer` blocks. -/
def offersOf (as : List (Action ρ)) : List (Value ρ) := as.flatMap Action.offerPart

/-- No sink call ended with a `BaseException` that is not an `Exception`. -/
def OnlyExceptions (as : List (Action ρ)) : Prop := Action.sinkReturns .fatal ∉ as

theorem onlyExceptions_snoc {as : List (Action ρ)} {a : Action ρ} :
    OnlyExceptions (as ++ [a]) ↔ OnlyExceptions as ∧ a ≠ .sinkReturns .fatal := by
  unfold OnlyExceptions
  simp only [List.mem_append, List.mem_singleton, not_or, eq_comm]

section Append

variable (e : Event ρ) (es fs : List (Event ρ)) (as bs : List (Action ρ))

@[simp] theorem acceptedOf_append : acceptedOf (es ++ fs) = acceptedOf es ++ acceptedOf fs :=
  List.flatMap_append

@[simp] theorem batchesOf_append : batchesOf (es ++ fs) = batchesOf es ++ batchesOf fs :=
  List.flatMap_append

@[simp] theorem abandonedOf_append :
    abandonedOf (es ++ fs) = abandonedOf es ++ abandonedOf fs := List.flatMap_append

@[simp] theorem verdictsOf_append : verdictsOf (es ++ fs) = verdictsOf es ++ verdictsOf fs :=
  List.flatMap_append

@[simp] theorem offersOf_append : offersOf (as ++ bs) = offersOf as ++ offersOf bs :=
  List.flatMap_append

@[simp] theorem acceptedOf_nil : acceptedOf ([] : List (Event ρ)) = [] := rfl
@[simp] theorem batchesOf_nil : batchesOf ([] : List (Event ρ)) = [] := rfl
@[simp] theorem abandonedOf_nil : abandonedOf ([] : List (Event ρ)) = [] := rfl
@[simp] theorem verdictsOf_nil : verdictsOf ([] : List (Event ρ)) = [] := rfl

@[simp] theorem acceptedOf_cons : acceptedOf (e :: es) = e.acceptedPart ++ acceptedOf es := rfl
@[simp] theorem batchesOf_cons : batchesOf (e :: es) = e.batchPart ++ batchesOf es := rfl
@[simp] theorem abandonedOf_cons : abandonedOf (e :: es) = e.abandonedPart ++ abandonedOf es := rfl
@[simp] theorem verdictsOf_cons : verdictsOf (e :: es) = e.verdictPart ++ verdictsOf es := rfl

end Append

attribute [simp] Event.acceptedPart Event.batchPart Event.abandonedPart Event.verdictPart

/-! ### Refinement of the ledger -/

/-- The history `evs` and the state `s` agree with the ledger `l`. -/
structure Books (evs : List (Event ρ)) (s : State ρ) (l : Ledger ρ) : Prop where
  log : l.log = acceptedOf evs
  batches : l.batches = batchesOf evs
  pending : l.pending = s.worker.unhanded
  lost : l.lost = abandonedOf evs
  waiting : l.waiting = s.buffer
  delivered : l.delivered = s.delivered
  failed : l.failed = s.failed
  uncounted : l.uncounted = s.worker.uncounted
  accepted : s.accepted = (acceptedOf evs).length
  atClose : s.droppedAtClose = (abandonedOf evs).length
  closed : s.closer ≠ .none → s.closed = true
  abandoned : s.closer ≠ .abandoned → abandonedOf evs = []
  cleared : s.closer = .abandoned → s.buffer = []

/-- A step that touches neither the records nor the counters keeps the ledger. -/
theorem Books.frame {evs e : List (Event ρ)} {s t : State ρ} {l : Ledger ρ} (h : Books evs s l)
    (he : acceptedOf e = [] ∧ batchesOf e = [] ∧ abandonedOf e = [])
    (hw : t.worker.unhanded = s.worker.unhanded ∧ t.worker.uncounted = s.worker.uncounted)
    (hb : t.buffer = s.buffer)
    (hc : t.accepted = s.accepted ∧ t.delivered = s.delivered ∧ t.failed = s.failed ∧
      t.droppedAtClose = s.droppedAtClose)
    (hcl : t.closer ≠ .none → t.closed = true)
    (hab : t.closer = .abandoned ↔ s.closer = .abandoned) : Books (evs ++ e) t l := by
  obtain ⟨he₁, he₂, he₃⟩ := he
  obtain ⟨hc₁, hc₂, hc₃, hc₄⟩ := hc
  constructor
  · rw [acceptedOf_append, he₁, List.append_nil, h.log]
  · rw [batchesOf_append, he₂, List.append_nil, h.batches]
  · rw [hw.1, h.pending]
  · rw [abandonedOf_append, he₃, List.append_nil, h.lost]
  · rw [hb, h.waiting]
  · rw [hc₂, h.delivered]
  · rw [hc₃, h.failed]
  · rw [hw.2, h.uncounted]
  · rw [acceptedOf_append, he₁, List.append_nil, hc₁, h.accepted]
  · rw [abandonedOf_append, he₃, List.append_nil, hc₄, h.atClose]
  · exact hcl
  · rw [abandonedOf_append, he₃, List.append_nil]
    exact fun hn => h.abandoned fun ha => hn (hab.2 ha)
  · rw [hb]
    exact fun ha => h.cleared (hab.1 ha)

theorem Books.takeBatch {evs : List (Event ρ)} {s : State ρ} {l : Ledger ρ} (cfg : Config)
    (h : Books evs s l) (hw : s.worker.unhanded = []) (hu : s.worker.uncounted = 0) :
    ∃ l', Books evs (takeBatch cfg s) l' := by
  have hp : l.pending = [] := h.pending.trans hw
  refine ⟨l.take (min s.buffer.length cfg.batchSize) hp, ?_⟩
  exact
    { h with
      pending := by rw [takeBatch_unhanded, Ledger.take_pending, h.waiting]
      waiting := by rw [Ledger.take_waiting, h.waiting]; rfl
      uncounted := by rw [takeBatch_uncounted, Ledger.take_uncounted, h.uncounted, hu]
      cleared := fun hc => by
        show s.buffer.drop _ = []
        rw [h.cleared hc, List.drop_nil] }

theorem Books.offer {evs : List (Event ρ)} {s : State ρ} {l : Ledger ρ} (cfg : Config)
    (h : Books evs s l) (v : Value ρ) :
    ∃ l', Books (evs ++ (offer cfg s v).2) (offer cfg s v).1 l' := by
  cases v with
  | other => exact ⟨l, h.frame ⟨rfl, rfl, rfl⟩ ⟨rfl, rfl⟩ rfl ⟨rfl, rfl, rfl, rfl⟩
      h.closed Iff.rfl⟩
  | record r =>
    simp only [Emitter.offer]
    split
    · exact ⟨l, h.frame ⟨rfl, rfl, rfl⟩ ⟨rfl, rfl⟩ rfl ⟨rfl, rfl, rfl, rfl⟩
      h.closed Iff.rfl⟩
    · rename_i hopen
      split
      · exact ⟨l, h.frame ⟨rfl, rfl, rfl⟩ ⟨rfl, rfl⟩ rfl ⟨rfl, rfl, rfl, rfl⟩
      h.closed Iff.rfl⟩
      · -- accepted: nobody closed, so nothing was abandoned
        have hnone : s.closer = .none := by
          by_contra hn
          exact hopen (h.closed hn)
        have hlost : abandonedOf evs = [] := h.abandoned (by rw [hnone]; decide)
        refine ⟨l.accept r (h.lost.trans hlost), ?_⟩
        exact
          { log := by simp [h.log]
            batches := by simp [h.batches]
            pending := h.pending
            lost := by simp [h.lost]
            waiting := by simp [h.waiting, State.notify]
            delivered := h.delivered
            failed := h.failed
            uncounted := h.uncounted
            accepted := by simp [h.accepted, State.notify]
            atClose := by simp [h.atClose, State.notify]
            closed := h.closed
            abandoned := fun _ => by simp [hlost]
            cleared := fun ha => by
              have : s.closer = .abandoned := ha
              rw [hnone] at this
              cases this }

theorem Books.handOver {evs : List (Event ρ)} {s : State ρ} {l : Ledger ρ} (cfg : Config)
    (h : Books evs s l) {todo : List ρ} (hw : s.worker = .deliver todo) :
    ∃ l', Books (evs ++ [.handed (handed cfg todo)])
      { s with worker := .inSink (handed cfg todo).length (unhandedAfter cfg todo) } l' := by
  have hp : l.pending = todo := by rw [h.pending, hw]; rfl
  have hu : l.uncounted = 0 := by rw [h.uncounted, hw]; rfl
  let n := if cfg.batchSink then todo.length else 1
  have htake : todo.take n = handed cfg todo := by
    unfold handed
    cases hb : cfg.batchSink <;> simp [n, hb]
  have hdrop : todo.drop n = unhandedAfter cfg todo := by
    unfold unhandedAfter
    cases hb : cfg.batchSink <;> simp [n, hb]
  refine ⟨l.hand n hu, ?_⟩
  exact
    { log := by simp [h.log]
      batches := by simp only [Ledger.hand_batches, hp, htake, h.batches]; simp
      pending := by rw [Ledger.hand_pending, hp, hdrop]; rfl
      lost := by simp [h.lost]
      waiting := h.waiting
      delivered := h.delivered
      failed := h.failed
      uncounted := by rw [Ledger.hand_uncounted, hp, htake]; rfl
      accepted := by simp [h.accepted]
      atClose := by simp [h.atClose]
      closed := h.closed
      abandoned := fun hc => by simp [h.abandoned hc]
      cleared := h.cleared }

theorem Books.count {evs : List (Event ρ)} {s : State ρ} {l : Ledger ρ} (h : Books evs s l)
    {ok : Bool} {n : ℕ} {todo : List ρ} (hw : s.worker = .count ok n todo) :
    ∃ l', Books (evs ++ (count s ok n todo).2) (count s ok n todo).1 l' := by
  have hp : l.pending = todo := by rw [h.pending, hw]; rfl
  have hu : l.uncounted = n := by rw [h.uncounted, hw]; rfl
  have hnext : ((if todo.isEmpty then .settle else .deliver todo : Worker ρ).unhanded = todo ∧
      (if todo.isEmpty then .settle else .deliver todo : Worker ρ).uncounted = 0) := by
    cases todo <;> exact ⟨rfl, rfl⟩
  refine ⟨l.count ok, ?_⟩
  cases ok with
  | true =>
    exact
      { log := by simp [Emitter.count, h.log]
        batches := by simp [Emitter.count, h.batches]
        pending := hp.trans hnext.1.symm
        lost := by simp [Emitter.count, h.lost]
        waiting := h.waiting
        delivered := by simp [Emitter.count, h.delivered, hu]
        failed := by simp [Emitter.count, h.failed]
        uncounted := hnext.2.symm
        accepted := by simp [Emitter.count, h.accepted]
        atClose := by simp [Emitter.count, h.atClose]
        closed := h.closed
        abandoned := fun hc => by simpa [Emitter.count] using h.abandoned hc
        cleared := h.cleared }
  | false =>
    exact
      { log := by simp [Emitter.count, h.log]
        batches := by simp [Emitter.count, h.batches]
        pending := hp.trans hnext.1.symm
        lost := by simp [Emitter.count, h.lost]
        waiting := h.waiting
        delivered := by simp [Emitter.count, h.delivered]
        failed := by simp [Emitter.count, h.failed, hu]
        uncounted := hnext.2.symm
        accepted := by simp [Emitter.count, h.accepted]
        atClose := by simp [Emitter.count, h.atClose]
        closed := h.closed
        abandoned := fun hc => by simpa [Emitter.count] using h.abandoned hc
        cleared := h.cleared }

theorem Books.abandon {evs : List (Event ρ)} {s : State ρ} {l : Ledger ρ} (h : Books evs s l)
    (hc : s.closer = .timedOut) : ∃ l', Books (evs ++ (abandon s).2) (abandon s).1 l' := by
  have hnone : abandonedOf evs = [] := h.abandoned (by rw [hc]; decide)
  have hzero : s.droppedAtClose = 0 := by rw [h.atClose, hnone]; rfl
  refine ⟨l.abandon (h.lost.trans hnone), ?_⟩
  exact
    { log := by simp [Emitter.abandon, h.log]
      batches := by simp [Emitter.abandon, h.batches]
      pending := h.pending
      lost := by simp [Emitter.abandon, hnone, h.waiting]
      waiting := rfl
      delivered := h.delivered
      failed := h.failed
      uncounted := h.uncounted
      accepted := by simp [Emitter.abandon, h.accepted]
      atClose := by simp [Emitter.abandon, hnone, hzero]
      closed := fun _ => h.closed (by rw [hc]; decide)
      abandoned := fun hn => absurd rfl hn
      cleared := fun _ => rfl }

section Steps

variable {cfg : Config} {evs e : List (Event ρ)} {s t : State ρ} {l : Ledger ρ}

/-- Every step of the client is one operation of the ledger, or none. -/
theorem step_ledger {a : Action ρ} (h : Books evs s l) (ha : a ≠ .sinkReturns .fatal)
    (hstep : step cfg s a = some (t, e)) : ∃ l', Books (evs ++ e) t l' := by
  have quiet : ∀ {t : State ρ} {e : List (Event ρ)},
      (acceptedOf e = [] ∧ batchesOf e = [] ∧ abandonedOf e = []) →
      (t.worker.unhanded = s.worker.unhanded ∧ t.worker.uncounted = s.worker.uncounted) →
      t.buffer = s.buffer →
      (t.accepted = s.accepted ∧ t.delivered = s.delivered ∧ t.failed = s.failed ∧
        t.droppedAtClose = s.droppedAtClose) →
      (t.closer = s.closer ∧ t.closed = s.closed) → ∃ l', Books (evs ++ e) t l' := by
    intro t e he hw hb hc hcl
    exact ⟨l, h.frame he hw hb hc (by rw [hcl.1, hcl.2]; exact h.closed) (by rw [hcl.1])⟩
  have batch : ∀ start now, s.worker.unhanded = [] → s.worker.uncounted = 0 →
      ∃ l', Books (evs ++ []) (nextBatch cfg s start now) l' := by
    intro start now hp hu
    rcases nextBatch_cases cfg s start now with ⟨-, -, h'⟩ | ⟨w, hw, h'⟩ | h'
    · rw [h']
      exact quiet ⟨rfl, rfl, rfl⟩ ⟨hp.symm, hu.symm⟩ rfl ⟨rfl, rfl, rfl, rfl⟩ ⟨rfl, rfl⟩
    · rw [h']
      rcases hw with rfl | ⟨d, rfl⟩ <;>
        exact quiet ⟨rfl, rfl, rfl⟩ ⟨hp.symm, hu.symm⟩ rfl ⟨rfl, rfl, rfl, rfl⟩ ⟨rfl, rfl⟩
    · rw [h', List.append_nil]
      exact h.takeBatch cfg hp hu
  cases step_cases hstep with
  | offer v => exact h.offer cfg v
  | stats => exact quiet ⟨rfl, rfl, rfl⟩ ⟨rfl, rfl⟩ rfl ⟨rfl, rfl, rfl, rfl⟩ ⟨rfl, rfl⟩
  | flushEnter i timed _ =>
    unfold flushEnter
    split_ifs <;> exact quiet ⟨rfl, rfl, rfl⟩ ⟨rfl, rfl⟩ rfl ⟨rfl, rfl, rfl, rfl⟩ ⟨rfl, rfl⟩
  | flushWake f late _ _ =>
    unfold flushWake
    split_ifs <;> exact quiet ⟨rfl, rfl, rfl⟩ ⟨rfl, rfl⟩ rfl ⟨rfl, rfl, rfl, rfl⟩ ⟨rfl, rfl⟩
  | closeBegin onWorker =>
    unfold closeBegin
    split
    · exact quiet ⟨rfl, rfl, rfl⟩ ⟨rfl, rfl⟩ rfl ⟨rfl, rfl, rfl, rfl⟩ ⟨rfl, rfl⟩
    · rename_i hopen
      have hnone : s.closer = .none := by
        by_contra hn
        exact hopen (h.closed hn)
      refine ⟨l, h.frame ⟨rfl, rfl, rfl⟩ ⟨rfl, rfl⟩ rfl ⟨rfl, rfl, rfl, rfl⟩ (fun _ => rfl) ?_⟩
      cases onWorker <;> simp [State.notifyAll, hnone]
  | joined hc _ | joinTimedOut hc _ =>
    exact ⟨l, h.frame ⟨rfl, rfl, rfl⟩ ⟨rfl, rfl⟩ rfl ⟨rfl, rfl, rfl, rfl⟩
      (fun _ => h.closed (by rw [hc]; decide)) (by simp [hc])⟩
  | abandon hc => exact h.abandon hc
  | acquire start now hw | wakeIdle start now hw _ =>
    exact batch start now (by rw [hw]; rfl) (by rw [hw]; rfl)
  | wakeLinger start now d hw =>
    have hp : s.worker.unhanded = [] := by rw [hw]; rfl
    have hu : s.worker.uncounted = 0 := by rw [hw]; rfl
    have h' : Books evs { s with waiters := s.waiters.erase .worker } l := { h with }
    rcases lingerLoop_cases cfg { s with waiters := s.waiters.erase .worker } d now with hl | hl
    · rw [hl]
      exact quiet ⟨rfl, rfl, rfl⟩ ⟨hp.symm, hu.symm⟩ rfl ⟨rfl, rfl, rfl, rfl⟩ ⟨rfl, rfl⟩
    · rw [hl, List.append_nil]
      exact h'.takeBatch cfg hp hu
  | handOver todo hw => exact h.handOver cfg hw
  | sinkEnds n todo o hw _ =>
    exact quiet ⟨rfl, rfl, rfl⟩ (by rw [hw]; exact ⟨rfl, rfl⟩) rfl ⟨rfl, rfl, rfl, rfl⟩ ⟨rfl, rfl⟩
  | sinkDies => exact absurd rfl ha
  | count ok n todo hw => exact h.count hw
  | settle hw | finish hw =>
    exact quiet ⟨rfl, rfl, rfl⟩ (by rw [hw]; exact ⟨rfl, rfl⟩) rfl ⟨rfl, rfl, rfl, rfl⟩ ⟨rfl, rfl⟩
  | closeSink hw =>
    unfold closeSink
    split_ifs <;>
      exact quiet ⟨rfl, rfl, rfl⟩ (by rw [hw]; exact ⟨rfl, rfl⟩) rfl ⟨rfl, rfl, rfl, rfl⟩ ⟨rfl, rfl⟩
  | sinkCloseReturns o hw =>
    refine quiet ?_ (by rw [hw]; exact ⟨rfl, rfl⟩) rfl ⟨rfl, rfl, rfl, rfl⟩ ⟨rfl, rfl⟩
    split_ifs <;> exact ⟨rfl, rfl, rfl⟩

end Steps

/-- **The client refines the ledger**: as long as the sink raises only `Exception`s, its
history and its state are those of an account. -/
theorem run_ledger {cfg : Config} {as : List (Action ρ)} {evs : List (Event ρ)}
    {s : State ρ} (h : (emitter ρ cfg).run (.init ρ) as = some (s, evs))
    (hexc : OnlyExceptions as) : ∃ l, Books evs s l := by
  have key := Machine.run_induction (M := emitter ρ cfg)
    (I := fun as evs s => OnlyExceptions as → ∃ l, Books evs s l)
    (fun _ => ⟨.empty, ⟨rfl, rfl, rfl, rfl, rfl, rfl, rfl, rfl, rfl, rfl, fun hn => absurd rfl hn,
      fun _ => rfl, fun ha => by cases ha⟩⟩)
    (by
      intro as es s a t e ih hstep hexc
      obtain ⟨l, hl⟩ := ih (onlyExceptions_snoc.1 hexc).1
      exact step_ledger hl (onlyExceptions_snoc.1 hexc).2 hstep)
    h
  exact key hexc

/-! ### The batches of every run -/

/-- The worker is in a sink call. -/
def Worker.inCall : Worker ρ → Bool
  | .inSink _ _ => true
  | _ => false

theorem Worker.inCall_of_done {w : Worker ρ} (h : w.done = true) : w.inCall = false := by
  cases w <;> first | rfl | cases h

/-- A batch is handed over by `handOver` alone, and a sink call ends with `sinkReturns` alone; a
worker past its last batch stays there. -/
theorem step_inCall {cfg : Config} {s t : State ρ} {a : Action ρ} {e : List (Event ρ)}
    (h : step cfg s a = some (t, e)) :
    (∃ todo, a = .handOver ∧ s.worker = .deliver todo ∧ t.worker.inCall = true ∧
        e = [.handed (handed cfg todo)]) ∨
      (∃ o, a = .sinkReturns o ∧ s.worker.inCall = true ∧ t.worker.inCall = false ∧
        (o = .fatal → t.worker.done = true) ∧ batchesOf e = []) ∨
      ((∀ o, a ≠ .sinkReturns o) ∧ t.worker.inCall = s.worker.inCall ∧
        (s.worker.done = true → t.worker.done = true) ∧ batchesOf e = []) := by
  have stay : ∀ {t : State ρ} {e : List (Event ρ)}, (∀ o, a ≠ .sinkReturns o) →
      t.worker = s.worker → batchesOf e = [] →
      (∀ o, a ≠ .sinkReturns o) ∧ t.worker.inCall = s.worker.inCall ∧
        (s.worker.done = true → t.worker.done = true) ∧ batchesOf e = [] :=
    fun ha hw he => ⟨ha, by rw [hw], fun hd => by rwa [hw], he⟩
  have take : ∀ s : State ρ, (takeBatch cfg s).worker.inCall = false := fun s => by
    unfold takeBatch
    dsimp only
    split_ifs <;> rfl
  have next : ∀ start now, (nextBatch cfg s start now).worker.inCall = false := fun start now => by
    rcases nextBatch_cases cfg s start now with ⟨-, -, h'⟩ | ⟨w, hw, h'⟩ | h'
    · rw [h']
      rfl
    · rw [h']
      rcases hw with rfl | ⟨d, rfl⟩ <;> rfl
    · rw [h']
      exact take s
  cases step_cases h with
  | offer v =>
    cases v with
    | other => exact .inr (.inr (stay (by simp) rfl rfl))
    | record r =>
      refine .inr (.inr (stay (by simp) ?_ ?_)) <;> unfold offer <;> dsimp only <;> split_ifs <;>
        rfl
  | stats => exact .inr (.inr (stay (by simp) rfl rfl))
  | flushEnter i timed _ =>
    refine .inr (.inr (stay (by simp) ?_ ?_)) <;> unfold flushEnter <;> split_ifs <;> rfl
  | flushWake f late _ _ =>
    refine .inr (.inr (stay (by simp) ?_ ?_)) <;> unfold flushWake <;> split_ifs <;> rfl
  | closeBegin onWorker =>
    refine .inr (.inr (stay (by simp) ?_ rfl))
    unfold closeBegin
    by_cases hc : s.closed = true
    · rw [if_pos hc]
    · rw [if_neg hc]
      rfl
  | joined | joinTimedOut | abandon => exact .inr (.inr (stay (by simp) rfl rfl))
  | acquire start now hw | wakeIdle start now hw _ =>
    exact .inr (.inr ⟨by simp, by rw [next, hw]; rfl, fun hd => (by rw [hw] at hd; cases hd), rfl⟩)
  | wakeLinger start now d hw =>
    have hout : s.worker.inCall = false := by rw [hw]; rfl
    refine .inr (.inr ⟨by simp, ?_, fun hd => (by rw [hw] at hd; cases hd), rfl⟩)
    rcases lingerLoop_cases cfg { s with waiters := s.waiters.erase .worker } d now with hl | hl
    · rw [hl, hout]
      rfl
    · rw [hl, hout]
      exact take _
  | handOver todo hw => exact .inl ⟨todo, rfl, hw, rfl, rfl⟩
  | sinkEnds n todo o hw ho =>
    exact .inr (.inl ⟨o, rfl, by rw [hw]; rfl, rfl, fun hf => absurd hf ho, rfl⟩)
  | sinkDies n todo hw =>
    exact .inr (.inl ⟨.fatal, rfl, by rw [hw]; rfl, rfl, fun _ => rfl, rfl⟩)
  | count ok n todo hw =>
    refine .inr (.inr ⟨by simp, ?_, fun hd => (by rw [hw] at hd; cases hd), ?_⟩)
    · rw [hw]
      cases ok <;> cases todo <;> rfl
    · cases ok <;> rfl
  | settle hw =>
    exact .inr (.inr ⟨by simp, by rw [hw]; rfl, fun hd => (by rw [hw] at hd; cases hd), rfl⟩)
  | finish hw =>
    exact .inr (.inr ⟨by simp, by rw [hw]; rfl, fun _ => rfl, rfl⟩)
  | closeSink hw =>
    refine .inr (.inr ⟨by simp, ?_, fun _ => ?_, ?_⟩)
    · rw [hw]
      unfold closeSink
      split_ifs <;> rfl
    · unfold closeSink
      split_ifs <;> rfl
    · unfold closeSink
      split_ifs <;> rfl
  | sinkCloseReturns o hw =>
    refine .inr (.inr ⟨by simp, by rw [hw]; rfl, fun _ => rfl, ?_⟩)
    split_ifs <;> rfl

/-- In a sink call the worker stays where it is until the call ends. -/
theorem step_of_inSink {cfg : Config} {s t : State ρ} {a : Action ρ} {e : List (Event ρ)} {n : ℕ}
    {todo : List ρ} (hin : s.worker = .inSink n todo) (ha : ∀ o, a ≠ .sinkReturns o)
    (h : step cfg s a = some (t, e)) : t.worker = .inSink n todo := by
  cases step_cases h with
  | offer v =>
    cases v with
    | other => exact hin
    | record r =>
      unfold offer
      dsimp only
      split_ifs <;> exact hin
  | stats | joined | joinTimedOut | abandon => exact hin
  | flushEnter i timed _ =>
    unfold flushEnter
    split_ifs <;> exact hin
  | flushWake f late _ _ =>
    unfold flushWake
    split_ifs <;> exact hin
  | closeBegin onWorker =>
    unfold closeBegin
    split_ifs <;> exact hin
  | sinkEnds _ _ o => exact absurd rfl (ha o)
  | sinkDies => exact absurd rfl (ha .fatal)
  | acquire _ _ hw | wakeIdle _ _ hw | wakeLinger _ _ _ hw | handOver _ hw | count _ _ _ hw
  | settle hw | finish hw | closeSink hw | sinkCloseReturns _ hw =>
    rw [hin] at hw
    cases hw

/-- **What was handed over is a first part of what was accepted**, in acceptance order, also
after a sink call that killed the worker. -/
theorem run_handed_prefix {cfg : Config} {as : List (Action ρ)} {evs : List (Event ρ)}
    {s : State ρ} (h : (emitter ρ cfg).run (.init ρ) as = some (s, evs)) :
    handedOf evs <+: acceptedOf evs := by
  have key := Machine.run_induction (M := emitter ρ cfg)
    (I := fun _ evs s => (∃ l, Books evs s l) ∨
      s.worker.done = true ∧ handedOf evs <+: acceptedOf evs)
    (.inl ⟨.empty, ⟨rfl, rfl, rfl, rfl, rfl, rfl, rfl, rfl, rfl, rfl, fun hn => absurd rfl hn,
      fun _ => rfl, fun ha => by cases ha⟩⟩)
    (by
      intro as es s a t e ih hstep
      have hbooks : (∃ l, Books es s l) → handedOf es <+: acceptedOf es := by
        rintro ⟨l, hl⟩
        have := l.batches_prefix
        rwa [hl.batches, hl.log] at this
      have hquiet : batchesOf e = [] → handedOf es <+: acceptedOf es →
          handedOf (es ++ e) <+: acceptedOf (es ++ e) := fun he hpre => by
        rw [handedOf, batchesOf_append, he, List.append_nil, acceptedOf_append]
        exact hpre.trans (List.prefix_append _ _)
      rcases ih with hl | ⟨hdone, hpre⟩
      · by_cases ha : a = .sinkReturns .fatal
        · rcases step_inCall hstep with ⟨todo, hno, -⟩ | ⟨o, ho, -, -, hd, he⟩ | ⟨hno, -⟩
          · rw [ha] at hno
            cases hno
          · rw [ha] at ho
            obtain rfl := Action.sinkReturns.inj ho
            exact .inr ⟨hd rfl, hquiet he (hbooks hl)⟩
          · exact absurd ha (hno _)
        · obtain ⟨l, hl⟩ := hl
          exact .inl (step_ledger hl ha hstep)
      · right
        rcases step_inCall hstep with ⟨todo, -, hw, -⟩ | ⟨o, -, hin, -⟩ | ⟨-, -, hd, he⟩
        · rw [hw] at hdone
          cases hdone
        · rw [Worker.inCall_of_done hdone] at hin
          cases hin
        · exact ⟨hd hdone, hquiet he hpre⟩)
    h
  rcases key with ⟨l, hl⟩ | ⟨-, hpre⟩
  · have := l.batches_prefix
    rwa [hl.batches, hl.log] at this
  · exact hpre

/-- **A sink that does not raise loses nothing.** -/
theorem run_failed_eq_zero {cfg : Config} {as : List (Action ρ)} {evs : List (Event ρ)}
    {s : State ρ} (h : (emitter ρ cfg).run (.init ρ) as = some (s, evs))
    (hraised : Action.sinkReturns .raised ∉ as) : s.failed = 0 := by
  have key := Machine.run_induction (M := emitter ρ cfg)
    (I := fun as _ s => Action.sinkReturns .raised ∉ as →
      s.failed = 0 ∧ ∀ n todo, s.worker ≠ .count false n todo)
    (fun _ => ⟨rfl, fun _ _ hw => by cases hw⟩)
    (by
      intro as es s a t e ih hstep hraised
      rw [List.mem_append, not_or, List.mem_singleton] at hraised
      obtain ⟨hzero, hcount⟩ := ih hraised.1
      have take : ∀ s : State ρ, s.failed = 0 → (takeBatch cfg s).failed = 0 ∧
          ∀ n todo, (takeBatch cfg s).worker ≠ .count false n todo := fun s hs => by
        refine ⟨hs, fun n todo hw => ?_⟩
        unfold takeBatch at hw
        dsimp only at hw
        split_ifs at hw
      have next : ∀ start now, (nextBatch cfg s start now).failed = 0 ∧
          ∀ n todo, (nextBatch cfg s start now).worker ≠ .count false n todo := fun start now => by
        rcases nextBatch_cases cfg s start now with ⟨-, -, h'⟩ | ⟨w, hw, h'⟩ | h'
        · rw [h']
          exact ⟨hzero, fun _ _ hw => by cases hw⟩
        · rw [h']
          rcases hw with rfl | ⟨d, rfl⟩ <;> exact ⟨hzero, fun _ _ hw => by cases hw⟩
        · rw [h']
          exact take s hzero
      cases step_cases hstep with
      | offer v =>
        unfold offer
        cases v with
        | other => exact ⟨hzero, hcount⟩
        | record r => dsimp only; split_ifs <;> exact ⟨hzero, hcount⟩
      | stats => exact ⟨hzero, hcount⟩
      | flushEnter i timed _ => unfold flushEnter; split_ifs <;> exact ⟨hzero, hcount⟩
      | flushWake f late _ _ => unfold flushWake; split_ifs <;> exact ⟨hzero, hcount⟩
      | closeBegin onWorker =>
        unfold closeBegin
        by_cases hc : s.closed = true
        · rw [if_pos hc]
          exact ⟨hzero, hcount⟩
        · rw [if_neg hc]
          exact ⟨hzero, hcount⟩
      | joined | joinTimedOut | abandon => exact ⟨hzero, hcount⟩
      | acquire start now | wakeIdle start now => exact next start now
      | wakeLinger start now d hw =>
        rcases lingerLoop_cases cfg { s with waiters := s.waiters.erase .worker } d now with
          hl | hl
        · rw [hl]
          exact ⟨hzero, fun _ _ hw => by cases hw⟩
        · rw [hl]
          exact take _ hzero
      | handOver todo | sinkDies | settle | finish | sinkCloseReturns =>
        exact ⟨hzero, fun _ _ hw => by cases hw⟩
      | sinkEnds n todo o hw ho =>
        refine ⟨hzero, fun m todo' hw' => ?_⟩
        have ho' : o = .returned := by
          cases o with
          | returned => rfl
          | raised => exact absurd rfl hraised.2
          | fatal => exact absurd rfl ho
        subst ho'
        cases hw'
      | count ok n todo hw =>
        cases ok with
        | false => exact absurd hw (hcount n todo)
        | true =>
          refine ⟨hzero, fun m todo' hw' => ?_⟩
          cases todo <;> cases hw'
      | closeSink hw =>
        unfold closeSink
        split_ifs <;> exact ⟨hzero, fun _ _ hw => by cases hw⟩)
    h
  exact (key hraised).1

end Tokenweir.Emitter
