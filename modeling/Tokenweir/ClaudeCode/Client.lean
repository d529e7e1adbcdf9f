import Mathlib.Tactic
import Tokenweir.ClaudeCode.Hook

/-!
# The delivery of one record

A run of the hook offers at most one record to its client. What its worker has stored, and
what `stats` and the drop counter then say, whatever the order of the steps.

* `load`, `credited`, the record's place in the client;
* `Delivery.Sound`, the invariant; it is kept by every step of the client
  (`Delivery.Sound.step`) and by the end of a sink call (`Delivery.Sound.sinkReturns`);
* `Delivery.Sound.stored_of_kept`, what is kept was stored.
-/

namespace Tokenweir.ClaudeCode

open Emitter (Worker State Outcome)

/-- The records the client holds or has dealt with. -/
def load (c : State UsageRecord) : ℕ :=
  c.buffer.length + c.worker.unhanded.length + c.worker.uncounted + c.delivered + c.failed

/-- The records of a sink call that returned and is not counted yet. -/
def returnedInCall : Worker UsageRecord → ℕ
  | .count true n _ => n
  | _ => 0

/-- The records of the sink calls that returned. -/
def credited (c : State UsageRecord) : ℕ := c.delivered + returnedInCall c.worker

theorem credited_le_load (c : State UsageRecord) : credited c ≤ load c := by
  have : returnedInCall c.worker ≤ c.worker.uncounted := by
    cases c.worker with
    | count ok n todo => cases ok <;> simp [returnedInCall, Worker.uncounted]
    | _ => simp [returnedInCall]
  unfold credited load
  omega

/-- The run's delivery `d`, which has stored `st`. -/
structure Delivery.Sound (d : Delivery) (st : List UsageRecord) : Prop where
  load_le : load d.client ≤ d.record.toList.length
  items : ∀ x ∈ d.client.buffer ++ d.client.worker.unhanded, d.record = some x
  call : ∀ n todo, d.client.worker = .inSink n todo →
    d.inCall.length = n ∧ 1 ≤ n ∧ ∀ x ∈ d.inCall, d.record = some x
  nonempty : ∀ todo, d.client.worker = .deliver todo → todo ≠ []
  credit : d.degraded = false → credited d.client = st.length + d.drops
  nothing : d.degraded = true → st = []
  unnamed : d.droppedBefore = none → d.drops = 0
  stored : ∀ x ∈ st, d.record = some x

/-- A client before anything is offered to it. -/
theorem Delivery.sound_init (scan : ScanResult) (cfg : Emitter.Config) (degraded : Bool)
    (droppedBefore : Option ℕ) :
    (Delivery.mk scan cfg (.init UsageRecord) none degraded droppedBefore 0 []).Sound [] where
  load_le := le_rfl
  items x hx := by cases hx
  call n todo h := by cases h
  nonempty todo h := by cases h
  credit _ := rfl
  nothing _ := rfl
  unnamed _ := rfl
  stored x hx := by cases hx

/-- A step that leaves the worker where it is; the buffer may be cleared. -/
theorem Delivery.Sound.frame {d : Delivery} {st : List UsageRecord} (h : d.Sound st)
    {c : State UsageRecord} (hb : c.buffer.Sublist d.client.buffer)
    (hw : c.worker = d.client.worker) (hd : c.delivered = d.client.delivered)
    (hf : c.failed = d.client.failed) : Delivery.Sound { d with client := c } st := by
  refine ⟨?_, ?_, ?_, ?_, ?_, h.nothing, h.unnamed, h.stored⟩
  · have hload := h.load_le
    have hlen := hb.length_le
    unfold load at hload ⊢
    simp only [hw, hd, hf]
    omega
  · intro x hx
    simp only [hw, List.mem_append] at hx
    exact h.items x (List.mem_append.2 (hx.imp_left fun hx => hb.subset hx))
  · exact fun n todo hin => h.call n todo (hw ▸ hin)
  · exact fun todo hin => h.nonempty todo (hw ▸ hin)
  · intro hdeg
    have := h.credit hdeg
    unfold credited at this ⊢
    rwa [hw, hd]

/-- A step of the worker outside a sink call. -/
theorem Delivery.Sound.moved {d : Delivery} {st : List UsageRecord} (h : d.Sound st)
    {c : State UsageRecord} {rs : List UsageRecord} (hload : load c ≤ load d.client)
    (hitems : ∀ x ∈ c.buffer ++ c.worker.unhanded,
      x ∈ d.client.buffer ++ d.client.worker.unhanded)
    (hcall : ∀ n todo, c.worker = .inSink n todo → rs.length = n ∧ 1 ≤ n ∧
      ∀ x ∈ rs, x ∈ d.client.buffer ++ d.client.worker.unhanded)
    (hne : ∀ todo, c.worker = .deliver todo → todo ≠ [])
    (hcredit : credited c = credited d.client) :
    Delivery.Sound { d with client := c, inCall := rs } st := by
  refine ⟨hload.trans h.load_le, fun x hx => h.items x (hitems x hx), ?_, hne,
    fun hdeg => hcredit.trans (h.credit hdeg), h.nothing, h.unnamed, h.stored⟩
  intro n todo hin
  obtain ⟨hlen, hpos, hmem⟩ := hcall n todo hin
  exact ⟨hlen, hpos, fun x hx => h.items x (hmem x hx)⟩

/-- The places of a worker that holds nothing. -/
def Passive : Worker UsageRecord → Prop
  | .deliver _ | .inSink _ _ | .count _ _ _ => False
  | _ => True

/-- A worker that holds nothing moves on to hold nothing. -/
theorem Delivery.Sound.passed {d : Delivery} {st : List UsageRecord} (h : d.Sound st)
    {c : State UsageRecord} (hwas : Passive d.client.worker) (his : Passive c.worker)
    (hb : c.buffer = d.client.buffer) (hd : c.delivered = d.client.delivered)
    (hf : c.failed = d.client.failed) : Delivery.Sound { d with client := c } st := by
  have hnone : ∀ w : Worker UsageRecord, Passive w →
      w.unhanded = [] ∧ w.uncounted = 0 ∧ returnedInCall w = 0 := by
    intro w hw
    cases w <;> first | exact hw.elim | exact ⟨rfl, rfl, rfl⟩
  obtain ⟨hwas₁, hwas₂, hwas₃⟩ := hnone _ hwas
  obtain ⟨his₁, his₂, his₃⟩ := hnone _ his
  refine h.moved ?_ ?_ ?_ ?_ ?_
  · unfold load
    rw [hwas₁, hwas₂, his₁, his₂, hb, hd, hf]
  · rw [hwas₁, his₁, hb]
    exact fun x hx => hx
  · intro n todo hin
    rw [hin] at his
    exact his.elim
  · intro todo hin
    rw [hin] at his
    exact his.elim
  · unfold credited
    rw [hwas₃, his₃, hd]

/-- `_next_batch`, of a worker that holds nothing. -/
theorem Delivery.Sound.nextBatch {d : Delivery} {st : List UsageRecord} (h : d.Sound st)
    {s c : State UsageRecord} (hb : s.buffer = d.client.buffer)
    (hd : s.delivered = d.client.delivered) (hf : s.failed = d.client.failed)
    (hcount : d.client.worker.uncounted = 0)
    (hret : returnedInCall d.client.worker = 0)
    (hc : (∃ w ws, (w = .exit ∨ w = .idle ∨ ∃ t, w = .linger t) ∧
        c = { s with worker := w, waiters := ws }) ∨ c = Emitter.takeBatch d.cfg s) :
    Delivery.Sound { d with client := c } st := by
  rcases hc with ⟨w, ws, hw, rfl⟩ | rfl
  · have hw' : w.unhanded = [] ∧ w.uncounted = 0 ∧ returnedInCall w = 0 ∧
        (∀ n todo, w ≠ .inSink n todo) ∧ ∀ todo, w ≠ .deliver todo := by
      rcases hw with rfl | rfl | ⟨t, rfl⟩ <;> simp [Worker.unhanded, Worker.uncounted,
        returnedInCall]
    obtain ⟨h₁, h₂, h₃, h₄, h₅⟩ := hw'
    refine h.moved ?_ ?_ (fun n todo hin => absurd hin (h₄ n todo))
      (fun todo hin => absurd hin (h₅ todo)) ?_
    · unfold load
      simp only [h₁, h₂, hb, hd, hf, List.length_nil]
      omega
    · rw [h₁, List.append_nil]
      exact fun x hx => List.mem_append_left _ (hb ▸ hx)
    · unfold credited
      rw [hret, h₃, hd]
  · have hunc := Emitter.takeBatch_uncounted d.cfg s
    have hunh := Emitter.takeBatch_unhanded d.cfg s
    have hret' : returnedInCall (Emitter.takeBatch d.cfg s).worker = 0 := by
      unfold Emitter.takeBatch
      dsimp only
      split <;> rfl
    refine h.moved ?_ ?_ ?_ ?_ ?_
    · unfold load
      rw [hunc, hunh]
      simp only [Emitter.takeBatch, List.length_take, List.length_drop, hb, hd, hf]
      omega
    · intro x hx
      rw [hunh] at hx
      rcases List.mem_append.1 hx with hx | hx
      · exact List.mem_append_left _ (hb ▸ List.mem_of_mem_drop hx)
      · exact List.mem_append_left _ (hb ▸ List.mem_of_mem_take hx)
    · intro n todo hin
      unfold Emitter.takeBatch at hin
      dsimp only at hin
      split at hin <;> cases hin
    · intro todo hin
      unfold Emitter.takeBatch at hin
      dsimp only at hin
      split at hin
      · cases hin
      · rename_i hne
        cases hin
        simpa using hne
    · unfold credited
      rw [hret, hret']
      exact congrArg (· + 0) hd

/-- `_next_batch` ends, waits, or takes a batch. -/
theorem nextBatch_shape (cfg : Emitter.Config) (s : State UsageRecord) (start now : ℚ) :
    (∃ w ws, (w = .exit ∨ w = .idle ∨ ∃ t, w = .linger t) ∧
        Emitter.nextBatch cfg s start now = { s with worker := w, waiters := ws }) ∨
      Emitter.nextBatch cfg s start now = Emitter.takeBatch cfg s := by
  rcases Emitter.nextBatch_cases cfg s start now with ⟨-, -, h⟩ | ⟨w, hw, h⟩ | h
  · exact .inl ⟨_, _, .inl rfl, h⟩
  · exact .inl ⟨w, _, .inr hw, h⟩
  · exact .inr h

/-- `_count_delivered` and `_count_failed`. -/
theorem count_shape (s : State UsageRecord) (ok : Bool) (n : ℕ) (todo : List UsageRecord) :
    (Emitter.count s ok n todo).1.buffer = s.buffer ∧
      (Emitter.count s ok n todo).1.worker.unhanded = todo ∧
      (Emitter.count s ok n todo).1.worker.uncounted = 0 ∧
      returnedInCall (Emitter.count s ok n todo).1.worker = 0 ∧
      (∀ m todo', (Emitter.count s ok n todo).1.worker ≠ .inSink m todo') ∧
      (∀ todo', (Emitter.count s ok n todo).1.worker = .deliver todo' → todo' ≠ []) ∧
      (Emitter.count s ok n todo).1.delivered = s.delivered + (if ok then n else 0) ∧
      (Emitter.count s ok n todo).1.failed = s.failed + (if ok then 0 else n) := by
  cases ok <;> cases todo <;>
    simp [Emitter.count, Worker.unhanded, Worker.uncounted, returnedInCall]

/-- A client never forgets a delivery. -/
theorem delivered_le_step {cfg : Emitter.Config} {s t : State UsageRecord}
    {a : Emitter.Action UsageRecord} {e : List (Emitter.Event UsageRecord)}
    (h : Emitter.step cfg s a = some (t, e)) : s.delivered ≤ t.delivered := by
  have htake : ∀ s : State UsageRecord, (Emitter.takeBatch cfg s).delivered = s.delivered :=
    fun _ => rfl
  have hnext : ∀ start now, (Emitter.nextBatch cfg s start now).delivered = s.delivered :=
    fun start now => by
      rcases nextBatch_shape cfg s start now with ⟨w, ws, -, hn⟩ | hn <;> rw [hn]
      exact htake s
  have hcases := Emitter.step_cases h
  cases hcases with
  | offer v =>
    unfold Emitter.offer
    cases v with
    | other => exact le_rfl
    | record r => dsimp only; split_ifs <;> exact le_rfl
  | flushEnter i timed => unfold Emitter.flushEnter; split_ifs <;> exact le_rfl
  | flushWake f late => unfold Emitter.flushWake; split_ifs <;> exact le_rfl
  | closeBegin onWorker => unfold Emitter.closeBegin; split_ifs <;> exact le_rfl
  | acquire start now hw => exact (hnext start now).ge
  | wakeIdle start now hw hn => exact (hnext start now).ge
  | wakeLinger start now deadline hw =>
    rcases Emitter.lingerLoop_cases cfg { s with waiters := s.waiters.erase .worker } deadline now
      with hl | hl <;> rw [hl]
    exact (htake _).ge
  | count ok n todo hw => exact (count_shape s ok n todo).2.2.2.2.2.2.1 ▸ Nat.le_add_right _ _
  | closeSink hw => unfold Emitter.closeSink; split_ifs <;> exact le_rfl
  | _ => exact le_rfl

/-- **Every step of the client keeps the invariant.** -/
theorem Delivery.Sound.step {d d' : Delivery} {st : List UsageRecord} (h : d.Sound st)
    {a : Emitter.Action UsageRecord} (ha : isWorker a = true ∨ isClose a = true)
    (hstep : d.step a = some d') : d'.Sound st := by
  unfold Delivery.step at hstep
  split at hstep
  · cases hstep
  rename_i c es hc
  cases hstep
  have hcases := Emitter.step_cases hc
  cases hcases with
  | offer | stats | flushEnter | flushWake | sinkEnds | sinkDies => simp [isWorker, isClose] at ha
  | closeBegin onWorker =>
    refine h.frame ?_ ?_ ?_ ?_ <;> unfold Emitter.closeBegin <;>
      split_ifs <;> first | exact List.Sublist.refl _ | rfl
  | joined hcl hw => exact h.frame (List.Sublist.refl _) rfl rfl rfl
  | joinTimedOut hcl hw => exact h.frame (List.Sublist.refl _) rfl rfl rfl
  | abandon hcl => exact h.frame (List.nil_sublist _) rfl rfl rfl
  | acquire start now hw =>
    refine h.nextBatch (s := d.client) rfl rfl rfl (by simp [hw, Worker.uncounted])
      (by simp [hw, returnedInCall]) (nextBatch_shape _ _ _ _)
  | wakeIdle start now hw hn =>
    refine h.nextBatch (s := d.client) rfl rfl rfl (by simp [hw, Worker.uncounted])
      (by simp [hw, returnedInCall]) (nextBatch_shape _ _ _ _)
  | wakeLinger start now deadline hw =>
    refine h.nextBatch (s := { d.client with waiters := d.client.waiters.erase .worker }) rfl rfl
      rfl (by simp [hw, Worker.uncounted]) (by simp [hw, returnedInCall]) ?_
    rcases Emitter.lingerLoop_cases d.cfg
      { d.client with waiters := d.client.waiters.erase .worker } deadline now with hl | hl
    · exact .inl ⟨_, _, .inr (.inr ⟨_, rfl⟩), hl⟩
    · exact .inr hl
  | handOver todo hw =>
    have hsplit : Emitter.handed d.cfg todo ++ Emitter.unhandedAfter d.cfg todo = todo := by
      unfold Emitter.handed Emitter.unhandedAfter
      split_ifs
      · exact List.append_nil todo
      · exact List.take_append_drop 1 todo
    have hlen := congrArg List.length hsplit
    rw [List.length_append] at hlen
    have hpos : 1 ≤ (Emitter.handed d.cfg todo).length := by
      have := List.length_pos_iff.2 (h.nonempty todo hw)
      unfold Emitter.handed
      split_ifs
      · exact this
      · rw [List.length_take]
        omega
    have hold : d.client.worker.unhanded = todo := by rw [hw]; rfl
    refine h.moved ?_ ?_ ?_ (fun todo' hin => by cases hin) ?_
    · unfold load
      rw [hw]
      simp only [Worker.unhanded, Worker.uncounted]
      omega
    · intro x hx
      rw [hold, ← hsplit]
      simp only [Worker.unhanded, List.mem_append] at hx ⊢
      tauto
    · intro n todo' hin
      obtain ⟨rfl, rfl⟩ := Worker.inSink.inj hin
      refine ⟨rfl, hpos, fun x hx => ?_⟩
      rw [hold, ← hsplit]
      exact List.mem_append_right _ (List.mem_append_left _ hx)
    · unfold credited
      rw [hw]
      rfl
  | count ok n todo hw =>
    obtain ⟨hb, hun, hunc, hret, hin, hne, hd, hf⟩ := count_shape d.client ok n todo
    have hold : d.client.worker.unhanded = todo := by rw [hw]; rfl
    refine h.moved ?_ ?_ (fun m todo' hin' => absurd hin' (hin m todo')) hne ?_
    · unfold load
      rw [hb, hun, hunc, hd, hf, hw]
      cases ok <;> simp only [Worker.unhanded, Worker.uncounted, Bool.false_eq_true, if_true,
        if_false] <;> omega
    · rw [hold, hun, hb]
      exact fun x hx => hx
    · unfold credited
      rw [hret, hd, hw]
      cases ok <;> rfl
  | settle hw => exact h.passed (by rw [hw]; trivial) trivial rfl rfl rfl
  | finish hw => exact h.passed (by rw [hw]; trivial) trivial rfl rfl rfl
  | closeSink hw =>
    have hes : handedBy d.inCall (Emitter.closeSink d.cfg d.client).2 = d.inCall := by
      unfold Emitter.closeSink
      split_ifs <;> rfl
    rw [hes]
    refine h.passed (by rw [hw]; trivial) ?_ ?_ ?_ ?_ <;> unfold Emitter.closeSink <;> split_ifs <;>
      first | rfl | trivial
  | sinkCloseReturns o hw =>
    have hes : handedBy d.inCall (if o = Outcome.raised then
        [Emitter.Event.warned .sinkCloseFailed] else []) = d.inCall := by
      split_ifs <;> rfl
    rw [hes]
    exact h.passed (by rw [hw]; trivial) trivial rfl rfl rfl

/-! ### The record is offered -/

/-- `emit_usage` keeps the invariant of a client to which nothing was offered. -/
theorem Delivery.Sound.emit {d : Delivery} (h : d.Sound []) (hnew : d.record = none)
    (env : Environment) (delta : TokenTotals) : (d.emit env delta).Sound [] := by
  unfold Delivery.emit
  cases hr : buildRecord (buildFields env delta d.scan) with
  | none => exact h
  | some r =>
    have hzero : load d.client = 0 := by
      have := h.load_le
      rw [hnew] at this
      exact Nat.le_zero.1 this
    have hempty : ∀ x, x ∉ d.client.buffer ++ d.client.worker.unhanded := fun x hx => by
      have := h.items x hx
      rw [hnew] at this
      cases this
    -- the offer appends to the buffer, or only counts
    have hoffer : (Emitter.offer d.cfg d.client (.record r)).1.worker = d.client.worker ∧
        (Emitter.offer d.cfg d.client (.record r)).1.delivered = d.client.delivered ∧
        (Emitter.offer d.cfg d.client (.record r)).1.failed = d.client.failed ∧
        ((Emitter.offer d.cfg d.client (.record r)).1.buffer = d.client.buffer ∨
          (Emitter.offer d.cfg d.client (.record r)).1.buffer = d.client.buffer ++ [r]) := by
      unfold Emitter.offer
      dsimp only
      split_ifs
      · exact ⟨rfl, rfl, rfl, .inl rfl⟩
      · exact ⟨rfl, rfl, rfl, .inl rfl⟩
      · exact ⟨rfl, rfl, rfl, .inr rfl⟩
    show Delivery.Sound
      { d with record := some r, client := (Emitter.offer d.cfg d.client (.record r)).1 } []
    generalize (Emitter.offer d.cfg d.client (.record r)).1 = c at hoffer ⊢
    obtain ⟨hw, hd, hf, hb⟩ := hoffer
    refine ⟨?_, ?_, ?_, ?_, ?_, h.nothing, h.unnamed, fun x hx => by cases hx⟩
    · unfold load at hzero ⊢
      rw [hw, hd, hf]
      rcases hb with hb | hb <;> rw [hb] <;> simp only [Option.toList, List.length_append,
        List.length_singleton] <;> omega
    · intro x hx
      show some r = some x
      rw [hw] at hx
      rcases hb with hb | hb
      · rw [hb] at hx
        exact absurd hx (hempty x)
      · rw [hb, List.append_assoc, List.mem_append, List.mem_append, List.mem_singleton] at hx
        rcases hx with hx | rfl | hx
        · exact absurd (List.mem_append_left _ hx) (hempty x)
        · rfl
        · exact absurd (List.mem_append_right _ hx) (hempty x)
    · intro n todo hin
      rw [hw] at hin
      have hload : load d.client = 0 := hzero
      have := (h.call n todo hin).2.1
      unfold load at hload
      rw [hin] at hload
      simp only [Worker.uncounted] at hload
      omega
    · exact fun todo hin => h.nonempty todo (hw ▸ hin)
    · intro hdeg
      have := h.credit hdeg
      unfold credited at this ⊢
      rwa [hw, hd]

/-! ### The end of a sink call -/

/-- What the end of a sink call does to the client. -/
theorem step_sinkReturns {d d' : Delivery} {o : Outcome} (h : d.step (.sinkReturns o) = some d') :
    ∃ n todo w, d.client.worker = .inSink n todo ∧ d' = { d with client := { d.client with worker := w } } ∧
      (o ≠ .fatal ∧ w = .count (decide (o = .returned)) n todo ∨ o = .fatal ∧ w = .exit) := by
  unfold Delivery.step at h
  split at h
  · cases h
  rename_i c es hc
  cases h
  have hcases := Emitter.step_cases hc
  cases hcases with
  | sinkEnds n todo o hw ho => exact ⟨n, todo, _, hw, rfl, .inl ⟨ho, rfl⟩⟩
  | sinkDies n todo hw => exact ⟨n, todo, _, hw, rfl, .inr ⟨rfl, rfl⟩⟩

/-- A call that returned, with what it stored and the drops it counted. -/
theorem Delivery.Sound.returned {d d' : Delivery} {st rs : List UsageRecord} (drops : ℕ)
    (h : d.Sound st) (hstep : d.step (.sinkReturns .returned) = some d')
    (hrs : ∀ x ∈ rs, x ∈ d.inCall)
    (hcount : d.degraded = false → ∀ n, d.inCall.length = n → 1 ≤ n → n ≤ 1 → rs.length + drops = n)
    (hnothing : d.degraded = true → rs = []) (hunnamed : d.droppedBefore = none → drops = 0) :
    Delivery.Sound { d' with drops := d'.drops + drops } (st ++ rs) := by
  obtain ⟨n, todo, w, hw, rfl, ⟨-, rfl⟩ | ⟨hf, -⟩⟩ := step_sinkReturns hstep
  · obtain ⟨hlen, hpos, hmem⟩ := h.call n todo hw
    have hload := h.load_le
    unfold load at hload
    rw [hw] at hload
    simp only [Worker.unhanded, Worker.uncounted] at hload
    have hone : d.record.toList.length ≤ 1 := by cases d.record <;> simp
    refine ⟨?_, ?_, fun m todo' hin => (by cases hin), fun todo' hin => (by cases hin), ?_, ?_, ?_,
      ?_⟩
    · unfold load
      exact hload
    · intro x hx
      refine h.items x ?_
      rw [hw]
      exact hx
    · intro hdeg
      have hcr := h.credit hdeg
      have hrs' := hcount hdeg n hlen hpos (by omega)
      unfold credited at hcr ⊢
      rw [hw] at hcr
      simp only [returnedInCall, decide_true, List.length_append] at hcr ⊢
      omega
    · intro hdeg
      rw [h.nothing hdeg, hnothing hdeg]
      rfl
    · intro hno
      show d.drops + drops = 0
      rw [h.unnamed hno, hunnamed hno]
    · intro x hx
      rcases List.mem_append.1 hx with hx | hx
      · exact h.stored x hx
      · exact hmem x (hrs x hx)
  · cases hf

/-- A call that raised. -/
theorem Delivery.Sound.raised {d d' : Delivery} {st : List UsageRecord} {o : Outcome}
    (h : d.Sound st) (ho : o ≠ .returned) (hstep : d.step (.sinkReturns o) = some d') :
    d'.Sound st := by
  obtain ⟨n, todo, w, hw, rfl, hend⟩ := step_sinkReturns hstep
  have hw' : w.unhanded.length ≤ todo.length ∧ w.uncounted ≤ n ∧ returnedInCall w = 0 ∧
      (∀ x ∈ w.unhanded, x ∈ todo) ∧ (∀ m todo', w ≠ .inSink m todo') ∧
        ∀ todo', w ≠ .deliver todo' := by
    rcases hend with ⟨-, rfl⟩ | ⟨-, rfl⟩ <;>
      simp [Worker.unhanded, Worker.uncounted, returnedInCall, ho]
  obtain ⟨h₁, h₂, h₃, h₄, h₅, h₆⟩ := hw'
  refine ⟨?_, ?_, fun m todo' hin => absurd hin (h₅ m todo'), fun todo' hin => absurd hin (h₆ todo'),
    ?_, h.nothing, h.unnamed, h.stored⟩
  · have hload := h.load_le
    unfold load at hload ⊢
    rw [hw] at hload
    simp only [Worker.unhanded, Worker.uncounted] at hload h₁ h₂ ⊢
    omega
  · intro x hx
    refine h.items x ?_
    rw [hw]
    rcases List.mem_append.1 hx with hx | hx
    · exact List.mem_append_left _ hx
    · exact List.mem_append_right _ (h₄ x hx)
  · intro hdeg
    have := h.credit hdeg
    unfold credited at this ⊢
    rw [hw] at this
    rw [h₃]
    simpa [returnedInCall] using this

/-- **The end of a sink call keeps the invariant**, with what the call stored. -/
theorem Delivery.Sound.sinkReturns {d d' : Delivery} {st rs : List UsageRecord} {o : SinkOutcome}
    (h : d.Sound st) (hstep : d.sinkReturns o = some (d', rs)) : d'.Sound (st ++ rs) := by
  unfold Delivery.sinkReturns at hstep
  split at hstep
  · rename_i hdeg
    obtain ⟨d₁, hd₁, he⟩ := Option.map_eq_some_iff.1 hstep
    obtain ⟨rfl, rfl⟩ := Prod.mk.inj he
    exact Delivery.Sound.returned 0 h hd₁ (fun x hx => hx) (fun _ n hn _ _ => hn)
      (fun hd => by simp [hdeg] at hd) (fun _ => rfl)
  · obtain ⟨d₁, hd₁, he⟩ := Option.map_eq_some_iff.1 hstep
    obtain ⟨rfl, rfl⟩ := Prod.mk.inj he
    rw [List.append_nil]
    exact h.raised (by decide) hd₁
  · obtain ⟨d₁, hd₁, he⟩ := Option.map_eq_some_iff.1 hstep
    obtain ⟨rfl, rfl⟩ := Prod.mk.inj he
    rw [List.append_nil]
    exact h.raised (by decide) hd₁
  · split_ifs at hstep with hnamed
    obtain ⟨d₁, hd₁, he⟩ := Option.map_eq_some_iff.1 hstep
    obtain ⟨rfl, rfl⟩ := Prod.mk.inj he
    refine Delivery.Sound.returned 1 h hd₁ (fun x hx => by cases hx)
      (fun _ n _ hpos hle => by simp only [List.length_nil]; omega) (fun _ => rfl) (fun hno => ?_)
    rw [hno] at hnamed
    cases hnamed
  · rename_i hdeg
    obtain ⟨d₁, hd₁, he⟩ := Option.map_eq_some_iff.1 hstep
    obtain ⟨rfl, rfl⟩ := Prod.mk.inj he
    exact Delivery.Sound.returned 0 h hd₁ (fun x hx => by cases hx)
      (fun hd => by simp [hdeg] at hd) (fun _ => rfl) (fun _ => rfl)
  · cases hstep

/-! ### What is kept was stored -/

theorem Delivery.Sound.length_le {d : Delivery} {st : List UsageRecord} (h : d.Sound st) :
    st.length ≤ 1 := by
  cases hdeg : d.degraded with
  | true => simp [h.nothing hdeg]
  | false =>
    have h₁ := h.credit hdeg
    have h₂ := credited_le_load d.client
    have h₃ := h.load_le
    have hone : d.record.toList.length ≤ 1 := by cases d.record <;> simp
    omega

/-- **What is kept was stored**: the record was delivered, no drop was counted for it and its
transport could be built. -/
theorem Delivery.Sound.stored_of_kept {d : Delivery} {st : List UsageRecord} (h : d.Sound st)
    {delivered : ℕ} (hle : delivered ≤ d.client.delivered) (hkept : d.kept delivered = true) :
    ∃ r, d.record = some r ∧ st = [r] ∧ 1 ≤ d.client.delivered := by
  simp only [Delivery.kept, Bool.and_eq_true, decide_eq_true_eq, Bool.not_eq_true'] at hkept
  obtain ⟨⟨⟨hrec, hpos⟩, hdrop⟩, hdeg⟩ := hkept
  obtain ⟨r, hr⟩ := Option.isSome_iff_exists.1 hrec
  have hnodrop : d.drops = 0 := by
    cases hb : d.droppedBefore with
    | none => exact h.unnamed hb
    | some before =>
      simp only [Delivery.droppedCount, hb, Option.map_some, Bool.not_eq_true',
        decide_eq_false_iff_not] at hdrop
      omega
  have hcredit := h.credit hdeg
  have hlen := h.length_le
  have hst : st.length = 1 := by
    unfold credited at hcredit
    omega
  obtain ⟨x, rfl⟩ := List.length_eq_one_iff.1 hst
  have hx := h.stored x List.mem_cons_self
  rw [hr] at hx
  obtain rfl := Option.some.inj hx
  exact ⟨r, hr, rfl, by omega⟩

/-- A client that has delivered its record is in no sink call. -/
theorem Delivery.Sound.spent {d : Delivery} {st : List UsageRecord} (h : d.Sound st)
    (hpos : 1 ≤ d.client.delivered) (o : SinkOutcome) : d.sinkReturns o = none := by
  have hnot : ∀ o, d.step (.sinkReturns o) = none := fun o => by
    by_contra hne
    obtain ⟨d', hd'⟩ := Option.ne_none_iff_exists'.1 hne
    obtain ⟨n, todo, w, hw, -, -⟩ := step_sinkReturns hd'
    have hload := h.load_le
    have hn := (h.call n todo hw).2.1
    unfold load at hload
    rw [hw] at hload
    simp only [Worker.uncounted] at hload
    have hone : d.record.toList.length ≤ 1 := by cases d.record <;> simp
    omega
  unfold Delivery.sinkReturns
  split <;> simp [hnot]

/-! ### A `close` that does not time out -/

/-- The client's `close` has not timed out, and returned only with the worker finished. -/
structure Delivery.Orderly (d : Delivery) : Prop where
  inTime : d.client.closer ≠ .timedOut ∧ d.client.closer ≠ .abandoned
  joined : d.client.closer = .returned → d.client.worker = .stopped

/-- A worker that has finished takes no step. -/
theorem step_stopped {d : Delivery} {a : Emitter.Action UsageRecord} (ha : isWorker a = true)
    (hw : d.client.worker = .stopped) : d.step a = none := by
  have hnone : Emitter.step d.cfg d.client a = none := by
    cases a <;> first | (simp [isWorker] at ha; done) | simp [Emitter.step, hw]
  unfold Delivery.step
  rw [hnone]

/-- Without a timed-out join, `close` returns with the worker finished. -/
theorem Delivery.Orderly.step {d d' : Delivery} (h : d.Orderly) {a : Emitter.Action UsageRecord}
    (ha : isWorker a = true ∨ isClose a = true) (hin : a ≠ .joinTimedOut)
    (hstep : d.step a = some d') : d'.Orderly := by
  rcases ha with ha | ha
  · -- a step of the worker leaves the closer, and there is none once it has finished
    have hnot : d.client.worker ≠ .stopped := fun hw => by
      rw [step_stopped ha hw] at hstep
      cases hstep
    have hret : d.client.closer ≠ .returned := fun hr => hnot (h.joined hr)
    have hcl : d'.client.closer = d.client.closer := by
      unfold Delivery.step at hstep
      split at hstep
      · cases hstep
      rename_i c es hc
      cases hstep
      have hcases := Emitter.step_cases hc
      show c.closer = d.client.closer
      cases hcases with
      | offer | stats | flushEnter | flushWake | sinkEnds | sinkDies | closeBegin | joined
      | joinTimedOut | abandon => simp [isWorker] at ha
      | acquire start now hw =>
        rcases nextBatch_shape d.cfg d.client start now with ⟨w, ws, -, hn⟩ | hn
        · rw [hn]
        · rw [hn]
          rfl
      | wakeIdle start now hw hn =>
        rcases nextBatch_shape d.cfg d.client start now with ⟨w, ws, -, hn⟩ | hn
        · rw [hn]
        · rw [hn]
          rfl
      | wakeLinger start now deadline hw =>
        rcases Emitter.lingerLoop_cases d.cfg
          { d.client with waiters := d.client.waiters.erase .worker } deadline now with hl | hl
        · rw [hl]
        · rw [hl]
          rfl
      | count ok n todo hw => unfold Emitter.count; split_ifs <;> rfl
      | closeSink hw => unfold Emitter.closeSink; split_ifs <;> rfl
      | _ => rfl
    exact ⟨hcl ▸ h.inTime, fun hr => absurd (hcl ▸ hr) hret⟩
  · unfold Delivery.step at hstep
    split at hstep
    · cases hstep
    rename_i c es hc
    cases hstep
    have hcases := Emitter.step_cases hc
    cases hcases with
    | closeBegin onWorker =>
      have honWorker : onWorker = false := by simpa [isClose] using ha
      subst honWorker
      unfold Emitter.closeBegin
      by_cases hclosed : d.client.closed = true
      · rw [if_pos hclosed]
        exact h
      · rw [if_neg hclosed]
        exact ⟨by simp [State.notifyAll], fun hr => by simp [State.notifyAll] at hr⟩
    | joined hcl hw =>
      refine ⟨by simp, fun _ => ?_⟩
      show d.client.worker = .stopped
      cases hwk : d.client.worker <;> first | rfl | (rw [hwk] at hw; cases hw)
    | joinTimedOut hcl hw => exact absurd rfl hin
    | abandon hcl => exact absurd hcl h.inTime.1
    | _ => simp [isClose] at ha

/-- A sink call ends only with a worker that is in it. -/
theorem sinkReturns_frame {d d' : Delivery} {o : SinkOutcome} {rs : List UsageRecord}
    (h : d.sinkReturns o = some (d', rs)) :
    d'.client.closer = d.client.closer ∧ d.client.worker ≠ .stopped := by
  have hone : ∀ o d₁, d.step (.sinkReturns o) = some d₁ →
      d₁.client.closer = d.client.closer ∧ d.client.worker ≠ .stopped := fun o d₁ hd₁ => by
    obtain ⟨n, todo, w, hw, rfl, -⟩ := step_sinkReturns hd₁
    exact ⟨rfl, by simp [hw]⟩
  unfold Delivery.sinkReturns at h
  split at h
  · obtain ⟨d₁, hd₁, he⟩ := Option.map_eq_some_iff.1 h
    obtain ⟨rfl, -⟩ := Prod.mk.inj he
    exact hone _ _ hd₁
  · obtain ⟨d₁, hd₁, he⟩ := Option.map_eq_some_iff.1 h
    obtain ⟨rfl, -⟩ := Prod.mk.inj he
    exact hone _ _ hd₁
  · obtain ⟨d₁, hd₁, he⟩ := Option.map_eq_some_iff.1 h
    obtain ⟨rfl, -⟩ := Prod.mk.inj he
    exact hone _ _ hd₁
  · split_ifs at h
    obtain ⟨d₁, hd₁, he⟩ := Option.map_eq_some_iff.1 h
    obtain ⟨rfl, -⟩ := Prod.mk.inj he
    exact hone _ d₁ hd₁
  · obtain ⟨d₁, hd₁, he⟩ := Option.map_eq_some_iff.1 h
    obtain ⟨rfl, -⟩ := Prod.mk.inj he
    exact hone _ _ hd₁
  · cases h

/-- What was stored is kept, once the worker has finished. -/
theorem Delivery.Sound.nothing_of_not_kept {d : Delivery} {st : List UsageRecord} (h : d.Sound st)
    (hw : d.client.worker = .stopped) (hkept : d.kept d.client.delivered = false) : st = [] := by
  by_contra hne
  obtain ⟨x, hx⟩ := List.exists_mem_of_ne_nil st hne
  have hrec := h.stored x hx
  have hpos := List.length_pos_iff.2 hne
  cases hdeg : d.degraded with
  | true => exact hne (h.nothing hdeg)
  | false =>
    have hcredit := h.credit hdeg
    have hle := (credited_le_load d.client).trans h.load_le
    rw [hrec] at hle
    have hdel : credited d.client = d.client.delivered := by
      unfold credited
      rw [hw]
      rfl
    have hlen : (some x : Option UsageRecord).toList.length = 1 := rfl
    have hdrops : d.drops = 0 := by omega
    have hone : 1 ≤ d.client.delivered := by omega
    have : d.kept d.client.delivered = true := by
      unfold Delivery.kept Delivery.droppedCount
      cases hb : d.droppedBefore <;> simp [hrec, hone, hdeg, hdrops]
    rw [this] at hkept
    cases hkept

end Tokenweir.ClaudeCode
