import Tokenweir.Store.Calls

/-!
# A direct sink that threads share

One `DirectSink` over one `PostgresSource`, used by any number of threads: a call holds the lock
for the flag and the counters, and for nothing else, so that the steps of the calls are taken in
any order. What a call is given is a list: an iterable that raises while `emit_batch` drains it is
none.

* `State`, `Move`, `Event`, `step`; `shared`, the machine;
* `Conserved`, every value that was offered is written, dropped, in a call, or of a call that was
  cut short; `shared_conserves`;
* `late_of_closed`, what is written after the flag is set was past its check;
* `Exclusive`, `Kept`, `shared_stores`: what is counted as written is stored, if the source keeps
  the transactions apart; `lost_uncounted`, a run in which it does not.
-/

namespace Tokenweir.Store.Sharing

open Emitter (Outcome)

/-! ### The steps -/

/-- A sink that threads share, with the calls under way. -/
structure State where
  sink : DirectSink := {}
  db : Database := {}
  calls : List Call := []
  /-- A `close` has set the flag, and is about to close the source. -/
  closing : Bool := false

/-- The atomic steps. -/
inductive Move
  /-- A thread calls `emit_batch`: what is no record is counted as dropped. -/
  | offer (values : List (Option UsageRecord))
  /-- A step of the `n`-th call under way. -/
  | inside (n : ℕ) (a : Action)
  /-- A thread calls `close`, up to the end of the lock. -/
  | close
  | closeSource

/-- What is seen of a step. -/
inductive Event
  | offered (values : List (Option UsageRecord))
  /-- A call has ended, at this place. -/
  | ended (c : Call) (o : Outcome)
  | sourceClosed

/-- The values that are no records. -/
def strangers (values : List (Option UsageRecord)) : ℕ := values.countP Option.isNone

/-- One atomic step, of a sink that owns its source or does not. -/
def step (owns : Bool) (s : State) : Move → Option (State × List Event)
  | .offer values =>
    some ({ s with
      sink := { s.sink with dropped := s.sink.dropped + strangers values }
      calls := s.calls ++ [.entered (values.filterMap id)] }, [.offered values])
  | .inside n a =>
    match s.calls[n]? with
    | none => none
    | some c =>
      match progress s.sink s.db c a with
      | none => none
      | some (.inside c' db) => some ({ s with db := db, calls := s.calls.set n c' }, [])
      | some (.ended o sink db) =>
        some ({ s with sink := sink, db := db, calls := s.calls.eraseIdx n }, [.ended c o])
  | .close =>
    if s.sink.closed then some (s, [])
    else some ({ s with sink := { s.sink with closed := true }, closing := owns }, [])
  | .closeSource => if s.closing then some ({ s with closing := false }, [.sourceClosed]) else none

/-- The shared sink, as a machine. -/
def shared (owns : Bool) : Machine State Move Event := ⟨step owns⟩

/-- A step, with the calls in no order. -/
inductive Step (owns : Bool) (s : State) : Move → State → List Event → Prop
  | offer (values : List (Option UsageRecord)) :
      Step owns s (.offer values)
        { s with
          sink := { s.sink with dropped := s.sink.dropped + strangers values }
          calls := s.calls ++ [.entered (values.filterMap id)] } [.offered values]
  | inside (n : ℕ) (a : Action) (c c' : Call) (db : Database) (calls : List Call)
      (rest : Multiset Call) (hbefore : (s.calls : Multiset Call) = c ::ₘ rest)
      (hafter : (calls : Multiset Call) = c' ::ₘ rest)
      (hp : Advance s.sink s.db c a (.inside c' db)) :
      Step owns s (.inside n a) { s with db := db, calls := calls } []
  | ended (n : ℕ) (a : Action) (c : Call) (o : Outcome) (sink : DirectSink) (db : Database)
      (calls : List Call) (hbefore : (s.calls : Multiset Call) = c ::ₘ (calls : Multiset Call))
      (hp : Advance s.sink s.db c a (.ended o sink db)) :
      Step owns s (.inside n a) { s with sink := sink, db := db, calls := calls } [.ended c o]
  | closeAgain (hclosed : s.sink.closed = true) : Step owns s .close s []
  | close (hopen : s.sink.closed = false) :
      Step owns s .close { s with sink := { s.sink with closed := true }, closing := owns } []
  | closeSource (hclosing : s.closing = true) :
      Step owns s .closeSource { s with closing := false } [.sourceClosed]

theorem coe_snoc (calls : List Call) (c : Call) :
    ((calls ++ [c] : List Call) : Multiset Call) = c ::ₘ (calls : Multiset Call) :=
  Multiset.coe_eq_coe.2 (List.perm_append_singleton c calls)

variable {owns : Bool} {s t : State} {m : Move} {ms : List Move} {e es : List Event}

/-- **What a step can do**, once for every invariant. -/
theorem step_cases (h : (shared owns).step s m = some (t, e)) : Step owns s m t e := by
  cases m with
  | offer values =>
    cases h
    exact .offer values
  | inside n a =>
    simp only [shared, step] at h
    cases hc : s.calls[n]? with
    | none =>
      rw [hc] at h
      cases h
    | some c =>
      obtain ⟨hn, rfl⟩ := List.getElem?_eq_some_iff.1 hc
      have hbefore : (s.calls : Multiset Call) =
          s.calls[n] ::ₘ (s.calls.eraseIdx n : Multiset Call) :=
        (Multiset.coe_eq_coe.2 (List.getElem_cons_eraseIdx_perm hn)).symm
      rw [hc] at h
      dsimp only at h
      split at h
      · cases h
      · rename_i c' db hp
        cases h
        exact .inside n a s.calls[n] c' db _ _ hbefore
          (Multiset.coe_eq_coe.2 (List.set_perm_cons_eraseIdx hn c')) (progress_cases hp)
      · rename_i o sink db hp
        cases h
        exact .ended n a s.calls[n] o sink db _ hbefore (progress_cases hp)
  | close =>
    simp only [shared, step] at h
    split_ifs at h with hclosed
    · cases h
      exact .closeAgain hclosed
    · cases h
      exact .close (Bool.eq_false_of_not_eq_true hclosed)
  | closeSource =>
    simp only [shared, step] at h
    split_ifs at h with hclosing
    cases h
    exact .closeSource hclosing

/-! ### What becomes of the records -/

/-- The sum of some quantity over a history. -/
def total {M : Type} [AddCommMonoid M] (f : Event → M) (es : List Event) : M := (es.map f).sum

theorem total_append {M : Type} [AddCommMonoid M] (f : Event → M) (es fs : List Event) :
    total f (es ++ fs) = total f es + total f fs := by
  rw [total, List.map_append, List.sum_append]
  rfl

@[simp] theorem total_nil {M : Type} [AddCommMonoid M] (f : Event → M) : total f [] = 0 := rfl

@[simp] theorem total_singleton {M : Type} [AddCommMonoid M] (f : Event → M) (e : Event) :
    total f [e] = f e := by simp [total]

/-- The records that are offered. -/
def Event.accepted : Event → Multiset UsageRecord
  | .offered values => values.filterMap id
  | _ => 0

/-- The number of the other values. -/
def Event.refused : Event → ℕ
  | .offered values => strangers values
  | _ => 0

/-- The records that a call has counted as written. -/
def Event.written : Event → Multiset UsageRecord
  | .ended (.wrote rs) .returned => rs
  | _ => 0

/-- The records that a call has counted as dropped. -/
def Event.lost : Event → Multiset UsageRecord
  | .ended (.wrote _) _ => 0
  | .ended c .returned => c.batch
  | _ => 0

/-- The records of a call that a `BaseException` has cut short. -/
def Event.killed : Event → Multiset UsageRecord
  | .ended c .fatal => c.batch
  | _ => 0

/-- The source is closed. -/
def Event.closes : Event → ℕ
  | .sourceClosed => 1
  | _ => 0

/-- The records of a call. -/
def held (c : Call) : Multiset UsageRecord := c.batch

/-- The records of the calls under way. -/
def underWay (calls : Multiset Call) : Multiset UsageRecord := (calls.map held).sum

@[simp] theorem underWay_cons (c : Call) (calls : Multiset Call) :
    underWay (c ::ₘ calls) = held c + underWay calls := by simp [underWay]

/-- **Each value is accounted for once**, and the source is closed at most once. -/
structure Conserved (es : List Event) (s : State) : Prop where
  accepted : total Event.accepted es = total Event.written es + total Event.lost es +
    total Event.killed es + underWay s.calls
  written : s.sink.written = (total Event.written es).card
  dropped : s.sink.dropped = total Event.refused es + (total Event.lost es).card
  closes : total Event.closes es + s.closing.toNat ≤ s.sink.closed.toNat

/-- A step inside a call keeps its batch. -/
theorem batch_of_inside {sink : DirectSink} {db db' : Database} {c c' : Call} {a : Action}
    (hp : Advance sink db c a (.inside c' db')) : c'.batch = c.batch := by
  cases hp <;> rfl

/-- A call that is cut short counts nothing. -/
theorem counts_of_cut (sink : DirectSink) (c : Call) :
    held c = (Event.ended c .fatal).written + (Event.ended c .fatal).lost +
        (Event.ended c .fatal).killed ∧
      sink.written = sink.written + (Event.ended c .fatal).written.card ∧
      sink.dropped = sink.dropped + (Event.ended c .fatal).lost.card := by
  have hcut : (Event.ended c .fatal).written = 0 ∧ (Event.ended c .fatal).lost = 0 ∧
      (Event.ended c .fatal).killed = held c := by
    cases c <;> exact ⟨rfl, rfl, rfl⟩
  obtain ⟨hwritten, hlost, hkilled⟩ := hcut
  rw [hwritten, hlost, hkilled, zero_add, zero_add]
  exact ⟨rfl, rfl, rfl⟩

/-- The end of a call: its records are counted as written, or as dropped, or a `BaseException` has
cut it short. -/
theorem counts_of_ended {sink sink' : DirectSink} {db db' : Database} {c : Call} {a : Action}
    {o : Outcome} (hp : Advance sink db c a (.ended o sink' db')) :
    held c = (Event.ended c o).written + (Event.ended c o).lost + (Event.ended c o).killed ∧
      sink'.written = sink.written + (Event.ended c o).written.card ∧
      sink'.dropped = sink.dropped + (Event.ended c o).lost.card := by
  cases hp with
  | nothing => exact ⟨rfl, rfl, rfl⟩
  | refused rs =>
    refine ⟨?_, rfl, rfl⟩
    simp [held, Call.batch, Event.written, Event.lost, Event.killed]
  | counted rs =>
    refine ⟨?_, rfl, rfl⟩
    simp [held, Call.batch, Event.written, Event.lost, Event.killed]
  | lost rs =>
    refine ⟨?_, rfl, rfl⟩
    simp [held, Call.batch, Event.written, Event.lost, Event.killed]
  | executionCut => exact counts_of_cut sink _
  | commitCut => exact counts_of_cut sink _
  | interrupted => exact counts_of_cut sink _

/-- No call sets the flag. -/
theorem closed_of_ended {sink sink' : DirectSink} {db db' : Database} {c : Call} {a : Action}
    {o : Outcome} (hp : Advance sink db c a (.ended o sink' db')) : sink'.closed = sink.closed := by
  cases hp <;> rfl

theorem Conserved.step (h : Conserved es s) (hstep : Step owns s m t e) :
    Conserved (es ++ e) t := by
  have hcloses := h.closes
  cases hstep with
  | offer values =>
    refine ⟨?_, ?_, ?_, ?_⟩
    · simp only [total_append, total_singleton, Event.accepted, Event.written, Event.lost,
        Event.killed, add_zero, h.accepted, coe_snoc, underWay_cons]
      rw [add_assoc, add_comm (underWay _)]
      rfl
    · simpa [total_append, Event.written] using h.written
    · simp only [total_append, total_singleton, Event.refused, Event.lost, add_zero, h.dropped]
      omega
    · simpa [total_append, Event.closes] using hcloses
  | inside n a c c' db calls rest hbefore hafter hp =>
    have haccepted := h.accepted
    have hheld : held c' = held c := by rw [held, held, batch_of_inside hp]
    rw [hbefore, underWay_cons] at haccepted
    refine ⟨?_, ?_, ?_, ?_⟩
    · rw [List.append_nil, haccepted, hafter, underWay_cons, hheld]
    · rw [List.append_nil]
      exact h.written
    · rw [List.append_nil]
      exact h.dropped
    · rw [List.append_nil]
      exact hcloses
  | ended n a c o sink db calls hbefore hp =>
    obtain ⟨hheld, hwritten, hdropped⟩ := counts_of_ended hp
    have haccepted := h.accepted
    rw [hbefore, underWay_cons, hheld] at haccepted
    refine ⟨?_, ?_, ?_, ?_⟩
    · simp only [total_append, total_singleton]
      rw [show (Event.ended c o).accepted = 0 from rfl, add_zero, haccepted]
      abel
    · rw [hwritten, h.written, total_append, total_singleton, Multiset.card_add]
    · rw [hdropped, h.dropped, total_append, total_append, total_singleton, total_singleton,
        Multiset.card_add, show (Event.ended c o).refused = 0 from rfl]
      omega
    · rw [closed_of_ended hp, total_append, total_singleton]
      exact hcloses
  | closeAgain hclosed =>
    rwa [List.append_nil]
  | close hopen =>
    rw [List.append_nil]
    refine ⟨h.accepted, h.written, h.dropped, ?_⟩
    rw [hopen] at hcloses
    have hnone : total Event.closes es = 0 := by
      have : (false : Bool).toNat = 0 := rfl
      omega
    rw [hnone, zero_add]
    exact Bool.toNat_le owns
  | closeSource hclosing =>
    refine ⟨?_, ?_, ?_, ?_⟩
    · simpa [total_append, Event.accepted, Event.written, Event.lost, Event.killed] using h.accepted
    · simpa [total_append, Event.written] using h.written
    · simpa [total_append, Event.refused, Event.lost] using h.dropped
    · rw [hclosing] at hcloses
      simpa [total_append, Event.closes] using hcloses

theorem run_conserved (h : (shared owns).run {} ms = some (s, es)) : Conserved es s := by
  refine Machine.run_induction (I := fun _ es s => Conserved es s) ?_ ?_ h
  · exact ⟨rfl, rfl, rfl, le_rfl⟩
  · exact fun _ es s m t e hI hstep => hI.step (step_cases hstep)

/-! ### After the flag is set -/

/-- The records of a call that is past the check of the flag. -/
def late : Call → Multiset UsageRecord
  | .entered _ => 0
  | c => c.batch

/-- The records of the calls that are past it. -/
def pastCheck (calls : Multiset Call) : Multiset UsageRecord := (calls.map late).sum

@[simp] theorem pastCheck_cons (c : Call) (calls : Multiset Call) :
    pastCheck (c ::ₘ calls) = late c + pastCheck calls := by simp [pastCheck]

theorem late_of_step (hclosed : s.sink.closed = true) (hstep : Step owns s m t e) :
    t.sink.closed = true ∧ total Event.written e + pastCheck t.calls ≤ pastCheck s.calls := by
  cases hstep with
  | offer values =>
    refine ⟨hclosed, le_of_eq ?_⟩
    rw [coe_snoc, pastCheck_cons]
    simp [late, Event.written]
  | inside n a c c' db calls rest hbefore hafter hp =>
    refine ⟨hclosed, le_of_eq ?_⟩
    have hlate : late c' = late c := by
      cases hp with
      | passed rs hne hopen =>
        rw [hopen] at hclosed
        cases hclosed
      | _ => rfl
    rw [hbefore, hafter, pastCheck_cons, pastCheck_cons, hlate, total_nil, zero_add]
  | ended n a c o sink db calls hbefore hp =>
    have hle : (Event.ended c o).written ≤ late c := by
      cases c with
      | wrote rs => cases o <;> simp [Event.written, late, Call.batch]
      | _ => exact Multiset.zero_le _
    refine ⟨(closed_of_ended hp).trans hclosed, ?_⟩
    rw [hbefore, pastCheck_cons, total_singleton]
    exact add_le_add_left hle _
  | closeAgain => exact ⟨hclosed, le_of_eq (by simp)⟩
  | close hopen =>
    rw [hopen] at hclosed
    cases hclosed
  | closeSource => exact ⟨hclosed, le_of_eq (by simp [Event.written])⟩

/-- What is written after the flag is set was past its check when it was. -/
theorem late_of_closed (hclosed : s.sink.closed = true)
    (h : (shared owns).run s ms = some (t, es)) :
    t.sink.closed = true ∧ total Event.written es + pastCheck t.calls ≤ pastCheck s.calls := by
  refine Machine.run_induction (M := shared owns) (I := fun _ es t => t.sink.closed = true ∧
    total Event.written es + pastCheck t.calls ≤ pastCheck s.calls) ?_ ?_ h
  · exact ⟨hclosed, by simp⟩
  · rintro - es u m t e ⟨hu, hle⟩ hstep
    obtain ⟨ht, hstep⟩ := late_of_step hu (step_cases hstep)
    refine ⟨ht, le_trans ?_ hle⟩
    rw [total_append, add_assoc]
    exact add_le_add_right hstep _

/-- **The counters of a sink that threads share** are right after every interleaving: each record
that was offered is counted as written, or as dropped, or is in a call, or in one that a
`BaseException` has cut short. The source is closed at most once, and nothing is written after
the flag is set but the records of the calls that were past its check. -/
theorem shared_conserves (h : (shared owns).run {} ms = some (s, es)) :
    total Event.accepted es = total Event.written es + total Event.lost es +
        total Event.killed es + underWay s.calls ∧
      s.sink.written = (total Event.written es).card ∧
      s.sink.dropped = total Event.refused es + (total Event.lost es).card ∧
      total Event.closes es ≤ 1 ∧
      ∀ ms' t es', s.sink.closed = true → (shared owns).run s ms' = some (t, es') →
        total Event.written es' ≤ pastCheck s.calls := by
  have hconserved := run_conserved h
  refine ⟨hconserved.accepted, hconserved.written, hconserved.dropped, ?_, ?_⟩
  · have hcloses := hconserved.closes
    have := Bool.toNat_le s.sink.closed
    omega
  · intro ms' t es' hclosed hrun
    exact (Multiset.le_add_right _ _).trans (late_of_closed hclosed hrun).2

/-! ### What is stored -/

/-- A call has a transaction under way. -/
def inTransaction : Call → Bool
  | .executing _ _ | .committing _ => true
  | _ => false

/-- A transaction is begun. -/
def Move.begins : Move → Bool
  | .inside _ (.map _) => true
  | _ => false

/-- The steps that raise a `BaseException` that is not an `Exception`. -/
def Move.isFatal : Move → Bool
  | .inside _ a => a.isFatal
  | _ => false

/-- The source keeps the transactions apart: none is begun while another one is under way. -/
def Exclusive (s : State) (m : Move) : Prop :=
  m.begins = true → ∀ c ∈ s.calls, inTransaction c = false

/-- Only `Exception`s are raised. -/
def Regular (_ : State) (m : Move) : Prop := m.isFatal = false

instance (s : State) (m : Move) : Decidable (Exclusive s m) :=
  inferInstanceAs (Decidable (m.begins = true → ∀ c ∈ s.calls, inTransaction c = false))

instance (s : State) (m : Move) : Decidable (Regular s m) :=
  inferInstanceAs (Decidable (m.isFatal = false))

/-- The records of a call that are committed and not counted yet. -/
def uncounted (c : Call) : Multiset UsageRecord := inflight (some c)

/-- The records of the calls that have committed. -/
def committing (calls : Multiset Call) : Multiset UsageRecord := (calls.map uncounted).sum

@[simp] theorem committing_cons (c : Call) (calls : Multiset Call) :
    committing (c ::ₘ calls) = uncounted c + committing calls := by simp [committing]

/-- **What is counted as written is stored**: the transaction is that of the one call that has one
under way, and the table is what was counted, with what is committed and not counted yet. -/
structure Kept (es : List Event) (calls : Multiset Call) (db : Database) : Prop where
  alone : ∃ o : Option Call, calls.filter (fun c => inTransaction c) = o.elim 0 ({·}) ∧
    Ready db.transaction o
  table : ∃ ps, db.table = rowsOf ps ∧
    (ps.map Prod.snd : Multiset UsageRecord) = total Event.written es + committing calls

variable {calls rest : Multiset Call} {db db' : Database} {c c' : Call}

/-- The call that has a transaction under way is the only one. -/
theorem Kept.holder (h : Kept es (c ::ₘ rest) db) (hc : inTransaction c = true) :
    rest.filter (fun c => inTransaction c) = 0 ∧ Ready db.transaction (some c) := by
  obtain ⟨o, ho, hready⟩ := h.alone
  rw [Multiset.filter_cons_of_pos rest hc] at ho
  cases o with
  | none => exact absurd ho Multiset.cons_ne_zero
  | some d =>
    have hcard := congrArg Multiset.card ho
    rw [Multiset.card_cons, Option.elim_some, Multiset.card_singleton, Nat.add_eq_right,
      Multiset.card_eq_zero] at hcard
    rw [hcard, Multiset.cons_zero, Option.elim_some, Multiset.singleton_inj] at ho
    exact ⟨hcard, ho ▸ hready⟩

/-- Without a call that has a transaction under way, there is none. -/
theorem Kept.free (h : Kept es calls db) (hfree : ∀ c ∈ calls, inTransaction c = false) :
    db.transaction = [] := by
  obtain ⟨o, ho, hready⟩ := h.alone
  rw [Multiset.filter_eq_nil.2 fun c hc => by simp [hfree c hc]] at ho
  cases o with
  | none => exact hready
  | some d => exact absurd ho.symm (Multiset.singleton_ne_zero d)

/-- A call outside a transaction takes a step that leaves it outside, or ends. -/
theorem Kept.outside (h : Kept es (c ::ₘ rest) db) (hc : inTransaction c = false)
    (hcalls : calls.filter (fun c => inTransaction c) = rest.filter fun c => inTransaction c)
    (htotal : total Event.written e + committing calls = uncounted c + committing rest) :
    Kept (es ++ e) calls db := by
  obtain ⟨⟨o, ho, hready⟩, ps, htable, hps⟩ := h
  refine ⟨⟨o, ?_, hready⟩, ps, htable, ?_⟩
  · rwa [hcalls, ← Multiset.filter_cons_of_neg rest (by simpa using hc)]
  · rw [hps, committing_cons, total_append, add_assoc, htotal]

/-- The call that has a transaction under way takes a step. -/
theorem Kept.holding (h : Kept es (c ::ₘ rest) db)
    (hrest : rest.filter (fun c => inTransaction c) = 0) (hready : Ready db'.transaction (some c'))
    (hdb : ∃ ps : List (ℤ × UsageRecord), db'.table = db.table ++ rowsOf ps ∧
      uncounted c' = uncounted c + (ps.map Prod.snd : Multiset UsageRecord)) :
    Kept es (c' ::ₘ rest) db' := by
  obtain ⟨-, ps, htable, hps⟩ := h
  obtain ⟨qs, htable', huncounted⟩ := hdb
  refine ⟨?_, ps ++ qs, ?_, ?_⟩
  · by_cases hc' : inTransaction c' = true
    · exact ⟨some c', by rw [Multiset.filter_cons_of_pos rest hc', hrest]; rfl, hready⟩
    · refine ⟨none, by rw [Multiset.filter_cons_of_neg rest hc', hrest]; rfl, ?_⟩
      cases c' with
      | executing rs rows => exact absurd rfl hc'
      | committing rs => exact absurd rfl hc'
      | _ => exact hready
  · rw [htable', htable, rowsOf_append]
  · rw [List.map_append, ← Multiset.coe_add, hps, committing_cons, committing_cons, huncounted]
    abel

theorem Kept.step (h : Kept es s.calls s.db) (hexclusive : Exclusive s m) (hregular : Regular s m)
    (hstep : Step owns s m t e) : Kept (es ++ e) t.calls t.db := by
  cases hstep with
  | offer values =>
    rw [coe_snoc]
    obtain ⟨⟨o, ho, hready⟩, ps, htable, hps⟩ := h
    refine ⟨⟨o, ?_, hready⟩, ps, htable, ?_⟩
    · rwa [Multiset.filter_cons_of_neg _ (by simp [inTransaction])]
    · rw [hps, total_append, committing_cons]
      simp [Event.written, uncounted, inflight]
  | inside n a c c' db calls rest hbefore hafter hp =>
    rw [List.append_nil, hafter]
    rw [hbefore] at h
    by_cases hc : inTransaction c = true
    · obtain ⟨hrest, hready⟩ := h.holder hc
      obtain ⟨-, hready', ps, htable, hinflight⟩ := hp.keeps hready
      refine h.holding hrest hready' ⟨ps, htable, ?_⟩
      rw [uncounted, uncounted, hinflight, Multiset.coe_add]
    · have hc := Bool.eq_false_of_not_eq_true hc
      have hquiet : inTransaction c' = false → uncounted c' = uncounted c →
          Kept es (c' ::ₘ rest) s.db := fun hc' huncounted => by
        have := h.outside (e := []) hc (Multiset.filter_cons_of_neg rest (by simpa using hc'))
          (by rw [total_nil, zero_add, committing_cons, huncounted])
        rwa [List.append_nil] at this
      cases hp with
      | passed rs hne hopen => exact hquiet rfl rfl
      | rejected rs autocommit => exact hquiet rfl rfl
      | mappedNothing => exact hquiet rfl rfl
      | mapped rs rows hrows =>
        -- The source keeps the transactions apart.
        have hfree : ∀ d ∈ Call.writing rs ::ₘ rest, inTransaction d = false := by
          rw [← hbefore]
          exact hexclusive rfl
        have hrest : rest.filter (fun c => inTransaction c) = 0 :=
          Multiset.filter_eq_nil.2 fun d hd => by
            simp [hfree d (Multiset.mem_cons_of_mem hd)]
        exact h.holding hrest ⟨h.free hfree, hrows⟩
          ⟨[], by simp [rowsOf], by simp [uncounted, inflight]⟩
      | executed rs rows now sent => cases hc
      | executionFailed rs rows now sent => cases hc
      | committed rs done => cases hc
      | commitFailed rs done => cases hc
  | ended n a c o sink db calls hbefore hp =>
    rw [hbefore] at h
    have hfatal : a.isFatal = false := hregular
    cases hp with
    | nothing => exact h.outside rfl rfl (by simp [Event.written, uncounted, inflight])
    | refused rs => exact h.outside rfl rfl (by simp [Event.written, uncounted, inflight])
    | counted rs => exact h.outside rfl rfl (by simp [Event.written, uncounted, inflight])
    | lost rs => exact h.outside rfl rfl (by simp [Event.written, uncounted, inflight])
    | executionCut => cases hfatal
    | commitCut => cases hfatal
    | interrupted => cases hfatal
  | closeAgain => rwa [List.append_nil]
  | close => rwa [List.append_nil]
  | closeSource =>
    obtain ⟨halone, ps, htable, hps⟩ := h
    refine ⟨halone, ps, htable, ?_⟩
    rw [hps, total_append, total_singleton]
    simp [Event.written]

/-- No call is cut short. -/
theorem killed_of_step (hregular : Regular s m) (hstep : Step owns s m t e) :
    total Event.killed e = 0 := by
  cases hstep with
  | ended n a c o sink db calls hbefore hp =>
    have hfatal : a.isFatal = false := hregular
    rw [total_singleton]
    cases hp with
    | executionCut => cases hfatal
    | commitCut => cases hfatal
    | interrupted => cases hfatal
    | _ => rfl
  | _ => simp [Event.killed]

/-- What holds after every run of such steps. -/
def Steady (es : List Event) (s : State) : Prop :=
  Kept es s.calls s.db ∧ total Event.killed es = 0

theorem steady_init : Steady [] {} := ⟨⟨⟨none, rfl, rfl⟩, [], rfl, rfl⟩, rfl⟩

theorem Steady.step (h : Steady es s) (hm : Exclusive s m ∧ Regular s m)
    (hstep : Step owns s m t e) : Steady (es ++ e) t := by
  refine ⟨h.1.step hm.1 hm.2 hstep, ?_⟩
  rw [total_append, h.2, killed_of_step hm.2 hstep, add_zero]

/-- **What is counted as written is stored**, over every interleaving of the threads: if the source
keeps their transactions apart and only `Exception`s are raised, the table is what was counted,
with what is committed and not counted yet. Once no call is under way, each record that was
offered is in the table or counted as dropped. -/
theorem shared_stores (h : (shared owns).run {} ms = some (s, es))
    (hexclusive : (shared owns).Along Exclusive {} ms)
    (hregular : (shared owns).Along Regular {} ms) :
    ∃ ps : List (ℤ × UsageRecord), s.db.table = rowsOf ps ∧
      (ps.map Prod.snd : Multiset UsageRecord) = total Event.written es + committing s.calls ∧
      (s.calls = [] →
        total Event.accepted es =
            (ps.map Prod.snd : Multiset UsageRecord) + total Event.lost es ∧
          s.sink.written = s.db.table.length ∧
          s.sink.dropped = total Event.refused es + (total Event.lost es).card) := by
  have hsteady := Machine.run_induction_along (M := shared owns) steady_init
    (fun _ _ _ _ _ hI hP hstep => hI.step hP (step_cases hstep)) (hexclusive.and hregular) h
  rw [List.nil_append] at hsteady
  obtain ⟨⟨-, ps, htable, hps⟩, hkilled⟩ := hsteady
  refine ⟨ps, htable, hps, fun hcalls => ?_⟩
  have hconserved := run_conserved h
  have hnone : committing s.calls = 0 ∧ underWay s.calls = 0 := by
    rw [hcalls]
    exact ⟨rfl, rfl⟩
  rw [hnone.1, add_zero] at hps
  refine ⟨?_, ?_, hconserved.dropped⟩
  · rw [hconserved.accepted, hkilled, hnone.2, hps, add_zero, add_zero]
  · rw [hconserved.written, ← hps, htable, rowsOf, Multiset.coe_card, List.length_map,
      List.length_map]

/-! ### Two threads -/

/-- Two threads write a record each, one of them offers `None` as well, and a third one closes the
sink before the first has counted its record. -/
def twoThreads : List Move :=
  [.offer [some (timedRecord "2026-01-02T03:04:05Z"), none], .offer [some (timedRecord " ")],
    .inside 0 .check, .inside 1 .check, .inside 1 (.map false), .inside 1 (.execute 7 .returned 0),
    .inside 1 (.commit .returned true), .inside 0 (.map false), .inside 0 (.execute 8 .returned 0),
    .inside 0 (.commit .returned true), .inside 1 .account, .close, .inside 0 .account,
    .closeSource]

theorem shared_conserves_two : ∃ s es, (shared true).run {} twoThreads = some (s, es) ∧
    s.sink.written = 2 ∧ s.sink.dropped = 1 ∧
    total Event.accepted es = total Event.written es + total Event.lost es +
      total Event.killed es + underWay s.calls ∧ total Event.closes es ≤ 1 := by
  have hkey : ((shared true).run {} twoThreads).map (fun p =>
      (p.1.sink.written, p.1.sink.dropped)) = some (2, 1) := by decide +kernel
  obtain ⟨⟨s, es⟩, hrun, he⟩ := Option.map_eq_some_iff.1 hkey
  obtain ⟨hwritten, hdropped⟩ := Prod.mk.inj he
  obtain ⟨haccepted, -, -, hcloses, -⟩ := shared_conserves hrun
  exact ⟨s, es, hrun, hwritten, hdropped, haccepted, hcloses⟩

theorem shared_stores_two : ∃ s es, (shared true).run {} twoThreads = some (s, es) ∧
    s.sink.written = 2 ∧ s.sink.written = s.db.table.length := by
  have hkey : ((shared true).run {} twoThreads).map (fun p =>
      (p.1.sink.written, p.1.calls.length)) = some (2, 0) := by decide +kernel
  obtain ⟨⟨s, es⟩, hrun, he⟩ := Option.map_eq_some_iff.1 hkey
  obtain ⟨hwritten, hcalls⟩ := Prod.mk.inj he
  obtain ⟨ps, -, -, hend⟩ := shared_stores hrun (by decide +kernel) (by decide +kernel)
  exact ⟨s, es, hrun, hwritten, (hend (List.length_eq_zero_iff.1 hcalls)).2.1⟩

/-- The source has to keep them apart: the rollback of one thread takes the row of the other one
along, which is counted as written. -/
theorem lost_uncounted : ∃ ms s es, (shared true).run {} ms = some (s, es) ∧
    (shared true).Along Regular {} ms ∧ s.calls = [] ∧ s.sink.written = 1 ∧ s.db.table = [] := by
  let ms : List Move :=
    [.offer [some (timedRecord " ")], .offer [some (timedRecord " ")], .inside 0 .check,
      .inside 1 .check, .inside 0 (.map false), .inside 1 (.map false),
      .inside 0 (.execute 7 .returned 0), .inside 1 (.execute 7 .raised 0),
      .inside 0 (.commit .returned true), .inside 0 .account, .inside 0 .account]
  have hkey : ((shared true).run {} ms).map (fun p =>
      (p.1.calls.length, p.1.sink.written, p.1.db.table.length)) = some (0, 1, 0) := by
    decide +kernel
  obtain ⟨⟨s, es⟩, hrun, he⟩ := Option.map_eq_some_iff.1 hkey
  obtain ⟨hcalls, hwritten, htable⟩ : _ ∧ _ ∧ _ := by simpa using he
  exact ⟨ms, s, es, hrun, by decide +kernel, hcalls, hwritten, htable⟩

end Tokenweir.Store.Sharing
