import Mathlib.Tactic
import Tokenweir.Store.Pipeline

/-!
# The pipeline refines an append-only log

Every batch the client hands over has one fate: it is stored whole, at one reading of the
server's clock, or not at all. The table is what was stored, in the order of acceptance, and the
counters of the client and of the sink are those of the fates.

* `Fate`, `recordsOf`, `lostOf`;
* `Place` and `Account`, the invariant; `Place.inside`, `Place.ended`, `Account.step`;
* `emitter_run`, the pipeline refines the client;
* `refinement`.
-/

namespace Tokenweir.Store

open Emitter (Config State Outcome Event acceptedOf batchesOf handedOf)

/-! ### Fates -/

/-- A batch that was handed over, with the server's clock if it was stored. -/
structure Fate where
  batch : List UsageRecord
  storedAt : Option ℤ

/-- The stored records, each with the server's clock. -/
def Fate.records (f : Fate) : List (ℤ × UsageRecord) :=
  match f.storedAt with
  | some now => f.batch.map (now, ·)
  | none => []

/-- The records that were not stored. -/
def Fate.lost (f : Fate) : List UsageRecord :=
  match f.storedAt with
  | some _ => []
  | none => f.batch

def recordsOf (fs : List Fate) : List (ℤ × UsageRecord) := fs.flatMap Fate.records

def lostOf (fs : List Fate) : List UsageRecord := fs.flatMap Fate.lost

/-- The rows of some records. -/
def rowsOf (ps : List (ℤ × UsageRecord)) : List Row := ps.map fun p => storedRow p.1 p.2

/-- The batch could be mapped, and the clock was read by its `executemany`. -/
def Fate.Sound (as : List Action) (f : Fate) : Prop :=
  ∀ now, f.storedAt = some now →
    (∀ r ∈ f.batch, Storable r) ∧ ∃ sent, Action.execute now .returned sent ∈ as

theorem Fate.Sound.snoc {as : List Action} {f : Fate} (h : f.Sound as) (a : Action) :
    f.Sound (as ++ [a]) := fun now hnow => by
  obtain ⟨hall, sent, hmem⟩ := h now hnow
  exact ⟨hall, sent, List.mem_append_left _ hmem⟩

theorem Fate.sound_none (as : List Action) (rs : List UsageRecord) : (Fate.mk rs none).Sound as :=
  fun now hnow => by cases hnow

@[simp] theorem recordsOf_append (fs gs : List Fate) :
    recordsOf (fs ++ gs) = recordsOf fs ++ recordsOf gs := List.flatMap_append

@[simp] theorem lostOf_append (fs gs : List Fate) : lostOf (fs ++ gs) = lostOf fs ++ lostOf gs :=
  List.flatMap_append

@[simp] theorem rowsOf_append (ps qs : List (ℤ × UsageRecord)) :
    rowsOf (ps ++ qs) = rowsOf ps ++ rowsOf qs := List.map_append

/-- A batch that is not stored leaves the rows. -/
theorem recordsOf_lost (fs : List Fate) (rs : List UsageRecord) :
    recordsOf (fs ++ [⟨rs, none⟩]) = recordsOf fs := by
  rw [recordsOf_append]
  exact List.append_nil _

/-- A batch that is stored adds its rows. -/
theorem rowsOf_stored (fs : List Fate) (rs : List UsageRecord) (now : ℤ) :
    rowsOf (recordsOf (fs ++ [⟨rs, some now⟩])) =
      rowsOf (recordsOf fs) ++ rs.map (storedRow now) := by
  rw [recordsOf_append, rowsOf_append]
  simp [recordsOf, Fate.records, rowsOf, Function.comp_def]

/-- Every record of a batch is stored or lost. -/
theorem length_recordsOf_add (fs : List Fate) :
    (recordsOf fs).length + (lostOf fs).length = (fs.map (·.batch)).flatten.length := by
  induction fs with
  | nil => rfl
  | cons f fs ih =>
    have hone : f.records.length + f.lost.length = f.batch.length := by
      unfold Fate.records Fate.lost
      cases f.storedAt <;> simp
    rw [List.map_cons, List.flatten_cons, List.length_append, ← ih, ← hone]
    show (f.records ++ recordsOf fs).length + (f.lost ++ lostOf fs).length = _
    rw [List.length_append, List.length_append]
    omega

/-- **What is stored is in the order of the batches.** -/
theorem recordsOf_sublist (fs : List Fate) :
    ((recordsOf fs).map Prod.snd).Sublist (fs.map (·.batch)).flatten := by
  induction fs with
  | nil => exact List.Sublist.slnil
  | cons f fs ih =>
    have hone : (f.records.map Prod.snd).Sublist f.batch := by
      unfold Fate.records
      cases f.storedAt with
      | none => exact List.nil_sublist _
      | some now => simp [Function.comp_def]
    rw [List.map_cons, List.flatten_cons]
    show ((f.records ++ recordsOf fs).map Prod.snd).Sublist _
    rw [List.map_append]
    exact hone.append ih

/-! ### A sink call -/

/-- What the database holds at each place of a call, when the batches before it had these fates. -/
def Place (as : List Action) (fs : List Fate) (db : Database) : Option Call → Prop
  | none => db.table = rowsOf (recordsOf fs)
  | some (.wrote rs) =>
    db.transaction = [] ∧ ∃ now, (Fate.mk rs (some now)).Sound as ∧
      db.table = rowsOf (recordsOf (fs ++ [⟨rs, some now⟩]))
  | some (.committing rs) =>
    db.table = rowsOf (recordsOf fs) ∧ ∃ now, (Fate.mk rs (some now)).Sound as ∧
      db.transaction = rs.map (storedRow now)
  | some (.executing rs rows) =>
    db.table = rowsOf (recordsOf fs) ∧ db.transaction = [] ∧ rowsFor rs = some rows
  | some (.writing rs) => db.table = rowsOf (recordsOf fs) ∧ db.transaction = [] ∧ rs ≠ []
  | some (.entered _) | some (.failed _) =>
    db.table = rowsOf (recordsOf fs) ∧ db.transaction = []

/-- Another step does not change a place. -/
theorem Place.snoc {as : List Action} {fs : List Fate} {db : Database} {c : Option Call}
    (h : Place as fs db c) (a : Action) : Place (as ++ [a]) fs db c := by
  cases c with
  | none => exact h
  | some c =>
    cases c with
    | entered | writing | executing | failed => exact h
    | committing rs =>
      obtain ⟨ht, now, hs, htr⟩ := h
      exact ⟨ht, now, hs.snoc a, htr⟩
    | wrote rs =>
      obtain ⟨htr, now, hs, ht⟩ := h
      exact ⟨htr, now, hs.snoc a, ht⟩

/-- A step inside a call keeps its batch. -/
theorem Place.inside {as : List Action} {fs : List Fate} {sink : DirectSink} {db db' : Database}
    {c c' : Call} {a : Action} (h : Place as fs db (some c))
    (hp : progress sink db c a = some (.inside c' db')) :
    c'.batch = c.batch ∧ Place (as ++ [a]) fs db' (some c') := by
  cases progress_cases hp with
  | passed rs hne hopen => exact ⟨rfl, h.1, h.2, hne⟩
  | rejected rs autocommit => exact ⟨rfl, h.1, h.2.1⟩
  | mapped rs rows hrows => exact ⟨rfl, h.1, h.2.1, hrows⟩
  | mappedNothing => exact absurd rfl h.2.2
  | executed rs rows now sent =>
    obtain ⟨ht, htr, hrows⟩ := h
    obtain ⟨hall, hmap⟩ := rowsFor_eq_some hrows now
    refine ⟨rfl, ht, now, fun now' hnow => ?_, ?_⟩
    · obtain rfl := Option.some.inj hnow
      exact ⟨hall, sent, List.mem_append_right _ (List.mem_singleton.2 rfl)⟩
    · show db.transaction ++ rows.map (insert now) = _
      rw [htr, hmap, List.nil_append]
  | executionFailed rs rows now sent => exact ⟨rfl, h.1, rfl⟩
  | committed rs done =>
    obtain ⟨ht, now, hs, htr⟩ := h
    refine ⟨rfl, rfl, now, hs.snoc _, ?_⟩
    show db.table ++ db.transaction = _
    rw [ht, htr, rowsOf_stored]
  | commitFailed rs done => exact ⟨rfl, h.1, rfl⟩

/-- What the end of a call says about its batch. -/
structure Settles (as : List Action) (fs : List Fate) (sink : DirectSink) (rs : List UsageRecord)
    (a : Action) (o : Outcome) (sink' : DirectSink) (db' : Database) (f : Fate) : Prop where
  batch : f.batch = rs
  sound : f.Sound (as ++ [a])
  table : db'.table = rowsOf (recordsOf (fs ++ [f]))
  clean : o ≠ .fatal → db'.transaction = []
  fatal : o = .fatal → a.isFatal = true
  ends : o ≠ .raised
  counts : a.isFatal = false →
    sink'.written = sink.written + f.records.length ∧ sink'.dropped = sink.dropped + f.lost.length

section Ends

variable {as : List Action} {fs : List Fate} {sink sink' : DirectSink} {db db' : Database}
  {rs : List UsageRecord} {c : Call} {a : Action} {o : Outcome}

/-- A call that is cut short before the commit. -/
theorem Settles.of_cut (ht : db.table = rowsOf (recordsOf fs)) (htable : db'.table = db.table)
    (hfatal : a.isFatal = true) : Settles as fs sink rs a .fatal sink db' ⟨rs, none⟩ where
  batch := rfl
  sound := Fate.sound_none _ _
  table := by rw [htable, ht, recordsOf_lost]
  clean hne := absurd rfl hne
  fatal _ := hfatal
  ends := by decide
  counts hregular := by
    rw [hfatal] at hregular
    cases hregular

/-- A call that counts its records as dropped. -/
theorem Settles.of_lost (ht : db.table = rowsOf (recordsOf fs)) (htr : db.transaction = []) :
    Settles as fs sink rs a .returned { sink with dropped := sink.dropped + rs.length } db
      ⟨rs, none⟩ where
  batch := rfl
  sound := Fate.sound_none _ _
  table := by rw [ht, recordsOf_lost]
  clean _ := htr
  fatal hf := by cases hf
  ends := by decide
  counts _ := ⟨rfl, rfl⟩

/-- **A call that ends has stored its batch whole or not at all**, and counted it once. -/
theorem Place.ended (h : Place as fs db (some c))
    (hp : progress sink db c a = some (.ended o sink' db')) :
    ∃ f, Settles as fs sink c.batch a o sink' db' f := by
  cases progress_cases hp with
  | nothing => exact ⟨_, .of_lost h.1 h.2⟩
  | refused rs => exact ⟨_, .of_lost h.1 h.2⟩
  | executionCut rs rows now sent => exact ⟨_, .of_cut h.1 rfl rfl⟩
  | commitCut rs done =>
    obtain ⟨ht, now, hs, htr⟩ := h
    cases done with
    | false => exact ⟨_, .of_cut ht rfl rfl⟩
    | true =>
      refine ⟨⟨rs, some now⟩, rfl, hs.snoc _, ?_, fun hne => absurd rfl hne, fun _ => rfl,
        by decide, fun hregular => by cases hregular⟩
      show db.table ++ db.transaction = _
      rw [ht, htr, rowsOf_stored]
  | counted rs =>
    obtain ⟨htr, now, hs, ht⟩ := h
    have hlength : (Fate.mk rs (some now)).records.length = rs.length := by simp [Fate.records]
    exact ⟨⟨rs, some now⟩, rfl, hs.snoc _, ht, fun _ => htr, fun hf => (by cases hf),
      by decide, fun _ => ⟨by rw [hlength], rfl⟩⟩
  | lost rs => exact ⟨_, .of_lost h.1 h.2⟩
  | interrupted =>
    cases c with
    | wrote rs =>
      obtain ⟨htr, now, hs, ht⟩ := h
      exact ⟨⟨rs, some now⟩, rfl, hs.snoc _, ht, fun _ => htr, fun _ => rfl, by decide,
        fun hregular => by cases hregular⟩
    | _ => exact ⟨_, .of_cut h.1 rfl rfl⟩

end Ends

/-! ### The account -/

/-- **The account of a run**: the fates of the batches, but for the one in the sink. -/
structure Account (as : List Action) (evs : List (Event UsageRecord)) (s : Pipeline)
    (fs : List Fate) : Prop where
  batches : batchesOf evs = fs.map (·.batch) ++ (s.sink.call.map Call.batch).toList
  inCall : s.sink.call.isSome = s.emitter.worker.inCall
  place : Place as fs s.db s.sink.call
  clean : s.sink.call = none → s.emitter.worker.done = false → s.db.transaction = []
  sound : ∀ f ∈ fs, f.Sound as
  counts : OnlyExceptions as →
    s.sink.written = (recordsOf fs).length ∧ s.sink.dropped = (lostOf fs).length

theorem account_init : Account [] [] {} [] where
  batches := rfl
  inCall := rfl
  place := rfl
  clean _ _ := rfl
  sound f hf := by cases hf
  counts _ := ⟨rfl, rfl⟩

/-- A step of the client that hands nothing over begins no call. -/
theorem called_of_quiet {es : List (Event UsageRecord)} (h : batchesOf es = [])
    (before : Option Call) : called before es = before := by
  induction es with
  | nil => rfl
  | cons e es ih =>
    rw [Emitter.batchesOf_cons, List.append_eq_nil_iff] at h
    cases e with
    | handed rs => cases h.1
    | _ => exact ih h.2

theorem onlyExceptions_snoc {as : List Action} {a : Action} :
    OnlyExceptions (as ++ [a]) ↔ OnlyExceptions as ∧ a.isFatal = false := by
  unfold OnlyExceptions
  simp only [List.mem_append, List.mem_singleton]
  constructor
  · exact fun h => ⟨fun x hx => h x (.inl hx), h a (.inr rfl)⟩
  · rintro ⟨h, ha⟩ x (hx | rfl)
    · exact h x hx
    · exact ha

/-- A step of the client outside the sink. -/
theorem Account.client {cfg : Config} {as : List Action} {evs es : List (Event UsageRecord)}
    {s : Pipeline} {fs : List Fate} {a : Emitter.Action UsageRecord} {t : State UsageRecord}
    (h : Account as evs s fs) (x : Action) (closed : Bool) (ha : ∀ o, a ≠ .sinkReturns o)
    (hstep : Emitter.step (direct cfg) s.emitter a = some (t, es)) :
    Account (as ++ [x]) (evs ++ es)
      ⟨t, ⟨closed, s.sink.written, s.sink.dropped, called s.sink.call es⟩, s.db⟩ fs := by
  have hsound : ∀ f ∈ fs, f.Sound (as ++ [x]) := fun f hf => (h.sound f hf).snoc x
  have hcounts : OnlyExceptions (as ++ [x]) →
      s.sink.written = (recordsOf fs).length ∧ s.sink.dropped = (lostOf fs).length :=
    fun hexc => h.counts (onlyExceptions_snoc.1 hexc).1
  rcases Emitter.step_inCall hstep with ⟨todo, -, hw, hin, rfl⟩ | ⟨o, ho, -⟩ | ⟨-, hin, hd, he⟩
  · -- the worker was not in a call, so this batch is the only one in the sink
    have hnone : s.sink.call = none := by
      have := h.inCall
      rw [hw] at this
      simpa [Emitter.Worker.inCall] using this
    have hplace := h.place
    rw [hnone] at hplace
    refine ⟨?_, hin.symm, ⟨hplace, h.clean hnone (by rw [hw]; rfl)⟩, fun hc => (by cases hc),
      hsound, hcounts⟩
    rw [Emitter.batchesOf_append, h.batches, hnone]
    simp [called, Call.batch, Emitter.batchesOf, Event.batchPart]
  · exact absurd ho (ha o)
  · rw [called_of_quiet he]
    refine ⟨?_, h.inCall.trans hin.symm, h.place.snoc x, fun hc hnd => h.clean hc ?_, hsound,
      hcounts⟩
    · rw [Emitter.batchesOf_append, he, List.append_nil]
      exact h.batches
    · by_contra hdone
      have hdone : s.emitter.worker.done = true := by simpa using hdone
      rw [hd hdone] at hnd
      cases hnd

/-- **Every step keeps the account.** -/
theorem Account.step {cfg : Config} {as : List Action} {evs e : List (Event UsageRecord)}
    {s t : Pipeline} {a : Action} {fs : List Fate} (h : Account as evs s fs)
    (hstep : step cfg s a = some (t, e)) : ∃ fs', Account (as ++ [a]) (evs ++ e) t fs' := by
  cases step_cases hstep with
  | client b u es hb hs =>
    refine ⟨fs, h.client (.client b) s.sink.closed (fun o ho => ?_) hs⟩
    rw [ho] at hb
    cases hb
  | sinkClosed interrupted u es hs =>
    exact ⟨fs, h.client (.sinkClosed interrupted) true (fun o ho => by cases ho) hs⟩
  | inside a c c' db hc hp =>
    have hplace := h.place
    rw [hc] at hplace
    obtain ⟨hbatch, hplace'⟩ := hplace.inside hp
    refine ⟨fs, ?_, ?_, hplace', fun hn => (by cases hn), fun f hf => (h.sound f hf).snoc a,
      fun hexc => h.counts (onlyExceptions_snoc.1 hexc).1⟩
    · rw [List.append_nil, h.batches, hc]
      simp [hbatch]
    · rw [← h.inCall, hc]
      rfl
  | ended a c o sink db u es hc hp hs =>
    have hplace := h.place
    rw [hc] at hplace
    obtain ⟨f, hf⟩ := hplace.ended hp
    rcases Emitter.step_inCall hs with ⟨todo, hno, -⟩ | ⟨o', ho, hin, hout, hd, he⟩ | ⟨hno, -⟩
    · cases hno
    · obtain rfl := Emitter.Action.sinkReturns.inj ho
      rw [called_of_quiet he]
      refine ⟨fs ++ [f], ?_, hout.symm, hf.table, fun _ hnd => hf.clean fun hfatal => ?_,
        fun g hg => ?_, fun hexc => ?_⟩
      · rw [Emitter.batchesOf_append, he, List.append_nil, h.batches, hc]
        simp [hf.batch]
      · rw [hd hfatal] at hnd
        cases hnd
      · rcases List.mem_append.1 hg with hg | hg
        · exact (h.sound g hg).snoc a
        · rw [List.mem_singleton.1 hg]
          exact hf.sound
      · obtain ⟨hbefore, hnf⟩ := onlyExceptions_snoc.1 hexc
        obtain ⟨hw, hdr⟩ := h.counts hbefore
        obtain ⟨hw', hdr'⟩ := hf.counts hnf
        refine ⟨?_, ?_⟩
        · show sink.written = _
          rw [hw', hw, recordsOf_append, List.length_append]
          simp [recordsOf]
        · show sink.dropped = _
          rw [hdr', hdr, lostOf_append, List.length_append]
          simp [lostOf]
    · exact absurd rfl (hno o)

/-- **The pipeline refines the client**: its steps are steps of the client whose sink never raises
an `Exception`. -/
theorem emitter_run {cfg : Config} {as : List Action} {evs : List (Event UsageRecord)}
    {s : Pipeline} (h : (pipeline cfg).run {} as = some (s, evs)) :
    (∃ fs, Account as evs s fs) ∧
      ∃ bs, (Emitter.emitter UsageRecord (direct cfg)).run (.init UsageRecord) bs =
          some (s.emitter, evs) ∧
        (OnlyExceptions as → Emitter.OnlyExceptions bs) ∧
        Emitter.Action.sinkReturns .raised ∉ bs := by
  refine Machine.run_induction (M := pipeline cfg)
    (I := fun as evs s => (∃ fs, Account as evs s fs) ∧
      ∃ bs, (Emitter.emitter UsageRecord (direct cfg)).run (.init UsageRecord) bs =
          some (s.emitter, evs) ∧
        (OnlyExceptions as → Emitter.OnlyExceptions bs) ∧
        Emitter.Action.sinkReturns .raised ∉ bs)
    ⟨⟨[], account_init⟩, [], rfl, fun _ hmem => (by cases hmem), fun hmem => by cases hmem⟩ ?_ h
  rintro as evs s a t e ⟨⟨fs, hfs⟩, bs, hbs, hexc, hraised⟩ hstep
  refine ⟨hfs.step hstep, ?_⟩
  -- one more step of the client
  have hsnoc : ∀ {b : Emitter.Action UsageRecord} {u : State UsageRecord}
      {es : List (Event UsageRecord)},
      Emitter.step (direct cfg) s.emitter b = some (u, es) → b ≠ .sinkReturns .raised →
      (OnlyExceptions (as ++ [a]) → b ≠ .sinkReturns .fatal) →
      ∃ bs', (Emitter.emitter UsageRecord (direct cfg)).run (.init UsageRecord) bs' =
          some (u, evs ++ es) ∧
        (OnlyExceptions (as ++ [a]) → Emitter.OnlyExceptions bs') ∧
        Emitter.Action.sinkReturns .raised ∉ bs' := fun {b u es} hb hr hf => by
    refine ⟨bs ++ [b], Machine.run_snoc.2 ⟨_, _, _, hbs, hb, rfl⟩, fun hx => ?_, fun hmem => ?_⟩
    · exact Emitter.onlyExceptions_snoc.2 ⟨hexc (onlyExceptions_snoc.1 hx).1, hf hx⟩
    · rcases List.mem_append.1 hmem with hmem | hmem
      · exact hraised hmem
      · exact hr (List.mem_singleton.1 hmem).symm
  cases step_cases hstep with
  | client b u es hb hs =>
    refine hsnoc hs ?_ fun _ => ?_ <;>
      · rintro rfl
        cases hb
  | sinkClosed interrupted u es hs => exact hsnoc hs (by simp) fun _ => by simp
  | inside a c c' db hc hp =>
    refine ⟨bs, by rw [List.append_nil]; exact hbs, fun hx => ?_, hraised⟩
    exact hexc (onlyExceptions_snoc.1 hx).1
  | ended a c o sink db u es hc hp hs =>
    have hplace := hfs.place
    rw [hc] at hplace
    obtain ⟨f, hf⟩ := hplace.ended hp
    refine hsnoc hs (fun ho => hf.ends (Emitter.Action.sinkReturns.inj ho)) fun hx ho => ?_
    have hfatal := hf.fatal (Emitter.Action.sinkReturns.inj ho)
    rw [(onlyExceptions_snoc.1 hx).2] at hfatal
    cases hfatal

/-! ### The refinement -/

/-- **The pipeline refines an append-only log.** After every run, whatever the interleaving and
the failures: each batch handed over before the one in the sink has a fate; the table is the rows
of what the fates say was stored, each under its columns the values of its record's fields and the
instant of its `ts`; and the stored records are, in order, a subsequence of the accepted ones. Once
the worker has stopped and only `Exception`s were raised, every batch has its fate, `written`
counts the stored records, `dropped` the others, and every accepted record is stored, dropped,
failed or abandoned at the close. -/
theorem refinement {cfg : Config} {as : List Action} {evs : List (Event UsageRecord)}
    {s : Pipeline} (h : (pipeline cfg).run {} as = some (s, evs)) :
    ∃ fs : List Fate,
      fs.map (·.batch) <+: batchesOf evs ∧
      s.db.table = rowsOf (recordsOf fs) ∧
      ((recordsOf fs).map Prod.snd).Sublist (acceptedOf evs) ∧
      (∀ f ∈ fs, f.Sound as) ∧
      (OnlyExceptions as → s.emitter.worker = .stopped →
        fs.map (·.batch) = batchesOf evs ∧
          s.sink.written = (recordsOf fs).length ∧ s.sink.dropped = (lostOf fs).length ∧
          s.sink.written = s.db.table.length ∧
          s.emitter.accepted = s.db.table.length + s.sink.dropped + s.emitter.failed +
            s.emitter.droppedAtClose) := by
  obtain ⟨⟨fs, hfs⟩, bs, hbs, hexc, hraised⟩ := emitter_run h
  have hpre := Emitter.run_handed_prefix hbs
  have hsub : ∀ gs : List Fate, gs.map (·.batch) <+: batchesOf evs →
      ((recordsOf gs).map Prod.snd).Sublist (acceptedOf evs) := fun gs hgs => by
    have hflat : (gs.map (·.batch)).flatten <+: handedOf evs := by
      obtain ⟨rest, hrest⟩ := hgs
      exact ⟨rest.flatten, by rw [handedOf, ← hrest, List.flatten_append]⟩
    exact (recordsOf_sublist gs).trans (hflat.trans hpre).sublist
  -- the batch that is committed and not counted yet is stored as well
  obtain ⟨gs, hgs, htable, hsound, hnone⟩ : ∃ gs : List Fate, gs.map (·.batch) <+: batchesOf evs ∧
      s.db.table = rowsOf (recordsOf gs) ∧ (∀ f ∈ gs, f.Sound as) ∧
      (s.sink.call = none → gs = fs) := by
    have hplace := hfs.place
    have hbefore : fs.map (·.batch) <+: batchesOf evs := ⟨_, hfs.batches.symm⟩
    cases hc : s.sink.call with
    | none =>
      rw [hc] at hplace
      exact ⟨fs, hbefore, hplace, hfs.sound, fun _ => rfl⟩
    | some c =>
      rw [hc] at hplace
      cases c with
      | wrote rs =>
        obtain ⟨-, now, hs, ht⟩ := hplace
        refine ⟨fs ++ [⟨rs, some now⟩], ?_, ht, fun f hf => ?_, fun hn => by cases hn⟩
        · rw [hfs.batches, hc]
          simp [Call.batch]
        · rcases List.mem_append.1 hf with hf | hf
          · exact hfs.sound f hf
          · rw [List.mem_singleton.1 hf]
            exact hs
      | entered | writing | executing | committing | failed =>
        exact ⟨fs, hbefore, hplace.1, hfs.sound, fun hn => by cases hn⟩
  refine ⟨gs, hgs, htable, hsub gs hgs, hsound, fun hx hw => ?_⟩
  have hcall : s.sink.call = none := by
    have := hfs.inCall
    rw [hw] at this
    simpa [Emitter.Worker.inCall] using this
  obtain rfl := hnone hcall
  have hbatches : gs.map (·.batch) = batchesOf evs := by
    rw [hfs.batches, hcall]
    simp
  obtain ⟨hwritten, hdropped⟩ := hfs.counts hx
  have hrows : s.db.table.length = (recordsOf gs).length := by
    rw [htable, rowsOf, List.length_map]
  refine ⟨hbatches, hwritten, hdropped, hwritten.trans hrows.symm, ?_⟩
  obtain ⟨l, hl⟩ := Emitter.run_ledger hbs (hexc hx)
  have hstopped := Emitter.run_account_stopped hbs (hexc hx) hw
  have hzero := Emitter.run_failed_eq_zero hbs hraised
  have hcounted := l.counted
  rw [hl.batches, ← hbatches, hl.delivered, hl.failed, hl.uncounted, hw,
    ← length_recordsOf_add] at hcounted
  have hunc : (Emitter.Worker.stopped : Emitter.Worker UsageRecord).uncounted = 0 := rfl
  rw [hunc] at hcounted
  rw [hrows, hdropped, hstopped.2]
  omega

theorem timed_requestId : NonBlank (Text.of "r") := by decide
theorem timed_appId : NonBlank (Text.of "app") := by decide
theorem timed_endpoint : NonBlank (Text.of "messages") := by decide
theorem timed_model : NonBlank (Text.of "m") := by decide
theorem timed_status : NonBlank (Text.of "ok") := by decide

/-- A record with this `ts`. -/
def timedRecord (ts : String) : UsageRecord where
  requestId := Text.of "r"
  appId := Text.of "app"
  endpoint := Text.of "messages"
  model := Text.of "m"
  status := Text.of "ok"
  ts := some (Text.of ts)
  requestId_nonBlank := timed_requestId
  appId_nonBlank := timed_appId
  endpoint_nonBlank := timed_endpoint
  model_nonBlank := timed_model
  status_nonBlank := timed_status
  schemaVersion_pos := Nat.zero_lt_one

/-- A batch of two records is stored, and one whose `ts` is no time is dropped. -/
theorem refinement_unparsable_ts :
    let cfg : Config := ⟨4, 2, 0, false, true, by decide, by decide, le_rfl⟩
    let as : List Action :=
      [.client (.offer (.record (timedRecord "2026-01-02T03:04:05Z"))),
        .client (.offer (.record (timedRecord " "))),
        .client (.offer (.record (timedRecord "yesterday"))), .client (.acquire 0 0),
        .client .handOver, .check, .map false, .execute 7 .returned 2, .commit .returned true,
        .account, .client .count, .client .settle, .client (.closeBegin false),
        .client (.acquire 0 0), .client .handOver, .check, .map false, .account, .client .count,
        .client .settle, .client (.acquire 0 0), .client .finish, .client .closeSink,
        .sinkClosed false]
    ∃ s evs, (pipeline cfg).run {} as = some (s, evs) ∧ s.emitter.accepted = 3 ∧
      s.sink.written = s.db.table.length ∧
      s.emitter.accepted =
        s.db.table.length + s.sink.dropped + s.emitter.failed + s.emitter.droppedAtClose ∧
      s.db.table.map (fun row => row .ts) =
        [.timestamptz 63902919845000000, .timestamptz 7] := by
  intro cfg as
  have hexc : OnlyExceptions as := by simp [OnlyExceptions, as, Action.isFatal]
  have hkey : ((pipeline cfg).run {} as).map (fun p =>
      (p.1.emitter.worker, p.1.emitter.accepted, p.1.db.table.map fun row => row .ts)) =
      some (.stopped, 3, [.timestamptz 63902919845000000, .timestamptz 7]) := by decide +kernel
  obtain ⟨⟨s, evs⟩, hrun, he⟩ := Option.map_eq_some_iff.1 hkey
  obtain ⟨hworker, haccepted, hts⟩ : _ ∧ _ ∧ _ := by simpa using he
  obtain ⟨fs, -, -, -, -, hend⟩ := refinement hrun
  obtain ⟨-, -, -, hwritten, hsum⟩ := hend hexc hworker
  exact ⟨s, evs, hrun, haccepted, hwritten, hsum, hts⟩

end Tokenweir.Store
