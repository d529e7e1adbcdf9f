import Tokenweir.Store.Refinement
import Tokenweir.Rollup.Daily

/-!
# What is emitted is what is billed

The daily rollup, over the table that the pipeline has filled.

* `usageOf`, what the view reads of a row; `billed`, what it reads of a record;
  `usageOf_storedRow`;
* `place_stored`, `run_stored`, the records of the table; `run_complete`, those of a closed client;
* `billed_exactly`.
-/

namespace Tokenweir.Rollup

open Emitter (Config Event acceptedOf batchesOf handedOf)
open Store (Row SqlValue Fate Pipeline pipeline recordsOf rowsOf storedRow Storable Place Account)

/-! ### The columns that the view reads -/

/-- The value of a `TEXT` column. -/
def textOf : SqlValue → Option Text
  | .text s => some s
  | _ => none

/-- The value of a `TEXT` column that may be null. -/
def nullableTextOf : SqlValue → Option (Option Text)
  | .null => some none
  | .text s => some (some s)
  | _ => none

/-- The value of a `BIGINT` column. -/
def bigintOf : SqlValue → Option ℤ
  | .int n => some n
  | _ => none

/-- The value of a `TIMESTAMPTZ` column. -/
def timestampOf : SqlValue → Option Sql.Timestamp
  | .timestamptz t => some (.instant t)
  | _ => none

/-- What the view reads of a row of `gateway_usage`; a column of another type is not read. -/
def usageOf (row : Row) : Option Usage := do
  let appId ← textOf (row .appId)
  let model ← textOf (row .model)
  let pricingMode ← nullableTextOf (row .pricingMode)
  let inputTokens ← bigintOf (row .inputTokens)
  let outputTokens ← bigintOf (row .outputTokens)
  let cacheCreationInputTokens ← bigintOf (row .cacheCreationInputTokens)
  let cacheReadInputTokens ← bigintOf (row .cacheReadInputTokens)
  let ts ← timestampOf (row .ts)
  return {
    appId := appId
    model := model
    pricingMode := pricingMode
    inputTokens := inputTokens
    outputTokens := outputTokens
    cacheCreationInputTokens := cacheCreationInputTokens
    cacheReadInputTokens := cacheReadInputTokens
    ts := ts }

/-- The view, over the rows of the tables. -/
def dailyOf (table : List Row) (card : RateCard) : Option (List DailyRow) := do
  let usage ← table.mapM usageOf
  gatewayUsageDaily usage card.rates

/-- A record, as the view should read it: its own fields, at its own time, or at the server's
clock if it has none. -/
def billed (p : ℤ × UsageRecord) : Usage where
  appId := p.2.appId
  model := p.2.model
  pricingMode := p.2.pricingMode.map fun m => Text.of m.value
  inputTokens := p.2.counts .inputTokens
  outputTokens := p.2.counts .outputTokens
  cacheCreationInputTokens := p.2.counts .cacheCreationInputTokens
  cacheReadInputTokens := p.2.counts .cacheReadInputTokens
  ts := .instant (Store.stamp p.1 p.2)

theorem nullableTextOf_ofText (s : Option Text) : nullableTextOf (.ofText s) = some s := by
  cases s <;> rfl

/-- **The view reads a stored row as its record.** -/
theorem usageOf_storedRow (p : ℤ × UsageRecord) : usageOf (storedRow p.1 p.2) = some (billed p) := by
  have hcolumn : ∀ c, c ≠ Store.Column.ts → storedRow p.1 p.2 c = Store.fieldValue p.2 c :=
    fun c hc => Store.storedRow_of_ne p.1 p.2 hc
  unfold usageOf
  rw [hcolumn .appId (by decide), hcolumn .model (by decide), hcolumn .pricingMode (by decide),
    hcolumn .inputTokens (by decide), hcolumn .outputTokens (by decide),
    hcolumn .cacheCreationInputTokens (by decide), hcolumn .cacheReadInputTokens (by decide),
    Store.storedRow_ts]
  simp only [Store.fieldValue, textOf, bigintOf, timestampOf, nullableTextOf_ofText]
  rfl

/-- The rows of some records are all read. -/
theorem mapM_usageOf (ps : List (ℤ × UsageRecord)) :
    (rowsOf ps).mapM usageOf = some (ps.map billed) := by
  induction ps with
  | nil => rfl
  | cons p ps ih =>
    have hrows : rowsOf (p :: ps) = storedRow p.1 p.2 :: rowsOf ps := rfl
    rw [hrows, List.mapM_cons, usageOf_storedRow, ih]
    rfl

theorem dailyOf_rowsOf (ps : List (ℤ × UsageRecord)) (card : RateCard) :
    dailyOf (rowsOf ps) card = gatewayUsageDaily (ps.map billed) card.rates := by
  rw [dailyOf, mapM_usageOf]
  rfl

/-! ### The records of the table -/

variable {cfg : Config} {as : List Store.Action} {evs : List (Event UsageRecord)} {s : Pipeline}

/-- A batch that is committed and not counted yet has its fate as well. -/
theorem place_stored {fs : List Fate} {db : Store.Database} {c : Option Store.Call}
    (h : Place as fs db c) (hsound : ∀ f ∈ fs, f.Sound as) :
    ∃ gs : List Fate, gs.map (·.batch) <+: fs.map (·.batch) ++ (c.map Store.Call.batch).toList ∧
      db.table = rowsOf (recordsOf gs) ∧ ∀ f ∈ gs, f.Sound as := by
  cases c with
  | none => exact ⟨fs, List.prefix_append _ _, h, hsound⟩
  | some c =>
    cases c with
    | wrote rs =>
      obtain ⟨-, now, hs, ht⟩ := h
      refine ⟨fs ++ [⟨rs, some now⟩], ?_, ht, fun f hf => ?_⟩
      · simp [Store.Call.batch]
      · rcases List.mem_append.1 hf with hf | hf
        · exact hsound f hf
        · rw [List.mem_singleton.1 hf]
          exact hs
    | entered | writing | executing | committing | failed =>
      exact ⟨fs, List.prefix_append _ _, h.1, hsound⟩

/-- What is stored of a batch could be mapped, and has the clock of an `executemany`. -/
theorem records_storable {gs : List Fate} (hsound : ∀ f ∈ gs, f.Sound as) :
    ∀ p ∈ recordsOf gs, Storable p.2 ∧ ∃ sent, Store.Action.execute p.1 .returned sent ∈ as := by
  intro p hp
  obtain ⟨f, hf, hp⟩ := List.mem_flatMap.1 hp
  unfold Fate.records at hp
  cases hnow : f.storedAt with
  | none =>
    rw [hnow] at hp
    cases hp
  | some now =>
    rw [hnow] at hp
    obtain ⟨r, hr, rfl⟩ := List.mem_map.1 hp
    obtain ⟨hall, hexec⟩ := hsound f hf now hnow
    exact ⟨hall r hr, hexec⟩

/-- After every run, the table holds the rows of some of the accepted records, in their order. -/
theorem run_stored (h : (pipeline cfg).run {} as = some (s, evs)) :
    ∃ ps : List (ℤ × UsageRecord), s.db.table = rowsOf ps ∧
      (ps.map Prod.snd).Sublist (acceptedOf evs) ∧
      ∀ p ∈ ps, Storable p.2 ∧ ∃ sent, Store.Action.execute p.1 .returned sent ∈ as := by
  obtain ⟨⟨fs, hfs⟩, bs, hbs, -⟩ := Store.emitter_run h
  obtain ⟨gs, hgs, htable, hsound⟩ := place_stored hfs.place hfs.sound
  rw [← hfs.batches] at hgs
  have hflat : (gs.map (·.batch)).flatten <+: handedOf evs := by
    obtain ⟨rest, hrest⟩ := hgs
    exact ⟨rest.flatten, by rw [handedOf, ← hrest, List.flatten_append]⟩
  exact ⟨recordsOf gs, htable,
    (Store.recordsOf_sublist gs).trans (hflat.trans (Emitter.run_handed_prefix hbs)).sublist,
    records_storable hsound⟩

/-- Once the worker has stopped, every accepted record is in the table or counted as lost. -/
theorem run_complete (h : (pipeline cfg).run {} as = some (s, evs))
    (hexc : Store.OnlyExceptions as) (hworker : s.emitter.worker = .stopped) :
    s.sink.written = s.db.table.length ∧ s.emitter.failed = 0 ∧
      (acceptedOf evs).length = s.sink.written + s.sink.dropped + s.emitter.droppedAtClose := by
  obtain ⟨⟨fs, hfs⟩, bs, hbs, hbexc, hraised⟩ := Store.emitter_run h
  have hcall : s.sink.call = none := by
    have := hfs.inCall
    rw [hworker] at this
    simpa [Emitter.Worker.inCall] using this
  have htable : s.db.table = rowsOf (recordsOf fs) := by
    have hplace := hfs.place
    rwa [hcall] at hplace
  have hbatches : batchesOf evs = fs.map (·.batch) := by
    rw [hfs.batches, hcall]
    simp
  obtain ⟨hwritten, hdropped⟩ := hfs.counts hexc
  obtain ⟨l, hl⟩ := Emitter.run_ledger hbs (hbexc hexc)
  have hstopped := (Emitter.run_account_stopped hbs (hbexc hexc) hworker).2
  have hfailed := Emitter.run_failed_eq_zero hbs hraised
  -- the batches that were handed over are delivered, as no call of the sink raised
  have hcounted := l.counted
  rw [hl.batches, hbatches, hl.delivered, hl.failed, hl.uncounted, hworker,
    ← Store.length_recordsOf_add] at hcounted
  have huncounted : (Emitter.Worker.stopped : Emitter.Worker UsageRecord).uncounted = 0 := rfl
  refine ⟨?_, hfailed, ?_⟩
  · rw [htable, hwritten, rowsOf, List.length_map]
  · rw [← hl.accepted, hstopped, hwritten, hdropped]
    omega

/-! ### The rollup -/

/-- **What is emitted is what is billed.** After every run of the pipeline, over any card, the view
reads the table as some of the accepted records, each at its own time or at the clock of the insert
that stored it. Either their tokens fit, and then every one of them is in one row, by its
application, UTC day, model and pricing mode, and the rows count, sum and price exactly them; or
they do not, and then there are no rows. Once the worker has stopped and only `Exception`s were
raised, these are `written` records, and all the accepted ones if none is counted as dropped by the
sink or at the close. -/
theorem billed_exactly (h : (pipeline cfg).run {} as = some (s, evs)) (card : RateCard) :
    ∃ ps : List (ℤ × UsageRecord),
      (ps.map Prod.snd).Sublist (acceptedOf evs) ∧
      (∀ p ∈ ps, Storable p.2 ∧ ∃ sent, Store.Action.execute p.1 .returned sent ∈ as) ∧
      (((∀ k, SumsFit ((ps.map billed).filter (·.key = k))) ∧
          ∃ rows, dailyOf s.db.table card = some rows ∧ DailyCorrect (ps.map billed) card rows) ∨
        ((∃ k, ¬ SumsFit ((ps.map billed).filter (·.key = k))) ∧
          dailyOf s.db.table card = none)) ∧
      (Store.OnlyExceptions as → s.emitter.worker = .stopped →
        ps.length = s.sink.written ∧
          (s.sink.dropped + s.emitter.droppedAtClose = 0 → ps.map Prod.snd = acceptedOf evs)) := by
  obtain ⟨ps, htable, hsub, hsound⟩ := run_stored h
  refine ⟨ps, hsub, hsound, ?_, fun hexc hworker => ?_⟩
  · rw [htable, dailyOf_rowsOf, gatewayUsageDaily_eq]
    by_cases hfits : ∀ k, SumsFit ((ps.map billed).filter (·.key = k))
    · rw [if_pos ((sumsFit_groups _).2 hfits)]
      exact .inl ⟨hfits, _, rfl, rows_correct _ card⟩
    · rw [if_neg fun hnot => hfits ((sumsFit_groups _).1 hnot)]
      exact .inr ⟨not_forall.1 hfits, rfl⟩
  · obtain ⟨hwritten, -, haccepted⟩ := run_complete h hexc hworker
    have hlength : ps.length = s.sink.written := by
      rw [hwritten, htable, rowsOf, List.length_map]
    refine ⟨hlength, fun hnone => hsub.eq_of_length ?_⟩
    rw [List.length_map, hlength, haccepted]
    omega

/-- Two records, one with a time and one without, are two calls on the bill. -/
theorem billed_exactly_two :
    let cfg : Config := ⟨4, 2, 0, false, true, by decide, by decide, le_rfl⟩
    let card : RateCard := ⟨[⟨Text.of "m", .day 1, 3, 15, none, none⟩], List.nodup_singleton _⟩
    let as : List Store.Action :=
      [.client (.offer (.record (Store.timedRecord "2026-01-02T03:04:05Z"))),
        .client (.offer (.record (Store.timedRecord " "))), .client (.acquire 0 0),
        .client .handOver, .check, .map false, .execute 7 .returned 2, .commit .returned true,
        .account, .client .count, .client .settle, .client (.closeBegin false),
        .client (.acquire 0 0), .client .finish, .client .closeSink, .sinkClosed false]
    ∃ s evs, (pipeline cfg).run {} as = some (s, evs) ∧
      ∃ (ps : List (ℤ × UsageRecord)) (rows : List DailyRow),
        ps.map Prod.snd = acceptedOf evs ∧ ps.length = 2 ∧ dailyOf s.db.table card = some rows ∧
        DailyCorrect (ps.map billed) card rows ∧ rows.length = 2 := by
  intro cfg card as
  have hexc : Store.OnlyExceptions as := by simp [Store.OnlyExceptions, as, Store.Action.isFatal]
  have hkey : ((pipeline cfg).run {} as).map (fun p =>
      (p.1.emitter.worker, p.1.sink.written, p.1.sink.dropped + p.1.emitter.droppedAtClose,
        (dailyOf p.1.db.table card).map List.length)) = some (.stopped, 2, 0, some 2) := by
    decide +kernel
  obtain ⟨⟨s, evs⟩, hrun, he⟩ := Option.map_eq_some_iff.1 hkey
  obtain ⟨hworker, hwritten, hlost, hlength⟩ : _ ∧ _ ∧ _ ∧ _ := by
    simpa only [Prod.mk.injEq] using he
  obtain ⟨ps, -, -, hdaily, hend⟩ := billed_exactly hrun card
  obtain ⟨hps, hall⟩ := hend hexc hworker
  rcases hdaily with ⟨-, rows, hrows, hcorrect⟩ | ⟨-, hnone⟩
  · rw [hrows, Option.map_some, Option.some.injEq] at hlength
    exact ⟨s, evs, hrun, ps, rows, hall hlost, hps.trans hwritten, hrows, hcorrect, hlength⟩
  · rw [hnone] at hlength
    cases hlength

end Tokenweir.Rollup
