import Mathlib.Tactic
import Tokenweir.Lib.DateTime
import Tokenweir.Contract.Record

/-!
# Rows of `gateway_usage`

The pure part of `tokenweir.postgres`: how a record becomes the parameters of an insert, and
what the statement makes of them.

* `Column`, `columns`, `rowFor`, `rowsFor`; `insert`;
* `fieldValue`, `stamp`, `storedRow`, what a row should hold;
* `insert_rowFor` and `rowsFor_eq_some`.
-/

namespace Tokenweir.Store

/-! ### Columns and values -/

/-- The columns of `gateway_usage`. -/
inductive Column
  | schemaVersion
  | requestId
  | appId
  | endpoint
  | model
  | status
  | workload
  | queue
  | parentRequestId
  | inputTokens
  | outputTokens
  | cacheCreationInputTokens
  | cacheReadInputTokens
  | latencyMs
  | pricingMode
  | ts
  deriving DecidableEq, Repr

/-- `COLUMNS`. -/
def columns : List Column :=
  [.schemaVersion, .requestId, .appId, .endpoint, .model, .status, .workload, .queue,
    .parentRequestId, .inputTokens, .outputTokens, .cacheCreationInputTokens,
    .cacheReadInputTokens, .latencyMs, .pricingMode, .ts]

/-- A value of a parameter or of a column; an instant is in microseconds. -/
inductive SqlValue
  | null
  | int (n : ℤ)
  | text (s : Text)
  | timestamptz (instant : ℤ)
  deriving DecidableEq, Repr

def SqlValue.ofText : Option Text → SqlValue
  | none => .null
  | some s => .text s

def SqlValue.ofNat : Option ℕ → SqlValue
  | none => .null
  | some n => .int n

def SqlValue.ofTime : Option DateTime → SqlValue
  | none => .null
  | some t => .timestamptz t.instant

/-! ### The mapping -/

/-- `_timestamp_for`: `none` where it raises, `some none` to let the server stamp the row. A
time without a zone is read as UTC. -/
def timestampFor (r : UsageRecord) : Option (Option DateTime) :=
  match r.ts with
  | none => some none
  | some raw => if raw.strip = [] then some none else (DateTime.fromIsoFormat raw).map some

/-- The tuple of `row_for`, in the order of `COLUMNS`. -/
def parameters (r : UsageRecord) (ts : SqlValue) : List SqlValue :=
  [.int r.schemaVersion, .text r.requestId, .text r.appId, .text r.endpoint, .text r.model,
    .text r.status, .ofText r.workload, .ofText r.queue, .ofText r.parentRequestId,
    .int (r.counts .inputTokens), .int (r.counts .outputTokens),
    .int (r.counts .cacheCreationInputTokens), .int (r.counts .cacheReadInputTokens),
    .ofNat r.latencyMs, .ofText (r.pricingMode.map fun m => Text.of m.value), ts]

/-- `row_for`, of a record; `none` where it raises. -/
def rowFor (r : UsageRecord) : Option (List SqlValue) :=
  (timestampFor r).map fun ts => parameters r (.ofTime ts)

/-- `rows_for`: every record is mapped before anything is sent. -/
def rowsFor (rs : List UsageRecord) : Option (List (List SqlValue)) := rs.mapM rowFor

/-! ### The statement -/

/-- A row of the table. -/
abbrev Row := Column → SqlValue

/-- `INSERT_SQL`, at a reading of the server's clock: each parameter goes to the column at its
place, and `COALESCE(%s::timestamptz, now())` to `ts`. -/
def insert (now : ℤ) (params : List SqlValue) : Row := fun c =>
  let value := ((columns.zip params).lookup c).getD .null
  if c = .ts ∧ value = .null then .timestamptz now else value

/-! ### What a row should hold -/

/-- The value of the field a column is named after. -/
def fieldValue (r : UsageRecord) : Column → SqlValue
  | .schemaVersion => .int r.schemaVersion
  | .requestId => .text r.requestId
  | .appId => .text r.appId
  | .endpoint => .text r.endpoint
  | .model => .text r.model
  | .status => .text r.status
  | .workload => .ofText r.workload
  | .queue => .ofText r.queue
  | .parentRequestId => .ofText r.parentRequestId
  | .inputTokens => .int (r.counts .inputTokens)
  | .outputTokens => .int (r.counts .outputTokens)
  | .cacheCreationInputTokens => .int (r.counts .cacheCreationInputTokens)
  | .cacheReadInputTokens => .int (r.counts .cacheReadInputTokens)
  | .latencyMs => .ofNat r.latencyMs
  | .pricingMode => .ofText (r.pricingMode.map fun m => Text.of m.value)
  | .ts => .ofText r.ts

/-- A record whose `ts` is absent, blank or a time. -/
def Storable (r : UsageRecord) : Prop :=
  ∀ raw ∈ r.ts, raw.strip ≠ [] → (DateTime.fromIsoFormat raw).isSome

/-- The instant of a record that is stored at this reading of the server's clock. -/
def stamp (now : ℤ) (r : UsageRecord) : ℤ :=
  match r.ts with
  | none => now
  | some raw =>
    if raw.strip = [] then now else ((DateTime.fromIsoFormat raw).map DateTime.instant).getD now

/-- The row of a record. -/
def storedRow (now : ℤ) (r : UsageRecord) : Row :=
  Function.update (fieldValue r) .ts (.timestamptz (stamp now r))

/-- A row carries every field but `ts` as the record has it. -/
theorem storedRow_of_ne (now : ℤ) (r : UsageRecord) {c : Column} (hc : c ≠ .ts) :
    storedRow now r c = fieldValue r c :=
  Function.update_of_ne hc _ _

theorem storedRow_ts (now : ℤ) (r : UsageRecord) :
    storedRow now r .ts = .timestamptz (stamp now r) :=
  Function.update_self _ _ _

/-- Each parameter goes to the column of its field. -/
theorem lookup_parameters (r : UsageRecord) (ts : SqlValue) (c : Column) :
    (columns.zip (parameters r ts)).lookup c = some (Function.update (fieldValue r) .ts ts c) := by
  by_cases hc : c = .ts
  · subst hc
    rw [Function.update_self]
    rfl
  · rw [Function.update_of_ne hc]
    cases c <;> first | rfl | exact absurd rfl hc

/-- The server's clock stands in for a time that is not there. -/
theorem stamp_eq {r : UsageRecord} {ts : Option DateTime} (h : timestampFor r = some ts) (now : ℤ) :
    stamp now r = (ts.map DateTime.instant).getD now := by
  unfold timestampFor at h
  unfold stamp
  cases hraw : r.ts with
  | none =>
    rw [hraw] at h
    obtain rfl := Option.some.inj h
    rfl
  | some raw =>
    rw [hraw] at h
    dsimp only at h ⊢
    by_cases hblank : raw.strip = []
    · rw [if_pos hblank] at h ⊢
      obtain rfl := Option.some.inj h
      rfl
    · rw [if_neg hblank] at h ⊢
      obtain ⟨t, ht, rfl⟩ := Option.map_eq_some_iff.1 h
      rw [ht]

/-- **A record that is mapped is stored field by field.** -/
theorem insert_rowFor {r : UsageRecord} {params : List SqlValue} (h : rowFor r = some params)
    (now : ℤ) : insert now params = storedRow now r := by
  obtain ⟨ts, hts, rfl⟩ := Option.map_eq_some_iff.1 h
  funext c
  unfold insert
  rw [lookup_parameters, Option.getD_some]
  by_cases hc : c = .ts
  · subst hc
    rw [storedRow_ts, stamp_eq hts, Function.update_self]
    cases ts <;> simp [SqlValue.ofTime]
  · rw [storedRow_of_ne now r hc, Function.update_of_ne hc]
    exact if_neg fun hand => hc hand.1

/-- What can be mapped. -/
theorem rowFor_isSome_iff (r : UsageRecord) : (rowFor r).isSome ↔ Storable r := by
  unfold rowFor
  rw [Option.isSome_map]
  unfold timestampFor Storable
  cases hts : r.ts with
  | none => simp
  | some raw =>
    by_cases hblank : raw.strip = []
    · simp [hblank]
    · simp [hblank]

/-- **A batch is mapped whole**: every record of it, to its own row. -/
theorem rowsFor_eq_some {rs : List UsageRecord} {rows : List (List SqlValue)}
    (h : rowsFor rs = some rows) (now : ℤ) :
    (∀ r ∈ rs, Storable r) ∧ rows.map (insert now) = rs.map (storedRow now) := by
  unfold rowsFor at h
  induction rs generalizing rows with
  | nil =>
    cases h
    exact ⟨fun r hr => (by cases hr), rfl⟩
  | cons r rs ih =>
    rw [List.mapM_cons] at h
    obtain ⟨params, hr, h⟩ := Option.bind_eq_some_iff.1 h
    obtain ⟨rest, hrest, h⟩ := Option.bind_eq_some_iff.1 h
    obtain rfl := Option.some.inj h
    obtain ⟨hall, hrows⟩ := ih hrest
    refine ⟨fun x hx => ?_, ?_⟩
    · rcases List.mem_cons.1 hx with rfl | hx
      · exact (rowFor_isSome_iff x).1 (by rw [hr]; rfl)
      · exact hall x hx
    · rw [List.map_cons, List.map_cons, insert_rowFor hr, hrows]

/-- Nothing is mapped to no rows but an empty batch. -/
theorem eq_nil_of_rowsFor {rs : List UsageRecord} (h : rowsFor rs = some []) : rs = [] := by
  have := (rowsFor_eq_some h 0).2
  rwa [List.map_nil, eq_comm, List.map_eq_nil_iff] at this

end Tokenweir.Store
