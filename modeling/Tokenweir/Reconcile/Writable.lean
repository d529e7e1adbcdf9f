import Tokenweir.Lib.Insert
import Tokenweir.Reconcile.Fixpoint
import Tokenweir.Store.Row

/-!
# What an empty plan says of the writer

The rows that the writer inserts into a usage table of which nothing is reported.

* `columnName`, `insertValues`, the columns that `INSERT_SQL` names and their values;
* `usage_of_nil`, the usage table when nothing of it is reported;
* `writable`.
-/

namespace Tokenweir.Reconcile

open Sql (Kind Column Constraint Database Statement Day Value Server Expression ColumnError)

variable {db : Database} {table : Text} {L : Sql.Relation} {baseline : Option Day}
  {reference live : Relation} {report : Report}

/-! ### The statement of the writer -/

/-- The names in `COLUMNS`. -/
def columnName : Store.Column → Text
  | .schemaVersion => Text.of "schema_version"
  | .requestId => Text.of "request_id"
  | .appId => Text.of "app_id"
  | .endpoint => Text.of "endpoint"
  | .model => Text.of "model"
  | .status => Text.of "status"
  | .workload => Text.of "workload"
  | .queue => Text.of "queue"
  | .parentRequestId => Text.of "parent_request_id"
  | .inputTokens => Text.of "input_tokens"
  | .outputTokens => Text.of "output_tokens"
  | .cacheCreationInputTokens => Text.of "cache_creation_input_tokens"
  | .cacheReadInputTokens => Text.of "cache_read_input_tokens"
  | .latencyMs => Text.of "latency_ms"
  | .pricingMode => Text.of "pricing_mode"
  | .ts => Text.of "ts"

/-- A parameter as a value of the database. -/
def sqlValue : Store.SqlValue → Value
  | .null => .null
  | .int n => .num n
  | .text s => .text s
  | .timestamptz t => .instant t

/-- What `INSERT_SQL` gives, with these parameters and at this reading of the server's clock. -/
def insertValues (now : ℤ) (params : List Store.SqlValue) : List (Text × Value) :=
  Store.columns.map fun c => (columnName c, sqlValue (Store.insert now params c))

theorem mem_columns (c : Store.Column) : c ∈ Store.columns := by cases c <;> decide

/-- Each column of the writer is a shipped one that is compared and takes values. -/
theorem exists_shipped (c : Store.Column) : ∃ column ∈ comparedColumns usageTable usageReference [],
    column.name = columnName c ∧ column.identity = .ordinary ∧ column.generated = .ordinary ∧
      (column.notNull = true → c ∉ [.workload, .queue, .parentRequestId, .latencyMs,
        .pricingMode]) := by
  have hall : ∀ c ∈ Store.columns, ∃ column ∈ comparedColumns usageTable usageReference [],
      column.name = columnName c ∧ column.identity = .ordinary ∧ column.generated = .ordinary ∧
        (column.notNull = true → c ∉ [.workload, .queue, .parentRequestId, .latencyMs,
          .pricingMode]) := by
    decide +kernel
  exact hall c (mem_columns c)

/-- The shipped columns are those of the writer, and `id`. -/
theorem names_reference : ∀ n ∈ usageReference.columnNames,
    n ∈ Store.columns.map columnName ∨ isExempt usageTable n = true := by
  decide +kernel

/-- What is not optional in a record is no null in its row. -/
theorem storedRow_ne_null (now : ℤ) (r : UsageRecord) {c : Store.Column}
    (hc : c ∉ [.workload, .queue, .parentRequestId, .latencyMs, .pricingMode]) :
    Store.storedRow now r c ≠ .null := by
  by_cases hts : c = .ts
  · rw [hts, Store.storedRow_ts]
    simp
  · rw [Store.storedRow_of_ne now r hts]
    cases c <;> simp [Store.fieldValue] at hc hts ⊢

theorem sqlValue_eq_null {v : Store.SqlValue} : sqlValue v = .null ↔ v = .null := by
  cases v <;> simp [sqlValue]

/-! ### Tables of which nothing is reported -/

/-- Of a column, nothing is reported exactly if it is the shipped one. -/
theorem compareColumn_eq_nil_iff {c : Column} :
    compareColumn db table live c = [] ↔ live.column c.name = some c := by
  refine ⟨fun h => ?_, compareColumn_eq_nil⟩
  have hauto : Automatic (compareColumn db table live c) := by
    rw [h]
    exact fun d hd => absurd hd List.not_mem_nil
  rcases compareColumn_automatic hauto with ⟨hnone, -⟩ |
    ⟨found, hfound, hgenerated, hidentity, htype, heq⟩
  · unfold compareColumn at h
    dsimp only at h
    rw [hnone] at h
    cases h
  · rw [heq, List.append_eq_nil_iff] at h
    obtain ⟨hnullability, hdefault⟩ := h
    have hname : found.name = c.name := by simpa using List.find?_some hfound
    have hnull : found.notNull = c.notNull := by
      rcases compareNullability_automatic (automatic_append.1 (heq ▸ hauto)).1 with ⟨h, -⟩ |
        ⟨-, -, -, hss⟩
      · exact h
      · rw [hnullability] at hss
        cases hss
    have hdef : found.default = c.default := by
      rcases compareDefault_cases table c found with ⟨h, -⟩ | ⟨s, hss, -⟩
      · exact h
      · rw [hdefault] at hss
        cases hss
    rw [hfound]
    cases found
    cases c
    simp_all

/-- The usage table when nothing is reported: it has the shipped columns, and the others but
`id` are filled by the server. -/
theorem usage_of_nil (h : planTable db baseline usageTable shippedUsage = .ok report)
    (hnil : report.discrepancies = []) :
    ∃ L, db.find usageTable = some L ∧
      (∀ c ∈ comparedColumns usageTable usageReference [], L.column c.name = some c) ∧
      ∀ c ∈ L.columns, c.name ∉ usageReference.columnNames → isExempt usageTable c.name = false →
        isUnwritable c = false := by
  have hauto : Automatic report.discrepancies := by
    rw [hnil]
    exact fun d hd => absurd hd List.not_mem_nil
  obtain ⟨L, cards, checks, hoid, hparts, -⟩ := planTable_automatic h hauto
  have hplain : ¬ restructured usageTable (describe usageTable L) := fun hre =>
    absurd hre.1 (by decide +kernel)
  obtain ⟨hfind, -⟩ := find_of_primaryKey hoid (by decide +kernel) (hparts.key hplain)
  refine ⟨L, hfind, fun c hc => ?_, extras_writable h hauto hfind⟩
  have hcolumns : (compareColumns db usageTable usageReference (describe usageTable L)
      []).discrepancies = [] := by
    unfold planTable relationOid at h
    rw [hfind] at h
    obtain ⟨-, card, checks, -, -, rfl⟩ := compareTable_eq_ok.1 h
    have hname : (describe usageTable shippedUsage).name = usageTable := rfl
    simp only [hname, if_neg hplain, List.append_eq_nil_iff] at hnil
    exact hnil.1.1.1.2
  rw [compareColumns, List.append_eq_nil_iff, List.flatMap_eq_nil_iff] at hcolumns
  have hcolumn : (describe usageTable L).column c.name = some c :=
    compareColumn_eq_nil_iff.1 (hcolumns.1 c hc)
  exact hcolumn

theorem isFilled_of_writable {c : Column} (h : isUnwritable c = false) : c.isFilled = true := by
  unfold isUnwritable at h
  unfold Column.isFilled
  cases hnull : c.notNull <;> cases hdefault : c.default <;> cases hidentity : c.identity <;>
    simp [hnull, hdefault, hidentity] at h ⊢

/-- **Under an empty plan, the writer's insert breaks no rule of a column exactly if the server
fills `id`**, by a default, as an identity or by a generation rule. -/
theorem writable (db : Database) (baseline : Option Baseline) (p : Plan)
    (hp : plan db baseline = .ok p) (hempty : p.isEmpty = true) (r : UsageRecord)
    (params : List Store.SqlValue) (hrow : Store.rowFor r = some params) (now : ℤ)
    (hfits : ∀ c ∈ shippedUsage.columns, ∀ e ∈ insertValues now params, e.1 = c.name →
      e.2.fits c.type = true) :
    ∃ L, db.find usageTable = some L ∧ (L.columnErrors (insertValues now params) = [] ↔
      ∀ c, L.column idColumn = some c → c.isFilled = true) := by
  obtain ⟨day, -, hplan⟩ := bind_eq_ok.1 hp
  obtain ⟨u, s, hu, -, rfl⟩ := planWith_eq_ok.1 hplan
  have hnil := (List.append_eq_nil_iff.1 (List.isEmpty_iff.1 hempty)).1
  obtain ⟨L, hL, hcolumns, hextra⟩ := usage_of_nil hu hnil
  refine ⟨L, hL, ?_⟩
  have hnames : (insertValues now params).map Prod.fst = Store.columns.map columnName := by
    rw [insertValues, List.map_map]
    rfl
  have hgiven : ∀ e ∈ insertValues now params, L.valueError e.1 e.2 = none := by
    intro e he
    obtain ⟨c, -, rfl⟩ := List.mem_map.1 he
    obtain ⟨column, hcolumn, hname, hidentity, hgenerated, hoptional⟩ := exists_shipped c
    refine Sql.valueError_eq_none (hname ▸ hcolumns column hcolumn) hgenerated hidentity
      (hfits column (List.mem_of_mem_filter hcolumn) _ he hname.symm) fun hnull hv => ?_
    rw [sqlValue_eq_null, Store.insert_rowFor hrow now] at hv
    exact storedRow_ne_null now r (hoptional hnull) hv
  rw [Sql.columnErrors_eq_nil_iff, hnames]
  constructor
  · rintro ⟨-, hfilled⟩ c hc
    refine hfilled c (Sql.Relation.mem_columns_of_column hc) ?_
    rw [Sql.Relation.column_name hc]
    decide +kernel
  · refine fun hid => ⟨hgiven, fun c hc hnot => ?_⟩
    by_cases hexempt : isExempt usageTable c.name = true
    · -- the column that is never compared
      have hname : c.name = idColumn := by simpa [isExempt] using hexempt
      exact hid c (hname ▸ Sql.Relation.mem_columns.1 hc)
    · have hown : c.name ∉ usageReference.columnNames := fun hmem =>
        (names_reference _ hmem).elim hnot hexempt
      exact isFilled_of_writable (hextra c hc hown (by simpa using hexempt))

/-! ### A shipped database, and one whose `id` nothing fills -/

/-- The shipped schema, with this usage table. -/
def shippedWith (usage : Sql.Relation) : Database where
  relations := List.toAList
    [⟨usageTable, usage⟩, ⟨ratesTable, shippedRates⟩, ⟨dailyView, shippedDaily.relation⟩]
  attributes := fun _ => ⟨[], List.nodup_nil⟩
  traits := fun _ => ⟨true, true, true, true⟩

/-- A record of a call. -/
def call : UsageRecord where
  requestId := Text.of "r-1"
  appId := Text.of "gateway"
  endpoint := Text.of "/v1/messages"
  model := Text.of "claude"
  status := Text.of "success"
  requestId_nonBlank := by decide
  appId_nonBlank := by decide
  endpoint_nonBlank := by decide
  model_nonBlank := by decide
  status_nonBlank := by decide
  schemaVersion_pos := Nat.zero_lt_one

/-- Into the shipped table, the record of a call is inserted. -/
theorem writable_shipped : ∃ p params L, plan (shippedWith shippedUsage) none = .ok p ∧
    p.isEmpty = true ∧ Store.rowFor call = some params ∧
    (shippedWith shippedUsage).find usageTable = some L ∧
    L.columnErrors (insertValues 0 params) = [] := by
  have hrun : ((plan (shippedWith shippedUsage) none).toOption.map Plan.isEmpty) = some true := by
    decide +kernel
  obtain ⟨p, hp, hempty⟩ := Option.map_eq_some_iff.1 hrun
  have hrow : Store.rowFor call = some (Store.parameters call .null) := by decide +kernel
  obtain ⟨L, hL, hiff⟩ := writable (shippedWith shippedUsage) none p (eq_ok_of_toOption hp) hempty
    call _ hrow 0 (by decide +kernel)
  obtain rfl : shippedUsage = L := Option.some_injective _ hL
  exact ⟨p, _, shippedUsage, eq_ok_of_toOption hp, hempty, hrow, hL, hiff.2 (by
    intro c hc
    obtain rfl := Option.some_injective _ hc
    rfl)⟩

/-- A usage table whose `id` is a plain `bigint`. -/
def unfilledUsage : Sql.Relation :=
  { shippedUsage with
    columns := shippedUsage.columns.map fun c =>
      if c.name = idColumn then { c with identity := .ordinary } else c
    columns_nodup := by decide +kernel
    rows_notNull := by simp [shippedUsage] }

/-- Of this table nothing is reported, and no record can be inserted. -/
theorem not_writable_unfilled : ∃ p params L, plan (shippedWith unfilledUsage) none = .ok p ∧
    p.isEmpty = true ∧ Store.rowFor call = some params ∧
    (shippedWith unfilledUsage).find usageTable = some L ∧
    L.columnErrors (insertValues 0 params) = [.null idColumn] := by
  have hrun : ((plan (shippedWith unfilledUsage) none).toOption.map Plan.isEmpty) = some true := by
    decide +kernel
  obtain ⟨p, hp, hempty⟩ := Option.map_eq_some_iff.1 hrun
  exact ⟨p, Store.parameters call .null, unfilledUsage, eq_ok_of_toOption hp, hempty,
    by decide +kernel, rfl, by decide +kernel⟩

end Tokenweir.Reconcile
