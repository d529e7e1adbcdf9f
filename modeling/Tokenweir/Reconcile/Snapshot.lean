import Tokenweir.Lib.Catalog
import Tokenweir.Lib.Regex

/-!
# Snapshots

What reconciliation reads of a catalog, and the schema that the shipped migrations produce.

* `indexShape`, `indexName`;
* `Relation`, `describe`, `snapshot`;
* `shippedUsage`, `shippedRates`, `shippedDaily`, `reference`.
-/

namespace Tokenweir.Reconcile

open Sql (Kind Column Constraint Database)

/-! ### Definitions of indexes -/

/-- Any text. -/
def anything (greedy : Bool) : Regex := .many greedy (.one fun _ => true)

/-- `_INDEX_SHAPE_RE`; the group 0 is `unique`, the group 1 is `body`. -/
def indexShapePattern : Regex :=
  .all [.word "create", .spaces, .opt (.group 0 (.all [.word "unique", .spaces])),
    .word "index", .spaces, anything false, .spaces, .word "on", .spaces,
    .plus (.one fun c => !Text.isSpace c), .spaces,
    .group 1 (.all [.word "using", .spaces, anything true]), .finish]

/-- `_index_shape`: an index without its name and its table. -/
def indexShape (indexdef : Text) : Text :=
  match indexShapePattern.matchAt indexdef.squash with
  | none => indexdef.squash
  | some m => (if (m.group 0).isSome then Text.of "UNIQUE " else []) ++ (m.group 1).getD []

def isQuote (c : CodePoint) : Bool := c.val == 34

/-- `_INDEX_NAME_RE`; the group 0 is `name`. -/
def indexNamePattern : Regex :=
  .all [.word "create", .spaces, .opt (.all [.word "unique", .spaces]), .word "index", .spaces,
    .opt (.all [.word "concurrently", .spaces]),
    .opt (.all [.word "if", .spaces, .word "not", .spaces, .word "exists", .spaces]),
    .group 0 (.alt (.all [.one isQuote, .plus (.one fun c => !isQuote c), .one isQuote])
      (.plus (.one fun c => !Text.isSpace c && !isQuote c)))]

/-- `_index_name`: the name without quotes, nothing if the definition does not parse. -/
def indexName (indexdef : Text) : Text :=
  match indexNamePattern.matchAt indexdef.squash with
  | none => []
  | some m => (((m.group 0).getD []).dropWhile isQuote).rdropWhile isQuote

/-! ### Snapshots -/

/-- An index: its shape, its definition, and what this defines. -/
structure IndexEntry where
  shape : Text
  definition : Text
  index : Sql.Index
  deriving DecidableEq

structure Relation where
  name : Text
  kind : Kind
  columns : List Column
  primaryKey : List Text
  indexes : List IndexEntry
  constraints : List Constraint
  deriving DecidableEq

namespace Relation

def column (r : Relation) (name : Text) : Option Column := r.columns.find? fun c => c.name = name

def columnNames (r : Relation) : List Text := r.columns.map Column.name

end Relation

/-- `sorted`, by a key. -/
def sorted {α : Type} (key : α → Text) (xs : List α) : List α :=
  xs.insertionSort fun x y => (key x).le (key y)

@[simp] theorem mem_sorted {α : Type} {key : α → Text} {xs : List α} {x : α} :
    x ∈ sorted key xs ↔ x ∈ xs :=
  List.mem_insertionSort _

/-- An index as the catalog renders it. -/
def indexEntry (table : Text) (kind : Kind) (index : Sql.Index) : IndexEntry :=
  let definition := index.definition table kind
  ⟨indexShape definition, definition, index⟩

/-- What `_snapshot` reads of one relation. Entries of one shape come in the order of their
definitions. -/
def describe (name : Text) (r : Sql.Relation) : Relation where
  name := name
  kind := r.kind
  columns := r.columns
  primaryKey := r.key.elim [] Sql.Key.columns
  indexes := sorted IndexEntry.shape
    (sorted IndexEntry.definition (r.indexes.map (indexEntry name r.kind)))
  constraints := sorted Constraint.name
    (r.constraints.map fun c => { c with definition := c.definition.squash })

/-- A name that only an index has. -/
def indexRelation (columns : Sql.Columns) : Sql.Relation where
  kind := .other 'i'
  columns := columns.1
  key := none
  constraints := []
  otherConstraints := []
  indexes := []
  otherIndexes := []
  dependents := []
  grantees := []
  rows := []
  columns_nodup := columns.2
  key_isTable := fun h => absurd rfl h
  rows_notNull := by simp

/-- `to_regclass`. -/
def relationOid (db : Database) (name : Text) : Option Sql.Relation :=
  match db.find name with
  | some r => some r
  | none => if name ∈ db.names then some (indexRelation (db.attributes name)) else none

/-- `_snapshot`. -/
def snapshot (db : Database) (names : List Text) : List Relation :=
  names.filterMap fun name => (relationOid db name).map (describe name)

/-- `Snapshot.get`. -/
def get (relations : List Relation) (name : Text) : Option Relation :=
  relations.find? fun r => r.name = name

theorem get_snapshot {db : Database} {names : List Text} {name : Text} (h : name ∈ names) :
    get (snapshot db names) name = (relationOid db name).map (describe name) := by
  induction names with
  | nil => cases h
  | cons n names ih =>
    rw [snapshot, List.filterMap_cons]
    by_cases hn : n = name
    · subst hn
      cases hr : relationOid db n with
      | some r => simp [get, describe]
      | none =>
        -- no other name is described under this one
        simp only [Option.map_none]
        rw [get, List.find?_eq_none]
        intro r hr'
        obtain ⟨m, -, hm⟩ := List.mem_filterMap.1 hr'
        obtain ⟨s, hs, rfl⟩ := Option.map_eq_some_iff.1 hm
        intro hmn
        rw [show m = n from of_decide_eq_true hmn, hr] at hs
        cases hs
    · have hmem : name ∈ names := (List.mem_cons.1 h).resolve_left fun h => hn h.symm
      cases hr : relationOid db n with
      | none => exact ih hmem
      | some r =>
        have hne : (describe n r).name ≠ name := hn
        simp only [Option.map_some]
        rw [get, List.find?_cons_of_neg (by simpa using hne)]
        exact ih hmem

/-! ### The shipped schema -/

def usageTable : Text := Text.of "gateway_usage"

def ratesTable : Text := Text.of "model_pricing_rates"

def dailyView : Text := Text.of "gateway_usage_daily"

def idColumn : Text := Text.of "id"

def schemaVersion : Text := Text.of "schema_version"

def modelColumn : Text := Text.of "model"

def effectiveFrom : Text := Text.of "effective_from"

/-- A column that is neither an identity nor generated. -/
def shippedColumn (name type : String) (notNull : Bool) (default : Option String) : Column :=
  ⟨Text.of name, Text.of type, notNull, default.map Text.of, .ordinary, .ordinary⟩

/-- A `btree` index on `gateway_usage`. -/
def shippedIndex (name on : String) (columns : List String) : Sql.Index :=
  ⟨Text.of name, Text.of name, false, Text.of "USING btree " ++ Text.of on, columns.map Text.of⟩

/-- `gateway_usage`, as the migrations 001, 002 and 006 leave it. -/
def shippedUsage : Sql.Relation where
  kind := .table
  columns :=
    [⟨idColumn, Text.of "bigint", true, none, .always, .ordinary⟩,
      shippedColumn "schema_version" "integer" true none,
      shippedColumn "request_id" "text" true none,
      shippedColumn "app_id" "text" true none,
      shippedColumn "endpoint" "text" true none,
      shippedColumn "model" "text" true none,
      shippedColumn "status" "text" true none,
      shippedColumn "workload" "text" false none,
      shippedColumn "queue" "text" false none,
      shippedColumn "input_tokens" "bigint" true (some "0"),
      shippedColumn "output_tokens" "bigint" true (some "0"),
      shippedColumn "cache_creation_input_tokens" "bigint" true (some "0"),
      shippedColumn "cache_read_input_tokens" "bigint" true (some "0"),
      shippedColumn "latency_ms" "bigint" false none,
      shippedColumn "pricing_mode" "text" false none,
      shippedColumn "ts" "timestamp with time zone" true (some "now()"),
      shippedColumn "parent_request_id" "text" false none]
  key := some ⟨Text.of "gateway_usage_pkey", [idColumn], []⟩
  constraints := []
  otherConstraints := []
  indexes :=
    [shippedIndex "gateway_usage_ts_idx" "(ts)" ["ts"],
      shippedIndex "gateway_usage_app_ts_idx" "(app_id, ts)" ["app_id", "ts"],
      shippedIndex "gateway_usage_parent_request_id_idx"
        "(parent_request_id) WHERE (parent_request_id IS NOT NULL)" ["parent_request_id"],
      shippedIndex "gateway_usage_app_day_idx"
        "(app_id, (((ts AT TIME ZONE '00:00:00'::interval))::date))" ["app_id", "ts"]]
  otherIndexes := []
  dependents := []
  grantees := []
  rows := []
  columns_nodup := by decide +kernel
  key_isTable := fun _ => rfl
  rows_notNull := by simp

/-- What `model_pricing_rates_costs_non_negative` says. -/
def costsNonNegative : Sql.Predicate :=
  .and (.nonneg (Text.of "input_cost_usd_per_mtok"))
    (.and (.nonneg (Text.of "output_cost_usd_per_mtok"))
      (.and
        (.or (.isNull (Text.of "cache_write_cost_usd_per_mtok"))
          (.nonneg (Text.of "cache_write_cost_usd_per_mtok")))
        (.or (.isNull (Text.of "cache_read_cost_usd_per_mtok"))
          (.nonneg (Text.of "cache_read_cost_usd_per_mtok")))))

/-- `model_pricing_rates_costs_non_negative`. -/
def shippedCheck : Constraint where
  name := Text.of "model_pricing_rates_costs_non_negative"
  definition := Text.of "CHECK (((input_cost_usd_per_mtok >= (0)::numeric) AND " ++
    Text.of "(output_cost_usd_per_mtok >= (0)::numeric) AND " ++
    Text.of "((cache_write_cost_usd_per_mtok IS NULL) OR " ++
    Text.of "(cache_write_cost_usd_per_mtok >= (0)::numeric)) AND " ++
    Text.of "((cache_read_cost_usd_per_mtok IS NULL) OR " ++
    Text.of "(cache_read_cost_usd_per_mtok >= (0)::numeric))))"
  columns :=
    [Text.of "input_cost_usd_per_mtok", Text.of "output_cost_usd_per_mtok",
      Text.of "cache_write_cost_usd_per_mtok", Text.of "cache_read_cost_usd_per_mtok"]
  check := some costsNonNegative

/-- `model_pricing_rates`, as the migration 003 leaves it. -/
def shippedRates : Sql.Relation where
  kind := .table
  columns :=
    [shippedColumn "model" "text" true none,
      shippedColumn "effective_from" "date" true none,
      shippedColumn "input_cost_usd_per_mtok" "numeric(18,10)" true none,
      shippedColumn "output_cost_usd_per_mtok" "numeric(18,10)" true none,
      shippedColumn "cache_write_cost_usd_per_mtok" "numeric(18,10)" false none,
      shippedColumn "cache_read_cost_usd_per_mtok" "numeric(18,10)" false none,
      shippedColumn "source" "text" false none,
      shippedColumn "loaded_at" "timestamp with time zone" true (some "now()")]
  key := some ⟨Text.of "model_pricing_rates_pkey", [modelColumn, effectiveFrom], []⟩
  constraints := [shippedCheck]
  otherConstraints := []
  indexes := []
  otherIndexes := []
  dependents := []
  grantees := []
  rows := []
  columns_nodup := by decide +kernel
  key_isTable := fun _ => rfl
  rows_notNull := by simp

/-- The view that the migration 005 creates. -/
def shippedDaily : Sql.View where
  name := dailyView
  columns :=
    [shippedColumn "app_id" "text" false none,
      shippedColumn "usage_day" "date" false none,
      shippedColumn "model" "text" false none,
      shippedColumn "pricing_mode" "text" false none,
      shippedColumn "calls" "bigint" false none,
      shippedColumn "input_tokens" "bigint" false none,
      shippedColumn "output_tokens" "bigint" false none,
      shippedColumn "cache_creation_input_tokens" "bigint" false none,
      shippedColumn "cache_read_input_tokens" "bigint" false none,
      shippedColumn "is_priced" "boolean" false none,
      shippedColumn "est_cost_usd" "numeric" false none]
  sources :=
    [(usageTable, ["app_id", "ts", "model", "pricing_mode", "input_tokens", "output_tokens",
        "cache_creation_input_tokens", "cache_read_input_tokens"].map Text.of),
      (ratesTable, ["model", "effective_from", "input_cost_usd_per_mtok",
        "output_cost_usd_per_mtok", "cache_write_cost_usd_per_mtok",
        "cache_read_cost_usd_per_mtok"].map Text.of)]
  columns_nodup := by decide +kernel

/-- `_view_migration_sql`, of the one view that the migrations create. -/
def viewMigrationSql : Sql.Statement := .createView shippedDaily

/-- `reference_snapshot`. -/
def reference : List Relation :=
  [describe usageTable shippedUsage, describe ratesTable shippedRates,
    describe dailyView shippedDaily.relation]

/-- `_ordered`: tables first, then views, each by name. -/
def ordered (relations : List Relation) : List Relation :=
  sorted Relation.name (relations.filter (·.kind = .table)) ++
    sorted Relation.name (relations.filter (·.kind ≠ .table))

theorem ordered_reference : ordered reference =
    [describe usageTable shippedUsage, describe ratesTable shippedRates,
      describe dailyView shippedDaily.relation] := by
  decide +kernel

end Tokenweir.Reconcile
