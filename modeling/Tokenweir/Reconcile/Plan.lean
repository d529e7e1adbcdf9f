import Tokenweir.Reconcile.Snapshot

/-!
# The planner

How a live schema differs from the shipped one, and the statements that put it right. The
remedies of discrepancies, which are only shown to an operator, are left out.

* `normaliseBaseline`, `addColumnStatements`;
* `rateCardDiscrepancy`, `compareColumns`, `compareKey`, `compareIndexes`,
  `compareConstraints`, `compareView`;
* `planRelation`, `plan`.
-/

namespace Tokenweir.Reconcile

open Sql (Kind Column Constraint Database Statement Day Value)

/-! ### Plans -/

inductive Resolution
  | automatic
  | manual
  deriving DecidableEq

structure Discrepancy where
  relation : Text
  description : Text
  resolution : Resolution
  statements : List Statement
  deriving DecidableEq

structure Observation where
  relation : Text
  description : Text
  deriving DecidableEq

/-- What one comparison finds. -/
structure Report where
  discrepancies : List Discrepancy
  observations : List Observation

/-- `ReconciliationPlan`. -/
structure Plan where
  discrepancies : List Discrepancy
  observations : List Observation
  baseline : Option Day

namespace Plan

def isEmpty (p : Plan) : Bool := p.discrepancies.isEmpty

def manual (p : Plan) : List Discrepancy := p.discrepancies.filter (·.resolution = .manual)

def automatic (p : Plan) : List Discrepancy := p.discrepancies.filter (·.resolution ≠ .manual)

/-- Every statement, in execution order. -/
def statements (p : Plan) : List Statement := p.discrepancies.flatMap Discrepancy.statements

end Plan

/-- The exceptions that planning can raise. -/
inductive Failure
  /-- The baseline is no date. -/
  | valueError
  /-- A list that is to be joined holds something other than a string. -/
  | typeError
  /-- A probe asks of a column what its type has no operator for. -/
  | undefinedFunction
  /-- A probe asks for the rows of an index or of a composite type. -/
  | wrongObjectType
  deriving DecidableEq

/-- `', '.join`. -/
def listed (names : List Text) : Text := Text.join (Text.of ", ") names

/-- `_one_line`. -/
def oneLine (statement : Text) (limit : ℕ) : Text :=
  let lines := (statement.splitOnP Text.isLineBreak).filter fun line =>
    !(Text.of "--").isPrefixOf (Text.strip line)
  let squashed := (Text.join (Text.of " ") lines).squash
  if squashed.length ≤ limit then squashed else squashed.take (limit - 1) ++ Text.of "…"

/-! ### The baseline -/

/-- The argument `baseline_effective_from`. -/
inductive Baseline
  | text (s : Text)
  | date (d : Date)

/-- `_normalise_baseline`. -/
def normaliseBaseline : Option Baseline → Except Failure (Option Day)
  | none => .ok none
  | some (.date d) => .ok (some (.date d))
  | some (.text value) =>
    let text := value.strip
    if text.lower = Text.of "-infinity" then .ok (some .minusInfinity)
    else if text.lower = Text.of "infinity" then .error .valueError
    else
      match DateTime.isoDate text with
      | some d => .ok (some (.date d))
      | none => .error .valueError

/-! ### Columns to add -/

def isCastLetter (c : CodePoint) : Bool :=
  Text.isDigit c || (List.range 26).any (fun i => Regex.sameLetter (Fin.ofNat _ (97 + i)) c) ||
    (Text.of "_ []").contains c || isQuote c

/-- `_CONSTANT_DEFAULT_RE`: a number, a string with or without a cast, `NULL`, a boolean. -/
def constantDefaultPattern : Regex :=
  let apostrophe : Regex := .one (·.val == 39)
  let digits : Regex := .plus (.one Text.isDigit)
  .seq
    (.alt (.all [.opt (.char '-'), digits, .opt (.all [.char '.', digits])])
      (.alt (.all [apostrophe, .many true (.alt (.one (·.val != 39)) (.seq apostrophe apostrophe)),
          apostrophe, .opt (.all [.char ':', .char ':', .plus (.one isCastLetter)])])
        (.alt (.word "null") (.alt (.word "true") (.word "false")))))
    .finish

/-- A default that is willingly given to rows that are already there. -/
def isConstantDefault (default : Text) : Bool :=
  (constantDefaultPattern.matchAt default.strip).isSome

/-- `EXEMPT_COLUMNS`. -/
def isExempt (relation column : Text) : Bool := relation == usageTable && column == idColumn

/-- `BACKFILL_VALUES`. -/
def backfillValue (relation column : Text) : Option Text :=
  if relation = usageTable ∧ column = schemaVersion then some (Text.of "1") else none

/-- `_add_column_statements`: the statements, or why there are none. -/
def addColumnStatements (relation : Text) (column : Column) : Except Text (List Statement) :=
  match column.default with
  | some default =>
    if isConstantDefault default then
      .ok [.addColumn relation column.name column.type column.notNull (some (.sql default))]
    else
      .error (Text.of "its default (" ++ oneLine default 60 ++
        Text.of ") is not a constant, so back-filling the rows already there would stamp them " ++
        Text.of "all with whatever it evaluates to at the moment of reconciliation — a value " ++
        Text.of "about this run, recorded as though it were about the row")
  | none =>
    if column.notNull = false then
      .ok [.addColumn relation column.name column.type false none]
    else
      match backfillValue relation column.name with
      | none => .error (Text.of "it is NOT NULL with no default")
      | some value =>
        -- the default fills the rows that are there, and then goes
        .ok [.addColumn relation column.name column.type true (some (.sql value)),
          .dropDefault relation column.name]

/-! ### Probes -/

/-- `_column_has_nulls`. -/
def columnHasNulls (db : Database) (relation column : Text) : Bool :=
  (db.find relation).any fun r => r.rows.any fun row => row column = .null

/-- A value that a driver hands over as a string; a null, a number or a date is none. -/
def string (traits : Sql.Traits) : Value → Except Failure Text
  | .text s | .other s => if traits.strings then .ok s else .error .typeError
  | _ => .error .typeError

/-- The models that a probe has found, as strings. -/
def modelNames (db : Database) (live : Relation) (models : List Value) :
    Except Failure (List Text) :=
  models.mapM (string (db.traits ((live.column modelColumn).elim [] Column.type)))

/-- How many rows have this value of `model`. -/
def countOf (r : Sql.Relation) (model : Value) : ℕ := (r.rows.map (· modelColumn)).count model

/-- `_rate_card_duplicates`: the models of two rows or more. -/
def rateCardDuplicates (db : Database) (relation : Text) (live : Relation) :
    Except Failure (List Value) :=
  match live.column modelColumn with
  | none => .error .undefinedFunction
  | some column =>
    if (db.traits column.type).groups then
      .ok ((db.find relation).elim [] fun r =>
        (r.rows.map (· modelColumn)).dedup.filter fun model => 1 < countOf r model)
    else .error .undefinedFunction

def pricingMode : Text := Text.of "pricing_mode"

/-- A `pricing_mode` that carries no dollar per call. -/
def isSubscription (v : Value) : Bool :=
  v == .text (Text.of "subscription") || v == .other (Text.of "subscription")

/-- `_rate_card_unpriceable_solo_rows`, of a table that has a `pricing_mode`. -/
def rateCardUnpriceableSoloRows (db : Database) (relation : Text) (live : Relation) :
    Except Failure (List Value) :=
  match live.column pricingMode with
  | none => .ok []
  | some mode =>
    if (db.traits mode.type).maximum then
      .ok ((db.find relation).elim [] fun r =>
        (r.rows.filter fun row =>
          countOf r (row modelColumn) = 1 ∧ isSubscription (row pricingMode)).map (· modelColumn))
    else .error .undefinedFunction

/-- `_primary_key_constraint_name`. -/
def primaryKeyConstraintName (db : Database) (relation : Text) : Option Text :=
  ((db.find relation).bind Sql.Relation.key).map Sql.Key.name

/-- `_view_dependents`: what rests on a view through a rewrite rule. -/
def viewDependents (db : Database) (view : Text) : List Text :=
  (db.find view).elim [] fun r => (r.dependents.filter (·.viaRewrite)).map (·.name)

/-- `_view_grantees`. -/
def viewGrantees (db : Database) (view : Text) : List Text :=
  (db.find view).elim [] Sql.Relation.grantees

/-- `_CHECK_BODY_RE`. -/
def checkBodyPattern : Regex :=
  .all [.word "check", .many true (.one Text.isSpace), .char '(', .group 0 (anything true),
    .char ')', .finish]

/-- `_check_constraint_violations`: whether rows fail a check, nothing if that is not known. -/
def checkConstraintViolations (db : Database) (relation : Text) (live : Relation)
    (constraint : Constraint) : Except Failure (Option Bool) :=
  match checkBodyPattern.matchAt constraint.definition.squash, constraint.check with
  | some _, some p =>
    if p.compared.all fun c => (live.column c).all fun column => (db.traits column.type).numeric then
      .ok (some ((db.find relation).any fun r => r.rows.any fun row => p.eval row = some false))
    else .error .undefinedFunction
  | _, _ => .ok none

/-! ### Comparisons -/

/-- A discrepancy that only a human can resolve. -/
def manual (relation description : Text) : Discrepancy := ⟨relation, description, .manual, []⟩

/-- A discrepancy that statements resolve. -/
def automatic (relation description : Text) (statements : List Statement) : Discrepancy :=
  ⟨relation, description, .automatic, statements⟩

/-- The columns of the new key that a rate card has without the restructure. -/
def keyColumns (reference : Relation) : List Text :=
  reference.primaryKey.filter (· ≠ effectiveFrom)

/-- The restructure of a rate card. -/
def restructure (db : Database) (relation : Text) (reference : Relation) (baseline : Day) :
    List Statement :=
  let columnType := (reference.column effectiveFrom).elim [] Column.type
  [.addColumn relation effectiveFrom columnType true (some (.date baseline)),
      .dropDefault relation effectiveFrom] ++
    ((primaryKeyConstraintName db relation).toList.map fun key => .dropKey relation key) ++
    [.addKey relation reference.primaryKey]

/-- `_rate_card_discrepancy`. -/
def rateCardDiscrepancy (db : Database) (relation : Text) (reference live : Relation)
    (baseline : Option Day) : Except Failure Discrepancy := do
  let absent := (keyColumns reference).filter fun c => (live.column c).isNone
  if absent ≠ [] then
    return manual relation
      (Text.of "rate card cannot be re-keyed: it has not got the column(s) the new key is " ++
        Text.of "over (" ++ listed absent ++ Text.of ")")
  let duplicates ← rateCardDuplicates db relation live
  if duplicates ≠ [] then
    let names ← modelNames db live duplicates
    return manual relation
      (Text.of "rate card is current-valued and cannot be re-keyed automatically: " ++
        Text.decimal names.length ++ Text.of " model(s) have more than one row (" ++
        listed (sorted id names) ++ Text.of ")")
  let unpriceable ← rateCardUnpriceableSoloRows db relation live
  if unpriceable ≠ [] then
    let names ← modelNames db live unpriceable
    return manual relation
      (Text.of "rate card is current-valued and cannot be re-keyed automatically: " ++
        Text.decimal names.length ++
        Text.of " model(s) have only a subscription rate, which would become their API rate (" ++
        listed (sorted id names) ++ Text.of ")")
  match baseline with
  | none =>
    return manual relation
      (Text.of "rate card is current-valued (no effective_from) and must be restructured to " ++
        Text.of "the effective-dated key (model, effective_from)")
  | some baseline =>
    let nullableKey := (keyColumns reference).filter (columnHasNulls db relation)
    if nullableKey ≠ [] then
      return manual relation
        (Text.of "rate card cannot be re-keyed: " ++ listed nullableKey ++
          Text.of " holds NULLs, and a primary key column cannot")
    return automatic relation
      (Text.of "rate card is current-valued; adding effective_from (back-filled to " ++
        baseline.text ++ Text.of ") and re-keying to (" ++ listed reference.primaryKey ++
        Text.of ")")
      (restructure db relation reference baseline)

/-- A column that the live table does not have. -/
def missingColumn (relation : Text) (column : Column) : Discrepancy :=
  let description := Text.of "column " ++ column.name ++ Text.of " (" ++ column.type ++
    Text.of ") is missing"
  match addColumnStatements relation column with
  | .error refusal => manual relation (description ++ Text.of ", and " ++ refusal)
  | .ok statements =>
    let note := (backfillValue relation column.name).elim [] fun value =>
      Text.of "; existing rows back-filled to " ++ value
    automatic relation (description ++ note) statements

/-- A column that both have, of which one is `NOT NULL`. -/
def compareNullability (db : Database) (relation : Text) (column found : Column) :
    List Discrepancy :=
  if column.notNull = true ∧ found.notNull = false then
    if columnHasNulls db relation column.name then
      [manual relation (Text.of "column " ++ column.name ++
        Text.of " is nullable and holds NULLs; tokenweir's is NOT NULL")]
    else
      [automatic relation (Text.of "column " ++ column.name ++
        Text.of " is nullable; tokenweir's is NOT NULL (no NULLs present)")
        [.setNotNull relation column.name]]
  else if found.notNull = true ∧ column.notNull = false then
    [manual relation (Text.of "column " ++ column.name ++
      Text.of " is NOT NULL; tokenweir's is nullable, and the writer sends NULL for it")]
  else []

/-- A column that both have, with its defaults. -/
def compareDefault (relation : Text) (column found : Column) : List Discrepancy :=
  if found.default = column.default then []
  else
    match column.default with
    | none =>
      [automatic relation (Text.of "column " ++ column.name ++ Text.of " has a default (" ++
        oneLine (found.default.getD []) 40 ++ Text.of "); tokenweir's has none")
        [.dropDefault relation column.name]]
    | some default =>
      [automatic relation (Text.of "column " ++ column.name ++ Text.of " defaults to " ++
        oneLine (found.default.getD (Text.of "nothing")) 40 ++
        Text.of "; tokenweir's defaults to " ++ oneLine default 40)
        [.setDefault relation column.name default]]

/-- One round of the first loop of `_compare_columns`. -/
def compareColumn (db : Database) (relation : Text) (live : Relation) (column : Column) :
    List Discrepancy :=
  let name := Text.of "column " ++ column.name
  match live.column column.name with
  | none => [missingColumn relation column]
  | some found =>
    if found.generated ≠ column.generated then
      [manual relation (name ++
        if found.generated ≠ .ordinary then
          Text.of " is a generated column; tokenweir's is an ordinary one"
        else Text.of " is ordinary; tokenweir's is generated")]
    else if found.identity ≠ column.identity then
      [manual relation (name ++
        if found.identity ≠ .ordinary then
          Text.of " is an identity column; tokenweir's is an ordinary one"
        else Text.of " is ordinary; tokenweir's is an identity column")]
    else if found.type ≠ column.type then
      [manual relation
        (name ++ Text.of " is " ++ found.type ++ Text.of ", tokenweir's is " ++ column.type)]
    else compareNullability db relation column found ++ compareDefault relation column found

/-- A live column that no `INSERT` which does not name it can leave out. -/
def isUnwritable (column : Column) : Bool :=
  column.notNull && column.default.isNone && column.identity == .ordinary

/-- One round of the second loop of `_compare_columns`: a column that is not the package's. -/
def extraColumn (relation : Text) (column : Column) : Report :=
  let description := Text.of "column " ++ column.name ++ Text.of " (" ++ column.type ++
    Text.of ") is not part of tokenweir's schema"
  if isUnwritable column then
    if relation = usageTable then
      ⟨[manual relation (description ++ Text.of " and is NOT NULL with no default")], []⟩
    else
      ⟨[], [⟨relation, description ++
        Text.of ", is NOT NULL with no default, and is kept. Nothing in tokenweir writes to " ++
        Text.of "this table, so it blocks nothing here — but any INSERT of your own must " ++
        Text.of "still supply it"⟩]⟩
  else
    ⟨[], [⟨relation, description ++
      Text.of "; it is kept and left alone, and tokenweir's writer will not populate it"⟩]⟩

/-- `_compare_columns`. -/
def compareColumns (db : Database) (relation : Text) (reference live : Relation)
    (skip : List Text) : Report :=
  let compared := reference.columns.filter fun c =>
    !(skip.contains c.name || isExempt relation c.name)
  let extra := live.columns.filter fun c =>
    !(reference.columnNames.contains c.name || isExempt relation c.name)
  ⟨compared.flatMap (compareColumn db relation live) ++
      extra.flatMap fun c => (extraColumn relation c).discrepancies,
    extra.flatMap fun c => (extraColumn relation c).observations⟩

/-- The comparison of the primary keys. -/
def compareKey (relation : Text) (reference live : Relation) : List Discrepancy :=
  if live.primaryKey ≠ reference.primaryKey then
    let key := listed live.primaryKey
    [manual relation (Text.of "primary key is (" ++ (if key = [] then Text.of "none" else key) ++
      Text.of "); tokenweir's is (" ++ listed reference.primaryKey ++ Text.of ")")]
  else []

/-- One round of the first loop of `_compare_indexes`. -/
def compareIndex (relation : Text) (live : Relation) (entry : IndexEntry) : List Discrepancy :=
  if entry.shape ∈ live.indexes.map IndexEntry.shape then []
  else
    let name := indexName entry.definition
    if name ≠ [] ∧ name ∈ live.indexes.map fun e => indexName e.definition then
      [manual relation (Text.of "index " ++ name ++
        Text.of " exists but covers something else; tokenweir's index of that name is " ++
        oneLine entry.shape 80)]
    else
      [automatic relation (Text.of "index missing: " ++ oneLine entry.shape 80)
        [.createIndex relation entry.index]]

/-- `_compare_indexes`. -/
def compareIndexes (relation : Text) (reference live : Relation) : Report :=
  let shapes := reference.indexes.map IndexEntry.shape
  ⟨reference.indexes.flatMap (compareIndex relation live),
    (live.indexes.filter (·.shape ∉ shapes)).map fun entry =>
      ⟨relation, Text.of "index is not part of tokenweir's schema and is left in place: " ++
        oneLine entry.definition 100⟩⟩

/-- One round of the first loop of `_compare_constraints`. -/
def compareConstraint (db : Database) (relation : Text) (live : Relation)
    (constraint : Constraint) : Except Failure (List Discrepancy) :=
  let subject := Text.of "constraint " ++ constraint.name
  let definition := oneLine constraint.definition 90
  if constraint.definition ∈ live.constraints.map Constraint.definition then .ok []
  else
    let absent := constraint.columns.filter (· ∉ live.columnNames)
    if absent ≠ [] then
      .ok [manual relation (subject ++ Text.of " is missing and cannot be checked yet: it is " ++
        Text.of "about column(s) this table has not got (" ++ listed absent ++ Text.of ")")]
    else if constraint.name ∈ live.constraints.map Constraint.name then
      .ok [manual relation (subject ++ Text.of " exists but says something else; tokenweir's is " ++
        definition)]
    else
      (checkConstraintViolations db relation live constraint).map fun
        | none => [manual relation (subject ++ Text.of " is missing: " ++ definition)]
        | some true => [manual relation (subject ++
            Text.of " is missing and existing rows violate it: " ++ definition)]
        | some false => [automatic relation (subject ++ Text.of " is missing: " ++ definition ++
            Text.of " (existing rows satisfy it)") [.addCheck relation constraint]]

/-- `_compare_constraints`. -/
def compareConstraints (db : Database) (relation : Text) (reference live : Relation) :
    Except Failure Report :=
  let definitions := reference.constraints.map Constraint.definition
  (reference.constraints.mapM (compareConstraint db relation live)).map fun found =>
    ⟨found.flatten, (live.constraints.filter (·.definition ∉ definitions)).map fun constraint =>
      ⟨relation, Text.of "constraint " ++ constraint.name ++
        Text.of " is not part of tokenweir's schema and is left in place: " ++
        oneLine constraint.definition 90⟩⟩

/-- `_compare_view`. -/
def compareView (db : Database) (relation : Text) (reference : Relation) :
    Option Relation → Report
  | none => ⟨[automatic relation (Text.of "rollup view is absent") [viewMigrationSql]], []⟩
  | some live =>
    if live.kind ≠ reference.kind then
      ⟨[manual relation (relation ++ Text.of " exists but is not a view (relkind '" ++
        [CodePoint.of live.kind.relkind] ++ Text.of "'); tokenweir's is a view")], []⟩
    else if live.columnNames = reference.columnNames then ⟨[], []⟩
    else
      let dependents := viewDependents db relation
      if dependents ≠ [] then
        ⟨[manual relation (Text.of "rollup view has tokenweir's columns wrong and " ++
          Text.decimal dependents.length ++ Text.of " object(s) depend on it (" ++
          listed dependents ++ Text.of ")")], []⟩
      else
        let grantees := viewGrantees db relation
        ⟨[automatic relation (Text.of "rollup view differs from tokenweir's: columns are (" ++
            listed live.columnNames ++ Text.of "), tokenweir's are (" ++
            listed reference.columnNames ++ Text.of ")")
            [.dropView relation, viewMigrationSql]],
          if grantees = [] then []
          else [⟨relation, Text.of "dropping and recreating the view discards its SELECT grants; " ++
            listed grantees ++ Text.of " will need re-granting afterwards (README, " ++
            Text.of "\"Granting a reader role later\"). --reader-role does not reach this: the " ++
            Text.of "grant lives in migration 005, which reconcile executes without a reader " ++
            Text.of "role set"⟩]⟩

/-! ### The plan -/

/-- A rate card without `effective_from` is restructured. -/
def restructured (name : Text) (live : Relation) : Prop :=
  name = ratesTable ∧ live.column effectiveFrom = none

instance (name : Text) (live : Relation) : Decidable (restructured name live) :=
  inferInstanceAs (Decidable (_ ∧ _))

/-- The discrepancy of a rate card that is restructured. -/
def compareRateCard (db : Database) (baseline : Option Day) (reference live : Relation) :
    Except Failure (List Discrepancy) :=
  if restructured reference.name live then
    (rateCardDiscrepancy db reference.name reference live baseline).map fun d => [d]
  else .ok []

/-- `_compare_columns` asks whether the live column of this name holds nulls. -/
def asksNulls (live : Relation) (column : Column) : Bool :=
  (live.column column.name).any fun found =>
    found.generated = column.generated && found.identity = column.identity &&
      found.type = column.type && column.notNull && !found.notNull

/-- `_compare_constraints` asks whether rows fail a check. -/
def asksViolations (live : Relation) (constraint : Constraint) : Bool :=
  !(live.constraints.map Constraint.definition).contains constraint.definition &&
    constraint.columns.all (live.columnNames.contains ·) &&
    !(live.constraints.map Constraint.name).contains constraint.name &&
    (checkBodyPattern.matchAt constraint.definition.squash).isSome

/-- Some probe asks for rows of a table. -/
def asksRows (reference live : Relation) : Bool :=
  (decide (restructured reference.name live) &&
      (keyColumns reference).all fun c => (live.column c).isSome) ||
    (reference.columns.any fun c => !isExempt reference.name c.name && asksNulls live c) ||
    reference.constraints.any (asksViolations live)

/-- The first probe of all fails where there are no rows to ask for. -/
def checkReadable (reference live : Relation) : Except Failure Unit :=
  if !live.kind.isReadable && asksRows reference live then .error .wrongObjectType else .ok ()

/-- The comparison of a table that is there. -/
def compareTable (db : Database) (baseline : Option Day) (reference live : Relation) :
    Except Failure Report := do
  let name := reference.name
  checkReadable reference live
  let rateCard ← compareRateCard db baseline reference live
  -- the restructure owns the column and the key
  let columns := compareColumns db name reference live
    (if restructured name live then [effectiveFrom] else [])
  let key := if restructured name live then [] else compareKey name reference live
  let indexes := compareIndexes name reference live
  let constraints ← compareConstraints db name reference live
  return ⟨rateCard ++ columns.discrepancies ++ key ++ indexes.discrepancies ++
      constraints.discrepancies,
    columns.observations ++ indexes.observations ++ constraints.observations⟩

/-- One round of the loop of `_plan`. -/
def planRelation (db : Database) (baseline : Option Day) (live : List Relation)
    (reference : Relation) : Except Failure Report :=
  let found := get live reference.name
  if reference.kind ≠ .table then .ok (compareView db reference.name reference found)
  else
    match found with
    | none =>
      .ok ⟨[manual reference.name (Text.of "table is absent from this database")], []⟩
    | some live => compareTable db baseline reference live

/-- `_plan`. -/
def planWith (db : Database) (baseline : Option Day) : Except Failure Plan :=
  let live := snapshot db ((ordered reference).map Relation.name)
  ((ordered reference).mapM (planRelation db baseline live)).map fun reports =>
    ⟨reports.flatMap Report.discrepancies, reports.flatMap Report.observations, baseline⟩

/-- `plan`. -/
def plan (db : Database) (baseline : Option Baseline) : Except Failure Plan :=
  (normaliseBaseline baseline).bind (planWith db)

end Tokenweir.Reconcile
