import Tokenweir.Lib.Frame
import Tokenweir.Reconcile.Cases

/-!
# Reconciliation loses no data

Whatever the catalog is, the statements of a plan keep every relation but the rollup view,
with all columns and all rows, at each moment of their execution; and what they put into the
rows that are there does not depend on when they are executed.

* `Shipped`, the values that may be put into rows;
* `Planned`, what a plan's statements are; `plan_planned`;
* `preservation`.
-/

namespace Tokenweir.Reconcile

open Sql (Kind Column Constraint Database Statement Day Value Server Expression)

/-! ### The values of new columns -/

/-- A value that a reconciliation may put into the rows of a relation under a new column: a
null, the constant default that the shipped schema declares, the schema version 1, or the
baseline. None of them depends on the moment. -/
inductive Shipped (baseline : Option Day) (relation column : Text) : Value → Prop
  | null : Shipped baseline relation column .null
  | constant {shipped : Relation} {c : Column} {default : Text} {v : Value} :
      shipped ∈ reference → shipped.name = relation → c ∈ shipped.columns → c.name = column →
      c.default = some default → (∀ now, (Expression.sql default).value now = some v) →
      Shipped baseline relation column v
  | schemaVersion : relation = usageTable → column = schemaVersion →
      Shipped baseline relation column (.num 1)
  | baseline {day : Day} : relation = ratesTable → column = effectiveFrom →
      baseline = some day → Shipped baseline relation column (.day day)

/-- A default that the filter lets through has one value, whatever the moment is. -/
theorem isConstantDefault_value {default : Text} (h : isConstantDefault default = true) {now : ℤ}
    {v : Value} (hv : (Expression.sql default).value now = some v) (later : ℤ) :
    (Expression.sql default).value later = some v := by
  rcases Expression.value_sql_cases hv with hdigits | rfl
  · rw [Expression.value_digits hdigits] at hv ⊢
    exact hv
  · -- `now()` is no constant
    exact absurd h (by decide +kernel)

/-! ### The statements of a plan -/

/-- What a statement of a plan is: one that adds a column of shipped values, one that removes
the rollup view, or one that does neither. -/
def Planned (baseline : Option Day) : Statement → Prop
  | .addColumn table name _ _ default => ∀ now v,
      default.elim (some .null) (Expression.value now) = some v → Shipped baseline table name v
  | .dropView view => view = dailyView
  | _ => True

/-- All statements of a discrepancy are those of a plan. -/
def Discrepancy.Planned (baseline : Option Day) (d : Discrepancy) : Prop :=
  ∀ s ∈ d.statements, Reconcile.Planned baseline s

variable {db : Database} {baseline : Option Day} {shipped live : Relation} {relation : Text}

theorem manual_planned (description : Text) :
    (manual relation description).Planned baseline := by
  intro s hs
  cases hs

theorem addColumnStatements_planned (hshipped : shipped ∈ reference) {column : Column}
    (hcolumn : column ∈ shipped.columns) {ss : List Statement}
    (h : addColumnStatements shipped.name column = .ok ss) : ∀ s ∈ ss, Planned baseline s := by
  rcases addColumnStatements_cases h with ⟨default, hdefault, hconstant, rfl⟩ |
    ⟨-, -, rfl⟩ | ⟨-, -, value, hvalue, rfl⟩
  · intro s hs
    obtain rfl := List.mem_singleton.1 hs
    intro now v hv
    exact .constant hshipped rfl hcolumn rfl hdefault (isConstantDefault_value hconstant hv)
  · intro s hs
    obtain rfl := List.mem_singleton.1 hs
    intro now v hv
    cases hv
    exact .null
  · intro s hs
    rcases List.mem_cons.1 hs with rfl | hs
    · -- the only value of this kind is the version 1
      intro now v hv
      rw [backfillValue] at hvalue
      split at hvalue
      · rename_i hname
        cases hvalue
        have hone : (Expression.sql (Text.of "1")).value now = some (.num (1 : ℕ)) :=
          Expression.value_digits (by decide +kernel) now
        obtain rfl : Value.num 1 = v := by simpa [hone] using hv
        exact .schemaVersion hname.1 hname.2
      · cases hvalue
    · obtain rfl := List.mem_singleton.1 hs
      trivial

theorem missingColumn_planned (hshipped : shipped ∈ reference) {column : Column}
    (hcolumn : column ∈ shipped.columns) :
    (missingColumn shipped.name column).Planned baseline := by
  unfold missingColumn
  split
  · exact manual_planned _
  · rename_i ss hss
    exact addColumnStatements_planned hshipped hcolumn hss

theorem compareColumn_planned (hshipped : shipped ∈ reference) {column : Column}
    (hcolumn : column ∈ shipped.columns) {d : Discrepancy}
    (hd : d ∈ compareColumn db shipped.name live column) : d.Planned baseline := by
  unfold compareColumn at hd
  dsimp only at hd
  split at hd
  · obtain rfl := List.mem_singleton.1 hd
    exact missingColumn_planned hshipped hcolumn
  rename_i found hfound
  by_cases hgenerated : found.generated ≠ column.generated
  · rw [if_pos hgenerated] at hd
    obtain rfl := List.mem_singleton.1 hd
    exact manual_planned _
  by_cases hidentity : found.identity ≠ column.identity
  · rw [if_neg hgenerated, if_pos hidentity] at hd
    obtain rfl := List.mem_singleton.1 hd
    exact manual_planned _
  by_cases htype : found.type ≠ column.type
  · rw [if_neg hgenerated, if_neg hidentity, if_pos htype] at hd
    obtain rfl := List.mem_singleton.1 hd
    exact manual_planned _
  rw [if_neg hgenerated, if_neg hidentity, if_neg htype] at hd
  rcases List.mem_append.1 hd with hd | hd
  · unfold compareNullability at hd
    split_ifs at hd
    · obtain rfl := List.mem_singleton.1 hd
      exact manual_planned _
    · obtain rfl := List.mem_singleton.1 hd
      intro s hs
      obtain rfl := List.mem_singleton.1 hs
      trivial
    · obtain rfl := List.mem_singleton.1 hd
      exact manual_planned _
    · cases hd
  · unfold compareDefault at hd
    split at hd
    · cases hd
    · split at hd <;> obtain rfl := List.mem_singleton.1 hd <;> intro s hs <;>
        obtain rfl := List.mem_singleton.1 hs <;> trivial

theorem compareColumns_planned (hshipped : shipped ∈ reference) {skip : List Text}
    {d : Discrepancy} (hd : d ∈ (compareColumns db shipped.name shipped live skip).discrepancies) :
    d.Planned baseline := by
  rcases List.mem_append.1 hd with hd | hd
  · obtain ⟨column, hcolumn, hd⟩ := List.mem_flatMap.1 hd
    exact compareColumn_planned hshipped (List.mem_of_mem_filter hcolumn) hd
  · obtain ⟨column, -, hd⟩ := List.mem_flatMap.1 hd
    unfold extraColumn at hd
    split_ifs at hd
    · obtain rfl := List.mem_singleton.1 hd
      exact manual_planned _
    · cases hd
    · cases hd

theorem compareIndexes_planned {d : Discrepancy}
    (hd : d ∈ (compareIndexes relation shipped live).discrepancies) : d.Planned baseline := by
  obtain ⟨entry, -, hd⟩ := List.mem_flatMap.1 hd
  unfold compareIndex at hd
  dsimp only at hd
  split_ifs at hd
  · cases hd
  · obtain rfl := List.mem_singleton.1 hd
    exact manual_planned _
  · obtain rfl := List.mem_singleton.1 hd
    intro s hs
    obtain rfl := List.mem_singleton.1 hs
    trivial

theorem compareConstraint_planned {constraint : Constraint} {ds : List Discrepancy}
    (h : compareConstraint db relation live constraint = .ok ds) {d : Discrepancy} (hd : d ∈ ds) :
    d.Planned baseline := by
  unfold compareConstraint at h
  dsimp only at h
  split_ifs at h
  · cases h
    cases hd
  · cases h
    obtain rfl := List.mem_singleton.1 hd
    exact manual_planned _
  · cases h
    obtain rfl := List.mem_singleton.1 hd
    exact manual_planned _
  · obtain ⟨violated, -, rfl⟩ := map_eq_ok.1 h
    split at hd <;> obtain rfl := List.mem_singleton.1 hd <;> intro s hs
    · cases hs
    · cases hs
    · obtain rfl := List.mem_singleton.1 hs
      trivial

theorem compareConstraints_planned {report : Report}
    (h : compareConstraints db relation shipped live = .ok report) {d : Discrepancy}
    (hd : d ∈ report.discrepancies) : d.Planned baseline := by
  obtain ⟨found, hfound, rfl⟩ := map_eq_ok.1 h
  obtain ⟨ds, hds, hd⟩ := List.mem_flatten.1 hd
  obtain ⟨constraint, -, hconstraint⟩ := exists_of_mem_mapM hfound hds
  exact compareConstraint_planned hconstraint hd

theorem compareRateCard_planned {card : List Discrepancy}
    (h : compareRateCard db baseline shipped live = .ok card) {d : Discrepancy} (hd : d ∈ card) :
    d.Planned baseline := by
  unfold compareRateCard at h
  split at h
  · rename_i hrates
    obtain ⟨d', hd', rfl⟩ := map_eq_ok.1 h
    obtain rfl := List.mem_singleton.1 hd
    rcases rateCardDiscrepancy_cases hd' with ⟨-, hnone⟩ | ⟨b, hb, -, hss, -⟩
    · intro s hs
      rw [hnone] at hs
      cases hs
    · intro s hs
      rw [hss, restructure] at hs
      simp only [List.mem_append, List.mem_cons, List.mem_map, List.not_mem_nil, or_false] at hs
      rcases hs with ((rfl | rfl) | ⟨key, -, rfl⟩) | rfl
      · intro now v hv
        cases hv
        exact .baseline hrates.1 rfl hb
      · trivial
      · trivial
      · trivial
  · cases h
    cases hd

theorem planTable_planned {name : Text} {table : Sql.Relation}
    (hshipped : describe name table ∈ reference) {report : Report}
    (h : planTable db baseline name table = .ok report) {d : Discrepancy}
    (hd : d ∈ report.discrepancies) : d.Planned baseline := by
  unfold planTable at h
  split at h
  · cases h
    obtain rfl := List.mem_singleton.1 hd
    exact manual_planned _
  · obtain ⟨-, card, constraints, hcard, hconstraints, rfl⟩ := compareTable_eq_ok.1 h
    simp only [List.mem_append] at hd
    rcases hd with (((hd | hd) | hd) | hd) | hd
    · exact compareRateCard_planned hcard hd
    · exact compareColumns_planned hshipped hd
    · split at hd
      · cases hd
      · unfold compareKey at hd
        split at hd
        · obtain rfl := List.mem_singleton.1 hd
          exact manual_planned _
        · cases hd
    · exact compareIndexes_planned hd
    · exact compareConstraints_planned hconstraints hd

theorem planView_planned {d : Discrepancy} (hd : d ∈ (planView db).discrepancies) :
    d.Planned baseline := by
  unfold planView compareView at hd
  split at hd
  · obtain rfl := List.mem_singleton.1 hd
    intro s hs
    obtain rfl := List.mem_singleton.1 hs
    trivial
  · dsimp only at hd
    split at hd
    · obtain rfl := List.mem_singleton.1 hd
      exact manual_planned _
    split at hd
    · cases hd
    split at hd
    · obtain rfl := List.mem_singleton.1 hd
      exact manual_planned _
    · obtain rfl := List.mem_singleton.1 hd
      intro s hs
      rcases List.mem_cons.1 hs with rfl | hs
      · rfl
      · obtain rfl := List.mem_singleton.1 hs
        trivial

theorem plan_planned {p : Plan} (h : planWith db baseline = .ok p) :
    ∀ s ∈ p.statements, Planned baseline s := by
  obtain ⟨u, r, hu, hr, rfl⟩ := planWith_eq_ok.1 h
  intro s hs
  obtain ⟨d, hd, hs⟩ := List.mem_flatMap.1 hs
  simp only [List.mem_append] at hd
  rcases hd with hd | hd | hd
  · exact planTable_planned (by simp [reference]) hu hd s hs
  · exact planTable_planned (by simp [reference]) hr hd s hs
  · exact planView_planned hd s hs

/-! ### Executions -/

/-- Every relation but the rollup view is there, with its columns and its rows, and what the
rows have under further columns are shipped values. -/
def Preserves (baseline : Option Day) (db db' : Database) : Prop :=
  ∀ name r, db.find name = some r → ¬ (name = dailyView ∧ r.kind = .view) →
    ∃ r', db'.find name = some r' ∧ r.Extends r' ∧
      ∀ n, r.column n = none → r'.column n ≠ none →
        ∀ row ∈ r'.rows, Shipped baseline name n (row n)

variable {server : Server} {db' db'' : Database}

theorem Preserves.refl : Preserves baseline db db :=
  fun _ r hr _ => ⟨r, hr, .refl r, fun _ hn hn' => absurd hn hn'⟩

/-- **The step.** A statement of a plan preserves what was there in the beginning. -/
theorem exec_preserves (h : Preserves baseline db db') {s : Statement} (hs : Planned baseline s)
    (hexec : Sql.exec server db' s = some db'') : Preserves baseline db db'' := by
  intro name r hr hview
  obtain ⟨r', hr', hext, hnew⟩ := h name r hr hview
  by_cases hname : name = s.target
  · subst hname
    by_cases hdrop : ∃ view, s = .dropView view
    · -- only the rollup view is removed, and only if it is a view
      obtain ⟨view, rfl⟩ := hdrop
      exact absurd ⟨hs, hext.kind ▸ (Sql.exec_dropView hexec hr').1⟩ hview
    · obtain ⟨r'', hr'', hext', hadd⟩ :=
        Sql.exec_extends hexec (fun view hv => hdrop ⟨view, hv⟩) hr'
      refine ⟨r'', hr'', hext.trans hext', fun n hn hn' row hrow => ?_⟩
      by_cases hcolumn : r'.column n = none
      · obtain ⟨table, type, notNull, default, v, rfl, hv, hrows⟩ := hadd n hcolumn hn'
        rw [hrows row hrow]
        exact hs server.now v hv
      · obtain ⟨old, hold, hkeep⟩ := hext'.exists_row hrow
        rw [hkeep n hcolumn]
        exact hnew n hn hcolumn old hold
  · exact ⟨r', (Sql.exec_find_of_ne hexec hname).trans hr', hext, hnew⟩

theorem execute_preserves {ss : List Statement} (h : Preserves baseline db db')
    (hss : ∀ s ∈ ss, Planned baseline s) (hexec : Sql.execute server db' ss = some db'') :
    Preserves baseline db db'' := by
  induction ss generalizing db' with
  | nil =>
    cases hexec
    exact h
  | cons s ss ih =>
    rw [Sql.execute_cons, Option.bind_eq_some_iff] at hexec
    obtain ⟨db₁, hs, hrest⟩ := hexec
    exact ih (exec_preserves h (hss s List.mem_cons_self) hs)
      (fun t ht => hss t (List.mem_cons_of_mem s ht)) hrest

/-- **Reconciliation loses no data.** After any number of the statements of any plan, every
relation but the rollup view has all its columns and all its rows with their values, and under
the columns that were added every row has a value that does not depend on the moment. -/
theorem preservation (server : Server) (db : Database) (baseline : Option Baseline) (p : Plan)
    (hp : plan db baseline = .ok p) (k : ℕ) (db' : Database)
    (h : Sql.execute server db (p.statements.take k) = some db') :
    normaliseBaseline baseline = .ok p.baseline ∧ Preserves p.baseline db db' := by
  obtain ⟨day, hday, hplan⟩ := bind_eq_ok.1 hp
  obtain rfl : p.baseline = day := by
    obtain ⟨u, r, -, -, rfl⟩ := planWith_eq_ok.1 hplan
    rfl
  exact ⟨hday, execute_preserves .refl
    (fun s hs => plan_planned hplan s (List.mem_of_mem_take hs)) h⟩

/-! ### A database that another tool migrated -/

/-- A server that makes a name free by writing more than there is. -/
def plainServer : Server where
  now := 0
  suffix name taken :=
    if name ∈ taken then List.replicate ((taken.map List.length).sum + 1) (CodePoint.of '1')
    else []
  suffix_free name taken := by
    split
    · intro h
      have hle := List.le_sum_of_mem (List.mem_map_of_mem (f := List.length) h)
      simp only [List.length_append, List.length_replicate] at hle
      omega
    · simpa

/-- A relation without rows, constraints or indexes. -/
def bare (kind : Kind) (columns : List Column) (h : (columns.map Column.name).Nodup) :
    Sql.Relation :=
  { indexRelation ⟨columns, h⟩ with
    kind := kind
    columns := columns
    columns_nodup := h
    key_isTable := fun h => absurd rfl h
    rows_notNull := fun _ _ _ _ hrow => by cases hrow }

/-- A rate card with one rate for each model and pricing mode. -/
def legacyRates : Sql.Relation where
  kind := .table
  columns := shippedColumn "pricing_mode" "text" true none ::
    shippedRates.columns.filter (·.name ≠ effectiveFrom)
  key := some ⟨Text.of "rates_key", [modelColumn, pricingMode], []⟩
  constraints := []
  otherConstraints := []
  indexes := []
  otherIndexes := []
  dependents := []
  grantees := []
  rows := [fun n =>
    if n = modelColumn then .text (Text.of "claude")
    else if n = pricingMode then .text (Text.of "api")
    else .num 3]
  columns_nodup := by decide +kernel
  key_isTable := fun _ => rfl
  rows_notNull := by
    intro c _ _ row hrow
    obtain rfl := List.mem_singleton.1 hrow
    dsimp only
    split_ifs <;> simp

/-- The usage of a gateway that knows neither versions nor parents. -/
def legacyUsage : Sql.Relation where
  kind := .table
  columns := shippedUsage.columns.filter fun c =>
    c.name ≠ schemaVersion ∧ c.name ≠ Text.of "parent_request_id"
  key := shippedUsage.key
  constraints := []
  otherConstraints := []
  indexes := []
  otherIndexes := []
  dependents := []
  grantees := []
  rows := [fun _ => .num 7]
  columns_nodup := by decide +kernel
  key_isTable := fun _ => rfl
  rows_notNull := by
    intro c _ _ row hrow
    obtain rfl := List.mem_singleton.1 hrow
    simp

/-- A gateway's database. -/
def legacy : Database where
  relations := List.toAList
    [⟨usageTable, legacyUsage⟩, ⟨ratesTable, legacyRates⟩,
      ⟨dailyView, bare .view [shippedColumn "app_id" "text" false none] (by decide +kernel)⟩]
  attributes := fun _ => ⟨[], List.nodup_nil⟩
  traits := fun _ => ⟨true, true, true, true⟩

/-- The baseline of an operator. -/
def operatorBaseline : Option Baseline := some (.text (Text.of "2026-01-01"))

/-- The preservation at the gateway's database, whose rate gets the baseline. -/
theorem preservation_legacy : ∃ p db', plan legacy operatorBaseline = .ok p ∧
    Sql.execute plainServer legacy p.statements = some db' ∧ Preserves p.baseline legacy db' ∧
    ((db'.find ratesTable).map fun r => r.rows.map (· effectiveFrom)) =
      some [.day (.date ⟨2026, 1, 1, by decide, by decide, by decide⟩)] := by
  have hrun : ((plan legacy operatorBaseline).toOption.bind fun p =>
      (Sql.execute plainServer legacy p.statements).bind fun db' =>
        (db'.find ratesTable).map fun r => r.rows.map (· effectiveFrom)) =
      some [.day (.date ⟨2026, 1, 1, by decide, by decide, by decide⟩)] := by
    decide +kernel
  obtain ⟨p, hp, hrest⟩ := Option.bind_eq_some_iff.1 hrun
  obtain ⟨db', hdb', hrows⟩ := Option.bind_eq_some_iff.1 hrest
  have hplan := eq_ok_of_toOption hp
  have htake : Sql.execute plainServer legacy (p.statements.take p.statements.length) = some db' := by
    rw [List.take_length, hdb']
  exact ⟨p, db', hplan, hdb',
    (preservation plainServer legacy operatorBaseline p hplan _ db' htake).2, hrows⟩

end Tokenweir.Reconcile
