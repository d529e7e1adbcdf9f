import Tokenweir.Lib.Progress
import Tokenweir.Reconcile.Cases

/-!
# Executing the parts of a plan

What the statements about one table lead to, when no discrepancy of it needs a human.

* `Plain`, a column that the planner can add; `execute_columns`;
* `Completed`, a table after it; `execute_rest`, all parts of a table.
-/

namespace Tokenweir.Reconcile

open Sql (Kind Column Constraint Database Statement Day Value Server Expression Leads)

variable {server : Server} {db db₀ : Database} {table : Text} {L r : Sql.Relation}

/-! ### Columns -/

/-- A column that is neither an identity nor generated and whose default, if it is a constant,
is a whole number. -/
def Plain (c : Column) : Prop :=
  c.identity = .ordinary ∧ c.generated = .ordinary ∧
    ∀ default ∈ c.default, isConstantDefault default = true →
      default ≠ [] ∧ default.all Text.isDigit = true

instance : DecidablePred Plain := fun _ => inferInstanceAs (Decidable (_ ∧ _ ∧ _))

/-- The table has this column just when the live one has it, and then with all that the live
one has; it may have become `NOT NULL` where the shipped one is. -/
def Agrees (L r : Sql.Relation) (c : Column) : Prop :=
  (L.column c.name = none → r.column c.name = none) ∧
    ∀ found, L.column c.name = some found → ∃ b, r.column c.name = some { found with notNull := b } ∧
      (found.notNull = true → b = true) ∧ (b = true → found.notNull = true ∨ c.notNull = true)

/-- A table agrees with itself. -/
theorem agrees_self {c : Column} : Agrees L L c :=
  ⟨id, fun found h => ⟨found.notNull, h, id, Or.inl⟩⟩

theorem eq_shipped {c found : Column} (hname : found.name = c.name) (htype : found.type = c.type)
    (hidentity : found.identity = c.identity) (hgenerated : found.generated = c.generated) :
    { found with notNull := c.notNull, default := c.default } = c := by
  rw [hname, htype, hidentity, hgenerated]

theorem columnHasNulls_false {column : Text} (hL : db₀.find table = some L)
    (h : columnHasNulls db₀ table column = false) : ∀ row ∈ L.rows, row column ≠ .null := by
  intro row hrow hnull
  rw [columnHasNulls, hL, Option.any_some, List.any_eq_false] at h
  exact h row hrow (decide_eq_true hnull)

/-- Without nulls before an extension, there are none after it. -/
theorem no_nulls_of_extends (hext : L.Extends r) {n : Text} (hn : L.column n ≠ none)
    (h : ∀ row ∈ L.rows, row n ≠ .null) : ∀ row ∈ r.rows, row n ≠ .null := by
  intro row hrow
  obtain ⟨old, hold, hkeep⟩ := hext.exists_row hrow
  rw [hkeep n hn]
  exact h old hold

/-- What the statements about one column lead to: the shipped column. -/
def HasColumn (r : Sql.Relation) (c : Column) (r' : Sql.Relation) : Prop :=
  r.Extends r' ∧ r.SameObjects r' ∧ r'.column c.name = some c ∧
    ∀ m, m ≠ c.name → r'.column m = r.column m

theorem execute_missingColumn {c : Column} {ss : List Statement}
    (hss : addColumnStatements table c = .ok ss) (hplain : Plain c)
    (hr : db.find table = some r) (hkind : r.kind.isTable = true)
    (hnew : r.column c.name = none) : Leads server table db ss (HasColumn r c) := by
  obtain ⟨hidentity, hgenerated, hdigits⟩ := hplain
  rcases addColumnStatements_cases hss with ⟨default, hdefault, hconstant, rfl⟩ |
    ⟨hdefault, hnull, rfl⟩ | ⟨hdefault, hnull, value, hvalue, rfl⟩
  · have hv := Expression.value_digits (hdigits default hdefault hconstant) server.now
    refine (Sql.exec_addColumn c.name c.type c.notNull (some (.sql default)) hr hkind hnew hv
      fun _ => by simp).mono fun r' h => ?_
    obtain ⟨hext, hsame, -, hcolumn⟩ := h
    refine ⟨hext, hsame, ?_, fun m hm => by rw [hcolumn, if_neg hm]⟩
    rw [hcolumn, if_pos rfl, Option.map_some, Expression.text, ← hdefault, ← hidentity,
      ← hgenerated]
  · refine (Sql.exec_addColumn c.name c.type false none hr hkind hnew rfl (by simp)).mono
      fun r' h => ?_
    obtain ⟨hext, hsame, -, hcolumn⟩ := h
    refine ⟨hext, hsame, ?_, fun m hm => by rw [hcolumn, if_neg hm]⟩
    rw [hcolumn, if_pos rfl, Option.map_none, ← hdefault, ← hidentity, ← hgenerated, ← hnull]
  · -- the value is the version 1
    have hone : value = Text.of "1" := by
      rw [backfillValue] at hvalue
      split at hvalue
      · exact (Option.some_injective _ hvalue).symm
      · cases hvalue
    have hv : (Expression.sql value).value server.now = some (.num (Text.number value)) :=
      Expression.value_digits (by rw [hone]; decide +kernel) server.now
    refine (Sql.execute_fill server c.name c.type (.sql value) hr hkind hnew hv (by simp)).mono
      fun r' h => ?_
    obtain ⟨hext, hsame, -, hcolumn⟩ := h
    refine ⟨hext, hsame, ?_, fun m hm => by rw [hcolumn, if_neg hm]⟩
    rw [hcolumn, if_pos rfl, ← hdefault, ← hidentity, ← hgenerated, ← hnull]

theorem execute_nullability {c found : Column} {b : Bool}
    (hauto : Automatic (compareNullability db₀ table c found)) (hL : db₀.find table = some L)
    (hLc : L.column c.name = some found) (hext : L.Extends r) (hr : db.find table = some r)
    (hkind : r.kind.isTable = true) (hc : r.column c.name = some { found with notNull := b })
    (hup : found.notNull = true → b = true)
    (hdown : b = true → found.notNull = true ∨ c.notNull = true) :
    Leads server table db (statementsOf (compareNullability db₀ table c found)) fun r' =>
      r.Extends r' ∧ r.SameObjects r' ∧
        r'.column c.name = some { found with notNull := c.notNull } ∧
        ∀ m, m ≠ c.name → r'.column m = r.column m := by
  rcases compareNullability_automatic hauto with ⟨heq, hnone⟩ | ⟨hset, -, hnulls, hss⟩
  · rw [hnone]
    have hb : b = c.notNull := by
      cases b with
      | true => exact ((hdown rfl).elim (fun h => heq ▸ h) id).symm
      | false =>
        cases hcn : c.notNull with
        | false => rfl
        | true => exact hup (heq.trans hcn)
    exact .nil hr ⟨.refl r, .refl r, hb ▸ hc, fun _ _ => rfl⟩
  · rw [hss]
    have hLn : L.column c.name ≠ none := by
      rw [hLc]
      exact Option.some_ne_none found
    refine (Sql.exec_setNotNull hr hkind hc
      (no_nulls_of_extends hext hLn (columnHasNulls_false hL hnulls))).mono fun r' h => ?_
    rwa [hset]

theorem execute_column {c : Column}
    (hauto : Automatic (compareColumn db₀ table (describe table L) c)) (hplain : Plain c)
    (hL : db₀.find table = some L) (hext : L.Extends r) (hagrees : Agrees L r c)
    (hr : db.find table = some r) (hkind : r.kind.isTable = true) :
    Leads server table db (statementsOf (compareColumn db₀ table (describe table L) c))
      (HasColumn r c) := by
  have hlive : ∀ n, (describe table L).column n = L.column n := fun _ => rfl
  rcases compareColumn_automatic hauto with ⟨hnew, ss, hss, heq⟩ |
    ⟨found, hfound, hgenerated, hidentity, htype, heq⟩
  · rw [heq]
    exact execute_missingColumn hss hplain hr hkind (hagrees.1 hnew)
  · rw [heq] at hauto ⊢
    rw [automatic_append] at hauto
    rw [statementsOf_append]
    obtain ⟨b, hb, hup, hdown⟩ := hagrees.2 found hfound
    have hname : found.name = c.name := Sql.Relation.column_name hfound
    refine (execute_nullability hauto.1 hL hfound hext hr hkind hb hup hdown).append
      fun db₁ r₁ _ hr₁ h₁ => ?_
    obtain ⟨hext₁, hsame₁, hc₁, hother₁⟩ := h₁
    rcases compareDefault_cases table c found with
      ⟨hdefault, hnone⟩ | ⟨s, hs, htarget, hexec⟩
    · rw [hnone]
      refine .nil hr₁ ⟨hext₁, hsame₁, ?_, hother₁⟩
      rw [hc₁, ← eq_shipped hname htype hidentity hgenerated, ← hdefault]
    · rw [hs]
      refine (Sql.exec_setDefault c.default (hexec server db₁) hr₁ (hsame₁.kind ▸ hkind) hc₁
        (hidentity.trans hplain.1) (hgenerated.trans hplain.2.1)).mono fun r₂ h₂ => ?_
      obtain ⟨hext₂, hsame₂, -, hc₂, hother₂⟩ := h₂
      refine ⟨hext₁.trans hext₂, hsame₁.trans hsame₂, ?_,
        fun m hm => (hother₂ m hm).trans (hother₁ m hm)⟩
      rw [hc₂, eq_shipped hname htype hidentity hgenerated]

/-- **The columns.** The statements about columns lead to the shipped columns. -/
theorem execute_columns (server : Server) {cs : List Column} (hnodup : (cs.map Column.name).Nodup)
    (hauto : ∀ c ∈ cs, Automatic (compareColumn db₀ table (describe table L) c))
    (hplain : ∀ c ∈ cs, Plain c) (hL : db₀.find table = some L) (hext : L.Extends r)
    (hagrees : ∀ c ∈ cs, Agrees L r c) (hr : db.find table = some r)
    (hkind : r.kind.isTable = true) :
    Leads server table db
      (statementsOf (cs.flatMap (compareColumn db₀ table (describe table L)))) fun r' =>
        r.Extends r' ∧ r.SameObjects r' ∧ (∀ c ∈ cs, r'.column c.name = some c) ∧
          ∀ m, m ∉ cs.map Column.name → r'.column m = r.column m := by
  induction cs generalizing db r with
  | nil => exact .nil hr ⟨.refl r, .refl r, by simp, fun _ _ => rfl⟩
  | cons c cs ih =>
    rw [List.flatMap_cons, statementsOf_append]
    rw [List.map_cons, List.nodup_cons] at hnodup
    refine (execute_column (hauto c List.mem_cons_self) (hplain c List.mem_cons_self) hL hext
      (hagrees c List.mem_cons_self) hr hkind).append fun db₁ r₁ _ hr₁ h₁ => ?_
    obtain ⟨hext₁, hsame₁, hc₁, hother₁⟩ := h₁
    have hne : ∀ d ∈ cs, d.name ≠ c.name := fun d hd h => hnodup.1 (h ▸ List.mem_map_of_mem hd)
    refine (ih hnodup.2 (fun d hd => hauto d (List.mem_cons_of_mem c hd))
      (fun d hd => hplain d (List.mem_cons_of_mem c hd)) (hext.trans hext₁) (fun d hd => ?_) hr₁
      (hsame₁.kind ▸ hkind)).mono fun r₂ h₂ => ?_
    · -- the other columns are as they were
      unfold Agrees
      rw [hother₁ d.name (hne d hd)]
      exact hagrees d (List.mem_cons_of_mem c hd)
    · obtain ⟨hext₂, hsame₂, hcs₂, hother₂⟩ := h₂
      refine ⟨hext₁.trans hext₂, hsame₁.trans hsame₂, fun d hd => ?_, fun m hm => ?_⟩
      · rcases List.mem_cons.1 hd with rfl | hd
        · rw [hother₂ _ hnodup.1, hc₁]
        · exact hcs₂ d hd
      · rw [List.map_cons, List.mem_cons, not_or] at hm
        rw [hother₂ m hm.2, hother₁ m hm.1]

/-! ### A table -/

/-- The columns of a table that are compared. -/
def comparedColumns (table : Text) (reference : Relation) (skip : List Text) : List Column :=
  reference.columns.filter fun c => !(skip.contains c.name || isExempt table c.name)

/-- What is true of the shipped tables: their compared columns can be added, their indexes are
on compared columns, and their checks read the columns that they are about. -/
structure ShippedTable (table : Text) (reference : Relation) (skip : List Text) : Prop where
  columns_nodup : reference.columnNames.Nodup
  plain : ∀ c ∈ comparedColumns table reference skip, Plain c
  indexes_nodup : (reference.indexes.map (·.index.name)).Nodup
  indexes_columns : ∀ e ∈ reference.indexes, ∀ n ∈ e.index.columns,
    n ∈ (comparedColumns table reference skip).map Column.name
  checks_nodup : (reference.constraints.map Constraint.name).Nodup
  checks_columns : ∀ c ∈ reference.constraints, ∀ p ∈ c.check, ∀ n ∈ p.columns, n ∈ c.columns

/-- The table `r` with all that the shipped table has and the live table `L` has not. -/
structure Completed (table : Text) (reference : Relation) (skip : List Text)
    (L r r' : Sql.Relation) : Prop where
  extends_ : r.Extends r'
  key : r'.key = r.key
  columns : ∀ c ∈ comparedColumns table reference skip, r'.column c.name = some c
  others : ∀ m, m ∉ (comparedColumns table reference skip).map Column.name →
    r'.column m = r.column m
  indexes : r'.indexes = r.indexes ++ missingIndexes reference (describe table L)
  constraints : r'.constraints = r.constraints ++ missingChecks reference (describe table L)
  otherIndexes : r'.otherIndexes = r.otherIndexes

variable {reference : Relation} {skip : List Text} {report : Report}

theorem compareColumns_automatic {live : Relation}
    (h : Automatic (compareColumns db₀ table reference live skip).discrepancies) :
    (∀ c ∈ comparedColumns table reference skip, Automatic (compareColumn db₀ table live c)) ∧
      statementsOf (compareColumns db₀ table reference live skip).discrepancies =
        statementsOf ((comparedColumns table reference skip).flatMap
          (compareColumn db₀ table live)) ∧
      ∀ c ∈ live.columns, c.name ∉ reference.columnNames → isExempt table c.name = false →
        table = usageTable → isUnwritable c = false := by
  have h' := automatic_append.1 h
  rw [automatic_flatMap, automatic_flatMap] at h'
  refine ⟨h'.1, ?_, fun c hc hname hexempt => ?_⟩
  · have hextra : ∀ cs : List Column, (∀ c ∈ cs, Automatic (extraColumn table c).discrepancies) →
        cs.flatMap (fun c => (extraColumn table c).discrepancies) = [] := fun cs hcs =>
      List.flatMap_eq_nil_iff.2 fun c hc => (extraColumn_automatic (hcs c hc)).1
    rw [compareColumns, hextra _ h'.2, List.append_nil]
    rfl
  · refine (extraColumn_automatic (h'.2 c (List.mem_filter.2 ⟨hc, ?_⟩))).2
    simp [hname, hexempt]

/-- **The parts of a table.** Its columns, indexes and constraints are put right exactly if
the names of the new indexes and of the new constraints are free. -/
theorem execute_rest (server : Server) (hshipped : ShippedTable table reference skip)
    (hcolumns : Automatic
      (compareColumns db₀ table reference (describe table L) skip).discrepancies)
    (hindexes : Automatic (compareIndexes table reference (describe table L)).discrepancies)
    (hreport : compareConstraints db₀ table reference (describe table L) = .ok report)
    (hconstraints : Automatic report.discrepancies) (hL : db₀.find table = some L)
    (hext : L.Extends r) (hagrees : ∀ c ∈ comparedColumns table reference skip, Agrees L r c)
    (hr : db.find table = some r) (hkind : r.kind.isTable = true) :
    (((∀ i ∈ missingIndexes reference (describe table L), i.name ∉ db.names) ∧
          ∀ c ∈ missingChecks reference (describe table L), c.name ∉ r.constraintNames) ∧
        Leads server table db
          (statementsOf (compareColumns db₀ table reference (describe table L) skip).discrepancies ++
            (statementsOf (compareIndexes table reference (describe table L)).discrepancies ++
              statementsOf report.discrepancies))
          (Completed table reference skip L r)) ∨
      (¬ ((∀ i ∈ missingIndexes reference (describe table L), i.name ∉ db.names) ∧
          ∀ c ∈ missingChecks reference (describe table L), c.name ∉ r.constraintNames) ∧
        Sql.execute server db
          (statementsOf (compareColumns db₀ table reference (describe table L) skip).discrepancies ++
            (statementsOf (compareIndexes table reference (describe table L)).discrepancies ++
              statementsOf report.discrepancies)) = none) := by
  obtain ⟨hautos, hstatements, -⟩ := compareColumns_automatic hcolumns
  obtain ⟨hchecks, hpasses⟩ := compareConstraints_automatic hreport hconstraints
  rw [hstatements, compareIndexes_automatic hindexes, hchecks]
  have hnodup : ((comparedColumns table reference skip).map Column.name).Nodup :=
    (List.filter_sublist.map Column.name).nodup hshipped.columns_nodup
  -- the columns first
  obtain ⟨db₁, r₁, hexec₁, halters₁, hr₁, hext₁, hsame₁, hcs₁, hothers₁⟩ :=
    execute_columns server hnodup hautos hshipped.plain hL hext hagrees hr hkind
  have hkind₁ : r₁.kind.isTable = true := hsame₁.kind ▸ hkind
  have hnames₁ : ∀ n, n ∈ db₁.names ↔ n ∈ db.names := fun n =>
    halters₁.mem_names_congr hr hr₁ hsame₁.names
  rw [Sql.execute_append, hexec₁, Option.bind_some, Sql.execute_append]
  -- then the indexes
  have hindexColumns : ∀ i ∈ missingIndexes reference (describe table L), ∀ n ∈ i.columns,
      r₁.column n ≠ none := by
    intro i hi n hn
    obtain ⟨e, he, rfl⟩ := List.mem_map.1 hi
    obtain ⟨c, hc, rfl⟩ := List.mem_map.1
      (hshipped.indexes_columns e (List.mem_of_mem_filter he) n hn)
    rw [hcs₁ c hc]
    exact Option.some_ne_none c
  have hindexNodup : ((missingIndexes reference (describe table L)).map Sql.Index.name).Nodup := by
    rw [missingIndexes, List.map_map]
    exact (List.filter_sublist.map _).nodup hshipped.indexes_nodup
  rcases Sql.execute_createIndexes server hr₁ hkind₁ hindexColumns hindexNodup with
    ⟨hfree, db₂, r₂, hexec₂, halters₂, hr₂, rfl⟩ | ⟨⟨i, hi, htaken⟩, hnone⟩
  · rw [hexec₂, Option.bind_some]
    -- then the constraints
    have hcheck : ∀ c ∈ missingChecks reference (describe table L), ∃ p, c.check = some p ∧
        (∀ n ∈ p.columns, r₁.column n ≠ none) ∧ ∀ row ∈ r₁.rows, p.eval row ≠ some false := by
      intro c hc
      obtain ⟨hpresent, -, p, hp, hrows⟩ := hpasses c hc
      have hcolumn : ∀ n ∈ p.columns, L.column n ≠ none := fun n hn =>
        hpresent n (hshipped.checks_columns c (List.mem_of_mem_filter hc) p hp n hn)
      have hextL := hext.trans hext₁
      refine ⟨p, hp, fun n hn => hextL.column_ne_none (hcolumn n hn), fun row hrow => ?_⟩
      obtain ⟨old, hold, hkeep⟩ := hextL.exists_row hrow
      rw [Sql.Predicate.eval_congr fun n hn => hkeep n (hcolumn n hn)]
      exact hrows L hL old hold
    have hcheckNodup :
        ((missingChecks reference (describe table L)).map Constraint.name).Nodup :=
      (List.filter_sublist.map _).nodup hshipped.checks_nodup
    rcases Sql.execute_addChecks server hr₂ hkind₁ hcheck hcheckNodup with
      ⟨hnamed, db₃, r₃, hexec₃, halters₃, hr₃, rfl⟩ | ⟨⟨c, hc, htaken⟩, hnone⟩
    · refine Or.inl ⟨⟨fun i hi h => hfree i hi ((hnames₁ _).2 h), fun c hc h => ?_⟩, db₃, _, ?_,
        (halters₁.trans halters₂).trans halters₃, hr₃, ?_⟩
      · exact hnamed c hc (hsame₁.constraintNames.symm ▸ h)
      · rw [Sql.execute_append, hexec₁, Option.bind_some, Sql.execute_append, hexec₂,
          Option.bind_some, hexec₃]
      · exact ⟨⟨hext₁.kind, hext₁.columns, hext₁.rows⟩, hsame₁.key, hcs₁, hothers₁,
          congrArg (· ++ _) hsame₁.indexes, congrArg (· ++ _) hsame₁.constraints,
          hsame₁.otherIndexes⟩
    · refine Or.inr ⟨fun h => h.2 c hc ?_, hnone⟩
      exact hsame₁.constraintNames ▸ htaken
  · refine Or.inr ⟨fun h => h.1 i hi ((hnames₁ _).1 htaken), ?_⟩
    rw [hnone]
    rfl

end Tokenweir.Reconcile
