import Tokenweir.Reconcile.Tables

/-!
# Executing the restructure of a rate card

A rate card without effective dates gets them, and the key over them, in one sequence of
statements; and this succeeds unless something rests on what it takes away.

* `Rekeyable`, `Dated`; `execute_restructure`;
* `agrees_of_dated`, the columns for the comparison that follows.
-/

namespace Tokenweir.Reconcile

open Sql (Kind Column Constraint Database Statement Day Value Server Expression Leads)

variable {db db₀ : Database} {L r : Sql.Relation} {baseline : Option Day}

/-- The key of the shipped rate card. -/
def ratesKey : List Text := [modelColumn, effectiveFrom]

/-- The shipped rate card. -/
abbrev ratesReference : Relation := describe ratesTable shippedRates

theorem keyColumns_rates : keyColumns ratesReference = [modelColumn] := by decide +kernel

/-- The shipped column `effective_from`. -/
def effectiveFromColumn : Column := shippedColumn "effective_from" "date" true none

theorem effectiveFrom_reference : ratesReference.column effectiveFrom = some effectiveFromColumn := by
  decide +kernel

/-- What the planner does not see of a rate card that it restructures: that it is a table, that
its rows are divided by columns of the new key at most, and that nothing rests on its key. -/
def Rekeyable (L : Sql.Relation) : Prop :=
  L.kind.isTable = true ∧ L.dividedBy ratesKey = true ∧
    ∀ key, L.key = some key → key.dependents = []

/-- A rate card whose rates are all in force from this day on. -/
structure Dated (b : Day) (L r : Sql.Relation) : Prop where
  extends_ : L.Extends r
  key : ∃ suffix, r.key = some ⟨ratesTable ++ Text.of "_pkey" ++ suffix, ratesKey, []⟩
  effectiveFrom : r.column effectiveFrom = some effectiveFromColumn
  column : ∀ n, n ≠ Reconcile.effectiveFrom → r.column n = (L.column n).map fun c =>
    if c.name ∈ ratesKey then { c with notNull := true } else c
  dated : ∀ row ∈ r.rows, row Reconcile.effectiveFrom = .day b
  constraints : r.constraints = L.constraints
  otherConstraints : r.otherConstraints = L.otherConstraints
  indexes : r.indexes = L.indexes
  otherIndexes : r.otherIndexes = L.otherIndexes

/-- Without duplicates, every model has one row. -/
theorem models_nodup (hL : db₀.find ratesTable = some L)
    (h : rateCardDuplicates db₀ ratesTable (describe ratesTable L) = .ok []) :
    (L.rows.map (· modelColumn)).Nodup := by
  unfold rateCardDuplicates at h
  split at h
  · cases h
  split at h
  · have hnone := Except.ok.inj h
    rw [hL, Option.elim_some, List.filter_eq_nil_iff] at hnone
    refine List.nodup_iff_count_le_one.2 fun v => ?_
    by_cases hv : v ∈ L.rows.map (· modelColumn)
    · exact Nat.not_lt.1 fun hlt => hnone v (List.mem_dedup.2 hv) (decide_eq_true hlt)
    · rw [List.count_eq_zero_of_not_mem hv]
      exact Nat.zero_le 1
  · cases h

/-- **The restructure** succeeds exactly if the rate card can be keyed anew. -/
theorem execute_restructure (server : Server) {d : Discrepancy}
    (hcard : rateCardDiscrepancy db₀ ratesTable ratesReference (describe ratesTable L) baseline =
      .ok d) (hauto : d.resolution = .automatic) (hL : db₀.find ratesTable = some L)
    (hnew : L.column effectiveFrom = none) (hr : db.find ratesTable = some L) :
    (Rekeyable L ∧ ∃ b, baseline = some b ∧ Leads server ratesTable db d.statements (Dated b L)) ∨
      (¬ Rekeyable L ∧ Sql.execute server db d.statements = none) := by
  rcases rateCardDiscrepancy_cases hcard with ⟨hmanual, -⟩ |
    ⟨b, hb, -, hss, hpresent, hnonnull, hduplicates, -⟩
  · rw [hauto] at hmanual
    cases hmanual
  have hlist : d.statements =
      [.addColumn ratesTable effectiveFrom effectiveFromColumn.type true (some (.date b)),
        .dropDefault ratesTable effectiveFrom] ++ Sql.swapKey ratesTable L.key ratesKey := by
    rw [hss, restructure, effectiveFrom_reference, primaryKeyConstraintName, hL,
      Option.bind_some, Sql.swapKey, List.append_assoc]
    rfl
  rw [hlist]
  by_cases hkind : L.kind.isTable = true
  · obtain ⟨db₁, r₁, hexec₁, halters₁, hr₁, hext₁, hsame₁, hdated₁, hcolumn₁⟩ :=
      Sql.execute_fill server effectiveFrom effectiveFromColumn.type (.date b) hr hkind hnew rfl
        (by simp)
    rw [Sql.execute_append, hexec₁, Option.bind_some, ← hsame₁.key]
    have hmodel : L.column modelColumn ≠ none := hpresent modelColumn (by
      rw [keyColumns_rates]
      exact List.mem_singleton_self _)
    have hcolumns : ∀ c ∈ ratesKey, r₁.column c ≠ none := by
      intro c hc
      rcases List.mem_cons.1 hc with rfl | hc
      · exact hext₁.column_ne_none hmodel
      · obtain rfl := List.mem_singleton.1 hc
        rw [hcolumn₁, if_pos rfl]
        exact Option.some_ne_none _
    have hnull : ∀ c ∈ ratesKey, ∀ row ∈ r₁.rows, row c ≠ .null := by
      intro c hc
      rcases List.mem_cons.1 hc with rfl | hc
      · refine no_nulls_of_extends hext₁ hmodel (columnHasNulls_false hL (hnonnull modelColumn ?_))
        rw [keyColumns_rates]
        exact List.mem_singleton_self _
      · obtain rfl := List.mem_singleton.1 hc
        intro row hrow
        rw [hdated₁ row hrow]
        simp
    have hunique : (r₁.rows.map fun row => ratesKey.map row).Nodup := by
      -- the models alone are distinct
      have hmodels : r₁.rows.map (· modelColumn) = L.rows.map (· modelColumn) := by
        obtain ⟨f, hf, hkeep⟩ := hext₁.rows
        rw [hf, List.map_map]
        exact List.map_congr_left fun row hrow => hkeep row hrow modelColumn hmodel
      have hnodup : ((r₁.rows.map fun row => ratesKey.map row).map fun key => key.headD .null).Nodup := by
        rw [List.map_map]
        show (r₁.rows.map (· modelColumn)).Nodup
        rw [hmodels]
        exact models_nodup hL hduplicates
      exact hnodup.of_map
    have hdivided : r₁.dividedBy ratesKey = L.dividedBy ratesKey := by
      unfold Sql.Relation.dividedBy
      rw [hsame₁.kind]
    rcases Sql.execute_swapKey server hr₁ (hsame₁.kind ▸ hkind) hcolumns hnull hunique with
      ⟨⟨hdiv, hdep⟩, db₂, r₂, hexec₂, halters₂, hr₂, hre⟩ | ⟨hnot, hnone⟩
    · refine Or.inl ⟨⟨hkind, hdivided ▸ hdiv, hsame₁.key ▸ hdep⟩, b, hb, db₂, r₂, ?_,
        halters₁.trans halters₂, hr₂, ?_⟩
      · rw [hsame₁.key, Sql.execute_append, hexec₁, Option.bind_some, ← hsame₁.key, hexec₂]
      · refine ⟨hext₁.trans hre.extends_, hre.key, ?_, fun n hn => ?_, fun row hrow => ?_,
          hre.constraints.trans hsame₁.constraints,
          hre.otherConstraints.trans hsame₁.otherConstraints, hre.indexes.trans hsame₁.indexes,
          hre.otherIndexes.trans hsame₁.otherIndexes⟩
        · rw [hre.column, hcolumn₁, if_pos rfl]
          decide +kernel
        · rw [hre.column, hcolumn₁, if_neg hn]
        · exact hdated₁ row (hre.rows ▸ hrow)
    · refine Or.inr ⟨fun h => hnot ⟨hdivided.trans h.2.1, hsame₁.key.symm ▸ h.2.2⟩, hnone⟩
  · refine Or.inr ⟨fun h => hkind h.1, ?_⟩
    have hnone : Sql.exec server db
        (.addColumn ratesTable effectiveFrom effectiveFromColumn.type true (some (.date b))) =
          none :=
      Sql.exec_addColumn_eq_none hr (by simpa using hkind)
    rw [List.cons_append, Sql.execute_cons, hnone]
    rfl

/-- After the restructure, the other columns are as the planner has seen them. -/
theorem agrees_of_dated {b : Day} (h : Dated b L r) {c : Column}
    (hc : c ∈ comparedColumns ratesTable ratesReference [effectiveFrom]) : Agrees L r c := by
  have hne : c.name ≠ effectiveFrom := by
    rintro hname
    have hskip := (List.mem_filter.1 hc).2
    simp [hname] at hskip
  -- the columns of the key are shipped as `NOT NULL`
  have hkey : ∀ c ∈ ratesReference.columns, c.name ∈ ratesKey → c.notNull = true := by
    decide +kernel
  unfold Agrees
  rw [h.column c.name hne]
  refine ⟨fun hnone => by rw [hnone, Option.map_none], fun found hfound => ?_⟩
  rw [hfound, Option.map_some]
  by_cases hmem : found.name ∈ ratesKey
  · rw [if_pos hmem]
    refine ⟨true, rfl, fun _ => rfl, fun _ => Or.inr (hkey c (List.mem_of_mem_filter hc) ?_)⟩
    exact Sql.Relation.column_name hfound ▸ hmem
  · rw [if_neg hmem]
    exact ⟨found.notNull, rfl, id, Or.inl⟩

end Tokenweir.Reconcile
