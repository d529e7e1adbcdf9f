import Tokenweir.Reconcile.Preservation
import Tokenweir.Reconcile.RateCard

/-!
# When a plan can run

A plan without discrepancies that need a human is executed to its end exactly if what the
planner does not look at lets it: `Runnable`.

* `Matches`, a table that has all that the shipped one has;
* `execute_usage`, `execute_rates`, `execute_view`;
* `execute_tables`; `runnable`.
-/

namespace Tokenweir.Reconcile

open Sql (Kind Column Constraint Database Statement Day Value Server Expression Leads)

variable {db db₀ db' : Database} {table : Text} {L r r' : Sql.Relation} {baseline : Option Day}
  {report : Report} {reference : Relation} {skip : List Text}

/-! ### The shipped tables -/

/-- The shipped usage table. -/
abbrev usageReference : Relation := describe usageTable shippedUsage

theorem shippedTable_usage : ShippedTable usageTable usageReference [] where
  columns_nodup := by decide +kernel
  plain := by decide +kernel
  indexes_nodup := by decide +kernel
  indexes_columns := by decide +kernel
  checks_nodup := by decide +kernel
  checks_columns := by decide +kernel

theorem shippedTable_rates (skip : List Text) (h : skip = [] ∨ skip = [effectiveFrom]) :
    ShippedTable ratesTable ratesReference skip := by
  rcases h with rfl | rfl
  all_goals
    exact ⟨by decide +kernel, by decide +kernel, by decide +kernel, by decide +kernel,
      by decide +kernel, by decide +kernel⟩

/-! ### The report on a table -/

theorem relationOid_cases (h : relationOid db table = some L) :
    db.find table = some L ∨ L = indexRelation (db.attributes table) := by
  unfold relationOid at h
  split at h
  · rename_i q hq
    obtain rfl := Option.some_injective _ h
    exact Or.inl hq
  · split at h
    · exact Or.inr (Option.some_injective _ h).symm
    · cases h

/-- The columns that the report on a table leaves to the restructure. -/
def skipped (table : Text) (L : Sql.Relation) : List Text :=
  if restructured table (describe table L) then [effectiveFrom] else []

/-- A report on a table in which nothing needs a human, by its parts. -/
structure AutomaticReport (db : Database) (baseline : Option Day) (table : Text)
    (reference : Relation) (L : Sql.Relation) (cards : List Discrepancy) (checks : Report) :
    Prop where
  readable : checkReadable reference (describe table L) = .ok ()
  card : compareRateCard db baseline reference (describe table L) = .ok cards
  card_automatic : Automatic cards
  columns : Automatic
    (compareColumns db table reference (describe table L) (skipped table L)).discrepancies
  key : ¬ restructured table (describe table L) →
    (describe table L).primaryKey = reference.primaryKey
  indexes : Automatic (compareIndexes table reference (describe table L)).discrepancies
  constraints : compareConstraints db table reference (describe table L) = .ok checks
  constraints_automatic : Automatic checks.discrepancies

theorem compareRateCard_cases {cards : List Discrepancy} {live : Relation}
    (h : compareRateCard db baseline reference live = .ok cards) :
    (¬ restructured reference.name live ∧ cards = []) ∨
      (restructured reference.name live ∧ ∃ d, cards = [d] ∧
        rateCardDiscrepancy db reference.name reference live baseline = .ok d) := by
  unfold compareRateCard at h
  split at h
  · rename_i hre
    obtain ⟨d, hd, rfl⟩ := map_eq_ok.1 h
    exact Or.inr ⟨hre, d, rfl, hd⟩
  · rename_i hre
    exact Or.inl ⟨hre, (Except.ok.inj h).symm⟩

theorem planTable_automatic {shipped : Sql.Relation}
    (h : planTable db baseline table shipped = .ok report)
    (hauto : Automatic report.discrepancies) :
    ∃ L cards checks, relationOid db table = some L ∧
      AutomaticReport db baseline table (describe table shipped) L cards checks ∧
      statementsOf report.discrepancies = statementsOf cards ++
        (statementsOf (compareColumns db table (describe table shipped) (describe table L)
            (skipped table L)).discrepancies ++
          (statementsOf
              (compareIndexes table (describe table shipped) (describe table L)).discrepancies ++
            statementsOf checks.discrepancies)) := by
  unfold planTable at h
  split at h
  · cases h
    exact absurd hauto not_automatic_manual
  rename_i L hL
  obtain ⟨hreadable, card, constraints, hcard, hconstraints, rfl⟩ := compareTable_eq_ok.1 h
  have hname : (describe table shipped).name = table := rfl
  simp only [hname, automatic_append] at hauto hconstraints ⊢
  obtain ⟨⟨⟨⟨hcardAuto, hcolumns⟩, hkey⟩, hindexes⟩, hchecks⟩ := hauto
  have hkey' : (¬ restructured table (describe table L) →
        (describe table L).primaryKey = (describe table shipped).primaryKey) ∧
      (if restructured table (describe table L) then []
        else compareKey table (describe table shipped) (describe table L)) = [] := by
    by_cases hre : restructured table (describe table L)
    · exact ⟨fun h => absurd hre h, if_pos hre⟩
    · rw [if_neg hre] at hkey ⊢
      exact ⟨fun _ => (compareKey_automatic hkey).1, (compareKey_automatic hkey).2⟩
  refine ⟨L, card, constraints, hL,
    ⟨hreadable, hcard, hcardAuto, hcolumns, hkey'.1, hindexes, hconstraints, hchecks⟩, ?_⟩
  rw [hkey'.2, List.append_nil]
  simp only [statementsOf_append, List.append_assoc]
  rfl

/-- A relation with the key of a shipped table is a table. -/
theorem isTable_of_primaryKey (heq : (describe table L).primaryKey = reference.primaryKey)
    (hkey : reference.primaryKey ≠ []) : L.kind.isTable = true := by
  refine L.key_isTable fun hnone => hkey ?_
  rw [← heq]
  show L.key.elim [] Sql.Key.columns = []
  rw [hnone]
  rfl

theorem find_of_primaryKey (h : relationOid db table = some L) (hkey : reference.primaryKey ≠ [])
    (heq : (describe table L).primaryKey = reference.primaryKey) :
    db.find table = some L ∧ L.kind.isTable = true := by
  have hkind := isTable_of_primaryKey heq hkey
  refine ⟨(relationOid_cases h).resolve_right ?_, hkind⟩
  rintro rfl
  cases hkind

/-! ### Tables that have all that the shipped ones have -/

/-- The table that was `L` has all that the shipped one has; the other columns are as they
were, and so are its kind and, but for the new ones, its indexes and its constraints. -/
structure Matches (table : Text) (reference : Relation) (L r' : Sql.Relation) : Prop where
  kind : r'.kind = L.kind
  primaryKey : (describe table r').primaryKey = reference.primaryKey
  columns : ∀ c ∈ comparedColumns table reference [], r'.column c.name = some c
  others : ∀ m, m ∉ reference.columnNames → r'.column m = L.column m
  indexes : r'.indexes = L.indexes ++ missingIndexes reference (describe table L)
  constraints : r'.constraints = L.constraints ++ missingChecks reference (describe table L)
  view : dailyView ∈ r'.names → dailyView ∈ L.names

theorem mem_comparedColumns {c : Column} : c ∈ comparedColumns table reference skip ↔
    c ∈ comparedColumns table reference [] ∧ c.name ∉ skip := by
  simp only [comparedColumns, List.mem_filter]
  simp
  tauto

theorem not_mem_compared {m : Text} (hm : m ∉ reference.columnNames) :
    m ∉ (comparedColumns table reference skip).map Column.name := fun h => by
  obtain ⟨c, hc, rfl⟩ := List.mem_map.1 h
  exact hm (List.mem_map_of_mem (List.mem_of_mem_filter hc))

/-- The names of a table after its indexes are created. -/
theorem Completed.mem_names (h : Completed table reference skip L r r')
    (hindexes : r.indexes = L.indexes) (hother : r.otherIndexes = L.otherIndexes) {n : Text}
    (hkey : n ∈ r.key.toList.map Sql.Key.name → n ∈ L.key.toList.map Sql.Key.name)
    (hnew : n ∉ reference.indexes.map (·.index.name)) (hn : n ∈ r'.names) : n ∈ L.names := by
  unfold Sql.Relation.names at hn ⊢
  rw [h.key, h.indexes, h.otherIndexes, hindexes, hother, List.map_append] at hn
  simp only [List.mem_append] at hn ⊢
  rcases hn with (hn | hn | hn) | hn
  · exact Or.inl (Or.inl (hkey hn))
  · exact Or.inl (Or.inr hn)
  · refine absurd ?_ hnew
    obtain ⟨i, hi, rfl⟩ := List.mem_map.1 hn
    obtain ⟨e, he, rfl⟩ := List.mem_map.1 hi
    exact List.mem_map_of_mem (f := fun e : IndexEntry => e.index.name) (List.mem_of_mem_filter he)
  · exact Or.inr hn

/-- The usage table before its columns are compared. -/
theorem Completed.matches_self (h : Completed table reference [] L L r')
    (hkey : (describe table L).primaryKey = reference.primaryKey)
    (hview : dailyView ∉ reference.indexes.map (·.index.name)) : Matches table reference L r' where
  kind := h.extends_.kind
  primaryKey := by
    rw [← hkey]
    exact congrArg (Option.elim · [] Sql.Key.columns) h.key
  columns := h.columns
  others := fun m hm => h.others m (not_mem_compared hm)
  indexes := h.indexes
  constraints := h.constraints
  view := h.mem_names rfl rfl id hview

/-- The name of the new key of the rate card. -/
theorem keyName_ne {name suffix : Text} (h : ¬ (ratesTable ++ Text.of "_pkey") <+: name) :
    ratesTable ++ Text.of "_pkey" ++ suffix ≠ name := fun heq => h ⟨suffix, heq⟩

/-- The rate card after its restructure and the comparison of the other columns. -/
theorem Completed.matches_dated {b : Day}
    (h : Completed ratesTable ratesReference [effectiveFrom] L r r') (hd : Dated b L r) :
    Matches ratesTable ratesReference L r' where
  kind := h.extends_.kind.trans hd.extends_.kind
  primaryKey := by
    obtain ⟨suffix, hkey⟩ := hd.key
    show r'.key.elim [] Sql.Key.columns = _
    rw [h.key, hkey]
    show ratesKey = ratesReference.primaryKey
    decide +kernel
  columns := by
    intro c hc
    by_cases hname : c.name ∈ [effectiveFrom]
    · have heq : ∀ c ∈ ratesReference.columns, c.name ∈ [effectiveFrom] →
          c = effectiveFromColumn := by decide +kernel
      rw [List.mem_singleton.1 hname, h.others _ (by decide +kernel), hd.effectiveFrom,
        heq c (List.mem_of_mem_filter hc) hname]
    · exact h.columns c (mem_comparedColumns.2 ⟨hc, hname⟩)
  others := by
    intro m hm
    have hkey : ∀ n ∈ ratesKey, n ∈ ratesReference.columnNames := by decide +kernel
    have hnot : m ∉ ratesKey := fun hmem => hm (hkey m hmem)
    rw [h.others m (not_mem_compared hm),
      hd.column m fun heq => hnot (heq ▸ List.mem_cons_of_mem _ List.mem_cons_self)]
    cases hc : L.column m with
    | none => rfl
    | some c => rw [Option.map_some, if_neg (Sql.Relation.column_name hc ▸ hnot)]
  indexes := h.indexes.trans (congrArg (· ++ _) hd.indexes)
  constraints := h.constraints.trans (congrArg (· ++ _) hd.constraints)
  view := by
    refine h.mem_names hd.indexes hd.otherIndexes (fun hn => ?_) (by decide +kernel)
    obtain ⟨suffix, hkey⟩ := hd.key
    rw [hkey, Option.toList_some, List.map_cons, List.map_nil, List.mem_singleton] at hn
    exact absurd hn.symm (keyName_ne (by decide +kernel))

/-! ### The parts of a plan -/

/-- The names of the new indexes are free in the schema. -/
def UsageRunnable (db : Database) (L : Sql.Relation) : Prop :=
  ∀ i ∈ missingIndexes usageReference (describe usageTable L), i.name ∉ db.names

/-- **The usage table** is put right exactly if the names of the new indexes are free. -/
theorem execute_usage (server : Server)
    (h : planTable db baseline usageTable shippedUsage = .ok report)
    (hauto : Automatic report.discrepancies) : ∃ L, db.find usageTable = some L ∧
      ((UsageRunnable db L ∧ Leads server usageTable db (statementsOf report.discrepancies)
          (Matches usageTable usageReference L)) ∨
        (¬ UsageRunnable db L ∧
          Sql.execute server db (statementsOf report.discrepancies) = none)) := by
  obtain ⟨L, cards, checks, hoid, hparts, hstatements⟩ := planTable_automatic h hauto
  have hplain : ¬ restructured usageTable (describe usageTable L) := fun hre =>
    absurd hre.1 (by decide +kernel)
  have hskip : skipped usageTable L = [] := if_neg hplain
  obtain ⟨-, rfl⟩ := (compareRateCard_cases hparts.card).resolve_right fun h => hplain h.1
  have hkey := hparts.key hplain
  obtain ⟨hfind, hkind⟩ := find_of_primaryKey hoid (by decide +kernel) hkey
  refine ⟨L, hfind, ?_⟩
  have hcolumns := hparts.columns
  rw [hskip] at hcolumns hstatements
  rw [hstatements]
  have hnochecks : missingChecks usageReference (describe usageTable L) = [] := rfl
  rcases execute_rest server shippedTable_usage hcolumns hparts.indexes hparts.constraints
    hparts.constraints_automatic hfind (.refl L) (fun c _ => agrees_self) hfind hkind with
    ⟨⟨hfree, -⟩, hleads⟩ | ⟨hnot, hnone⟩
  · exact Or.inl ⟨hfree, hleads.mono fun r' hr' => hr'.matches_self hkey (by decide +kernel)⟩
  · exact Or.inr ⟨fun hfree => hnot ⟨hfree, by simp [hnochecks]⟩, hnone⟩

/-- The rate card can be keyed anew if it has to be, and the names of the new constraints are
free on it; the key that then goes keeps none of them. -/
def RatesRunnable (L : Sql.Relation) : Prop :=
  (L.column effectiveFrom = none → Rekeyable L) ∧
    ∀ c ∈ missingChecks ratesReference (describe ratesTable L), c.name ∉ L.otherConstraints ∧
      (L.column effectiveFrom ≠ none → ∀ key, L.key = some key → key.name ≠ c.name)

theorem missingIndexes_rates : missingIndexes ratesReference (describe ratesTable L) = [] := rfl

theorem mem_describe_constraints {n : Text} :
    n ∈ (describe table L).constraints.map Constraint.name ↔
      n ∈ L.constraints.map Constraint.name := by
  simp [describe, List.mem_map]

/-- The names of the new constraints are free on a rate card that keeps its key. -/
theorem checks_free_iff (hdated : L.column effectiveFrom ≠ none)
    (hname : ∀ c ∈ missingChecks ratesReference (describe ratesTable L),
      c.name ∉ L.constraints.map Constraint.name) :
    (∀ c ∈ missingChecks ratesReference (describe ratesTable L), c.name ∉ L.constraintNames) ↔
      RatesRunnable L := by
  have hfree : ∀ c ∈ missingChecks ratesReference (describe ratesTable L),
      c.name ∉ L.constraintNames ↔
        c.name ∉ L.otherConstraints ∧ ∀ key, L.key = some key → key.name ≠ c.name := by
    intro c hc
    have hn := hname c hc
    simp only [Sql.Relation.constraintNames, List.mem_append, not_or, hn, not_false_iff, and_true]
    rw [and_comm]
    refine and_congr_right fun _ => ?_
    cases L.key <;> simp [eq_comm]
  exact ⟨fun h => ⟨fun hnone => absurd hnone hdated, fun c hc =>
      ⟨((hfree c hc).1 (h c hc)).1, fun _ => ((hfree c hc).1 (h c hc)).2⟩⟩,
    fun h c hc => (hfree c hc).2 ⟨(h.2 c hc).1, (h.2 c hc).2 hdated⟩⟩

/-- The names of the new constraints are free on a rate card with a new key. -/
theorem checks_free_iff_of_dated {b : Day} (hnew : L.column effectiveFrom = none)
    (hrekeyable : Rekeyable L) (hd : Dated b L r)
    (hname : ∀ c ∈ missingChecks ratesReference (describe ratesTable L),
      c.name ∉ L.constraints.map Constraint.name) :
    (∀ c ∈ missingChecks ratesReference (describe ratesTable L), c.name ∉ r.constraintNames) ↔
      RatesRunnable L := by
  obtain ⟨suffix, hkey⟩ := hd.key
  have hshipped : ∀ c ∈ ratesReference.constraints,
      ¬ (ratesTable ++ Text.of "_pkey") <+: c.name := by decide +kernel
  have hfree : ∀ c ∈ missingChecks ratesReference (describe ratesTable L),
      c.name ∉ r.constraintNames ↔ c.name ∉ L.otherConstraints := by
    intro c hc
    have hn := hname c hc
    have hne : c.name ≠ ratesTable ++ Text.of "_pkey" ++ suffix :=
      (keyName_ne (hshipped c (List.mem_of_mem_filter hc))).symm
    simp only [Sql.Relation.constraintNames, hkey, hd.constraints, hd.otherConstraints,
      List.mem_append, not_or, hn, not_false_iff, and_true, Option.toList_some, List.map_cons,
      List.map_nil, List.mem_singleton, hne, true_and]
  exact ⟨fun h => ⟨fun _ => hrekeyable, fun c hc =>
      ⟨(hfree c hc).1 (h c hc), fun hdated => absurd hnew hdated⟩⟩,
    fun h c hc => (hfree c hc).2 (h.2 c hc).1⟩

/-- What becomes of a rate card without effective dates. -/
def Redated (baseline : Option Day) (L r' : Sql.Relation) : Prop :=
  ∃ b r, baseline = some b ∧ Dated b L r ∧
    Completed ratesTable ratesReference [effectiveFrom] L r r'

/-- A rate card without effective dates gets them, and then the rest. -/
theorem execute_legacyRates (server : Server) {checks : Report} {d : Discrepancy}
    {ss : List Statement} (hoid : relationOid db₀ ratesTable = some L)
    (hparts : AutomaticReport db₀ baseline ratesTable ratesReference L [d] checks)
    (hre : restructured ratesTable (describe ratesTable L))
    (hd : rateCardDiscrepancy db₀ ratesTable ratesReference (describe ratesTable L) baseline =
      .ok d)
    (hname : ∀ c ∈ missingChecks ratesReference (describe ratesTable L),
      c.name ∉ L.constraints.map Constraint.name)
    (hss : ss = statementsOf [d] ++
      (statementsOf (compareColumns db₀ ratesTable ratesReference (describe ratesTable L)
          (skipped ratesTable L)).discrepancies ++
        (statementsOf
            (compareIndexes ratesTable ratesReference (describe ratesTable L)).discrepancies ++
          statementsOf checks.discrepancies)))
    (hdb : db.find ratesTable = db₀.find ratesTable) :
    db₀.find ratesTable = some L ∧
      ((RatesRunnable L ∧ Leads server ratesTable db ss (Redated baseline L)) ∨
        (¬ RatesRunnable L ∧ Sql.execute server db ss = none)) := by
  have hnew : L.column effectiveFrom = none := hre.2
  have hauto' := hparts.card_automatic d List.mem_cons_self
  have hfind : db₀.find ratesTable = some L := by
    refine (relationOid_cases hoid).resolve_right ?_
    rintro rfl
    rcases rateCardDiscrepancy_cases hd with ⟨hmanual, -⟩ | ⟨b, -, -, -, hpresent, -⟩
    · rw [hauto'] at hmanual
      cases hmanual
    · -- the rows of an index are asked for
      have hasks : asksRows ratesReference
          (describe ratesTable (indexRelation (db₀.attributes ratesTable))) = true :=
        asksRows_of_restructured hre hpresent
      have hreadable := hparts.readable
      rw [checkReadable, hasks] at hreadable
      cases hreadable
  have hcolumns := hparts.columns
  have hskip : skipped ratesTable L = [effectiveFrom] := if_pos hre
  have hone : statementsOf [d] = d.statements := List.flatMap_singleton ..
  rw [hskip] at hcolumns hss
  rw [hss, hone]
  refine ⟨hfind, ?_⟩
  rcases execute_restructure server hd hauto' hfind hnew (hdb.trans hfind) with
    ⟨hrekeyable, b, hb, db₁, r₁, hexec₁, halters₁, hr₁, hdated⟩ | ⟨hnot, hnone⟩
  · rw [Sql.execute_append, hexec₁, Option.bind_some]
    rcases execute_rest server (shippedTable_rates [effectiveFrom] (Or.inr rfl)) hcolumns
      hparts.indexes hparts.constraints hparts.constraints_automatic hfind hdated.extends_
      (fun c hc => agrees_of_dated hdated hc) hr₁ (hdated.extends_.kind ▸ hrekeyable.1) with
      ⟨⟨-, hfree⟩, db₂, r₂, hexec₂, halters₂, hr₂, hcompleted⟩ | ⟨hnot, hnone⟩
    · refine Or.inl ⟨(checks_free_iff_of_dated hnew hrekeyable hdated hname).1 hfree, db₂, r₂,
        ?_, halters₁.trans halters₂, hr₂, b, r₁, hb, hdated, hcompleted⟩
      rw [Sql.execute_append, hexec₁, Option.bind_some, hexec₂]
    · exact Or.inr ⟨fun hrun => hnot ⟨by simp [missingIndexes_rates],
        (checks_free_iff_of_dated hnew hrekeyable hdated hname).2 hrun⟩, hnone⟩
  · refine Or.inr ⟨fun hrun => hnot (hrun.1 hnew), ?_⟩
    rw [Sql.execute_append, hnone]
    rfl

/-- **The rate card** is put right exactly if nothing rests on what it has to give up, and the
names of the new constraints are free. -/
theorem execute_rates (server : Server)
    (h : planTable db₀ baseline ratesTable shippedRates = .ok report)
    (hauto : Automatic report.discrepancies) (hdb : db.find ratesTable = db₀.find ratesTable) :
    ∃ L, db₀.find ratesTable = some L ∧
      ((RatesRunnable L ∧ Leads server ratesTable db (statementsOf report.discrepancies)
          (Matches ratesTable ratesReference L)) ∨
        (¬ RatesRunnable L ∧
          Sql.execute server db (statementsOf report.discrepancies) = none)) := by
  obtain ⟨L, cards, checks, hoid, hparts, hstatements⟩ := planTable_automatic h hauto
  have hname : ∀ c ∈ missingChecks ratesReference (describe ratesTable L),
      c.name ∉ L.constraints.map Constraint.name := fun c hc hmem =>
    ((compareConstraints_automatic hparts.constraints hparts.constraints_automatic).2 c hc).name
      (mem_describe_constraints.2 hmem)
  rcases compareRateCard_cases hparts.card with ⟨hre, rfl⟩ | ⟨hre, d, rfl, hd⟩
  · -- a rate card with effective dates
    have hindexes : ∀ i ∈ missingIndexes ratesReference (describe ratesTable L),
        i.name ∉ db.names := by simp [missingIndexes_rates]
    have hcolumns := hparts.columns
    rw [hstatements]
    have hdated : L.column effectiveFrom ≠ none := fun hnone => hre ⟨rfl, hnone⟩
    have hkey := hparts.key hre
    obtain ⟨hfind, hkind⟩ := find_of_primaryKey hoid (by decide +kernel) hkey
    have hskip : skipped ratesTable L = [] := if_neg hre
    rw [hskip] at hcolumns ⊢
    refine ⟨L, hfind, ?_⟩
    rcases execute_rest server (shippedTable_rates [] (Or.inl rfl)) hcolumns hparts.indexes
      hparts.constraints hparts.constraints_automatic hfind (.refl L) (fun c _ => agrees_self)
      (hdb.trans hfind) hkind with ⟨⟨-, hfree⟩, hleads⟩ | ⟨hnot, hnone⟩
    · exact Or.inl ⟨(checks_free_iff hdated hname).1 hfree,
        hleads.mono fun r' hr' => hr'.matches_self hkey (by decide +kernel)⟩
    · exact Or.inr ⟨fun hrun => hnot ⟨hindexes, (checks_free_iff hdated hname).2 hrun⟩, hnone⟩
  · -- a rate card that is restructured first
    obtain ⟨hfind, hrates⟩ := execute_legacyRates server hoid hparts hre hd hname hstatements hdb
    refine ⟨L, hfind, ?_⟩
    rcases hrates with ⟨hrun, hleads⟩ | hnone
    · exact Or.inl ⟨hrun, hleads.mono fun r' ⟨_, _, _, hdated, hcompleted⟩ =>
        hcompleted.matches_dated hdated⟩
    · exact Or.inr hnone

/-- The columns of the shipped view. -/
def dailyColumns : List Text := shippedDaily.columns.map Column.name

/-- Nothing rests on a view that is created anew. -/
def ViewRunnable (v : Sql.Relation) : Prop :=
  v.columns.map Column.name ≠ dailyColumns → v.dependents = []

/-- A view with the columns of the shipped one. -/
def ViewMatches (v : Sql.Relation) : Prop :=
  v.kind = .view ∧ v.columns.map Column.name = dailyColumns

theorem planView_automatic (h : Automatic (planView db).discrepancies) :
    (relationOid db dailyView = none ∧
      statementsOf (planView db).discrepancies = [.createView shippedDaily]) ∨
    ∃ v, db.find dailyView = some v ∧ v.kind = .view ∧
      ((v.columns.map Column.name = dailyColumns ∧
          statementsOf (planView db).discrepancies = []) ∨
        (v.columns.map Column.name ≠ dailyColumns ∧
          statementsOf (planView db).discrepancies =
            [.dropView dailyView, .createView shippedDaily])) := by
  unfold planView at h ⊢
  cases hoid : relationOid db dailyView with
  | none => exact Or.inl ⟨rfl, statementsOf_automatic⟩
  | some v =>
    rw [hoid, Option.map_some] at h
    rw [Option.map_some]
    unfold compareView at h ⊢
    dsimp only at h ⊢
    have hkind : (describe dailyView v).kind = v.kind := rfl
    have hreference : (describe dailyView shippedDaily.relation).kind = .view := rfl
    have hcolumns : (describe dailyView v).columnNames = v.columns.map Column.name := rfl
    have hshipped : (describe dailyView shippedDaily.relation).columnNames = dailyColumns := rfl
    rw [hkind, hreference, hcolumns, hshipped] at h ⊢
    by_cases hview : v.kind ≠ .view
    · rw [if_pos hview] at h
      exact absurd h not_automatic_manual
    rw [if_neg hview] at h ⊢
    rw [not_not] at hview
    have hfind : db.find dailyView = some v := by
      refine (relationOid_cases hoid).resolve_right ?_
      rintro rfl
      cases hview
    refine Or.inr ⟨v, hfind, hview, ?_⟩
    by_cases hsame : v.columns.map Column.name = dailyColumns
    · rw [if_pos hsame]
      exact Or.inl ⟨hsame, rfl⟩
    · rw [if_neg hsame] at h ⊢
      by_cases hdependents : viewDependents db dailyView ≠ []
      · rw [if_pos hdependents] at h
        exact absurd h not_automatic_manual
      · rw [if_neg hdependents]
        exact Or.inr ⟨hsame, statementsOf_automatic⟩

/-- The view after its statements. -/
theorem viewMatches_of_execute {server : Server} (hauto : Automatic (planView db₀).discrepancies)
    (hdb : db.find dailyView = db₀.find dailyView)
    (h : Sql.execute server db (statementsOf (planView db₀).discrepancies) = some db') :
    Database.Alters dailyView db db' ∧ ∃ v, db'.find dailyView = some v ∧ ViewMatches v := by
  have hcreate : ∀ {d : Database}, Sql.execute server d [.createView shippedDaily] = some db' →
      ∃ v, db'.find dailyView = some v ∧ ViewMatches v := fun {d} hexec => by
    rw [Sql.execute_cons, Option.bind_eq_some_iff] at hexec
    obtain ⟨d', hd, hnil⟩ := hexec
    cases hnil
    rw [Sql.exec] at hd
    split at hd
    · cases hd
      exact ⟨shippedDaily.relation, Sql.Database.find_set_self _ _, rfl, rfl⟩
    · cases hd
  have htarget : ∀ s ∈ statementsOf (planView db₀).discrepancies, s.target = dailyView := by
    rcases planView_automatic hauto with ⟨-, hss⟩ | ⟨v, -, -, ⟨-, hss⟩ | ⟨-, hss⟩⟩
    all_goals
      rw [hss]
      decide
  refine ⟨Sql.execute_alters htarget h, ?_⟩
  rcases planView_automatic hauto with ⟨-, hss⟩ | ⟨v, hv, hkind, ⟨hsame, hss⟩ | ⟨-, hss⟩⟩
  · exact hcreate (hss ▸ h)
  · rw [hss] at h
    cases h
    exact ⟨v, hdb.trans hv, hkind, hsame⟩
  · rw [hss, Sql.execute_cons, Option.bind_eq_some_iff] at h
    obtain ⟨d, -, hexec⟩ := h
    exact hcreate hexec

/-- **The view** is put right exactly if nothing rests on it, once its columns are there and
its name is no other one's. -/
theorem execute_view (server : Server) (hauto : Automatic (planView db₀).discrepancies)
    (hdb : db.find dailyView = db₀.find dailyView)
    (hname : ∀ n r, db.find n = some r → dailyView ∉ r.names)
    (hsources : ∀ source ∈ shippedDaily.sources, ∃ r ∈ db.find source.1,
      ∀ c ∈ source.2, r.column c ≠ none) :
    (Sql.execute server db (statementsOf (planView db₀).discrepancies)).isSome ↔
      ∀ v, db₀.find dailyView = some v → ViewRunnable v := by
  rcases planView_automatic hauto with ⟨hoid, hss⟩ | ⟨v, hv, hkind, ⟨hsame, hss⟩ | ⟨hdiff, hss⟩⟩
  · -- the view is absent
    have hnone : db₀.find dailyView = none := by
      unfold relationOid at hoid
      split at hoid
      · cases hoid
      · assumption
    have hfree : dailyView ∉ db.names := fun hmem => by
      obtain ⟨n, r, hr, hn⟩ := Database.mem_names.1 hmem
      rcases hn with rfl | hn
      · rw [hdb, hnone] at hr
        cases hr
      · exact hname n r hr hn
    rw [hss, Sql.execute_cons, Sql.exec, if_pos ⟨hfree, hsources⟩]
    simp [hnone]
  · -- the view has the right columns
    rw [hss]
    refine iff_of_true rfl fun w hw hdiff => ?_
    obtain rfl : v = w := Option.some_injective _ (hv.symm.trans hw)
    exact absurd hsame hdiff
  · -- the view is created anew
    have hdrop : Sql.exec server db (.dropView dailyView) =
        if v.kind = .view ∧ v.dependents = [] then some (db.erase dailyView) else none := by
      rw [Sql.exec, hdb, hv]
    rw [hss, Sql.execute_cons, hdrop]
    by_cases hdep : v.dependents = []
    · have hfree : dailyView ∉ (db.erase dailyView).names := fun hmem => by
        obtain ⟨n, r, hr, hn⟩ := Database.mem_names.1 hmem
        have hne : n ≠ dailyView := by
          rintro rfl
          rw [Database.find_erase_self] at hr
          cases hr
        rw [Database.find_erase_of_ne hne] at hr
        exact hn.elim (fun h => hne h.symm) (hname n r hr)
      have hsources' : ∀ source ∈ shippedDaily.sources,
          ∃ r ∈ (db.erase dailyView).find source.1, ∀ c ∈ source.2, r.column c ≠ none := by
        intro source hsource
        have hne : ∀ source ∈ shippedDaily.sources, source.1 ≠ dailyView := by decide +kernel
        rw [Database.find_erase_of_ne (hne source hsource)]
        exact hsources source hsource
      rw [if_pos ⟨hkind, hdep⟩, Option.bind_some, Sql.execute_cons, Sql.exec,
        if_pos ⟨hfree, hsources'⟩]
      refine iff_of_true rfl fun w hw _ => ?_
      obtain rfl : v = w := Option.some_injective _ (hv.symm.trans hw)
      exact hdep
    · rw [if_neg fun h => hdep h.2]
      exact iff_of_false (by simp) fun h => hdep (h v hv hdiff)

/-! ### A plan -/

/-- What the planner does not look at leaves room for its statements. -/
structure Runnable (db : Database) : Prop where
  usage : ∀ L, db.find usageTable = some L → UsageRunnable db L
  rates : ∀ L, db.find ratesTable = some L → RatesRunnable L
  view : ∀ v, db.find dailyView = some v → ViewRunnable v

/-- The tables of `db'` have all that the shipped ones have, and the rest is as it was. -/
structure TablesMatch (db db' : Database) : Prop where
  usage : ∃ L r, db.find usageTable = some L ∧ db'.find usageTable = some r ∧
    Matches usageTable usageReference L r
  rates : ∃ L r, db.find ratesTable = some L ∧ db'.find ratesTable = some r ∧
    Matches ratesTable ratesReference L r
  others : ∀ n, n ≠ usageTable → n ≠ ratesTable → db'.find n = db.find n

variable {u : Report} {p : Plan}

/-- The two tables, one after the other. -/
theorem execute_tables (server : Server)
    (hu : planTable db baseline usageTable shippedUsage = .ok u)
    (hr : planTable db baseline ratesTable shippedRates = .ok report)
    (hauto : Automatic u.discrepancies) (hauto' : Automatic report.discrepancies) :
    (((∀ L, db.find usageTable = some L → UsageRunnable db L) ∧
        ∀ L, db.find ratesTable = some L → RatesRunnable L) ∧
      ∃ db', Sql.execute server db
        (statementsOf u.discrepancies ++ statementsOf report.discrepancies) = some db' ∧
          TablesMatch db db') ∨
    (¬ ((∀ L, db.find usageTable = some L → UsageRunnable db L) ∧
        ∀ L, db.find ratesTable = some L → RatesRunnable L) ∧
      Sql.execute server db
        (statementsOf u.discrepancies ++ statementsOf report.discrepancies) = none) := by
  obtain ⟨L, hL, husage⟩ := execute_usage server hu hauto
  have honly : ∀ M, db.find usageTable = some M → M = L := fun M hM =>
    Option.some_injective _ (hM.symm.trans hL)
  rw [Sql.execute_append]
  rcases husage with ⟨hrun, db₁, r₁, hexec₁, halters₁, hr₁, hmatches₁⟩ | ⟨hnot, hnone⟩
  · have hdb : db₁.find ratesTable = db.find ratesTable := halters₁.others _ (by decide +kernel)
    obtain ⟨M, hM, hrates⟩ := execute_rates server hr hauto' hdb
    have honly' : ∀ N, db.find ratesTable = some N → N = M := fun N hN =>
      Option.some_injective _ (hN.symm.trans hM)
    rw [hexec₁, Option.bind_some]
    rcases hrates with ⟨hrun', db₂, r₂, hexec₂, halters₂, hr₂, hmatches₂⟩ | ⟨hnot, hnone⟩
    · refine Or.inl ⟨⟨fun N hN => honly N hN ▸ hrun, fun N hN => honly' N hN ▸ hrun'⟩, db₂,
        hexec₂, ⟨L, r₁, hL, ?_, hmatches₁⟩, ⟨M, r₂, hM, hr₂, hmatches₂⟩, fun n hn hn' => ?_⟩
      · rw [halters₂.others _ (by decide +kernel), hr₁]
      · rw [halters₂.others n hn', halters₁.others n hn]
    · exact Or.inr ⟨fun h => hnot (h.2 M hM), hnone⟩
  · refine Or.inr ⟨fun h => hnot (h.1 L hL), ?_⟩
    rw [hnone]
    rfl

/-- The columns that the view reads are there. -/
theorem TablesMatch.sources (h : TablesMatch db db') : ∀ source ∈ shippedDaily.sources,
    ∃ r ∈ db'.find source.1, ∀ c ∈ source.2, r.column c ≠ none := by
  obtain ⟨L, u, -, hu, husage⟩ := h.usage
  obtain ⟨M, r, -, hr, hrates⟩ := h.rates
  have hshipped : ∀ source ∈ shippedDaily.sources,
      (source.1 = usageTable ∧ ∀ c ∈ source.2,
        c ∈ (comparedColumns usageTable usageReference []).map Column.name) ∨
      (source.1 = ratesTable ∧ ∀ c ∈ source.2,
        c ∈ (comparedColumns ratesTable ratesReference []).map Column.name) := by
    decide +kernel
  intro source hsource
  rcases hshipped source hsource with ⟨htable, hcolumns⟩ | ⟨htable, hcolumns⟩
  · refine ⟨u, htable ▸ hu, fun c hc => ?_⟩
    obtain ⟨column, hcolumn, rfl⟩ := List.mem_map.1 (hcolumns c hc)
    rw [husage.columns column hcolumn]
    exact Option.some_ne_none column
  · refine ⟨r, htable ▸ hr, fun c hc => ?_⟩
    obtain ⟨column, hcolumn, rfl⟩ := List.mem_map.1 (hcolumns c hc)
    rw [hrates.columns column hcolumn]
    exact Option.some_ne_none column

/-- No index or key has the name of the view, before the tables are put right and after. -/
theorem TablesMatch.dailyView_free (h : TablesMatch db db') (hunique : db.names.Nodup)
    (hauto : Automatic (planView db).discrepancies) :
    ∀ n r, db'.find n = some r → dailyView ∉ r.names := by
  have hfree : ∀ n r, db.find n = some r → dailyView ∉ r.names := by
    intro n r hr hmem
    rcases planView_automatic hauto with ⟨hoid, -⟩ | ⟨v, hv, -⟩
    · -- an index of this name would have been found
      have hin : dailyView ∈ db.names := Database.mem_names.2 ⟨n, r, hr, Or.inr hmem⟩
      unfold relationOid at hoid
      split at hoid
      · cases hoid
      · rw [if_pos hin] at hoid
        cases hoid
    · exact Database.find_not_mem_names hunique hv hr hmem
  obtain ⟨L, u, hL, hu, husage⟩ := h.usage
  obtain ⟨M, s, hM, hs, hrates⟩ := h.rates
  intro n r hr hmem
  by_cases hn : n = usageTable
  · obtain rfl : u = r := Option.some_injective _ (hu.symm.trans (hn ▸ hr))
    exact hfree usageTable L hL (husage.view hmem)
  by_cases hn' : n = ratesTable
  · obtain rfl : s = r := Option.some_injective _ (hs.symm.trans (hn' ▸ hr))
    exact hfree ratesTable M hM (hrates.view hmem)
  · exact hfree n r (h.others n hn hn' ▸ hr) hmem

theorem statementsOf_plan {r : Report} (hp : p = ⟨u.discrepancies ++ (r.discrepancies ++
      (planView db).discrepancies), u.observations ++ (r.observations ++
      (planView db).observations), baseline⟩) :
    p.statements = (statementsOf u.discrepancies ++ statementsOf r.discrepancies) ++
      statementsOf (planView db).discrepancies := by
  rw [hp, List.append_assoc, ← statementsOf_append, ← statementsOf_append]
  rfl

/-- **A plan that promises to run by itself runs to its end exactly if what the planner does
not look at leaves room for it**: the names of its indexes and of its checks are free, nothing
rests on the key and on the view that it takes away, and the rate card is not divided by
columns that are not in its new key. -/
theorem runnable (server : Server) (db : Database) (baseline : Option Baseline) (p : Plan)
    (hunique : db.names.Nodup) (hp : plan db baseline = .ok p) (hmanual : p.manual = []) :
    (Sql.execute server db p.statements).isSome ↔ Runnable db := by
  obtain ⟨day, -, hplan⟩ := bind_eq_ok.1 hp
  obtain ⟨u, r, hu, hr, heq⟩ := planWith_eq_ok.1 hplan
  have hauto : Automatic p.discrepancies := plan_automatic.1 hmanual
  rw [heq, automatic_append, automatic_append] at hauto
  obtain ⟨hautoU, hautoR, hautoV⟩ := hauto
  rw [statementsOf_plan heq, Sql.execute_append]
  rcases execute_tables server hu hr hautoU hautoR with ⟨⟨hu', hr'⟩, db₁, hexec, hmatch⟩ |
    ⟨hnot, hnone⟩
  · have hview : db₁.find dailyView = db.find dailyView :=
      hmatch.others _ (by decide +kernel) (by decide +kernel)
    rw [hexec, Option.bind_some, execute_view server hautoV hview
      (hmatch.dailyView_free hunique hautoV) hmatch.sources]
    exact ⟨fun hv => ⟨hu', hr', hv⟩, fun h => h.view⟩
  · rw [hnone]
    exact iff_of_false (by simp) fun h => hnot ⟨h.usage, h.rates⟩

/-- The plan at the gateway's database runs. -/
theorem legacy_runs : ∃ p db', plan legacy operatorBaseline = .ok p ∧ p.manual = [] ∧
    Sql.execute plainServer legacy p.statements = some db' := by
  have hrun : ((plan legacy operatorBaseline).toOption.bind fun p =>
      if p.manual = [] then (Sql.execute plainServer legacy p.statements).map fun _ => true
      else none) = some true := by
    decide +kernel
  obtain ⟨p, hp, hrest⟩ := Option.bind_eq_some_iff.1 hrun
  split at hrest
  · rename_i hmanual
    obtain ⟨db', hdb', -⟩ := Option.map_eq_some_iff.1 hrest
    exact ⟨p, db', eq_ok_of_toOption hp, hmanual, hdb'⟩
  · cases hrest

/-- At the gateway's database, the plan runs: there is room for all of it. -/
theorem runnable_legacy : ∃ p, plan legacy operatorBaseline = .ok p ∧ p.manual = [] ∧
    (Sql.execute plainServer legacy p.statements).isSome ∧ Runnable legacy := by
  obtain ⟨p, db', hplan, hmanual, hdb'⟩ := legacy_runs
  have hsome : (Sql.execute plainServer legacy p.statements).isSome := by rw [hdb']; rfl
  exact ⟨p, hplan, hmanual, hsome, (runnable plainServer legacy operatorBaseline p
    (by decide +kernel) hplan hmanual).1 hsome⟩

/-- What is left of an earlier usage table, under another name and with its index. -/
def archive : Sql.Relation :=
  { bare .table [shippedColumn "ts" "timestamp with time zone" false none] (by decide +kernel) with
    indexes := [shippedIndex "gateway_usage_ts_idx" "(ts)" ["ts"]] }

/-- The gateway's database, with an index of another table under a shipped name. -/
def archived : Database := legacy.set (Text.of "gateway_usage_archive") archive

/-- The plan for this database needs no human, and cannot run. -/
theorem not_runnable_archived : archived.names.Nodup ∧
    ∃ p, plan archived operatorBaseline = .ok p ∧ p.manual = [] ∧
      Sql.execute plainServer archived p.statements = none := by
  refine ⟨by decide +kernel, ?_⟩
  have hrun : ((plan archived operatorBaseline).toOption.bind fun p =>
      if p.manual = [] then some (Sql.execute plainServer archived p.statements).isNone
      else none) = some true := by
    decide +kernel
  obtain ⟨p, hp, hrest⟩ := Option.bind_eq_some_iff.1 hrun
  split at hrest
  · rename_i hmanual
    exact ⟨p, eq_ok_of_toOption hp, hmanual,
      Option.isNone_iff_eq_none.1 (Option.some_injective _ hrest)⟩
  · cases hrest

end Tokenweir.Reconcile
