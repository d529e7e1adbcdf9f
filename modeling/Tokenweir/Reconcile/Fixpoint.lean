import Tokenweir.Reconcile.Execution

/-!
# Planning again

What a second plan finds after a plan without discrepancies that need a human was executed:
nothing, unless the usage table is partitioned and had an index to be created.

* `planTable_eq_nil_iff`, when the report on a table that matches the shipped one is empty;
* `Matches.shapes_iff`, the shapes of the indexes that were created;
* `reconciled_of_execute`, the database after a plan; `fixpoint`.
-/

namespace Tokenweir.Reconcile

open Sql (Kind Column Constraint Database Statement Day Value Server Expression Leads)

variable {db db' : Database} {table : Text} {L r r' shipped : Sql.Relation}
  {baseline : Option Day} {reference live : Relation} {report : Report}

/-! ### Nothing to report -/

theorem compareColumn_eq_nil {c : Column} (h : live.column c.name = some c) :
    compareColumn db table live c = [] := by
  unfold compareColumn
  dsimp only
  rw [h]
  dsimp only
  rw [if_neg (by simp), if_neg (by simp), if_neg (by simp)]
  cases hc : c.notNull <;> simp [compareNullability, compareDefault, hc]

theorem compareColumns_eq_nil
    (hcolumns : ∀ c ∈ comparedColumns table reference [], live.column c.name = some c)
    (hextra : ∀ c ∈ live.columns, c.name ∉ reference.columnNames → isExempt table c.name = false →
      table = usageTable → isUnwritable c = false) :
    (compareColumns db table reference live []).discrepancies = [] := by
  refine List.append_eq_nil_iff.2 ⟨List.flatMap_eq_nil_iff.2 fun c hc =>
    compareColumn_eq_nil (hcolumns c hc), List.flatMap_eq_nil_iff.2 fun c hc => ?_⟩
  obtain ⟨hmem, hnot⟩ := List.mem_filter.1 hc
  have hwritable := hextra c hmem (by simpa using (by simpa using hnot : _ ∧ _).1)
    (by simpa using (by simpa using hnot : _ ∧ _).2)
  unfold extraColumn
  by_cases husage : table = usageTable
  · simp [hwritable husage]
  · simp only [if_neg husage]
    split <;> rfl

theorem compareIndexes_eq_nil_iff (table : Text) : (compareIndexes table reference live).discrepancies = [] ↔
    ∀ e ∈ reference.indexes, e.shape ∈ live.indexes.map IndexEntry.shape := by
  show reference.indexes.flatMap (compareIndex table live) = [] ↔ _
  rw [List.flatMap_eq_nil_iff]
  refine forall₂_congr fun e _ => ?_
  unfold compareIndex
  dsimp only
  by_cases hshape : e.shape ∈ live.indexes.map IndexEntry.shape
  · rw [if_pos hshape]
    exact iff_of_true rfl hshape
  · rw [if_neg hshape]
    refine iff_of_false ?_ hshape
    split <;> exact List.cons_ne_nil _ _

theorem compareConstraints_eq_nil (db : Database) (table : Text) (h : ∀ c ∈ reference.constraints,
    c.definition ∈ live.constraints.map Constraint.definition) :
    ∃ checks, compareConstraints db table reference live = .ok checks ∧
      checks.discrepancies = [] := by
  have hall : ∀ cs : List Constraint,
      (∀ c ∈ cs, c.definition ∈ live.constraints.map Constraint.definition) →
      cs.mapM (compareConstraint db table live) = .ok (cs.map fun _ => []) := by
    intro cs hcs
    induction cs with
    | nil => rfl
    | cons c cs ih =>
      refine mapM_cons_eq_ok.2 ⟨[], _, ?_, ih fun d hd => hcs d (List.mem_cons_of_mem c hd), rfl⟩
      unfold compareConstraint
      exact if_pos (hcs c List.mem_cons_self)
  refine ⟨_, map_eq_ok.2 ⟨_, hall _ h, rfl⟩, ?_⟩
  show (reference.constraints.map fun _ => ([] : List Discrepancy)).flatten = []
  rw [List.flatten_eq_nil_iff]
  intro ds hds
  obtain ⟨-, -, rfl⟩ := List.mem_map.1 hds
  rfl

/-- The report on a table that has all of the shipped one but perhaps indexes is empty exactly
if it has these as well. -/
theorem planTable_eq_nil_iff (hfind : db.find table = some r)
    (hdated : ¬ restructured table (describe table r))
    (hcolumns : ∀ c ∈ comparedColumns table (describe table shipped) [], r.column c.name = some c)
    (hextra : ∀ c ∈ r.columns, c.name ∉ (describe table shipped).columnNames →
      isExempt table c.name = false → table = usageTable → isUnwritable c = false)
    (hkey : (describe table r).primaryKey = (describe table shipped).primaryKey)
    (hkeyed : (describe table shipped).primaryKey ≠ [])
    (hchecks : ∀ c ∈ (describe table shipped).constraints,
      c.definition ∈ (describe table r).constraints.map Constraint.definition) :
    (∃ report, planTable db baseline table shipped = .ok report ∧ report.discrepancies = []) ↔
      ∀ e ∈ (describe table shipped).indexes,
        e.shape ∈ (describe table r).indexes.map IndexEntry.shape := by
  obtain ⟨checks, hok, hnil⟩ :=
    compareConstraints_eq_nil db table hchecks
  have hcard : compareRateCard db baseline (describe table shipped) (describe table r) = .ok [] :=
    if_neg hdated
  have hreport : planTable db baseline table shipped = .ok
      ⟨(compareIndexes table (describe table shipped) (describe table r)).discrepancies,
        (compareColumns db table (describe table shipped) (describe table r) []).observations ++
          (compareIndexes table (describe table shipped) (describe table r)).observations ++
            checks.observations⟩ := by
    unfold planTable relationOid
    rw [hfind]
    have hreadable : checkReadable (describe table shipped) (describe table r) = .ok () :=
      checkReadable_of_isTable (isTable_of_primaryKey hkey hkeyed)
    refine compareTable_eq_ok.2 ⟨hreadable, [], checks, hcard, hok, ?_⟩
    have hname : (describe table shipped).name = table := rfl
    have hkeys : compareKey table (describe table shipped) (describe table r) = [] :=
      if_neg (not_not.2 hkey)
    have hnone : (compareColumns db table (describe table shipped) (describe table r)
        []).discrepancies = [] := compareColumns_eq_nil hcolumns hextra
    simp only [hname, if_neg hdated, hkeys, hnil, hnone, List.nil_append, List.append_nil]
  rw [← compareIndexes_eq_nil_iff table, hreport]
  constructor
  · rintro ⟨report, heq, hempty⟩
    obtain rfl := Except.ok.inj heq
    exact hempty
  · exact fun h => ⟨_, rfl, h⟩

/-! ### Shapes and definitions -/

theorem mem_shapes {shape : Text} : shape ∈ (describe table r).indexes.map IndexEntry.shape ↔
    ∃ i ∈ r.indexes, indexShape (i.definition table r.kind) = shape := by
  simp [describe, indexEntry]

theorem mem_definitions {definition : Text} :
    definition ∈ (describe table r).constraints.map Constraint.definition ↔
      ∃ c ∈ r.constraints, c.definition.squash = definition := by
  simp [describe]

/-- A shipped index, rendered on a plain table, has its shape. -/
theorem shape_index (hkind : shipped.kind = .table) {e : IndexEntry}
    (he : e ∈ (describe table shipped).indexes) :
    indexShape (e.index.definition table .table) = e.shape := by
  simp only [describe, mem_sorted, List.mem_map] at he
  obtain ⟨i, -, rfl⟩ := he
  rw [indexEntry, hkind]

/-- On a partitioned table, an index is rendered with `ON ONLY`, and its shape is no shipped
one. -/
theorem shape_index_partitioned (by_ : List Text) {e e' : IndexEntry}
    (he : e ∈ usageReference.indexes) (he' : e' ∈ usageReference.indexes) :
    indexShape (e'.index.definition usageTable (.partitioned by_)) ≠ e.shape := by
  have hall : ∀ e' ∈ usageReference.indexes,
      indexShape (e'.index.definition usageTable (.partitioned [])) ∉
        usageReference.indexes.map IndexEntry.shape := by
    decide +kernel
  exact fun heq => hall e' he' (heq ▸ List.mem_map_of_mem he)

/-- The usage table has all shipped shapes in the end, unless it is partitioned and there was
an index to create. -/
theorem Matches.shapes_iff (h : Matches usageTable usageReference L r) :
    (∀ e ∈ usageReference.indexes, e.shape ∈ (describe usageTable r).indexes.map IndexEntry.shape) ↔
      ∀ by_, L.kind = .partitioned by_ →
        missingIndexes usageReference (describe usageTable L) = [] := by
  have hmissing : ∀ {i : Sql.Index}, i ∈ missingIndexes usageReference (describe usageTable L) →
      ∃ e ∈ usageReference.indexes, e.index = i ∧
        e.shape ∉ (describe usageTable L).indexes.map IndexEntry.shape := fun {i} hi => by
    obtain ⟨e, he, rfl⟩ := List.mem_map.1 hi
    exact ⟨e, List.mem_of_mem_filter he, rfl, by simpa using (List.mem_filter.1 he).2⟩
  constructor
  · intro hall by_ hby
    refine List.eq_nil_iff_forall_not_mem.2 fun i hi => ?_
    obtain ⟨e, he, -, hnot⟩ := hmissing hi
    -- the shape that was missing is neither an old one nor one of an index that was created
    obtain ⟨j, hj, hshape⟩ := mem_shapes.1 (hall e he)
    rw [h.indexes, List.mem_append] at hj
    rw [h.kind] at hshape
    rcases hj with hj | hj
    · exact hnot (mem_shapes.2 ⟨j, hj, hshape⟩)
    · obtain ⟨e', he', rfl, -⟩ := hmissing hj
      rw [hby] at hshape
      exact shape_index_partitioned by_ he he' hshape
  · intro hnone e he
    by_cases hlive : e.shape ∈ (describe usageTable L).indexes.map IndexEntry.shape
    · obtain ⟨i, hi, hshape⟩ := mem_shapes.1 hlive
      refine mem_shapes.2 ⟨i, ?_, h.kind.symm ▸ hshape⟩
      rw [h.indexes]
      exact List.mem_append_left _ hi
    · have hi : e.index ∈ missingIndexes usageReference (describe usageTable L) :=
        List.mem_map_of_mem (List.mem_filter.2 ⟨he, by simpa using hlive⟩)
      refine mem_shapes.2 ⟨e.index, ?_, ?_⟩
      · rw [h.indexes]
        exact List.mem_append_right _ hi
      · -- a table with a key that is not partitioned is a plain one
        have hkind : r.kind = .table := by
          have htable := isTable_of_primaryKey h.primaryKey (by decide +kernel)
          rw [h.kind] at htable ⊢
          cases hk : L.kind with
          | table => rfl
          | partitioned by_ =>
            rw [hnone by_ hk] at hi
            cases hi
          | view | materialized | other =>
            rw [hk] at htable
            cases htable
        rw [hkind]
        exact shape_index rfl he

/-- The constraints are there in the end, or they were before. -/
theorem Matches.definitions (h : Matches table reference L r)
    (hsquash : ∀ c ∈ reference.constraints, c.definition.squash = c.definition) :
    ∀ c ∈ reference.constraints,
      c.definition ∈ (describe table r).constraints.map Constraint.definition := by
  intro c hc
  rw [mem_definitions, h.constraints]
  by_cases hlive : c.definition ∈ (describe table L).constraints.map Constraint.definition
  · obtain ⟨d, hd, hdefinition⟩ := mem_definitions.1 hlive
    exact ⟨d, List.mem_append_left _ hd, hdefinition⟩
  · exact ⟨c, List.mem_append_right _ (List.mem_filter.2 ⟨hc, by simpa using hlive⟩),
      hsquash c hc⟩

/-- The columns that are not the package's are as they were. -/
theorem Matches.extras (h : Matches table reference L r)
    (hextra : ∀ c ∈ L.columns, c.name ∉ reference.columnNames → isExempt table c.name = false →
      table = usageTable → isUnwritable c = false) :
    ∀ c ∈ r.columns, c.name ∉ reference.columnNames → isExempt table c.name = false →
      table = usageTable → isUnwritable c = false := by
  intro c hc hname
  refine hextra c ?_ hname
  rw [Sql.Relation.mem_columns] at hc ⊢
  rw [← h.others c.name hname, hc]

/-! ### The plan after a plan -/

/-- The database has all of the shipped schema, but perhaps indexes. -/
structure Reconciled (db db' : Database) : Prop where
  usage : ∃ L r, db.find usageTable = some L ∧ db'.find usageTable = some r ∧
    Matches usageTable usageReference L r
  rates : ∃ L r, db.find ratesTable = some L ∧ db'.find ratesTable = some r ∧
    Matches ratesTable ratesReference L r
  view : ∃ v, db'.find dailyView = some v ∧ ViewMatches v

theorem reconciled_of_execute {server : Server} {p : Plan} (hp : planWith db baseline = .ok p)
    (hmanual : p.manual = []) (h : Sql.execute server db p.statements = some db') :
    Reconciled db db' := by
  obtain ⟨u, r, hu, hr, heq⟩ := planWith_eq_ok.1 hp
  have hauto : Automatic p.discrepancies := plan_automatic.1 hmanual
  rw [heq, automatic_append, automatic_append] at hauto
  obtain ⟨hautoU, hautoR, hautoV⟩ := hauto
  rw [statementsOf_plan heq, Sql.execute_append, Option.bind_eq_some_iff] at h
  obtain ⟨db₁, hexec₁, hexec₂⟩ := h
  rcases execute_tables server hu hr hautoU hautoR with ⟨-, db₂, hdb₂, hmatch⟩ | ⟨-, hnone⟩
  · obtain rfl : db₁ = db₂ := Option.some_injective _ (hexec₁.symm.trans hdb₂)
    have hview : db₁.find dailyView = db.find dailyView :=
      hmatch.others _ (by decide +kernel) (by decide +kernel)
    obtain ⟨halters, hv⟩ := viewMatches_of_execute hautoV hview hexec₂
    obtain ⟨L, s, hL, hs, husage⟩ := hmatch.usage
    obtain ⟨M, t, hM, ht, hrates⟩ := hmatch.rates
    refine ⟨⟨L, s, hL, ?_, husage⟩, ⟨M, t, hM, ?_, hrates⟩, hv⟩
    · rw [halters.others _ (by decide +kernel), hs]
    · rw [halters.others _ (by decide +kernel), ht]
  · rw [hexec₁] at hnone
    cases hnone

/-- The live columns that are not the package's do not hinder its writer. -/
theorem extras_writable (h : planTable db baseline usageTable shippedUsage = .ok report)
    (hauto : Automatic report.discrepancies) (hL : db.find usageTable = some L) :
    ∀ c ∈ L.columns, c.name ∉ usageReference.columnNames → isExempt usageTable c.name = false →
      isUnwritable c = false := by
  obtain ⟨M, cards, checks, hoid, hparts, -⟩ := planTable_automatic h hauto
  obtain rfl : M = L := by
    unfold relationOid at hoid
    rw [hL] at hoid
    exact (Option.some_injective _ hoid).symm
  intro c hc hname hexempt
  exact (compareColumns_automatic hparts.columns).2.2 c hc hname hexempt rfl

/-- The view is not reported again. -/
theorem planView_eq_nil {v : Sql.Relation} (hv : db.find dailyView = some v)
    (hmatch : ViewMatches v) : (planView db).discrepancies = [] := by
  have hoid : relationOid db dailyView = some v := by
    unfold relationOid
    rw [hv]
  unfold planView
  rw [hoid, Option.map_some]
  unfold compareView
  have hkind : ¬ (describe dailyView v).kind ≠ (describe dailyView shippedDaily.relation).kind :=
    not_not.2 hmatch.1
  have hcolumns : (describe dailyView v).columnNames =
      (describe dailyView shippedDaily.relation).columnNames := hmatch.2
  dsimp only
  rw [if_neg hkind, if_pos hcolumns]

/-- The second report on the usage table. -/
theorem replan_usage (h : Matches usageTable usageReference L r)
    (hextra : ∀ c ∈ L.columns, c.name ∉ usageReference.columnNames →
      isExempt usageTable c.name = false → isUnwritable c = false)
    (hfind : db.find usageTable = some r) (baseline : Option Day) :
    (∃ report, planTable db baseline usageTable shippedUsage = .ok report ∧
        report.discrepancies = []) ↔
      ∀ by_, L.kind = .partitioned by_ →
        missingIndexes usageReference (describe usageTable L) = [] := by
  rw [← h.shapes_iff]
  refine planTable_eq_nil_iff hfind (fun hre => absurd hre.1 (by decide +kernel)) h.columns
    (h.extras fun c hc hname hexempt _ => hextra c hc hname hexempt) h.primaryKey
    (by decide +kernel) ?_
  exact fun c hc => absurd hc List.not_mem_nil

/-- The second report on the rate card is empty. -/
theorem replan_rates (h : Matches ratesTable ratesReference L r)
    (hfind : db.find ratesTable = some r) (baseline : Option Day) :
    ∃ report, planTable db baseline ratesTable shippedRates = .ok report ∧
      report.discrepancies = [] := by
  have hdated : r.column effectiveFrom = some effectiveFromColumn :=
    h.columns effectiveFromColumn (by decide +kernel)
  refine (planTable_eq_nil_iff hfind ?_ h.columns (h.extras ?_) h.primaryKey (by decide +kernel)
    (h.definitions (by decide +kernel))).2 ?_
  · rintro ⟨-, hnone⟩
    rw [show (describe ratesTable r).column effectiveFrom = r.column effectiveFrom from rfl,
      hdated] at hnone
    cases hnone
  · exact fun _ _ _ _ htable => absurd htable (by decide +kernel)
  · exact fun e he => absurd he (List.not_mem_nil)

/-- **Reconciliation reaches a fixpoint exactly if the usage table is not partitioned or has
the shapes of all shipped indexes**: after the statements of a plan that needs no human, the
next plan, with any baseline, is empty. -/
theorem fixpoint (server : Server) (db db' : Database) (baseline again : Option Baseline)
    (p : Plan) (day : Option Day) (hp : plan db baseline = .ok p) (hmanual : p.manual = [])
    (h : Sql.execute server db p.statements = some db') (hagain : normaliseBaseline again = .ok day) :
    (∃ q, plan db' again = .ok q ∧ q.isEmpty = true) ↔
      ∀ L by_, db.find usageTable = some L → L.kind = .partitioned by_ →
        missingIndexes usageReference (describe usageTable L) = [] := by
  obtain ⟨day₀, -, hplan⟩ := bind_eq_ok.1 hp
  obtain ⟨u, s, hu, -, heq⟩ := planWith_eq_ok.1 hplan
  have hauto : Automatic p.discrepancies := plan_automatic.1 hmanual
  rw [heq, automatic_append] at hauto
  obtain ⟨⟨L, r, hL, hr, husage⟩, ⟨M, t, -, ht, hrates⟩, v, hv, hview⟩ :=
    reconciled_of_execute hplan hmanual h
  obtain ⟨card, hcard, hnil⟩ := replan_rates hrates ht day
  have husageIff := replan_usage husage (extras_writable hu hauto.1 hL) hr day
  have hplanIff : (∃ q, plan db' again = .ok q ∧ q.isEmpty = true) ↔
      ∃ report, planTable db' day usageTable shippedUsage = .ok report ∧
        report.discrepancies = [] := by
    constructor
    · rintro ⟨q, hq, hempty⟩
      obtain ⟨day', hday', hq'⟩ := bind_eq_ok.1 hq
      obtain rfl : day' = day := Except.ok.inj (hday'.symm.trans hagain)
      obtain ⟨u', r', hu', -, rfl⟩ := planWith_eq_ok.1 hq'
      refine ⟨u', hu', ?_⟩
      exact (List.append_eq_nil_iff.1 (List.isEmpty_iff.1 hempty)).1
    · rintro ⟨report, hreport, hempty⟩
      refine ⟨_, bind_eq_ok.2 ⟨day, hagain, planWith_eq_ok.2 ⟨report, card, hreport, hcard,
        rfl⟩⟩, ?_⟩
      rw [Plan.isEmpty, hempty, hnil, planView_eq_nil hv hview]
      rfl
  rw [hplanIff, husageIff]
  constructor
  · intro hall N by_ hN
    obtain rfl : L = N := Option.some_injective _ (hL.symm.trans hN)
    exact hall by_
  · exact fun hall by_ => hall L by_ hL

/-- At the gateway's database, the plan after the plan is empty. -/
theorem fixpoint_legacy : ∃ p db', plan legacy operatorBaseline = .ok p ∧ p.manual = [] ∧
    Sql.execute plainServer legacy p.statements = some db' ∧
    ∃ q, plan db' none = .ok q ∧ q.isEmpty = true := by
  obtain ⟨p, db', hplan, hmanual, hdb'⟩ := legacy_runs
  refine ⟨p, db', hplan, hmanual, hdb', (fixpoint plainServer legacy db' operatorBaseline none p
    none hplan hmanual hdb' rfl).2 ?_⟩
  intro L by_ hL hkind
  obtain rfl : legacyUsage = L := Option.some_injective _ hL
  cases hkind

/-- The gateway's database, with a usage table that is divided by `id`. -/
def partitioned : Database :=
  legacy.set usageTable { legacyUsage with
    kind := .partitioned [idColumn]
    key_isTable := fun _ => rfl }

/-- The indexes that the plan creates here are reported again. -/
theorem not_fixpoint_partitioned : ∃ p db', plan partitioned operatorBaseline = .ok p ∧
    p.manual = [] ∧ Sql.execute plainServer partitioned p.statements = some db' ∧
    ∃ q, plan db' none = .ok q ∧ q.isEmpty = false := by
  have hrun : ((plan partitioned operatorBaseline).toOption.bind fun p =>
      if p.manual = [] then (Sql.execute plainServer partitioned p.statements).bind fun db' =>
        (plan db' none).toOption.map fun q => q.isEmpty
      else none) = some false := by
    decide +kernel
  obtain ⟨p, hp, hrest⟩ := Option.bind_eq_some_iff.1 hrun
  split at hrest
  · rename_i hmanual
    obtain ⟨db', hdb', hagain⟩ := Option.bind_eq_some_iff.1 hrest
    obtain ⟨q, hq, hempty⟩ := Option.map_eq_some_iff.1 hagain
    exact ⟨p, db', eq_ok_of_toOption hp, hmanual, hdb', q, eq_ok_of_toOption hq, hempty⟩
  · cases hrest

end Tokenweir.Reconcile
