import Tokenweir.Lib.Except
import Tokenweir.Reconcile.Plan

/-!
# What the planner can report

One inversion lemma for each comparison, from which every fact about plans is derived.

* `planWith_eq_ok`, a plan is made of the reports on two tables and a view;
* `compareTable_eq_ok`, `rateCardDiscrepancy_cases`, `addColumnStatements_cases`;
* `Automatic`, a plan without questions to a human, and what each comparison then reports.
-/

namespace Tokenweir.Reconcile

open Sql (Kind Column Constraint Database Statement Day Value)

variable {db : Database} {relation : Text} {reference live : Relation} {baseline : Option Day}

/-! ### Results -/

theorem bind_eq_ok {α β : Type} {x : Except Failure α} {f : α → Except Failure β} {b : β} :
    x.bind f = .ok b ↔ ∃ a, x = .ok a ∧ f a = .ok b := Tokenweir.bind_eq_ok

theorem map_eq_ok {α β : Type} {x : Except Failure α} {f : α → β} {b : β} :
    x.map f = .ok b ↔ ∃ a, x = .ok a ∧ f a = b := by
  cases x with
  | error e => simp [Except.map]
  | ok a => simp [Except.map]

theorem eq_ok_of_toOption {α : Type} {x : Except Failure α} {a : α} (h : x.toOption = some a) :
    x = .ok a := by
  cases x with
  | error e => cases h
  | ok b => exact congrArg Except.ok (Option.some_injective _ h)

theorem mapM_cons_eq_ok {α β : Type} {f : α → Except Failure β} {a : α} {as : List α}
    {cs : List β} : (a :: as).mapM f = .ok cs ↔
      ∃ b bs, f a = .ok b ∧ as.mapM f = .ok bs ∧ cs = b :: bs := by
  rw [List.mapM_cons]
  show (f a).bind _ = _ ↔ _
  rw [bind_eq_ok]
  refine exists_congr fun b => ?_
  show _ ∧ (as.mapM f).bind _ = _ ↔ _
  rw [bind_eq_ok]
  constructor
  · rintro ⟨hb, bs, hbs, hcs⟩
    cases hcs
    exact ⟨bs, hb, hbs, rfl⟩
  · rintro ⟨bs, hb, hbs, rfl⟩
    exact ⟨hb, bs, hbs, rfl⟩

theorem exists_of_mem_mapM {α β : Type} {f : α → Except Failure β} {as : List α} {bs : List β}
    (h : as.mapM f = .ok bs) {b : β} (hb : b ∈ bs) : ∃ a ∈ as, f a = .ok b := by
  induction as generalizing bs with
  | nil =>
    cases h
    cases hb
  | cons a as ih =>
    obtain ⟨c, cs, hc, hcs, rfl⟩ := mapM_cons_eq_ok.1 h
    rcases List.mem_cons.1 hb with rfl | hb
    · exact ⟨a, List.mem_cons_self, hc⟩
    · obtain ⟨a', ha', hf⟩ := ih hcs hb
      exact ⟨a', List.mem_cons_of_mem a ha', hf⟩

/-! ### The plan as a whole -/

/-- The report on a table. -/
def planTable (db : Database) (baseline : Option Day) (name : Text) (shipped : Sql.Relation) :
    Except Failure Report :=
  match relationOid db name with
  | none => .ok ⟨[manual name (Text.of "table is absent from this database")], []⟩
  | some r => compareTable db baseline (describe name shipped) (describe name r)

/-- The report on the view. -/
def planView (db : Database) : Report :=
  compareView db dailyView (describe dailyView shippedDaily.relation)
    ((relationOid db dailyView).map (describe dailyView))

/-- The report on a table does not depend on what else is read. -/
theorem planRelation_table (db : Database) (baseline : Option Day) (shipped : Sql.Relation)
    {names : List Text} {name : Text} (hname : name ∈ names) (hkind : shipped.kind = .table) :
    planRelation db baseline (snapshot db names) (describe name shipped) =
      planTable db baseline name shipped := by
  have hget : get (snapshot db names) (describe name shipped).name =
      (relationOid db name).map (describe name) := get_snapshot hname
  have hk : ¬ (describe name shipped).kind ≠ .table := not_not.2 hkind
  simp only [planRelation, if_neg hk, hget, planTable]
  cases relationOid db name with
  | none => rfl
  | some r => rfl

theorem planRelation_view (db : Database) (baseline : Option Day) {names : List Text}
    (hname : dailyView ∈ names) :
    planRelation db baseline (snapshot db names) (describe dailyView shippedDaily.relation) =
      .ok (planView db) := by
  have hget : get (snapshot db names) (describe dailyView shippedDaily.relation).name =
      (relationOid db dailyView).map (describe dailyView) := get_snapshot hname
  have hk : (describe dailyView shippedDaily.relation).kind ≠ .table := by
    show Kind.view ≠ Kind.table
    decide
  simp only [planRelation, if_pos hk, hget]
  rfl

theorem planWith_eq_ok {p : Plan} : planWith db baseline = .ok p ↔
    ∃ u r, planTable db baseline usageTable shippedUsage = .ok u ∧
      planTable db baseline ratesTable shippedRates = .ok r ∧
      p = ⟨u.discrepancies ++ (r.discrepancies ++ (planView db).discrepancies),
        u.observations ++ (r.observations ++ (planView db).observations), baseline⟩ := by
  rw [planWith, ordered_reference, map_eq_ok]
  have hmem : ∀ n ∈ [usageTable, ratesTable, dailyView],
      n ∈ [usageTable, ratesTable, dailyView] := fun _ => id
  have husage := planRelation_table db baseline shippedUsage (hmem usageTable (by simp)) rfl
  have hrates := planRelation_table db baseline shippedRates (hmem ratesTable (by simp)) rfl
  have hdaily := planRelation_view db baseline (hmem dailyView (by simp))
  constructor
  · rintro ⟨reports, hreports, rfl⟩
    obtain ⟨u, us, hu, hus, rfl⟩ := mapM_cons_eq_ok.1 hreports
    obtain ⟨r, rs, hr, hrs, rfl⟩ := mapM_cons_eq_ok.1 hus
    obtain ⟨v, vs, hv, hvs, rfl⟩ := mapM_cons_eq_ok.1 hrs
    cases hvs
    obtain rfl : planView db = v := Except.ok.inj (hdaily.symm.trans hv)
    exact ⟨u, r, husage.symm.trans hu, hrates.symm.trans hr, by simp⟩
  · rintro ⟨u, r, hu, hr, rfl⟩
    refine ⟨[u, r, planView db], ?_, by simp⟩
    exact mapM_cons_eq_ok.2 ⟨u, _, husage.trans hu, mapM_cons_eq_ok.2 ⟨r, _, hrates.trans hr,
      mapM_cons_eq_ok.2 ⟨planView db, [], hdaily, rfl, rfl⟩, rfl⟩, rfl⟩

/-! ### The report on a table -/

/-- A restructure asks for the rows of the rate card first of all. -/
theorem asksRows_of_restructured (hre : restructured reference.name live)
    (hpresent : ∀ c ∈ keyColumns reference, live.column c ≠ none) :
    asksRows reference live = true := by
  have hall : (keyColumns reference).all (fun c => (live.column c).isSome) = true :=
    List.all_eq_true.2 fun c hc => Option.isSome_iff_ne_none.2 (hpresent c hc)
  rw [asksRows, hall, decide_eq_true hre]
  rfl

/-- The rows of a table can be asked for. -/
theorem checkReadable_of_isTable (h : live.kind.isTable = true) :
    checkReadable reference live = .ok () := by
  rw [checkReadable, Sql.Kind.isReadable_of_isTable h]
  rfl

theorem compareTable_eq_ok {report : Report} :
    compareTable db baseline reference live = .ok report ↔ checkReadable reference live = .ok () ∧
      ∃ card constraints, compareRateCard db baseline reference live = .ok card ∧
        compareConstraints db reference.name reference live = .ok constraints ∧
        report =
          let columns := compareColumns db reference.name reference live
            (if restructured reference.name live then [effectiveFrom] else [])
          let key := if restructured reference.name live then []
            else compareKey reference.name reference live
          let indexes := compareIndexes reference.name reference live
          ⟨card ++ columns.discrepancies ++ key ++ indexes.discrepancies ++
              constraints.discrepancies,
            columns.observations ++ indexes.observations ++ constraints.observations⟩ := by
  show (checkReadable reference live).bind _ = _ ↔ _
  rw [bind_eq_ok]
  refine Iff.trans ⟨fun ⟨_, h⟩ => h, fun h => ⟨(), h⟩⟩ (and_congr_right fun _ => ?_)
  show (compareRateCard db baseline reference live).bind _ = _ ↔ _
  rw [bind_eq_ok]
  refine exists_congr fun card => ?_
  show _ ∧ (compareConstraints db reference.name reference live).bind _ = _ ↔ _
  rw [bind_eq_ok]
  constructor
  · rintro ⟨hcard, constraints, hconstraints, hreport⟩
    exact ⟨constraints, hcard, hconstraints, (Except.ok.inj hreport).symm⟩
  · rintro ⟨constraints, hcard, hconstraints, rfl⟩
    exact ⟨hcard, constraints, hconstraints, rfl⟩

theorem rateCardDiscrepancy_cases {d : Discrepancy}
    (h : rateCardDiscrepancy db relation reference live baseline = .ok d) :
    (d.resolution = .manual ∧ d.statements = []) ∨
      ∃ b, baseline = some b ∧ d.resolution = .automatic ∧
        d.statements = restructure db relation reference b ∧
        (∀ c ∈ keyColumns reference, live.column c ≠ none) ∧
        (∀ c ∈ keyColumns reference, columnHasNulls db relation c = false) ∧
        rateCardDuplicates db relation live = .ok [] ∧
        rateCardUnpriceableSoloRows db relation live = .ok [] := by
  unfold rateCardDiscrepancy at h
  simp only [bind, Except.bind, pure, Except.pure] at h
  split at h
  · cases h
    exact Or.inl ⟨rfl, rfl⟩
  rename_i habsent
  split at h
  · cases h
  rename_i duplicates hduplicates
  split at h
  · split at h
    · cases h
    · cases h
      exact Or.inl ⟨rfl, rfl⟩
  rename_i hno
  split at h
  · cases h
  rename_i unpriceable hunpriceable
  split at h
  · split at h
    · cases h
    · cases h
      exact Or.inl ⟨rfl, rfl⟩
  rename_i hno'
  split at h
  · cases h
    exact Or.inl ⟨rfl, rfl⟩
  rename_i b
  split at h
  · cases h
    exact Or.inl ⟨rfl, rfl⟩
  rename_i hnull
  -- no probe has found anything
  cases h
  rw [not_not] at habsent hno hno' hnull
  rw [hno] at hduplicates
  rw [hno'] at hunpriceable
  rw [List.filter_eq_nil_iff] at habsent hnull
  refine Or.inr ⟨b, rfl, rfl, rfl, fun c hc hcol => habsent c hc (by simp [hcol]), fun c hc => ?_,
    hduplicates, hunpriceable⟩
  simpa using hnull c hc

/-- The statements that add a column: with a constant default, without any, or with a value
for the rows that are there. -/
theorem addColumnStatements_cases {column : Column} {ss : List Statement}
    (h : addColumnStatements relation column = .ok ss) :
    (∃ default, column.default = some default ∧ isConstantDefault default = true ∧
      ss = [.addColumn relation column.name column.type column.notNull (some (.sql default))]) ∨
    (column.default = none ∧ column.notNull = false ∧
      ss = [.addColumn relation column.name column.type false none]) ∨
    (column.default = none ∧ column.notNull = true ∧ ∃ value,
      backfillValue relation column.name = some value ∧
      ss = [.addColumn relation column.name column.type true (some (.sql value)),
        .dropDefault relation column.name]) := by
  unfold addColumnStatements at h
  split at h
  · rename_i default hdefault
    split at h
    · rename_i hconstant
      cases h
      exact Or.inl ⟨default, hdefault, hconstant, rfl⟩
    · cases h
  · rename_i hdefault
    split at h
    · rename_i hnull
      cases h
      exact Or.inr (Or.inl ⟨hdefault, hnull, rfl⟩)
    · rename_i hnull
      split at h
      · cases h
      · rename_i value hvalue
        cases h
        exact Or.inr (Or.inr ⟨hdefault, by simpa using hnull, value, hvalue, rfl⟩)

/-! ### Discrepancies that are all resolved automatically -/

/-- No discrepancy needs a human. -/
def Automatic (ds : List Discrepancy) : Prop := ∀ d ∈ ds, d.resolution = .automatic

/-- The statements of discrepancies. -/
def statementsOf (ds : List Discrepancy) : List Statement := ds.flatMap Discrepancy.statements

@[simp] theorem statementsOf_append {ds es : List Discrepancy} :
    statementsOf (ds ++ es) = statementsOf ds ++ statementsOf es :=
  List.flatMap_append

@[simp] theorem statementsOf_automatic {description : Text} {ss : List Statement} :
    statementsOf [automatic relation description ss] = ss :=
  List.flatMap_singleton ..

@[simp] theorem automatic_append {ds es : List Discrepancy} :
    Automatic (ds ++ es) ↔ Automatic ds ∧ Automatic es :=
  List.forall_mem_append

@[simp] theorem automatic_flatMap {α : Type} {as : List α} {f : α → List Discrepancy} :
    Automatic (as.flatMap f) ↔ ∀ a ∈ as, Automatic (f a) := by
  simp only [Automatic, List.mem_flatMap]
  exact ⟨fun h a ha d hd => h d ⟨a, ha, hd⟩, fun h d ⟨a, ha, hd⟩ => h a ha d hd⟩

@[simp] theorem not_automatic_manual {description : Text} :
    ¬ Automatic [manual relation description] := fun h => by
  cases h _ List.mem_cons_self

theorem plan_automatic {p : Plan} : p.manual = [] ↔ Automatic p.discrepancies := by
  rw [Plan.manual, List.filter_eq_nil_iff]
  refine forall₂_congr fun d _ => ?_
  cases hd : d.resolution <;> simp

/-- A column is added, or its type is right. -/
theorem compareColumn_automatic {column : Column}
    (h : Automatic (compareColumn db relation live column)) :
    (live.column column.name = none ∧ ∃ ss, addColumnStatements relation column = .ok ss ∧
      statementsOf (compareColumn db relation live column) = ss) ∨
    ∃ found, live.column column.name = some found ∧ found.generated = column.generated ∧
      found.identity = column.identity ∧ found.type = column.type ∧
      compareColumn db relation live column =
        compareNullability db relation column found ++ compareDefault relation column found := by
  unfold compareColumn at h ⊢
  dsimp only at h ⊢
  cases hfound : live.column column.name with
  | none =>
    rw [hfound] at h
    refine Or.inl ⟨rfl, ?_⟩
    dsimp only at h ⊢
    unfold missingColumn at h ⊢
    dsimp only at h ⊢
    cases hss : addColumnStatements relation column with
    | error refusal =>
      rw [hss] at h
      exact absurd h not_automatic_manual
    | ok ss => exact ⟨ss, rfl, statementsOf_automatic⟩
  | some found =>
    rw [hfound] at h
    dsimp only at h ⊢
    by_cases hgenerated : found.generated ≠ column.generated
    · rw [if_pos hgenerated] at h
      exact absurd h not_automatic_manual
    by_cases hidentity : found.identity ≠ column.identity
    · rw [if_neg hgenerated, if_pos hidentity] at h
      exact absurd h not_automatic_manual
    by_cases htype : found.type ≠ column.type
    · rw [if_neg hgenerated, if_neg hidentity, if_pos htype] at h
      exact absurd h not_automatic_manual
    rw [if_neg hgenerated, if_neg hidentity, if_neg htype]
    exact Or.inr ⟨found, rfl, not_not.1 hgenerated, not_not.1 hidentity, not_not.1 htype, rfl⟩

theorem compareNullability_automatic {column found : Column}
    (h : Automatic (compareNullability db relation column found)) :
    (found.notNull = column.notNull ∧ compareNullability db relation column found = []) ∨
    (column.notNull = true ∧ found.notNull = false ∧
      columnHasNulls db relation column.name = false ∧
      statementsOf (compareNullability db relation column found) =
        [.setNotNull relation column.name]) := by
  unfold compareNullability at h ⊢
  by_cases hset : column.notNull = true ∧ found.notNull = false
  · rw [if_pos hset] at h ⊢
    by_cases hnulls : columnHasNulls db relation column.name = true
    · rw [if_pos hnulls] at h
      exact absurd h not_automatic_manual
    · rw [if_neg hnulls]
      exact Or.inr ⟨hset.1, hset.2, by simpa using hnulls, statementsOf_automatic⟩
  · rw [if_neg hset] at h ⊢
    by_cases hrelax : found.notNull = true ∧ column.notNull = false
    · rw [if_pos hrelax] at h
      exact absurd h not_automatic_manual
    · rw [if_neg hrelax]
      refine Or.inl ⟨?_, rfl⟩
      cases hc : column.notNull <;> cases hf : found.notNull <;> simp [hc, hf] at hset hrelax ⊢

/-- The one statement that a difference of defaults takes. -/
theorem compareDefault_cases (relation : Text) (column found : Column) :
    (found.default = column.default ∧ compareDefault relation column found = []) ∨
    ∃ s, statementsOf (compareDefault relation column found) = [s] ∧ s.target = relation ∧
      ∀ server db, Sql.exec server db s =
        db.alter relation fun r => r.setDefault column.name column.default := by
  unfold compareDefault
  by_cases hdefault : found.default = column.default
  · rw [if_pos hdefault]
    exact Or.inl ⟨hdefault, rfl⟩
  · rw [if_neg hdefault]
    refine Or.inr ?_
    cases column.default with
    | none => exact ⟨_, statementsOf_automatic, rfl, fun _ _ => rfl⟩
    | some default => exact ⟨_, statementsOf_automatic, rfl, fun _ _ => rfl⟩

theorem extraColumn_automatic {column : Column}
    (h : Automatic (extraColumn relation column).discrepancies) :
    (extraColumn relation column).discrepancies = [] ∧
      (relation = usageTable → isUnwritable column = false) := by
  unfold extraColumn at h ⊢
  by_cases hunwritable : isUnwritable column = true
  · by_cases husage : relation = usageTable
    · simp only [if_pos hunwritable, if_pos husage] at h
      exact absurd h not_automatic_manual
    · simp only [if_pos hunwritable, if_neg husage]
      exact ⟨trivial, fun h => absurd h husage⟩
  · simp only [if_neg hunwritable]
    exact ⟨trivial, fun _ => by simpa using hunwritable⟩

theorem compareKey_automatic (h : Automatic (compareKey relation reference live)) :
    live.primaryKey = reference.primaryKey ∧ compareKey relation reference live = [] := by
  unfold compareKey at h ⊢
  by_cases hkey : live.primaryKey ≠ reference.primaryKey
  · rw [if_pos hkey] at h
    exact absurd h not_automatic_manual
  · rw [if_neg hkey]
    exact ⟨not_not.1 hkey, rfl⟩

/-- The indexes whose shapes a live table does not have. -/
def missingIndexes (reference live : Relation) : List Sql.Index :=
  (reference.indexes.filter (·.shape ∉ live.indexes.map IndexEntry.shape)).map IndexEntry.index

theorem compareIndexes_automatic
    (h : Automatic (compareIndexes relation reference live).discrepancies) :
    statementsOf (compareIndexes relation reference live).discrepancies =
      (missingIndexes reference live).map (.createIndex relation) := by
  unfold compareIndexes missingIndexes at *
  dsimp only at h ⊢
  rw [automatic_flatMap] at h
  generalize reference.indexes = entries at h ⊢
  induction entries with
  | nil => rfl
  | cons entry entries ih =>
    have hfirst := h entry List.mem_cons_self
    have hrest := ih fun e he => h e (List.mem_cons_of_mem entry he)
    rw [List.flatMap_cons, statementsOf_append, hrest]
    unfold compareIndex at hfirst ⊢
    dsimp only at hfirst ⊢
    by_cases hshape : entry.shape ∈ live.indexes.map IndexEntry.shape
    · rw [if_pos hshape, List.filter_cons_of_neg (by simpa using hshape)]
      rfl
    · rw [if_neg hshape] at hfirst ⊢
      rw [List.filter_cons_of_pos (by simpa using hshape)]
      split at hfirst
      · exact absurd hfirst not_automatic_manual
      · rename_i hname
        rw [if_neg hname, statementsOf_automatic]
        rfl

/-- The constraints whose definitions a live table does not have. -/
def missingChecks (reference live : Relation) : List Constraint :=
  reference.constraints.filter (·.definition ∉ live.constraints.map Constraint.definition)

/-- What the planner has seen of a check that it adds: its columns are there, no constraint
that it compares has its name, and the rows pass it. -/
structure Passes (db : Database) (relation : Text) (live : Relation) (constraint : Constraint) :
    Prop where
  columns : ∀ n ∈ constraint.columns, live.column n ≠ none
  name : constraint.name ∉ live.constraints.map Constraint.name
  rows : ∃ p, constraint.check = some p ∧
    ∀ r, db.find relation = some r → ∀ row ∈ r.rows, p.eval row ≠ some false

theorem checkConstraintViolations_false {constraint : Constraint}
    (h : checkConstraintViolations db relation live constraint = .ok (some false)) :
    ∃ p, constraint.check = some p ∧
      ∀ r, db.find relation = some r → ∀ row ∈ r.rows, p.eval row ≠ some false := by
  unfold checkConstraintViolations at h
  split at h
  · rename_i p _ hp
    refine ⟨p, hp, fun r hr row hrow hfalse => ?_⟩
    split at h
    · have hany := Option.some_injective _ (Except.ok.inj h)
      rw [hr, Option.any_some, List.any_eq_false] at hany
      exact hany row hrow (decide_eq_true hfalse)
    · cases h
  · cases h

theorem compareConstraint_automatic {constraint : Constraint} {ds : List Discrepancy}
    (h : compareConstraint db relation live constraint = .ok ds) (hds : Automatic ds) :
    (constraint.definition ∈ live.constraints.map Constraint.definition ∧ ds = []) ∨
    (constraint.definition ∉ live.constraints.map Constraint.definition ∧
      statementsOf ds = [.addCheck relation constraint] ∧ Passes db relation live constraint) := by
  unfold compareConstraint at h
  dsimp only at h
  split at h
  · rename_i hdefinition
    cases h
    exact Or.inl ⟨hdefinition, rfl⟩
  rename_i hdefinition
  split at h
  · cases h
    exact absurd hds not_automatic_manual
  rename_i habsent
  split at h
  · cases h
    exact absurd hds not_automatic_manual
  rename_i hname
  obtain ⟨violated, hviolated, rfl⟩ := map_eq_ok.1 h
  split at hds
  · exact absurd hds not_automatic_manual
  · exact absurd hds not_automatic_manual
  · refine Or.inr ⟨hdefinition, statementsOf_automatic, fun n hn hcolumn => ?_, hname,
      checkConstraintViolations_false hviolated⟩
    rw [not_not, List.filter_eq_nil_iff] at habsent
    refine habsent n hn (decide_eq_true fun hmem => ?_)
    obtain ⟨c, hc, rfl⟩ := List.mem_map.1 hmem
    rw [Relation.column, List.find?_eq_none] at hcolumn
    exact hcolumn c hc (decide_eq_true rfl)

theorem compareConstraints_automatic {report : Report}
    (h : compareConstraints db relation reference live = .ok report)
    (hauto : Automatic report.discrepancies) :
    statementsOf report.discrepancies = (missingChecks reference live).map (.addCheck relation) ∧
      ∀ c ∈ missingChecks reference live, Passes db relation live c := by
  obtain ⟨found, hfound, rfl⟩ := map_eq_ok.1 h
  unfold missingChecks
  dsimp only at hauto ⊢
  clear h
  generalize reference.constraints = constraints at hfound ⊢
  induction constraints generalizing found with
  | nil =>
    cases hfound
    exact ⟨rfl, by simp⟩
  | cons c cs ih =>
    obtain ⟨ds, rest, hds, hrest, rfl⟩ := mapM_cons_eq_ok.1 hfound
    rw [List.flatten_cons, automatic_append] at hauto
    obtain ⟨hss, hpass⟩ := ih rest hauto.2 hrest
    rw [List.flatten_cons, statementsOf_append, hss]
    rcases compareConstraint_automatic hds hauto.1 with ⟨hmem, rfl⟩ | ⟨hmem, hadd, hp⟩
    · rw [List.filter_cons_of_neg (by simpa using hmem)]
      exact ⟨rfl, hpass⟩
    · rw [List.filter_cons_of_pos (by simpa using hmem), hadd]
      refine ⟨rfl, fun d hd => ?_⟩
      rcases List.mem_cons.1 hd with rfl | hd
      · exact hp
      · exact hpass d hd

end Tokenweir.Reconcile
