import Tokenweir.Reconcile.Apply
import Tokenweir.Reconcile.Execution

/-!
# When planning returns

`plan` over a connection, with everything that it asks of the server; and the databases that it
can judge.

* `Asked`, `planRelations`, `planOn`; `planRelations_eq_ok`;
* `CardJudgeable`, `TableJudgeable`, `Judgeable`; `rateCardDiscrepancy_ok_iff`,
  `compareTable_ok_iff`, `planWith_ok_iff`;
* `planning`.
-/

namespace Tokenweir.Reconcile

open Sql (Kind Column Constraint Database Statement Day Value)

/-! ### The call -/

/-- What `plan` asks of the server. -/
inductive Asked
  /-- A statement that builds the reference schema, in a schema of its own. -/
  | building (index : ℕ)
  /-- The catalog, of one relation. -/
  | catalog (relation : Text)
  /-- The probes of one relation. -/
  | probes (reference : Relation)

/-- The relations that are compared. -/
def comparedNames : List Text := (ordered reference).map Relation.name

/-- One round of the loop of `_plan`, on a database. -/
def planOne (db : Database) (baseline : Option Day) (reference : Relation) :
    Except Failure Report :=
  planRelation db baseline (snapshot db comparedNames) reference

/-- What is asked changes nothing; a probe may be none that the server can answer. -/
def answers (baseline : Option Day) (db : Database) : Asked → Option Database
  | .probes reference =>
    match planOne db baseline reference with
    | .error .undefinedFunction | .error .wrongObjectType => none
    | _ => some db
  | _ => some db

/-- `CREATE SCHEMA`, `SET LOCAL` and the six migrations, and the catalog of what they build. -/
def building : List Asked := (List.range 8).map .building ++ comparedNames.map .catalog

/-- The loop of `_plan`; `raises` says which requests fail, whatever the server could answer. -/
def planRelations (raises : ℕ → Bool) (baseline : Option Day) : ℕ → Connection Database Asked →
    List Relation → Except ApplyError (List Report) × Connection Database Asked
  | _, c, [] => (.ok [], c)
  | k, c, reference :: references =>
    match c.execute (answers baseline) (raises k) (.probes reference) with
    | (false, c) => (.error .reading, c)
    | (true, c) =>
      match planOne c.store baseline reference with
      | .error e => (.error (.planning e), c)
      | .ok report =>
        match planRelations raises baseline (k + 1) c references with
        | (.error e, c) => (.error e, c)
        | (.ok reports, c) => (.ok (report :: reports), c)

/-- `plan`. -/
def planOn (raises : ℕ → Bool) (autocommit : Bool) (c : Connection Database Asked)
    (baseline : Option Baseline) : Except ApplyError Plan × Connection Database Asked :=
  if autocommit then (.error .autocommit, c)
  else
    match normaliseBaseline baseline with
    | .error e => (.error (.planning e), c)
    | .ok day =>
      match c.executeAll (answers day) raises 0 building with
      -- `reference_snapshot` rolls back, and then `plan` does
      | (false, c) => (.error .reference, c.rollback.rollback)
      | (true, c) =>
        let k := building.length
        match c.rollback.executeAll (answers day) raises k (comparedNames.map .catalog) with
        | (false, c) => (.error .reading, c.rollback)
        | (true, c) =>
          match planRelations raises day (k + comparedNames.length) c (ordered reference) with
          | (.error e, c) => (.error e, c.rollback)
          | (.ok reports, c) =>
            (.ok ⟨reports.flatMap Report.discrepancies, reports.flatMap Report.observations, day⟩,
              c.rollback)

variable {raises : ℕ → Bool} {day : Option Day} {c c' : Connection Database Asked}

theorem planRelations_frame (k : ℕ) (c : Connection Database Asked) (references : List Relation) :
    (planRelations raises day k c references).2.store = c.store ∧
      (planRelations raises day k c references).2.history = c.history := by
  induction references generalizing k c with
  | nil => exact ⟨rfl, rfl⟩
  | cons reference references ih =>
    have hframe := @Connection.execute_frame _ _ (answers day) (raises k) c (.probes reference)
    rw [planRelations]
    split
    · rename_i d hd
      rw [hd] at hframe
      exact hframe
    · rename_i d hd
      rw [hd] at hframe
      split
      · exact hframe
      · have hrest := ih (k + 1) d
        split
        · rename_i hd'
          rw [hd'] at hrest
          exact ⟨hrest.1.trans hframe.1, hrest.2.trans hframe.2⟩
        · rename_i hd'
          rw [hd'] at hrest
          exact ⟨hrest.1.trans hframe.1, hrest.2.trans hframe.2⟩

/-- What can be answered leaves the database as it is. -/
theorem answers_cases (day : Option Day) (db : Database) (reference : Relation) :
    answers day db (.probes reference) = some db ∨
      answers day db (.probes reference) = none ∧ ∃ e, planOne db day reference = .error e := by
  unfold answers
  dsimp only
  split
  · rename_i e
    exact Or.inr ⟨rfl, _, e⟩
  · rename_i e
    exact Or.inr ⟨rfl, _, e⟩
  · exact Or.inl rfl

/-- Without failures the loop returns what the comparisons return. -/
theorem planRelations_eq_ok (hraises : ∀ k, raises k = false) (hview : c.view = some c.store)
    {references : List Relation} {reports : List Report} {k : ℕ} :
    (planRelations raises day k c references).1 = .ok reports ↔
      references.mapM (planOne c.store day) = .ok reports := by
  induction references generalizing k c reports with
  | nil =>
    rw [planRelations, List.mapM_nil]
    constructor <;> rintro ⟨⟩ <;> rfl
  | cons reference references ih =>
    rw [mapM_cons_eq_ok, planRelations, Connection.execute, hraises k, hview]
    rcases answers_cases day c.store reference with hsome | ⟨hnone, e, he⟩
    · simp only [Bool.false_eq_true, if_false, Option.bind_some, hsome]
      cases hone : planOne c.store day reference with
      | error e => simp
      | ok report =>
        -- the rest of the loop sees the same database
        set d : Connection Database Asked :=
          ⟨c.store, some c.store, c.pending ++ [.probes reference], c.history,
            c.sent ++ [.probes reference]⟩
        have hrest : ∀ rest, (planRelations raises day (k + 1) d references).1 = .ok rest ↔
            references.mapM (planOne c.store day) = .ok rest := fun rest => ih rfl
        cases hloop : planRelations raises day (k + 1) d references with
        | mk result d' =>
          rw [hloop] at hrest
          cases result with
          | error e =>
            simp only [reduceCtorEq, false_iff] at hrest
            simp only [reduceCtorEq, false_iff]
            rintro ⟨_, bs, -, hbs, -⟩
            exact hrest bs hbs
          | ok rest =>
            constructor
            · intro h
              exact ⟨report, rest, rfl, (hrest rest).1 rfl, (Except.ok.inj h).symm⟩
            · rintro ⟨b, bs, hb, hbs, rfl⟩
              cases hb
              exact congrArg (fun xs => Except.ok (report :: xs)) (Except.ok.inj ((hrest bs).2 hbs))
    · simp [hnone, he]

/-! ### What can be judged -/

/-- A value that a client gets as a string. -/
def IsString (traits : Sql.Traits) (v : Value) : Prop :=
  traits.strings = true ∧ ∃ s, v = .text s ∨ v = .other s

/-- A rate card of which the planner can say whether it can be keyed anew. -/
structure CardJudgeable (db : Database) (r : Sql.Relation) (model : Column) : Prop where
  /-- The models can be grouped and ordered. -/
  groups : (db.traits model.type).groups = true
  /-- The models of two rows or more are strings. -/
  repeated : ∀ row ∈ r.rows, 1 < countOf r (row modelColumn) →
    IsString (db.traits model.type) (row modelColumn)
  /-- If each model has one row, then a `pricing_mode` can be compared with a string. -/
  mode : (∀ row ∈ r.rows, countOf r (row modelColumn) ≤ 1) →
    ∀ column, r.column pricingMode = some column → (db.traits column.type).maximum = true
  /-- Then also the models that only have a subscription are strings. -/
  lone : (∀ row ∈ r.rows, countOf r (row modelColumn) ≤ 1) → r.column pricingMode ≠ none →
    ∀ row ∈ r.rows, isSubscription (row pricingMode) = true →
      IsString (db.traits model.type) (row modelColumn)

/-- A table of which the planner can say how it differs from the shipped one. -/
structure TableJudgeable (db : Database) (reference : Relation) (r : Sql.Relation) : Prop where
  /-- There are rows where some are asked for. -/
  readable : r.kind.isReadable = true ∨ asksRows reference (describe reference.name r) = false
  /-- A rate card without `effective_from`, but with the other columns of its new key. -/
  card : restructured reference.name (describe reference.name r) →
    (∀ c ∈ keyColumns reference, r.column c ≠ none) →
    ∃ model, r.column modelColumn = some model ∧ CardJudgeable db r model
  /-- What a check that rows are asked for compares with a number can be so compared. -/
  checks : ∀ c ∈ reference.constraints, asksViolations (describe reference.name r) c = true →
    ∀ p ∈ c.check, ∀ n ∈ p.compared, ∀ column, r.column n = some column →
      (db.traits column.type).numeric = true

/-- A database of which the planner can say how it differs from the shipped schema. -/
def Judgeable (db : Database) : Prop :=
  ∀ reference ∈ [usageReference, ratesReference], ∀ r, relationOid db reference.name = some r →
    TableJudgeable db reference r

variable {db : Database} {relation : Text} {reference live : Relation} {r : Sql.Relation}
  {model : Column} {models : List Value}

theorem string_ok_iff {traits : Sql.Traits} {v : Value} :
    (∃ s, string traits v = .ok s) ↔ IsString traits v := by
  unfold string IsString
  cases v with
  | text s | other s =>
    by_cases h : traits.strings = true <;> simp [h]
  | null | num q | nan | infinite b | bool b | day d | instant t => simp

theorem mapM_ok_iff {α β : Type} {f : α → Except Failure β} {as : List α} :
    (∃ bs, as.mapM f = .ok bs) ↔ ∀ a ∈ as, ∃ b, f a = .ok b := by
  induction as with
  | nil => exact iff_of_true ⟨[], rfl⟩ (by simp)
  | cons a as ih =>
    rw [List.forall_mem_cons, ← ih]
    constructor
    · rintro ⟨cs, h⟩
      obtain ⟨b, bs, hb, hbs, -⟩ := mapM_cons_eq_ok.1 h
      exact ⟨⟨b, hb⟩, bs, hbs⟩
    · rintro ⟨⟨b, hb⟩, bs, hbs⟩
      exact ⟨b :: bs, mapM_cons_eq_ok.2 ⟨b, bs, hb, hbs, rfl⟩⟩

theorem modelNames_ok_iff (hmodel : live.column modelColumn = some model) :
    (∃ names, modelNames db live models = .ok names) ↔
      ∀ m ∈ models, IsString (db.traits model.type) m := by
  rw [modelNames, mapM_ok_iff, hmodel]
  exact forall₂_congr fun m _ => string_ok_iff

/-- The models of two rows or more. -/
def repeatedModels (r : Sql.Relation) : List Value :=
  (r.rows.map (· modelColumn)).dedup.filter fun m => 1 < countOf r m

theorem mem_repeatedModels {m : Value} :
    m ∈ repeatedModels r ↔ ∃ row ∈ r.rows, row modelColumn = m ∧ 1 < countOf r m := by
  simp only [repeatedModels, List.mem_filter, List.mem_dedup, List.mem_map, decide_eq_true_eq]
  constructor
  · rintro ⟨⟨row, hrow, rfl⟩, hcount⟩
    exact ⟨row, hrow, rfl, hcount⟩
  · rintro ⟨row, hrow, rfl, hcount⟩
    exact ⟨⟨row, hrow, rfl⟩, hcount⟩

theorem rateCardDuplicates_eq_ok (hfind : db.find relation = some r) :
    rateCardDuplicates db relation (describe relation r) = .ok models ↔
      ∃ model, r.column modelColumn = some model ∧ (db.traits model.type).groups = true ∧
        repeatedModels r = models := by
  have hcolumn : (describe relation r).column modelColumn = r.column modelColumn := rfl
  rw [rateCardDuplicates, hcolumn, hfind]
  cases r.column modelColumn with
  | none => simp
  | some model =>
    by_cases hgroups : (db.traits model.type).groups = true
    · simp [hgroups, repeatedModels]
    · simp [hgroups]

/-- The models whose only row is a subscription. -/
def loneModels (r : Sql.Relation) : List Value :=
  (r.rows.filter fun row =>
    countOf r (row modelColumn) = 1 ∧ isSubscription (row pricingMode)).map (· modelColumn)

theorem rateCardUnpriceableSoloRows_eq_ok (hfind : db.find relation = some r) :
    rateCardUnpriceableSoloRows db relation (describe relation r) = .ok models ↔
      (∀ column, r.column pricingMode = some column → (db.traits column.type).maximum = true) ∧
        (if r.column pricingMode = none then [] else loneModels r) = models := by
  have hcolumn : (describe relation r).column pricingMode = r.column pricingMode := rfl
  rw [rateCardUnpriceableSoloRows, hcolumn, hfind]
  cases r.column pricingMode with
  | none => simp
  | some column =>
    by_cases hmaximum : (db.traits column.type).maximum = true
    · simp [hmaximum, loneModels]
    · simp [hmaximum]

theorem repeatedModels_eq_nil :
    repeatedModels r = [] ↔ ∀ row ∈ r.rows, countOf r (row modelColumn) ≤ 1 := by
  rw [List.eq_nil_iff_forall_not_mem]
  constructor
  · intro h row hrow
    by_contra hcount
    exact h _ (mem_repeatedModels.2 ⟨row, hrow, rfl, not_le.1 hcount⟩)
  · rintro h m hm
    obtain ⟨row, hrow, rfl, hcount⟩ := mem_repeatedModels.1 hm
    exact absurd hcount (not_lt.2 (h row hrow))

/-- Where each model has one row, the lone models are those of a subscription. -/
theorem mem_loneModels (hsingle : ∀ row ∈ r.rows, countOf r (row modelColumn) ≤ 1) {m : Value} :
    m ∈ loneModels r ↔
      ∃ row ∈ r.rows, isSubscription (row pricingMode) = true ∧ row modelColumn = m := by
  simp only [loneModels, List.mem_map, List.mem_filter, decide_eq_true_eq]
  constructor
  · rintro ⟨row, ⟨hrow, -, hsubscription⟩, rfl⟩
    exact ⟨row, hrow, hsubscription, rfl⟩
  · rintro ⟨row, hrow, hsubscription, rfl⟩
    have hpositive : 0 < countOf r (row modelColumn) :=
      List.count_pos_iff.2 (List.mem_map_of_mem hrow)
    have hone := hsingle row hrow
    exact ⟨row, ⟨hrow, by omega, hsubscription⟩, rfl⟩

/-- A judgeable rate card, by the models that the probes find. -/
theorem cardJudgeable_iff : CardJudgeable db r model ↔ (db.traits model.type).groups = true ∧
    (∀ m ∈ repeatedModels r, IsString (db.traits model.type) m) ∧
    (repeatedModels r = [] →
      (∀ column, r.column pricingMode = some column → (db.traits column.type).maximum = true) ∧
        ∀ m ∈ (if r.column pricingMode = none then [] else loneModels r),
          IsString (db.traits model.type) m) := by
  rw [repeatedModels_eq_nil]
  constructor
  · rintro ⟨hgroups, hrepeated, hmode, hlone⟩
    refine ⟨hgroups, fun m hm => ?_, fun hsingle => ⟨hmode hsingle, fun m hm => ?_⟩⟩
    · obtain ⟨row, hrow, rfl, hcount⟩ := mem_repeatedModels.1 hm
      exact hrepeated row hrow hcount
    · by_cases hcolumn : r.column pricingMode = none
      · rw [if_pos hcolumn] at hm
        cases hm
      · rw [if_neg hcolumn] at hm
        obtain ⟨row, hrow, hsubscription, rfl⟩ := (mem_loneModels hsingle).1 hm
        exact hlone hsingle hcolumn row hrow hsubscription
  · rintro ⟨hgroups, hrepeated, hsolo⟩
    refine ⟨hgroups, fun row hrow hcount => ?_, fun hsingle => (hsolo hsingle).1,
      fun hsingle hcolumn row hrow hsubscription => (hsolo hsingle).2 _ ?_⟩
    · exact hrepeated _ (mem_repeatedModels.2 ⟨row, hrow, rfl, hcount⟩)
    · rw [if_neg hcolumn]
      exact (mem_loneModels hsingle).2 ⟨row, hrow, hsubscription, rfl⟩

theorem bind_ok_iff {α β : Type} {x : Except Failure α} {f : α → Except Failure β} :
    (∃ b, x.bind f = .ok b) ↔ ∃ a, x = .ok a ∧ ∃ b, f a = .ok b := by
  simp only [bind_eq_ok]
  rw [exists_comm]
  exact exists_congr fun a => exists_and_left

theorem map_ok_iff {α β : Type} {x : Except Failure α} {f : α → β} :
    (∃ b, x.map f = .ok b) ↔ ∃ a, x = .ok a := by
  simp [map_eq_ok]

/-- Names are listed if there are any, and they can be listed. -/
theorem listing_ok_iff {ns : List Text → Discrepancy} {rest : Except Failure Discrepancy}
    (hmodel : r.column modelColumn = some model) :
    (∃ d, (if models ≠ [] then (modelNames db (describe relation r) models).bind fun names =>
          .ok (ns names)
        else rest) = .ok d) ↔
      (∀ m ∈ models, IsString (db.traits model.type) m) ∧ (models = [] → ∃ d, rest = .ok d) := by
  by_cases hmodels : models = []
  · simp [hmodels]
  · have hdescribed : (describe relation r).column modelColumn = some model := hmodel
    rw [if_pos hmodels, bind_ok_iff, ← modelNames_ok_iff hdescribed]
    simp [hmodels]

/-- The models that only have a subscription can be listed. -/
theorem lone_ok_iff {ns : List Text → Discrepancy} {rest : Except Failure Discrepancy}
    (hfind : db.find relation = some r) (hmodel : r.column modelColumn = some model)
    (hrest : ∃ d, rest = .ok d) :
    (∃ d, ((rateCardUnpriceableSoloRows db relation (describe relation r)).bind fun models =>
      if models ≠ [] then (modelNames db (describe relation r) models).bind fun names =>
        .ok (ns names)
      else rest) = .ok d) ↔
      (∀ column, r.column pricingMode = some column → (db.traits column.type).maximum = true) ∧
        ∀ m ∈ (if r.column pricingMode = none then [] else loneModels r),
          IsString (db.traits model.type) m := by
  rw [bind_ok_iff]
  constructor
  · rintro ⟨models, hmodels, hlisted⟩
    obtain ⟨hmaximum, rfl⟩ := (rateCardUnpriceableSoloRows_eq_ok hfind).1 hmodels
    exact ⟨hmaximum, ((listing_ok_iff hmodel).1 hlisted).1⟩
  · rintro ⟨hmaximum, hstrings⟩
    exact ⟨_, (rateCardUnpriceableSoloRows_eq_ok hfind).2 ⟨hmaximum, rfl⟩,
      (listing_ok_iff hmodel).2 ⟨hstrings, fun _ => hrest⟩⟩

theorem ite_ok {p : Prop} [Decidable p] {d d' : Discrepancy} :
    ∃ e, (if p then Except.ok d else .ok d' : Except Failure Discrepancy) = .ok e := by
  split <;> exact ⟨_, rfl⟩

theorem absent_eq_nil : (keyColumns reference).filter (fun c => (live.column c).isNone) = [] ↔
    ∀ c ∈ keyColumns reference, live.column c ≠ none := by
  simp [List.filter_eq_nil_iff]

/-- Of a rate card without the columns of its new key, nothing more is asked. -/
theorem rateCardDiscrepancy_of_absent
    (habsent : ¬ ∀ c ∈ keyColumns reference, live.column c ≠ none) :
    ∃ d, rateCardDiscrepancy db relation reference live day = .ok d := by
  unfold rateCardDiscrepancy
  rw [if_pos (mt absent_eq_nil.1 habsent)]
  exact ⟨_, rfl⟩

/-- The planner can say whether a rate card that has the columns of its new key can be keyed
anew exactly if it is judgeable. -/
theorem rateCardDiscrepancy_ok_iff (hfind : db.find relation = some r)
    (hpresent : ∀ c ∈ keyColumns reference, r.column c ≠ none) :
    (∃ d, rateCardDiscrepancy db relation reference (describe relation r) day = .ok d) ↔
      ∃ model, r.column modelColumn = some model ∧ CardJudgeable db r model := by
  have habsent : (keyColumns reference).filter
      (fun c => ((describe relation r).column c).isNone) = [] := absent_eq_nil.2 hpresent
  unfold rateCardDiscrepancy
  rw [if_neg (not_not.2 habsent)]
  simp only [bind, pure, Except.pure]
  rw [bind_ok_iff]
  constructor
  · rintro ⟨_, hrepeated, hrest⟩
    obtain ⟨model, hmodel, hgroups, rfl⟩ := (rateCardDuplicates_eq_ok hfind).1 hrepeated
    obtain ⟨hstrings, hnone⟩ := (listing_ok_iff hmodel).1 hrest
    refine ⟨model, hmodel, cardJudgeable_iff.2 ⟨hgroups, hstrings, fun hno => ?_⟩⟩
    refine (lone_ok_iff hfind hmodel ?_).1 (hnone hno)
    -- neither the baseline nor a null in the key is a reason to fail
    cases day with
    | none => exact ⟨_, rfl⟩
    | some b => exact ite_ok
  · rintro ⟨model, hmodel, hjudgeable⟩
    obtain ⟨hgroups, hstrings, hlone⟩ := cardJudgeable_iff.1 hjudgeable
    refine ⟨_, (rateCardDuplicates_eq_ok hfind).2 ⟨model, hmodel, hgroups, rfl⟩,
      (listing_ok_iff hmodel).2 ⟨hstrings, fun hno =>
        (lone_ok_iff hfind hmodel ?_).2 (hlone hno)⟩⟩
    cases day with
    | none => exact ⟨_, rfl⟩
    | some b => exact ite_ok

/-- What a check compares with a number is of a type that can be so compared. -/
theorem numeric_iff {p : Sql.Predicate} :
    (p.compared.all fun n => (live.column n).all fun column => (db.traits column.type).numeric) =
        true ↔
      ∀ n ∈ p.compared, ∀ column, live.column n = some column →
        (db.traits column.type).numeric = true := by
  rw [List.all_eq_true]
  refine forall₂_congr fun n _ => ?_
  cases live.column n with
  | none => simp
  | some column => simp

theorem checkConstraintViolations_ok_iff {c : Constraint} :
    (∃ v, checkConstraintViolations db relation live c = .ok v) ↔
      ((checkBodyPattern.matchAt c.definition.squash).isSome = true → ∀ p ∈ c.check,
        ∀ n ∈ p.compared, ∀ column, live.column n = some column →
          (db.traits column.type).numeric = true) := by
  unfold checkConstraintViolations
  cases hbody : checkBodyPattern.matchAt c.definition.squash with
  | none => simp
  | some m =>
    cases hcheck : c.check with
    | none => simp
    | some p =>
      simp only [Option.isSome_some, Option.mem_some_iff, forall_eq', forall_const, ← numeric_iff]
      split <;> simp_all

theorem compareConstraint_ok_iff {c : Constraint} :
    (∃ ds, compareConstraint db relation live c = .ok ds) ↔
      (asksViolations live c = true → ∀ p ∈ c.check, ∀ n ∈ p.compared, ∀ column,
        live.column n = some column → (db.traits column.type).numeric = true) := by
  have hasks : asksViolations live c = true ↔
      c.definition ∉ live.constraints.map Constraint.definition ∧
        (∀ n ∈ c.columns, n ∈ live.columnNames) ∧
        c.name ∉ live.constraints.map Constraint.name ∧
        (checkBodyPattern.matchAt c.definition.squash).isSome = true := by
    simp [asksViolations, and_assoc]
  rw [hasks]
  unfold compareConstraint
  dsimp only
  by_cases hdefinition : c.definition ∈ live.constraints.map Constraint.definition
  · rw [if_pos hdefinition]
    exact iff_of_true ⟨_, rfl⟩ fun h => absurd hdefinition h.1
  rw [if_neg hdefinition]
  by_cases habsent : c.columns.filter (· ∉ live.columnNames) ≠ []
  · rw [if_pos habsent]
    refine iff_of_true ⟨_, rfl⟩ fun h => absurd ?_ habsent
    simpa [List.filter_eq_nil_iff] using h.2.1
  rw [if_neg habsent]
  by_cases hname : c.name ∈ live.constraints.map Constraint.name
  · rw [if_pos hname]
    exact iff_of_true ⟨_, rfl⟩ fun h => absurd hname h.2.2.1
  have hpresent : ∀ n ∈ c.columns, n ∈ live.columnNames := by
    simpa [List.filter_eq_nil_iff] using habsent
  rw [if_neg hname, map_ok_iff, checkConstraintViolations_ok_iff]
  exact ⟨fun h hall => h hall.2.2.2, fun h hbody => h ⟨hdefinition, hpresent, hname, hbody⟩⟩

theorem compareConstraints_ok_iff :
    (∃ report, compareConstraints db relation reference live = .ok report) ↔
      ∀ c ∈ reference.constraints, asksViolations live c = true → ∀ p ∈ c.check,
        ∀ n ∈ p.compared, ∀ column, live.column n = some column →
          (db.traits column.type).numeric = true := by
  rw [compareConstraints, map_ok_iff, mapM_ok_iff]
  exact forall₂_congr fun c _ => compareConstraint_ok_iff

theorem checkReadable_eq_ok : checkReadable reference live = .ok () ↔
    live.kind.isReadable = true ∨ asksRows reference live = false := by
  unfold checkReadable
  cases live.kind.isReadable <;> cases asksRows reference live <;> simp

/-- What a restructure asks the rows of is no index. -/
theorem find_of_readable (hoid : relationOid db reference.name = some r)
    (hre : restructured reference.name (describe reference.name r))
    (hpresent : ∀ c ∈ keyColumns reference, r.column c ≠ none)
    (hreadable : r.kind.isReadable = true ∨
      asksRows reference (describe reference.name r) = false) :
    db.find reference.name = some r := by
  refine (relationOid_cases hoid).resolve_right ?_
  rintro rfl
  rcases hreadable with hkind | hasks
  · cases hkind
  · rw [asksRows_of_restructured hre hpresent] at hasks
    cases hasks

theorem compareRateCard_ok_iff (hoid : relationOid db reference.name = some r)
    (hreadable : r.kind.isReadable = true ∨
      asksRows reference (describe reference.name r) = false) :
    (∃ card, compareRateCard db day reference (describe reference.name r) = .ok card) ↔
      (restructured reference.name (describe reference.name r) →
        (∀ c ∈ keyColumns reference, r.column c ≠ none) →
        ∃ model, r.column modelColumn = some model ∧ CardJudgeable db r model) := by
  unfold compareRateCard
  by_cases hre : restructured reference.name (describe reference.name r)
  · rw [if_pos hre, map_ok_iff, forall_prop_of_true hre]
    by_cases hpresent : ∀ c ∈ keyColumns reference, r.column c ≠ none
    · rw [forall_prop_of_true hpresent]
      exact rateCardDiscrepancy_ok_iff (find_of_readable hoid hre hpresent hreadable) hpresent
    · exact iff_of_true (rateCardDiscrepancy_of_absent hpresent) fun h => absurd h hpresent
  · rw [if_neg hre]
    exact iff_of_true ⟨[], rfl⟩ fun h => absurd h hre

/-- The planner can say how a table differs from the shipped one exactly if it is judgeable. -/
theorem compareTable_ok_iff (hoid : relationOid db reference.name = some r) :
    (∃ report, compareTable db day reference (describe reference.name r) = .ok report) ↔
      TableJudgeable db reference r := by
  constructor
  · rintro ⟨report, h⟩
    obtain ⟨hreadable, card, constraints, hcard, hconstraints, -⟩ := compareTable_eq_ok.1 h
    have hcan := checkReadable_eq_ok.1 hreadable
    exact ⟨hcan, (compareRateCard_ok_iff hoid hcan).1 ⟨card, hcard⟩,
      compareConstraints_ok_iff.1 ⟨constraints, hconstraints⟩⟩
  · rintro ⟨hreadable, hcard, hchecks⟩
    obtain ⟨card, hcompared⟩ : ∃ card, compareRateCard db day reference
      (describe reference.name r) = .ok card := (compareRateCard_ok_iff hoid hreadable).2 hcard
    obtain ⟨constraints, hconstraints⟩ := compareConstraints_ok_iff.2 hchecks
    exact ⟨_, compareTable_eq_ok.2 ⟨checkReadable_eq_ok.2 hreadable, card, constraints,
      hcompared, hconstraints, rfl⟩⟩

theorem planTable_ok_iff {name : Text} {shipped : Sql.Relation} :
    (∃ report, planTable db day name shipped = .ok report) ↔
      ∀ r, relationOid db name = some r → TableJudgeable db (describe name shipped) r := by
  unfold planTable
  cases hoid : relationOid db name with
  | none => exact iff_of_true ⟨_, rfl⟩ fun r hr => by cases hr
  | some r =>
    simp only [Option.some.injEq, forall_eq']
    exact compareTable_ok_iff hoid

/-- The planner returns a plan exactly of a database that it can judge. -/
theorem planWith_ok_iff : (∃ p, planWith db day = .ok p) ↔ Judgeable db := by
  have husage : (∃ u, planTable db day usageTable shippedUsage = .ok u) ↔ _ := planTable_ok_iff
  have hrates : (∃ r, planTable db day ratesTable shippedRates = .ok r) ↔ _ := planTable_ok_iff
  rw [Judgeable, List.forall_mem_cons, List.forall_mem_singleton]
  constructor
  · rintro ⟨p, hp⟩
    obtain ⟨u, r, hu, hr, -⟩ := planWith_eq_ok.1 hp
    exact ⟨husage.1 ⟨u, hu⟩, hrates.1 ⟨r, hr⟩⟩
  · rintro ⟨hu, hr⟩
    obtain ⟨u, hu⟩ := husage.2 hu
    obtain ⟨r, hr⟩ := hrates.2 hr
    exact ⟨_, planWith_eq_ok.2 ⟨u, r, hu, hr, rfl⟩⟩

/-! ### The call as a whole -/

/-- A connection is left outside any transaction, with nothing committed on it. -/
def LeftUnchanged (c c' : Connection Database Asked) : Prop :=
  c'.store = c.store ∧ c'.history = c.history ∧ c'.view = some c.store ∧ c'.pending = []

theorem leftUnchanged_rollback (h : c'.store = c.store ∧ c'.history = c.history) :
    LeftUnchanged c c'.rollback :=
  ⟨h.1, h.2, congrArg some h.1, rfl⟩

theorem planOn_leftUnchanged {baseline : Option Baseline}
    (hday : normaliseBaseline baseline = .ok day) :
    LeftUnchanged c (planOn raises false c baseline).2 := by
  unfold planOn
  rw [if_neg (by simp), hday]
  dsimp only
  have hbuild := @Connection.executeAll_frame _ _ (answers day) raises 0 c building
  split
  · rename_i d hd
    rw [hd] at hbuild
    exact leftUnchanged_rollback hbuild
  · rename_i d hd
    rw [hd] at hbuild
    have hread := @Connection.executeAll_frame _ _ (answers day) raises building.length d.rollback
      (comparedNames.map .catalog)
    split
    · rename_i e he
      rw [he] at hread
      exact leftUnchanged_rollback ⟨hread.1.trans hbuild.1, hread.2.trans hbuild.2⟩
    · rename_i e he
      rw [he] at hread
      have hloop := @planRelations_frame raises day (building.length + comparedNames.length) e
        (ordered reference)
      have hend : _ ∧ _ := ⟨hloop.1.trans (hread.1.trans hbuild.1),
        hloop.2.trans (hread.2.trans hbuild.2)⟩
      split <;> rename_i f hf <;> rw [hf] at hend <;> exact leftUnchanged_rollback hend

theorem answers_building (db : Database) : ∀ a ∈ building, answers day db a = some db := by
  intro a ha
  rcases List.mem_append.1 ha with ha | ha
  · obtain ⟨i, -, rfl⟩ := List.mem_map.1 ha
    rfl
  · obtain ⟨n, -, rfl⟩ := List.mem_map.1 ha
    rfl

theorem answers_catalog (db : Database) :
    ∀ a ∈ comparedNames.map Asked.catalog, answers day db a = some db := by
  intro a ha
  obtain ⟨n, -, rfl⟩ := List.mem_map.1 ha
  rfl

/-- Where nothing fails, the plan over a connection is that of what is committed. -/
theorem planOn_eq_ok {baseline : Option Baseline} {p : Plan} (hraises : ∀ k, raises k = false)
    (hview : c.view ≠ none) (hday : normaliseBaseline baseline = .ok day) :
    (planOn raises false c baseline).1 = .ok p ↔ planWith c.store day = .ok p := by
  obtain ⟨s, hs⟩ := Option.ne_none_iff_exists'.1 hview
  obtain ⟨d, hd, -⟩ : ∃ d, Connection.executeAll (answers day) raises 0 c building = (true, d) ∧ _ :=
    Connection.executeAll_reads hraises hs (answers_building s)
  have hstore : d.store = c.store := by
    simpa [hd] using (@Connection.executeAll_frame _ _ (answers day) raises 0 c building).1
  -- the reference schema is gone, and so is what else was not committed
  obtain ⟨e, he, hview'⟩ : ∃ e, Connection.executeAll (answers day) raises building.length d.rollback
      (comparedNames.map .catalog) = (true, e) ∧ _ :=
    Connection.executeAll_reads hraises rfl (answers_catalog d.store)
  have hstore' : e.store = c.store := by
    have hframe := @Connection.executeAll_frame _ _ (answers day) raises building.length d.rollback
      (comparedNames.map .catalog)
    rw [he] at hframe
    exact hframe.1.trans hstore
  have hloop : ∀ reports, (planRelations raises day (building.length + comparedNames.length) e
      (ordered reference)).1 = .ok reports ↔
        (ordered reference).mapM (planOne c.store day) = .ok reports := by
    intro reports
    rw [← hstore']
    exact planRelations_eq_ok hraises (by rw [hview', hstore', hstore])
  have hplan : planWith c.store day = .ok p ↔ ∃ reports,
      (ordered reference).mapM (planOne c.store day) = .ok reports ∧
        ⟨reports.flatMap Report.discrepancies, reports.flatMap Report.observations, day⟩ = p :=
    map_eq_ok
  simp only [planOn, Bool.false_eq_true, if_false, hday, hd, he, hplan, ← hloop]
  cases planRelations raises day (building.length + comparedNames.length) e (ordered reference) with
  | mk result f =>
    cases result with
    | error e => simp
    | ok reports => simp

/-- **Planning leaves the database and the connection as they should be, however it ends; and
where the server answers what it can, it returns a plan exactly of a database that it can
judge.** The rows of a table are asked for only of a relation that has rows, the models of a rate
card can be grouped, ordered and listed, a `pricing_mode` can be compared with a string, and a
cost with a number. -/
theorem planning (raises : ℕ → Bool) (c : Connection Database Asked) (baseline : Option Baseline)
    (day : Option Day) (hday : normaliseBaseline baseline = .ok day) :
    LeftUnchanged c (planOn raises false c baseline).2 ∧
      ((∀ k, raises k = false) → c.view ≠ none →
        ((∃ p, (planOn raises false c baseline).1 = .ok p) ↔ Judgeable c.store)) := by
  refine ⟨planOn_leftUnchanged hday, fun hraises hview => ?_⟩
  rw [← @planWith_ok_iff day]
  exact exists_congr fun p => planOn_eq_ok hraises hview hday

/-- At the gateway's database planning returns, and leaves it as it was. -/
theorem planning_legacy :
    LeftUnchanged (.opened legacy)
        (planOn (fun _ => false) false (.opened legacy) operatorBaseline).2 ∧
      Judgeable legacy ∧
      ∃ p, (planOn (fun _ => false) false (.opened legacy) operatorBaseline).1 = .ok p := by
  obtain ⟨p, -, hp, -, -⟩ := legacy_runs
  obtain ⟨day, hday, hplan⟩ := bind_eq_ok.1 hp
  have hjudgeable : Judgeable legacy := planWith_ok_iff.1 ⟨p, hplan⟩
  obtain ⟨hleft, hreturns⟩ := planning (fun _ => false) (.opened legacy) operatorBaseline day hday
  exact ⟨hleft, hjudgeable, (hreturns (fun _ => rfl) (by simp [Connection.opened])).2 hjudgeable⟩

/-- The exception of a call. -/
def raised {α : Type} : Except ApplyError α → Option ApplyError
  | .ok _ => none
  | .error e => some e

/-- A rate card in which two rows name no model. -/
def unnamedRates : Sql.Relation :=
  { bare .table [shippedColumn "model" "text" false none] (by decide +kernel) with
    rows := [fun _ => .null, fun _ => .null]
    rows_notNull := by simp [bare, shippedColumn] }

/-- The gateway's database, with such a rate card. -/
def unnamed : Database := legacy.set ratesTable unnamedRates

/-- The models that have more than one row cannot be listed, and planning raises. -/
theorem planning_unnamed_raises :
    raised (planOn (fun _ => false) false (.opened unnamed) operatorBaseline).1 =
      some (.planning .typeError) := by
  decide +kernel

end Tokenweir.Reconcile
