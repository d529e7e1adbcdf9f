import Tokenweir.Reconcile.Fixpoint
import Tokenweir.Rollup.Daily

/-!
# Repricing

What the restructure of a rate card does to the prices: every model keeps its one row, and this is
the rate of each of its calls from the baseline on, and of no other call.

* `rowLookup`, the lookup of the rollup over the rows of the catalog; `rowLookup_map`;
* `redated_of_execute`, the rate card after a plan;
* `Repriced`, `repriced`.
-/

namespace Tokenweir.Reconcile

open Sql (Database Day Row UtcDay Value Server Statement)
open Rollup (Usage Rate rateLookup)

variable {db db' : Database} {L r : Sql.Relation} {baseline : Option Day} {b : Day}

/-! ### The lookup over rows -/

/-- The first day of a rate. -/
def beginsOn (row : Row) : Option UtcDay :=
  match row effectiveFrom with
  | .day d => some d.utc
  | _ => none

/-- The lateral subquery of `gateway_usage_daily`, with whole rows. -/
def rowLookup (rows : List Row) (u : Usage) : List Row :=
  Sql.latest (fun row => (beginsOn row).getD UtcDay.minusInfinity)
    (rows.filter fun row => row modelColumn = .text u.model ∧ ∃ d ∈ beginsOn row, d ≤ u.ts.day)

/-- A row that the rollup reads as a rate. -/
structure Reads (row : Row) (rate : Rate) : Prop where
  model : row modelColumn = .text rate.model
  effectiveFrom : beginsOn row = some rate.effectiveFrom

/-- The lookups agree, whatever else is in the rows. -/
theorem rowLookup_map {f : Rate → Row} {rates : List Rate} (h : ∀ rate, Reads (f rate) rate)
    (u : Usage) : rowLookup (rates.map f) u = (rateLookup rates u).map f := by
  have hbegins : ∀ rate, (beginsOn (f rate)).getD UtcDay.minusInfinity = rate.effectiveFrom := by
    intro rate
    rw [(h rate).effectiveFrom, Option.getD_some]
  have hfilter : (fun row : Row => decide (row modelColumn = .text u.model ∧
      ∃ d ∈ beginsOn row, d ≤ u.ts.day)) ∘ f =
      fun rate => decide (rate.model = u.model ∧ rate.effectiveFrom ≤ u.ts.day) := by
    funext rate
    rw [Function.comp_apply, (h rate).model, (h rate).effectiveFrom]
    simp
  rw [rowLookup, rateLookup, Sql.latest, Sql.latest, List.filter_map, hfilter, List.map_take]
  refine congrArg (List.take 1) (List.map_insertionSort _ _ f _ fun x _ y _ => ?_).symm
  rw [hbegins, hbegins]

/-- The lookup in rows that begin on one day and are of different models. -/
theorem rowLookup_eq_some {rows : List Row} {row : Row} {u : Usage}
    (hmodels : (rows.map (· modelColumn)).Nodup) (hdated : ∀ row ∈ rows, row effectiveFrom = .day b)
    (hrow : row ∈ rows) (hmodel : row modelColumn = .text u.model) (hday : b.utc ≤ u.ts.day) :
    (rowLookup rows u).head? = some row := by
  have hbegins : ∀ row ∈ rows, beginsOn row = some b.utc := by
    intro row hrow
    unfold beginsOn
    rw [hdated row hrow]
  have honly : ∀ x ∈ rows.filter fun row => row modelColumn = .text u.model ∧
      ∃ d ∈ beginsOn row, d ≤ u.ts.day, x = row := by
    intro x hx
    obtain ⟨hx, hx'⟩ := List.mem_filter.1 hx
    exact List.inj_on_of_nodup_map hmodels hx hrow ((of_decide_eq_true hx').1.trans hmodel.symm)
  refine (Sql.latest_eq_some_iff fun x hx y hy _ => (honly x hx).trans (honly y hy).symm).2
    ⟨List.mem_filter.2 ⟨hrow, decide_eq_true ⟨hmodel, b.utc, hbegins row hrow, hday⟩⟩, ?_⟩
  intro x hx
  rw [honly x hx]

/-- The lookup finds nothing before that day, and nothing of another model. -/
theorem rowLookup_eq_none {rows : List Row} {u : Usage}
    (hdated : ∀ row ∈ rows, row effectiveFrom = .day b)
    (h : u.ts.day < b.utc ∨ ∀ row ∈ rows, row modelColumn ≠ .text u.model) :
    (rowLookup rows u).head? = none := by
  refine Sql.latest_eq_none.2 (List.filter_eq_nil_iff.2 fun row hrow hmatch => ?_)
  obtain ⟨hmodel, d, hd, hle⟩ := of_decide_eq_true hmatch
  unfold beginsOn at hd
  rw [hdated row hrow] at hd
  obtain rfl := Option.some_injective _ hd
  rcases h with h | h
  · exact h.not_ge hle
  · exact h row hrow hmodel

theorem mem_of_rowLookup {rows : List Row} {row : Row} {u : Usage}
    (h : (rowLookup rows u).head? = some row) : row ∈ rows :=
  (List.mem_filter.1 (Sql.le_of_latest h).1).1

/-! ### The rate card after a plan -/

/-- The plan gives the rate card its dates, and no row of it was flat-rate. -/
theorem redated_of_execute {server : Server} {p : Plan} (hp : planWith db baseline = .ok p)
    (hmanual : p.manual = []) (h : Sql.execute server db p.statements = some db')
    (hL : db.find ratesTable = some L) (hnew : L.column effectiveFrom = none) :
    (∃ r, db'.find ratesTable = some r ∧ Redated baseline L r) ∧
      L.column modelColumn ≠ none ∧
      rateCardDuplicates db ratesTable (describe ratesTable L) = .ok [] ∧
      rateCardUnpriceableSoloRows db ratesTable (describe ratesTable L) = .ok [] := by
  obtain ⟨u, s, hu, hs, heq⟩ := planWith_eq_ok.1 hp
  have hauto : Automatic p.discrepancies := plan_automatic.1 hmanual
  rw [heq, automatic_append, automatic_append] at hauto
  obtain ⟨hautoU, hautoR, hautoV⟩ := hauto
  obtain ⟨M, cards, checks, hoid, hparts, hstatements⟩ := planTable_automatic hs hautoR
  obtain rfl : M = L := by
    unfold relationOid at hoid
    rw [hL] at hoid
    exact (Option.some_injective _ hoid).symm
  have hre : restructured ratesTable (describe ratesTable M) := ⟨rfl, hnew⟩
  obtain ⟨-, d, rfl, hd⟩ := (compareRateCard_cases hparts.card).resolve_left fun h => h.1 hre
  -- what the planner has looked at
  obtain ⟨b, -, -, -, hpresent, -, hduplicates, hunpriceable⟩ :=
    (rateCardDiscrepancy_cases hd).resolve_left fun h => by
      have hauto' := hparts.card_automatic d List.mem_cons_self
      rw [h.1] at hauto'
      cases hauto'
  refine ⟨?_, hpresent modelColumn (by decide +kernel), hduplicates, hunpriceable⟩
  -- the statements on the usage table, on the rate card and on the view
  rw [statementsOf_plan heq, Sql.execute_append, Option.bind_eq_some_iff] at h
  obtain ⟨db₂, hexec₂, hview⟩ := h
  rw [Sql.execute_append, Option.bind_eq_some_iff] at hexec₂
  obtain ⟨db₁, hexec₁, hexec₂⟩ := hexec₂
  obtain ⟨K, hK, husage⟩ := execute_usage server hu hautoU
  rcases husage with ⟨-, d₁, -, hexec₁', halters₁, -⟩ | ⟨-, hnone⟩
  swap
  · rw [hexec₁] at hnone
    cases hnone
  obtain rfl : db₁ = d₁ := Option.some_injective _ (hexec₁.symm.trans hexec₁')
  have hname : ∀ c ∈ missingChecks ratesReference (describe ratesTable M),
      c.name ∉ M.constraints.map Sql.Constraint.name := fun c hc hmem =>
    ((compareConstraints_automatic hparts.constraints hparts.constraints_automatic).2 c hc).name
      (mem_describe_constraints.2 hmem)
  rcases (execute_legacyRates server hoid hparts hre hd hname hstatements
    (halters₁.others _ (by decide +kernel))).2 with
    ⟨-, d₂, r, hexec₂', halters₂, hr, hredated⟩ | ⟨-, hnone⟩
  · obtain rfl : db₂ = d₂ := Option.some_injective _ (hexec₂.symm.trans hexec₂')
    have hbefore : db₂.find dailyView = db.find dailyView := by
      rw [halters₂.others _ (by decide +kernel), halters₁.others _ (by decide +kernel)]
    obtain ⟨halters₃, -⟩ := viewMatches_of_execute hautoV hbefore hview
    exact ⟨r, (halters₃.others _ (by decide +kernel)).trans hr, hredated⟩
  · rw [hexec₂] at hnone
    cases hnone

/-- The rate card that was `L`, with rates in force from the day `b` on. -/
structure Repriced (b : Day) (L r : Sql.Relation) : Prop where
  model : L.column modelColumn ≠ none
  models : (r.rows.map (· modelColumn)).Nodup
  rows : List.Forall₂ (fun row row' => row' effectiveFrom = .day b ∧
    ∀ n, L.column n ≠ none → row' n = row n) L.rows r.rows
  key : r.key.map Sql.Key.columns = some ratesKey
  key_unique : (r.rows.map fun row => ratesKey.map row).Nodup
  key_notNull : ∀ row ∈ r.rows, ∀ c ∈ ratesKey, row c ≠ .null
  found : ∀ u : Usage, ∀ row ∈ r.rows, row modelColumn = .text u.model → b.utc ≤ u.ts.day →
    (rowLookup r.rows u).head? = some row
  unpriced : ∀ u : Usage,
    (u.ts.day < b.utc ∨ ∀ row ∈ L.rows, row modelColumn ≠ .text u.model) →
      (rowLookup r.rows u).head? = none
  metered : L.column pricingMode ≠ none → ∀ (u : Usage) (row : Row),
    (rowLookup r.rows u).head? = some row → isSubscription (row pricingMode) = false

/-- No row of a rate card without duplicates is flat-rate. -/
theorem not_isSubscription (hL : db.find ratesTable = some L)
    (hmodels : (L.rows.map (· modelColumn)).Nodup)
    (h : rateCardUnpriceableSoloRows db ratesTable (describe ratesTable L) = .ok [])
    (hmode : L.column pricingMode ≠ none) :
    ∀ row ∈ L.rows, isSubscription (row pricingMode) = false := by
  obtain ⟨mode, hmode⟩ := Option.ne_none_iff_exists'.1 hmode
  have hlive : (describe ratesTable L).column pricingMode = some mode := hmode
  unfold rateCardUnpriceableSoloRows at h
  rw [hlive] at h
  dsimp only at h
  split at h
  · have hnone := Except.ok.inj h
    rw [hL, Option.elim_some, List.map_eq_nil_iff, List.filter_eq_nil_iff] at hnone
    intro row hrow
    have hcount : countOf L (row modelColumn) = 1 :=
      List.count_eq_one_of_mem hmodels (List.mem_map_of_mem hrow)
    rw [Bool.eq_false_iff]
    exact fun hsub => hnone row hrow (decide_eq_true ⟨hcount, hsub⟩)
  · cases h

/-- **The restructure preserves the prices.** Every model that had a row has one, with the values
that it had, and this is the rate of every call of the model from the baseline on; earlier calls
and those of other models have none; and no rate is one of a flat-rate model. -/
theorem repriced (server : Server) (db db' : Database) (baseline : Option Baseline) (p : Plan)
    (L : Sql.Relation) (hp : plan db baseline = .ok p) (hmanual : p.manual = [])
    (h : Sql.execute server db p.statements = some db') (hL : db.find ratesTable = some L)
    (hnew : L.column effectiveFrom = none) :
    ∃ b r, normaliseBaseline baseline = .ok (some b) ∧ db'.find ratesTable = some r ∧
      Repriced b L r := by
  obtain ⟨day, hday, hplan⟩ := bind_eq_ok.1 hp
  obtain ⟨⟨r, hr, b, r₁, rfl, hdated, hcompleted⟩, hmodel, hduplicates, hunpriceable⟩ :=
    redated_of_execute hplan hmanual h hL hnew
  refine ⟨b, r, hday, hr, ?_⟩
  have hmodels := models_nodup hL hduplicates
  obtain ⟨f, hf, hkeep⟩ := (hdated.extends_.trans hcompleted.extends_).rows
  obtain ⟨g, hg, hkeep'⟩ := hcompleted.extends_.rows
  have hrows : ∀ row ∈ r.rows, row effectiveFrom = .day b := by
    intro row hrow
    rw [hg] at hrow
    obtain ⟨old, hold, rfl⟩ := List.mem_map.1 hrow
    rw [hkeep' old hold effectiveFrom (by rw [hdated.effectiveFrom]; exact Option.some_ne_none _)]
    exact hdated.dated old hold
  have hsame : r.rows.map (· modelColumn) = L.rows.map (· modelColumn) := by
    rw [hf, List.map_map]
    exact List.map_congr_left fun row hrow => hkeep row hrow modelColumn hmodel
  have hmodels' : (r.rows.map (· modelColumn)).Nodup := hsame ▸ hmodels
  obtain ⟨suffix, hkey⟩ := hdated.key
  refine ⟨hmodel, hmodels', ?_, ?_, ?_, ?_, fun u row hrow hrowModel hle =>
    rowLookup_eq_some hmodels' hrows hrow hrowModel hle, fun u hu => ?_,
    fun hmode u row hrow => ?_⟩
  · rw [hf, List.forall₂_map_right_iff, List.forall₂_same]
    exact fun row hrow => ⟨hrows _ (hf ▸ List.mem_map_of_mem hrow), hkeep row hrow⟩
  · rw [hcompleted.key, hkey]
    rfl
  · -- the models alone are distinct
    refine List.Nodup.of_map (fun key : List Value => key.headD .null) ?_
    rw [List.map_map]
    exact hmodels'
  · intro row hrow c hc
    rcases List.mem_cons.1 hc with rfl | hc
    · -- the new key makes the column `NOT NULL`
      obtain ⟨column, hcolumn⟩ := Option.ne_none_iff_exists'.1 hmodel
      have hname : column.name = modelColumn := Sql.Relation.column_name hcolumn
      have hnotNull : r₁.column modelColumn = some { column with notNull := true } := by
        rw [hdated.column _ (by decide +kernel), hcolumn, Option.map_some, hname]
        rfl
      rw [hg] at hrow
      obtain ⟨old, hold, rfl⟩ := List.mem_map.1 hrow
      rw [hkeep' old hold _ (by rw [hnotNull]; exact Option.some_ne_none _)]
      have hnull := r₁.rows_notNull _ (Sql.Relation.mem_columns_of_column hnotNull) rfl old hold
      rwa [show ({ column with notNull := true } : Sql.Column).name = modelColumn from hname] at hnull
    · obtain rfl := List.mem_singleton.1 hc
      rw [hrows row hrow]
      exact Value.noConfusion
  · refine rowLookup_eq_none hrows (hu.imp_right fun hnot row hrow hrowModel => ?_)
    have hmem : row modelColumn ∈ L.rows.map (· modelColumn) := hsame ▸ List.mem_map_of_mem hrow
    obtain ⟨old, hold, hold'⟩ := List.mem_map.1 hmem
    exact hnot old hold (hold'.trans hrowModel)
  · obtain ⟨old, hold, rfl⟩ := List.mem_map.1 (hf ▸ mem_of_rowLookup hrow)
    rw [hkeep old hold pricingMode hmode]
    exact not_isSubscription hL hmodels hunpriceable hmode old hold

/-- The restructure at the gateway's database. -/
theorem repriced_legacy : ∃ p db' b r, plan legacy operatorBaseline = .ok p ∧ p.manual = [] ∧
    Sql.execute plainServer legacy p.statements = some db' ∧
    normaliseBaseline operatorBaseline = .ok (some b) ∧ db'.find ratesTable = some r ∧
    Repriced b legacyRates r := by
  obtain ⟨p, db', hplan, hmanual, hdb'⟩ := legacy_runs
  obtain ⟨b, r, hrest⟩ := repriced plainServer legacy db' operatorBaseline p legacyRates hplan
    hmanual hdb' rfl (by decide +kernel)
  exact ⟨p, db', b, r, hplan, hmanual, hdb', hrest⟩

end Tokenweir.Reconcile
