import Tokenweir.Lib.Query

/-!
# The daily rollup

The view `gateway_usage_daily`, over the rows of the two tables that it reads, and what it
should say of them. Numbers of the type `NUMERIC` are rationals.

* `Usage`, `Rate`, `RateCard`, a card with the key of the migration 003;
* `rateLookup`, `priced`, `cost`, `gatewayUsageDaily`;
* `InForce`, `Priceable`, `costOf`; `rateLookup_eq_some_iff`, `priced_eq`, `cost_of_inForce`;
* `rowOf`, `gatewayUsageDaily_eq`; `RowCorrect`, `DailyCorrect`, `daily_correct`.
-/

namespace Tokenweir.Rollup

open Sql (UtcDay Timestamp both either isNotNull isDistinctFrom equals boolAnd total FitsBigint
  toBigint latest leftJoinLateral groupBy)

/-! ### The tables -/

/-- A row of `gateway_usage`, as far as the view reads it. -/
structure Usage where
  appId : Text
  model : Text
  pricingMode : Option Text
  inputTokens : ℤ
  outputTokens : ℤ
  cacheCreationInputTokens : ℤ
  cacheReadInputTokens : ℤ
  ts : Timestamp
  deriving DecidableEq

/-- A row of `model_pricing_rates`, as far as the view reads it. -/
structure Rate where
  model : Text
  effectiveFrom : UtcDay
  inputCostUsdPerMtok : ℚ
  outputCostUsdPerMtok : ℚ
  cacheWriteCostUsdPerMtok : Option ℚ
  cacheReadCostUsdPerMtok : Option ℚ
  deriving DecidableEq

/-- The rows of a rate card: no two of one model begin on one day. -/
structure RateCard where
  rates : List Rate
  key : (rates.map fun r => (r.model, r.effectiveFrom)).Nodup

/-! ### The view -/

def subscription : Text := Text.of "subscription"

/-- The lateral subquery: the latest rate of the model that does not begin after the day. -/
def rateLookup (rates : List Rate) (u : Usage) : List Rate :=
  latest Rate.effectiveFrom
    (rates.filter fun r => r.model = u.model ∧ r.effectiveFrom ≤ u.ts.day)

/-- The argument of both `BOOL_AND`s. -/
def priced (u : Usage) (rate : Option Rate) : Option Bool :=
  both
    (both
      (both (isNotNull (rate.map Rate.model)) (isDistinctFrom u.pricingMode (some subscription)))
      (either (equals (some u.cacheCreationInputTokens) (some 0))
        (isNotNull (rate.bind Rate.cacheWriteCostUsdPerMtok))))
    (either (equals (some u.cacheReadInputTokens) (some 0))
      (isNotNull (rate.bind Rate.cacheReadCostUsdPerMtok)))

/-- The argument of the `SUM` of dollars. -/
def cost (u : Usage) (rate : Option Rate) : Option ℚ :=
  let plus := Option.map₂ (fun x y : ℚ => x + y)
  (plus
    (plus
      (plus (rate.map fun r => u.inputTokens * r.inputCostUsdPerMtok)
        (rate.map fun r => u.outputTokens * r.outputCostUsdPerMtok))
      (some (u.cacheCreationInputTokens * (rate.bind Rate.cacheWriteCostUsdPerMtok).getD 0)))
    (some (u.cacheReadInputTokens * (rate.bind Rate.cacheReadCostUsdPerMtok).getD 0))).map
    fun x => x / 1000000

/-- What the rows are grouped by. -/
structure DailyKey where
  appId : Text
  usageDay : UtcDay
  model : Text
  pricingMode : Option Text
  deriving DecidableEq

def Usage.key (u : Usage) : DailyKey := ⟨u.appId, u.ts.day, u.model, u.pricingMode⟩

/-- A row of the view. -/
structure DailyRow extends DailyKey where
  calls : ℕ
  inputTokens : Option ℤ
  outputTokens : Option ℤ
  cacheCreationInputTokens : Option ℤ
  cacheReadInputTokens : Option ℤ
  isPriced : Option Bool
  estCostUsd : Option ℚ
  deriving DecidableEq

/-- The row of a group. -/
def dailyRow (g : DailyKey × List (Usage × Option Rate)) : Option DailyRow := do
  let inputTokens ← toBigint (total (g.2.map fun e => some e.1.inputTokens))
  let outputTokens ← toBigint (total (g.2.map fun e => some e.1.outputTokens))
  let cacheCreationInputTokens ←
    toBigint (total (g.2.map fun e => some e.1.cacheCreationInputTokens))
  let cacheReadInputTokens ← toBigint (total (g.2.map fun e => some e.1.cacheReadInputTokens))
  let isPriced := boolAnd (g.2.map fun e => priced e.1 e.2)
  return {
    toDailyKey := g.1
    calls := g.2.length
    inputTokens := inputTokens
    outputTokens := outputTokens
    cacheCreationInputTokens := cacheCreationInputTokens
    cacheReadInputTokens := cacheReadInputTokens
    isPriced := isPriced
    estCostUsd := if isPriced = some true then total (g.2.map fun e => cost e.1 e.2) else none }

/-- `gateway_usage_daily`; a sum that does not fit leaves no rows at all. -/
def gatewayUsageDaily (usage : List Usage) (rates : List Rate) : Option (List DailyRow) :=
  (groupBy (fun e => e.1.key) (leftJoinLateral usage (rateLookup rates))).mapM dailyRow

/-! ### What it should say -/

/-- The rate in force for a call: of its model, begun by its day, and the latest such one. -/
structure InForce (rates : List Rate) (u : Usage) (r : Rate) : Prop where
  mem : r ∈ rates
  model : r.model = u.model
  begun : r.effectiveFrom ≤ u.ts.day
  latest : ∀ s ∈ rates, s.model = u.model → s.effectiveFrom ≤ u.ts.day →
    s.effectiveFrom ≤ r.effectiveFrom

/-- The rate has a price for each kind of cache tokens that the call used. -/
def Covers (u : Usage) (r : Rate) : Prop :=
  (u.cacheCreationInputTokens = 0 ∨ r.cacheWriteCostUsdPerMtok ≠ none) ∧
    (u.cacheReadInputTokens = 0 ∨ r.cacheReadCostUsdPerMtok ≠ none)

/-- A call has a price: it is not flat-rate, and the rate in force covers it. -/
def Priceable (rates : List Rate) (u : Usage) : Prop :=
  u.pricingMode ≠ some subscription ∧ ∃ r, InForce rates u r ∧ Covers u r

/-- The tokens of a call times the prices of a rate, for a million tokens. -/
def costOf (u : Usage) (r : Rate) : ℚ :=
  (u.inputTokens * r.inputCostUsdPerMtok + u.outputTokens * r.outputCostUsdPerMtok +
    u.cacheCreationInputTokens * r.cacheWriteCostUsdPerMtok.getD 0 +
    u.cacheReadInputTokens * r.cacheReadCostUsdPerMtok.getD 0) / 1000000

variable {usage : List Usage} {rates : List Rate} {card : RateCard} {u : Usage} {r : Rate}

/-! ### The lookup -/

/-- The rates of a model begin on different days. -/
theorem RateCard.inj (card : RateCard) : ∀ r ∈ card.rates, ∀ s ∈ card.rates,
    r.model = s.model → r.effectiveFrom = s.effectiveFrom → r = s := fun _ hr _ hs hmodel hday =>
  List.inj_on_of_nodup_map card.key hr hs (Prod.ext hmodel hday)

/-- **The lookup finds the rate in force.** -/
theorem rateLookup_eq_some_iff :
    (rateLookup card.rates u).head? = some r ↔ InForce card.rates u r := by
  have hmem : ∀ s, s ∈ card.rates.filter (fun r => r.model = u.model ∧ r.effectiveFrom ≤ u.ts.day) ↔
      s ∈ card.rates ∧ s.model = u.model ∧ s.effectiveFrom ≤ u.ts.day := fun s => by
    rw [List.mem_filter, decide_eq_true_iff]
  rw [rateLookup, Sql.latest_eq_some_iff fun x hx y hy =>
    card.inj x ((hmem x).1 hx).1 y ((hmem y).1 hy).1
      (((hmem x).1 hx).2.1.trans ((hmem y).1 hy).2.1.symm)]
  constructor
  · rintro ⟨hr, hle⟩
    obtain ⟨hr, hmodel, hday⟩ := (hmem r).1 hr
    exact ⟨hr, hmodel, hday, fun s hs hs' hs'' => hle s ((hmem s).2 ⟨hs, hs', hs''⟩)⟩
  · rintro ⟨hr, hmodel, hday, hle⟩
    refine ⟨(hmem r).2 ⟨hr, hmodel, hday⟩, fun s hs => ?_⟩
    obtain ⟨hs, hs', hs''⟩ := (hmem s).1 hs
    exact hle s hs hs' hs''

/-- The join drops no call and multiplies none. -/
theorem join_eq (usage : List Usage) (rates : List Rate) :
    leftJoinLateral usage (rateLookup rates) =
      usage.map fun u => (u, (rateLookup rates u).head?) :=
  Sql.leftJoinLateral_eq_map usage fun _ => Sql.latest_length _ _

/-! ### Prices -/

instance (u : Usage) (r : Rate) : Decidable (Covers u r) :=
  inferInstanceAs (Decidable (_ ∧ _))

/-- The condition of a call is never unknown. -/
theorem priced_eq (u : Usage) (rate : Option Rate) : priced u rate =
    some (decide (u.pricingMode ≠ some subscription ∧ ∃ r ∈ rate, Covers u r)) := by
  unfold priced isNotNull isDistinctFrom equals
  cases rate with
  | none => cases u.pricingMode <;> simp [Sql.both, Sql.either]
  | some r =>
    simp only [Option.map₂_some_some, Sql.both_some, Sql.either_some, Option.map_some,
      Option.bind_some, Option.isSome_some, Bool.true_and, Option.some.injEq]
    rw [Bool.eq_iff_iff]
    simp only [Bool.and_eq_true, Bool.or_eq_true, decide_eq_true_eq, Option.mem_some_iff,
      exists_eq_left', Covers, Option.isSome_iff_ne_none]
    exact and_assoc

theorem priced_eq_true_iff : priced u (rateLookup card.rates u).head? = some true ↔
    Priceable card.rates u := by
  rw [priced_eq, Option.some.injEq, decide_eq_true_iff, Priceable]
  exact and_congr_right fun _ => exists_congr fun r =>
    and_congr_left fun _ => rateLookup_eq_some_iff

theorem cost_some (u : Usage) (r : Rate) : cost u (some r) = some (costOf u r) := rfl

/-- The dollars of a call are those of the rate in force. -/
theorem cost_of_inForce (h : InForce card.rates u r) :
    cost u (rateLookup card.rates u).head? = some (costOf u r) := by
  rw [rateLookup_eq_some_iff.2 h, cost_some]

/-! ### The rows -/

/-- The columns of tokens. -/
def tokenColumns : List ((DailyRow → Option ℤ) × (Usage → ℤ)) :=
  [(DailyRow.inputTokens, Usage.inputTokens), (DailyRow.outputTokens, Usage.outputTokens),
    (DailyRow.cacheCreationInputTokens, Usage.cacheCreationInputTokens),
    (DailyRow.cacheReadInputTokens, Usage.cacheReadInputTokens)]

/-- The tokens of some calls fit the columns of a row. -/
def SumsFit (us : List Usage) : Prop :=
  ∀ column ∈ tokenColumns, FitsBigint (us.map column.2).sum

instance (us : List Usage) : Decidable (SumsFit us) :=
  inferInstanceAs (Decidable (∀ column ∈ tokenColumns, FitsBigint (us.map column.2).sum))

/-- The row of some calls whose tokens fit, with the rates that were found. -/
def rowOf (k : DailyKey) (us : List Usage) (rate : Usage → Option Rate) : DailyRow where
  toDailyKey := k
  calls := us.length
  inputTokens := some (us.map Usage.inputTokens).sum
  outputTokens := some (us.map Usage.outputTokens).sum
  cacheCreationInputTokens := some (us.map Usage.cacheCreationInputTokens).sum
  cacheReadInputTokens := some (us.map Usage.cacheReadInputTokens).sum
  isPriced := boolAnd (us.map fun u => priced u (rate u))
  estCostUsd :=
    if boolAnd (us.map fun u => priced u (rate u)) = some true then
      total (us.map fun u => cost u (rate u))
    else none

theorem sumsFit_iff {us : List Usage} : SumsFit us ↔
    FitsBigint (us.map Usage.inputTokens).sum ∧ FitsBigint (us.map Usage.outputTokens).sum ∧
      FitsBigint (us.map Usage.cacheCreationInputTokens).sum ∧
      FitsBigint (us.map Usage.cacheReadInputTokens).sum := by
  simp [SumsFit, tokenColumns]

theorem dailyRow_eq (k : DailyKey) {us : List Usage} (hne : us ≠ []) (rate : Usage → Option Rate) :
    dailyRow (k, us.map fun u => (u, rate u)) =
      if SumsFit us then some (rowOf k us rate) else none := by
  have hsum : ∀ f : Usage → ℤ, toBigint (total (us.map fun u => some (f u))) =
      if FitsBigint (us.map f).sum then some (some (us.map f).sum) else none := fun f => by
    rw [Sql.total_map_some hne]
    rfl
  unfold dailyRow
  simp only [List.map_map, Function.comp_def, List.length_map, hsum, sumsFit_iff]
  by_cases h₁ : FitsBigint (us.map Usage.inputTokens).sum
  · by_cases h₂ : FitsBigint (us.map Usage.outputTokens).sum
    · by_cases h₃ : FitsBigint (us.map Usage.cacheCreationInputTokens).sum
      · by_cases h₄ : FitsBigint (us.map Usage.cacheReadInputTokens).sum
        · simp only [h₁, h₂, h₃, h₄, and_self, if_true]
          rfl
        · simp [h₁, h₂, h₃, h₄]
      · simp [h₁, h₂, h₃]
    · simp [h₁, h₂]
  · simp [h₁]

/-- **The rows of the view**, by the groups of the calls. -/
theorem gatewayUsageDaily_eq (usage : List Usage) (rates : List Rate) :
    gatewayUsageDaily usage rates =
      if ∀ g ∈ groupBy Usage.key usage, SumsFit g.2 then
        some ((groupBy Usage.key usage).map fun g =>
          rowOf g.1 g.2 fun u => (rateLookup rates u).head?)
      else none := by
  rw [gatewayUsageDaily, join_eq, Sql.groupBy_map, List.mapM_map]
  exact Sql.mapM_eq_ite fun g hg => dailyRow_eq g.1 (Sql.ne_nil_of_mem_groupBy hg) _

/-- The tokens of the groups fit if those of every key do. -/
theorem sumsFit_groups (usage : List Usage) : (∀ g ∈ groupBy Usage.key usage, SumsFit g.2) ↔
    ∀ k, SumsFit (usage.filter (·.key = k)) := by
  constructor
  · intro h k
    by_cases hk : k ∈ usage.map Usage.key
    · exact h (k, usage.filter (·.key = k)) (Sql.mem_groupBy.2 ⟨hk, rfl⟩)
    · -- no call has this key
      have hnil : usage.filter (·.key = k) = [] := List.filter_eq_nil_iff.2 fun u hu hkey =>
        hk (of_decide_eq_true hkey ▸ List.mem_map_of_mem hu)
      rw [hnil]
      decide
  · intro h g hg
    rw [(Sql.mem_groupBy.1 hg).2]
    exact h g.1

/-- What the row of some calls should say. -/
structure RowCorrect (card : RateCard) (us : List Usage) (row : DailyRow) : Prop where
  calls : row.calls = us.length
  tokens : ∀ column ∈ tokenColumns, column.1 row = some (us.map column.2).sum
  isPriced : row.isPriced = some true ↔ ∀ u ∈ us, Priceable card.rates u
  isPriced_known : row.isPriced ≠ none
  estCostUsd_known : row.estCostUsd ≠ none ↔ ∀ u ∈ us, Priceable card.rates u
  estCostUsd : ∀ rate : Usage → Rate, (∀ u ∈ us, Priceable card.rates u) →
    (∀ u ∈ us, InForce card.rates u (rate u)) →
    row.estCostUsd = some (us.map fun u => costOf u (rate u)).sum

theorem rowOf_correct (card : RateCard) {us : List Usage} (hne : us ≠ []) (k : DailyKey) :
    RowCorrect card us (rowOf k us fun u => (rateLookup card.rates u).head?) := by
  have hpriced : boolAnd (us.map fun u => priced u (rateLookup card.rates u).head?) = some true ↔
      ∀ u ∈ us, Priceable card.rates u := by
    simp only [priced_eq]
    rw [Sql.boolAnd_map_some hne, Option.some.injEq, List.all_eq_true]
    refine forall₂_congr fun u _ => ?_
    rw [← priced_eq_true_iff, priced_eq, Option.some.injEq]
  have hcost : ∀ rate : Usage → Rate, (∀ u ∈ us, InForce card.rates u (rate u)) →
      total (us.map fun u => cost u (rateLookup card.rates u).head?) =
        some (us.map fun u => costOf u (rate u)).sum := by
    intro rate hrate
    rw [← Sql.total_map_some hne]
    exact congrArg total (List.map_congr_left fun u hu => cost_of_inForce (hrate u hu))
  refine ⟨rfl, ?_, hpriced, ?_, ?_, fun rate hall hrate => ?_⟩
  · simp [tokenColumns, rowOf]
  · simp only [rowOf, priced_eq]
    rw [Sql.boolAnd_map_some hne]
    exact Option.some_ne_none _
  · constructor
    · intro h
      by_contra hnot
      exact h (if_neg fun htrue => hnot (hpriced.1 htrue))
    · intro hall
      obtain ⟨u, hu⟩ := List.exists_mem_of_ne_nil us hne
      have hnonempty : Nonempty Rate := ⟨(hall u hu).2.choose⟩
      -- each call has a rate in force
      choose! rate hrate using fun u hu => (hall u hu).2
      rw [rowOf, if_pos (hpriced.2 hall), hcost rate fun u hu => (hrate u hu).1]
      exact Option.some_ne_none _
  · rw [rowOf, if_pos (hpriced.2 hall), hcost rate hrate]

/-- What the rows of the view should say: every call belongs to one row, by its application, its
UTC day, its model and its pricing mode, and the rows together count and sum all calls. -/
structure DailyCorrect (usage : List Usage) (card : RateCard) (rows : List DailyRow) : Prop where
  keys : (rows.map DailyRow.toDailyKey).Nodup
  grouped : ∀ u ∈ usage, ∃ row ∈ rows, row.toDailyKey = u.key
  nonempty : ∀ row ∈ rows, usage.filter (·.key = row.toDailyKey) ≠ []
  correct : ∀ row ∈ rows, RowCorrect card (usage.filter (·.key = row.toDailyKey)) row
  calls : (rows.map DailyRow.calls).sum = usage.length
  tokens : ∀ column ∈ tokenColumns,
    (rows.map fun row => (column.1 row).getD 0).sum = (usage.map column.2).sum

theorem rows_correct (usage : List Usage) (card : RateCard) :
    DailyCorrect usage card ((groupBy Usage.key usage).map fun g =>
      rowOf g.1 g.2 fun u => (rateLookup card.rates u).head?) := by
  have hcorrect : ∀ g ∈ groupBy Usage.key usage, RowCorrect card g.2
      (rowOf g.1 g.2 fun u => (rateLookup card.rates u).head?) := fun g hg =>
    rowOf_correct card (Sql.ne_nil_of_mem_groupBy hg) g.1
  have hrows : ∀ g ∈ groupBy Usage.key usage, usage.filter (·.key = g.1) = g.2 := fun g hg =>
    (Sql.mem_groupBy.1 hg).2.symm
  refine ⟨?_, fun u hu => ?_, fun row hrow => ?_, fun row hrow => ?_, ?_, fun column hcolumn => ?_⟩
  · rw [List.map_map]
    show ((groupBy Usage.key usage).map Prod.fst).Nodup
    rw [Sql.map_fst_groupBy]
    exact List.nodup_dedup _
  · have hkey : u.key ∈ (groupBy Usage.key usage).map Prod.fst := by
      rw [Sql.map_fst_groupBy, List.mem_dedup]
      exact List.mem_map_of_mem hu
    obtain ⟨g, hg, hgkey⟩ := List.mem_map.1 hkey
    exact ⟨_, List.mem_map_of_mem hg, hgkey⟩
  · obtain ⟨g, hg, rfl⟩ := List.mem_map.1 hrow
    show usage.filter (·.key = g.1) ≠ []
    rw [hrows g hg]
    exact Sql.ne_nil_of_mem_groupBy hg
  · obtain ⟨g, hg, rfl⟩ := List.mem_map.1 hrow
    show RowCorrect card (usage.filter (·.key = g.1)) _
    rw [hrows g hg]
    exact hcorrect g hg
  · have hsum := Sql.sum_groupBy Usage.key usage fun _ => 1
    rw [List.map_const', List.sum_replicate, smul_eq_mul, mul_one] at hsum
    rw [List.map_map, ← hsum]
    refine congrArg List.sum (List.map_congr_left fun g _ => ?_)
    rw [List.map_const', List.sum_replicate, smul_eq_mul, mul_one]
    rfl
  · rw [List.map_map, ← Sql.sum_groupBy Usage.key usage column.2]
    refine congrArg List.sum (List.map_congr_left fun g hg => ?_)
    rw [Function.comp_apply, (hcorrect g hg).tokens column hcolumn, Option.getD_some]

/-- **The daily rollup is correct.** A row counts its calls and sums their tokens; it is priced,
and has a cost, exactly if each of its calls has a price, and then the cost is the sum of what
the calls cost at the rates in force. The view gives no rows if the tokens of some group are too
many for a `BIGINT`. -/
theorem daily_correct (usage : List Usage) (card : RateCard) :
    ((∀ k, SumsFit (usage.filter (·.key = k))) ∧
      ∃ rows, gatewayUsageDaily usage card.rates = some rows ∧ DailyCorrect usage card rows) ∨
    ((∃ k, ¬ SumsFit (usage.filter (·.key = k))) ∧ gatewayUsageDaily usage card.rates = none) := by
  rw [gatewayUsageDaily_eq]
  by_cases h : ∀ k, SumsFit (usage.filter (·.key = k))
  · rw [if_pos ((sumsFit_groups usage).2 h)]
    exact .inl ⟨h, _, rfl, rows_correct usage card⟩
  · rw [if_neg fun hnot => h ((sumsFit_groups usage).1 hnot)]
    exact .inr ⟨not_forall.1 h, rfl⟩

/-- A call of very many tokens. -/
def wholeBudget : Usage where
  appId := Text.of "app"
  model := Text.of "model"
  pricingMode := none
  inputTokens := 2 ^ 62
  outputTokens := 0
  cacheCreationInputTokens := 0
  cacheReadInputTokens := 0
  ts := .instant 0

/-- Two such calls of one day are too many for the view. -/
theorem daily_overflow : gatewayUsageDaily [wholeBudget, wholeBudget] [] = none := by
  decide +kernel

end Tokenweir.Rollup
