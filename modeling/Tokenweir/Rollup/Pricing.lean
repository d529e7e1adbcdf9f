import Tokenweir.Rollup.Daily

/-!
# Publishing a price

What a new row of the rate card changes in the daily rollup: the price of the groups of its model
that it is in force for, and nothing else. The order of the rows does not matter.

* `rateLookup_perm`, `rateLookup_publish`;
* `InWindow`, `Kept`, `kept_rowOf`;
* `publish_local`.
-/

namespace Tokenweir.Rollup

open Sql (UtcDay boolAnd total groupBy)

variable {usage usage' : List Usage} {card card' : RateCard} {u : Usage} {r s : Rate}

/-! ### The lookup -/

/-- The order of the rates does not matter for the lookup. -/
theorem rateLookup_perm (h : card.rates.Perm card'.rates) (u : Usage) :
    (rateLookup card.rates u).head? = (rateLookup card'.rates u).head? := by
  refine Option.ext fun r => ?_
  rw [rateLookup_eq_some_iff, rateLookup_eq_some_iff]
  constructor
  · rintro ⟨hr, hmodel, hbegun, hlatest⟩
    exact ⟨h.mem_iff.1 hr, hmodel, hbegun, fun s hs => hlatest s (h.mem_iff.2 hs)⟩
  · rintro ⟨hr, hmodel, hbegun, hlatest⟩
    exact ⟨h.mem_iff.2 hr, hmodel, hbegun, fun s hs => hlatest s (h.mem_iff.1 hs)⟩

/-- The days on which a rate is in force, beside the others of a card: from its own day to the
day before the next one of the model. -/
def Applies (card : RateCard) (r : Rate) (model : Text) (day : UtcDay) : Prop :=
  model = r.model ∧ r.effectiveFrom ≤ day ∧
    ∀ s ∈ card.rates, s.model = r.model → r.effectiveFrom < s.effectiveFrom → day < s.effectiveFrom

/-- **The lookup is local**: outside its days, a rate that is published is not found and hides no
other. -/
theorem rateLookup_publish (h : card'.rates.Perm (r :: card.rates))
    (hu : ¬ Applies card r u.model u.ts.day) :
    (rateLookup card'.rates u).head? = (rateLookup card.rates u).head? := by
  have hmem : ∀ s, s ∈ card'.rates ↔ s = r ∨ s ∈ card.rates := fun s =>
    h.mem_iff.trans List.mem_cons
  -- a rate of the model after the one that is published has begun
  have hnext : r.model = u.model → r.effectiveFrom ≤ u.ts.day → ∃ s ∈ card.rates,
      s.model = u.model ∧ r.effectiveFrom < s.effectiveFrom ∧ s.effectiveFrom ≤ u.ts.day := by
    intro hmodel hbegun
    by_contra hnot
    refine hu ⟨hmodel.symm, hbegun, fun s hs hsmodel hlt => lt_of_not_ge fun hle => hnot ?_⟩
    exact ⟨s, hs, hsmodel.trans hmodel, hlt, hle⟩
  refine Option.ext fun x => ?_
  rw [rateLookup_eq_some_iff, rateLookup_eq_some_iff]
  constructor
  · rintro ⟨hx, hmodel, hbegun, hlatest⟩
    have hlatest' : ∀ s ∈ card.rates, s.model = u.model → s.effectiveFrom ≤ u.ts.day →
        s.effectiveFrom ≤ x.effectiveFrom := fun s hs => hlatest s ((hmem s).2 (.inr hs))
    rcases (hmem x).1 hx with rfl | hx
    · obtain ⟨s, hs, hsmodel, hlt, hle⟩ := hnext hmodel hbegun
      exact absurd (hlatest' s hs hsmodel hle) hlt.not_ge
    · exact ⟨hx, hmodel, hbegun, hlatest'⟩
  · rintro ⟨hx, hmodel, hbegun, hlatest⟩
    refine ⟨(hmem x).2 (.inr hx), hmodel, hbegun, fun s hs hsmodel hsbegun => ?_⟩
    rcases (hmem s).1 hs with rfl | hs
    · obtain ⟨t, ht, htmodel, hlt, hle⟩ := hnext hsmodel hsbegun
      exact hlt.le.trans (hlatest t ht htmodel hle)
    · exact hlatest s hs hsmodel hsbegun

/-! ### The rows -/

/-- A row whose price may change: of the model of the rate, not flat-rate, on one of its days. -/
def InWindow (card : RateCard) (r : Rate) (row : DailyRow) : Prop :=
  row.pricingMode ≠ some subscription ∧ Applies card r row.model row.usageDay

/-- What is kept of a row. -/
structure Kept (card : RateCard) (r : Rate) (row row' : DailyRow) : Prop where
  key : row'.toDailyKey = row.toDailyKey
  calls : row'.calls = row.calls
  tokens : ∀ column ∈ tokenColumns, column.1 row' = column.1 row
  outside : ¬ InWindow card r row → row' = row

/-- Calls at a flat rate have no price, whatever the rates are. -/
theorem priced_subscription (hu : u.pricingMode = some subscription) (rate : Option Rate) :
    priced u rate = some false := by
  rw [priced_eq, decide_eq_false fun h => h.1 hu]

theorem rowOf_subscription (k : DailyKey) {us : List Usage} (hne : us ≠ [])
    (hus : ∀ u ∈ us, u.pricingMode = some subscription) (rate rate' : Usage → Option Rate) :
    rowOf k us rate' = rowOf k us rate := by
  have hnot : ∀ rate : Usage → Option Rate,
      boolAnd (us.map fun u => priced u (rate u)) = some false := by
    intro rate
    have hcongr : (us.map fun u => priced u (rate u)) = us.map fun _ => some false :=
      List.map_congr_left fun u hu => priced_subscription (hus u hu) (rate u)
    rw [hcongr, Sql.boolAnd_map_some hne]
    cases us with
    | nil => exact absurd rfl hne
    | cons u us => rfl
  unfold rowOf
  rw [hnot rate, hnot rate']
  rfl

theorem rowOf_congr (k : DailyKey) {us : List Usage} {rate rate' : Usage → Option Rate}
    (h : ∀ u ∈ us, rate' u = rate u) : rowOf k us rate' = rowOf k us rate := by
  have hpriced : (us.map fun u => priced u (rate' u)) = us.map fun u => priced u (rate u) :=
    List.map_congr_left fun u hu => by rw [h u hu]
  have hcost : (us.map fun u => cost u (rate' u)) = us.map fun u => cost u (rate u) :=
    List.map_congr_left fun u hu => by rw [h u hu]
  rw [rowOf, rowOf, hpriced, hcost]

/-- What a group keeps when a rate is published. -/
theorem kept_rowOf (h : card'.rates.Perm (r :: card.rates)) {g : DailyKey × List Usage}
    (hg : g ∈ groupBy Usage.key usage) :
    Kept card r (rowOf g.1 g.2 fun u => (rateLookup card.rates u).head?)
      (rowOf g.1 g.2 fun u => (rateLookup card'.rates u).head?) := by
  have hkey : ∀ u ∈ g.2, u.key = g.1 := by
    intro u hu
    rw [(Sql.mem_groupBy.1 hg).2] at hu
    exact of_decide_eq_true (List.mem_filter.1 hu).2
  refine ⟨rfl, rfl, ?_, fun hout => ?_⟩
  · simp [tokenColumns, rowOf]
  · by_cases hmode : g.1.pricingMode = some subscription
    · refine rowOf_subscription g.1 (Sql.ne_nil_of_mem_groupBy hg) (fun u hu => ?_) _ _
      rw [← hmode, ← hkey u hu]
      rfl
    · refine rowOf_congr g.1 fun u hu => rateLookup_publish h fun happlies => hout ⟨hmode, ?_⟩
      show Applies card r g.1.model g.1.usageDay
      rw [← hkey u hu]
      exact happlies

/-- The order of the calls does not matter for the row of a group. -/
theorem rowOf_perm (k : DailyKey) {us us' : List Usage} (h : us.Perm us')
    (rate : Usage → Option Rate) : rowOf k us rate = rowOf k us' rate := by
  unfold rowOf
  rw [h.length_eq, (h.map _).sum_eq, (h.map Usage.outputTokens).sum_eq,
    (h.map Usage.cacheCreationInputTokens).sum_eq, (h.map Usage.cacheReadInputTokens).sum_eq,
    Sql.boolAnd_perm (h.map fun u => priced u (rate u)),
    Sql.total_perm (h.map fun u => cost u (rate u))]

/-! ### The view -/

/-- The order of the rows of the tables does not matter for the view. -/
theorem gatewayUsageDaily_perm (husage : usage.Perm usage') (hrates : card.rates.Perm card'.rates) :
    Option.Rel List.Perm (gatewayUsageDaily usage card.rates)
      (gatewayUsageDaily usage' card'.rates) := by
  have hlookup : (fun u => (rateLookup card.rates u).head?) =
      fun u => (rateLookup card'.rates u).head? := by
    funext u
    exact rateLookup_perm hrates u
  have hfits : (∀ k, SumsFit (usage.filter (·.key = k))) ↔
      ∀ k, SumsFit (usage'.filter (·.key = k)) := by
    refine forall_congr' fun k => forall₂_congr fun column _ => ?_
    rw [((husage.filter _).map column.2).sum_eq]
  rw [gatewayUsageDaily_eq, gatewayUsageDaily_eq, hlookup]
  by_cases h : ∀ k, SumsFit (usage.filter (·.key = k))
  · rw [if_pos ((sumsFit_groups usage).2 h), if_pos ((sumsFit_groups usage').2 (hfits.1 h))]
    exact .some (Sql.map_groupBy_perm (fun k l l' hl => rowOf_perm k hl _) husage)
  · rw [if_neg fun hnot => h ((sumsFit_groups usage).1 hnot),
      if_neg fun hnot => h (hfits.2 ((sumsFit_groups usage').1 hnot))]
    exact .none

/-- **Publishing a price is local.** A rate that is added to a card, or taken from it, keeps every
row of the view but the prices of those of its model, not flat-rate, from its day to the day
before the next one of the model; and the order of the rows of either table changes nothing. -/
theorem publish_local (usage : List Usage) {card card' : RateCard} {r : Rate}
    (h : card'.rates.Perm (r :: card.rates)) :
    Option.Rel (List.Forall₂ (Kept card r)) (gatewayUsageDaily usage card.rates)
        (gatewayUsageDaily usage card'.rates) ∧
      ∀ (usage₁ usage₂ : List Usage) (card₁ card₂ : RateCard), usage₁.Perm usage₂ →
        card₁.rates.Perm card₂.rates → Option.Rel List.Perm
          (gatewayUsageDaily usage₁ card₁.rates) (gatewayUsageDaily usage₂ card₂.rates) := by
  refine ⟨?_, fun _ _ _ _ husage hrates => gatewayUsageDaily_perm husage hrates⟩
  rw [gatewayUsageDaily_eq, gatewayUsageDaily_eq]
  by_cases hfits : ∀ g ∈ groupBy Usage.key usage, SumsFit g.2
  · rw [if_pos hfits, if_pos hfits]
    refine .some ?_
    rw [List.forall₂_map_left_iff, List.forall₂_map_right_iff, List.forall₂_same]
    exact fun g hg => kept_rowOf h hg
  · rw [if_neg hfits, if_neg hfits]
    exact .none

/-- A card of no rates, and one with a rate of a model. -/
theorem publish_local_first :
    Option.Rel (List.Forall₂ (Kept ⟨[], List.nodup_nil⟩
        ⟨Text.of "model", .day 1, 3, 15, none, none⟩))
      (gatewayUsageDaily [wholeBudget] [])
      (gatewayUsageDaily [wholeBudget] [⟨Text.of "model", .day 1, 3, 15, none, none⟩]) :=
  (@publish_local [wholeBudget] ⟨[], List.nodup_nil⟩
    ⟨[⟨Text.of "model", .day 1, 3, 15, none, none⟩], List.nodup_singleton _⟩ _ (List.Perm.refl _)).1

end Tokenweir.Rollup
