import Tokenweir.Rollup.Billing

/-!
# A bill that grows

What the records that are stored between two moments of a run change in the daily rollup: the
rows of their own groups, which grow by them, and nothing else.

* `rowAt`, `Grown`; `rowAt_eq`, `grown_rowOf`;
* `daily_append`, more calls over one card;
* `run_table`, the table is append-only; `view_grows`.
-/

namespace Tokenweir.Rollup

open Emitter (Config Event)
open Store (Row Pipeline pipeline rowsOf)
open Sql (boolAnd total FitsBigint groupBy)

/-! ### The row of a group -/

/-- The row of a key. -/
def rowAt (rows : List DailyRow) (k : DailyKey) : Option DailyRow :=
  rows.find? fun row => row.toDailyKey = k

/-- A row, `row'`, that was another one, or none, before some more calls of its group. -/
structure Grown (card : RateCard) (row : Option DailyRow) (us : List Usage) (row' : DailyRow) :
    Prop where
  calls : row'.calls = (row.map DailyRow.calls).getD 0 + us.length
  tokens : ∀ column ∈ tokenColumns,
    column.1 row' = some ((row.bind column.1).getD 0 + (us.map column.2).sum)
  isPriced : row'.isPriced = some true ↔
    (∀ r ∈ row, r.isPriced = some true) ∧ ∀ u ∈ us, Priceable card.rates u
  estCostUsd : ∀ rate : Usage → Rate, row'.isPriced = some true →
    (∀ u ∈ us, InForce card.rates u (rate u)) →
    row'.estCostUsd = some ((row.bind DailyRow.estCostUsd).getD 0 +
      (us.map fun u => costOf u (rate u)).sum)

variable {card : RateCard} {us vs : List Usage} {rows : List DailyRow} {k : DailyKey}

/-- The rate that the view finds for a call. -/
def found (card : RateCard) (u : Usage) : Option Rate := (rateLookup card.rates u).head?

theorem rowOf_found (card : RateCard) {us : List Usage} (hne : us ≠ []) (k : DailyKey) :
    RowCorrect card us (rowOf k us (found card)) :=
  rowOf_correct card hne k

theorem gatewayUsageDaily_some (h : gatewayUsageDaily us card.rates = some rows) :
    (∀ k, SumsFit (us.filter (·.key = k))) ∧
      rows = (groupBy Usage.key us).map fun g => rowOf g.1 g.2 (found card) := by
  rw [gatewayUsageDaily_eq] at h
  split_ifs at h with hfits
  exact ⟨(sumsFit_groups us).1 hfits, (Option.some.inj h).symm⟩

/-- The row of a key is that of its calls. -/
theorem rowAt_eq (h : gatewayUsageDaily us card.rates = some rows) (k : DailyKey) :
    rowAt rows k = if us.filter (·.key = k) = [] then none
      else some (rowOf k (us.filter (·.key = k)) (found card)) := by
  obtain ⟨-, rfl⟩ := gatewayUsageDaily_some h
  unfold rowAt
  by_cases hk : us.filter (·.key = k) = []
  · rw [if_pos hk, List.find?_eq_none]
    intro row hrow hkey
    obtain ⟨g, hg, rfl⟩ := List.mem_map.1 hrow
    obtain rfl : g.1 = k := of_decide_eq_true hkey
    exact Sql.ne_nil_of_mem_groupBy hg ((Sql.mem_groupBy.1 hg).2.trans hk)
  · rw [if_neg hk]
    obtain ⟨u, hu⟩ := List.exists_mem_of_ne_nil _ hk
    obtain ⟨hu, huk⟩ := List.mem_filter.1 hu
    have hgroup : (k, us.filter (·.key = k)) ∈ groupBy Usage.key us :=
      Sql.mem_groupBy.2 ⟨of_decide_eq_true huk ▸ List.mem_map_of_mem hu, rfl⟩
    cases hfind : ((groupBy Usage.key us).map fun g => rowOf g.1 g.2 (found card)).find?
        fun row => row.toDailyKey = k with
    | none =>
      have hnone := List.find?_eq_none.1 hfind _ (List.mem_map_of_mem hgroup)
      exact absurd rfl (fun hrfl => hnone (decide_eq_true hrfl))
    | some row =>
      -- no other group has this key
      obtain ⟨g, hg, rfl⟩ := List.mem_map.1 (List.mem_of_find?_eq_some hfind)
      have hkey := List.find?_some hfind
      have hkey' : g.1 = k := of_decide_eq_true hkey
      rw [(Sql.mem_groupBy.1 hg).2, hkey']

/-- **A group that grows.** -/
theorem grown_rowOf (card : RateCard) (k : DailyKey) (us : List Usage) {vs : List Usage}
    (hvs : vs ≠ []) :
    Grown card (if us = [] then none else some (rowOf k us (found card))) vs
      (rowOf k (us ++ vs) (found card)) := by
  have hne : us ++ vs ≠ [] := fun h => hvs (List.append_eq_nil_iff.1 h).2
  have hafter := rowOf_found card hne k
  by_cases hus : us = []
  · subst hus
    rw [if_pos rfl]
    refine ⟨?_, fun column hcolumn => ?_, ?_, fun rate hpriced hrate => ?_⟩
    · simp [rowOf]
    · rw [hafter.tokens column hcolumn]
      simp
    · rw [hafter.isPriced]
      simp
    · rw [hafter.estCostUsd rate (hafter.isPriced.1 hpriced) hrate]
      simp
  · rw [if_neg hus]
    have hbefore := rowOf_found card hus k
    refine ⟨?_, fun column hcolumn => ?_, ?_, fun rate hpriced hrate => ?_⟩
    · simp [rowOf]
    · rw [hafter.tokens column hcolumn, Option.bind_some, hbefore.tokens column hcolumn,
        List.map_append, List.sum_append, Option.getD_some]
    · rw [hafter.isPriced, List.forall_mem_append]
      simp only [Option.mem_some_iff, forall_eq', hbefore.isPriced]
    · have hall := hafter.isPriced.1 hpriced
      have hold : ∀ u ∈ us, Priceable card.rates u := fun u hu =>
        hall u (List.mem_append_left _ hu)
      have hnonempty : Nonempty Rate := ⟨(hold _ (List.getLast_mem hus)).2.choose⟩
      -- the rates of the calls before are those that were in force for them
      choose! rate' hrate' using fun u hu => (hold u hu).2
      have hsame : ∀ u ∈ us, ∀ v ∈ vs, u = v → rate' u = rate v := fun u hu v hv huv => by
        have h₁ := rateLookup_eq_some_iff.2 (hrate' u hu).1
        have h₂ := rateLookup_eq_some_iff.2 (hrate v hv)
        rw [huv, h₂] at h₁
        rw [huv]
        exact (Option.some.inj h₁).symm
      classical
      have hboth : ∀ u ∈ us ++ vs,
          InForce card.rates u (if u ∈ us then rate' u else rate u) := fun u hu => by
        by_cases hmem : u ∈ us
        · rw [if_pos hmem]
          exact (hrate' u hmem).1
        · rw [if_neg hmem]
          exact hrate u ((List.mem_append.1 hu).resolve_left hmem)
      rw [hafter.estCostUsd _ hall hboth, Option.bind_some,
        hbefore.estCostUsd rate' hold fun u hu => (hrate' u hu).1, List.map_append,
        List.sum_append, Option.getD_some]
      refine congrArg some (congrArg₂ _ (congrArg List.sum ?_) (congrArg List.sum ?_))
      · exact List.map_congr_left fun u hu => by rw [if_pos hu]
      · refine List.map_congr_left fun u hu => ?_
        by_cases hmem : u ∈ us
        · rw [if_pos hmem, hsame u hmem u hu rfl]
        · rw [if_neg hmem]

/-! ### More calls -/

/-- No count is negative. -/
def Counted (u : Usage) : Prop := ∀ column ∈ tokenColumns, 0 ≤ column.2 u

/-- What fits with more calls fits without them. -/
theorem SumsFit.of_append (h : SumsFit (us ++ vs)) (hus : ∀ u ∈ us, Counted u)
    (hvs : ∀ u ∈ vs, Counted u) : SumsFit us := by
  intro column hcolumn
  have hfits := h column hcolumn
  have hnonneg : ∀ ws : List Usage, (∀ u ∈ ws, Counted u) → 0 ≤ (ws.map column.2).sum :=
    fun ws hws => List.sum_nonneg fun n hn => by
      obtain ⟨u, hu, rfl⟩ := List.mem_map.1 hn
      exact hws u hu column hcolumn
  have h₁ := hnonneg us hus
  have h₂ := hnonneg vs hvs
  unfold FitsBigint at hfits ⊢
  rw [List.map_append, List.sum_append] at hfits
  omega

/-- **More calls**, over one card. -/
theorem daily_append {rows' : List DailyRow} (hus : ∀ u ∈ us, Counted u) (hvs : ∀ u ∈ vs, Counted u)
    (h : gatewayUsageDaily (us ++ vs) card.rates = some rows') :
    ∃ rows, gatewayUsageDaily us card.rates = some rows ∧ ∀ k,
      (vs.filter (·.key = k) = [] → rowAt rows' k = rowAt rows k) ∧
      (vs.filter (·.key = k) ≠ [] → ∃ row', rowAt rows' k = some row' ∧
        Grown card (rowAt rows k) (vs.filter (·.key = k)) row') := by
  obtain ⟨hfits, -⟩ := gatewayUsageDaily_some h
  have hbefore : ∀ k, SumsFit (us.filter (·.key = k)) := fun k => by
    have hk := hfits k
    rw [List.filter_append] at hk
    exact hk.of_append (fun u hu => hus u (List.mem_filter.1 hu).1)
      fun u hu => hvs u (List.mem_filter.1 hu).1
  obtain ⟨rows, hrows⟩ : ∃ rows, gatewayUsageDaily us card.rates = some rows := by
    rw [gatewayUsageDaily_eq, if_pos ((sumsFit_groups us).2 hbefore)]
    exact ⟨_, rfl⟩
  refine ⟨rows, hrows, fun k => ⟨fun hnone => ?_, fun hsome => ?_⟩⟩
  · rw [rowAt_eq h, rowAt_eq hrows, List.filter_append, hnone, List.append_nil]
  · rw [rowAt_eq h, rowAt_eq hrows, List.filter_append]
    have hne : us.filter (·.key = k) ++ vs.filter (·.key = k) ≠ [] := fun hnil =>
      hsome (List.append_eq_nil_iff.1 hnil).2
    rw [if_neg hne]
    exact ⟨_, rfl, grown_rowOf card k _ hsome⟩

/-! ### The table -/

variable {cfg : Config} {as bs : List Store.Action} {evs evs' : List (Event UsageRecord)}
  {s t : Pipeline}

/-- The database after a step of a call. -/
def after : Store.Progress → Store.Database
  | .inside _ db => db
  | .ended _ _ db => db

/-- No step of a call takes a row from the table. -/
theorem progress_table {sink : Store.DirectSink} {db : Store.Database} {c : Store.Call}
    {a : Store.Action} {p : Store.Progress} (h : Store.progress sink db c a = some p) :
    db.table <+: (after p).table := by
  cases Store.progress_cases h with
  | committed rs done => exact List.prefix_append _ _
  | commitCut rs done =>
    cases done with
    | true => exact List.prefix_append _ _
    | false => exact List.prefix_rfl
  | _ => exact List.prefix_rfl

/-- **The table is append-only.** -/
theorem run_table (h : (pipeline cfg).run s bs = some (t, evs)) : s.db.table <+: t.db.table := by
  refine Machine.run_induction (M := pipeline cfg) (I := fun _ _ t => s.db.table <+: t.db.table)
    List.prefix_rfl (fun _ _ u a v _ hu hstep => hu.trans ?_) h
  cases Store.step_cases hstep with
  | client | sinkClosed => exact List.prefix_rfl
  | inside a c c' db hc hp => exact progress_table hp
  | ended a c o sink db t es hc hp hs => exact progress_table hp

theorem counted_billed (p : ℤ × UsageRecord) : Counted (billed p) := by
  intro column hcolumn
  simp only [tokenColumns, List.mem_cons, List.not_mem_nil, or_false] at hcolumn
  rcases hcolumn with rfl | rfl | rfl | rfl <;> exact Int.natCast_nonneg _

/-- **A bill grows by what is stored, and by nothing else.** Between any two moments of a run, over
any card: if the view has rows at the second one, it had rows at the first; the row of a group that
got no call stays as it is; and that of a group that got some counts and sums them with the others,
is priced exactly if it was and each of them has a price, and costs what they cost more. -/
theorem view_grows (hfirst : (pipeline cfg).run {} as = some (s, evs))
    (hnext : (pipeline cfg).run s bs = some (t, evs')) {rows' : List DailyRow}
    (hrows : dailyOf t.db.table card = some rows') :
    ∃ us vs rows, s.db.table.mapM usageOf = some us ∧ t.db.table.mapM usageOf = some (us ++ vs) ∧
      dailyOf s.db.table card = some rows ∧ ∀ k,
        (vs.filter (·.key = k) = [] → rowAt rows' k = rowAt rows k) ∧
        (vs.filter (·.key = k) ≠ [] → ∃ row', rowAt rows' k = some row' ∧
          Grown card (rowAt rows k) (vs.filter (·.key = k)) row') := by
  obtain ⟨ps, hps, -⟩ := run_stored hfirst
  obtain ⟨qs, hqs, -⟩ := run_stored (Machine.run_append.2 ⟨s, evs, evs', hfirst, hnext, rfl⟩)
  obtain ⟨more, hmore⟩ := run_table hnext
  have hus : s.db.table.mapM usageOf = some (ps.map billed) := by rw [hps, mapM_usageOf]
  have hall : t.db.table.mapM usageOf = some (qs.map billed) := by rw [hqs, mapM_usageOf]
  -- the rows that were added are read after those that were there
  obtain ⟨vs, hvs⟩ : ∃ vs, qs.map billed = ps.map billed ++ vs := by
    rw [← hmore, List.mapM_append] at hall
    rw [hus] at hall
    obtain ⟨_, hread, hall⟩ := Option.bind_eq_some_iff.1 hall
    obtain rfl := Option.some.inj hread
    obtain ⟨vs, -, hcat⟩ := Option.bind_eq_some_iff.1 hall
    exact ⟨vs, (Option.some.inj hcat).symm⟩
  have hcounted : ∀ u ∈ ps.map billed ++ vs, Counted u := fun u hu => by
    rw [← hvs] at hu
    obtain ⟨p, -, rfl⟩ := List.mem_map.1 hu
    exact counted_billed p
  rw [dailyOf, hall, hvs] at hrows
  obtain ⟨rows, hbefore, hgrown⟩ := daily_append
    (fun u hu => hcounted u (List.mem_append_left _ hu))
    (fun u hu => hcounted u (List.mem_append_right _ hu)) hrows
  refine ⟨ps.map billed, vs, rows, hus, by rw [hall, hvs], ?_, hgrown⟩
  rw [dailyOf, hus]
  exact hbefore

/-- A record that is delivered on its own. -/
def delivered (ts : String) : List Store.Action :=
  [.client (.offer (.record (Store.timedRecord ts))), .client (.acquire 0 0), .client .handOver,
    .check, .map false, .execute 7 .returned 1, .commit .returned true, .account, .client .count,
    .client .settle]

/-- A record of another day is another row. -/
theorem view_grows_nextDay :
    let cfg : Config := ⟨4, 1, 0, false, true, by decide, by decide, le_rfl⟩
    let card : RateCard := ⟨[⟨Text.of "m", .day 1, 3, 15, none, none⟩], List.nodup_singleton _⟩
    ∃ s evs t evs' rows rows', (pipeline cfg).run {} (delivered "2026-01-02") = some (s, evs) ∧
      (pipeline cfg).run s (delivered "2026-01-03") = some (t, evs') ∧
      dailyOf s.db.table card = some rows ∧ dailyOf t.db.table card = some rows' ∧
      rows'.length = rows.length + 1 := by
  intro cfg card
  have hkey : (((pipeline cfg).run {} (delivered "2026-01-02")).bind fun p =>
      ((pipeline cfg).run p.1 (delivered "2026-01-03")).map fun q =>
        ((dailyOf p.1.db.table card).map List.length,
          (dailyOf q.1.db.table card).map List.length)) = some (some 1, some 2) := by
    decide +kernel
  obtain ⟨⟨s, evs⟩, hfirst, hkey⟩ := Option.bind_eq_some_iff.1 hkey
  obtain ⟨⟨t, evs'⟩, hnext, hkey⟩ := Option.map_eq_some_iff.1 hkey
  obtain ⟨hbefore, hafter⟩ := Prod.mk.inj hkey
  obtain ⟨rows', hrows', hlength'⟩ := Option.map_eq_some_iff.1 hafter
  obtain ⟨us, vs, rows, -, -, hrows, -⟩ := view_grows hfirst hnext hrows'
  rw [hrows, Option.map_some, Option.some.injEq] at hbefore
  exact ⟨s, evs, t, evs', rows, rows', hfirst, hnext, hrows, hrows', by rw [hlength', hbefore]⟩

end Tokenweir.Rollup
