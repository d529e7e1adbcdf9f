import Mathlib.Data.List.ReduceOption
import Tokenweir.Lib.Sql

/-!
# Queries

The parts that queries are made of, with null as the absence of a value: conditions in three
values, aggregates, lateral joins, the latest row, groups.

* `UtcDay`, `Timestamp`;
* `isNotNull`, `isDistinctFrom`, `equals`; `boolAnd`, `total`, `toBigint`;
* `latest`, `latest_eq_some_iff`; `leftJoinLateral`, `leftJoinLateral_eq_map`;
* `groupBy`, `mem_groupBy`, `flatMap_groupBy`, `map_groupBy_perm`.
-/

namespace Tokenweir.Sql

/-! ### Days and instants -/

/-- A day, by the number that `Date.ordinal` gives, or an infinite one. -/
def UtcDay := WithBot (WithTop ℤ)

-- by name, because the order on `ℤ` that is inferred does not compute
instance UtcDay.linearOrder : LinearOrder UtcDay :=
  @WithBot.linearOrder _ (@WithTop.linearOrder ℤ Int.instLinearOrder)

/-- The day of a number. -/
def UtcDay.day (n : ℤ) : UtcDay := ((n : WithTop ℤ) : WithBot (WithTop ℤ))

def UtcDay.minusInfinity : UtcDay := (⊥ : WithBot (WithTop ℤ))

def UtcDay.infinity : UtcDay := ((⊤ : WithTop ℤ) : WithBot (WithTop ℤ))

/-- A day that was written as a date. -/
def Day.utc : Day → UtcDay
  | minusInfinity => UtcDay.minusInfinity
  | date d => UtcDay.day d.ordinal
  | infinity => UtcDay.infinity

/-- A `timestamptz`, in microseconds since the beginning of year 1. -/
inductive Timestamp
  | minusInfinity
  | instant (t : ℤ)
  | infinity
  deriving DecidableEq

/-- `(ts AT TIME ZONE INTERVAL '0')::DATE`. -/
def Timestamp.day : Timestamp → UtcDay
  | minusInfinity => UtcDay.minusInfinity
  | instant t => UtcDay.day (t / dayLength + 1)
  | infinity => UtcDay.infinity

/-! ### Conditions and aggregates -/

section Aggregates

variable {α β : Type}

/-- `IS NOT NULL`. -/
def isNotNull (x : Option α) : Option Bool := some x.isSome

/-- `IS DISTINCT FROM`. -/
def isDistinctFrom [DecidableEq α] (x y : Option α) : Option Bool := some (x ≠ y)

/-- `=`. -/
def equals [DecidableEq α] (x y : Option α) : Option Bool := Option.map₂ (fun a b => a = b) x y

/-- `BOOL_AND`; nulls do not count. -/
def boolAnd (xs : List (Option Bool)) : Option Bool :=
  match xs.reduceOption with
  | [] => none
  | bs => some (bs.all id)

/-- `SUM`; nulls do not count. -/
def total [Add α] [Zero α] (xs : List (Option α)) : Option α :=
  match xs.reduceOption with
  | [] => none
  | as => some as.sum

/-- What a `BIGINT` holds. -/
def FitsBigint (n : ℤ) : Prop := -2 ^ 63 ≤ n ∧ n < 2 ^ 63

instance (n : ℤ) : Decidable (FitsBigint n) := inferInstanceAs (Decidable (_ ∧ _))

/-- `::BIGINT`: a number out of range is an error, and ends the query. -/
def toBigint : Option ℤ → Option (Option ℤ)
  | none => some none
  | some n => if FitsBigint n then some (some n) else none

theorem both_some (a b : Bool) : both (some a) (some b) = some (a && b) := by
  cases a <;> cases b <;> rfl

theorem either_some (a b : Bool) : either (some a) (some b) = some (a || b) := by
  cases a <;> cases b <;> rfl

theorem reduceOption_map_some (f : α → β) (xs : List α) :
    (xs.map fun x => some (f x)).reduceOption = xs.map f := by
  induction xs with
  | nil => rfl
  | cons x xs ih => rw [List.map_cons, List.reduceOption_cons_of_some, ih, List.map_cons]

/-- A query gives its rows, or ends at the first error. -/
theorem mapM_eq_ite {p : α → Prop} [DecidablePred p] {f : α → β} {g : α → Option β} {xs : List α}
    (h : ∀ x ∈ xs, g x = if p x then some (f x) else none) :
    xs.mapM g = if ∀ x ∈ xs, p x then some (xs.map f) else none := by
  induction xs with
  | nil => rfl
  | cons x xs ih =>
    obtain ⟨hx, hxs⟩ := List.forall_mem_cons.1 h
    rw [List.mapM_cons, ih hxs, hx]
    by_cases hx : p x
    · by_cases hxs : ∀ y ∈ xs, p y
      · have hall : ∀ y ∈ x :: xs, p y := List.forall_mem_cons.2 ⟨hx, hxs⟩
        rw [if_pos hxs, if_pos hall, if_pos hx]
        rfl
      · have hnot : ¬ ∀ y ∈ x :: xs, p y := fun h => hxs fun y hy => h y (List.mem_cons_of_mem x hy)
        rw [if_neg hxs, if_neg hnot, if_pos hx]
        rfl
    · have hnot : ¬ ∀ y ∈ x :: xs, p y := fun h => hx (h x List.mem_cons_self)
      rw [if_neg hnot, if_neg hx]
      rfl

theorem boolAnd_map_some {xs : List α} (h : xs ≠ []) (p : α → Bool) :
    boolAnd (xs.map fun x => some (p x)) = some (xs.all p) := by
  rw [boolAnd, reduceOption_map_some]
  cases xs with
  | nil => exact absurd rfl h
  | cons x xs => simp

theorem total_map_some [Add β] [Zero β] {xs : List α} (h : xs ≠ []) (f : α → β) :
    total (xs.map fun x => some (f x)) = some (xs.map f).sum := by
  rw [total, reduceOption_map_some]
  cases xs with
  | nil => exact absurd rfl h
  | cons x xs => rfl

theorem boolAnd_perm {xs ys : List (Option Bool)} (h : xs.Perm ys) : boolAnd xs = boolAnd ys := by
  have hp : xs.reduceOption.Perm ys.reduceOption := h.filterMap id
  unfold boolAnd
  cases hx : xs.reduceOption with
  | nil => rw [hx] at hp; rw [hp.nil_eq]
  | cons a as =>
    rw [hx] at hp
    cases hy : ys.reduceOption with
    | nil => rw [hy] at hp; cases hp.eq_nil
    | cons b bs =>
      rw [hy] at hp
      exact congrArg some (Bool.eq_iff_iff.2 (by
        simp only [List.all_eq_true]
        exact forall_congr' fun x => imp_congr_left hp.mem_iff))

theorem total_perm [AddCommMonoid α] {xs ys : List (Option α)} (h : xs.Perm ys) :
    total xs = total ys := by
  have hp : xs.reduceOption.Perm ys.reduceOption := h.filterMap id
  unfold total
  cases hx : xs.reduceOption with
  | nil => rw [hx] at hp; rw [hp.nil_eq]
  | cons a as =>
    rw [hx] at hp
    cases hy : ys.reduceOption with
    | nil => rw [hy] at hp; cases hp.eq_nil
    | cons b bs =>
      rw [hy] at hp
      exact congrArg some hp.sum_eq

end Aggregates

/-! ### The latest row -/

section Latest

variable {α δ : Type} [LinearOrder δ] {rank : α → δ} {xs ys : List α} {x : α}

/-- `ORDER BY rank DESC LIMIT 1`. -/
def latest (rank : α → δ) (xs : List α) : List α :=
  (xs.insertionSort fun x y => rank y ≤ rank x).take 1

theorem latest_length (rank : α → δ) (xs : List α) : (latest rank xs).length ≤ 1 := by
  rw [latest, List.length_take]
  exact Nat.min_le_left ..

/-- The latest row is one of them, and no other one is later. -/
theorem le_of_latest (h : (latest rank xs).head? = some x) :
    x ∈ xs ∧ ∀ y ∈ xs, rank y ≤ rank x := by
  have hsorted : (xs.insertionSort fun x y => rank y ≤ rank x).Pairwise
      fun x y => rank y ≤ rank x := by
    have htotal : Std.Total fun x y => rank y ≤ rank x := ⟨fun x y => le_total _ _⟩
    have htrans : IsTrans α fun x y => rank y ≤ rank x := ⟨fun _ _ _ h h' => h'.trans h⟩
    exact List.pairwise_insertionSort _ xs
  have hmem : ∀ y, y ∈ xs.insertionSort (fun x y => rank y ≤ rank x) ↔ y ∈ xs := fun y =>
    List.mem_insertionSort _
  unfold latest at h
  cases hs : xs.insertionSort fun x y => rank y ≤ rank x with
  | nil => rw [hs] at h; cases h
  | cons y ys =>
    rw [hs] at h hsorted hmem
    obtain rfl := Option.some_injective _ h
    refine ⟨(hmem y).1 List.mem_cons_self, fun z hz => ?_⟩
    rcases List.mem_cons.1 ((hmem z).2 hz) with rfl | hz
    · exact le_rfl
    · exact List.rel_of_pairwise_cons hsorted hz

theorem latest_eq_none : (latest rank xs).head? = none ↔ xs = [] := by
  rw [List.head?_eq_none_iff, latest, List.take_eq_nil_iff]
  simp only [Nat.one_ne_zero, false_or]
  constructor
  · intro h
    have hlength := List.length_insertionSort (fun x y => rank y ≤ rank x) xs
    rw [h] at hlength
    exact List.eq_nil_of_length_eq_zero hlength.symm
  · rintro rfl
    rfl

/-- **The latest row**, where no two rows are of one rank. -/
theorem latest_eq_some_iff (hinj : ∀ x ∈ xs, ∀ y ∈ xs, rank x = rank y → x = y) :
    (latest rank xs).head? = some x ↔ x ∈ xs ∧ ∀ y ∈ xs, rank y ≤ rank x := by
  refine ⟨le_of_latest, fun ⟨hx, hle⟩ => ?_⟩
  cases hl : (latest rank xs).head? with
  | none =>
    rw [latest_eq_none.1 hl] at hx
    cases hx
  | some y =>
    obtain ⟨hy, hle'⟩ := le_of_latest hl
    exact congrArg some (hinj y hy x hx (le_antisymm (hle y hy) (hle' x hx)))

end Latest

/-! ### Joins -/

section Join

variable {α β : Type}

/-- `LEFT JOIN LATERAL … ON TRUE`. -/
def leftJoinLateral (xs : List α) (f : α → List β) : List (α × Option β) :=
  xs.flatMap fun x =>
    match f x with
    | [] => [(x, none)]
    | ys => ys.map fun y => (x, some y)

/-- A join with one row at most drops no row and multiplies none. -/
theorem leftJoinLateral_eq_map (xs : List α) {f : α → List β} (h : ∀ x, (f x).length ≤ 1) :
    leftJoinLateral xs f = xs.map fun x => (x, (f x).head?) := by
  rw [leftJoinLateral, ← List.flatMap_singleton' (xs.map _), List.flatMap_map]
  refine List.flatMap_congr fun x _ => ?_
  have hx := h x
  cases hf : f x with
  | nil => rfl
  | cons y ys =>
    rw [hf, List.length_cons] at hx
    obtain rfl : ys = [] := List.eq_nil_of_length_eq_zero (by omega)
    rfl

end Join

/-! ### Groups -/

section Groups

variable {α β κ ν : Type} [DecidableEq κ] {key : α → κ} {xs ys : List α}

/-- `GROUP BY`. -/
def groupBy (key : α → κ) (xs : List α) : List (κ × List α) :=
  (xs.map key).dedup.map fun k => (k, xs.filter (key · = k))

theorem mem_groupBy {g : κ × List α} :
    g ∈ groupBy key xs ↔ g.1 ∈ xs.map key ∧ g.2 = xs.filter (key · = g.1) := by
  rw [groupBy, List.mem_map]
  constructor
  · rintro ⟨k, hk, rfl⟩
    exact ⟨List.mem_dedup.1 hk, rfl⟩
  · rintro ⟨hk, hg⟩
    exact ⟨g.1, List.mem_dedup.2 hk, Prod.ext rfl hg.symm⟩

/-- No group is empty. -/
theorem ne_nil_of_mem_groupBy {g : κ × List α} (hg : g ∈ groupBy key xs) : g.2 ≠ [] := by
  obtain ⟨hk, hrows⟩ := mem_groupBy.1 hg
  obtain ⟨x, hx, hkey⟩ := List.mem_map.1 hk
  rw [hrows]
  exact List.ne_nil_of_mem (List.mem_filter.2 ⟨hx, decide_eq_true hkey⟩)

theorem map_fst_groupBy (key : α → κ) (xs : List α) :
    (groupBy key xs).map Prod.fst = (xs.map key).dedup := by
  rw [groupBy, List.map_map]
  exact List.map_id _

/-- Rows that carry more are grouped as the rows they come from. -/
theorem groupBy_map (f : β → α) (key : α → κ) (zs : List β) :
    groupBy key (zs.map f) = (groupBy (key ∘ f) zs).map fun g => (g.1, g.2.map f) := by
  rw [groupBy, groupBy, List.map_map, List.map_map]
  refine List.map_congr_left fun k _ => ?_
  rw [List.filter_map]
  rfl

/-- **Every row is in one group**: the groups hold the rows, each once. -/
theorem flatMap_groupBy (key : α → κ) (xs : List α) :
    ((groupBy key xs).flatMap Prod.snd).Perm xs := by
  have hgroups : ∀ ks : List κ, ks.Nodup →
      (ks.flatMap fun k => xs.filter (key · = k)).Perm (xs.filter (key · ∈ ks)) := by
    intro ks hks
    induction ks with
    | nil => simp
    | cons k ks ih =>
      rw [List.nodup_cons] at hks
      rw [List.flatMap_cons]
      have hsplit : ∀ zs : List α, (zs.filter (key · = k) ++ zs.filter (key · ∈ ks)).Perm
          (zs.filter (key · ∈ k :: ks)) := by
        intro zs
        have hdisjoint : ∀ z, key z = k → key z ∉ ks := fun z hz => hz ▸ hks.1
        induction zs with
        | nil => simp
        | cons z zs ihz =>
          by_cases hz : key z = k
          · simpa [hz, hks.1] using ihz.cons z
          · by_cases hz' : key z ∈ ks
            · rw [List.filter_cons_of_neg (by simpa using hz),
                List.filter_cons_of_pos (by simpa using hz'),
                List.filter_cons_of_pos (by simp [hz'])]
              exact List.perm_middle.trans (ihz.cons z)
            · simpa [hz, hz'] using ihz
      exact ((List.Perm.refl _).append (ih hks.2)).trans (hsplit xs)
  rw [groupBy, List.flatMap_map]
  refine (hgroups _ (List.nodup_dedup _)).trans ?_
  have hall : xs.filter (key · ∈ (xs.map key).dedup) = xs := by
    refine List.filter_eq_self.2 fun x hx => decide_eq_true (List.mem_dedup.2 ?_)
    exact List.mem_map_of_mem hx
  rw [hall]

/-- The sums over the groups are those over the rows. -/
theorem sum_groupBy [AddCommMonoid ν] (key : α → κ) (xs : List α) (f : α → ν) :
    ((groupBy key xs).map fun g => (g.2.map f).sum).sum = (xs.map f).sum := by
  rw [← ((flatMap_groupBy key xs).map f).sum_eq, List.map_flatMap, List.flatMap, List.sum_flatten,
    List.map_map]
  rfl

/-- What does not depend on the order in a group does not depend on the order of the rows. -/
theorem map_groupBy_perm {f : κ × List α → ν}
    (hf : ∀ k l l', l.Perm l' → f (k, l) = f (k, l')) (h : xs.Perm ys) :
    ((groupBy key xs).map f).Perm ((groupBy key ys).map f) := by
  rw [groupBy, groupBy, List.map_map, List.map_map]
  have hcongr : (ys.map key).dedup.map (f ∘ fun k => (k, ys.filter (key · = k))) =
      (ys.map key).dedup.map (f ∘ fun k => (k, xs.filter (key · = k))) :=
    List.map_congr_left fun k _ => hf k _ _ (h.symm.filter _)
  rw [hcongr]
  exact ((h.map key).dedup).map _

end Groups

end Tokenweir.Sql
