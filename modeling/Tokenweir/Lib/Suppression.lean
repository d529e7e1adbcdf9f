import Mathlib.Algebra.Order.Group.Abs
import Mathlib.Algebra.BigOperators.Group.List.Basic
import Mathlib.Data.List.Induction
import Mathlib.Tactic.Abel

/-!
# One of many in each interval

A gate that lets the first of many calls through, then holds calls back until an interval has
passed, and tells the next one that it lets through how many it held back. The times of the
calls need not be in order.

* `Gate`, `Gate.call`; `account`, the outcomes of a list of calls;
* `account_head`, `account_conserved`, `account_pairwise`, `account_zero`.
-/

namespace Tokenweir

variable {τ : Type}

/-- From when on a call gets through, and how many were held back. -/
@[ext]
structure Gate (τ : Type) where
  next : Option τ
  held : ℕ
  deriving DecidableEq

namespace Gate

/-- A gate that was not called. -/
def fresh : Gate τ := ⟨none, 0⟩

/-- The calls that get through, with how many were held back before each. -/
def through (outcomes : List (τ × Option ℕ)) : List (τ × ℕ) :=
  outcomes.filterMap fun o => o.2.map fun n => (o.1, n)

theorem through_snoc (outcomes : List (τ × Option ℕ)) (now : τ) (o : Option ℕ) :
    through (outcomes ++ [(now, o)]) = through outcomes ++ (o.map fun n => (now, n)).toList := by
  rw [through, List.filterMap_append]
  cases o <;> rfl

variable [AddCommGroup τ] [LinearOrder τ]

/-- Whether a call is held back. -/
def closed (g : Gate τ) (now : τ) : Bool := g.next.any fun t => now < t

/-- A call: how many were held back before it, if it gets through. -/
def call (g : Gate τ) (interval now : τ) : Option ℕ × Gate τ :=
  if g.closed now then (none, { g with held := g.held + 1 })
  else (some g.held, ⟨if interval = 0 then g.next else some (now + interval), 0⟩)

/-- Calls one after the other: when, and with which outcome; and the gate after them. -/
def account (interval : τ) (times : List τ) : List (τ × Option ℕ) × Gate τ :=
  times.foldl (fun a now =>
    (a.1 ++ [(now, (a.2.call interval now).1)], (a.2.call interval now).2)) ([], fresh)

variable {interval now : τ} {times : List τ}

@[simp] theorem account_nil : account interval ([] : List τ) = ([], fresh) := rfl

theorem account_snoc : account interval (times ++ [now]) =
    ((account interval times).1 ++ [(now, ((account interval times).2.call interval now).1)],
      ((account interval times).2.call interval now).2) := by
  rw [account, List.foldl_append]
  rfl

/-- The times of the calls are those of the account. -/
theorem account_times : (account interval times).1.map Prod.fst = times := by
  induction times using List.reverseRecOn with
  | nil => rfl
  | append_singleton times now ih => rw [account_snoc, List.map_append, ih]; rfl

/-- The first call gets through. -/
theorem account_head : ∀ o ∈ (account interval times).1.head?, o.2 = some 0 := by
  induction times using List.reverseRecOn with
  | nil => simp
  | append_singleton times now ih =>
    rw [account_snoc]
    cases hfirst : (account interval times).1 with
    | nil =>
      obtain rfl : times = [] := by
        rw [← @account_times _ _ _ interval times, hfirst]
        rfl
      simp [call, closed, fresh]
    | cons o os =>
      rw [hfirst] at ih
      simpa using ih

/-- A call gets through, or it is held back. -/
theorem call_cases (g : Gate τ) (interval now : τ) :
    (g.closed now = true ∧ g.call interval now = (none, ⟨g.next, g.held + 1⟩)) ∨
      (g.closed now = false ∧ g.call interval now =
        (some g.held, ⟨if interval = 0 then g.next else some (now + interval), 0⟩)) := by
  unfold call
  cases hclosed : g.closed now with
  | true => exact Or.inl ⟨rfl, if_pos rfl⟩
  | false => exact Or.inr ⟨rfl, if_neg Bool.false_ne_true⟩

/-- Every call got through, or was counted on one that did, or is counted by the gate. -/
theorem account_conserved : times.length =
    (through (account interval times).1).length +
      ((through (account interval times).1).map Prod.snd).sum + (account interval times).2.held := by
  induction times using List.reverseRecOn with
  | nil => rfl
  | append_singleton times now ih =>
    rw [account_snoc, through_snoc, List.length_append, List.length_singleton]
    rcases call_cases (account interval times).2 interval now with ⟨-, hcall⟩ | ⟨-, hcall⟩ <;>
    · rw [hcall]
      simp
      omega

/-- After a call that got through, the gate is closed for an interval. -/
theorem account_next [IsOrderedAddMonoid τ] (hinterval : 0 < interval) :
    ∀ p ∈ through (account interval times).1, ∃ t ∈ (account interval times).2.next,
      p.1 + interval ≤ t := by
  induction times using List.reverseRecOn with
  | nil => simp [through]
  | append_singleton times now ih =>
    intro p hp
    rw [account_snoc, through_snoc] at hp
    rw [account_snoc]
    rcases call_cases (account interval times).2 interval now with ⟨-, hcall⟩ | ⟨hopen, hcall⟩
    · rw [hcall] at hp ⊢
      exact ih p (by simpa using hp)
    · rw [hcall] at hp ⊢
      refine ⟨now + interval, if_neg hinterval.ne', ?_⟩
      rcases List.mem_append.1 hp with hp | hp
      · obtain ⟨t, ht, hle⟩ := ih p hp
        have hpassed : t ≤ now := by simpa [closed, Option.mem_def.1 ht] using hopen
        exact hle.trans (hpassed.trans (le_add_of_nonneg_right hinterval.le))
      · obtain rfl : p = (now, _) := List.mem_singleton.1 hp
        exact le_rfl

/-- Calls that get through are an interval apart. -/
theorem account_pairwise [IsOrderedAddMonoid τ] (hinterval : 0 < interval) :
    (through (account interval times).1).Pairwise fun p q => p.1 + interval ≤ q.1 := by
  induction times using List.reverseRecOn with
  | nil => exact List.Pairwise.nil
  | append_singleton times now ih =>
    rw [account_snoc, through_snoc]
    rcases call_cases (account interval times).2 interval now with ⟨-, hcall⟩ | ⟨hopen, hcall⟩
    · rw [hcall]
      simpa using ih
    · rw [hcall]
      refine List.pairwise_append.2 ⟨ih, List.pairwise_singleton .., fun p hp q hq => ?_⟩
      obtain rfl : q = (now, _) := List.mem_singleton.1 hq
      obtain ⟨t, ht, hle⟩ := account_next hinterval p hp
      refine hle.trans ?_
      simpa [closed, Option.mem_def.1 ht] using hopen

/-- Without an interval, the gate stays as it is. -/
theorem account_zero_gate : (account (0 : τ) times).2 = fresh := by
  induction times using List.reverseRecOn with
  | nil => rfl
  | append_singleton times now ih =>
    rw [account_snoc, ih]
    simp [call, closed, fresh]

/-- Without an interval, every call gets through. -/
theorem account_zero : ∀ o ∈ (account (0 : τ) times).1, o.2 = some 0 := by
  induction times using List.reverseRecOn with
  | nil => simp
  | append_singleton times now ih =>
    intro o ho
    rw [account_snoc, account_zero_gate] at ho
    rcases List.mem_append.1 ho with ho | ho
    · exact ih o ho
    · obtain rfl := List.mem_singleton.1 ho
      rfl

end Gate

end Tokenweir
