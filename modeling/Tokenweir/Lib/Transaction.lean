import Mathlib.Tactic

/-!
# A connection and its transactions

A store of states `σ` that statements `α` change, seen through one connection: what is
committed, what the open transaction sees, and what was sent. A statement that fails leaves the
transaction of no use until it is rolled back.

* `Connection`, `execute`, `commit`, `rollback`, `executeAll`;
* `executeAll_frame`, `executeAll_view`, `executeAll_reads`, `commit_true`, `commit_false`.
-/

namespace Tokenweir

structure Connection (σ α : Type) where
  /-- What is committed. -/
  store : σ
  /-- What the open transaction sees; nothing once a statement of it has failed. -/
  view : Option σ
  /-- The statements of the open transaction. -/
  pending : List α
  /-- The transactions that were committed, by their statements. -/
  history : List (List α)
  /-- Every statement that was sent. -/
  sent : List α

namespace Connection

variable {σ α : Type} (step : σ → α → Option σ)

/-- A connection without an open transaction. -/
def opened (s : σ) : Connection σ α := ⟨s, some s, [], [], []⟩

/-- Give up the open transaction. -/
def rollback (c : Connection σ α) : Connection σ α :=
  { c with view := some c.store, pending := [] }

/-- Send a statement, which succeeds or not. -/
def execute (raises : Bool) (c : Connection σ α) (a : α) : Bool × Connection σ α :=
  let c := { c with sent := c.sent ++ [a] }
  match if raises then none else c.view.bind fun s => step s a with
  | none => (false, { c with view := none })
  | some s => (true, { c with view := some s, pending := c.pending ++ [a] })

/-- Commit the open transaction. One that fails, or that had failed, is given up. -/
def commit (raises : Bool) (c : Connection σ α) : Bool × Connection σ α :=
  match if raises then none else c.view with
  | none => (!raises, c.rollback)
  | some s => (true, { c with
      store := s
      view := some s
      pending := []
      history := c.history ++ [c.pending] })

/-- Send statements in order, up to the first one that fails. -/
def executeAll (raises : ℕ → Bool) : ℕ → Connection σ α → List α → Bool × Connection σ α
  | _, c, [] => (true, c)
  | k, c, a :: as =>
    match c.execute step (raises k) a with
    | (true, c) => executeAll raises (k + 1) c as
    | (false, c) => (false, c)

variable {step} {raises : ℕ → Bool} {c c' : Connection σ α}

@[simp] theorem rollback_store : c.rollback.store = c.store := rfl

@[simp] theorem rollback_history : c.rollback.history = c.history := rfl

@[simp] theorem rollback_sent : c.rollback.sent = c.sent := rfl

/-- A statement changes nothing that is committed. -/
theorem execute_frame (b : Bool) (c : Connection σ α) (a : α) :
    (c.execute step b a).2.store = c.store ∧ (c.execute step b a).2.history = c.history := by
  unfold execute
  dsimp only
  split <;> exact ⟨rfl, rfl⟩

theorem execute_true {b : Bool} {a : α} (h : c.execute step b a = (true, c')) :
    ∃ s s', c.view = some s ∧ step s a = some s' ∧ c'.view = some s' ∧
      c'.pending = c.pending ++ [a] := by
  unfold execute at h
  dsimp only at h
  split at h
  · cases h
  · rename_i s' hs'
    split at hs'
    · cases hs'
    · obtain ⟨s, hs, hstep⟩ := Option.bind_eq_some_iff.1 hs'
      cases h
      exact ⟨s, s', hs, hstep, rfl, rfl⟩

/-- Statements change nothing that is committed. -/
theorem executeAll_frame (k : ℕ) (c : Connection σ α) (as : List α) :
    (executeAll step raises k c as).2.store = c.store ∧
      (executeAll step raises k c as).2.history = c.history := by
  induction as generalizing k c with
  | nil => exact ⟨rfl, rfl⟩
  | cons a as ih =>
    have hframe := @execute_frame _ _ step (raises k) c a
    rw [executeAll]
    split
    · rename_i d hd
      rw [hd] at hframe
      obtain ⟨hstore, hhistory⟩ := ih (k + 1) d
      exact ⟨hstore.trans hframe.1, hhistory.trans hframe.2⟩
    · rename_i d hd
      rw [hd] at hframe
      exact hframe

/-- Statements that all succeed make the view what they make of it one after the other. -/
theorem executeAll_view {k : ℕ} {as : List α} {s : σ} (hs : c.view = some s)
    (h : executeAll step raises k c as = (true, c')) :
    ∃ s', as.foldlM step s = some s' ∧ c'.view = some s' ∧ c'.pending = c.pending ++ as := by
  induction as generalizing k c s with
  | nil =>
    cases h
    exact ⟨s, rfl, hs, (List.append_nil _).symm⟩
  | cons a as ih =>
    rw [executeAll] at h
    split at h
    · rename_i d hd
      obtain ⟨t, t', ht, hstep, hview, hpending⟩ := execute_true hd
      obtain rfl : t = s := Option.some_injective _ (ht.symm.trans hs)
      obtain ⟨s', hfold, hview', hpending'⟩ := ih hview h
      refine ⟨s', ?_, hview', ?_⟩
      · rw [List.foldlM_cons, hstep]
        exact hfold
      · rw [hpending', hpending, List.append_assoc]
        rfl
    · cases h

/-- Statements that do not fail, and change nothing, are all sent. -/
theorem executeAll_reads (hraises : ∀ k, raises k = false) {k : ℕ} {as : List α} {s : σ}
    (hs : c.view = some s) (hreads : ∀ a ∈ as, step s a = some s) :
    ∃ c', executeAll step raises k c as = (true, c') ∧ c'.view = some s := by
  induction as generalizing k c with
  | nil => exact ⟨c, rfl, hs⟩
  | cons a as ih =>
    have hexecute : c.execute step (raises k) a =
        (true, ⟨c.store, some s, c.pending ++ [a], c.history, c.sent ++ [a]⟩) := by
      simp [execute, hraises k, hs, hreads a List.mem_cons_self]
    rw [executeAll, hexecute]
    exact ih rfl fun b hb => hreads b (List.mem_cons_of_mem a hb)

theorem commit_true {b : Bool} {s : σ} (hs : c.view = some s) (h : c.commit b = (true, c')) :
    c'.store = s ∧ c'.history = c.history ++ [c.pending] := by
  unfold commit at h
  cases b with
  | true => cases h
  | false =>
    rw [if_neg (by simp), hs] at h
    cases h
    exact ⟨rfl, rfl⟩

/-- A commit that raises changes nothing that is committed. -/
theorem commit_false {b : Bool} (h : c.commit b = (false, c')) :
    c'.store = c.store ∧ c'.history = c.history := by
  unfold commit at h
  split at h
  · cases b
    · cases h
    · cases h
      exact ⟨rfl, rfl⟩
  · cases h

end Connection

end Tokenweir
