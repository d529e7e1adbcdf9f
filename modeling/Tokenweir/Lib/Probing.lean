import Mathlib.Tactic.Common
import Tokenweir.Lib.Except

/-!
# Loops that ask

A loop that asks another party about one thing after the other, takes note of each answer, and
stops at the first one that breaks it. Taking note can raise.

* `answers`, what is asked and answered, and `exists_ask`; `probe`, the loop;
* `probe_eq_ok`, the loop takes note of all that is answered.
-/

namespace Tokenweir.Probing

variable {ε α β σ ρ : Type}

/-- What is asked from the `n`-th question on, with the answers, and the number of the next
question. -/
def answers (ask : α → ℕ → ρ × ℕ) (breaks : ρ → Bool) : List α → ℕ → List (α × ρ) × ℕ
  | [], n => ([], n)
  | a :: as, n =>
    let (r, n) := ask a n
    if breaks r then ([(a, r)], n)
    else
      let (rest, n) := answers ask breaks as n
      ((a, r) :: rest, n)

/-- The loop. -/
def probe (ask : α → ℕ → ρ × ℕ) (breaks : ρ → Bool) (note : σ → α → ρ → Except ε σ) :
    List α → σ → ℕ → Except ε (σ × ℕ)
  | [], s, n => .ok (s, n)
  | a :: as, s, n => do
    let (r, n) := ask a n
    let s ← note s a r
    if breaks r then .ok (s, n) else probe ask breaks note as s n

variable {ask : α → ℕ → ρ × ℕ} {breaks : ρ → Bool} {note : σ → α → ρ → Except ε σ}

theorem answers_cons (a : α) (as : List α) (n : ℕ) :
    answers ask breaks (a :: as) n =
      if breaks (ask a n).1 then ([(a, (ask a n).1)], (ask a n).2)
      else ((a, (ask a n).1) :: (answers ask breaks as (ask a n).2).1,
        (answers ask breaks as (ask a n).2).2) := rfl

/-- What is answered was asked. -/
theorem exists_ask {as : List α} {n : ℕ} {a : α} {r : ρ}
    (h : (a, r) ∈ (answers ask breaks as n).1) : ∃ m, r = (ask a m).1 := by
  induction as generalizing n with
  | nil => cases h
  | cons b as ih =>
    rw [answers_cons] at h
    by_cases hbreaks : breaks (ask b n).1 = true
    · rw [if_pos hbreaks, List.mem_singleton] at h
      cases h
      exact ⟨n, rfl⟩
    · rw [if_neg hbreaks, List.mem_cons] at h
      rcases h with h | h
      · cases h
        exact ⟨n, rfl⟩
      · exact ih h

/-- The loop goes through what is answered. -/
theorem probe_iff_foldlM {as : List α} {s t : σ} {n m : ℕ} :
    probe ask breaks note as s n = .ok (t, m) ↔
      (answers ask breaks as n).1.foldlM (fun s x => note s x.1 x.2) s = .ok t ∧
        m = (answers ask breaks as n).2 := by
  induction as generalizing s n with
  | nil =>
    simp [probe, answers, pure, Except.pure, eq_comm]
  | cons a as ih =>
    rw [probe, bind_eq_ok, answers_cons]
    by_cases h : breaks (ask a n).1 = true
    · simp only [h, if_true, List.foldlM_cons, List.foldlM_nil, bind_eq_ok]
      constructor
      · rintro ⟨u, hu, hrest⟩
        cases hrest
        exact ⟨⟨_, hu, rfl⟩, rfl⟩
      · rintro ⟨⟨u, hu, hrest⟩, rfl⟩
        cases hrest
        exact ⟨_, hu, rfl⟩
    · simp only [h, if_false, Bool.false_eq_true, List.foldlM_cons, bind_eq_ok, ih]
      constructor
      · rintro ⟨u, hu, hrest, hm⟩
        exact ⟨⟨u, hu, hrest⟩, hm⟩
      · rintro ⟨⟨u, hu, hrest⟩, hm⟩
        exact ⟨u, hu, hrest, hm⟩

/-- **The loop takes note of all that is answered**, if none of it raises. -/
theorem probe_eq_ok {g : σ → α × ρ → σ} {P : α × ρ → Prop}
    (h : ∀ s x t, note s x.1 x.2 = .ok t ↔ P x ∧ t = g s x) {as : List α} {s t : σ} {n m : ℕ} :
    probe ask breaks note as s n = .ok (t, m) ↔
      (∀ x ∈ (answers ask breaks as n).1, P x) ∧
        t = (answers ask breaks as n).1.foldl g s ∧ m = (answers ask breaks as n).2 := by
  rw [probe_iff_foldlM, foldlM_eq_ok h, and_assoc]

end Tokenweir.Probing
