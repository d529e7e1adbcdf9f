import Mathlib.Tactic.Common

/-!
# Programs that can raise

What a program that can raise did if it returned: each of its steps returned.

* `bind_eq_ok`, one step after another;
* `mapM_eq_ok`, `foldlM_eq_ok`, the loops.
-/

namespace Tokenweir

variable {ε α β σ : Type}

theorem bind_eq_ok {x : Except ε α} {f : α → Except ε β} {b : β} :
    (x >>= f) = .ok b ↔ ∃ a, x = .ok a ∧ f a = .ok b := by
  cases x with
  | error e =>
    constructor
    · rintro ⟨⟩
    · rintro ⟨_, ⟨⟩, _⟩
  | ok a =>
    constructor
    · exact fun h => ⟨a, rfl, h⟩
    · rintro ⟨_, ⟨⟩, h⟩
      exact h

/-- What does not raise. -/
theorem ok_eq_ok {P : Prop} {a b : α} (hP : P) : (Except.ok a : Except ε α) = .ok b ↔ P ∧ b = a := by
  rw [Except.ok.injEq, eq_comm, and_iff_right hP]

/-- Each of some things is done, if none raises. -/
theorem mapM_eq_ok {f : α → Except ε β} {g : α → β} {P : α → Prop}
    (h : ∀ a b, f a = .ok b ↔ P a ∧ b = g a) {as : List α} {bs : List β} :
    as.mapM f = .ok bs ↔ (∀ a ∈ as, P a) ∧ bs = as.map g := by
  induction as generalizing bs with
  | nil =>
    rw [List.mapM_nil]
    exact ok_eq_ok (List.forall_mem_nil P)
  | cons a as ih =>
    rw [List.mapM_cons, bind_eq_ok, List.forall_mem_cons, List.map_cons]
    constructor
    · rintro ⟨b, hb, hrest⟩
      obtain ⟨cs, hcs, hbs⟩ := bind_eq_ok.1 hrest
      obtain ⟨hP, rfl⟩ := (h a b).1 hb
      obtain ⟨hall, rfl⟩ := ih.1 hcs
      cases hbs
      exact ⟨⟨hP, hall⟩, rfl⟩
    · rintro ⟨⟨hP, hall⟩, rfl⟩
      exact ⟨g a, (h a _).2 ⟨hP, rfl⟩, bind_eq_ok.2 ⟨as.map g, ih.2 ⟨hall, rfl⟩, rfl⟩⟩

/-- A loop goes through, if no round raises. -/
theorem foldlM_eq_ok {f : σ → α → Except ε σ} {g : σ → α → σ} {P : α → Prop}
    (h : ∀ s a t, f s a = .ok t ↔ P a ∧ t = g s a) {as : List α} {s t : σ} :
    as.foldlM f s = .ok t ↔ (∀ a ∈ as, P a) ∧ t = as.foldl g s := by
  induction as generalizing s with
  | nil =>
    rw [List.foldlM_nil]
    exact ok_eq_ok (List.forall_mem_nil P)
  | cons a as ih =>
    rw [List.foldlM_cons, bind_eq_ok, List.forall_mem_cons, List.foldl_cons]
    constructor
    · rintro ⟨u, hu, hrest⟩
      obtain ⟨hP, rfl⟩ := (h s a u).1 hu
      obtain ⟨hall, ht⟩ := ih.1 hrest
      exact ⟨⟨hP, hall⟩, ht⟩
    · rintro ⟨⟨hP, hall⟩, ht⟩
      exact ⟨g s a, (h s a _).2 ⟨hP, rfl⟩, ih.2 ⟨hall, ht⟩⟩

end Tokenweir
