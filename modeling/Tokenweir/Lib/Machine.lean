import Mathlib.Data.List.Induction

/-!
# Machines with actions and events

A partial step function on a state type, driven by a list of actions and
emitting a list of events at each step. A concurrent program is such a machine
once its atomic blocks are its actions: every interleaving of its threads is
then one list of actions, and the events are its history.

* `Machine`, `Machine.run`;
* `Machine.run_snoc`, the last step of a run;
* `Machine.run_induction`, the invariant rule, for predicates that relate the
  actions taken, the events emitted and the state reached;
* `Machine.run_project`, the projection rule: the runs of a component;
* `Machine.run_measure`, the measure rule: how many steps of a kind a run has;
* `Machine.Along`, runs whose steps all meet a condition, and their invariant rule.
-/

namespace Tokenweir

/-- A step function with actions `α` and events `ε`; `none` means that the action
is not enabled. -/
structure Machine (σ α ε : Type) where
  step : σ → α → Option (σ × List ε)

namespace Machine

variable {σ α ε : Type} (M : Machine σ α ε)

/-- Run a list of actions, collecting the events. -/
def run (s : σ) : List α → Option (σ × List ε)
  | [] => some (s, [])
  | a :: as =>
    match M.step s a with
    | none => none
    | some (s', e) =>
      match run s' as with
      | none => none
      | some (s'', es) => some (s'', e ++ es)

@[simp] theorem run_nil (s : σ) : M.run s [] = some (s, []) := rfl

variable {M}

theorem run_cons {s t : σ} {a : α} {as : List α} {es : List ε} :
    M.run s (a :: as) = some (t, es) ↔
      ∃ s' e es', M.step s a = some (s', e) ∧ M.run s' as = some (t, es') ∧ es = e ++ es' := by
  rw [run]
  constructor
  · intro h
    split at h
    · cases h
    · rename_i s' e hstep
      split at h
      · cases h
      · rename_i t' es' hrun
        cases h
        exact ⟨s', e, es', hstep, hrun, rfl⟩
  · rintro ⟨s', e, es', hstep, hrun, rfl⟩
    simp [hstep, hrun]

theorem run_append {s t : σ} {as bs : List α} {es : List ε} :
    M.run s (as ++ bs) = some (t, es) ↔
      ∃ u es₁ es₂, M.run s as = some (u, es₁) ∧ M.run u bs = some (t, es₂) ∧ es = es₁ ++ es₂ := by
  induction as generalizing s es with
  | nil => simp
  | cons a as ih =>
    rw [List.cons_append, run_cons]
    constructor
    · rintro ⟨s', e, es', hstep, hrun, rfl⟩
      obtain ⟨u, es₁, es₂, h₁, h₂, rfl⟩ := ih.1 hrun
      exact ⟨u, e ++ es₁, es₂, run_cons.2 ⟨s', e, es₁, hstep, h₁, rfl⟩, h₂, by simp⟩
    · rintro ⟨u, es₁, es₂, h₁, h₂, rfl⟩
      obtain ⟨s', e, es', hstep, hrun, rfl⟩ := run_cons.1 h₁
      exact ⟨s', e, es' ++ es₂, hstep, ih.2 ⟨u, es', es₂, hrun, h₂, rfl⟩, by simp⟩

/-- A run ends with its last step. -/
theorem run_snoc {s t : σ} {as : List α} {a : α} {es : List ε} :
    M.run s (as ++ [a]) = some (t, es) ↔
      ∃ u es₁ e, M.run s as = some (u, es₁) ∧ M.step u a = some (t, e) ∧ es = es₁ ++ e := by
  rw [run_append]
  constructor
  · rintro ⟨u, es₁, es₂, h₁, h₂, rfl⟩
    obtain ⟨s', e, es', hstep, hrun, rfl⟩ := run_cons.1 h₂
    cases hrun
    exact ⟨u, es₁, e, h₁, hstep, by simp⟩
  · rintro ⟨u, es₁, e, h₁, h₂, rfl⟩
    exact ⟨u, es₁, e, h₁, run_cons.2 ⟨t, e, [], h₂, rfl, by simp⟩, rfl⟩

/-- **The invariant rule.** What holds at the start and is preserved by every step
holds, of the actions, the events and the state, after every run. -/
theorem run_induction {I : List α → List ε → σ → Prop} {s₀ : σ} (h₀ : I [] [] s₀)
    (hstep : ∀ as es s a t e, I as es s → M.step s a = some (t, e) → I (as ++ [a]) (es ++ e) t)
    {as : List α} {es : List ε} {t : σ} (h : M.run s₀ as = some (t, es)) : I as es t := by
  induction as using List.reverseRecOn generalizing es t with
  | nil => cases h; exact h₀
  | append_singleton as a ih =>
    obtain ⟨u, es₁, e, h₁, h₂, rfl⟩ := run_snoc.1 h
    exact hstep as es₁ u a t e (ih h₁) h₂

/-- **The projection rule.** If each step is, under `f`, a step of another machine with the same
events, or nothing to it, each run is a run of the other one. -/
theorem run_project {τ β : Type} {N : Machine τ β ε} (f : σ → τ) (P : β → Prop)
    (hstep : ∀ s a t e, M.step s a = some (t, e) →
      (f t = f s ∧ e = []) ∨ ∃ b, P b ∧ N.step (f s) b = some (f t, e))
    {s t : σ} {as : List α} {es : List ε} (h : M.run s as = some (t, es)) :
    ∃ bs, (∀ b ∈ bs, P b) ∧ N.run (f s) bs = some (f t, es) := by
  refine run_induction (M := M)
    (I := fun _ es t => ∃ bs, (∀ b ∈ bs, P b) ∧ N.run (f s) bs = some (f t, es))
    ⟨[], fun b hb => (by cases hb), rfl⟩ ?_ h
  rintro as es t a u e ⟨bs, hbs, hrun⟩ hlast
  rcases hstep t a u e hlast with ⟨hf, rfl⟩ | ⟨b, hb, hN⟩
  · refine ⟨bs, hbs, ?_⟩
    rw [hf, List.append_nil]
    exact hrun
  · refine ⟨bs ++ [b], fun c hc => ?_, run_snoc.2 ⟨_, _, _, hrun, hN, rfl⟩⟩
    rcases List.mem_append.1 hc with hc | hc
    · exact hbs c hc
    · rwa [List.mem_singleton.1 hc]

/-- **The measure rule.** If a measure goes down with each step of a kind and up with none, a run
has no more steps of that kind than the measure goes down by. -/
theorem run_measure {I : σ → Prop} {p : α → Bool} {μ : σ → ℕ}
    (hstep : ∀ s a t e, I s → M.step s a = some (t, e) → I t ∧ μ t + (p a).toNat ≤ μ s)
    {s t : σ} {as : List α} {es : List ε} (h₀ : I s) (h : M.run s as = some (t, es)) :
    I t ∧ as.countP p + μ t ≤ μ s := by
  refine run_induction (M := M) (I := fun as _ t => I t ∧ as.countP p + μ t ≤ μ s)
    ⟨h₀, by simp⟩ (fun as _ t a u e ih hlast => ?_) h
  obtain ⟨hI, hle⟩ := hstep t a u e ih.1 hlast
  refine ⟨hI, ?_⟩
  have hcount : (as ++ [a]).countP p = as.countP p + (p a).toNat := by
    rw [List.countP_append, List.countP_singleton]
    cases p a <;> rfl
  have := ih.2
  omega

/-! ### Runs whose steps all meet a condition -/

variable (M)

/-- Every step of the run is taken in a state that meets the condition with its action. -/
def Along (P : σ → α → Prop) (s : σ) : List α → Prop
  | [] => True
  | a :: as => P s a ∧ ∀ s' e, M.step s a = some (s', e) → Along P s' as

variable {M}

theorem along_append {P : σ → α → Prop} {s : σ} {as bs : List α} {t : σ} {es : List ε}
    (h : M.run s as = some (t, es)) :
    M.Along P s (as ++ bs) ↔ M.Along P s as ∧ M.Along P t bs := by
  induction as generalizing s es with
  | nil =>
    cases h
    simp [Along]
  | cons b as ih =>
    obtain ⟨s', e, es', hstep, hrun, rfl⟩ := run_cons.1 h
    have hone : ∀ {Q : σ → Prop}, (∀ u f, M.step s b = some (u, f) → Q u) ↔ Q s' := fun {Q} => by
      constructor
      · exact fun hall => hall s' e hstep
      · intro hq u f hu
        obtain ⟨rfl, -⟩ := Prod.mk.inj (Option.some.inj (hstep.symm.trans hu))
        exact hq
    rw [List.cons_append, Along, Along, hone, hone, ih hrun, and_assoc]

theorem along_snoc {P : σ → α → Prop} {s : σ} {as : List α} {a : α} {t : σ} {es : List ε}
    (h : M.run s as = some (t, es)) : M.Along P s (as ++ [a]) ↔ M.Along P s as ∧ P t a := by
  rw [along_append h]
  simp [Along]

theorem Along.and {P Q : σ → α → Prop} {s : σ} {as : List α} (hP : M.Along P s as)
    (hQ : M.Along Q s as) : M.Along (fun s a => P s a ∧ Q s a) s as := by
  induction as generalizing s with
  | nil => trivial
  | cons a as ih =>
    exact ⟨⟨hP.1, hQ.1⟩, fun s' e hstep => ih (hP.2 s' e hstep) (hQ.2 s' e hstep)⟩

/-- Whether a run meets a condition can be computed. -/
instance decidableAlong (P : σ → α → Prop) [∀ s a, Decidable (P s a)] :
    ∀ (s : σ) (as : List α), Decidable (M.Along P s as)
  | _, [] => .isTrue trivial
  | s, a :: as =>
    match h : M.step s a with
    | none =>
      decidable_of_iff (P s a) ⟨fun hP => ⟨hP, fun s' e hs => by simp [h] at hs⟩, And.left⟩
    | some (s', e) =>
      have := decidableAlong P s' as
      decidable_of_iff (P s a ∧ M.Along P s' as)
        ⟨fun hP => ⟨hP.1, fun t f ht => by
            obtain ⟨rfl, -⟩ := Prod.mk.inj (Option.some.inj (h.symm.trans ht))
            exact hP.2⟩,
          fun hP => ⟨hP.1, hP.2 s' e h⟩⟩

/-- A condition that follows from another one and from what that one preserves. -/
theorem Along.of_invariant {P Q : σ → α → Prop} {I : List ε → σ → Prop} {es₀ : List ε} {s₀ : σ}
    (h₀ : I es₀ s₀)
    (hstep : ∀ es s a t e, I es s → P s a → M.step s a = some (t, e) → I (es ++ e) t)
    (hPQ : ∀ es s a, I es s → P s a → Q s a) {as : List α} (h : M.Along P s₀ as) :
    M.Along Q s₀ as := by
  induction as generalizing s₀ es₀ with
  | nil => trivial
  | cons a as ih =>
    exact ⟨hPQ es₀ s₀ a h₀ h.1,
      fun s' e hs => ih (hstep es₀ s₀ a s' e h₀ h.1 hs) (h.2 s' e hs)⟩

/-- **The invariant rule** for runs whose steps all meet a condition, from any history. -/
theorem run_induction_along {P : σ → α → Prop} {I : List ε → σ → Prop} {es₀ : List ε} {s₀ : σ}
    (h₀ : I es₀ s₀)
    (hstep : ∀ es s a t e, I es s → P s a → M.step s a = some (t, e) → I (es ++ e) t)
    {as : List α} {es : List ε} {t : σ} (hP : M.Along P s₀ as)
    (h : M.run s₀ as = some (t, es)) : I (es₀ ++ es) t := by
  induction as using List.reverseRecOn generalizing es t with
  | nil =>
    cases h
    rwa [List.append_nil]
  | append_singleton as a ih =>
    obtain ⟨u, es₁, e, h₁, h₂, rfl⟩ := run_snoc.1 h
    obtain ⟨hbefore, hlast⟩ := (along_snoc h₁).1 hP
    rw [← List.append_assoc]
    exact hstep (es₀ ++ es₁) u a t e (ih hbefore h₁) hlast h₂

end Machine

end Tokenweir
