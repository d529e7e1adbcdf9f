import Mathlib.Tactic
import Mathlib.Algebra.Order.Group.Defs

/-!
# Fixed windows over a sequence of instants

Instants, in the order they happen, are grouped into windows of length `R`: a window
is anchored at its first instant, and the first instant at or after the anchor plus
`R` anchors the next one.

* `Window`, `Window.push`, `windows`, with the latest window first;
* `windows_spaced`, consecutive anchors are at least `R` apart;
* `instants_lt_anchor`, each instant of a window lies before its anchor plus `R`;
* `span_length_le`, when every window holds at most `N` instants, every half-open
  span of length `R` holds at most `2 * N - 1`: a span meets at most two windows,
  and it does not contain the anchor of the first.
-/

namespace Tokenweir

/-- A window: its anchor, and the later instants in it. -/
structure Window (T : Type) where
  anchor : T
  later : List T

namespace Window

variable {T : Type}

/-- The instants of a window. -/
def members (w : Window T) : List T := w.anchor :: w.later

theorem length_members (w : Window T) : w.members.length = w.later.length + 1 := rfl

/-- The instants of all windows, in the order they happened. -/
def instants (ws : List (Window T)) : List T := ws.reverse.flatMap members

theorem instants_cons (w : Window T) (ws : List (Window T)) :
    instants (w :: ws) = instants ws ++ w.members := by
  simp [instants]

theorem anchor_mem_instants {ws : List (Window T)} {w : Window T} (h : w ∈ ws) :
    w.anchor ∈ instants ws :=
  List.mem_flatMap.2 ⟨w, List.mem_reverse.2 h, List.mem_cons_self⟩

variable [AddCommGroup T] [LinearOrder T]

/-- Add an instant: to the latest window, or as the anchor of a new one. -/
def push (R : T) (ws : List (Window T)) (t : T) : List (Window T) :=
  match ws with
  | [] => [⟨t, []⟩]
  | w :: ws => if w.anchor + R ≤ t then ⟨t, []⟩ :: w :: ws else ⟨w.anchor, w.later ++ [t]⟩ :: ws

/-- The windows of a sequence of instants, the latest first. -/
def windows (R : T) (ts : List T) : List (Window T) := ts.foldl (push R) []

@[simp] theorem windows_nil (R : T) : windows R [] = [] := rfl

theorem windows_snoc (R : T) (ts : List T) (t : T) :
    windows R (ts ++ [t]) = push R (windows R ts) t := by
  simp [windows]

theorem instants_windows (R : T) (ts : List T) : instants (windows R ts) = ts := by
  induction ts using List.reverseRecOn with
  | nil => rfl
  | append_singleton ts t ih =>
    rw [windows_snoc]
    cases hw : windows R ts with
    | nil =>
      rw [hw] at ih
      rw [← ih]
      rfl
    | cons w ws =>
      rw [hw, instants_cons] at ih
      simp only [push]
      split_ifs
      · rw [instants_cons, instants_cons, ih]
        rfl
      · rw [instants_cons, ← ih, List.append_assoc]
        rfl

/-- Windows in their places: each member before the end of its window, and each window
anchored at or after the end of the one before. -/
structure Spaced (R : T) (ws : List (Window T)) : Prop where
  apart : ws.IsChain (fun w v => v.anchor + R ≤ w.anchor)
  before : ∀ w ∈ ws, ∀ t ∈ w.members, w.anchor ≤ t ∧ t < w.anchor + R

variable [IsOrderedAddMonoid T]

theorem push_spaced {R : T} (hR : 0 < R) {ws : List (Window T)} {t : T} (h : Spaced R ws)
    (ht : ∀ w ∈ ws, w.anchor ≤ t) : Spaced R (push R ws t) := by
  have hself : ∀ t' ∈ (Window.mk t []).members, t ≤ t' ∧ t' < t + R := by
    intro t' ht'
    obtain rfl : t' = t := by simpa [members] using ht'
    exact ⟨le_rfl, lt_add_of_pos_right _ hR⟩
  cases ws with
  | nil =>
    refine ⟨List.isChain_singleton _, fun w hw => ?_⟩
    obtain rfl : w = ⟨t, []⟩ := by simpa [push] using hw
    exact hself
  | cons w ws =>
    simp only [push]
    split_ifs with hle
    · refine ⟨List.isChain_cons_cons.2 ⟨hle, h.apart⟩, fun v hv => ?_⟩
      rcases List.mem_cons.1 hv with rfl | hv
      · exact hself
      · exact h.before v hv
    · refine ⟨?_, fun v hv => ?_⟩
      · cases ws with
        | nil => exact List.isChain_singleton _
        | cons u us => exact List.isChain_cons_cons.2 (List.isChain_cons_cons.1 h.apart)
      · rcases List.mem_cons.1 hv with rfl | hv
        · intro t' ht'
          rcases List.mem_append.1 (show t' ∈ w.members ++ [t] from ht') with ht' | ht'
          · exact h.before w List.mem_cons_self t' ht'
          · obtain rfl := List.mem_singleton.1 ht'
            exact ⟨ht w List.mem_cons_self, lt_of_not_ge hle⟩
        · exact h.before v (List.mem_cons_of_mem _ hv)

/-- The windows of a non-decreasing sequence are in their places. -/
theorem windows_spaced {R : T} (hR : 0 < R) {ts : List T} (hts : ts.Pairwise (· ≤ ·)) :
    Spaced R (windows R ts) := by
  induction ts using List.reverseRecOn with
  | nil => exact ⟨.nil, fun w hw => by cases hw⟩
  | append_singleton ts t ih =>
    rw [windows_snoc]
    obtain ⟨h₁, -, h₂⟩ := List.pairwise_append.1 hts
    refine push_spaced hR (ih h₁) fun w hw => ?_
    have hmem := anchor_mem_instants hw
    rw [instants_windows] at hmem
    exact h₂ _ hmem t (List.mem_singleton_self t)

/-! ### Spans -/

/-- The instants in the half-open span of length `R` from `a`. -/
def span (R a : T) (ts : List T) : List T := ts.filter fun t => a ≤ t ∧ t < a + R

omit [IsOrderedAddMonoid T] in
theorem span_append (R a : T) (ts us : List T) :
    span R a (ts ++ us) = span R a ts ++ span R a us := by
  simp [span]

omit [IsOrderedAddMonoid T] in
theorem span_eq_nil {R a : T} {ts : List T} (h : ∀ t ∈ ts, t < a) : span R a ts = [] := by
  rw [span, List.filter_eq_nil_iff]
  intro t ht
  have := h t ht
  simp [not_le_of_gt this]

/-- Everything before a window ends before its anchor. -/
theorem instants_lt_anchor {R : T} (hR : 0 < R) {w : Window T} {ws : List (Window T)}
    (h : Spaced R (w :: ws)) : ∀ t ∈ instants ws, t < w.anchor := by
  induction ws generalizing w with
  | nil => intro t ht; cases ht
  | cons v vs ih =>
    intro t ht
    obtain ⟨hvw, hchain⟩ := List.isChain_cons_cons.1 h.apart
    have hv : Spaced R (v :: vs) := ⟨hchain, fun u hu => h.before u (List.mem_cons_of_mem _ hu)⟩
    rw [instants_cons, List.mem_append] at ht
    rcases ht with ht | ht
    · exact (ih hv t ht).trans ((lt_add_of_pos_right _ hR).trans_le hvw)
    · exact (h.before v (by simp) t ht).2.trans_le hvw

/-- **The bound of a span.** When every window holds at most `N` instants, a half-open span of
length `R` holds at most `2 * N - 1`. -/
theorem span_length_le {R : T} (hR : 0 < R) {N : ℕ} {ws : List (Window T)} (h : Spaced R ws)
    (hN : ∀ w ∈ ws, w.members.length ≤ N) (a : T) :
    (span R a (instants ws)).length ≤ 2 * N - 1 := by
  induction ws with
  | nil => simp [instants, span]
  | cons w ws ih =>
    have hws : Spaced R ws :=
      ⟨h.apart.tail, fun u hu => h.before u (List.mem_cons_of_mem _ hu)⟩
    have hwN : w.members.length ≤ N := hN w List.mem_cons_self
    have hspan : (span R a w.members).length ≤ w.members.length := List.length_filter_le _ _
    have hpos := w.length_members
    rw [instants_cons, span_append, List.length_append]
    rcases Nat.eq_zero_or_pos (span R a w.members).length with hzero | hmeet
    · -- the span does not meet the latest window
      rw [hzero]
      exact ih hws fun v hv => hN v (List.mem_cons_of_mem _ hv)
    · -- the span meets it, so it ends after its anchor
      obtain ⟨t, ht⟩ := List.exists_mem_of_length_pos hmeet
      obtain ⟨htw, hta⟩ := List.mem_filter.1 ht
      have hanchor : w.anchor < a + R :=
        (h.before w List.mem_cons_self t htw).1.trans_lt (of_decide_eq_true hta).2
      cases ws with
      | nil =>
        have : span R a (instants ([] : List (Window T))) = [] := rfl
        rw [this, List.length_nil]
        omega
      | cons v vs =>
        have hvN : v.members.length ≤ N := hN v (by simp)
        obtain ⟨hvw, -⟩ := List.isChain_cons_cons.1 h.apart
        -- so the anchor of the window before lies before the span
        have hva : v.anchor < a := by
          have := hvw.trans_lt hanchor
          exact lt_of_add_lt_add_right this
        have hrest : span R a (instants vs) = [] :=
          span_eq_nil fun t ht => (instants_lt_anchor hR hws t ht).trans hva
        have hv : (span R a v.members).length ≤ v.later.length := by
          have : span R a v.members = span R a v.later := by
            rw [members, span, List.filter_cons_of_neg (by simp [not_le_of_gt hva])]
            rfl
          rw [this]
          exact List.length_filter_le _ _
        have hvlen := v.length_members
        rw [instants_cons, span_append, hrest, List.nil_append]
        omega

end Window

end Tokenweir
