import Mathlib.Data.List.Basic
import Mathlib.Data.List.Infix
import Mathlib.Tactic.Common

/-!
# Masking a word

Replacing a word wherever it stands in a text, from the left to the right: `str.replace`, and
`re.sub` of a word between two guards, which look at the letters beside it.

* `Guard`, `Stands`; `mask`;
* `Cut`, the pieces between the places that are masked, and `exists_cut`;
* `exists_preimage`, where a part of the masked text comes from;
* `mask_hides`, `infix_of_mask`, `mask_eq_self`;
* `mask_shielded_left`, `mask_shielded_right`, a word that is left beside itself.
-/

namespace Tokenweir.Masking

variable {α : Type}

/-- What a letter beside a word may be; `none` is the end of the text. -/
abbrev Guard (α : Type) := Option α → Bool

/-- The guard of a word that may stand anywhere. -/
def anywhere : Guard α := fun _ => true

/-- A word stands in a text between two letters. -/
def Stands (ok : Guard α) (x : List α) (l : Option α) (s : List α) (r : Option α) : Prop :=
  ∃ a b, s = a ++ (x ++ b) ∧ ok (a.getLast?.or l) = true ∧ ok (b.head?.or r) = true

/-! ### Letters beside -/

theorem getLast?_append_or (a s : List α) (l : Option α) :
    (a ++ s).getLast?.or l = s.getLast?.or (a.getLast?.or l) := by
  rw [List.getLast?_append, Option.or_assoc]

theorem head?_append_or (s b : List α) (r : Option α) :
    (s ++ b).head?.or r = s.head?.or (b.head?.or r) := by
  rw [List.head?_append, Option.or_assoc]

theorem getLast?_or_of_ne {s : List α} (h : s ≠ []) (l : Option α) :
    s.getLast?.or l = s.getLast? := by
  rw [List.getLast?_eq_getLast_of_ne_nil h]
  rfl

theorem head?_or_of_ne {s : List α} (h : s ≠ []) (r : Option α) : s.head?.or r = s.head? := by
  obtain ⟨c, s, rfl⟩ := List.exists_cons_of_ne_nil h
  rfl

theorem head?_append_of_ne {s : List α} (h : s ≠ []) (b : List α) : (s ++ b).head? = s.head? := by
  rw [List.head?_append, head?_or_of_ne h]

theorem getLast?_append_of_ne {s : List α} (h : s ≠ []) (a : List α) :
    (a ++ s).getLast? = s.getLast? := by
  rw [List.getLast?_append, getLast?_or_of_ne h]

variable {ok : Guard α} {x sub : List α}

/-- A word that stands in a part of a text stands in the text. -/
theorem Stands.context {l r : Option α} {A q B : List α}
    (h : Stands ok x (A.getLast?.or l) q (B.head?.or r)) : Stands ok x l (A ++ (q ++ B)) r := by
  obtain ⟨a, b, rfl, hl, hr⟩ := h
  refine ⟨A ++ a, b ++ B, by simp only [List.append_assoc], ?_, ?_⟩
  · rwa [getLast?_append_or]
  · rwa [head?_append_or]

/-- What stands in a text stands in it beside letters that do not matter. -/
theorem Stands.beside {l r : Option α} {s : List α} (h : Stands ok x none s none)
    (hl : ok l = true) (hr : ok r = true) : Stands ok x l s r := by
  obtain ⟨a, b, rfl, ha, hb⟩ := h
  rw [Option.or_none] at ha hb
  refine ⟨a, b, rfl, ?_, ?_⟩
  · rcases eq_or_ne a [] with rfl | hne
    · exact hl
    · rwa [getLast?_or_of_ne hne]
  · rcases eq_or_ne b [] with rfl | hne
    · exact hr
    · rwa [head?_or_of_ne hne]

theorem not_stands_nil (hx : x ≠ []) (l r : Option α) : ¬Stands ok x l [] r := by
  rintro ⟨a, b, hnil, -⟩
  rw [eq_comm, List.append_eq_nil_iff, List.append_eq_nil_iff] at hnil
  exact hx hnil.2.1

/-- A word stands at the front, or after the first letter. -/
theorem stands_cons {l r : Option α} {c : α} {s : List α} :
    Stands ok x l (c :: s) r ↔
      (ok l = true ∧ ∃ b, c :: s = x ++ b ∧ ok (b.head?.or r) = true) ∨ Stands ok x (some c) s r := by
  have hlast : ∀ a : List α, (c :: a).getLast?.or l = a.getLast?.or (some c) :=
    fun a => getLast?_append_or [c] a l
  constructor
  · rintro ⟨a, b, heq, hl, hr⟩
    rcases a with _ | ⟨d, a⟩
    · exact .inl ⟨hl, b, heq, hr⟩
    · obtain ⟨rfl, rfl⟩ := List.cons.inj heq
      rw [hlast] at hl
      exact .inr ⟨a, b, rfl, hl, hr⟩
  · rintro (⟨hl, b, heq, hr⟩ | ⟨a, b, rfl, hl, hr⟩)
    · exact ⟨[], b, heq, hl, hr⟩
    · refine ⟨c :: a, b, rfl, ?_, hr⟩
      rwa [hlast]

/-- A word that may stand anywhere stands where it occurs. -/
theorem stands_anywhere {l r : Option α} {s : List α} :
    Stands anywhere x l s r ↔ x <:+: s := by
  constructor
  · rintro ⟨a, b, rfl, -⟩
    exact ⟨a, b, List.append_assoc _ _ _⟩
  · rintro ⟨a, b, rfl⟩
    exact ⟨a, b, List.append_assoc _ _ _, rfl, rfl⟩

/-! ### Parts of two texts -/

/-- A part of two texts lies in the first one, or what it has of the first one is at its end. -/
theorem straddle_left {u f A y B : List α} (h : u ++ f = A ++ (y ++ B)) :
    (∃ B₁, u = A ++ (y ++ B₁) ∧ B = B₁ ++ f) ∨
      ∃ p y' A₁, y = p ++ y' ∧ f = A₁ ++ (y' ++ B) ∧
        (p = [] ∧ A = u ++ A₁ ∨ p ≠ [] ∧ u = A ++ p ∧ A₁ = []) := by
  rcases List.append_eq_append_iff.1 h with ⟨a, hA, hf⟩ | ⟨b, hu, hyB⟩
  · exact .inr ⟨[], y, a, rfl, hf, .inl ⟨rfl, hA⟩⟩
  · rcases List.append_eq_append_iff.1 hyB with ⟨a, rfl, hB⟩ | ⟨c, hy, hf⟩
    · exact .inl ⟨a, hu, hB⟩
    · rcases eq_or_ne b [] with rfl | hb
      · exact .inr ⟨[], c, [], hy, hf, .inl ⟨rfl, by rw [hu, List.append_nil, List.append_nil]⟩⟩
      · exact .inr ⟨b, c, [], hy, hf, .inr ⟨hb, hu, rfl⟩⟩

/-- A part of two texts lies in the second one, or what it has of the second one is in front. -/
theorem straddle_right {f v A y B : List α} (h : f ++ v = A ++ (y ++ B)) :
    (∃ A₁, A = f ++ A₁ ∧ v = A₁ ++ (y ++ B)) ∨
      ∃ y' r B₁, y = y' ++ r ∧ f = A ++ (y' ++ B₁) ∧
        (r = [] ∧ B = B₁ ++ v ∨ r ≠ [] ∧ v = r ++ B ∧ B₁ = []) := by
  rcases List.append_eq_append_iff.1 h with ⟨a, hA, hv⟩ | ⟨b, hf, hyB⟩
  · exact .inl ⟨a, hA, hv⟩
  · rcases List.append_eq_append_iff.1 hyB with ⟨a, rfl, hB⟩ | ⟨c, hy, hv⟩
    · exact .inr ⟨y, [], a, (List.append_nil y).symm, hf, .inl ⟨rfl, hB⟩⟩
    · have hf' : f = A ++ (b ++ []) := by rw [List.append_nil, hf]
      rcases eq_or_ne c [] with rfl | hc
      · exact .inr ⟨b, [], [], hy, hf', .inl ⟨rfl, hv.symm⟩⟩
      · exact .inr ⟨b, c, [], hy, hf', .inr ⟨hc, hv, rfl⟩⟩

/-- What a part of two texts has of the second one. -/
def Begins (u A A₁ p : List α) : Prop := p = [] ∧ A = u ++ A₁ ∨ p ≠ [] ∧ u = A ++ p ∧ A₁ = []

def Ends (v B B₁ r : List α) : Prop := r = [] ∧ B = B₁ ++ v ∨ r ≠ [] ∧ v = r ++ B ∧ B₁ = []

/-- A part of three texts lies in the first one, or in the last one, or has three pieces. -/
theorem straddle_both {u f v A y B : List α} (h : u ++ (f ++ v) = A ++ (y ++ B)) :
    (∃ B₁, u = A ++ (y ++ B₁) ∧ B = B₁ ++ (f ++ v)) ∨
      (∃ A₂, A = u ++ (f ++ A₂) ∧ v = A₂ ++ (y ++ B)) ∨
      ∃ p q r A₁ B₁, y = p ++ (q ++ r) ∧ f = A₁ ++ (q ++ B₁) ∧ Begins u A A₁ p ∧
        Ends v B B₁ r := by
  rcases straddle_left h with hleft | ⟨p, y', A₁, rfl, hf, hp⟩
  · exact .inl hleft
  · rcases straddle_right hf with ⟨A₂, rfl, hv⟩ | ⟨q, r, B₁, rfl, hq, hr⟩
    · rcases hp with ⟨rfl, rfl⟩ | ⟨hne, hu, hnil⟩
      · exact .inr (.inl ⟨A₂, rfl, hv⟩)
      -- The text in the middle is empty.
      · obtain ⟨rfl, rfl⟩ := List.append_eq_nil_iff.1 hnil
        refine .inr (.inr ⟨p, [], y', [], [], rfl, rfl, .inr ⟨hne, hu, rfl⟩, ?_⟩)
        rcases eq_or_ne y' [] with rfl | hy
        · exact .inl ⟨rfl, hv.symm⟩
        · exact .inr ⟨hy, hv, rfl⟩
    · exact .inr (.inr ⟨p, q, r, A₁, B₁, rfl, hq, hp, hr⟩)

theorem Begins.beside {u A A₁ p : List α} (h : Begins u A A₁ p) (hnone : ok none = true)
    (hA : ok A.getLast? = true) : ok A₁.getLast? = true := by
  rcases h with ⟨-, rfl⟩ | ⟨-, -, rfl⟩
  · rcases eq_or_ne A₁ [] with rfl | hne
    · exact hnone
    · rwa [getLast?_append_of_ne hne] at hA
  · exact hnone

theorem Ends.beside {v B B₁ r : List α} (h : Ends v B B₁ r) (hnone : ok none = true)
    (hB : ok B.head? = true) : ok B₁.head? = true := by
  rcases h with ⟨-, rfl⟩ | ⟨-, -, rfl⟩
  · rcases eq_or_ne B₁ [] with rfl | hne
    · exact hnone
    · rwa [head?_append_of_ne hne] at hB
  · exact hnone

theorem Begins.eq_nil {u A A₁ p : List α} (h : Begins u A A₁ p) (hne : A₁ ≠ []) : p = [] := by
  rcases h with ⟨hp, -⟩ | ⟨-, -, hnil⟩
  · exact hp
  · exact absurd hnil hne

theorem Ends.eq_nil {v B B₁ r : List α} (h : Ends v B B₁ r) (hne : B₁ ≠ []) : r = [] := by
  rcases h with ⟨hr, -⟩ | ⟨-, -, hnil⟩
  · exact hr
  · exact absurd hnil hne

/-- A part that neither begins nor ends with a letter is between two of them. -/
theorem between_letters {z : α} {zl zr q A y B : List α} (hzl : zl = [] ∨ zl = [z])
    (hzr : zr = [] ∨ zr = [z]) (hy : y ≠ []) (hhead : y.head? ≠ some z)
    (hlast : y.getLast? ≠ some z) (h : zl ++ (q ++ zr) = A ++ (y ++ B)) :
    ∃ A₁ B₁, q = A₁ ++ (y ++ B₁) ∧ A = zl ++ A₁ ∧ B = B₁ ++ zr := by
  have hmem : ∀ {zs : List α}, zs = [] ∨ zs = [z] → ∀ c ∈ zs, c = z := by
    rintro zs (rfl | rfl) c hc
    · exact absurd hc List.not_mem_nil
    · exact List.mem_singleton.1 hc
  have hfirst : ∀ {c : α} {s : List α}, y = c :: s → c ≠ z := by
    rintro c s rfl rfl
    exact hhead rfl
  have hend : ∀ {c : α} {s : List α}, y = s ++ [c] → c ≠ z := by
    rintro c s rfl rfl
    exact hlast List.getLast?_concat
  obtain ⟨c, s, hcs⟩ := List.exists_cons_of_ne_nil hy
  obtain ⟨u, d, hud⟩ := (List.eq_nil_or_concat' y).resolve_left hy
  rcases straddle_left h with ⟨B₁, hz, -⟩ | ⟨p, y', A₁, hyp, hf, ⟨rfl, rfl⟩ | ⟨hp, hz, -⟩⟩
  · refine absurd (hmem hzl c ?_) (hfirst hcs)
    rw [hz, hcs]
    exact List.mem_append_right _ (.head _)
  · obtain rfl : y = y' := hyp
    rcases straddle_right hf with ⟨A₂, -, hz⟩ | ⟨y'', r, B₁, hyr, hq, ⟨rfl, rfl⟩ | ⟨hr, hz, -⟩⟩
    · refine absurd (hmem hzr c ?_) (hfirst hcs)
      rw [hz, hcs]
      exact List.mem_append_right _ (.head _)
    · rw [List.append_nil] at hyr
      exact ⟨A₁, B₁, hyr ▸ hq, rfl, rfl⟩
    · obtain ⟨r, e, rfl⟩ := (List.eq_nil_or_concat' r).resolve_left hr
      refine absurd (hmem hzr e ?_) (hend (s := y'' ++ r) ?_)
      · rw [hz]
        exact List.mem_append_left _ (List.mem_append_right _ (.head _))
      · rw [hyr, List.append_assoc]
  · obtain ⟨e, p, rfl⟩ := List.exists_cons_of_ne_nil hp
    refine absurd (hmem hzl e ?_) (hfirst (s := p ++ y') hyp)
    rw [hz]
    exact List.mem_append_right _ (.head _)

/-! ### Masking -/

section

variable [DecidableEq α]

/-- A word stands at the front of a text. -/
def standsAt (ok : Guard α) (x : List α) (l : Option α) (s : List α) : Bool :=
  x.isPrefixOf s && ok l && ok (s.drop x.length).head?

/-- The number of letters of a match that are still to be passed, and the letter before. -/
def maskFrom (ok : Guard α) (x sub : List α) : ℕ → Option α → List α → List α
  | _, _, [] => []
  | k + 1, _, c :: s => maskFrom ok x sub k (some c) s
  | 0, l, c :: s =>
    if standsAt ok x l (c :: s) then sub ++ maskFrom ok x sub (x.length - 1) (some c) s
    else c :: maskFrom ok x sub 0 (some c) s

/-- Mask a word that is not empty. -/
def mask (ok : Guard α) (x sub s : List α) : List α := maskFrom ok x sub 0 none s

theorem standsAt_iff {l : Option α} {s : List α} :
    standsAt ok x l s = true ↔ ∃ b, s = x ++ b ∧ ok l = true ∧ ok b.head? = true := by
  unfold standsAt
  rw [Bool.and_eq_true, Bool.and_eq_true, List.isPrefixOf_iff_prefix]
  constructor
  · rintro ⟨⟨⟨b, rfl⟩, hl⟩, hr⟩
    rw [List.drop_left] at hr
    exact ⟨b, rfl, hl, hr⟩
  · rintro ⟨b, rfl, hl, hr⟩
    rw [List.drop_left]
    exact ⟨⟨List.prefix_append x b, hl⟩, hr⟩

/-- The letters of a match are passed. -/
theorem maskFrom_passed (a s : List α) (l : Option α) :
    maskFrom ok x sub a.length l (a ++ s) = maskFrom ok x sub 0 (a.getLast?.or l) s := by
  induction a generalizing l with
  | nil => rfl
  | cons c a ih =>
    rw [List.length_cons, List.cons_append, maskFrom, ih (some c)]
    have hlast := getLast?_append_or [c] a l
    rw [List.singleton_append] at hlast
    rw [hlast]
    rfl

/-- A word that stands at the front is masked. -/
theorem maskFrom_match (hx : x ≠ []) {l : Option α} {s : List α} (hl : ok l = true)
    (hr : ok s.head? = true) :
    maskFrom ok x sub 0 l (x ++ s) = sub ++ maskFrom ok x sub 0 x.getLast? s := by
  obtain ⟨c, y, rfl⟩ := List.exists_cons_of_ne_nil hx
  have hstands : standsAt ok (c :: y) l (c :: (y ++ s)) = true :=
    standsAt_iff.2 ⟨s, rfl, hl, hr⟩
  have hlast := getLast?_append_or [c] y l
  rw [List.singleton_append, getLast?_or_of_ne (List.cons_ne_nil c y)] at hlast
  rw [List.cons_append, maskFrom, if_pos hstands, List.length_cons, Nat.add_sub_cancel,
    maskFrom_passed, hlast]
  rfl

theorem maskFrom_cons {l : Option α} {c : α} {s : List α}
    (h : ¬standsAt ok x l (c :: s) = true) :
    maskFrom ok x sub 0 l (c :: s) = c :: maskFrom ok x sub 0 (some c) s := by
  rw [maskFrom, if_neg h]

/-- What the word does not stand at is left. -/
theorem maskFrom_append {a s : List α} {l : Option α}
    (h : ∀ a₁ a₂, a = a₁ ++ a₂ → a₂ ≠ [] → ¬standsAt ok x (a₁.getLast?.or l) (a₂ ++ s) = true) :
    maskFrom ok x sub 0 l (a ++ s) = a ++ maskFrom ok x sub 0 (a.getLast?.or l) s := by
  induction a generalizing l with
  | nil => rfl
  | cons c a ih =>
    have hlast : ∀ b : List α, (c :: b).getLast?.or l = b.getLast?.or (some c) :=
      fun b => getLast?_append_or [c] b l
    have hfront : ¬standsAt ok x l (c :: (a ++ s)) = true := h [] (c :: a) rfl (List.cons_ne_nil _ _)
    rw [List.cons_append, maskFrom_cons hfront, ih, hlast, List.cons_append]
    · rintro a₁ a₂ rfl hne
      rw [← hlast]
      exact h (c :: a₁) a₂ rfl hne

/-- **A text in which the word does not stand** is left as it is. -/
theorem maskFrom_of_none {l : Option α} {s : List α} (h : ¬Stands ok x l s none) :
    maskFrom ok x sub 0 l s = s := by
  have happend := @maskFrom_append _ ok x sub _ s [] l ?_
  · rw [List.append_nil, maskFrom, List.append_nil] at happend
    exact happend
  · rintro a₁ a₂ rfl - hstands
    rw [List.append_nil] at hstands
    obtain ⟨b, rfl, hl, hr⟩ := standsAt_iff.1 hstands
    refine h ⟨a₁, b, rfl, hl, ?_⟩
    rwa [Option.or_none]

theorem mask_eq_self {s : List α} (h : ¬Stands ok x none s none) : mask ok x sub s = s :=
  maskFrom_of_none h

end

/-! ### The pieces -/

/-- Pieces with a separator between them. -/
def splice (sep h : List α) (t : List (List α)) : List α := h ++ t.flatMap (sep ++ ·)

theorem splice_nil (sep h : List α) : splice sep h [] = h := List.append_nil h

theorem splice_cons (sep h h' : List α) (t : List (List α)) :
    splice sep h (h' :: t) = h ++ (sep ++ splice sep h' t) := by
  rw [splice, splice, List.flatMap_cons, List.append_assoc]

/-- The pieces of a text after a letter: the word stands in none, and between any two. -/
inductive Cut (ok : Guard α) (x : List α) : Option α → List α → List (List α) → Prop
  | last {l : Option α} {h : List α} : ¬Stands ok x l h none → Cut ok x l h []
  | masked {l : Option α} {h h' : List α} {t : List (List α)} : ¬Stands ok x l h x.head? →
      ok (h.getLast?.or l) = true → ok (splice x h' t).head? = true → Cut ok x x.getLast? h' t →
      Cut ok x l h (h' :: t)

section

variable [DecidableEq α]

/-- A letter at which the word does not stand. -/
theorem Cut.cons (hx : x ≠ []) {l : Option α} {c : α} {h : List α} {t : List (List α)}
    (hcut : Cut ok x (some c) h t)
    (hno : ¬standsAt ok x l (c :: splice x h t) = true) : Cut ok x l (c :: h) t := by
  have hpiece : ∀ rest : List α, ¬Stands ok x (some c) h rest.head? →
      splice x h t = h ++ rest → ¬Stands ok x l (c :: h) rest.head? := by
    intro rest hstands hsplice hcons
    rcases stands_cons.1 hcons with ⟨hl, b, heq, hr⟩ | hafter
    · refine hno (standsAt_iff.2 ⟨b ++ rest, ?_, hl, ?_⟩)
      · rw [hsplice, ← List.cons_append, heq, List.append_assoc]
      · rwa [List.head?_append]
    · exact hstands hafter
  cases hcut with
  | last hstands => exact .last (hpiece [] hstands rfl)
  | @masked _ _ h' t hstands hleft hright hrest =>
    have hhead : (x ++ splice x h' t).head? = x.head? := head?_append_of_ne hx _
    refine .masked ?_ ?_ hright hrest
    · rw [← hhead] at hstands ⊢
      exact hpiece _ hstands (splice_cons _ _ _ _)
    · have hlast := getLast?_append_or [c] h l
      rw [List.singleton_append] at hlast
      rwa [hlast]

/-- **The pieces of a text**, which are those of the masked one. -/
theorem exists_cut (hx : x ≠ []) (l : Option α) (s : List α) :
    ∃ h t, Cut ok x l h t ∧ s = splice x h t ∧ maskFrom ok x sub 0 l s = splice sub h t := by
  induction hn : s.length using Nat.strong_induction_on generalizing l s with
  | _ n ih =>
    rcases s with _ | ⟨c, s⟩
    · exact ⟨[], [], .last (not_stands_nil hx l none), rfl, rfl⟩
    · by_cases hstands : standsAt ok x l (c :: s) = true
      · obtain ⟨b, hb, hl, hr⟩ := standsAt_iff.1 hstands
        have hlt : b.length < n := by
          rw [← hn, hb, List.length_append]
          have := List.length_pos_of_ne_nil hx
          omega
        obtain ⟨h, t, hcut, rfl, hmask⟩ := ih b.length hlt x.getLast? b rfl
        refine ⟨[], h :: t, .masked (not_stands_nil hx l _) hl hr hcut, ?_, ?_⟩
        · rw [hb, splice_cons, List.nil_append]
        · rw [hb, maskFrom_match hx hl hr, hmask, splice_cons, List.nil_append]
      · have hlt : s.length < n := by
          rw [← hn, List.length_cons]
          exact Nat.lt_succ_self _
        obtain ⟨h, t, hcut, rfl, hmask⟩ := ih s.length hlt (some c) s rfl
        refine ⟨c :: h, t, hcut.cons hx hstands, rfl, ?_⟩
        rw [maskFrom_cons hstands, hmask]
        rfl

end

/-! ### Where a part of the masked text comes from -/

/-- A part of a text that holds nothing, and begins and ends with nothing, of what was put in. -/
structure Apart (m : α) (sub A q B : List α) : Prop where
  ne : q ≠ []
  whole : ¬sub <:+: q
  front : q.head? = some m → A = []
  back : q.getLast? = some m → B = []

/-- A part in which the mark does not occur. -/
theorem Apart.of_notMem {m : α} {A q B : List α} (hsub : ∀ c ∈ sub, c = m) (hne : sub ≠ [])
    (hq : q ≠ []) (hm : m ∉ q) : Apart m sub A q B where
  ne := hq
  whole := fun h => by
    obtain ⟨c, hc⟩ := List.exists_mem_of_ne_nil sub hne
    have := h.subset hc
    rw [hsub c hc] at this
    exact hm this
  front := fun h => absurd (List.mem_of_head? h) hm
  back := fun h => absurd (List.mem_of_getLast? h) hm

/-- What begins as a text of marks either lies in it, or holds it. -/
theorem marks_or_whole {m : α} {e f B : List α} (hsub : ∀ c ∈ sub, c = m)
    (h : sub ++ f = e ++ B) (he : e ≠ []) :
    e.getLast? = some m ∧ sub <+: e ++ B ∨ sub <+: e := by
  rcases List.append_eq_append_iff.1 h with ⟨d, hd, -⟩ | ⟨d, hd, -⟩
  · exact .inr ⟨d, hd.symm⟩
  · refine .inl ⟨?_, f, h⟩
    have hmem : e.getLast he ∈ sub := by
      rw [hd]
      exact List.mem_append_left _ (List.getLast_mem he)
    rw [List.getLast?_eq_getLast_of_ne_nil he, hsub _ hmem]

/-- A part that is apart does not end in what was put in. -/
theorem Apart.not_marks {m : α} {A q B c e f : List α} (h : Apart m sub A q B)
    (hsub : ∀ c ∈ sub, c = m) (hq : q = c ++ e) (he : e ≠ []) : sub ++ f ≠ e ++ B := by
  intro heq
  have hwhole : ¬sub <+: e := fun hpre =>
    h.whole (hq ▸ hpre.isInfix.trans (List.suffix_append c e).isInfix)
  rcases marks_or_whole hsub heq he with ⟨hlast, hpre⟩ | hpre
  · rw [h.back (by rw [hq, getLast?_append_of_ne he, hlast]), List.append_nil] at hpre
    exact hwhole hpre
  · exact hwhole hpre

/-- A part that is apart lies before what was put in, or after. -/
theorem Apart.outside {m : α} {u f A q B : List α} (h : Apart m sub A q B)
    (hsub : ∀ c ∈ sub, c = m) (heq : u ++ (sub ++ f) = A ++ (q ++ B)) :
    (∃ B₁, u = A ++ (q ++ B₁) ∧ B = B₁ ++ (sub ++ f)) ∨
      ∃ A₁, A = u ++ (sub ++ A₁) ∧ f = A₁ ++ (q ++ B) := by
  rcases List.append_eq_append_iff.1 heq with ⟨a, rfl, ha⟩ | ⟨c, rfl, hc⟩
  · rcases List.append_eq_append_iff.1 ha with ⟨d, rfl, rfl⟩ | ⟨e, he, hf⟩
    · exact .inr ⟨d, rfl, rfl⟩
    · rcases eq_or_ne e [] with rfl | hne
      · rw [List.append_nil] at he
        subst he
        exact .inr ⟨[], by rw [List.append_nil], hf.symm⟩
      -- It would begin with a mark, so that nothing is in front of it.
      · have hhead : q.head? = some m := by
          have hmem : e.head hne ∈ sub := by
            rw [he]
            exact List.mem_append_right _ (List.head_mem hne)
          rw [← head?_append_of_ne h.ne B, hf, head?_append_of_ne hne,
            List.head?_eq_some_head hne, hsub _ hmem]
        obtain ⟨rfl, rfl⟩ := List.append_eq_nil_iff.1 (h.front hhead)
        exact absurd ha (h.not_marks hsub (List.nil_append q).symm h.ne)
  · rcases List.append_eq_append_iff.1 hc with ⟨d, rfl, rfl⟩ | ⟨e, he, hf⟩
    · exact .inl ⟨d, rfl, rfl⟩
    · rcases eq_or_ne e [] with rfl | hne
      · rw [List.append_nil] at he
        subst he
        exact .inl ⟨[], by rw [List.append_nil], hf.symm⟩
      · exact absurd hf (h.not_marks hsub he hne)

/-- What stands to the left of a part in the text: the same letter as in the masked text, or the
word. -/
def LeftOf (ok : Guard α) (x A' A q : List α) : Prop :=
  A'.getLast? = A.getLast? ∨ x <:+ A' ∧ ok q.head? = true ∧ A ≠ []

def RightOf (ok : Guard α) (x B' B q : List α) : Prop :=
  B'.head? = B.head? ∨ x <+: B' ∧ ok q.getLast? = true ∧ B ≠ []

/-- **Where a part of the masked text comes from**: a part of the text in which the word does not
stand. -/
theorem Cut.exists_preimage (hx : x ≠ []) {m : α} (hsub : ∀ c ∈ sub, c = m) (hne : sub ≠ [])
    {l : Option α} {h : List α} {t : List (List α)} (hcut : Cut ok x l h t) {A q B : List α}
    (hq : Apart m sub A q B) (heq : splice sub h t = A ++ (q ++ B)) :
    ∃ A' B', splice x h t = A' ++ (q ++ B') ∧ ¬Stands ok x (A'.getLast?.or l) q B'.head? ∧
      LeftOf ok x A' A q ∧ RightOf ok x B' B q := by
  induction hcut generalizing A with
  | @last l h hstands =>
    rw [splice_nil] at heq ⊢
    refine ⟨A, B, heq, fun hpart => hstands ?_, .inl rfl, .inl rfl⟩
    rw [heq]
    refine Stands.context ?_
    rwa [Option.or_none]
  | @masked l h h' t hstands hleft hright hrest ih =>
    rw [splice_cons] at heq ⊢
    rcases hq.outside hsub heq with ⟨B₁, rfl, rfl⟩ | ⟨A₁, rfl, hf⟩
    · refine ⟨A, B₁ ++ (x ++ splice x h' t), by simp only [List.append_assoc], fun hpart =>
        hstands (Stands.context ?_), .inl rfl, ?_⟩
      · rwa [List.head?_append, head?_append_of_ne hx] at hpart
      · rcases eq_or_ne B₁ [] with rfl | hB
        · refine .inr ⟨List.prefix_append _ _, ?_, List.append_ne_nil_of_left_ne_nil hne _⟩
          rwa [List.append_nil, getLast?_append_of_ne hq.ne, getLast?_or_of_ne hq.ne] at hleft
        · exact .inl (by rw [head?_append_of_ne hB, head?_append_of_ne hB])
    · have hq₁ : Apart m sub A₁ q B := by
        refine ⟨hq.ne, hq.whole, fun hhead => ?_, hq.back⟩
        have hnil := hq.front hhead
        rw [List.append_eq_nil_iff, List.append_eq_nil_iff] at hnil
        exact absurd hnil.2.1 hne
      have hmarks : ∀ A₁, h ++ (sub ++ A₁) ≠ [] := fun A₁ =>
        List.append_ne_nil_of_right_ne_nil _ (List.append_ne_nil_of_left_ne_nil hne _)
      obtain ⟨A', B', hsplice, hstands', hleftOf, hrightOf⟩ := ih hq₁ hf
      refine ⟨h ++ (x ++ A'), B', by rw [hsplice]; simp only [List.append_assoc], ?_, ?_, hrightOf⟩
      · rwa [getLast?_append_or, getLast?_append_or, getLast?_or_of_ne hx]
      · rcases hleftOf with hsame | ⟨hsuffix, hok, -⟩
        · rcases eq_or_ne A₁ [] with rfl | hA
          -- The word that was masked is right in front of the part.
          · obtain rfl : A' = [] := List.getLast?_eq_none_iff.1 hsame
            rw [hsplice, List.nil_append, head?_append_of_ne hq.ne] at hright
            rw [List.append_nil]
            exact .inr ⟨List.suffix_append h x, hright, hmarks []⟩
          · have hA' : A' ≠ [] := by
              rintro rfl
              exact hA (List.getLast?_eq_none_iff.1 hsame.symm)
            refine .inl ?_
            rw [← List.append_assoc, ← List.append_assoc, getLast?_append_of_ne hA',
              getLast?_append_of_ne hA, hsame]
        · refine .inr ⟨hsuffix.trans ?_, hok, hmarks A₁⟩
          rw [← List.append_assoc]
          exact List.suffix_append _ _

section

variable [DecidableEq α] {m : α}

/-- **Where a part of the masked text comes from.** -/
theorem exists_preimage (hx : x ≠ []) (hsub : ∀ c ∈ sub, c = m) (hne : sub ≠ [])
    {s A q B : List α} (hq : Apart m sub A q B) (h : mask ok x sub s = A ++ (q ++ B)) :
    ∃ A' B', s = A' ++ (q ++ B') ∧ ¬Stands ok x A'.getLast? q B'.head? ∧ LeftOf ok x A' A q ∧
      RightOf ok x B' B q := by
  obtain ⟨h₀, t, hcut, rfl, hmask⟩ := @exists_cut _ ok x sub _ hx none s
  obtain ⟨A', B', hsplice, hstands, hleft, hright⟩ :=
    hcut.exists_preimage hx hsub hne hq (hmask.symm.trans h)
  rw [Option.or_none] at hstands
  exact ⟨A', B', hsplice, hstands, hleft, hright⟩

/-- A text that was not put in was there before. -/
theorem infix_of_mask (hx : x ≠ []) (hsub : ∀ c ∈ sub, c = m) (hne : sub ≠ []) {s A q B : List α}
    (hq : Apart m sub A q B) (h : mask ok x sub s = A ++ (q ++ B)) : q <:+: s := by
  obtain ⟨A', B', rfl, -⟩ := exists_preimage hx hsub hne hq h
  exact ⟨A', B', List.append_assoc _ _ _⟩

/-- **A word that may stand anywhere** is nowhere in the masked text. -/
theorem mask_hides (hx : x ≠ []) (hsub : ∀ c ∈ sub, c = m) (hne : sub ≠ []) {s A B : List α}
    (hq : Apart m sub A x B) : mask anywhere x sub s ≠ A ++ (x ++ B) := by
  intro h
  obtain ⟨A', B', -, hstands, -⟩ := exists_preimage hx hsub hne hq h
  exact hstands (stands_anywhere.2 List.infix_rfl)

/-! ### Shields -/

/-- A word that cannot follow itself at once is left behind itself. -/
theorem mask_shielded_left (hx : x ≠ []) (hnone : ok none = true) (hhead : ok x.head? = true)
    (hlast : ok x.getLast? = false) {q : List α} (hpre : x <+: q)
    (hq : ∀ a b, q = a ++ (x ++ b) → ok a.getLast? = true → ok b.head? = true → a = []) :
    mask ok x sub (x ++ q) = sub ++ q := by
  have hfront : ok q.head? = true := by
    obtain ⟨b, rfl⟩ := hpre
    rwa [head?_append_of_ne hx]
  rw [mask, maskFrom_match hx hnone hfront, maskFrom_of_none]
  rintro ⟨a, b, heq, hl, hr⟩
  rw [Option.or_none] at hr
  rcases eq_or_ne a [] with rfl | ha
  · rw [List.getLast?_nil, Option.none_or, hlast] at hl
    cases hl
  · rw [getLast?_or_of_ne ha] at hl
    exact ha (hq a b heq hl hr)

/-- A word that cannot stand right before itself is left in front of itself. -/
theorem mask_shielded_right (hx : x ≠ []) (hnone : ok none = true) (hhead : ok x.head? = false)
    (hlast : ok x.getLast? = true) {q : List α} (hsuf : x <:+ q)
    (hq : ∀ a b, q = a ++ (x ++ b) → ok a.getLast? = true → ok b.head? = true → b = []) :
    mask ok x sub (q ++ x) = q ++ sub := by
  have hback : ok q.getLast? = true := by
    obtain ⟨a, rfl⟩ := hsuf
    rwa [getLast?_append_of_ne hx]
  have hend : maskFrom ok x sub 0 (q.getLast?.or none) x = sub := by
    have hmatch := @maskFrom_match _ ok x sub _ hx (q.getLast?.or none) []
      (by rwa [Option.or_none]) hnone
    rwa [List.append_nil, maskFrom, List.append_nil] at hmatch
  rw [mask, maskFrom_append, hend]
  rintro a₁ a₂ rfl hne hstands
  rw [Option.or_none] at hstands
  obtain ⟨b, heq, hl, hr⟩ := standsAt_iff.1 hstands
  have hself : b.head? ≠ x.head? := fun h => by
    rw [h, hhead] at hr
    cases hr
  rcases List.append_eq_append_iff.1 heq with ⟨c, hc, hxb⟩ | ⟨c, rfl, hb⟩
  -- The match goes on behind the end of the text: the word is the same from there.
  · have hlen : b.length = a₂.length := by
      have := congrArg List.length heq
      rw [List.length_append, List.length_append] at this
      omega
    obtain ⟨d, hd⟩ := hsuf
    have hb : b = a₂ := by
      have hsuffix : b <:+ a₁ ++ a₂ := List.IsSuffix.trans ⟨c, hxb.symm⟩ ⟨d, hd⟩
      exact (List.suffix_of_suffix_length_le hsuffix (List.suffix_append a₁ a₂) hlen.le).eq_of_length
        hlen
    refine hself ?_
    rw [hb, hc, head?_append_of_ne hne]
  · rcases eq_or_ne c [] with rfl | hc
    · rw [List.nil_append] at hb
      exact hself (by rw [hb])
    · rw [hb, head?_append_of_ne hc] at hr
      exact hc (hq a₁ c rfl hl hr)

end

end Tokenweir.Masking
