import Tokenweir.Orchestrator.Folding
import Mathlib.Data.List.DropRight

/-!
# The grammar of phases

What a text in lower case names, as a grammar, and the parser of the taxonomy, which tries one
pattern after the other.

* `Digits`, `Names`; `TooLongNumber`, `TooLongOrdinal`;
* `Names.unique`, a text names one phase at most;
* `parseLeading_eq_some`, `parseTrailing_of`, what the two patterns find;
* `parsePhase_cases`.
-/

namespace Tokenweir.Orchestrator

open Regex

variable {u : Unicode}

/-! ### The grammar -/

/-- Decimal digits, one at least. -/
def Digits (u : Unicode) (ds : Text) : Prop := ds ≠ [] ∧ ds.all u.isDecimal = true

/-- What a text names: a kind, alone, or after an ordinal, or before a number. -/
inductive Names (u : Unicode) : Text → PhaseKind → Option ℕ → Prop
  | alone {a : Text} {k : PhaseKind} (ha : kindOf a = some k) : Names u a k none
  | ordinal {ds a : Text} {k : PhaseKind} (hds : Digits u ds) (ha : kindOf a = some k) :
      Names u (ds ++ (ordinalSuffix (u.number ds) ++ blank :: a)) k (some (u.number ds))
  | numbered {a ds : Text} {k : PhaseKind} {sep : CodePoint} (ha : kindOf a = some k)
      (hsep : sep = hyphen ∨ sep = blank) (hds : Digits u ds) :
      Names u (a ++ sep :: ds) k (some (u.number ds))

/-- An occurrence is positive. -/
def Positive (occurrence : Option ℕ) : Prop := ∀ n ∈ occurrence, 1 ≤ n

/-- A kind before a number of too many digits. -/
def TooLongNumber (u : Unicode) (t : Text) : Prop :=
  ∃ a k sep ds, kindOf a = some k ∧ (sep = hyphen ∨ sep = blank) ∧ Digits u ds ∧
    maxDigits < ds.length ∧ t = a ++ sep :: ds

/-- A kind after an ordinal of too many digits. -/
def TooLongOrdinal (u : Unicode) (t : Text) : Prop :=
  ∃ ds a k, Digits u ds ∧ kindOf a = some k ∧ maxDigits < ds.length ∧
    t = ds ++ (ordinalSuffix (u.number ds) ++ blank :: a)

/-! ### The words of the kinds -/

theorem lookup_mem {α β : Type} [BEq α] [LawfulBEq α] {l : List (α × β)} {a : α} {b : β}
    (h : l.lookup a = some b) : (a, b) ∈ l := by
  induction l with
  | nil => cases h
  | cons p l ih =>
    rw [List.lookup_cons] at h
    split at h
    · rename_i heq
      obtain rfl := Option.some.inj h
      rw [beq_iff_eq.1 heq]
      exact List.mem_cons_self
    · exact List.mem_cons_of_mem p (ih h)

/-- The words are of small letters, blanks and hyphens, and begin and end with a letter. -/
structure Word (a : Text) : Prop where
  ne : a ≠ []
  letters : ∀ c ∈ a, (97 ≤ c.val ∧ c.val ≤ 122) ∨ c = hyphen ∨ c = blank
  head : ∀ c ∈ a.head?, 97 ≤ c.val
  last : ∀ c ∈ a.getLast?, 97 ≤ c.val

/-- A word, checked. -/
def isWord (a : Text) : Bool :=
  (a.all fun c => (97 ≤ c.val && c.val ≤ 122) || c == hyphen || c == blank) &&
    (a.head?.any fun c => 97 ≤ c.val) && a.getLast?.any fun c => 97 ≤ c.val

theorem word_of_isWord {a : Text} (h : isWord a = true) : Word a := by
  simp only [isWord, Bool.and_eq_true, List.all_eq_true, Bool.or_eq_true, decide_eq_true_eq,
    beq_iff_eq] at h
  obtain ⟨⟨hletters, hhead⟩, hlast⟩ := h
  refine ⟨?_, fun c hc => or_assoc.1 (hletters c hc), fun c hc => ?_, fun c hc => ?_⟩
  · rintro rfl
    cases hhead
  · rw [Option.mem_def.1 hc] at hhead
    exact of_decide_eq_true hhead
  · rw [Option.mem_def.1 hc] at hlast
    exact of_decide_eq_true hlast

theorem word_of_kindOf {a : Text} {k : PhaseKind} (h : kindOf a = some k) : Word a := by
  have hwords : kindByWord.all (fun p => isWord p.1) = true := by decide +kernel
  exact word_of_isWord (List.all_eq_true.1 hwords _ (lookup_mem h))

theorem isDecimal_eq_false {c : CodePoint} (hc : c.val < 0x660)
    (h : ¬(48 ≤ c.val ∧ c.val ≤ 57)) : u.isDecimal c = false := by
  by_cases hascii : c.val < 128
  · rw [Unicode.isDecimal_ascii hascii]
    simpa [Text.isDigit] using h
  · rw [Unicode.isDecimal, u.decimal_other c (by omega) hc]
    rfl

theorem Word.not_decimal {a : Text} (h : Word a) : ∀ c ∈ a, u.isDecimal c = false := by
  intro c hc
  rcases h.letters c hc with hletter | rfl | rfl
  · exact isDecimal_eq_false (by omega) (by omega)
  · exact isDecimal_eq_false (by decide) (by decide)
  · exact isDecimal_eq_false (by decide) (by decide)

theorem not_decimal_sep {sep : CodePoint} (h : sep = hyphen ∨ sep = blank) :
    u.isDecimal sep = false := by
  rcases h with rfl | rfl
  · exact isDecimal_eq_false (by decide) (by decide)
  · exact isDecimal_eq_false (by decide) (by decide)

theorem ordinalSuffix_mem (n : ℕ) :
    ordinalSuffix n ∈ [Text.of "st", Text.of "nd", Text.of "rd", Text.of "th"] := by
  unfold ordinalSuffix
  split_ifs <;> decide

/-- A suffix is of two small letters. -/
theorem exists_suffix (n : ℕ) : ∃ c d, ordinalSuffix n = [c, d] ∧ (97 ≤ c.val ∧ c.val ≤ 122) ∧
    97 ≤ d.val ∧ d.val ≤ 122 := by
  have hmem := ordinalSuffix_mem n
  simp only [List.mem_cons, List.not_mem_nil, or_false] at hmem
  rcases hmem with h | h | h | h
  all_goals exact ⟨_, _, h, by decide, by decide⟩

/-! ### A text names one phase at most -/

/-- The digits at the front. -/
theorem takeWhile_digits {ds t : Text} (hds : ds.all u.isDecimal = true)
    (ht : ∀ c ∈ t.head?, u.isDecimal c = false) :
    (ds ++ t).takeWhile u.isDecimal = ds ∧ (ds ++ t).dropWhile u.isDecimal = t := by
  rw [List.all_eq_true] at hds
  rw [List.takeWhile_append_of_pos hds, List.dropWhile_append_of_pos hds]
  cases t with
  | nil => exact ⟨List.append_nil ds, rfl⟩
  | cons c t =>
    have hc := ht c rfl
    rw [List.takeWhile_cons_of_neg (by simp [hc]), List.dropWhile_cons_of_neg (by simp [hc])]
    exact ⟨List.append_nil ds, rfl⟩

/-- The digits at the end. -/
theorem rtakeWhile_digits {ds t : Text} {sep : CodePoint} (hds : ds.all u.isDecimal = true)
    (hsep : u.isDecimal sep = false) :
    (t ++ sep :: ds).rtakeWhile u.isDecimal = ds := by
  have hreverse : ds.reverse.all u.isDecimal = true := by rwa [List.all_reverse]
  have hfront := (takeWhile_digits (t := sep :: t.reverse) hreverse
    (by rintro _ ⟨⟩; exact hsep)).1
  rw [List.rtakeWhile, List.reverse_append, List.reverse_cons, List.append_assoc,
    List.singleton_append, hfront, List.reverse_reverse]

theorem Names.digits_front {ds a : Text} (hds : Digits u ds) :
    (ds ++ (ordinalSuffix (u.number ds) ++ blank :: a)).takeWhile u.isDecimal = ds := by
  obtain ⟨c, d, hsuffix, hc, -⟩ := exists_suffix (u.number ds)
  refine (takeWhile_digits hds.2 ?_).1
  rw [hsuffix]
  rintro _ ⟨⟩
  exact isDecimal_eq_false (by omega) (by omega)

/-- Digits at the front or at the end tell the forms apart. -/
theorem Word.takeWhile_eq_nil {a : Text} (h : Word a) (t : Text) :
    (a ++ t).takeWhile u.isDecimal = [] := by
  obtain ⟨c, a, rfl⟩ := List.exists_cons_of_ne_nil h.ne
  exact List.takeWhile_cons_of_neg (by simp [h.not_decimal c List.mem_cons_self])

theorem Word.rtakeWhile_eq_nil {a : Text} (h : Word a) (t : Text) :
    (t ++ a).rtakeWhile u.isDecimal = [] := by
  rw [List.rtakeWhile_eq_nil_iff]
  intro hne
  rw [List.getLast_append_of_ne_nil _ h.ne]
  simp [h.not_decimal _ (List.getLast_mem h.ne)]

/-- The digits that a text begins and ends with, by what it names. -/
theorem Names.ends {t : Text} {k : PhaseKind} {occurrence : Option ℕ} (h : Names u t k occurrence) :
    (occurrence = none ∧ kindOf t = some k ∧ t.takeWhile u.isDecimal = [] ∧
        t.rtakeWhile u.isDecimal = []) ∨
      (∃ ds a, Digits u ds ∧ kindOf a = some k ∧ occurrence = some (u.number ds) ∧
        t = ds ++ (ordinalSuffix (u.number ds) ++ blank :: a) ∧ t.takeWhile u.isDecimal = ds ∧
        t.rtakeWhile u.isDecimal = []) ∨
      ∃ a sep ds, kindOf a = some k ∧ (sep = hyphen ∨ sep = blank) ∧ Digits u ds ∧
        occurrence = some (u.number ds) ∧ t = a ++ sep :: ds ∧ t.takeWhile u.isDecimal = [] ∧
        t.rtakeWhile u.isDecimal = ds := by
  cases h with
  | alone ha =>
    have hword := word_of_kindOf ha
    have hfront := hword.takeWhile_eq_nil (u := u) []
    rw [List.append_nil] at hfront
    exact .inl ⟨rfl, ha, hfront, hword.rtakeWhile_eq_nil []⟩
  | @ordinal ds a k hds ha =>
    refine .inr (.inl ⟨ds, a, hds, ha, rfl, rfl, Names.digits_front hds, ?_⟩)
    have hend := (word_of_kindOf ha).rtakeWhile_eq_nil (u := u)
      (ds ++ (ordinalSuffix (u.number ds) ++ [blank]))
    rwa [List.append_assoc, List.append_assoc, List.singleton_append] at hend
  | @numbered a ds k sep ha hsep hds =>
    exact .inr (.inr ⟨a, sep, ds, ha, hsep, hds, rfl, rfl, (word_of_kindOf ha).takeWhile_eq_nil _,
      rtakeWhile_digits hds.2 (not_decimal_sep hsep)⟩)

/-- **A text names one phase** at most. -/
theorem Names.unique {t : Text} {k k' : PhaseKind} {occurrence occurrence' : Option ℕ}
    (h : Names u t k occurrence) (h' : Names u t k' occurrence') :
    k = k' ∧ occurrence = occurrence' := by
  rcases h.ends with ⟨rfl, hk, hfront, hend⟩ | ⟨ds, a, hds, hk, rfl, ht, hfront, hend⟩ |
    ⟨a, sep, ds, hk, hsep, hds, rfl, ht, hfront, hend⟩ <;>
  rcases h'.ends with ⟨rfl, hk', hfront', hend'⟩ | ⟨ds', a', hds', hk', rfl, ht', hfront', hend'⟩ |
    ⟨a', sep', ds', hk', -, hds', rfl, ht', hfront', hend'⟩
  · exact ⟨Option.some.inj (hk.symm.trans hk'), rfl⟩
  · exact absurd (hfront'.symm.trans hfront) hds'.1
  · exact absurd (hend'.symm.trans hend) hds'.1
  · exact absurd (hfront.symm.trans hfront') hds.1
  · obtain rfl := hfront.symm.trans hfront'
    have hrest := List.append_cancel_left (ht.symm.trans ht')
    have ha := List.append_cancel_left hrest
    obtain ⟨-, rfl⟩ := List.cons.inj ha
    exact ⟨Option.some.inj (hk.symm.trans hk'), rfl⟩
  · exact absurd (hend'.symm.trans hend) hds'.1
  · exact absurd (hend.symm.trans hend') hds.1
  · exact absurd (hend.symm.trans hend') hds.1
  · obtain rfl := hend.symm.trans hend'
    obtain ⟨rfl, -⟩ := List.append_inj' (ht.symm.trans ht') rfl
    exact ⟨Option.some.inj (hk.symm.trans hk'), rfl⟩

/-! ### The two patterns -/

/-- One of the four suffixes, in either case. -/
def SuffixLike (s : Text) : Prop :=
  ∃ w ∈ [Text.of "st", Text.of "nd", Text.of "rd", Text.of "th"],
    List.Forall₂ (fun c d => sameLetter c d = true) w s

theorem reads_suffix :
    Reads (anyOf (word "st") [word "nd", word "rd", word "th"]) SuffixLike := by
  intro p q
  rw [anyOf, List.foldl_cons, List.foldl_cons, List.foldl_cons, List.foldl_nil,
    (((reads_word "st").alt (reads_word "nd")).alt (reads_word "rd")).alt (reads_word "th")]
  refine exists_congr fun s => and_congr_left fun _ => ?_
  simp only [SuffixLike, List.mem_cons, List.not_mem_nil, or_false, exists_eq_or_imp,
    exists_eq_left, or_assoc]

/-- A letter of a suffix is no digit, in either case. -/
theorem sameLetter_not_decimal {c d : CodePoint} (hc : 97 ≤ c.val ∧ c.val ≤ 122) (hk : c.val ≠ 107)
    (h : sameLetter c d = true) : u.isDecimal d = false := by
  simp only [sameLetter, List.any_cons, List.any_nil, Bool.or_false, Bool.or_eq_true,
    Bool.and_eq_true, beq_iff_eq] at h
  apply isDecimal_eq_false
  · split_ifs at h <;> omega
  · split_ifs at h <;> omega

/-- A suffix in either case is of two characters, the first of which is no digit. -/
theorem suffixLike_cons {s : Text} (h : SuffixLike s) :
    ∃ c d, s = [c, d] ∧ u.isDecimal c = false := by
  have hcons : ∀ c d : CodePoint, (97 ≤ c.val ∧ c.val ≤ 122) → c.val ≠ 107 →
      List.Forall₂ (fun c d => sameLetter c d = true) [c, d] s →
        ∃ c d, s = [c, d] ∧ u.isDecimal c = false := by
    intro c d hc hk hs
    rcases hs with _ | ⟨hc', _ | ⟨-, _ | _⟩⟩
    exact ⟨_, _, rfl, sameLetter_not_decimal hc hk hc'⟩
  obtain ⟨w, hw, hs⟩ := h
  simp only [List.mem_cons, List.not_mem_nil, or_false] at hw
  rcases hw with rfl | rfl | rfl | rfl
  all_goals exact hcons _ _ (by decide) (by decide) hs

theorem suffixLike_ordinalSuffix (n : ℕ) : SuffixLike (ordinalSuffix n) := by
  refine ⟨_, ordinalSuffix_mem n, List.forall₂_same.2 fun c _ => ?_⟩
  simp [sameLetter]

theorem mem_leading {t : Text} {q : Place} :
    q ∈ results (leadingOrdinalRe u) ⟨t, []⟩ ↔ ∃ ds s sp rest, Digits u ds ∧ SuffixLike s ∧
      (sp ≠ [] ∧ sp.all Text.isSpace = true) ∧ rest.all notNewline = true ∧
      t = ds ++ (s ++ (sp ++ (rest ++ q.rest))) ∧ (q.rest = [] ∨ q.rest = Text.of "\n") ∧
      q.groups = [(3, rest), (2, s), (1, ds)] := by
  simp only [leadingOrdinalRe, Regex.all, List.foldr_cons, List.foldr_nil, mem_results_seq]
  constructor
  · rintro ⟨o₁, h₁, o₂, h₂, o₃, h₃, o₄, h₄, o₅, h₅, hq⟩
    obtain ⟨ds, hds, hrest₁, hgroups₁⟩ := (mem_results_group (reads_plus _)).1 h₁
    obtain ⟨s, hs, hrest₂, hgroups₂⟩ := (mem_results_group reads_suffix).1 h₂
    obtain ⟨sp, hsp, hrest₃, hgroups₃⟩ := (reads_plus _ _ _).1 h₃
    obtain ⟨rest, hrest, hrest₄, hgroups₄⟩ := (mem_results_group (reads_many _ _)).1 h₄
    obtain ⟨rfl, hend⟩ := mem_results_finish.1 h₅
    obtain rfl := List.mem_singleton.1 hq
    refine ⟨ds, s, sp, rest, hds, hs, hsp, hrest, ?_, hend, ?_⟩
    · rw [← hrest₄, ← hrest₃, ← hrest₂]
      exact hrest₁
    · rw [hgroups₄, hgroups₃, hgroups₂, hgroups₁]
  · rintro ⟨ds, s, sp, rest, hds, hs, hsp, hrest, ht, hend, hgroups⟩
    refine ⟨⟨s ++ (sp ++ (rest ++ q.rest)), [(1, ds)]⟩, ?_, ⟨sp ++ (rest ++ q.rest), [(2, s), (1, ds)]⟩,
      ?_, ⟨rest ++ q.rest, [(2, s), (1, ds)]⟩, ?_, q, ?_, q, ?_, List.mem_singleton_self q⟩
    · exact (mem_results_group (reads_plus _)).2 ⟨ds, hds, ht, rfl⟩
    · exact (mem_results_group reads_suffix).2 ⟨s, hs, rfl, rfl⟩
    · exact (reads_plus _ _ _).2 ⟨sp, hsp, rfl, rfl⟩
    · exact (mem_results_group (reads_many _ _)).2 ⟨rest, hrest, rfl, hgroups⟩
    · exact mem_results_finish.2 ⟨rfl, hend⟩

theorem mem_trailing {t : Text} {q : Place} :
    q ∈ results (trailingNumberRe u) ⟨t, []⟩ ↔ ∃ a sep ds, a.all notNewline = true ∧
      (sep = [hyphen] ∨ sep ≠ [] ∧ sep.all (· == blank) = true) ∧ Digits u ds ∧
      t = a ++ (sep ++ (ds ++ q.rest)) ∧ (q.rest = [] ∨ q.rest = Text.of "\n") ∧
      q.groups = [(2, ds), (1, a)] := by
  have hsep : Reads ((char '-').alt (plus (char ' '))) fun sep =>
      sep = [hyphen] ∨ sep ≠ [] ∧ sep.all (· == blank) = true :=
    (reads_char '-').alt (reads_plus _)
  simp only [trailingNumberRe, Regex.all, List.foldr_cons, List.foldr_nil, mem_results_seq]
  constructor
  · rintro ⟨o₁, h₁, o₂, h₂, o₃, h₃, o₄, h₄, hq⟩
    obtain ⟨a, ha, hrest₁, hgroups₁⟩ := (mem_results_group (reads_many _ _)).1 h₁
    obtain ⟨sep, hsep, hrest₂, hgroups₂⟩ := (hsep _ _).1 h₂
    obtain ⟨ds, hds, hrest₃, hgroups₃⟩ := (mem_results_group (reads_plus _)).1 h₃
    obtain ⟨rfl, hend⟩ := mem_results_finish.1 h₄
    obtain rfl := List.mem_singleton.1 hq
    refine ⟨a, sep, ds, ha, hsep, hds, ?_, hend, ?_⟩
    · rw [← hrest₃, ← hrest₂]
      exact hrest₁
    · rw [hgroups₃, hgroups₂, hgroups₁]
  · rintro ⟨a, sep, ds, ha, hsep', hds, ht, hend, hgroups⟩
    refine ⟨⟨sep ++ (ds ++ q.rest), [(1, a)]⟩, ?_, ⟨ds ++ q.rest, [(1, a)]⟩, ?_, q, ?_, q, ?_,
      List.mem_singleton_self q⟩
    · exact (mem_results_group (reads_many _ _)).2 ⟨a, ha, ht, rfl⟩
    · exact (hsep _ _).2 ⟨sep, hsep', rfl, rfl⟩
    · exact (mem_results_group (reads_plus _)).2 ⟨ds, hds, rfl, hgroups⟩
    · exact mem_results_finish.2 ⟨rfl, hend⟩

/-! ### What they find in a tidy text -/

section Tidy

variable {t : Text}

/-- White space in a tidy text is one blank, and what follows it is stripped. -/
theorem Tidy.split {x sp y : Text} (h : Tidy (x ++ (sp ++ y))) (hne : sp ≠ [])
    (hsp : sp.all Text.isSpace = true) : sp = [blank] ∧ y.strip = y := by
  obtain ⟨c, sp, rfl⟩ := List.exists_cons_of_ne_nil hne
  rw [List.all_cons, Bool.and_eq_true] at hsp
  have hc := h.blank c (List.mem_append_right _ List.mem_cons_self) hsp.1
  have hchain := List.isChain_cons.1 h.chain.right_of_append
  cases sp with
  | cons d sp =>
    rw [List.all_cons, Bool.and_eq_true] at hsp
    exact absurd ⟨hsp.1, hsp.2.1⟩ (hchain.1 d rfl)
  | nil =>
    refine ⟨by rw [hc], Text.strip_of_ends (fun d hd => ?_) fun d hd => ?_⟩
    · simpa using fun hd' => hchain.1 d hd ⟨hsp.1, hd'⟩
    · refine h.last d ?_
      rw [List.getLast?_append, List.getLast?_append, hd]
      rfl

/-- No line ends in a tidy text. -/
theorem Tidy.no_newline {x y : Text} (h : Tidy (x ++ y)) (hy : y = [] ∨ y = Text.of "\n") : y = [] := by
  rcases hy with rfl | rfl
  · rfl
  · have hblank := h.blank (CodePoint.of '\n') (List.mem_append_right _ (List.mem_singleton_self _))
      (by decide)
    exact absurd hblank (by decide)

theorem Tidy.all_notNewline {s : Text} (h : Tidy t) (hs : s ⊆ t) : s.all notNewline = true := by
  rw [List.all_eq_true]
  intro c hc
  refine decide_eq_true ?_
  rintro rfl
  exact absurd (h.blank _ (hs hc) (by decide)) (by decide)

theorem leading_match (h : Tidy t) {m : Place} (hm : matchAt (leadingOrdinalRe u) t = some m) :
    ∃ ds s rest, Digits u ds ∧ SuffixLike s ∧ t = ds ++ (s ++ blank :: rest) ∧ Text.strip rest = rest ∧
      m.group 1 = some ds ∧ m.group 2 = some s ∧ m.group 3 = some rest := by
  obtain ⟨ds, s, sp, rest, hds, hs, hsp, -, ht, hend, hgroups⟩ := mem_leading.1 (mem_of_matchAt hm)
  have hnil : m.rest = [] := by
    rw [ht, ← List.append_assoc, ← List.append_assoc, ← List.append_assoc] at h
    exact h.no_newline hend
  rw [hnil, List.append_nil] at ht
  have hsplit : sp = [blank] ∧ Text.strip rest = rest := by
    rw [ht, ← List.append_assoc] at h
    exact h.split hsp.1 hsp.2
  refine ⟨ds, s, rest, hds, hs, ?_, hsplit.2, ?_, ?_, ?_⟩
  · rw [ht, hsplit.1]
    rfl
  · rw [Place.group, hgroups]
    rfl
  · rw [Place.group, hgroups]
    rfl
  · rw [Place.group, hgroups]
    rfl

theorem trailing_match (h : Tidy t) {m : Place} (hm : matchAt (trailingNumberRe u) t = some m) :
    ∃ a sep ds, (sep = hyphen ∨ sep = blank) ∧ Digits u ds ∧ t = a ++ sep :: ds ∧
      m.group 1 = some a ∧ m.group 2 = some ds := by
  obtain ⟨a, sep, ds, -, hsep, hds, ht, hend, hgroups⟩ := mem_trailing.1 (mem_of_matchAt hm)
  have hnil : m.rest = [] := by
    rw [ht, ← List.append_assoc, ← List.append_assoc] at h
    exact h.no_newline hend
  rw [hnil, List.append_nil] at ht
  obtain ⟨c, hc, rfl⟩ : ∃ c, (c = hyphen ∨ c = blank) ∧ sep = [c] := by
    rcases hsep with rfl | ⟨hne, hall⟩
    · exact ⟨hyphen, .inl rfl, rfl⟩
    · rw [ht] at h
      have hspace : sep.all Text.isSpace = true := by
        rw [List.all_eq_true] at hall ⊢
        intro c hc
        rw [beq_iff_eq.1 (hall c hc)]
        exact isSpace_blank
      exact ⟨blank, .inr rfl, (h.split hne hspace).1⟩
  refine ⟨a, c, ds, hc, hds, ht, ?_, ?_⟩
  · rw [Place.group, hgroups]
    rfl
  · rw [Place.group, hgroups]
    rfl

theorem englishOrdinal_eq_some {ds s : Text} {n : ℕ} :
    englishOrdinal u ds s = some n ↔
      ds.length ≤ maxDigits ∧ u.lower s = ordinalSuffix n ∧ n = u.number ds := by
  unfold englishOrdinal int
  split
  · rename_i h
    split at h
    · cases h
    · rename_i hlong
      exact iff_of_false nofun fun hle => hlong hle.1
  · rename_i number h
    split at h
    · rename_i hle
      obtain rfl := Except.ok.inj h
      split
      · rename_i hs
        rw [Option.some_inj]
        constructor
        · rintro rfl
          exact ⟨hle, hs, rfl⟩
        · rintro ⟨-, -, rfl⟩
          rfl
      · rename_i hs
        refine iff_of_false nofun ?_
        rintro ⟨-, hs', rfl⟩
        exact hs hs'
    · cases h

/-- **The number before the kind**, as the parser finds it. -/
theorem parseLeading_eq_some (h : Tidy t) (hlower : u.Lowered t) {parsed : ParsedPhase} :
    parseLeading u t = some parsed ↔ ∃ ds a k, Digits u ds ∧ kindOf a = some k ∧
      ds.length ≤ maxDigits ∧ t = ds ++ (ordinalSuffix (u.number ds) ++ blank :: a) ∧
      parsed = .numbered k (u.number ds) := by
  simp only [parseLeading, Option.bind_eq_bind, Option.bind_eq_some_iff, englishOrdinal_eq_some,
    Option.pure_def, Option.some_inj]
  constructor
  · rintro ⟨m, hm, n, ⟨hle, hs, rfl⟩, k, hk, rfl⟩
    obtain ⟨ds, s, rest, hds, -, ht, hstrip, h₁, h₂, h₃⟩ := leading_match h hm
    rw [h₁, Option.getD_some] at hle hs
    rw [h₂, Option.getD_some, Unicode.lower_of_lowered] at hs
    · rw [h₃, Option.getD_some, hstrip] at hk
      rw [h₁, Option.getD_some]
      refine ⟨ds, rest, k, hds, hk, hle, ?_, rfl⟩
      rw [ht, hs]
    · intro c hc
      refine hlower c ?_
      rw [ht]
      exact List.mem_append_right _ (List.mem_append_left _ hc)
  · rintro ⟨ds, a, k, hds, hk, hle, ht, rfl⟩
    have hplace : (⟨[], [(3, a), (2, ordinalSuffix (u.number ds)), (1, ds)]⟩ : Place) ∈
        results (leadingOrdinalRe u) ⟨t, []⟩ := by
      refine mem_leading.2 ⟨ds, ordinalSuffix (u.number ds), [blank], a, hds,
        suffixLike_ordinalSuffix _, ⟨List.cons_ne_nil _ _, by decide⟩, ?_, ?_, .inl rfl, rfl⟩
      · refine h.all_notNewline fun c hc => ?_
        rw [ht]
        exact List.mem_append_right _ (List.mem_append_right _ (List.mem_cons_of_mem _ hc))
      · rw [ht, List.append_nil]
        rfl
    obtain ⟨m, hm⟩ := exists_matchAt hplace
    obtain ⟨ds', s', rest, hds', hs', ht', hstrip, h₁, h₂, h₃⟩ := leading_match h hm
    obtain ⟨c, d, rfl, hc⟩ := suffixLike_cons (u := u) hs'
    -- the digits, the suffix and the rest are those that were given
    have hfront : t.takeWhile u.isDecimal = ds' := by
      rw [ht']
      exact (takeWhile_digits hds'.2 (by rintro _ ⟨⟩; exact hc)).1
    obtain rfl : ds' = ds := by
      rw [← hfront, ht]
      exact Names.digits_front hds
    obtain ⟨c', d', hsuffix, -, -⟩ := exists_suffix (u.number ds')
    obtain ⟨hs, hrest⟩ := List.append_inj (List.append_cancel_left (ht'.symm.trans ht))
      (by rw [hsuffix]; rfl)
    obtain ⟨-, rfl⟩ := List.cons.inj hrest
    refine ⟨m, hm, u.number ds', ⟨?_, ?_, ?_⟩, k, ?_, rfl⟩
    · rw [h₁]
      exact hle
    · rw [h₂, Option.getD_some, Unicode.lower_of_lowered, hs]
      intro e he
      refine hlower e ?_
      rw [ht']
      exact List.mem_append_right _ (List.mem_append_left _ he)
    · rw [h₁]
      rfl
    · rw [h₃, Option.getD_some, hstrip]
      exact hk

/-- **The number after the kind**, as the parser finds it. -/
theorem parseTrailing_of (h : Tidy t) {a ds : Text} {k : PhaseKind} {sep : CodePoint}
    (hk : kindOf a = some k) (hsep : sep = hyphen ∨ sep = blank) (hds : Digits u ds)
    (ht : t = a ++ sep :: ds) :
    parseTrailing u t = (int u ds).map (ParsedPhase.numbered k) := by
  have hplace : (⟨[], [(2, ds), (1, a)]⟩ : Place) ∈ results (trailingNumberRe u) ⟨t, []⟩ := by
    refine mem_trailing.2 ⟨a, [sep], ds, ?_, ?_, hds, ?_, .inl rfl, rfl⟩
    · refine h.all_notNewline fun c hc => ?_
      rw [ht]
      exact List.mem_append_left _ hc
    · rcases hsep with rfl | rfl
      · exact .inl rfl
      · exact .inr ⟨List.cons_ne_nil _ _, by decide⟩
    · rw [ht, List.append_nil]
      rfl
  obtain ⟨m, hm⟩ := exists_matchAt hplace
  obtain ⟨a', sep', ds', hsep', hds', ht', h₁, h₂⟩ := trailing_match h hm
  obtain rfl : ds' = ds := by
    rw [← rtakeWhile_digits (t := a') hds'.2 (not_decimal_sep hsep'), ← ht', ht]
    exact rtakeWhile_digits hds.2 (not_decimal_sep hsep)
  obtain ⟨rfl, -⟩ := List.append_inj' (ht'.symm.trans ht) rfl
  rw [parseTrailing, hm]
  dsimp only
  rw [h₁, h₂, Option.getD_some, Option.getD_some, hk]

theorem parseTrailing_none (h : Tidy t)
    (hnone : ∀ a k sep ds, kindOf a = some k → (sep = hyphen ∨ sep = blank) → Digits u ds →
      t ≠ a ++ sep :: ds) : parseTrailing u t = .ok {} := by
  unfold parseTrailing
  split
  · rfl
  · rename_i m hm
    obtain ⟨a, sep, ds, hsep, hds, ht, h₁, h₂⟩ := trailing_match h hm
    split
    · rfl
    · rename_i k hk
      rw [h₁, Option.getD_some] at hk
      exact absurd ht (hnone a k sep ds hk hsep hds)

/-- No digits at the end. -/
theorem ne_of_rtakeWhile (hend : t.rtakeWhile u.isDecimal = []) (a : Text) {sep : CodePoint}
    {ds : Text} (hsep : sep = hyphen ∨ sep = blank) (hds : Digits u ds) : t ≠ a ++ sep :: ds := by
  rintro rfl
  rw [rtakeWhile_digits hds.2 (not_decimal_sep hsep)] at hend
  exact hds.1 hend

/-! ### The parser -/

theorem kindOf_eq_none {k : PhaseKind} {n : ℕ} (h : Names u t k (some n)) : kindOf t = none := by
  cases hk : kindOf t with
  | none => rfl
  | some k' => cases ((Names.alone hk).unique h).2

theorem TooLongNumber.digits (h : TooLongNumber u t) :
    maxDigits < (t.rtakeWhile u.isDecimal).length := by
  obtain ⟨a, k, sep, ds, -, hsep, hds, hlong, rfl⟩ := h
  rwa [rtakeWhile_digits hds.2 (not_decimal_sep hsep)]

theorem TooLongOrdinal.digits (h : TooLongOrdinal u t) :
    maxDigits < (t.takeWhile u.isDecimal).length := by
  obtain ⟨ds, a, k, hds, -, hlong, rfl⟩ := h
  rwa [Names.digits_front hds]

theorem TooLongNumber.names (h : TooLongNumber u t) : ∃ k n, Names u t k (some n) := by
  obtain ⟨a, k, sep, ds, hk, hsep, hds, -, rfl⟩ := h
  exact ⟨k, _, .numbered hk hsep hds⟩

theorem TooLongOrdinal.names (h : TooLongOrdinal u t) : ∃ k n, Names u t k (some n) := by
  obtain ⟨ds, a, k, hds, hk, -, rfl⟩ := h
  exact ⟨k, _, .ordinal hds hk⟩

theorem TooLongOrdinal.not_number (h : TooLongOrdinal u t) : ¬TooLongNumber u t := by
  obtain ⟨ds, a, k, hds, hk, -, rfl⟩ := h
  intro hnumber
  have hend := (word_of_kindOf hk).rtakeWhile_eq_nil (u := u)
    (ds ++ (ordinalSuffix (u.number ds) ++ [blank]))
  rw [List.append_assoc, List.append_assoc, List.singleton_append] at hend
  have hdigits := hnumber.digits
  rw [hend] at hdigits
  exact absurd hdigits (Nat.not_lt_zero _)

theorem Names.ne_nil {k : PhaseKind} {occurrence : Option ℕ} (h : Names u t k occurrence) :
    t ≠ [] := by
  cases h with
  | alone ha => exact (word_of_kindOf ha).ne
  | ordinal hds _ => exact List.append_ne_nil_of_left_ne_nil hds.1 _
  | numbered ha _ _ => exact List.append_ne_nil_of_left_ne_nil (word_of_kindOf ha).ne _

theorem parsePhase_leading {parsed : ParsedPhase} (hdirect : kindOf t = none)
    (h : parseLeading u t = some parsed) : parsePhase u t = .ok parsed := by
  rw [parsePhase, hdirect]
  dsimp only
  rw [h]

theorem parsePhase_trailing (hdirect : kindOf t = none) (h : parseLeading u t = none) :
    parsePhase u t = parseTrailing u t := by
  rw [parsePhase, hdirect]
  dsimp only
  rw [h]

/-- **The parser** finds what a text names; a number of too many digits is an error after the
kind, and is not read before it. -/
theorem parsePhase_cases (h : Tidy t) (hlower : u.Lowered t) :
    (∃ k, Names u t k none ∧ parsePhase u t = .ok { kind := some k }) ∨
      (∃ k n, Names u t k (some n) ∧ ¬TooLongNumber u t ∧ ¬TooLongOrdinal u t ∧
        parsePhase u t = .ok (.numbered k n)) ∨
      (TooLongNumber u t ∧ parsePhase u t = .error .tooManyDigits) ∨
      (TooLongOrdinal u t ∧ parsePhase u t = .ok {}) ∨
      (∀ k occurrence, ¬Names u t k occurrence) ∧ parsePhase u t = .ok {} := by
  have hleading_none : (∀ parsed, parseLeading u t ≠ some parsed) → parseLeading u t = none :=
    Option.eq_none_iff_forall_ne_some.2
  by_cases hnames : ∃ k occurrence, Names u t k occurrence
  · obtain ⟨k, occurrence, hname⟩ := hnames
    rcases hname.ends with ⟨rfl, hk, -, -⟩ | ⟨ds, a, hds, hk, rfl, ht, hfront, hend⟩ |
      ⟨a, sep, ds, hk, hsep, hds, rfl, ht, hfront, hend⟩
    · refine .inl ⟨k, hname, ?_⟩
      rw [parsePhase, hk]
    · -- an ordinal
      have hnumber : ¬TooLongNumber u t := fun hlong => by
        have hdigits := hlong.digits
        rw [hend] at hdigits
        exact absurd hdigits (Nat.not_lt_zero _)
      by_cases hle : ds.length ≤ maxDigits
      · refine .inr (.inl ⟨k, _, hname, hnumber, fun hlong => ?_, ?_⟩)
        · have hdigits := hlong.digits
          rw [hfront] at hdigits
          exact absurd hle (not_le.2 hdigits)
        · exact parsePhase_leading (kindOf_eq_none hname)
            ((parseLeading_eq_some h hlower).2 ⟨ds, a, k, hds, hk, hle, ht, rfl⟩)
      · refine .inr (.inr (.inr (.inl ⟨⟨ds, a, k, hds, hk, not_le.1 hle, ht⟩, ?_⟩)))
        have hleading : parseLeading u t = none := by
          refine hleading_none fun parsed hparsed => ?_
          obtain ⟨ds', a', k', hds', -, hle', ht', -⟩ := (parseLeading_eq_some h hlower).1 hparsed
          rw [ht', Names.digits_front hds'] at hfront
          rw [hfront] at hle'
          exact hle hle'
        rw [parsePhase_trailing (kindOf_eq_none hname) hleading]
        exact parseTrailing_none h fun a k sep ds _ hsep hds => ne_of_rtakeWhile hend a hsep hds
    · -- a number after the kind
      have hleading : parseLeading u t = none := by
        refine hleading_none fun parsed hparsed => ?_
        obtain ⟨ds', a', k', hds', -, -, ht', -⟩ := (parseLeading_eq_some h hlower).1 hparsed
        rw [ht', Names.digits_front hds'] at hfront
        exact hds'.1 hfront
      rw [parsePhase_trailing (kindOf_eq_none hname) hleading, parseTrailing_of h hk hsep hds ht]
      by_cases hle : ds.length ≤ maxDigits
      · refine .inr (.inl ⟨k, _, hname, fun hlong => ?_, fun hlong => ?_, ?_⟩)
        · have hdigits := hlong.digits
          rw [hend] at hdigits
          exact absurd hle (not_le.2 hdigits)
        · have hdigits := hlong.digits
          rw [hfront] at hdigits
          exact absurd hdigits (Nat.not_lt_zero _)
        · rw [int, if_pos hle]
          rfl
      · refine .inr (.inr (.inl ⟨⟨a, k, sep, ds, hk, hsep, hds, not_le.1 hle, ht⟩, ?_⟩))
        rw [int, if_neg hle]
        rfl
  · rw [not_exists] at hnames
    have hnone : ∀ k occurrence, ¬Names u t k occurrence := fun k occurrence hname =>
      hnames k ⟨occurrence, hname⟩
    have hdirect : kindOf t = none := by
      cases hk : kindOf t with
      | none => rfl
      | some k => exact absurd (.alone hk) (hnone k none)
    have hleading : parseLeading u t = none := by
      refine hleading_none fun parsed hparsed => ?_
      obtain ⟨ds, a, k, hds, hk, -, ht, -⟩ := (parseLeading_eq_some h hlower).1 hparsed
      refine hnone k (some (u.number ds)) ?_
      rw [ht]
      exact .ordinal hds hk
    refine .inr (.inr (.inr (.inr ⟨hnone, ?_⟩)))
    rw [parsePhase_trailing hdirect hleading]
    refine parseTrailing_none h fun a k sep ds hk hsep hds ht => ?_
    refine hnone k (some (u.number ds)) ?_
    rw [ht]
    exact .numbered hk hsep hds

end Tidy

end Tokenweir.Orchestrator
