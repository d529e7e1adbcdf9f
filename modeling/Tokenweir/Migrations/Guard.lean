import Tokenweir.Lib.Lexing
import Tokenweir.Migrations.Resumption

/-!
# The guard against destructive migrations

What PostgreSQL sees in a script, and what `destructive_statements` finds in it.

* `Destructive`, `Dangerous`, the statements that the guard is for;
* `stripComments_eq`, `destructiveStatements_ne_nil`, what it finds;
* `found_of_covered`, where its comments are comments;
* `refuses_apply`, the refusal; `guarded`.
-/

namespace Tokenweir.Migrations

open Lexing

variable {u : Characters}

/-! ### Destructive statements -/

/-- A keyword, in letters of either case. -/
def Spells (keyword : String) (s : Text) : Prop :=
  List.Forall₂ (fun k c => c = CodePoint.of k ∨ c = CodePoint.of k.toLower) keyword.toList s

instance (keyword : String) (s : Text) : Decidable (Spells keyword s) :=
  inferInstanceAs (Decidable (List.Forall₂ _ _ _))

/-- `DROP`, `TRUNCATE`, or `DELETE` and `FROM` with blanks between them. -/
inductive Destructive (space : CodePoint → Bool) : Text → Prop
  | drop {w : Text} (h : Spells "DROP" w) : Destructive space w
  | truncate {w : Text} (h : Spells "TRUNCATE" w) : Destructive space w
  | deleteFrom {d s f : Text} (hd : Spells "DELETE" d) (hs : s ≠ []) (hspace : ∀ c ∈ s, space c)
      (hf : Spells "FROM" f) : Destructive space (d ++ s ++ f)

/-- A part of a labelled script, as keywords: each word is a whole one. -/
structure AsKeywords (pre w post : List (CodePoint × Lexeme)) : Prop where
  classes : ∀ x ∈ w, x.2 = if isBlank x.1 then .other else .word
  before : ∀ x ∈ pre.getLast?, x.2 ≠ .word
  after : ∀ x ∈ post.head?, x.2 ≠ .word

variable (u) in
/-- A part of a labelled script, as whole words inside a string or a dollar-quoted body. -/
structure InString (pre w post : List (CodePoint × Lexeme)) : Prop where
  classes : (∀ x ∈ w, x.2 = .string) ∨ ∀ x ∈ w, x.2 = .dollar
  before : ∀ x ∈ pre.getLast?, u.isWord x.1 = false
  after : ∀ x ∈ post.head?, u.isWord x.1 = false

variable (u) in
/-- PostgreSQL sees a destructive statement in a script, or in one of its strings. -/
def Dangerous (sql : Text) : Prop :=
  ∃ pre w post, Rules.postgres.read sql = pre ++ w ++ post ∧
    Destructive isBlank (w.map Prod.fst) ∧ (AsKeywords pre w post ∨ InString u pre w post)

/-! ### What the scan leaves -/

/-- The modes of the scan, as a reader that knows the basic rules has them. -/
inductive Same : Mode → Lexing.Mode → Bool → Prop
  | gap (inside : Bool) : Same .code .gap inside
  | word (inside : Bool) : Same .code .word inside
  | number (inside : Bool) : Same .code .number inside
  | line : Same .line .line true
  | block (depth : ℕ) : Same (.block (depth + 1)) (.block depth) true
  | literal (inside : Bool) : Same .literal (.string false) inside

/-- Outside of comments and literals, where something opens. -/
theorem step_of_opens {m : Lexing.Mode} {inside : Bool} {c : CodePoint} {s : Text}
    {x : Lexeme × Lexing.Mode} (h : Same .code m inside)
    (hx : ∀ escape dollar, Rules.basic.opens escape dollar c s = some x) :
    Rules.basic.step m c s = x := by
  cases h with
  | gap | word | number => rw [Rules.step, hx, Option.getD_some]

/-- And where nothing does. -/
theorem step_of_not_opens {m : Lexing.Mode} {inside : Bool} {c : CodePoint} {s : Text}
    (h : Same .code m inside)
    (hx : ∀ escape dollar, Rules.basic.opens escape dollar c s = none) :
    (Rules.basic.step m c s).1.isComment = false ∧
      ∀ inside, Same .code (Rules.basic.step m c s).2 inside := by
  cases h with
  | gap =>
    rw [Rules.step, hx, Option.getD_none]
    split_ifs
    · exact ⟨rfl, .word⟩
    · exact ⟨rfl, .number⟩
    · exact ⟨rfl, .gap⟩
  | word =>
    rw [Rules.step, hx, Option.getD_none]
    split_ifs
    · exact ⟨rfl, .word⟩
    · exact ⟨rfl, .gap⟩
  | number =>
    rw [Rules.step, hx, Option.getD_none]
    split_ifs
    · exact ⟨rfl, .number⟩
    · exact ⟨rfl, .gap⟩

theorem scan_eq {m : Mode} {m' : Lexing.Mode} {inside : Bool} (h : Same m m' inside) (s : Text) :
    scan m s = shown inside (Rules.basic.label m' s) := by
  fun_induction scan m s generalizing m' inside with
  | case1 => rw [Rules.label_nil, shown_nil]
  | case2 s ih =>
    cases h
    have hstep : Rules.basic.step .line (CodePoint.of '\n') s = (.other, .gap) := by
      simp [Rules.step]
    rw [Rules.label_cons, hstep, shown_of_not rfl, ih (.gap false)]
  | case3 c s hc ih =>
    cases h
    have hstep : Rules.basic.step .line c s = (.comment, .line) :=
      if_neg fun h => h.elim hc fun h => Bool.false_ne_true h.1
    rw [Rules.label_cons, hstep, shown_comment, ih .line]
  | case4 c =>
    by_cases hquote : c = CodePoint.of '\''
    · rw [Rules.label_cons, step_of_opens h fun escape dollar => by
        rw [Rules.basic_opens, if_neg (by simp), if_neg (by simp), if_pos hquote], shown_of_not rfl,
        Rules.label_nil, shown_nil]
    · rw [Rules.label_cons, shown_of_not (step_of_not_opens h fun escape dollar => by
        rw [Rules.basic_opens, if_neg (by simp), if_neg (by simp), if_neg hquote]).1, Rules.label_nil,
        shown_nil]
  | case5 c d s hopen ih =>
    rw [Rules.label_cons, step_of_opens h fun escape dollar => by
        rw [Rules.basic_opens, if_pos ⟨hopen.1, congrArg some hopen.2⟩],
      shown_opening, Rules.label_cons, Rules.step, shown_comment, ih .line]
    rfl
  | case6 c d s hline hopen ih =>
    rw [Rules.label_cons, step_of_opens h fun escape dollar => by
        rw [Rules.basic_opens, if_neg fun hc => hline ⟨hc.1, Option.some.inj hc.2⟩,
          if_pos ⟨hopen.1, congrArg some hopen.2⟩],
      shown_opening, Rules.label_cons, Rules.step, shown_comment, ih (.block 0)]
    rfl
  | case7 d s hline hblock ih =>
    rw [Rules.label_cons, step_of_opens h fun escape dollar => by
        rw [Rules.basic_opens, if_neg fun hc => hline ⟨hc.1, Option.some.inj hc.2⟩,
          if_neg fun hc => hblock ⟨hc.1, Option.some.inj hc.2⟩, if_pos rfl],
      shown_of_not rfl, ih (.literal false)]
  | case8 c d s hline hblock hquote ih =>
    have hnone := step_of_not_opens (c := c) (s := d :: s) h fun escape dollar => by
      rw [Rules.basic_opens, if_neg fun hc => hline ⟨hc.1, Option.some.inj hc.2⟩,
        if_neg fun hc => hblock ⟨hc.1, Option.some.inj hc.2⟩, if_neg hquote]
    rw [Rules.label_cons, shown_of_not hnone.1, ih (hnone.2 false)]
  | case9 depth c =>
    cases h with
    | block depth =>
      have hstep : Rules.basic.step (.block depth) c [] = (.comment, .block depth) := by
        simp [Rules.step]
      rw [Rules.label_cons, hstep, shown_comment, Rules.label_nil, shown_nil]
  | case10 depth c d s hopen ih =>
    cases h with
    | block depth =>
      have hstep : Rules.basic.step (.block depth) c (d :: s) =
          (.comment, .skip 0 .comment (.block (depth + 1))) :=
        if_pos ⟨hopen.1, congrArg some hopen.2⟩
      rw [Rules.label_cons, hstep, shown_comment, Rules.label_cons, Rules.step, shown_comment,
        ih (.block (depth + 1))]
  | case11 depth c d s hopen hclose hdepth ih =>
    cases h with
    | block depth =>
      obtain rfl : depth = 0 := by omega
      have hstep : Rules.basic.step (.block 0) c (d :: s) = (.comment, .skip 0 .comment .gap) :=
        (if_neg fun hc => hopen ⟨hc.1, Option.some.inj hc.2⟩).trans
          (if_pos ⟨hclose.1, congrArg some hclose.2⟩)
      rw [Rules.label_cons, hstep, shown_comment, Rules.label_cons, Rules.step, shown_comment,
        ih (.gap true)]
  | case12 depth c d s hopen hclose hdepth ih =>
    cases h with
    | block depth =>
      obtain ⟨depth, rfl⟩ : ∃ n, depth = n + 1 := ⟨depth - 1, by omega⟩
      have hstep : Rules.basic.step (.block (depth + 1)) c (d :: s) =
          (.comment, .skip 0 .comment (.block depth)) :=
        (if_neg fun hc => hopen ⟨hc.1, Option.some.inj hc.2⟩).trans
          (if_pos ⟨hclose.1, congrArg some hclose.2⟩)
      rw [Rules.label_cons, hstep, shown_comment, Rules.label_cons, Rules.step, shown_comment]
      exact ih (.block depth)
  | case13 depth c d s hopen hclose ih =>
    cases h with
    | block depth =>
      have hstep : Rules.basic.step (.block depth) c (d :: s) = (.comment, .block depth) :=
        (if_neg fun hc => hopen ⟨hc.1, Option.some.inj hc.2⟩).trans
          (if_neg fun hc => hclose ⟨hc.1, Option.some.inj hc.2⟩)
      rw [Rules.label_cons, hstep, shown_comment, ih (.block depth)]
  | case14 c =>
    cases h
    have hclass : (Rules.basic.step (.string false) c []).1.isComment = false := by
      simp only [Rules.step]
      split_ifs <;> rfl
    rw [Rules.label_cons, shown_of_not hclass, Rules.label_nil, shown_nil]
  | case15 s ih =>
    cases h
    have hstep : Rules.basic.step (.string false) (CodePoint.of '\'') (CodePoint.of '\'' :: s) =
        (.string, .skip 0 .string (.string false)) := by
      simp [Rules.step]
    rw [Rules.label_cons, hstep, shown_of_not rfl, Rules.label_cons, Rules.step, shown_of_not rfl,
      ih (.literal false)]
  | case16 d s hd ih =>
    cases h
    have hstep : Rules.basic.step (.string false) (CodePoint.of '\'') (d :: s) =
        (.delimiter, .gap) := by
      rw [Rules.step, if_pos rfl, List.head?_cons, if_neg fun h => hd (Option.some.inj h)]
    rw [Rules.label_cons, hstep, shown_of_not rfl, ih (.gap false)]
  | case17 c d s hquote ih =>
    cases h
    have hstep : Rules.basic.step (.string false) c (d :: s) = (.string, .string false) :=
      (if_neg hquote).trans (if_neg fun h => Bool.false_ne_true h.1)
    rw [Rules.label_cons, hstep, shown_of_not rfl, ih (.literal false)]

/-- **The scan** leaves what is outside of the comments of the basic rules. -/
theorem stripComments_eq (sql : Text) : stripComments sql = shown false (Rules.basic.read sql) :=
  scan_eq (.gap false) sql

/-! ### What the search finds -/

/-- A keyword at the front. -/
theorem afterKeyword_eq_some {keyword : List Char} {s rest : Text} :
    afterKeyword keyword s = some rest ↔ ∃ w, s = w ++ rest ∧
      List.Forall₂ (fun k c => c = CodePoint.of k ∨ c = CodePoint.of k.toLower) keyword w := by
  induction keyword generalizing s with
  | nil => simp [afterKeyword, eq_comm]
  | cons k keyword ih =>
    cases s with
    | nil => simp [afterKeyword]
    | cons c s =>
      rw [afterKeyword]
      constructor
      · intro h
        split_ifs at h with hc
        obtain ⟨w, rfl, hw⟩ := ih.1 h
        exact ⟨c :: w, rfl, .cons hc hw⟩
      · rintro ⟨w, hs, hw⟩
        obtain ⟨d, w, hd, hrest, rfl⟩ := List.forall₂_cons_left_iff.1 hw
        obtain ⟨rfl, rfl⟩ := List.cons.inj hs
        rw [if_pos hd]
        exact ih.2 ⟨w, rfl, hrest⟩

/-- A keyword at the front, as a whole word. -/
theorem keyword_isSome {keyword : String} {s : Text} :
    ((afterKeyword keyword.toList s).filter (endsWord u)).isSome = true ↔
      ∃ w post, s = w ++ post ∧ Spells keyword w ∧ ∀ c ∈ post.head?, u.isWord c = false := by
  rw [Option.isSome_iff_exists]
  constructor
  · rintro ⟨rest, h⟩
    rw [Option.filter_eq_some_iff] at h
    obtain ⟨w, hs, hw⟩ := afterKeyword_eq_some.1 h.1
    refine ⟨w, rest, hs, hw, fun c hc => ?_⟩
    simpa using (Option.all_eq_true _ _).1 h.2 c hc
  · rintro ⟨w, post, hs, hw, hends⟩
    refine ⟨post, Option.filter_eq_some_iff.2 ⟨afterKeyword_eq_some.2 ⟨w, hs, hw⟩, ?_⟩⟩
    exact (Option.all_eq_true _ _).2 fun c hc => by rw [hends c hc]; rfl

theorem isSome_orElse {α : Type} (o o' : Option α) :
    (o <|> o').isSome = true ↔ o.isSome = true ∨ o'.isSome = true := by
  cases o <;> simp

/-- `FROM` is not blank. -/
theorem dropWhile_from {f post : Text} (hf : Spells "FROM" f) :
    (f ++ post).dropWhile Text.isSpace = f ++ post := by
  obtain ⟨c, f, hc, -, rfl⟩ := List.forall₂_cons_left_iff.1 hf
  rw [List.cons_append, List.dropWhile_cons, if_neg]
  rcases hc with rfl | rfl <;> decide

theorem deleteFrom_isSome {s : Text} :
    ((do
      let rest ← afterKeyword "DELETE".toList s
      if rest.head?.any Text.isSpace then
        (afterKeyword "FROM".toList (rest.dropWhile Text.isSpace)).filter (endsWord u)
      else none : Option Text)).isSome = true ↔
    ∃ d b f post, s = d ++ b ++ f ++ post ∧ Spells "DELETE" d ∧ b ≠ [] ∧
      (∀ c ∈ b, Text.isSpace c = true) ∧ Spells "FROM" f ∧ ∀ c ∈ post.head?, u.isWord c = false := by
  constructor
  · intro h
    obtain ⟨x, hbind⟩ := Option.isSome_iff_exists.1 h
    obtain ⟨rest, hrest, hx⟩ := Option.bind_eq_some_iff.1 hbind
    split_ifs at hx with hspace
    obtain ⟨d, rfl, hd⟩ := afterKeyword_eq_some.1 hrest
    obtain ⟨f, post, hdrop, hf, hends⟩ := keyword_isSome.1 (Option.isSome_iff_exists.2 ⟨x, hx⟩)
    refine ⟨d, rest.takeWhile Text.isSpace, f, post, ?_, hd, ?_, ?_, hf, hends⟩
    · rw [List.append_assoc, List.append_assoc, ← hdrop, List.takeWhile_append_dropWhile]
    · cases rest with
      | nil => cases hspace
      | cons c rest =>
        rw [List.takeWhile_cons, if_pos (by simpa using hspace)]
        simp
    · exact fun c hc => List.mem_takeWhile_imp hc
  · rintro ⟨d, b, f, post, rfl, hd, hb, hblank, hf, hends⟩
    have hrest : afterKeyword "DELETE".toList (d ++ b ++ f ++ post) = some (b ++ (f ++ post)) :=
      afterKeyword_eq_some.2 ⟨d, by simp, hd⟩
    rw [hrest, Option.bind_eq_bind, Option.bind_some, if_pos, List.dropWhile_append_of_pos hblank,
      dropWhile_from hf]
    · exact keyword_isSome.2 ⟨f, post, rfl, hf, hends⟩
    · cases b with
      | nil => exact absurd rfl hb
      | cons c b => simpa using hblank c List.mem_cons_self

/-- **An alternative of the expression** at the front. -/
theorem afterDestructive_isSome {s : Text} : (afterDestructive u s).isSome = true ↔
    ∃ w post, s = w ++ post ∧ Destructive Text.isSpace w ∧ ∀ c ∈ post.head?, u.isWord c = false := by
  rw [afterDestructive, isSome_orElse, isSome_orElse, keyword_isSome, keyword_isSome,
    deleteFrom_isSome]
  constructor
  · rintro (⟨w, post, hs, hw, hends⟩ | ⟨w, post, hs, hw, hends⟩ |
      ⟨d, b, f, post, hs, hd, hb, hblank, hf, hends⟩)
    · exact ⟨w, post, hs, .drop hw, hends⟩
    · exact ⟨w, post, hs, .truncate hw, hends⟩
    · exact ⟨d ++ b ++ f, post, hs, .deleteFrom hd hb hblank hf, hends⟩
  · rintro ⟨w, post, hs, hw, hends⟩
    cases hw with
    | drop hw => exact .inl ⟨w, post, hs, hw, hends⟩
    | truncate hw => exact .inr (.inl ⟨w, post, hs, hw, hends⟩)
    | deleteFrom hd hb hblank hf => exact .inr (.inr ⟨_, _, _, post, hs, hd, hb, hblank, hf, hends⟩)

theorem findDestructive_ne_nil {previous : Option CodePoint} {s : Text} :
    findDestructive u 0 previous s ≠ [] ↔ ∃ pre c post, s = pre ++ c :: post ∧
      (afterDestructive u (c :: post)).isSome = true ∧
      ∀ d ∈ (previous.toList ++ pre).getLast?, u.isWord d = false := by
  induction s generalizing previous with
  | nil => simp [findDestructive]
  | cons c s ih =>
    rw [findDestructive]
    cases hfound : (if previous.any u.isWord then none else afterDestructive u (c :: s)) with
    | some rest =>
      -- there is one at the front
      split_ifs at hfound with hprevious
      refine ⟨fun _ => ⟨[], c, s, rfl, by rw [hfound]; rfl, ?_⟩, fun _ => by simp⟩
      cases previous with
      | none => simp
      | some d => simpa using hprevious
    | none =>
      rw [ih]
      constructor
      · rintro ⟨pre, d, post, rfl, hd, hpre⟩
        refine ⟨c :: pre, d, post, rfl, hd, ?_⟩
        rw [List.getLast?_append_cons]
        exact hpre
      · rintro ⟨pre, d, post, hs, hd, hpre⟩
        cases pre with
        | nil =>
          obtain ⟨rfl, rfl⟩ := List.cons.inj hs
          rw [if_neg] at hfound
          · rw [hfound] at hd
            cases hd
          · cases previous with
            | none => simp
            | some d => simpa using hpre d (by simp)
        | cons c' pre =>
          obtain ⟨rfl, rfl⟩ := List.cons.inj hs
          rw [List.getLast?_append_cons] at hpre
          exact ⟨pre, d, post, rfl, hd, hpre⟩

theorem Destructive.ne_nil {space : CodePoint → Bool} {w : Text} (h : Destructive space w) :
    w ≠ [] := by
  cases h with
  | drop h =>
    rintro rfl
    cases h
  | truncate h =>
    rintro rfl
    cases h
  | deleteFrom _ hs => simp [hs]

/-- **What the guard finds**: a destructive statement as whole words, in what the scan leaves. -/
theorem destructiveStatements_ne_nil {sql : Text} : destructiveStatements u sql ≠ [] ↔
    Occurs u.isWord (Destructive Text.isSpace) (shown false (Rules.basic.read sql)) := by
  rw [destructiveStatements, stripComments_eq, findDestructive_ne_nil]
  constructor
  · rintro ⟨pre, c, post, hs, hfound, hpre⟩
    obtain ⟨w, rest, hw, hdestructive, hends⟩ := afterDestructive_isSome.1 hfound
    exact ⟨pre, w, rest, by rw [hs, hw, List.append_assoc], hdestructive, hpre, hends⟩
  · rintro ⟨pre, w, rest, hs, hdestructive, hpre, hends⟩
    obtain ⟨c, w, rfl⟩ := List.exists_cons_of_ne_nil hdestructive.ne_nil
    refine ⟨pre, c, w ++ rest, by rw [hs, List.append_assoc]; rfl, ?_, hpre⟩
    exact afterDestructive_isSome.2 ⟨c :: w, rest, rfl, hdestructive, hends⟩

/-! ### Where the comments are comments -/

variable (u) in
/-- What `\w` is documented to say of ASCII. -/
def WordsOfAscii : Prop := ∀ c : CodePoint, c.val < 128 → u.isWord c = isIdent c

theorem isSpace_of_isBlank {c : CodePoint} (h : isBlank c = true) : Text.isSpace c = true := by
  simp only [isBlank, Text.isSpace, Bool.or_eq_true, Bool.and_eq_true, decide_eq_true_eq,
    beq_iff_eq] at h ⊢
  omega

theorem Destructive.mono {space space' : CodePoint → Bool} {w : Text}
    (h : Destructive space w) (hspace : ∀ c, space c = true → space' c = true) :
    Destructive space' w := by
  cases h with
  | drop h => exact .drop h
  | truncate h => exact .truncate h
  | deleteFrom hd hs hblank hf => exact .deleteFrom hd hs (fun c hc => hspace c (hblank c hc)) hf

/-- What is no part of an identifier is no part of a word. -/
theorem not_isWord (hu : WordsOfAscii u) {c : CodePoint} (h : isIdent c = false) :
    u.isWord c = false := by
  refine (hu c ?_).trans h
  by_contra hnot
  simp only [isIdent, isLetter, Bool.or_eq_false_iff, decide_eq_false_iff_not] at h
  omega

theorem Spells.ne_nil {keyword : String} {w : Text} (h : Spells keyword w)
    (hk : keyword.toList ≠ []) : w ≠ [] := by
  rintro rfl
  exact hk (List.forall₂_nil_right_iff.1 h)

/-- The letters of a keyword are no blanks. -/
theorem Spells.not_isBlank {keyword : String} {w : Text} (h : Spells keyword w)
    (hk : (keyword.toList.all fun k =>
      !isBlank (CodePoint.of k) && !isBlank (CodePoint.of k.toLower)) = true) :
    ∀ c ∈ w, isBlank c = false := by
  unfold Spells at h
  generalize keyword.toList = ks at h hk
  induction h with
  | nil => simp
  | cons hkc _ ih =>
    simp only [List.all_cons, Bool.and_eq_true, Bool.not_eq_true'] at hk
    rw [List.forall_mem_cons]
    refine ⟨?_, ih hk.2⟩
    rcases hkc with rfl | rfl
    · exact hk.1.1
    · exact hk.1.2

/-- A destructive statement begins with a word, and ends with one. -/
theorem Destructive.ends {space : CodePoint → Bool} {w : Text} (h : Destructive space w) :
    (∀ c ∈ w.head?, isBlank c = false) ∧ ∀ c ∈ w.getLast?, isBlank c = false := by
  cases h with
  | drop h =>
    have hall := h.not_isBlank (by decide)
    exact ⟨fun c hc => hall c (List.mem_of_mem_head? hc),
      fun c hc => hall c (List.mem_of_getLast? hc)⟩
  | truncate h =>
    have hall := h.not_isBlank (by decide)
    exact ⟨fun c hc => hall c (List.mem_of_mem_head? hc),
      fun c hc => hall c (List.mem_of_getLast? hc)⟩
  | deleteFrom hd hs hblank hf =>
    constructor
    · intro c hc
      rw [List.append_assoc, List.head?_append_of_ne_nil _ (hd.ne_nil (by decide))] at hc
      exact hd.not_isBlank (by decide) c (List.mem_of_mem_head? hc)
    · intro c hc
      rw [List.getLast?_append_of_ne_nil _ (hf.ne_nil (by decide))] at hc
      exact hf.not_isBlank (by decide) c (List.mem_of_getLast? hc)

/-- The keywords that PostgreSQL sees stand in the text as whole words. -/
theorem AsKeywords.bounds (hu : WordsOfAscii u) {sql : Text} {pre w post : List (CodePoint × Lexeme)}
    (h : AsKeywords pre w post) (hread : Rules.postgres.read sql = pre ++ w ++ post)
    (hw : Destructive isBlank (w.map Prod.fst)) :
    (∀ x ∈ pre.getLast?, u.isWord x.1 = false) ∧ ∀ x ∈ post.head?, u.isWord x.1 = false := by
  have hne : w ≠ [] := fun hnil => hw.ne_nil (by rw [hnil, List.map_nil])
  have hword : ∀ x ∈ w, isBlank x.1 = false → x.2 = .word := by
    intro x hx hblank
    rw [h.classes x hx, hblank, if_neg Bool.false_ne_true]
  constructor
  · intro x hx
    obtain ⟨pre, rfl⟩ := List.getLast?_eq_some_iff.1 hx
    obtain ⟨y, w, rfl⟩ := List.exists_cons_of_ne_nil hne
    have hsplit : Rules.postgres.label .gap sql = pre ++ x :: y :: (w ++ post) :=
      hread.trans (by simp)
    have hfits : Mode.gap.Fits sql := trivial
    exact not_isWord hu (Rules.not_isIdent_before hfits hsplit (h.before x hx)
      (hword y List.mem_cons_self (hw.ends.1 y.1 rfl)))
  · intro x hx
    obtain ⟨w, y, rfl⟩ := List.eq_nil_or_concat w |>.resolve_left hne
    obtain ⟨post, rfl⟩ := List.head?_eq_some_iff.1 hx
    have hsplit : Rules.postgres.label .gap sql = (pre ++ w) ++ y :: x :: post :=
      hread.trans (by simp)
    have hfits : Mode.gap.Fits sql := trivial
    exact not_isWord hu (Rules.not_isIdent_after hfits hsplit
      (hword y (by simp) (hw.ends.2 y.1 (by simp))) (h.after x hx))

/-- **Where the comments are comments** for PostgreSQL too, the guard misses nothing. -/
theorem found_of_covered (hu : WordsOfAscii u) {sql : Text}
    (hcovered : Lexing.Covered (Rules.basic.read sql) (Rules.postgres.read sql)) (h : Dangerous u sql) :
    destructiveStatements u sql ≠ [] := by
  obtain ⟨pre, w, post, hread, hw, hseen⟩ := h
  have hblank : u.isWord blank = false := not_isWord hu (by decide)
  have hne : w ≠ [] := fun hnil => hw.ne_nil (by rw [hnil, List.map_nil])
  rw [destructiveStatements_ne_nil]
  rw [hread] at hcovered
  have hP := hw.mono fun c => isSpace_of_isBlank
  rcases hseen with hkeywords | hstring
  · obtain ⟨hpre, hpost⟩ := hkeywords.bounds hu hread hw
    refine hcovered.occurs hblank (fun x hx => ?_) hne hP hpre hpost
    rw [hkeywords.classes x hx]
    split_ifs <;> rfl
  · refine hcovered.occurs hblank (fun x hx => ?_) hne hP hstring.before hstring.after
    rcases hstring.classes with hclass | hclass
    · rw [hclass x hx]
      rfl
    · rw [hclass x hx]
      rfl

/-! ### The refusal -/

/-- The rows that the runner knows, after an answer. -/
def remember (rows : List (ℤ × Option Text)) :
    (q : Request Statement) → Except Error (Answer Rows q) → List (ℤ × Option Text)
  | .statement .versions, .ok read => read
  | _, _ => rows

variable (u) in
/-- Whatever a database answers: no migration is run while one of the outstanding ones is
destructive. -/
def refusing (shipped : List Migration) :
    Protocol (List (ℤ × Option Text)) (Request Statement) (Answer Rows) Error where
  allowed rows q := ∀ m, q = .statement (.run m) → offenders u (notApplied shipped rows) = []
  next rows q x rows' := rows' = remember rows q x

variable (u) in
/-- The call fails, where one of the outstanding migrations is destructive. -/
def Refuses (shipped : List Migration) {α : Type} (rows : List (ℤ × Option Text))
    (r : Except Error α) : Prop :=
  offenders u (notApplied shipped rows) ≠ [] → ∃ e, r = .error e

section Refusal

variable {shipped : List Migration} {rows : List (ℤ × Option Text)}

/-- A request other than to run a migration. -/
theorem follows_other {q : Request Statement} (hq : ∀ m, q ≠ .statement (.run m))
    {post : List (ℤ × Option Text) → Except Error (Answer Rows q) → Prop}
    (h : ∀ x, post (remember rows q x) x) :
    Program.Follows (refusing u shipped) post (.ask q .done) rows :=
  ⟨fun m hm => absurd hm (hq m), fun x _ hrows => hrows ▸ h x⟩

/-- A request that does not read the rows, while nothing outstanding is destructive. -/
theorem follows_quiet {q : Request Statement} (hsafe : offenders u (notApplied shipped rows) = [])
    (hq : ∀ x, remember rows q x = rows) :
    Program.Follows (refusing u shipped) (fun rows' _ => rows' = rows) (.ask q .done) rows :=
  ⟨fun _ _ => hsafe, fun x _ hrows => hrows.trans (hq x)⟩

/-- The requests of one part after those of another. -/
theorem quiet_bind {α β : Type} {p : Db α} {f : α → Db β}
    (hp : p.Follows (refusing u shipped) (fun rows' _ => rows' = rows) rows)
    (hf : ∀ a, (f a).Follows (refusing u shipped) (fun rows' _ => rows' = rows) rows) :
    (p >>= f).Follows (refusing u shipped) (fun rows' _ => rows' = rows) rows := by
  apply Program.follows_bind.2
  refine hp.mono ?_
  rintro _ (e | a) rfl
  · rfl
  · exact hf a

/-- The loop of `apply`. -/
theorem quiet_applyAll (hsafe : offenders u (notApplied shipped rows) = []) (role : Option Text)
    (ms : List Migration) :
    (applyAll role ms).Follows (refusing u shipped) (fun rows' _ => rows' = rows) rows := by
  have hrun : ∀ m, (runAndRecord role m).Follows (refusing u shipped)
      (fun rows' _ => rows' = rows) rows := by
    intro m
    unfold runAndRecord
    cases role with
    | none =>
      exact quiet_bind (follows_quiet hsafe fun _ => rfl) fun _ =>
        quiet_bind (follows_quiet hsafe fun _ => rfl) fun _ => follows_quiet hsafe fun _ => rfl
    | some role =>
      exact quiet_bind (follows_quiet hsafe fun _ => rfl) fun _ =>
        quiet_bind (follows_quiet hsafe fun _ => rfl) fun _ =>
        quiet_bind (follows_quiet hsafe fun _ => rfl) fun _ => follows_quiet hsafe fun _ => rfl
  induction ms with
  | nil => exact rfl
  | cons m ms ih =>
    refine quiet_bind ?_ fun _ => ih
    apply Program.follows_tryCatch.2
    refine (hrun m).mono ?_
    rintro _ (e | a) rfl
    · exact quiet_bind (follows_quiet hsafe fun _ => rfl) fun _ => rfl
    · rfl

/-- The requests of one part after those of another, neither of which runs a migration. -/
theorem other_bind {α β : Type} {p : Db α} {f : α → Db β}
    (hp : p.Follows (refusing u shipped) (fun _ _ => True) rows)
    (hf : ∀ a rows, (f a).Follows (refusing u shipped) (fun _ _ => True) rows) :
    (p >>= f).Follows (refusing u shipped) (fun _ _ => True) rows := by
  apply Program.follows_bind.2
  refine hp.mono ?_
  rintro rows (e | a) -
  · trivial
  · exact hf a rows

theorem other_ensureColumn (present : Finset Text) (column : Text) :
    (ensureColumn present column).Follows (refusing u shipped) (fun _ _ => True) rows := by
  unfold ensureColumn
  split_ifs
  · trivial
  · refine other_bind (follows_other (by simp) fun _ => trivial) fun _ _ => ?_
    exact follows_other (by simp) fun _ => trivial
  · refine other_bind (follows_other (by simp) fun _ => trivial) fun _ _ => ?_
    trivial

theorem other_ensureStateTable :
    ensureStateTable.Follows (refusing u shipped) (fun _ _ => True) rows :=
  other_bind (follows_other (by simp) fun _ => trivial) fun _ _ =>
    other_bind (follows_other (by simp) fun _ => trivial) fun present _ =>
    other_bind (other_ensureColumn present _) fun _ _ =>
    other_bind (other_ensureColumn present _) fun _ _ => other_ensureColumn present _

/-- What `applied_versions` returns is what the runner knows. -/
theorem known_appliedVersions : (appliedVersions false).Follows (refusing u shipped)
    (fun rows r => ∀ read, r = .ok read → rows = read) rows := by
  change Program.Follows _ _ (ensureStateTable >>= _) _
  apply Program.follows_bind.2
  refine other_ensureStateTable.mono ?_
  rintro rows (e | _) -
  · intro read hread
    cases hread
  apply Program.follows_bind.2
  refine follows_other (by simp) ?_
  rintro (e | read)
  · intro read hread
    cases hread
  apply Program.follows_bind.2
  refine follows_other (by simp) ?_
  rintro (e | _)
  · intro read hread
    cases hread
  · intro read' hread
    exact Except.ok.inj hread

/-- So `pending` returns what is outstanding. -/
theorem known_pending (files : List (Text × Text)) (verify : Bool) :
    (pending u files verify false).Follows (refusing u (released u files))
      (fun rows r => ∀ ms, r = .ok ms → ms = notApplied (released u files) rows) rows := by
  unfold pending
  apply Program.follows_bind.2
  cases hfiles : discover u files with
  | error e =>
    intro ms hms
    cases hms
  | ok shipped =>
    have hshipped : released u files = shipped := by rw [released, hfiles]; rfl
    rw [hshipped]
    apply Program.follows_bind.2
    refine known_appliedVersions.mono ?_
    rintro rows (e | read) hread
    · intro ms hms
      cases hms
    obtain rfl := hread read rfl
    apply Program.follows_bind.2
    cases checkApplied u rows shipped verify with
    | error e =>
      intro ms hms
      cases hms
    | ok a =>
      intro ms hms
      exact (Except.ok.inj hms).symm

theorem Refuses.error {α : Type} (rows : List (ℤ × Option Text)) (e : Error) :
    Refuses u shipped rows (.error e : Except Error α) := fun _ => ⟨e, rfl⟩

/-- The lock around a block changes nothing about the refusal. -/
theorem refuses_advisoryLock {α : Type} {block : Db α} (enabled : Bool)
    (h : ∀ rows, block.Follows (refusing u shipped) (Refuses u shipped) rows) :
    (advisoryLock enabled block).Follows (refusing u shipped) (Refuses u shipped) rows := by
  unfold advisoryLock
  split_ifs
  · apply Program.follows_bind.2
    refine follows_other (by simp) ?_
    rintro (e | _)
    · exact .error _ e
    apply Program.follows_bind.2
    refine follows_other (by simp) ?_
    rintro (e | _)
    · exact .error _ e
    apply Program.follows_tryFinally.2
    refine (h _).mono fun rows r hr => ?_
    -- the release is silent, whether it fails or not
    apply Program.follows_tryCatch.2
    apply Program.follows_bind.2
    refine follows_other (by simp) ?_
    rintro (e | _)
    · exact hr
    · refine follows_other (by simp) ?_
      rintro (e | _)
      · exact hr
      · exact hr
  · exact h rows

/-- **The refusal**: while an outstanding migration is destructive, nothing is run, and the call
fails, whatever the database answers. -/
theorem refuses_apply (files : List (Text × Text)) (autocommit : Bool) (o : Options)
    (rows : List (ℤ × Option Text)) :
    (apply u files autocommit { o with allowDestructive := false }).Follows
      (refusing u (released u files)) (Refuses u (released u files)) rows := by
  unfold apply
  split_ifs
  · exact .error rows _
  refine refuses_advisoryLock _ fun rows => ?_
  apply Program.follows_bind.2
  refine (known_pending files o.verifyChecksums).mono ?_
  rintro rows (e | ms) hms
  · exact .error rows e
  obtain rfl := hms ms rfl
  dsimp only
  split
  · -- nothing is outstanding
    rename_i hnil
    intro hoffenders
    exact absurd (by rw [hnil]; rfl) hoffenders
  split
  · exact .error rows _
  · rename_i hsafe
    replace hsafe : offenders u (notApplied (released u files) rows) = [] := by simpa using hsafe
    apply Program.follows_bind.2
    refine (quiet_applyAll hsafe o.readerRole _).mono ?_
    rintro _ (e | _) rfl
    · exact .error _ e
    · exact fun hoffenders => absurd hsafe hoffenders

end Refusal

/-! ### The guard -/

/-- **The guard** against destructive migrations, where everything that the basic rules take for a
comment is one for PostgreSQL:

* it finds something in every dangerous script;
* every script without backslashes, double quotes, dollar signs and carriage returns is such a one;
* and where it finds something in an outstanding migration, `apply` runs none, and fails. -/
theorem guarded (hu : WordsOfAscii u) :
    (∀ sql, Lexing.Covered (Rules.basic.read sql) (Rules.postgres.read sql) → Dangerous u sql →
      destructiveStatements u sql ≠ []) ∧
    (∀ sql, (∀ c ∈ sql, Plain c) → Lexing.Covered (Rules.basic.read sql) (Rules.postgres.read sql)) ∧
    ∀ (files : List (Text × Text)) (autocommit : Bool) (o : Options) (rows : List (ℤ × Option Text)),
      (apply u files autocommit { o with allowDestructive := false }).Follows
        (refusing u (released u files)) (Refuses u (released u files)) rows :=
  ⟨fun _ => found_of_covered hu, fun _ => Rules.covered_of_plain, refuses_apply⟩

theorem wordsOfAscii_asciiCharacters : WordsOfAscii asciiCharacters := by
  intro c hc
  rw [Bool.eq_iff_iff]
  simp only [asciiCharacters, isIdent, isLetter, Text.isDigit, decide_eq_true_eq, Bool.or_eq_true,
    Bool.and_eq_true, beq_iff_eq]
  omega

/-- A table that is dropped, with words on it. -/
def commented : Text := Text.of "/* 'x */ drop table t; -- DROP"

theorem guarded_commented : destructiveStatements asciiCharacters commented ≠ [] := by
  refine (guarded wordsOfAscii_asciiCharacters).1 commented (by decide +kernel) ?_
  refine ⟨(Rules.postgres.read commented).take 9, ((Rules.postgres.read commented).drop 9).take 4,
    (Rules.postgres.read commented).drop 13, by decide +kernel, .drop ?_, .inl ⟨?_, ?_, ?_⟩⟩
  all_goals decide +kernel

/-- A string with an escaped quote, and a table that is dropped. -/
def escapedQuote : Text := Text.of "SELECT E'it\\'s -- '; DROP TABLE t;"

/-- PostgreSQL sees the end of that string, and the guard sees a comment in it. -/
theorem not_guarded_escapedQuote : ¬ (Dangerous asciiCharacters escapedQuote →
    destructiveStatements asciiCharacters escapedQuote ≠ []) := by
  intro h
  refine h ⟨(Rules.postgres.read escapedQuote).take 21,
    ((Rules.postgres.read escapedQuote).drop 21).take 4,
    (Rules.postgres.read escapedQuote).drop 25, by decide +kernel, .drop ?_, .inl ⟨?_, ?_, ?_⟩⟩
    (by decide +kernel)
  all_goals decide +kernel

/-- A comment that is none hides what stands in it, and nothing on the next line. -/
example :
    let sql := Text.of "SELECT E'it\\'s -- '; DROP TABLE t;\nDROP TABLE u;"
    ¬Lexing.Covered (Rules.basic.read sql) (Rules.postgres.read sql) ∧
      destructiveStatements asciiCharacters sql ≠ [] := by decide +kernel

end Tokenweir.Migrations
