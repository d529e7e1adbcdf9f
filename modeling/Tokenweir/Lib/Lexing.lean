import Tokenweir.Lib.Text

/-!
# The lexical structure of SQL scripts

A script, read code point by code point: which of them are comments, which stand in strings, in
quoted identifiers or in dollar quotes, and which make words. Rules that a reader may not know can
be switched off.

* `Rules`, `Lexeme`, `Mode`, `Rules.step`, `Rules.label`;
* `Fits`, the invariant of the modes; `not_isIdent_before`, `not_isIdent_after`, where words end;
* `shown`, a text with one blank for each comment; `Occurs`, as whole words; `occurs_shown`;
* `Covered`, a reading whose comments are comments of another one, and `Covered.occurs`;
  `Rules.covered_of_plain`.
-/

namespace Tokenweir.Lexing

/-- The rules of PostgreSQL that a reader may know, beside `'…'`, `--` up to a line feed and nested
`/* … */`. -/
structure Rules where
  /-- A carriage return ends a `--` comment too. -/
  returns : Bool
  /-- In `E'…'`, a backslash escapes. -/
  escapes : Bool
  /-- `"…"` is an identifier. -/
  identifiers : Bool
  /-- `$tag$…$tag$` is a string. -/
  dollars : Bool

/-- All of them. -/
def Rules.postgres : Rules := ⟨true, true, true, true⟩

/-- None of them. -/
def Rules.basic : Rules := ⟨false, false, false, false⟩

/-- What a code point of a script belongs to; `opening` is the first one of a comment. -/
inductive Lexeme
  | opening
  | comment
  | delimiter
  | string
  | dollar
  | identifier
  | word
  | number
  | other
  deriving DecidableEq

/-- Part of a comment. -/
def Lexeme.isComment : Lexeme → Bool
  | .opening | .comment => true
  | _ => false

/-- Where a reader is. -/
inductive Mode
  | gap
  | word
  | number
  | line
  /-- In a comment, which is in so many others. -/
  | block (depth : ℕ)
  | string (escapes : Bool)
  | identifier
  | dollar (tag : Text)
  /-- Before `n + 1` code points of class `k`. -/
  | skip (n : ℕ) (k : Lexeme) (next : Mode)

/-- A letter, an underscore, or anything that is not ASCII. -/
def isLetter (c : CodePoint) : Bool :=
  (65 ≤ c.val && c.val ≤ 90) || (97 ≤ c.val && c.val ≤ 122) || c.val == 95 || 128 ≤ c.val

/-- A code point of an identifier, other than `$`. -/
def isIdent (c : CodePoint) : Bool := isLetter c || Text.isDigit c

/-- The blanks of SQL. -/
def isBlank (c : CodePoint) : Bool := (9 ≤ c.val && c.val ≤ 13) || c.val == 32

/-- The tag of a dollar quote, after its first `$`. -/
def tag (s : Text) : Option Text :=
  let t := s.takeWhile isIdent
  if t.head?.all isLetter ∧ (s.drop t.length).head? = some (CodePoint.of '$') then some t else none

namespace Rules

variable (r : Rules)

/-- What opens at a code point outside of comments and quotes; an `E` opens a string, and a `$`
a dollar quote, only where `escape` and `dollar` say so. -/
def opens (escape dollar : Bool) (c : CodePoint) (s : Text) : Option (Lexeme × Mode) :=
  if c = CodePoint.of '-' ∧ s.head? = some (CodePoint.of '-') then
    some (.opening, .skip 0 .comment .line)
  else if c = CodePoint.of '/' ∧ s.head? = some (CodePoint.of '*') then
    some (.opening, .skip 0 .comment (.block 0))
  else if c = CodePoint.of '\'' then some (.delimiter, .string false)
  else if r.identifiers ∧ c = CodePoint.of '"' then some (.delimiter, .identifier)
  else if r.escapes ∧ escape ∧ (c = CodePoint.of 'E' ∨ c = CodePoint.of 'e') ∧
      s.head? = some (CodePoint.of '\'') then
    some (.delimiter, .skip 0 .delimiter (.string true))
  else if r.dollars ∧ dollar ∧ c = CodePoint.of '$' then
    (tag s).map fun t => (.delimiter, .skip t.length .delimiter (.dollar t))
  else none

/-- The class of a code point, and where the reader is after it; `s` is what follows. -/
def step : Mode → CodePoint → Text → Lexeme × Mode
  | .gap, c, s => (r.opens true true c s).getD <|
    if isLetter c then (.word, .word)
    else if Text.isDigit c then (.number, .number)
    else (.other, .gap)
  | .word, c, s => (r.opens false false c s).getD <|
    if isIdent c ∨ c = CodePoint.of '$' then (.word, .word) else (.other, .gap)
  | .number, c, s => (r.opens false true c s).getD <|
    if isIdent c then (.number, .number) else (.other, .gap)
  | .line, c, _ =>
    if c = CodePoint.of '\n' ∨ r.returns ∧ c = CodePoint.of '\r' then (.other, .gap)
    else (.comment, .line)
  | .block depth, c, s =>
    if c = CodePoint.of '/' ∧ s.head? = some (CodePoint.of '*') then
      (.comment, .skip 0 .comment (.block (depth + 1)))
    else if c = CodePoint.of '*' ∧ s.head? = some (CodePoint.of '/') then
      (.comment, .skip 0 .comment (match depth with | 0 => .gap | d + 1 => .block d))
    else (.comment, .block depth)
  | .string escapes, c, s =>
    if c = CodePoint.of '\'' then
      if s.head? = some (CodePoint.of '\'') then (.string, .skip 0 .string (.string escapes))
      else (.delimiter, .gap)
    else if escapes ∧ c = CodePoint.of '\\' then (.string, .skip 0 .string (.string escapes))
    else (.string, .string escapes)
  | .identifier, c, s =>
    if c = CodePoint.of '"' then
      if s.head? = some (CodePoint.of '"') then (.identifier, .skip 0 .identifier .identifier)
      else (.delimiter, .gap)
    else (.identifier, .identifier)
  | .dollar tag, c, s =>
    if c = CodePoint.of '$' ∧ (tag ++ [CodePoint.of '$']).isPrefixOf s then
      (.delimiter, .skip tag.length .delimiter .gap)
    else (.dollar, .dollar tag)
  | .skip 0 k next, _, _ => (k, next)
  | .skip (n + 1) k next, _, _ => (k, .skip n k next)

/-- The classes of a script, from a place on. -/
def label : Mode → Text → List (CodePoint × Lexeme)
  | _, [] => []
  | m, c :: s => (c, (r.step m c s).1) :: label (r.step m c s).2 s

/-- A script with its classes. -/
def read (s : Text) : List (CodePoint × Lexeme) := r.label .gap s

@[simp] theorem label_nil (m : Mode) : r.label m [] = [] := by rw [label]

@[simp] theorem label_cons (m : Mode) (c : CodePoint) (s : Text) :
    r.label m (c :: s) = (c, (r.step m c s).1) :: r.label (r.step m c s).2 s := by rw [label]

/-- Nothing is lost, and nothing moves. -/
@[simp] theorem map_fst_label (m : Mode) (s : Text) : (r.label m s).map Prod.fst = s := by
  induction s generalizing m with
  | nil => simp
  | cons c s ih => simp [ih]

end Rules

/-! ### Where words end -/

/-- Inside of a comment or of quotes. -/
def Mode.isBody : Mode → Bool
  | .line | .block _ | .string _ | .identifier | .dollar _ => true
  | _ => false

/-- What a reader passes over is no word, and what it goes on with is not inside of one. -/
def Mode.Fits : Mode → Text → Prop
  | .skip n k next, s =>
    k ≠ .word ∧ (next.isBody = true ∨ next = .gap ∧ ∀ c ∈ (s.drop n).head?, isIdent c = false)
  | _, _ => True

theorem Mode.Fits.of_isBody {m : Mode} (h : m.isBody = true) (s : Text) : m.Fits s := by
  cases m with
  | gap | word | number | skip _ _ _ => cases h
  | line | block _ | string _ | identifier | dollar _ => trivial

theorem isIdent_of_eq {c : CodePoint} {d : Char} (h : c = CodePoint.of d)
    (hd : isIdent (CodePoint.of d) = false) : isIdent c = false := h ▸ hd

/-- What a step says of the code point that it reads. -/
structure Steps (c : CodePoint) (s : Text) (k : Lexeme) (m : Mode) : Prop where
  fits : m.Fits s
  gap : m = .gap → isIdent c = false
  word : k = .word ↔ m = .word

namespace Rules

variable {r : Rules} {m : Mode} {c : CodePoint} {s : Text}

/-- What opens: a comment, or quotes. -/
theorem opens_steps {escape dollar : Bool} {x : Lexeme × Mode}
    (h : r.opens escape dollar c s = some x) : Steps c s x.1 x.2 := by
  unfold opens at h
  split_ifs at h
  · obtain rfl := Option.some.inj h
    exact ⟨⟨by simp, .inl rfl⟩, by simp, by simp⟩
  · obtain rfl := Option.some.inj h
    exact ⟨⟨by simp, .inl rfl⟩, by simp, by simp⟩
  · obtain rfl := Option.some.inj h
    exact ⟨trivial, by simp, by simp⟩
  · obtain rfl := Option.some.inj h
    exact ⟨trivial, by simp, by simp⟩
  · obtain rfl := Option.some.inj h
    exact ⟨⟨by simp, .inl rfl⟩, by simp, by simp⟩
  · obtain ⟨t, -, rfl⟩ := Option.map_eq_some_iff.1 h
    exact ⟨⟨by simp, .inl rfl⟩, by simp, by simp⟩

/-- What opens by the basic rules. -/
theorem basic_opens (escape dollar : Bool) (c : CodePoint) (s : Text) :
    basic.opens escape dollar c s =
      if c = CodePoint.of '-' ∧ s.head? = some (CodePoint.of '-') then
        some (.opening, .skip 0 .comment .line)
      else if c = CodePoint.of '/' ∧ s.head? = some (CodePoint.of '*') then
        some (.opening, .skip 0 .comment (.block 0))
      else if c = CodePoint.of '\'' then some (.delimiter, .string false)
      else none := by
  simp [opens, basic]

/-- Outside of comments and quotes. -/
theorem getD_steps {o : Option (Lexeme × Mode)} {y : Lexeme × Mode}
    (ho : ∀ x, o = some x → Steps c s x.1 x.2) (hy : Steps c s y.1 y.2) :
    Steps c s (o.getD y).1 (o.getD y).2 := by
  cases o with
  | none => exact hy
  | some x => exact ho x rfl

theorem head_of_head? {d : CodePoint} (h : s.head? = some d) (hd : isIdent d = false) :
    ∀ e ∈ (s.drop 0).head?, isIdent e = false := by
  intro e he
  rw [List.drop_zero, h] at he
  obtain rfl := Option.some.inj he
  exact hd

/-- **A step**, for every mode. -/
theorem step_steps (h : m.Fits (c :: s)) : Steps c s (r.step m c s).1 (r.step m c s).2 := by
  cases m with
  | gap =>
    refine getD_steps (fun x hx => opens_steps hx) ?_
    split_ifs with hletter hdigit
    · exact ⟨trivial, by simp, by simp⟩
    · exact ⟨trivial, by simp, by simp⟩
    · exact ⟨trivial, fun _ => by simp [isIdent, hletter, hdigit], by simp⟩
  | word =>
    refine getD_steps (fun x hx => opens_steps hx) ?_
    split_ifs with hident
    · exact ⟨trivial, by simp, by simp⟩
    · exact ⟨trivial, fun _ => Bool.eq_false_iff.2 fun hc => hident (.inl hc), by simp⟩
  | number =>
    refine getD_steps (fun x hx => opens_steps hx) ?_
    split_ifs with hident
    · exact ⟨trivial, by simp, by simp⟩
    · exact ⟨trivial, fun _ => Bool.eq_false_iff.2 hident, by simp⟩
  | line =>
    simp only [step]
    split_ifs with hend
    · refine ⟨trivial, fun _ => ?_, by simp⟩
      rcases hend with hc | ⟨-, hc⟩
      · exact isIdent_of_eq hc (by decide)
      · exact isIdent_of_eq hc (by decide)
    · exact ⟨trivial, by simp, by simp⟩
  | block depth =>
    simp only [step]
    split_ifs with hopen hclose
    · exact ⟨⟨by simp, .inl rfl⟩, by simp, by simp⟩
    · refine ⟨⟨by simp, ?_⟩, by simp, by simp⟩
      cases depth with
      | zero => exact .inr ⟨rfl, head_of_head? hclose.2 (by decide)⟩
      | succ depth => exact .inl rfl
    · exact ⟨trivial, by simp, by simp⟩
  | string escapes =>
    simp only [step]
    split_ifs with hquote hdouble hescape
    · exact ⟨⟨by simp, .inl rfl⟩, by simp, by simp⟩
    · exact ⟨trivial, fun _ => isIdent_of_eq hquote (by decide), by simp⟩
    · exact ⟨⟨by simp, .inl rfl⟩, by simp, by simp⟩
    · exact ⟨trivial, by simp, by simp⟩
  | identifier =>
    simp only [step]
    split_ifs with hquote hdouble
    · exact ⟨⟨by simp, .inl rfl⟩, by simp, by simp⟩
    · exact ⟨trivial, fun _ => isIdent_of_eq hquote (by decide), by simp⟩
    · exact ⟨trivial, by simp, by simp⟩
  | dollar tag =>
    simp only [step]
    split_ifs with hclose
    · refine ⟨⟨by simp, .inr ⟨rfl, ?_⟩⟩, by simp, by simp⟩
      obtain ⟨rest, rfl⟩ := List.isPrefixOf_iff_prefix.1 hclose.2
      intro e he
      rw [List.append_assoc, List.drop_left] at he
      obtain rfl := Option.some.inj he
      decide
    · exact ⟨trivial, by simp, by simp⟩
  | skip n k next =>
    obtain ⟨hk, hnext⟩ := h
    cases n with
    | zero =>
      rcases hnext with hbody | ⟨rfl, hlast⟩
      · refine ⟨.of_isBody hbody s, ?_, ?_⟩
        · rintro rfl
          cases hbody
        · refine ⟨fun h => absurd h hk, ?_⟩
          rintro rfl
          cases hbody
      · refine ⟨trivial, fun _ => hlast c rfl, fun h => absurd h hk, fun hm => ?_⟩
        cases hm
    | succ n =>
      refine ⟨⟨hk, hnext⟩, fun hm => ?_, fun h => absurd h hk, fun hm => ?_⟩
      · cases hm
      · cases hm

/-- What opens is no word. -/
theorem class_of_opens {escape dollar : Bool} {x : Lexeme × Mode}
    (h : r.opens escape dollar c s = some x) : x.1 ≠ .word := by
  unfold opens at h
  split_ifs at h
  · obtain rfl := Option.some.inj h
    simp
  · obtain rfl := Option.some.inj h
    simp
  · obtain rfl := Option.some.inj h
    simp
  · obtain rfl := Option.some.inj h
    simp
  · obtain rfl := Option.some.inj h
    simp
  · obtain ⟨t, -, rfl⟩ := Option.map_eq_some_iff.1 h
    simp

/-- Inside of a word, nothing that could belong to it opens anything. -/
theorem opens_eq_none (h : isIdent c = true) (dollar : Bool) :
    r.opens false dollar c s = none := by
  have hne : ∀ d : Char, isIdent (CodePoint.of d) = false → c ≠ CodePoint.of d := by
    intro d hd hc
    rw [hc, hd] at h
    cases h
  unfold opens
  rw [if_neg fun hc => hne '-' (by decide) hc.1, if_neg fun hc => hne '/' (by decide) hc.1,
    if_neg (hne '\'' (by decide)), if_neg fun hc => hne '"' (by decide) hc.2,
    if_neg fun hc => Bool.false_ne_true hc.2.1, if_neg fun hc => hne '$' (by decide) hc.2.2]

/-- A word begins in a gap, or goes on. -/
theorem mode_of_word (h : m.Fits (c :: s)) (hk : (r.step m c s).1 = .word) :
    m = .gap ∨ m = .word := by
  cases m with
  | gap => exact .inl rfl
  | word => exact .inr rfl
  | number =>
    rw [step] at hk
    cases ho : r.opens false true c s with
    | none =>
      rw [ho, Option.getD_none] at hk
      split_ifs at hk
    | some x =>
      rw [ho] at hk
      exact absurd hk (class_of_opens ho)
  | line | block _ | string _ | identifier | dollar _ =>
    simp only [step] at hk
    split_ifs at hk
  | skip n k next =>
    cases n with
    | zero => exact absurd hk h.1
    | succ n => exact absurd hk h.1

/-- Before a word stands nothing that could belong to it. -/
theorem not_isIdent_before (h : m.Fits s) {pre post : List (CodePoint × Lexeme)}
    {x y : CodePoint × Lexeme} (hs : r.label m s = pre ++ x :: y :: post) (hx : x.2 ≠ .word)
    (hy : y.2 = .word) : isIdent x.1 = false := by
  induction pre generalizing m s with
  | nil =>
    rcases s with _ | ⟨c, _ | ⟨d, s⟩⟩
    · simp at hs
    · simp at hs
    rw [label_cons, label_cons, List.nil_append, List.cons.injEq, List.cons.injEq] at hs
    obtain ⟨rfl, rfl, -⟩ := hs
    have hstep := step_steps (r := r) h
    rcases mode_of_word hstep.fits hy with hgap | hword
    · exact hstep.gap hgap
    · exact absurd (hstep.word.2 hword) hx
  | cons z pre ih =>
    cases s with
    | nil => simp at hs
    | cons c s =>
      rw [label_cons, List.cons_append, List.cons.injEq] at hs
      exact ih (step_steps h).fits hs.2

/-- And so it is after a word. -/
theorem not_isIdent_after (h : m.Fits s) {pre post : List (CodePoint × Lexeme)}
    {x y : CodePoint × Lexeme} (hs : r.label m s = pre ++ x :: y :: post) (hx : x.2 = .word)
    (hy : y.2 ≠ .word) : isIdent y.1 = false := by
  induction pre generalizing m s with
  | nil =>
    rcases s with _ | ⟨c, _ | ⟨d, s⟩⟩
    · simp at hs
    · simp at hs
    rw [label_cons, label_cons, List.nil_append, List.cons.injEq, List.cons.injEq] at hs
    obtain ⟨rfl, rfl, -⟩ := hs
    rw [(step_steps h).word.1 hx] at hy
    by_contra hident
    rw [Bool.not_eq_false] at hident
    refine hy ?_
    rw [step, opens_eq_none hident, Option.getD_none, if_pos (.inl hident)]
  | cons z pre ih =>
    cases s with
    | nil => simp at hs
    | cons c s =>
      rw [label_cons, List.cons_append, List.cons.injEq] at hs
      exact ih (step_steps h).fits hs.2

end Rules

/-! ### A text without its comments -/

/-- What stands for a comment. -/
def blank : CodePoint := CodePoint.of ' '

/-- A labelled text with one blank for each comment; `inside` says that one has begun before. -/
def shown : (inside : Bool) → List (CodePoint × Lexeme) → Text
  | _, [] => []
  | inside, x :: l =>
    if x.2.isComment then
      if inside ∧ x.2 ≠ .opening then shown true l else blank :: shown true l
    else x.1 :: shown false l

@[simp] theorem shown_nil (inside : Bool) : shown inside [] = [] := by rw [shown]

theorem shown_cons (inside : Bool) (x : CodePoint × Lexeme) (l : List (CodePoint × Lexeme)) :
    shown inside (x :: l) =
      if x.2.isComment then
        if inside ∧ x.2 ≠ .opening then shown true l else blank :: shown true l
      else x.1 :: shown false l := by
  rw [shown]

variable {x : CodePoint × Lexeme} {a l w : List (CodePoint × Lexeme)} {inside : Bool}

theorem shown_of_not (hx : x.2.isComment = false) (inside : Bool) :
    shown inside (x :: l) = x.1 :: shown false l := by
  rw [shown_cons, hx, if_neg Bool.false_ne_true]

theorem shown_opening (inside : Bool) (c : CodePoint) :
    shown inside ((c, .opening) :: l) = blank :: shown true l := by
  simp [shown_cons, Lexeme.isComment]

theorem shown_comment (c : CodePoint) : shown true ((c, .comment) :: l) = shown true l := by
  simp [shown_cons, Lexeme.isComment]

/-- Whether a text ends inside of a comment. -/
def endsInside (inside : Bool) (l : List (CodePoint × Lexeme)) : Bool :=
  l.getLast?.elim inside fun x => x.2.isComment

theorem endsInside_cons (inside : Bool) (x : CodePoint × Lexeme) (l : List (CodePoint × Lexeme)) :
    endsInside inside (x :: l) = endsInside x.2.isComment l := by
  rw [endsInside, endsInside, List.getLast?_cons]
  cases l.getLast? <;> rfl

theorem shown_append (inside : Bool) (l l' : List (CodePoint × Lexeme)) :
    shown inside (l ++ l') = shown inside l ++ shown (endsInside inside l) l' := by
  induction l generalizing inside with
  | nil => simp [endsInside]
  | cons x l ih =>
    rw [List.cons_append, shown_cons, shown_cons, endsInside_cons]
    cases hx : x.2.isComment with
    | false => simp [ih]
    | true =>
      rw [if_pos rfl, if_pos rfl]
      split_ifs <;> simp [ih]

/-- Outside of comments a text is shown as it is. -/
theorem shown_plain (hw : ∀ x ∈ w, x.2.isComment = false) (inside : Bool) :
    shown inside w = w.map Prod.fst := by
  induction w generalizing inside with
  | nil => rw [shown_nil, List.map_nil]
  | cons x w ih =>
    rw [shown_of_not (hw x List.mem_cons_self), ih fun y hy => hw y (List.mem_cons_of_mem x hy),
      List.map_cons]

/-- What is shown last is the last code point, or the blank of a comment. -/
theorem getLast?_shown (a : List (CodePoint × Lexeme)) :
    ∀ c ∈ (shown false a).getLast?, c = blank ∨ ∃ y ∈ a.getLast?, y.1 = c := by
  have key : (∀ c ∈ (shown false a).getLast?, c = blank ∨ ∃ y ∈ a.getLast?, y.1 = c) ∧
      (endsInside false a = true → (shown false a).getLast? = some blank) := by
    induction a using List.reverseRecOn with
    | nil => exact ⟨by simp, by simp [endsInside]⟩
    | append_singleton a y ih =>
      have hends : endsInside false (a ++ [y]) = y.2.isComment := by simp [endsInside]
      rw [shown_append, hends, shown_cons]
      cases hy : y.2.isComment with
      | false => simp
      | true =>
        rw [if_pos rfl]
        split_ifs with hinside
        · -- the comment goes on, and its blank stands already
          have hlast := ih.2 hinside.1
          simp [hlast]
        · simp
  exact key.1

/-- And so for what is shown first. -/
theorem head?_shown (l : List (CodePoint × Lexeme)) :
    ∀ c ∈ (shown false l).head?, c = blank ∨ ∃ y ∈ l.head?, y.1 = c := by
  cases l with
  | nil => simp
  | cons x l =>
    rw [shown_cons]
    cases hx : x.2.isComment with
    | false => simp
    | true => simp

/-- A part of a text, as whole words. -/
def Occurs (isWord : CodePoint → Bool) (P : Text → Prop) (s : Text) : Prop :=
  ∃ pre w post, s = pre ++ w ++ post ∧ P w ∧ (∀ c ∈ pre.getLast?, isWord c = false) ∧
    ∀ c ∈ post.head?, isWord c = false

/-- **What is outside of comments is shown**, as whole words. -/
theorem occurs_shown {isWord : CodePoint → Bool} {P : Text → Prop}
    {pre post : List (CodePoint × Lexeme)} (hblank : isWord blank = false)
    (hw : ∀ x ∈ w, x.2.isComment = false) (hne : w ≠ []) (hP : P (w.map Prod.fst))
    (hpre : ∀ x ∈ pre.getLast?, isWord x.1 = false)
    (hpost : ∀ x ∈ post.head?, isWord x.1 = false) :
    Occurs isWord P (shown false (pre ++ w ++ post)) := by
  have hends : endsInside false (pre ++ w) = false := by
    obtain ⟨y, hy⟩ := Option.ne_none_iff_exists'.1 (mt List.getLast?_eq_none_iff.1 hne)
    rw [endsInside, List.getLast?_append, hy]
    exact hw y (List.mem_of_getLast? hy)
  refine ⟨shown false pre, w.map Prod.fst, shown false post, ?_, hP, ?_, ?_⟩
  · rw [shown_append, shown_append, hends, shown_plain hw]
  · intro c hc
    rcases getLast?_shown pre c hc with rfl | ⟨y, hy, rfl⟩
    · exact hblank
    · exact hpre y hy
  · intro c hc
    rcases head?_shown post c hc with rfl | ⟨y, hy, rfl⟩
    · exact hblank
    · exact hpost y hy

/-- The first reading of a text sees no comment where the second one sees none. -/
def Covered (l l' : List (CodePoint × Lexeme)) : Prop :=
  List.Forall₂ (fun x y => x.1 = y.1 ∧ (x.2.isComment = true → y.2.isComment = true)) l l'

instance (l l' : List (CodePoint × Lexeme)) : Decidable (Covered l l') :=
  inferInstanceAs (Decidable (List.Forall₂ _ _ _))

theorem Covered.split {l a b : List (CodePoint × Lexeme)} (h : Covered l (a ++ b)) :
    ∃ a' b', l = a' ++ b' ∧ Covered a' a ∧ Covered b' b :=
  ⟨l.take a.length, l.drop a.length, (List.take_append_drop _ l).symm,
    List.forall₂_take_append l a b h, List.forall₂_drop_append l a b h⟩

theorem Covered.map_fst {l l' : List (CodePoint × Lexeme)} (h : Covered l l') :
    l.map Prod.fst = l'.map Prod.fst := by
  induction h with
  | nil => rfl
  | cons hxy _ ih => rw [List.map_cons, List.map_cons, hxy.1, ih]

theorem Covered.not_comment {l l' : List (CodePoint × Lexeme)} (h : Covered l l')
    (hl' : ∀ y ∈ l', y.2.isComment = false) : ∀ x ∈ l, x.2.isComment = false := by
  induction h with
  | nil => simp
  | cons hxy _ ih =>
    rw [List.forall_mem_cons] at hl' ⊢
    exact ⟨Bool.eq_false_iff.2 fun hx => Bool.eq_false_iff.1 hl'.1 (hxy.2 hx), ih hl'.2⟩

/-- **What the second reading has outside of comments** is shown by the first one. -/
theorem Covered.occurs {isWord : CodePoint → Bool} {P : Text → Prop}
    {l pre w post : List (CodePoint × Lexeme)} (h : Covered l (pre ++ w ++ post))
    (hblank : isWord blank = false) (hw : ∀ x ∈ w, x.2.isComment = false) (hne : w ≠ [])
    (hP : P (w.map Prod.fst)) (hpre : ∀ x ∈ pre.getLast?, isWord x.1 = false)
    (hpost : ∀ x ∈ post.head?, isWord x.1 = false) : Occurs isWord P (shown false l) := by
  obtain ⟨a, post', rfl, ha, hcpost⟩ := h.split
  obtain ⟨pre', w', rfl, hcpre, hcw⟩ := ha.split
  -- the two readings are of the same code points
  have hfst : ∀ {l l' : List (CodePoint × Lexeme)} (f : List CodePoint → Option CodePoint),
      Covered l l' → f (l.map Prod.fst) = f (l'.map Prod.fst) := fun f hl => by rw [hl.map_fst]
  refine occurs_shown hblank (hcw.not_comment hw) ?_ (hcw.map_fst ▸ hP) ?_ ?_
  · rintro rfl
    exact hne (List.forall₂_nil_left_iff.1 hcw)
  · intro x hx
    have hlast := hfst List.getLast? hcpre
    rw [List.getLast?_map, List.getLast?_map, Option.mem_def.1 hx] at hlast
    obtain ⟨y, hy, heq⟩ := Option.map_eq_some_iff.1 hlast.symm
    exact heq ▸ hpre y hy
  · intro x hx
    have hhead := hfst List.head? hcpost
    rw [List.head?_map, List.head?_map, Option.mem_def.1 hx] at hhead
    obtain ⟨y, hy, heq⟩ := Option.map_eq_some_iff.1 hhead.symm
    exact heq ▸ hpost y hy

/-! ### Texts that every reader reads alike -/

/-- A code point that none of the further rules is about: no backslash, double quote, dollar sign or
carriage return. -/
def Plain (c : CodePoint) : Prop :=
  c ≠ CodePoint.of '\\' ∧ c ≠ CodePoint.of '"' ∧ c ≠ CodePoint.of '$' ∧ c ≠ CodePoint.of '\r'

/-- Modes, outside of any skip, that see the same comments. -/
inductive Settled : Mode → Mode → Prop
  | gap : Settled .gap .gap
  | word : Settled .word .word
  | number : Settled .number .number
  | line : Settled .line .line
  | block (depth : ℕ) : Settled (.block depth) (.block depth)
  | string (escapes : Bool) : Settled (.string false) (.string escapes)

/-- Modes that see the same comments; the letter of `E'…'` is a word to one of them. -/
inductive Alike : Mode → Mode → Text → Prop
  | settled {m m' : Mode} (h : Settled m m') (s : Text) : Alike m m' s
  | skip (n : ℕ) (k : Lexeme) {m m' : Mode} (h : Settled m m') (s : Text) :
      Alike (.skip n k m) (.skip n k m') s
  | letter {s : Text} (h : s.head? = some (CodePoint.of '\'')) :
      Alike .word (.skip 0 .delimiter (.string true)) s

namespace Rules

variable {m m' : Mode} {c : CodePoint} {s : Text}

/-- What opens at a plain code point. -/
theorem postgres_opens (hc : Plain c) (escape dollar : Bool) (s : Text) :
    postgres.opens escape dollar c s =
      (basic.opens escape dollar c s).or
        (if escape ∧ (c = CodePoint.of 'E' ∨ c = CodePoint.of 'e') ∧
            s.head? = some (CodePoint.of '\'') then
          some (.delimiter, .skip 0 .delimiter (.string true))
        else none) := by
  obtain ⟨-, hidentifier, hdollar, -⟩ := hc
  rw [basic_opens]
  simp only [opens, postgres, hidentifier, hdollar, and_false, if_false, true_and]
  split_ifs <;> rfl

/-- What opens by the basic rules opens alike. -/
theorem alike_of_opens {escape dollar : Bool} {x : Lexeme × Mode}
    (h : basic.opens escape dollar c s = some x) : Alike x.2 x.2 s := by
  rw [basic_opens] at h
  split_ifs at h
  · obtain rfl := Option.some.inj h
    exact .skip 0 .comment .line s
  · obtain rfl := Option.some.inj h
    exact .skip 0 .comment (.block 0) s
  · obtain rfl := Option.some.inj h
    exact .settled (.string false) s

/-- Outside of comments and quotes, and of the letter of `E'…'`. -/
theorem getD_alike {o o' : Option (Lexeme × Mode)} {y : Lexeme × Mode} (ho : o' = o)
    (hopens : ∀ x, o = some x → Alike x.2 x.2 s) (hy : Settled y.2 y.2) :
    (o.getD y).1.isComment = (o'.getD y).1.isComment ∧ Alike (o.getD y).2 (o'.getD y).2 s := by
  obtain rfl := ho
  refine ⟨rfl, ?_⟩
  cases o' with
  | none => exact .settled hy s
  | some x => exact hopens x rfl

/-- **A step** at a plain code point. -/
theorem step_alike (hc : Plain c) (h : Alike m m' (c :: s)) :
    (basic.step m c s).1.isComment = (postgres.step m' c s).1.isComment ∧
      Alike (basic.step m c s).2 (postgres.step m' c s).2 s := by
  have hinside : ∀ dollar, postgres.opens false dollar c s = basic.opens false dollar c s := by
    intro dollar
    rw [postgres_opens hc, if_neg fun h => Bool.false_ne_true h.1, Option.or_none]
  cases h with
  | settled h =>
    cases h with
    | gap =>
      by_cases hletter : (c = CodePoint.of 'E' ∨ c = CodePoint.of 'e') ∧
          s.head? = some (CodePoint.of '\'')
      · have hword : isLetter c = true := by
          rcases hletter.1 with rfl | rfl <;> decide
        have hnone : basic.opens true true c s = none := by
          rw [basic_opens, ← basic_opens false true]
          exact opens_eq_none (by rw [isIdent, hword, Bool.true_or]) true
        rw [step, step, postgres_opens hc, hnone, Option.none_or, Option.getD_none, if_pos hword,
          if_pos (show true = true ∧ _ from ⟨rfl, hletter⟩)]
        exact ⟨rfl, .letter hletter.2⟩
      · refine getD_alike ?_ (fun x hx => alike_of_opens hx) ?_
        · rw [postgres_opens hc, if_neg fun h => hletter h.2, Option.or_none]
        · split_ifs
          · exact .word
          · exact .number
          · exact .gap
    | word =>
      refine getD_alike (hinside false) (fun x hx => alike_of_opens hx) ?_
      split_ifs
      · exact .word
      · exact .gap
    | number =>
      refine getD_alike (hinside true) (fun x hx => alike_of_opens hx) ?_
      split_ifs
      · exact .number
      · exact .gap
    | line =>
      by_cases hend : c = CodePoint.of '\n'
      · rw [step, step, if_pos (.inl hend), if_pos (.inl hend)]
        exact ⟨rfl, .settled .gap s⟩
      · rw [step, step, if_neg fun h => h.elim hend fun h => hc.2.2.2 h.2,
          if_neg fun h => h.elim hend fun h => hc.2.2.2 h.2]
        exact ⟨rfl, .settled .line s⟩
    | block depth =>
      refine ⟨rfl, ?_⟩
      simp only [step]
      split_ifs
      · exact .skip 0 .comment (.block (depth + 1)) s
      · cases depth with
        | zero => exact .skip 0 .comment .gap s
        | succ depth => exact .skip 0 .comment (.block depth) s
      · exact .settled (.block depth) s
    | string escapes =>
      simp only [step, hc.1, and_false, if_false]
      split_ifs
      · exact ⟨rfl, .skip 0 .string (.string escapes) s⟩
      · exact ⟨rfl, .settled .gap s⟩
      · exact ⟨rfl, .settled (.string escapes) s⟩
  | skip n k h =>
    cases n with
    | zero => exact ⟨rfl, .settled h s⟩
    | succ n => exact ⟨rfl, .skip n k h s⟩
  | letter h =>
    obtain rfl := Option.some.inj h
    have hquote : basic.opens false false (CodePoint.of '\'') s =
        some (.delimiter, .string false) := by
      rw [basic_opens, if_neg fun h => absurd h.1 (by decide),
        if_neg fun h => absurd h.1 (by decide), if_pos rfl]
    rw [step, hquote, step, Option.getD_some]
    exact ⟨rfl, .settled (.string true) s⟩

/-- **A plain text** is read alike. -/
theorem covered_of_plain (hs : ∀ c ∈ s, Plain c) : Covered (basic.read s) (postgres.read s) := by
  have key : ∀ m m', Alike m m' s → Covered (basic.label m s) (postgres.label m' s) := by
    induction s with
    | nil =>
      intro m m' _
      rw [label_nil, label_nil]
      exact .nil
    | cons c s ih =>
      intro m m' h
      rw [List.forall_mem_cons] at hs
      obtain ⟨hclass, hnext⟩ := step_alike hs.1 h
      rw [label_cons, label_cons]
      exact .cons ⟨rfl, fun hx => hclass ▸ hx⟩ (ih hs.2 _ _ hnext)
  exact key .gap .gap (.settled .gap s)

end Rules

end Tokenweir.Lexing
