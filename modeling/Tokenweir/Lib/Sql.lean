import Tokenweir.Lib.DateTime

/-!
# Values, rows and conditions of SQL

* `Value`, `Row`, `Day`;
* `Predicate` and its truth in three values, `Predicate.eval`, `Predicate.eval_congr`;
* `Expression`, the default expressions of columns.
-/

namespace Tokenweir.Sql

/-- A `date`, which may be infinite. -/
inductive Day
  | minusInfinity
  | date (d : Date)
  | infinity
  deriving DecidableEq

/-- A value of a column. -/
inductive Value
  | null
  | num (q : ℚ)
  | nan
  | infinite (negative : Bool)
  | bool (b : Bool)
  | text (s : Text)
  | day (d : Day)
  | instant (t : ℤ)
  /-- Of any other type, as it is written. -/
  | other (s : Text)
  deriving DecidableEq

/-- A row: the values of its columns, under their names. -/
abbrev Row := Text → Value

/-! ### Conditions -/

/-- A condition on a row. -/
inductive Predicate
  | nonneg (column : Text)
  | isNull (column : Text)
  | and (p q : Predicate)
  | or (p q : Predicate)
  deriving DecidableEq

/-- `AND`, where nothing is the truth value that is unknown. -/
def both : Option Bool → Option Bool → Option Bool
  | some false, _ => some false
  | _, some false => some false
  | some true, some true => some true
  | _, _ => none

/-- `OR`. -/
def either (a b : Option Bool) : Option Bool := (both (a.map not) (b.map not)).map not

/-- `value >= 0`; a `NaN` is greater than every number. -/
def Value.nonneg : Value → Option Bool
  | .null => none
  | .num q => some (0 ≤ q)
  | .nan => some true
  | .infinite negative => some !negative
  | _ => some false

namespace Predicate

/-- The truth of a condition. -/
def eval (row : Row) : Predicate → Option Bool
  | nonneg c => (row c).nonneg
  | isNull c => some (row c = .null)
  | and p q => both (p.eval row) (q.eval row)
  | or p q => either (p.eval row) (q.eval row)

/-- The columns a condition reads. -/
def columns : Predicate → List Text
  | nonneg c => [c]
  | isNull c => [c]
  | and p q => p.columns ++ q.columns
  | or p q => p.columns ++ q.columns

/-- The columns a condition compares with a number. -/
def compared : Predicate → List Text
  | nonneg c => [c]
  | isNull _ => []
  | and p q => p.compared ++ q.compared
  | or p q => p.compared ++ q.compared

theorem eval_congr {row row' : Row} {p : Predicate} (h : ∀ c ∈ p.columns, row' c = row c) :
    p.eval row' = p.eval row := by
  induction p with
  | nonneg c => simp [eval, h c (by simp [columns])]
  | isNull c => simp [eval, h c (by simp [columns])]
  | and p q ihp ihq =>
    rw [eval, eval, ihp fun c hc => h c (by simp [columns, hc]),
      ihq fun c hc => h c (by simp [columns, hc])]
  | or p q ihp ihq =>
    rw [eval, eval, ihp fun c hc => h c (by simp [columns, hc]),
      ihq fun c hc => h c (by simp [columns, hc])]

end Predicate

/-! ### Defaults -/

/-- `YYYY-MM-DD`. -/
def isoText (d : Date) : Text :=
  let padded (width n : ℕ) : Text :=
    List.replicate (width - (Text.decimal n).length) (CodePoint.of '0') ++ Text.decimal n
  padded 4 d.year ++ Text.of "-" ++ padded 2 d.month ++ Text.of "-" ++ padded 2 d.day

/-- The digits of a number, after zeros up to this width. -/
theorem length_padded {w n : ℕ} (h : n < 10 ^ w) :
    (List.replicate (w - (Text.decimal n).length) (CodePoint.of '0') ++
      Text.decimal n).length = w := by
  have hle := Text.length_decimal_le h
  rw [List.length_append, List.length_replicate]
  omega

theorem padded_isDigit (w n : ℕ) :
    (List.replicate (w - (Text.decimal n).length) (CodePoint.of '0') ++
      Text.decimal n).all Text.isDigit = true := by
  rw [List.all_append, Text.decimal_isDigit, List.all_replicate]
  simp [show Text.isDigit (CodePoint.of '0') = true by decide]

theorem digits_padded {w n : ℕ} (h : n < 10 ^ w) (t : Text) :
    Text.digits w (List.replicate (w - (Text.decimal n).length) (CodePoint.of '0') ++
      Text.decimal n ++ t) = some (n, t) := by
  have hd := Text.digits_append (t := t) (padded_isDigit w n)
  rw [length_padded h, Text.number_replicate_append, Text.number_decimal] at hd
  exact hd

theorem after_eq_none {c : Char} {k : ℕ} {s : Text} {found : ℕ × Text}
    (h : s.digits (k + 1) = some found) (hc : Text.isDigit (CodePoint.of c) = false) :
    Text.after c s = none := by
  cases s with
  | nil => rfl
  | cons d s =>
    rw [Text.digits] at h
    split at h
    · rename_i hdigits
      rw [List.take_succ_cons, List.all_cons, Bool.and_eq_true] at hdigits
      rw [Text.after, if_neg]
      rintro rfl
      rw [hc] at hdigits
      cases hdigits.2.1
    · cases h

theorem day_le (d : Date) : d.day ≤ 31 := by
  refine d.day_range.2.trans ?_
  unfold daysInMonth
  split <;> (try split) <;> omega

/-- A date is read as it is written. -/
theorem isoDate_isoText (d : Date) : DateTime.isoDate (isoText d) = some d := by
  have hyear := d.year_range
  have hmonth := d.month_range
  have hday := day_le d
  have hdash : ∀ s : Text, Text.after '-' (Text.of "-" ++ s) = some s := fun s => by
    show (if CodePoint.of '-' = CodePoint.of '-' then some s else none) = some s
    exact if_pos rfl
  have hmonths := digits_padded (w := 2) (n := d.month) (by omega)
  have hnoWeek := fun t => after_eq_none (c := 'W') (hmonths t) (by decide)
  have hend := digits_padded (w := 2) (n := d.day) (by omega) []
  rw [List.append_nil] at hend
  unfold isoText DateTime.isoDate
  dsimp only
  simp only [List.append_assoc] at hmonths hnoWeek hend ⊢
  rw [← List.append_assoc, digits_padded (by omega)]
  simp only [Option.bind_eq_bind, Option.bind_some, hdash, Option.isSome_some, Option.getD_some,
    if_true, hnoWeek, hmonths, hend]
  exact dif_pos ⟨d.year_range, d.month_range, d.day_range⟩

theorem length_isoText (d : Date) : (isoText d).length = 10 := by
  have hyear := d.year_range
  have hmonth := d.month_range
  have hday := day_le d
  have hdash : (Text.of "-").length = 1 := rfl
  unfold isoText
  dsimp only
  rw [List.length_append, List.length_append, List.length_append, List.length_append,
    length_padded (by omega), length_padded (by omega), length_padded (by omega), hdash]

theorem isoText_not_isSpace (d : Date) : ∀ c ∈ isoText d, Text.isSpace c = false := by
  have hdigits : ∀ w n : ℕ, ∀ c ∈ List.replicate (w - (Text.decimal n).length) (CodePoint.of '0') ++
      Text.decimal n, Text.isSpace c = false := fun w n c hc =>
    Text.isSpace_of_isDigit (List.all_eq_true.1 (padded_isDigit w n) c hc)
  have hdash : ∀ c ∈ Text.of "-", Text.isSpace c = false := fun c hc => by
    obtain rfl := List.mem_singleton.1 hc
    decide
  intro c hc
  unfold isoText at hc
  dsimp only at hc
  rw [List.mem_append, List.mem_append, List.mem_append, List.mem_append] at hc
  rcases hc with (((hc | hc) | hc) | hc) | hc
  · exact hdigits _ _ c hc
  · exact hdash c hc
  · exact hdigits _ _ c hc
  · exact hdash c hc
  · exact hdigits _ _ c hc

/-- A date as it is written. -/
def Day.text : Day → Text
  | minusInfinity => Text.of "-infinity"
  | date d => isoText d
  | infinity => Text.of "infinity"

/-- A default expression: SQL, or the literal of a date. -/
inductive Expression
  | sql (text : Text)
  | date (day : Day)
  deriving DecidableEq

namespace Expression

/-- The expression as the catalog renders it. -/
def text : Expression → Text
  | sql text => text
  | date day => Text.of "'" ++ day.text ++ Text.of "'::date"

/-- The value of an expression in a transaction that begins at this instant. Of SQL, whole
numbers and the function `now()`. -/
def value (now : ℤ) : Expression → Option Value
  | sql text =>
    if text ≠ [] ∧ text.all Text.isDigit then some (.num (Text.number text))
    else if text = Text.of "now()" then some (.instant now)
    else none
  | date day => some (.day day)

theorem value_digits {text : Text} (h : text ≠ [] ∧ text.all Text.isDigit = true) (now : ℤ) :
    (sql text).value now = some (.num (Text.number text)) := by
  show (if _ then _ else _) = _
  rw [if_pos h]

theorem value_sql_cases {text : Text} {now : ℤ} {v : Value} (h : (sql text).value now = some v) :
    (text ≠ [] ∧ text.all Text.isDigit = true) ∨ text = Text.of "now()" := by
  by_contra hcon
  obtain ⟨hdigits, hnow⟩ := not_or.1 hcon
  change (if _ then _ else if _ then _ else _) = _ at h
  rw [if_neg hdigits, if_neg hnow] at h
  cases h

end Expression

end Tokenweir.Sql
