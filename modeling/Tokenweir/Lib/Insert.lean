import Tokenweir.Lib.Catalog

/-!
# The columns of a row that is inserted

What the server checks of the columns of a table when a statement inserts a row and names some
of them.

* `Value.fits`, the values of the types that are known;
* `ColumnError`, `Relation.valueError`, `Column.isFilled`, `Relation.columnErrors`;
* `columnErrors_eq_nil_iff`.
-/

namespace Tokenweir.Sql

/-- A whole number of this many bytes. -/
def Value.fitsBytes (bytes : ℕ) (q : ℚ) : Bool :=
  q.den == 1 && -2 ^ (8 * bytes - 1) ≤ q.num && q.num < 2 ^ (8 * bytes - 1)

/-- A code point that a string of the server can hold. -/
def isStorable (c : CodePoint) : Bool := c.val != 0 && !(0xd800 ≤ c.val && c.val ≤ 0xdfff)

/-- A value that a parameter can give to a column of this type; an instant, in microseconds
since the beginning of year 1, lies between the years -4713 and 294276. -/
def Value.fits (type : Text) : Value → Bool
  | .null => true
  | .num q =>
    (type == Text.of "integer" && fitsBytes 4 q) || (type == Text.of "bigint" && fitsBytes 8 q)
  | .text s => type == Text.of "text" && s.all isStorable
  | .instant t =>
    type == Text.of "timestamp with time zone" && -148731206400000000 ≤ t &&
      t < 9286453612800000000
  | _ => false

/-- An objection to the columns of an insert. -/
inductive ColumnError
  | undefined (column : Text)
  | generated (column : Text)
  | identity (column : Text)
  | type (column : Text)
  | null (column : Text)
  deriving DecidableEq

/-- The objection to a value for a column that is named. -/
def Relation.valueError (r : Relation) (name : Text) (v : Value) : Option ColumnError :=
  match r.column name with
  | none => some (.undefined name)
  | some c =>
    if c.generated ≠ .ordinary then some (.generated name)
    else if c.identity = .always then some (.identity name)
    else if v.fits c.type = false then some (.type name)
    else if c.notNull = true ∧ v = .null then some (.null name)
    else none

/-- A column that an insert need not name. -/
def Column.isFilled (c : Column) : Bool :=
  !c.notNull || c.default.isSome || c.identity != .ordinary || c.generated != .ordinary

/-- The objections to an insert that names these columns. -/
def Relation.columnErrors (r : Relation) (given : List (Text × Value)) : List ColumnError :=
  given.filterMap (fun e => r.valueError e.1 e.2) ++
    (r.columns.filter fun c => !c.isFilled && !(given.map Prod.fst).contains c.name).map
      fun c => .null c.name

variable {r : Relation} {given : List (Text × Value)}

theorem valueError_eq_none {name : Text} {v : Value} {c : Column} (hc : r.column name = some c)
    (hgenerated : c.generated = .ordinary) (hidentity : c.identity = .ordinary)
    (hfits : v.fits c.type = true) (hnull : c.notNull = true → v ≠ .null) :
    r.valueError name v = none := by
  rw [Relation.valueError, hc]
  dsimp only
  rw [if_neg (not_not.2 hgenerated), if_neg (by rw [hidentity]; decide), if_neg (by simp [hfits]),
    if_neg fun h => hnull h.1 h.2]

/-- **No objection**: no value that is given breaks a rule, and the other columns are filled. -/
theorem columnErrors_eq_nil_iff : r.columnErrors given = [] ↔
    (∀ e ∈ given, r.valueError e.1 e.2 = none) ∧
      ∀ c ∈ r.columns, c.name ∉ given.map Prod.fst → c.isFilled = true := by
  rw [Relation.columnErrors, List.append_eq_nil_iff, List.filterMap_eq_nil_iff,
    List.map_eq_nil_iff, List.filter_eq_nil_iff]
  refine and_congr_right fun _ => forall₂_congr fun c _ => ?_
  cases c.isFilled <;> simp

end Tokenweir.Sql
