import Mathlib.Data.Rat.Lemmas
import Tokenweir.Lib.Text

/-!
# JSON Schema

The keywords of JSON Schema, draft 2020-12, that a schema of flat objects uses, with what they
assert of a value. Each keyword says nothing of values of other types than its own, and what the
schema does not name is left open.

* `JsonType`, `Json.hasType`, `Json.rational`;
* `Literal`, `Keyword`, `Keyword.holds`; `ObjectSchema`, `ObjectSchema.validates`.
-/

namespace Tokenweir

/-- The types of `type`. -/
inductive JsonType
  | null
  | boolean
  | object
  | array
  | number
  | string
  | integer

namespace Json

/-- The number that a value is, if it is one. -/
def rational : Json → Option ℚ
  | .int n => some n
  | .float x => x
  | _ => none

/-- Numbers without a fraction are integers, and truth values are no numbers. -/
def hasType (v : Json) : JsonType → Bool
  | .null => (v matches .null)
  | .boolean => (v matches .bool _)
  | .object => (v matches .obj _)
  | .array => (v matches .arr _)
  | .string => (v matches .str _)
  | .number => v.rational.isSome
  | .integer => v.rational.any Rat.isInt

end Json

/-- A value that a schema writes down. -/
inductive Literal
  | null
  | number (x : ℚ)
  | string (s : Text)

/-- Equality of JSON values: numbers are equal if they are the same number. -/
def Literal.equals : Literal → Json → Bool
  | .null, v => (v matches .null)
  | .number x, v => v.rational = some x
  | .string s, .str t => s = t
  | .string _, _ => false

/-- A keyword; a pattern is a class of the characters outside some ranges. -/
inductive Keyword
  | type (types : List JsonType)
  | const (value : Literal)
  | enum (values : List Literal)
  | minimum (x : ℚ)
  | minLength (n : ℕ)
  | pattern (ranges : List (ℕ × ℕ))

/-- Whether a code point is in one of some ranges. -/
def inRanges (ranges : List (ℕ × ℕ)) (c : CodePoint) : Bool :=
  ranges.any fun range => range.1 ≤ c.val && c.val ≤ range.2

/-- What a keyword asserts. -/
def Keyword.holds : Keyword → Json → Bool
  | .type types, v => types.any v.hasType
  | .const value, v => value.equals v
  | .enum values, v => values.any fun value => value.equals v
  | .minimum x, v => v.rational.all fun y => x ≤ y
  | .minLength n, v =>
    match v with
    | .str s => n ≤ s.length
    | _ => true
  | .pattern ranges, v =>
    -- a search, which is not anchored
    match v with
    | .str s => s.any fun c => !inRanges ranges c
    | _ => true

/-- A schema of objects, open to other properties. -/
structure ObjectSchema where
  properties : List (Text × List Keyword)
  required : List Text

/-- Whether a value is an object with the required properties, and its properties are as the
schema says. -/
def ObjectSchema.validates (S : ObjectSchema) (v : Json) : Bool :=
  v.hasType .object && S.required.all (fun key => (v.get key).isSome) &&
    S.properties.all fun property =>
      (v.get property.1).all fun w => property.2.all fun keyword => keyword.holds w

theorem ObjectSchema.validates_iff {S : ObjectSchema} {v : Json} :
    S.validates v = true ↔ v.hasType .object = true ∧
      (∀ key ∈ S.required, (v.get key).isSome = true) ∧
      ∀ property ∈ S.properties, ∀ w, v.get property.1 = some w →
        ∀ keyword ∈ property.2, keyword.holds w = true := by
  simp only [validates, Bool.and_eq_true, List.all_eq_true, and_assoc]
  refine and_congr_right fun _ => and_congr_right fun _ => forall₂_congr fun property _ => ?_
  cases v.get property.1 with
  | none => simp
  | some w => simp

end Tokenweir
