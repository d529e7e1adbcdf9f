import Tokenweir.Lib.Double
import Tokenweir.Lib.Text

/-!
# Strings and numbers of JSON texts

The tokens of JSON, as a grammar and as the scanner of Python's `json` reads them: a string with
its escapes, where two escapes that are a pair of surrogates are one code point, and a number,
which is an integer, or a float if it has a fraction or an exponent.

* `Item`, `joinSurrogates`; `Spells`, `WritesString`; `scanString`, `scanString_append`;
* `Exponent`, `Numeral`, what they write, and their value; `scanNumber`, `scanNumber_append`;
* `Follows`, what follows a number.
-/

namespace Tokenweir.JsonText

/-! ### Characters -/

/-- `"`. -/
def quote : CodePoint := 0x22

/-- The backslash. -/
def backslash : CodePoint := 0x5c

/-- The white space of JSON. -/
def isSpace (c : CodePoint) : Bool := c.val == 0x20 || c.val == 9 || c.val == 10 || c.val == 13

def skipSpace (s : Text) : Text := s.dropWhile isSpace

/-! ### Strings -/

/-- A code point of a string, and whether it has been written as a code unit of UTF-16. -/
abbrev Item := CodePoint × Bool

def isHighSurrogate (c : CodePoint) : Bool := 0xd800 ≤ c.val && c.val ≤ 0xdbff
def isLowSurrogate (c : CodePoint) : Bool := 0xdc00 ≤ c.val && c.val ≤ 0xdfff

/-- The code point of a pair of surrogates. -/
def joinPair (high low : CodePoint) : CodePoint :=
  Fin.ofNat 0x110000 (0x10000 + (high.val - 0xd800) * 0x400 + (low.val - 0xdc00))

/-- The string of some items: two code units that are a pair of surrogates are one code point. -/
def joinSurrogates : List Item → Text
  | [] => []
  | [item] => [item.1]
  | (c, true) :: (d, true) :: items =>
    if isHighSurrogate c && isLowSurrogate d then joinPair c d :: joinSurrogates items
    else c :: joinSurrogates ((d, true) :: items)
  | (c, _) :: item :: items => c :: joinSurrogates (item :: items)

def hexDigit (c : CodePoint) : Option ℕ :=
  if 48 ≤ c.val ∧ c.val ≤ 57 then some (c.val - 48)
  else if 65 ≤ c.val ∧ c.val ≤ 70 then some (c.val - 55)
  else if 97 ≤ c.val ∧ c.val ≤ 102 then some (c.val - 87)
  else none

/-- The code unit of four hexadecimal digits. -/
def codeUnit (a b c d : CodePoint) : Option CodePoint := do
  let a ← hexDigit a
  let b ← hexDigit b
  let c ← hexDigit c
  let d ← hexDigit d
  return Fin.ofNat 0x110000 (((a * 16 + b) * 16 + c) * 16 + d)

/-- The characters that a backslash and one character stand for. -/
def shortEscapes : List (CodePoint × CodePoint) :=
  [(quote, quote), (backslash, backslash), (CodePoint.of '/', CodePoint.of '/'),
    (CodePoint.of 'b', 8), (CodePoint.of 'f', 12), (CodePoint.of 'n', 10), (CodePoint.of 'r', 13),
    (CodePoint.of 't', 9)]

def shortEscape (c : CodePoint) : Option CodePoint :=
  (shortEscapes.find? fun escape => escape.1 = c).map Prod.snd

/-- The texts that write some items, between the quotes. -/
inductive Spells : List Item → Text → Prop
  | nil : Spells [] []
  | plain {c : CodePoint} {items : List Item} {s : Text} (hc : 0x20 ≤ c.val) (hquote : c ≠ quote)
      (hbackslash : c ≠ backslash) : Spells items s → Spells ((c, false) :: items) (c :: s)
  | short {e c : CodePoint} {items : List Item} {s : Text} (he : shortEscape e = some c) :
      Spells items s → Spells ((c, false) :: items) (backslash :: e :: s)
  | unit {a b c d u : CodePoint} {items : List Item} {s : Text} (hu : codeUnit a b c d = some u) :
      Spells items s →
        Spells ((u, true) :: items) (backslash :: CodePoint.of 'u' :: a :: b :: c :: d :: s)

/-- The literals of a string. -/
def WritesString (s t : Text) : Prop :=
  ∃ items body, Spells items body ∧ joinSurrogates items = s ∧ t = quote :: (body ++ [quote])

/-- The items up to the next quote, and what follows it. -/
def scanItems : Text → Option (List Item × Text)
  | [] => none
  | c :: s =>
    if c = quote then some ([], s)
    else if c = backslash then
      match s with
      | [] => none
      | e :: s =>
        if e = CodePoint.of 'u' then
          match s with
          | a :: b :: c :: d :: s =>
            (codeUnit a b c d).bind fun u => (scanItems s).map fun r => ((u, true) :: r.1, r.2)
          | _ => none
        else (shortEscape e).bind fun c => (scanItems s).map fun r => ((c, false) :: r.1, r.2)
    else if c.val < 0x20 then none
    else (scanItems s).map fun r => ((c, false) :: r.1, r.2)

/-- `scanstring`, after the opening quote. -/
def scanString (s : Text) : Option (Text × Text) :=
  (scanItems s).map fun r => (joinSurrogates r.1, r.2)

theorem shortEscape_ne_unit {e c : CodePoint} (h : shortEscape e = some c) :
    e ≠ CodePoint.of 'u' := by
  rintro rfl
  have hnone : shortEscape (CodePoint.of 'u') = none := by decide
  rw [hnone] at h
  cases h

/-- The scanner reads what is written. -/
theorem scanItems_append {items : List Item} {s : Text} (h : Spells items s) (rest : Text) :
    scanItems (s ++ quote :: rest) = some (items, rest) := by
  induction h with
  | nil =>
    rw [List.nil_append, scanItems.eq_def]
    exact if_pos rfl
  | plain hc hquote hbackslash _ ih =>
    rw [List.cons_append, scanItems.eq_def]
    dsimp only
    rw [if_neg hquote, if_neg hbackslash, if_neg (not_lt.2 hc), ih]
    rfl
  | short he _ ih =>
    rw [List.cons_append, List.cons_append, scanItems.eq_def]
    dsimp only
    rw [if_neg (by decide), if_pos rfl, if_neg (shortEscape_ne_unit he), he, ih]
    rfl
  | unit hu _ ih =>
    simp only [List.cons_append]
    rw [scanItems.eq_def]
    dsimp only
    rw [if_neg (by decide), if_pos rfl, if_pos rfl, hu, ih]
    rfl

theorem scanString_append {s t : Text} (h : WritesString s t) (rest : Text) :
    ∃ body, t ++ rest = quote :: body ∧ scanString body = some (s, rest) := by
  obtain ⟨items, body, hspells, rfl, rfl⟩ := h
  refine ⟨body ++ quote :: rest, by simp, ?_⟩
  rw [scanString, scanItems_append hspells, Option.map_some]

/-! ### Numbers -/

def minus : CodePoint := CodePoint.of '-'

/-- An exponent, as it is written. -/
structure Exponent where
  capital : Bool
  /-- Whether a sign is written, and which one. -/
  sign : Option Bool
  digits : Text
  digits_ne : digits ≠ []
  digits_isDigit : digits.all Text.isDigit = true

/-- A number, as it is written: without superfluous zeros at the front. -/
structure Numeral where
  negative : Bool
  whole : Text
  fraction : Option Text
  exponent : Option Exponent
  whole_ne : whole ≠ []
  whole_isDigit : whole.all Text.isDigit = true
  whole_zero : whole.head? = some (CodePoint.of '0') → whole = [CodePoint.of '0']
  fraction_ne : ∀ f ∈ fraction, f ≠ []
  fraction_isDigit : ∀ f ∈ fraction, f.all Text.isDigit = true

/-- A number of a sign and digits. -/
def signed (negative : Bool) (n : ℕ) : ℤ := if negative then -n else n

/-- `_match_number`, once it is matched: `int` of at most 4300 digits, or `float`. -/
def numberValue (negative : Bool) (whole : Text) (fraction : Option Text) (exponent : Option ℤ) :
    Option Json :=
  match fraction, exponent with
  | none, none =>
    if whole.length ≤ 4300 then some (.int (signed negative (Text.number whole))) else none
  | _, _ =>
    some (.float (roundDouble (signed negative (Text.number (whole ++ fraction.getD [])) *
      10 ^ (exponent.getD 0 - (fraction.getD []).length))))

def Exponent.value (e : Exponent) : ℤ := signed (e.sign = some true) (Text.number e.digits)

/-- The value of a number, none if it has too many digits. -/
def Numeral.value (n : Numeral) : Option Json :=
  numberValue n.negative n.whole n.fraction (n.exponent.map Exponent.value)

def signText : Option Bool → Text
  | none => []
  | some true => [minus]
  | some false => [CodePoint.of '+']

def Exponent.text (e : Exponent) : Text :=
  (if e.capital then CodePoint.of 'E' else CodePoint.of 'e') :: (signText e.sign ++ e.digits)

def fractionText : Option Text → Text
  | none => []
  | some f => CodePoint.of '.' :: f

def Numeral.text (n : Numeral) : Text :=
  (if n.negative then [minus] else []) ++ (n.whole ++ (fractionText n.fraction ++
    n.exponent.elim [] Exponent.text))

/-- The digits at the front, and what follows them. -/
def scanDigits (s : Text) : Text × Text := (s.takeWhile Text.isDigit, s.dropWhile Text.isDigit)

/-- A minus at the front. -/
def scanMinus : Text → Bool × Text
  | [] => (false, [])
  | c :: s => if c = minus then (true, s) else (false, c :: s)

def scanWhole : Text → Option (Text × Text)
  | [] => none
  | c :: s =>
    if c = CodePoint.of '0' then some ([c], s)
    else if Text.isDigit c then some (scanDigits (c :: s))
    else none

def scanFraction : Text → Option Text × Text
  | [] => (none, [])
  | c :: s =>
    if c = CodePoint.of '.' ∧ (scanDigits s).1 ≠ [] then (some (scanDigits s).1, (scanDigits s).2)
    else (none, c :: s)

/-- The sign of an exponent. -/
def scanSign : Text → Bool × Text
  | [] => (false, [])
  | c :: s =>
    if c = minus then (true, s) else if c = CodePoint.of '+' then (false, s) else (false, c :: s)

def scanExponent : Text → Option ℤ × Text
  | [] => (none, [])
  | c :: s =>
    let digits := scanDigits (scanSign s).2
    if (c = CodePoint.of 'e' ∨ c = CodePoint.of 'E') ∧ digits.1 ≠ [] then
      (some (signed (scanSign s).1 (Text.number digits.1)), digits.2)
    else (none, c :: s)

/-- A number at the front, as far as it goes. -/
def scanNumber (s : Text) : Option (Json × Text) := do
  let sign := scanMinus s
  let (whole, s) ← scanWhole sign.2
  let fraction := scanFraction s
  let exponent := scanExponent fraction.2
  let v ← numberValue sign.1 whole fraction.1 exponent.1
  return (v, exponent.2)

/-- What may follow a value: white space, or the end of its array, object or member. -/
def Follows (s : Text) : Prop :=
  ∀ c ∈ s.head?, isSpace c = true ∨ c = CodePoint.of ',' ∨ c = CodePoint.of '}' ∨ c = CodePoint.of ']'

/-- What is no digit. -/
def NoDigit (s : Text) : Prop := ∀ c ∈ s.head?, Text.isDigit c = false

theorem scanDigits_append {digits s : Text} (h : digits.all Text.isDigit = true) (hs : NoDigit s) :
    scanDigits (digits ++ s) = (digits, s) := by
  rw [List.all_eq_true] at h
  have hstop : s.takeWhile Text.isDigit = [] ∧ s.dropWhile Text.isDigit = s := by
    cases s with
    | nil => exact ⟨rfl, rfl⟩
    | cons c s =>
      have hc := hs c rfl
      exact ⟨List.takeWhile_cons_of_neg (by simp [hc]), List.dropWhile_cons_of_neg (by simp [hc])⟩
  rw [scanDigits, List.takeWhile_append_of_pos h, List.dropWhile_append_of_pos h, hstop.1, hstop.2,
    List.append_nil]

theorem Follows.val {s : Text} (h : Follows s) {c : CodePoint} (hc : c ∈ s.head?) :
    c.val = 32 ∨ c.val = 9 ∨ c.val = 10 ∨ c.val = 13 ∨ c.val = 44 ∨ c.val = 125 ∨ c.val = 93 := by
  rcases h c hc with h | rfl | rfl | rfl
  · simp only [isSpace, Bool.or_eq_true, beq_iff_eq] at h
    omega
  · decide
  · decide
  · decide

theorem isDigit_eq_false {c : CodePoint} (h : c.val < 48 ∨ 57 < c.val) : Text.isDigit c = false := by
  simp only [Text.isDigit, Bool.and_eq_false_iff, decide_eq_false_iff_not]
  omega

theorem Follows.noDigit {s : Text} (h : Follows s) : NoDigit s := by
  intro c hc
  have hval := h.val hc
  exact isDigit_eq_false (by omega)

/-- A digit at the front. -/
theorem exists_digit {digits : Text} (hne : digits ≠ []) (h : digits.all Text.isDigit = true) :
    ∃ d ds, digits = d :: ds ∧ 48 ≤ d.val ∧ d.val ≤ 57 := by
  cases digits with
  | nil => exact absurd rfl hne
  | cons d ds =>
    rw [List.all_cons, Bool.and_eq_true, Text.isDigit, Bool.and_eq_true, decide_eq_true_eq,
      decide_eq_true_eq] at h
    exact ⟨d, ds, rfl, h.1⟩

theorem scanSign_append (sign : Option Bool) {digits : Text} (hne : digits ≠ [])
    (h : digits.all Text.isDigit = true) (rest : Text) :
    scanSign (signText sign ++ (digits ++ rest)) = (decide (sign = some true), digits ++ rest) := by
  obtain ⟨d, ds, rfl, hd⟩ := exists_digit hne h
  have hval : ∀ {c : CodePoint}, c.val < 48 → d ≠ c := by
    rintro c hc rfl
    omega
  rcases sign with _ | _ | _
  · show scanSign (d :: (ds ++ rest)) = _
    rw [scanSign, if_neg (hval (by decide)), if_neg (hval (by decide))]
    rfl
  · rfl
  · rfl

theorem scanExponent_append (e : Option Exponent) {rest : Text} (h : Follows rest) :
    scanExponent (e.elim [] Exponent.text ++ rest) = (e.map Exponent.value, rest) := by
  cases e with
  | none =>
    show scanExponent rest = (none, rest)
    cases rest with
    | nil => rfl
    | cons c s =>
      have hval := h.val (c := c) rfl
      rw [scanExponent, if_neg]
      rintro ⟨rfl | rfl, -⟩
      · exact absurd hval (by decide)
      · exact absurd hval (by decide)
  | some e =>
    have hdigits := scanDigits_append e.digits_isDigit h.noDigit
    show scanExponent (_ :: (signText e.sign ++ e.digits) ++ rest) = _
    rw [List.cons_append, List.append_assoc, scanExponent,
      scanSign_append _ e.digits_ne e.digits_isDigit]
    dsimp only
    have hletter : (if e.capital then CodePoint.of 'E' else CodePoint.of 'e') = CodePoint.of 'e' ∨
        (if e.capital then CodePoint.of 'E' else CodePoint.of 'e') = CodePoint.of 'E' := by
      cases e.capital
      · exact .inl rfl
      · exact .inr rfl
    rw [hdigits, if_pos ⟨hletter, e.digits_ne⟩]
    rfl

theorem scanFraction_append {f : Option Text} (hne : ∀ t ∈ f, t ≠ [])
    (hdigit : ∀ t ∈ f, t.all Text.isDigit = true) {rest : Text} (h : NoDigit rest)
    (hdot : ∀ c ∈ rest.head?, c ≠ CodePoint.of '.') :
    scanFraction (fractionText f ++ rest) = (f, rest) := by
  cases f with
  | none =>
    show scanFraction rest = (none, rest)
    cases rest with
    | nil => rfl
    | cons c s =>
      rw [scanFraction, if_neg]
      rintro ⟨hc, -⟩
      exact hdot c rfl hc
  | some t =>
    have hdigits := scanDigits_append (hdigit t rfl) h
    show scanFraction (_ :: (t ++ rest)) = _
    rw [scanFraction, hdigits, if_pos ⟨rfl, hne t rfl⟩]

theorem scanWhole_append {n : Numeral} {rest : Text} (h : NoDigit rest) :
    scanWhole (n.whole ++ rest) = some (n.whole, rest) := by
  obtain ⟨d, ds, hwhole, hd⟩ := exists_digit n.whole_ne n.whole_isDigit
  have hdigits := scanDigits_append n.whole_isDigit h
  rw [hwhole, List.cons_append] at hdigits ⊢
  rw [scanWhole, hdigits]
  split
  · rename_i hzero
    have hone := n.whole_zero (by rw [hwhole, hzero]; rfl)
    rw [hwhole] at hone
    obtain ⟨-, rfl⟩ := List.cons.inj hone
    rfl
  · rw [if_pos]
    simp only [Text.isDigit, Bool.and_eq_true, decide_eq_true_eq]
    exact hd

theorem noDigit_exponent (e : Option Exponent) {rest : Text} (h : Follows rest) :
    NoDigit (e.elim [] Exponent.text ++ rest) ∧
      ∀ c ∈ (e.elim [] Exponent.text ++ rest).head?, c ≠ CodePoint.of '.' := by
  cases e with
  | none =>
    refine ⟨h.noDigit, fun c hc => ?_⟩
    rintro rfl
    exact absurd (h.val hc) (by decide)
  | some e =>
    have hhead : ∀ c ∈ (e.text ++ rest).head?, c = CodePoint.of 'E' ∨ c = CodePoint.of 'e' := by
      rintro c ⟨⟩
      cases e.capital
      · exact .inr rfl
      · exact .inl rfl
    constructor
    · intro c hc
      rcases hhead c hc with rfl | rfl
      · decide
      · decide
    · intro c hc
      rcases hhead c hc with rfl | rfl
      · decide
      · decide

theorem noDigit_fraction (f : Option Text) {rest : Text} (h : NoDigit rest) :
    NoDigit (fractionText f ++ rest) := by
  cases f with
  | none => exact h
  | some t =>
    rintro c ⟨⟩
    decide

/-- **The scanner reads a number** up to what follows it. -/
theorem scanNumber_append (n : Numeral) {rest : Text} (h : Follows rest) :
    scanNumber (n.text ++ rest) = n.value.map fun v => (v, rest) := by
  obtain ⟨hexponent, hdot⟩ := noDigit_exponent n.exponent h
  have hminus : scanMinus (n.text ++ rest) = (n.negative, n.whole ++ (fractionText n.fraction ++
      (n.exponent.elim [] Exponent.text ++ rest))) := by
    obtain ⟨d, ds, hwhole, hd⟩ := exists_digit n.whole_ne n.whole_isDigit
    rw [Numeral.text, hwhole]
    simp only [List.append_assoc]
    cases n.negative
    · refine if_neg ?_
      rintro rfl
      exact absurd hd (by decide)
    · rfl
  rw [scanNumber, hminus]
  dsimp only
  rw [scanWhole_append (noDigit_fraction n.fraction hexponent), Option.bind_eq_bind,
    Option.bind_some]
  dsimp only
  rw [scanFraction_append n.fraction_ne n.fraction_isDigit hexponent hdot,
    scanExponent_append n.exponent h]
  dsimp only
  rw [Numeral.value]
  cases numberValue n.negative n.whole n.fraction (n.exponent.map Exponent.value) <;> rfl

end Tokenweir.JsonText
