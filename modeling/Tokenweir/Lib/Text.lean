import Mathlib.Data.List.DropRight
import Mathlib.Tactic

/-!
# Strings of code points

A string of a language whose strings are sequences of code points, lone surrogates
included, with its notion of white space.

* `Text`, `Text.of` for literals;
* `digits`, `after`, for parsers;
* `isSpace`, `strip`, `words`, `squash`; `join`, `le`;
* `decimal`, and `number_decimal`, that it is read back; `Json`.
-/

namespace Tokenweir

/-- A Unicode code point, surrogates included. -/
abbrev CodePoint := Fin 0x110000

/-- A string. -/
abbrev Text := List CodePoint

instance CodePoint.neZero : NeZero 0x110000 := ⟨by decide⟩

instance Text.lawfulBEq : LawfulBEq Text := inferInstanceAs (LawfulBEq (List CodePoint))

/-- The code point of a character. -/
def CodePoint.of (c : Char) : CodePoint := Fin.ofNat 0x110000 c.toNat

theorem CodePoint.of_injective : Function.Injective CodePoint.of := by
  intro c c' h
  have hlt : ∀ c : Char, c.toNat < 0x110000 := by
    intro c
    have hvalid := c.valid
    simp only [UInt32.isValidChar, Nat.isValidChar] at hvalid
    unfold Char.toNat
    omega
  have hval : c.toNat % 0x110000 = c'.toNat % 0x110000 := congrArg Fin.val h
  rw [Nat.mod_eq_of_lt (hlt c), Nat.mod_eq_of_lt (hlt c')] at hval
  exact Char.toNat_inj.1 hval

namespace Text

/-- The string of a literal. -/
def of (s : String) : Text := s.toList.map CodePoint.of

theorem of_injective : Function.Injective of := fun _ _ h =>
  String.toList_injective (List.map_injective_iff.2 CodePoint.of_injective h)

/-- An ASCII digit. -/
def isDigit (c : CodePoint) : Bool := 48 ≤ c.val && c.val ≤ 57

/-- The number some digits write. -/
def number (s : Text) : ℕ := s.foldl (fun n c => n * 10 + (c.val - 48)) 0

/-- `n` digits at the front, as a number, and what follows them. -/
def digits (n : ℕ) (s : Text) : Option (ℕ × Text) :=
  if (s.take n).length = n ∧ (s.take n).all isDigit then some (number (s.take n), s.drop n)
  else none

/-- What follows this character at the front. -/
def after (c : Char) : Text → Option Text
  | [] => none
  | d :: s => if d = CodePoint.of c then some s else none

/-- `str.isspace` of one code point. -/
def isSpace (c : CodePoint) : Bool :=
  (9 ≤ c.val && c.val ≤ 13) || (28 ≤ c.val && c.val ≤ 32) || c.val == 0x85 || c.val == 0xa0 ||
    c.val == 0x1680 || (0x2000 ≤ c.val && c.val ≤ 0x200a) || c.val == 0x2028 ||
    c.val == 0x2029 || c.val == 0x202f || c.val == 0x205f || c.val == 0x3000

/-- A code point at which `str.splitlines` ends a line. -/
def isLineBreak (c : CodePoint) : Bool :=
  (10 ≤ c.val && c.val ≤ 13) || (28 ≤ c.val && c.val ≤ 30) || c.val == 0x85 ||
    c.val == 0x2028 || c.val == 0x2029

/-- `str.lower`, of ASCII letters. -/
def lower (s : Text) : Text :=
  s.map fun c => if 65 ≤ c.val ∧ c.val ≤ 90 then Fin.ofNat 0x110000 (c.val + 32) else c

/-- `str.strip` without an argument. -/
def strip (s : Text) : Text := (s.dropWhile isSpace).rdropWhile isSpace

/-- `str.join`. -/
def join (sep : Text) (ss : List Text) : Text := (ss.intersperse sep).flatten

/-- `str.split` without an argument. -/
def words (s : Text) : List Text := (s.splitOnP isSpace).filter (· ≠ [])

/-- Every run of white space made one blank, and none at the ends. -/
def squash (s : Text) : Text := join (of " ") s.words

/-- The order of the code points, from the first on. -/
def le : Text → Text → Bool
  | [], _ => true
  | _ :: _, [] => false
  | c :: s, d :: t => c < d || (c == d && le s t)

/-- The decimal digits of a number. -/
def decimal (n : ℕ) : Text := (Nat.digits 10 n).reverse.map fun d => Fin.ofNat 0x110000 (48 + d)

/-! ### Digits -/

theorem isDigit_ofNat {d : ℕ} (h : d < 10) : isDigit (Fin.ofNat 0x110000 (48 + d)) = true := by
  interval_cases d <;> decide

theorem isSpace_of_isDigit {c : CodePoint} (h : isDigit c = true) : isSpace c = false := by
  unfold isDigit at h
  unfold isSpace
  simp only [Bool.and_eq_true, decide_eq_true_eq] at h
  simp only [Bool.or_eq_false_iff, Bool.and_eq_false_iff, decide_eq_false_iff_not, beq_eq_false_iff_ne]
  omega

theorem val_ofNat {d : ℕ} (h : d < 10) : (Fin.ofNat 0x110000 (48 + d)).val - 48 = d := by
  interval_cases d <;> decide

theorem decimal_isDigit (n : ℕ) : (decimal n).all isDigit = true := by
  rw [List.all_eq_true]
  intro c hc
  obtain ⟨d, hd, rfl⟩ := List.mem_map.1 hc
  exact isDigit_ofNat (Nat.digits_lt_base (by norm_num) (List.mem_reverse.1 hd))

/-- The digits of a number write it. -/
theorem number_decimal (n : ℕ) : number (decimal n) = n := by
  have hdigits : ∀ ds : List ℕ, (∀ d ∈ ds, d < 10) →
      (ds.map fun d => Fin.ofNat 0x110000 (48 + d)).foldr
        (fun c n => n * 10 + (c.val - 48)) 0 = Nat.ofDigits 10 ds := by
    intro ds hds
    induction ds with
    | nil => rfl
    | cons d ds ih =>
      rw [List.map_cons, List.foldr_cons, ih fun e he => hds e (List.mem_cons_of_mem d he),
        val_ofNat (hds d List.mem_cons_self), Nat.ofDigits_cons]
      ring
  rw [number, decimal, List.map_reverse, List.foldl_reverse,
    hdigits _ fun d hd => Nat.digits_lt_base (by norm_num) hd, Nat.ofDigits_digits]

theorem number_concat (s : Text) (c : CodePoint) : number (s ++ [c]) = number s * 10 + (c.val - 48) := by
  rw [number, List.foldl_append]
  rfl

theorem number_pos {d : CodePoint} (ds : Text) (h : 49 ≤ d.val) : 1 ≤ number (d :: ds) := by
  induction ds using List.reverseRecOn with
  | nil =>
    show 1 ≤ 0 * 10 + (d.val - 48)
    omega
  | append_singleton ds c ih =>
    rw [← List.cons_append, number_concat]
    omega

theorem decimal_add {m e : ℕ} (hm : 1 ≤ m) (he : e < 10) :
    decimal (m * 10 + e) = decimal m ++ [Fin.ofNat 0x110000 (48 + e)] := by
  have hdigits := Nat.digits_add 10 (by norm_num) e m he (.inr (by omega))
  rw [Nat.mul_comm, Nat.add_comm] at hdigits
  rw [decimal, hdigits, List.reverse_cons, List.map_append]
  rfl

/-- Digits without a zero at the front are those of the number that they write. -/
theorem decimal_number {d : CodePoint} {ds : Text} (hd : 49 ≤ d.val ∧ d.val ≤ 57)
    (hds : ds.all isDigit = true) : decimal (number (d :: ds)) = d :: ds := by
  have hdigit : ∀ c : CodePoint, 48 ≤ c.val → Fin.ofNat 0x110000 (48 + (c.val - 48)) = c := by
    intro c hc
    rw [Nat.add_sub_cancel' hc]
    exact Fin.ofNat_val_eq_self c
  induction ds using List.reverseRecOn with
  | nil =>
    have hval : number [d] = d.val - 48 := Nat.zero_add _
    rw [hval, decimal, Nat.digits_of_lt 10 _ (by omega) (by omega)]
    exact congrArg (fun c => [c]) (hdigit d (by omega))
  | append_singleton ds c ih =>
    rw [List.all_append, Bool.and_eq_true] at hds
    have hc := hds.2
    simp only [isDigit, List.all_cons, List.all_nil, Bool.and_true, Bool.and_eq_true,
      decide_eq_true_eq] at hc
    rw [← List.cons_append, number_concat, decimal_add (number_pos ds hd.1) (by omega), ih hds.1,
      hdigit c hc.1]

/-- A number that is not zero does not begin with a zero. -/
theorem decimal_cons {n : ℕ} (h : 1 ≤ n) :
    ∃ d ds, decimal n = d :: ds ∧ (49 ≤ d.val ∧ d.val ≤ 57) ∧ ds.all isDigit = true := by
  have hall := decimal_isDigit n
  have hne : Nat.digits 10 n ≠ [] := Nat.digits_ne_nil_iff_ne_zero.2 (by omega)
  have hlast := Nat.getLast_digit_ne_zero 10 (by omega : n ≠ 0)
  have hlt := Nat.digits_lt_base (b := 10) (by norm_num) (List.getLast_mem hne)
  have hcons : decimal n = Fin.ofNat 0x110000 (48 + (Nat.digits 10 n).getLast hne) ::
      ((Nat.digits 10 n).dropLast.reverse.map fun d => Fin.ofNat 0x110000 (48 + d)) := by
    rw [decimal]
    conv_lhs => rw [← List.dropLast_append_getLast hne]
    rw [List.reverse_append]
    rfl
  rw [hcons, List.all_cons, Bool.and_eq_true] at hall
  refine ⟨_, _, hcons, ?_, hall.2⟩
  have hval : (Fin.ofNat 0x110000 (48 + (Nat.digits 10 n).getLast hne)).val =
      48 + (Nat.digits 10 n).getLast hne := Nat.mod_eq_of_lt (by omega)
  rw [hval]
  omega

theorem number_replicate_append (k : ℕ) (s : Text) :
    number (List.replicate k (CodePoint.of '0') ++ s) = number s := by
  induction k with
  | zero => rfl
  | succ k ih =>
    rw [List.replicate_succ, List.cons_append, ← ih]
    rfl

theorem length_decimal_le {n k : ℕ} (h : n < 10 ^ k) : (decimal n).length ≤ k := by
  rw [decimal, List.length_map, List.length_reverse]
  exact (Nat.digits_length_le_iff (by norm_num) n).2 h

theorem digits_append {s t : Text} (h : s.all isDigit = true) :
    digits s.length (s ++ t) = some (number s, t) := by
  rw [digits, List.take_left, List.drop_left, if_pos ⟨rfl, h⟩]

/-- Without white space there is nothing to strip. -/
theorem strip_eq_self {s : Text} (h : ∀ c ∈ s, isSpace c = false) : s.strip = s := by
  have hdrop : s.dropWhile isSpace = s := by
    cases s with
    | nil => rfl
    | cons c s => rw [List.dropWhile_cons_of_neg (by simp [h c List.mem_cons_self])]
  rw [strip, hdrop, List.rdropWhile_eq_self_iff]
  intro hne
  simp [h _ (List.getLast_mem hne)]

/-- White space is stripped at both ends. -/
theorem strip_ends (t : Text) :
    (∀ c ∈ t.strip.head?, isSpace c = false) ∧
      ∀ c ∈ t.strip.getLast?, isSpace c = false := by
  constructor
  · intro c hc
    have hprefix : t.strip <+: t.dropWhile isSpace := List.rdropWhile_prefix _ _
    obtain ⟨rest, hrest⟩ := hprefix
    have hdrop := List.head?_dropWhile_not isSpace t
    rw [← hrest, List.head?_append, hc, Option.some_or] at hdrop
    simpa using hdrop
  · intro c hc
    have hne : t.strip ≠ [] := by
      rintro hnil
      rw [hnil] at hc
      cases hc
    have hlast := List.rdropWhile_last_not isSpace (t.dropWhile isSpace) hne
    rw [List.getLast?_eq_some_getLast hne] at hc
    obtain rfl := Option.some.inj hc
    exact Bool.not_eq_true _ ▸ hlast

theorem strip_within (t : Text) : t.strip <:+: t :=
  (List.rdropWhile_prefix _ _).isInfix.trans (List.dropWhile_suffix _).isInfix

theorem strip_of_ends {t : Text} (hhead : ∀ c ∈ t.head?, isSpace c = false)
    (hlast : ∀ c ∈ t.getLast?, isSpace c = false) : t.strip = t := by
  have hdrop : t.dropWhile isSpace = t := by
    cases t with
    | nil => rfl
    | cons c t => exact List.dropWhile_cons_of_neg (by simp [hhead c rfl])
  rw [strip, hdrop, List.rdropWhile_eq_self_iff]
  intro hne
  simp [hlast _ (List.getLast?_eq_some_getLast hne)]

theorem strip_strip (t : Text) : t.strip.strip = t.strip :=
  strip_of_ends (strip_ends t).1 (strip_ends t).2

/-! ### The order of texts -/

protected theorem le_total (s t : Text) : le s t = true ∨ le t s = true := by
  induction s generalizing t with
  | nil => exact .inl rfl
  | cons c s ih =>
    cases t with
    | nil => exact .inr rfl
    | cons d t =>
      simp only [le, Bool.or_eq_true, decide_eq_true_eq, Bool.and_eq_true, beq_iff_eq]
      rcases lt_trichotomy c d with hlt | rfl | hlt
      · exact .inl (.inl hlt)
      · exact (ih t).imp (fun h => .inr ⟨rfl, h⟩) fun h => .inr ⟨rfl, h⟩
      · exact .inr (.inl hlt)

protected theorem le_trans {s t r : Text} (hst : le s t = true) (htr : le t r = true) :
    le s r = true := by
  induction s generalizing t r with
  | nil => rfl
  | cons c s ih =>
    cases t with
    | nil => cases hst
    | cons d t =>
      cases r with
      | nil => cases htr
      | cons e r =>
        simp only [le, Bool.or_eq_true, decide_eq_true_eq, Bool.and_eq_true,
          beq_iff_eq] at hst htr ⊢
        rcases hst with hcd | ⟨rfl, hst⟩
        · rcases htr with hde | ⟨rfl, -⟩
          · exact .inl (hcd.trans hde)
          · exact .inl hcd
        · exact htr.imp_right fun h => ⟨h.1, ih hst h.2⟩

protected theorem le_antisymm {s t : Text} (hst : le s t = true) (hts : le t s = true) : s = t := by
  induction s generalizing t with
  | nil =>
    cases t with
    | nil => rfl
    | cons d t => cases hts
  | cons c s ih =>
    cases t with
    | nil => cases hst
    | cons d t =>
      simp only [le, Bool.or_eq_true, decide_eq_true_eq, Bool.and_eq_true,
        beq_iff_eq] at hst hts
      rcases hst with hcd | ⟨rfl, hst⟩
      · rcases hts with hdc | ⟨rfl, -⟩
        · exact absurd hdc (lt_asymm hcd)
        · exact absurd hcd (lt_irrefl _)
      · rw [ih hst (hts.resolve_left (lt_irrefl _)).2]

@[simp] theorem length_lower (s : Text) : s.lower.length = s.length := List.length_map _

end Text

/-- A value `json.loads` can return. A float that is not finite has no value. -/
inductive Json
  | null
  | bool (b : Bool)
  | int (n : ℤ)
  | float (x : Option ℚ)
  | str (s : Text)
  | arr (xs : List Json)
  | obj (kvs : List (Text × Json))

namespace Json

/-- `isinstance(value, Mapping)`. -/
def isMapping : Json → Bool
  | .obj _ => true
  | _ => false

/-- `value.get(key)` of a mapping; a value that is no mapping has no keys. -/
def get (key : Text) : Json → Option Json
  | .obj kvs => (kvs.find? fun kv => kv.1 == key).map Prod.snd
  | _ => none

end Json

end Tokenweir
