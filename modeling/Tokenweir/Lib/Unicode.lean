import Tokenweir.Lib.Text

/-!
# Letters and digits

What programs know of Unicode beyond white space: the lower case of a letter, which can depend on
the letters around it, and the values of the decimal digits. The tables grow from one version of
Unicode to the next; what all of them have in common is part of their type.

* `Unicode`, `Unicode.lower`, `Unicode.number`; `Unicode.ascii`, the smallest tables;
* `Unicode.Lowered`, `Unicode.lower_of_lowered`.
-/

namespace Tokenweir

/-- The tables of a version of Unicode. -/
structure Unicode where
  /-- The lower case of a code point between two texts. -/
  lowerAt : Text → CodePoint → Text → Text
  /-- The value of a decimal digit. -/
  decimal : CodePoint → Option (Fin 10)
  lowerAt_ascii : ∀ before c after, c.val < 128 → lowerAt before c after = Text.lower [c]
  lowerAt_ne : ∀ before c after, lowerAt before c after ≠ []
  /-- No letter becomes white space. -/
  lowerAt_solid : ∀ before c after, Text.isSpace c = false →
    ∀ d ∈ lowerAt before c after, Text.isSpace d = false
  /-- What is in lower case stays as it is. -/
  lowerAt_lower : ∀ before c after, ∀ d ∈ lowerAt before c after,
    ∀ before' after', lowerAt before' d after' = [d]
  /-- A digit has no case. -/
  lowerAt_decimal : ∀ before c after, (decimal c).isSome → lowerAt before c after = [c]
  decimal_ascii : ∀ c, c.val < 128 →
    decimal c = if Text.isDigit c then some (Fin.ofNat 10 (c.val - 48)) else none
  /-- The first digits after those of ASCII are the Arabic ones. -/
  decimal_other : ∀ c, 128 ≤ c.val → c.val < 0x660 → decimal c = none

namespace Unicode

/-- The lower case of a text that follows another one. -/
def lowerFrom (u : Unicode) : Text → Text → Text
  | _, [] => []
  | before, c :: s => u.lowerAt before c s ++ u.lowerFrom (before ++ [c]) s

/-- `str.lower`. -/
def lower (u : Unicode) (s : Text) : Text := u.lowerFrom [] s

/-- A decimal digit. -/
def isDecimal (u : Unicode) (c : CodePoint) : Bool := (u.decimal c).isSome

/-- The number some digits write. -/
def number (u : Unicode) (s : Text) : ℕ :=
  s.foldl (fun n c => n * 10 + ((u.decimal c).map Fin.val).getD 0) 0

theorem lower_idem (c : CodePoint) : ∀ d ∈ Text.lower [c], Text.lower [d] = [d] := by
  intro d hd
  obtain rfl := List.mem_singleton.1 hd
  simp only [Text.lower, List.map_cons, List.map_nil]
  split
  · rw [if_neg]
    simp only [Fin.val_ofNat]
    omega
  · rfl

theorem isSpace_lower {c : CodePoint} (h : Text.isSpace c = false) :
    ∀ d ∈ Text.lower [c], Text.isSpace d = false := by
  intro d hd
  obtain rfl := List.mem_singleton.1 hd
  dsimp only
  split
  · unfold Text.isSpace
    simp only [Fin.val_ofNat, Bool.or_eq_false_iff, Bool.and_eq_false_iff, decide_eq_false_iff_not,
      beq_eq_false_iff_ne]
    omega
  · exact h

theorem lower_ne_nil (c : CodePoint) : Text.lower [c] ≠ [] :=
  List.cons_ne_nil _ _

/-- The digits of ASCII. -/
def asciiDecimal (c : CodePoint) : Option (Fin 10) :=
  if Text.isDigit c then some (Fin.ofNat 10 (c.val - 48)) else none

theorem lower_of_asciiDecimal {c : CodePoint} (h : (asciiDecimal c).isSome) :
    Text.lower [c] = [c] := by
  have hdigit : Text.isDigit c = true := by
    by_contra hno
    rw [asciiDecimal, if_neg hno] at h
    cases h
  simp only [Text.isDigit, Bool.and_eq_true, decide_eq_true_eq] at hdigit
  rw [Text.lower, List.map_singleton, if_neg (by omega)]

theorem asciiDecimal_eq_none {c : CodePoint} (h : 128 ≤ c.val) : asciiDecimal c = none := by
  refine if_neg ?_
  simp only [Text.isDigit, Bool.and_eq_true, decide_eq_true_eq]
  omega

/-- The letters and the digits of ASCII, and no others. -/
def ascii : Unicode where
  lowerAt _ c _ := Text.lower [c]
  decimal := asciiDecimal
  lowerAt_ascii _ _ _ _ := rfl
  lowerAt_ne _ c _ := lower_ne_nil c
  lowerAt_solid _ _ _ h := isSpace_lower h
  lowerAt_lower _ c _ d hd _ _ := lower_idem c d hd
  lowerAt_decimal _ _ _ h := lower_of_asciiDecimal h
  decimal_ascii _ _ := rfl
  decimal_other _ h _ := asciiDecimal_eq_none h

variable {u : Unicode}

/-! ### Lower case -/

/-- A text in lower case. -/
def Lowered (u : Unicode) (s : Text) : Prop := ∀ c ∈ s, ∀ before after, u.lowerAt before c after = [c]

theorem lowerFrom_of_lowered {s : Text} (h : u.Lowered s) (before : Text) :
    u.lowerFrom before s = s := by
  induction s generalizing before with
  | nil => rfl
  | cons c s ih =>
    rw [lowerFrom, h c List.mem_cons_self, ih fun d hd => h d (List.mem_cons_of_mem c hd)]
    rfl

theorem lower_of_lowered {s : Text} (h : u.Lowered s) : u.lower s = s := lowerFrom_of_lowered h []

theorem lowered_lowerFrom (before s : Text) : u.Lowered (u.lowerFrom before s) := by
  induction s generalizing before with
  | nil => exact fun _ hc => absurd hc List.not_mem_nil
  | cons c s ih =>
    intro d hd
    rcases List.mem_append.1 hd with hd | hd
    · exact u.lowerAt_lower before c s d hd
    · exact ih _ d hd

theorem lowered_lower (s : Text) : u.Lowered (u.lower s) := lowered_lowerFrom [] s

/-- A text of ASCII without capital letters is in lower case. -/
theorem lowered_ascii {s : Text} (h : ∀ c ∈ s, c.val < 128 ∧ ¬(65 ≤ c.val ∧ c.val ≤ 90)) :
    u.Lowered s := by
  intro c hc before after
  rw [u.lowerAt_ascii before c after (h c hc).1, Text.lower, List.map_singleton, if_neg (h c hc).2]

/-! ### Digits -/

theorem isDecimal_ascii {c : CodePoint} (h : c.val < 128) : u.isDecimal c = Text.isDigit c := by
  rw [isDecimal, u.decimal_ascii c h]
  cases Text.isDigit c <;> rfl

/-- The value of some digits of ASCII. -/
theorem number_ascii {s : Text} (h : s.all Text.isDigit = true) : u.number s = Text.number s := by
  have hfold : ∀ n, s.foldl (fun n c => n * 10 + ((u.decimal c).map Fin.val).getD 0) n =
      s.foldl (fun n c => n * 10 + (c.val - 48)) n := by
    induction s with
    | nil => exact fun _ => rfl
    | cons c s ih =>
      rw [List.all_cons, Bool.and_eq_true] at h
      intro n
      have hc := h.1
      simp only [Text.isDigit, Bool.and_eq_true, decide_eq_true_eq] at hc
      rw [List.foldl_cons, List.foldl_cons, ih h.2, u.decimal_ascii c (by omega), if_pos h.1]
      refine congrArg (fun m => s.foldl _ (n * 10 + m)) ?_
      show (c.val - 48) % 10 = c.val - 48
      omega
  exact hfold 0

end Unicode

end Tokenweir
