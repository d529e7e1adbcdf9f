import Tokenweir.Lib.JsonText

/-!
# Writing JSON texts

`json.dumps` of Python, for strings, integers and objects of them: everything that is not
printable ASCII is escaped, and a code point beyond the first plane is a pair of surrogates.

* `escape`, `dumpString`; `PairFree`, the strings that are read back as they are;
* `dumpInt`; `dumpObject`;
* `writesString_dump`, `writes_dumpInt`, `writes_dumpObject`.
-/

namespace Tokenweir.JsonText

/-! ### Strings -/

/-- A hexadecimal digit. -/
def hexChar (n : ℕ) : CodePoint := Fin.ofNat 0x110000 (if n < 10 then 48 + n else 87 + n)

/-- An escape of a code unit. -/
def unitText (u : ℕ) : Text :=
  [backslash, CodePoint.of 'u', hexChar (u / 4096), hexChar (u / 256 % 16), hexChar (u / 16 % 16),
    hexChar (u % 16)]

/-- `ESCAPE_DCT`. -/
def escapes : List (CodePoint × CodePoint) :=
  [(backslash, backslash), (quote, quote), (8, CodePoint.of 'b'), (12, CodePoint.of 'f'),
    (10, CodePoint.of 'n'), (13, CodePoint.of 'r'), (9, CodePoint.of 't')]

def highSurrogate (c : CodePoint) : ℕ := 0xd800 + (c.val - 0x10000) / 0x400
def lowSurrogate (c : CodePoint) : ℕ := 0xdc00 + (c.val - 0x10000) % 0x400

/-- A code point of a string, as it is written. -/
def escape (c : CodePoint) : Text :=
  match escapes.lookup c with
  | some e => [backslash, e]
  | none =>
    if 0x20 ≤ c.val ∧ c.val ≤ 0x7e then [c]
    else if c.val < 0x10000 then unitText c.val
    else unitText (highSurrogate c) ++ unitText (lowSurrogate c)

/-- `py_encode_basestring_ascii`. -/
def dumpString (s : Text) : Text := quote :: (s.flatMap escape ++ [quote])

/-- The items that a code point is written as. -/
def units (c : CodePoint) : List Item :=
  match escapes.lookup c with
  | some _ => [(c, false)]
  | none =>
    if 0x20 ≤ c.val ∧ c.val ≤ 0x7e then [(c, false)]
    else if c.val < 0x10000 then [(c, true)]
    else [(Fin.ofNat 0x110000 (highSurrogate c), true), (Fin.ofNat 0x110000 (lowSurrogate c), true)]

/-- The string that is read back. -/
def readBack (s : Text) : Text := joinSurrogates (s.flatMap units)

/-- No high surrogate is followed by a low one. -/
def PairFree : Text → Prop
  | c :: d :: s => ¬(isHighSurrogate c = true ∧ isLowSurrogate d = true) ∧ PairFree (d :: s)
  | _ => True

instance decidablePairFree : ∀ s, Decidable (PairFree s)
  | [] => .isTrue trivial
  | [_] => .isTrue trivial
  | c :: d :: s =>
    have := decidablePairFree (d :: s)
    inferInstanceAs (Decidable (¬(isHighSurrogate c = true ∧ isLowSurrogate d = true) ∧
      PairFree (d :: s)))

theorem hexDigit_hexChar {n : ℕ} (h : n < 16) : hexDigit (hexChar n) = some n := by
  have hall : ∀ n < 16, hexDigit (hexChar n) = some n := by decide +kernel
  exact hall n h

theorem codeUnit_unitText {u : ℕ} (h : u < 0x10000) :
    codeUnit (hexChar (u / 4096)) (hexChar (u / 256 % 16)) (hexChar (u / 16 % 16))
      (hexChar (u % 16)) = some (Fin.ofNat 0x110000 u) := by
  rw [codeUnit, hexDigit_hexChar (by omega), hexDigit_hexChar (Nat.mod_lt _ (by decide)),
    hexDigit_hexChar (Nat.mod_lt _ (by decide)), hexDigit_hexChar (Nat.mod_lt _ (by decide))]
  show some (Fin.ofNat 0x110000 (((u / 4096 * 16 + u / 256 % 16) * 16 + u / 16 % 16) * 16 +
    u % 16)) = _
  refine congrArg (fun n => some (Fin.ofNat 0x110000 n)) ?_
  omega

theorem shortEscape_of_lookup {c e : CodePoint} (h : escapes.lookup c = some e) :
    shortEscape e = some c := by
  have hall : (escapes.all fun p => shortEscape p.2 == some p.1) = true := by decide +kernel
  have hmem : ∀ {l : List (CodePoint × CodePoint)}, l.lookup c = some e → (c, e) ∈ l := by
    intro l hl
    induction l with
    | nil => cases hl
    | cons p l ih =>
      rw [List.lookup_cons] at hl
      cases hp : c == p.1 with
      | true =>
        rw [hp] at hl
        obtain rfl := Option.some.inj hl
        rw [beq_iff_eq.1 hp]
        exact List.mem_cons_self
      | false =>
        rw [hp] at hl
        exact List.mem_cons_of_mem _ (ih hl)
  exact beq_iff_eq.1 (List.all_eq_true.1 hall (c, e) (hmem h))

/-- A code point is written as its items. -/
theorem spells_escape (c : CodePoint) {items : List Item} {t : Text} (h : Spells items t) :
    Spells (units c ++ items) (escape c ++ t) := by
  have hunit : ∀ {u : ℕ} {items : List Item} {t : Text}, u < 0x10000 → Spells items t →
      Spells ((Fin.ofNat 0x110000 u, true) :: items) (unitText u ++ t) :=
    fun hu ht => .unit (codeUnit_unitText hu) ht
  unfold units escape
  cases hlookup : escapes.lookup c with
  | some e => exact .short (shortEscape_of_lookup hlookup) h
  | none =>
    dsimp only
    split_ifs with hprintable hplane
    · refine .plain hprintable.1 ?_ ?_ h
      · rintro rfl
        exact absurd hlookup (by decide)
      · rintro rfl
        exact absurd hlookup (by decide)
    · have hc : Fin.ofNat 0x110000 c.val = c := Fin.ofNat_val_eq_self c
      have := hunit hplane h
      rwa [hc] at this
    · have hhigh : highSurrogate c < 0x10000 := by
        unfold highSurrogate
        omega
      have hlow : lowSurrogate c < 0x10000 := by
        unfold lowSurrogate
        omega
      rw [List.append_assoc]
      exact hunit hhigh (hunit hlow h)

/-- **What is written of a string** is a literal. -/
theorem writesString_readBack (s : Text) : WritesString (readBack s) (dumpString s) := by
  refine ⟨s.flatMap units, s.flatMap escape, ?_, rfl, rfl⟩
  induction s with
  | nil => exact .nil
  | cons c s ih =>
    rw [List.flatMap_cons, List.flatMap_cons]
    exact spells_escape c ih

theorem joinSurrogates_plain (c : CodePoint) (items : List Item) :
    joinSurrogates ((c, false) :: items) = c :: joinSurrogates items := by
  rcases items with _ | ⟨⟨d, _ | _⟩, items⟩ <;> simp [joinSurrogates]

theorem joinSurrogates_unit {c : CodePoint} {items : List Item}
    (h : ∀ d, items.head? = some (d, true) →
      ¬(isHighSurrogate c = true ∧ isLowSurrogate d = true)) :
    joinSurrogates ((c, true) :: items) = c :: joinSurrogates items := by
  rcases items with _ | ⟨⟨d, _ | _⟩, items⟩
  · rfl
  · rfl
  · rw [joinSurrogates, if_neg]
    rw [Bool.and_eq_true]
    exact h d rfl

/-- The first item of a string is its first code point, or a high surrogate. -/
theorem head?_units {c d : CodePoint} (items : List Item)
    (h : (units c ++ items).head? = some (d, true)) (hlow : isLowSurrogate d = true) : d = c := by
  unfold units at h
  cases hlookup : escapes.lookup c with
  | some e =>
    rw [hlookup] at h
    cases h
  | none =>
    rw [hlookup] at h
    dsimp only at h
    split_ifs at h
    · cases h
    · exact (Prod.mk.inj (Option.some.inj h)).1.symm
    · have hd := (Prod.mk.inj (Option.some.inj h)).1
      have hval : d.val = highSurrogate c := by
        rw [← hd]
        refine Nat.mod_eq_of_lt ?_
        unfold highSurrogate
        omega
      simp only [isLowSurrogate, Bool.and_eq_true, decide_eq_true_eq] at hlow
      unfold highSurrogate at hval
      omega

/-- A pair of surrogates is the code point that it is written for. -/
theorem joinPair_surrogates {c : CodePoint} (h : 0x10000 ≤ c.val) :
    isHighSurrogate (Fin.ofNat 0x110000 (highSurrogate c)) = true ∧
      isLowSurrogate (Fin.ofNat 0x110000 (lowSurrogate c)) = true ∧
      joinPair (Fin.ofNat 0x110000 (highSurrogate c)) (Fin.ofNat 0x110000 (lowSurrogate c)) =
        c := by
  have hhigh : (Fin.ofNat 0x110000 (highSurrogate c)).val = highSurrogate c := by
    refine Nat.mod_eq_of_lt ?_
    unfold highSurrogate
    omega
  have hlow : (Fin.ofNat 0x110000 (lowSurrogate c)).val = lowSurrogate c := by
    refine Nat.mod_eq_of_lt ?_
    unfold lowSurrogate
    omega
  refine ⟨?_, ?_, ?_⟩
  · simp only [isHighSurrogate, hhigh, Bool.and_eq_true, decide_eq_true_eq]
    unfold highSurrogate
    omega
  · simp only [isLowSurrogate, hlow, Bool.and_eq_true, decide_eq_true_eq]
    unfold lowSurrogate
    omega
  · have hsum : 0x10000 + (highSurrogate c - 0xd800) * 0x400 + (lowSurrogate c - 0xdc00) = c.val := by
      unfold highSurrogate lowSurrogate
      omega
    rw [joinPair, hhigh, hlow, hsum]
    exact Fin.ofNat_val_eq_self c

/-- A code point that is no first half of a pair is read back. -/
theorem readBack_cons {c : CodePoint} {s : Text}
    (h : ∀ d ∈ s.head?, ¬(isHighSurrogate c = true ∧ isLowSurrogate d = true)) :
    readBack (c :: s) = c :: readBack s := by
  have hnext : ∀ d, (s.flatMap units).head? = some (d, true) →
      ¬(isHighSurrogate c = true ∧ isLowSurrogate d = true) := by
    rintro d hd ⟨hc, hlow⟩
    cases s with
    | nil => cases hd
    | cons e s =>
      rw [List.flatMap_cons] at hd
      obtain rfl := head?_units _ hd hlow
      exact h d rfl ⟨hc, hlow⟩
  unfold readBack
  rw [List.flatMap_cons]
  conv_lhs => unfold units
  cases hlookup : escapes.lookup c with
  | some e =>
    dsimp only
    rw [List.singleton_append, joinSurrogates_plain]
    rfl
  | none =>
    dsimp only
    split_ifs with hprintable hplane
    · rw [List.singleton_append, joinSurrogates_plain]
      rfl
    · rw [List.singleton_append]
      exact joinSurrogates_unit hnext
    · obtain ⟨hhigh, hlow, hpair⟩ := joinPair_surrogates (not_lt.1 hplane)
      rw [List.cons_append, List.singleton_append, joinSurrogates, hhigh, hlow,
        if_pos (by decide), hpair]
      rfl

/-- A pair of surrogates is read back as one code point. -/
theorem readBack_pair {c d : CodePoint} {s : Text} (hc : isHighSurrogate c = true)
    (hd : isLowSurrogate d = true) : readBack (c :: d :: s) = joinPair c d :: readBack s := by
  have hunits : ∀ {e : CodePoint}, 0xd800 ≤ e.val → e.val ≤ 0xdfff → units e = [(e, true)] := by
    intro e hlow hhigh
    have hnone : escapes.lookup e = none := by
      refine List.lookup_eq_none_iff.2 fun p hp => bne_iff_ne.2 ?_
      have hsmall : (escapes.all fun p => p.1.val < 0xd800) = true := by decide
      rintro rfl
      have hlt := of_decide_eq_true (List.all_eq_true.1 hsmall p hp)
      omega
    rw [units, hnone]
    dsimp only
    rw [if_neg (by omega), if_pos (by omega)]
  have hc' := hc
  have hd' := hd
  simp only [isHighSurrogate, isLowSurrogate, Bool.and_eq_true, decide_eq_true_eq] at hc' hd'
  unfold readBack
  rw [List.flatMap_cons, List.flatMap_cons, hunits hc'.1 (by omega), hunits (by omega) hd'.2,
    List.singleton_append, List.singleton_append, joinSurrogates, hc, hd, if_pos (by decide)]

/-- **A string without a pair of surrogates** is read back as it is. -/
theorem readBack_eq_self {s : Text} (h : PairFree s) : readBack s = s := by
  induction s with
  | nil => rfl
  | cons c s ih =>
    cases s with
    | nil => exact readBack_cons fun d hd => by cases hd
    | cons d s =>
      rw [readBack_cons, ih h.2]
      rintro _ ⟨⟩
      exact h.1

/-- What is read back of a string is not longer, and shorter where there is a pair. -/
theorem length_readBack (s : Text) :
    (readBack s).length ≤ s.length ∧ ((readBack s).length = s.length → PairFree s) := by
  induction s using List.twoStepInduction with
  | nil => exact ⟨le_rfl, fun _ => trivial⟩
  | singleton c =>
    rw [readBack_cons fun d hd => by cases hd]
    exact ⟨le_rfl, fun _ => trivial⟩
  | cons_cons c d s ih ihTail =>
    by_cases hpair : isHighSurrogate c = true ∧ isLowSurrogate d = true
    · rw [readBack_pair hpair.1 hpair.2]
      have hle := ih.1
      simp only [List.length_cons]
      exact ⟨by omega, fun h => by omega⟩
    · obtain ⟨hle, hfree⟩ := ihTail d
      rw [readBack_cons (by rintro _ ⟨⟩; exact hpair)]
      simp only [List.length_cons] at hle hfree ⊢
      exact ⟨by omega, fun h => ⟨hpair, hfree (by omega)⟩⟩

/-- **The strings that are read back as they are** are those without a pair of surrogates. -/
theorem readBack_eq_self_iff {s : Text} : readBack s = s ↔ PairFree s :=
  ⟨fun h => (length_readBack s).2 (congrArg List.length h), readBack_eq_self⟩

/-- A string with a code point of some kind is read back as one, if all beyond the first plane are
of this kind. -/
theorem any_readBack {p : CodePoint → Bool} (hp : ∀ c : CodePoint, 0x10000 ≤ c.val → p c = true)
    {s : Text} (h : s.any p = true) : (readBack s).any p = true := by
  induction s using List.twoStepInduction with
  | nil => cases h
  | singleton c =>
    rw [readBack_cons fun d hd => by cases hd]
    exact h
  | cons_cons c d s ih ihTail =>
    by_cases hpair : isHighSurrogate c = true ∧ isLowSurrogate d = true
    · have hlarge : 0x10000 ≤ (joinPair c d).val := by
        obtain ⟨hc, hd⟩ := hpair
        simp only [isHighSurrogate, isLowSurrogate, Bool.and_eq_true, decide_eq_true_eq] at hc hd
        rw [joinPair, Fin.val_ofNat, Nat.mod_eq_of_lt (by omega)]
        omega
      rw [readBack_pair hpair.1 hpair.2, List.any_cons, hp _ hlarge, Bool.true_or]
    · rw [readBack_cons (by rintro _ ⟨⟩; exact hpair), List.any_cons]
      rw [List.any_cons, Bool.or_eq_true] at h
      rcases h with h | h
      · rw [h, Bool.true_or]
      · rw [ihTail d h, Bool.or_true]

/-- A string without a pair of surrogates is written. -/
theorem writesString_dump {s : Text} (h : PairFree s) : WritesString s (dumpString s) := by
  have hwrites := writesString_readBack s
  rwa [readBack_eq_self h] at hwrites

/-! ### Integers -/

/-- `int.__repr__` of a number that is not negative. -/
def digitsText (n : ℕ) : Text := if n = 0 then [CodePoint.of '0'] else Text.decimal n

/-- `int.__repr__`, of an integer that is not too long for it. -/
def dumpInt (n : ℤ) : Text := (if n < 0 then [minus] else []) ++ digitsText n.natAbs

theorem number_digitsText (n : ℕ) : Text.number (digitsText n) = n := by
  unfold digitsText
  split_ifs with hzero
  · rw [hzero]
    rfl
  · exact Text.number_decimal n

theorem digitsText_isDigit (n : ℕ) : (digitsText n).all Text.isDigit = true := by
  unfold digitsText
  split_ifs
  · rfl
  · exact Text.decimal_isDigit n

/-- The numeral of an integer. -/
def intNumeral (n : ℤ) : Numeral where
  negative := n < 0
  whole := digitsText n.natAbs
  fraction := none
  exponent := none
  whole_ne := by
    unfold digitsText
    split_ifs with hzero
    · exact List.cons_ne_nil _ _
    · obtain ⟨d, ds, hcons, -, -⟩ := Text.decimal_cons (Nat.pos_of_ne_zero hzero)
      rw [hcons]
      exact List.cons_ne_nil _ _
  whole_isDigit := digitsText_isDigit _
  whole_zero := by
    unfold digitsText
    split_ifs with hzero
    · exact fun _ => rfl
    · obtain ⟨d, ds, hcons, hd, -⟩ := Text.decimal_cons (Nat.pos_of_ne_zero hzero)
      rw [hcons]
      intro hhead
      obtain rfl := Option.some.inj hhead
      exact absurd hd.1 (by decide)
  fraction_ne := by rintro _ ⟨⟩
  fraction_isDigit := by rintro _ ⟨⟩

/-- **An integer of at most 4300 digits** is written. -/
theorem writes_dumpInt {n : ℤ} (h : (digitsText n.natAbs).length ≤ 4300) :
    Writes (dumpInt n) (.int n) := by
  have htext : (intNumeral n).text = dumpInt n := by
    rw [Numeral.text, dumpInt]
    simp [intNumeral, fractionText]
  have hsigned : signed (intNumeral n).negative (Text.number (digitsText n.natAbs)) = n := by
    rw [number_digitsText, signed]
    by_cases hneg : n < 0
    · simp only [intNumeral, hneg, decide_true, if_true]
      omega
    · simp only [intNumeral, hneg, decide_false]
      rw [if_neg Bool.false_ne_true]
      omega
  rw [← htext]
  refine .number ?_
  show numberValue _ (digitsText n.natAbs) none none = _
  rw [numberValue, if_pos h]
  exact congrArg (fun m => some (Json.int m)) hsigned

/-! ### Objects -/

/-- A member of an object, with the text of its value. -/
def dumpMember (m : Text × Text) : Text := dumpString m.1 ++ Text.of ": " ++ m.2

/-- `json.dumps` of an object, with the texts of its values and the separators that are the
default. -/
def dumpObject (ms : List (Text × Text)) : Text :=
  CodePoint.of '{' :: (Text.join (Text.of ", ") (ms.map dumpMember) ++ [CodePoint.of '}'])

/-- A member that writes a pair. -/
structure Dumped where
  key : Text
  value : Json
  text : Text
  key_pairFree : PairFree key
  writes : Writes text value

/-- One blank. -/
def oneBlank : Gap := ⟨Text.of " ", by decide⟩

/-- The member that a pair is written as, after some white space. -/
def Dumped.member (d : Dumped) (before : Gap) : Member where
  before := before
  key := d.key
  keyText := dumpString d.key
  beforeColon := ⟨[], by decide⟩
  afterColon := oneBlank
  value := d.value
  valueText := d.text
  after := ⟨[], by decide⟩
  writesKey := writesString_dump d.key_pairFree

theorem Dumped.member_text (d : Dumped) (before : Gap) :
    (d.member before).text = before.1 ++ dumpMember (d.key, d.text) := by
  rw [Member.text, dumpMember]
  simp only [Dumped.member, oneBlank, List.nil_append, List.append_nil, List.append_assoc]
  rfl

/-- The members of an object, with commas between them. -/
theorem exists_members {ds : List Dumped} (hne : ds ≠ []) (before : Gap) :
    ∃ ms : List Member, ms ≠ [] ∧ (∀ m ∈ ms, Writes m.valueText m.value) ∧
      ms.map Member.pair = ds.map (fun d => (d.key, d.value)) ∧
      commaSeparated (ms.map Member.text) =
        before.1 ++ Text.join (Text.of ", ") (ds.map fun d => dumpMember (d.key, d.text)) := by
  induction ds generalizing before with
  | nil => exact absurd rfl hne
  | cons d ds ih =>
    cases ds with
    | nil =>
      refine ⟨[d.member before], List.cons_ne_nil _ _, fun m hm => ?_, rfl, ?_⟩
      · rw [List.mem_singleton.1 hm]
        exact d.writes
      · show (d.member before).text = _
        rw [Dumped.member_text]
        simp [Text.join]
    | cons e ds =>
      obtain ⟨ms, hms, hwrites, hpairs, htext⟩ := ih (List.cons_ne_nil _ _) oneBlank
      obtain ⟨m, ms, rfl⟩ := List.exists_cons_of_ne_nil hms
      refine ⟨d.member before :: m :: ms, List.cons_ne_nil _ _, fun n hn => ?_, ?_, ?_⟩
      · rcases List.mem_cons.1 hn with rfl | hn
        · exact d.writes
        · exact hwrites n hn
      · rw [List.map_cons, hpairs]
        rfl
      · rw [List.map_cons] at htext
        rw [List.map_cons, List.map_cons, commaSeparated, htext, Dumped.member_text]
        simp only [Text.join, List.map_cons, List.intersperse_cons_cons, List.flatten_cons,
          List.append_assoc]
        rfl

/-- **An object** with members is written. -/
theorem writes_dumpObject {ds : List Dumped} (hne : ds ≠ []) :
    Writes (dumpObject (ds.map fun d => (d.key, d.text)))
      (.obj (dictOf (ds.map fun d => (d.key, d.value)))) := by
  obtain ⟨ms, hms, hwrites, hpairs, htext⟩ := exists_members hne ⟨[], by decide⟩
  have hobject := Writes.object hms hwrites
  rw [hpairs, htext] at hobject
  rw [dumpObject, List.map_map]
  exact hobject

/-- An object whose keys differ is read back as its members. -/
theorem writes_dumpObject_of_nodup {ds : List Dumped} (hne : ds ≠ [])
    (hnodup : (ds.map Dumped.key).Nodup) :
    Writes (dumpObject (ds.map fun d => (d.key, d.text)))
      (.obj (ds.map fun d => (d.key, d.value))) := by
  have hobject := writes_dumpObject hne
  rw [dictOf_eq_self] at hobject
  · exact hobject
  · rwa [List.map_map]

end Tokenweir.JsonText
