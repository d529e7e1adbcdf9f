import Tokenweir.Orchestrator.Grammar

/-!
# Normalizing a phase

`normalize_phase` as a parser of the grammar of phases.

* `labelText`, `names_labelText`; `Recognised`;
* `normalizePhase_cases`, `normalizePhase_labelText`, `normalizePhase_idem`;
* `Unconvertible`, `Exact`, `normalizePhase_exact`.
-/

namespace Tokenweir.Orchestrator

open Regex

variable {u : Unicode}

/-! ### Labels -/

/-- The label of a kind and an occurrence. -/
def labelText (k : PhaseKind) : Option ℕ → Text
  | none => k.value
  | some n => k.value ++ hyphen :: Text.decimal n

/-- An occurrence that Python can write. -/
def Writable (occurrence : Option ℕ) : Prop := ∀ n ∈ occurrence, (Text.decimal n).length ≤ maxDigits

theorem label_eq_ok {k : PhaseKind} {occurrence : Option ℕ} {l : Text} :
    label k occurrence = .ok l ↔ Writable occurrence ∧ l = labelText k occurrence := by
  cases occurrence with
  | none =>
    constructor
    · intro h
      obtain rfl := Except.ok.inj h
      exact ⟨by rintro _ ⟨⟩, rfl⟩
    · rintro ⟨-, rfl⟩
      rfl
  | some n =>
    rw [label, str]
    split
    · rename_i h
      constructor
      · intro hl
        obtain rfl := Except.ok.inj hl
        exact ⟨by rintro _ ⟨⟩; exact h, rfl⟩
      · rintro ⟨-, rfl⟩
        rfl
    · rename_i h
      refine iff_of_false nofun fun hl => h (hl.1 n rfl)

theorem decimal_ne {n : ℕ} (h : 1 ≤ n) : Text.decimal n ≠ [] := by
  intro hnil
  have hnumber := Text.number_decimal n
  rw [hnil] at hnumber
  have hzero : n = 0 := hnumber.symm
  omega

theorem digits_decimal {n : ℕ} (h : 1 ≤ n) : Digits u (Text.decimal n) := by
  refine ⟨decimal_ne h, ?_⟩
  have hdigit := Text.decimal_isDigit n
  rw [List.all_eq_true] at hdigit ⊢
  intro c hc
  have hc' := hdigit c hc
  have hval := hc'
  simp only [Text.isDigit, Bool.and_eq_true, decide_eq_true_eq] at hval
  rw [Unicode.isDecimal_ascii (by omega)]
  exact hc'

theorem number_decimal (n : ℕ) : u.number (Text.decimal n) = n := by
  rw [Unicode.number_ascii (Text.decimal_isDigit n), Text.number_decimal]

theorem kindOf_value (k : PhaseKind) : kindOf k.value = some k := by
  cases k <;> decide +kernel

/-- **A label** names what it is the label of. -/
theorem names_labelText (k : PhaseKind) {occurrence : Option ℕ} (h : Positive occurrence) :
    Names u (labelText k occurrence) k occurrence := by
  cases occurrence with
  | none => exact .alone (kindOf_value k)
  | some n =>
    have hname := Names.numbered (u := u) (kindOf_value k) (.inl rfl) (digits_decimal (h n rfl))
    rwa [number_decimal] at hname

/-- A small letter, a hyphen or a digit. -/
def PlainChar (c : CodePoint) : Prop :=
  (97 ≤ c.val ∧ c.val ≤ 122) ∨ c.val = 45 ∨ (48 ≤ c.val ∧ c.val ≤ 57)

theorem PlainChar.solid {c : CodePoint} (h : PlainChar c) : Text.isSpace c = false := by
  unfold PlainChar at h
  unfold Text.isSpace
  simp only [Bool.or_eq_false_iff, Bool.and_eq_false_iff, decide_eq_false_iff_not,
    beq_eq_false_iff_ne]
  omega

theorem PlainChar.foldSeparator {c : CodePoint} (h : PlainChar c) : foldSeparator c = c := by
  refine if_neg ?_
  unfold PlainChar at h
  rintro (rfl | rfl)
  · exact absurd h (by decide)
  · exact absurd h (by decide)

theorem collapse_plain {t : Text} (h : ∀ c ∈ t, PlainChar c) : collapse t = t := by
  refine collapse_eq_self ⟨⟨?_, ?_⟩, ?_, ?_⟩ fun c hc => (h c hc).foldSeparator
  · intro c hc hspace
    rw [(h c hc).solid] at hspace
    cases hspace
  · refine List.Pairwise.isChain (List.pairwise_of_forall_mem_list fun c hc _ _ hboth => ?_)
    rw [(h c hc).solid] at hboth
    cases hboth.1
  · exact fun c hc => (h c (List.mem_of_mem_head? hc)).solid
  · exact fun c hc => (h c (List.mem_of_getLast? hc)).solid

theorem lower_plain {t : Text} (h : ∀ c ∈ t, PlainChar c) : u.lower t = t := by
  refine Unicode.lower_of_lowered (Unicode.lowered_ascii fun c hc => ?_)
  have hplain := h c hc
  unfold PlainChar at hplain
  omega

/-- What a label consists of. -/
theorem plain_labelText (k : PhaseKind) (occurrence : Option ℕ) :
    ∀ c ∈ labelText k occurrence, PlainChar c := by
  have hvalue : ∀ c ∈ k.value, PlainChar c := by
    have hall : k.value.all (fun c => 97 ≤ c.val && c.val ≤ 122) = true := by
      cases k <;> decide +kernel
    intro c hc
    exact .inl (by simpa using List.all_eq_true.1 hall c hc)
  cases occurrence with
  | none => exact hvalue
  | some n =>
    intro c hc
    rcases List.mem_append.1 hc with hc | hc
    · exact hvalue c hc
    · rcases List.mem_cons.1 hc with rfl | hc
      · exact .inr (.inl rfl)
      · have hdigit := List.all_eq_true.1 (Text.decimal_isDigit n) c hc
        simp only [Text.isDigit, Bool.and_eq_true, decide_eq_true_eq] at hdigit
        exact .inr (.inr hdigit)

theorem collapse_labelText (k : PhaseKind) (occurrence : Option ℕ) :
    collapse (labelText k occurrence) = labelText k occurrence :=
  collapse_plain (plain_labelText k occurrence)

theorem lower_labelText (k : PhaseKind) (occurrence : Option ℕ) :
    u.lower (labelText k occurrence) = labelText k occurrence :=
  lower_plain (plain_labelText k occurrence)

/-- Two labels are different. -/
theorem labelText_injective {k k' : PhaseKind} {occurrence occurrence' : Option ℕ}
    (h : Positive occurrence) (h' : Positive occurrence')
    (heq : labelText k occurrence = labelText k' occurrence') :
    k = k' ∧ occurrence = occurrence' := by
  have hname := names_labelText (u := .ascii) k h
  rw [heq] at hname
  exact hname.unique (names_labelText k' h')

/-! ### Normalization -/

/-- The text that the parser is given. -/
def folded (u : Unicode) (v : Text) : Text := u.lower (collapse v)

theorem tidy_folded (v : Text) : Tidy (folded u v) := tidy_lower (tidy_collapse v)

theorem lowered_folded (v : Text) : u.Lowered (folded u v) := Unicode.lowered_lower _

/-- The parser has found a kind, alone or with an occurrence. -/
def Recognised (u : Unicode) (v : Text) : Prop :=
  ∃ k occurrence, parsePhase u (folded u v) = .ok { kind := some k, occurrence := occurrence }

theorem number_lt {ds : Text} : u.number ds < 10 ^ ds.length := by
  induction ds using List.reverseRecOn with
  | nil => exact Nat.one_pos
  | append_singleton ds c ih =>
    have hdigit : ((u.decimal c).map Fin.val).getD 0 < 10 := by
      cases u.decimal c with
      | none => exact Nat.succ_pos _
      | some d => exact d.isLt
    rw [Unicode.number, List.foldl_append, List.length_append, List.length_singleton, pow_succ]
    rw [Unicode.number] at ih
    show _ * 10 + _ < _
    omega

/-- A number that the parser could convert can be written. -/
theorem Names.occurrence_writable {t : Text} {k : PhaseKind} {n : ℕ} (h : Names u t k (some n))
    (hnumber : ¬TooLongNumber u t) (hordinal : ¬TooLongOrdinal u t) :
    (Text.decimal n).length ≤ maxDigits := by
  apply Text.length_decimal_le
  rcases h.ends with ⟨⟨⟩, -⟩ | ⟨ds, a, hds, hk, hn, ht, -⟩ | ⟨a, sep, ds, hk, hsep, hds, hn, ht, -⟩
  · have hle : ds.length ≤ maxDigits := by
      by_contra hlong
      exact hordinal ⟨ds, a, k, hds, hk, not_le.1 hlong, ht⟩
    rw [Option.some.inj hn]
    exact number_lt.trans_le (Nat.pow_le_pow_right (by decide) hle)
  · have hle : ds.length ≤ maxDigits := by
      by_contra hlong
      exact hnumber ⟨a, k, sep, ds, hk, hsep, hds, not_le.1 hlong, ht⟩
    rw [Option.some.inj hn]
    exact number_lt.trans_le (Nat.pow_le_pow_right (by decide) hle)

theorem numbered_pos {k : PhaseKind} {n : ℕ} (h : 1 ≤ n) :
    ParsedPhase.numbered k n = { kind := some k, occurrence := some n } := if_neg (by omega)

theorem numbered_zero (k : PhaseKind) :
    ParsedPhase.numbered k 0 = { kind := some k, badOccurrence := true } := if_pos (by decide)

theorem normalizePhase_nil {v : Text} (h : collapse v = []) : normalizePhase u v = .ok none :=
  if_pos h

/-- What is not recognised is kept. -/
theorem normalizePhase_kept {v : Text} {parsed : ParsedPhase} (hne : collapse v ≠ [])
    (h : parsePhase u (folded u v) = .ok parsed)
    (hkept : parsed.kind = none ∨ parsed.badOccurrence = true) :
    normalizePhase u v = .ok (some (collapse v)) := by
  obtain ⟨kind, occurrence, bad⟩ := parsed
  rw [normalizePhase, if_neg hne]
  show (parsePhase u (folded u v) >>= _) = _
  rw [h]
  rcases hkept with rfl | rfl
  · rfl
  · cases kind <;> rfl

theorem normalizePhase_recognised {v : Text} {k : PhaseKind} {occurrence : Option ℕ}
    (hne : collapse v ≠ [])
    (h : parsePhase u (folded u v) = .ok { kind := some k, occurrence := occurrence })
    (hwritable : Writable occurrence) :
    normalizePhase u v = .ok (some (labelText k occurrence)) := by
  rw [normalizePhase, if_neg hne]
  show (parsePhase u (folded u v) >>= _) = _
  rw [h]
  show (label k occurrence).map some = _
  rw [label_eq_ok.2 ⟨hwritable, rfl⟩]
  rfl

/-- **What becomes of a phase**: its label, an error, or what was written. -/
theorem normalizePhase_cases {v : Text} (hne : collapse v ≠ []) :
    (∃ k occurrence, Names u (folded u v) k occurrence ∧ Positive occurrence ∧
        parsePhase u (folded u v) = .ok { kind := some k, occurrence := occurrence } ∧
        ¬TooLongNumber u (folded u v) ∧ ¬TooLongOrdinal u (folded u v) ∧
        Writable occurrence ∧ normalizePhase u v = .ok (some (labelText k occurrence))) ∨
      (TooLongNumber u (folded u v) ∧ parsePhase u (folded u v) = .error .tooManyDigits ∧
        normalizePhase u v = .error .tooManyDigits) ∨
      ((TooLongOrdinal u (folded u v) ∨ ∀ k occurrence, Names u (folded u v) k occurrence →
          ¬Positive occurrence) ∧
        ¬TooLongNumber u (folded u v) ∧ ¬Recognised u v ∧
        normalizePhase u v = .ok (some (collapse v))) := by
  have hnot : ∀ {parsed : ParsedPhase}, parsePhase u (folded u v) = .ok parsed →
      parsed.kind = none ∨ parsed.badOccurrence = true → ¬Recognised u v := by
    rintro parsed hparsed hkept ⟨k, occurrence, hrecognised⟩
    obtain rfl := Except.ok.inj (hparsed.symm.trans hrecognised)
    rcases hkept with ⟨⟨⟩⟩ | ⟨⟨⟩⟩
  rcases parsePhase_cases (tidy_folded (u := u) v) (lowered_folded v) with ⟨k, hname, hparse⟩ |
    ⟨k, n, hname, hnumber, hordinal, hparse⟩ | ⟨hnumber, hparse⟩ | ⟨hordinal, hparse⟩ |
    ⟨hnone, hparse⟩
  · have hwritable : Writable none := by rintro _ ⟨⟩
    refine .inl ⟨k, none, hname, by rintro _ ⟨⟩, hparse, fun hlong => ?_, fun hlong => ?_, hwritable,
      normalizePhase_recognised hne hparse hwritable⟩
    · obtain ⟨k', n, hname'⟩ := hlong.names
      cases (hname.unique hname').2
    · obtain ⟨k', n, hname'⟩ := hlong.names
      cases (hname.unique hname').2
  · rcases Nat.eq_zero_or_pos n with rfl | hpos
    · rw [numbered_zero] at hparse
      refine .inr (.inr ⟨.inr fun k' occurrence hname' => ?_, hnumber, hnot hparse (.inr rfl),
        normalizePhase_kept hne hparse (.inr rfl)⟩)
      obtain ⟨-, rfl⟩ := hname.unique hname'
      exact fun hpos => absurd (hpos 0 rfl) (by decide)
    · rw [numbered_pos hpos] at hparse
      have hwritable : Writable (some n) := by
        rintro _ ⟨⟩
        exact hname.occurrence_writable hnumber hordinal
      refine .inl ⟨k, some n, hname, ?_, hparse, hnumber, hordinal, hwritable,
        normalizePhase_recognised hne hparse hwritable⟩
      rintro _ ⟨⟩
      exact hpos
  · refine .inr (.inl ⟨hnumber, hparse, ?_⟩)
    rw [normalizePhase, if_neg hne]
    show (parsePhase u (folded u v) >>= _) = _
    rw [hparse]
    rfl
  · exact .inr (.inr ⟨.inl hordinal, hordinal.not_number, hnot hparse (.inl rfl),
      normalizePhase_kept hne hparse (.inl rfl)⟩)
  · refine .inr (.inr ⟨.inr fun k occurrence hname => absurd hname (hnone k occurrence),
      fun hlong => ?_, hnot hparse (.inl rfl), normalizePhase_kept hne hparse (.inl rfl)⟩)
    obtain ⟨k, n, hname⟩ := hlong.names
    exact hnone k (some n) hname

/-! ### The exact parser -/

/-- Digits that Python does not convert: a number after the kind, or an ordinal that is no zero. -/
def Unconvertible (u : Unicode) (t : Text) : Prop :=
  TooLongNumber u t ∨ TooLongOrdinal u t ∧ ∀ k, ¬Names u t k (some 0)

/-- What `normalize_phase` does with a text, if it is an exact parser of the grammar. -/
structure Exact (u : Unicode) (v : Text) : Prop where
  total : ∃ r, normalizePhase u v = .ok r
  idempotent : ∀ w, normalizePhase u v = .ok (some w) → normalizePhase u w = .ok (some w)
  none_iff : normalizePhase u v = .ok none ↔ ∀ c ∈ v, isSeparator c = true
  label_iff : ∀ k occurrence, Positive occurrence →
    (normalizePhase u v = .ok (some (labelText k occurrence)) ↔ Names u (folded u v) k occurrence)
  kept : (∃ c ∈ v, isSeparator c = false) →
    (∀ k occurrence, Names u (folded u v) k occurrence → ¬Positive occurrence) →
    normalizePhase u v = .ok (some (collapse v))

/-- The label of a text that names a phase is named by it. -/
theorem names_of_kept {v : Text} {k : PhaseKind} {occurrence : Option ℕ} (hpos : Positive occurrence)
    (h : collapse v = labelText k occurrence) : Names u (folded u v) k occurrence := by
  rw [folded, h, lower_labelText]
  exact names_labelText k hpos

/-- No label begins with a digit. -/
theorem takeWhile_labelText (k : PhaseKind) (occurrence : Option ℕ) :
    (labelText k occurrence).takeWhile u.isDecimal = [] := by
  have hword := word_of_kindOf (kindOf_value k)
  cases occurrence with
  | none =>
    have hfront := hword.takeWhile_eq_nil (u := u) []
    rwa [List.append_nil] at hfront
  | some n => exact hword.takeWhile_eq_nil _

/-- **A label** is left as it is. -/
theorem normalizePhase_labelText (k : PhaseKind) {occurrence : Option ℕ} (hpos : Positive occurrence)
    (hwritable : Writable occurrence) :
    normalizePhase u (labelText k occurrence) = .ok (some (labelText k occurrence)) ∧
      Recognised u (labelText k occurrence) := by
  have hname : Names u (labelText k occurrence) k occurrence := names_labelText k hpos
  have hfolded : folded u (labelText k occurrence) = labelText k occurrence := by
    rw [folded, collapse_labelText, lower_labelText]
  have hne : collapse (labelText k occurrence) ≠ [] := by
    rw [collapse_labelText]
    exact hname.ne_nil
  rcases normalizePhase_cases (u := u) hne with ⟨k', occurrence', hname', -, hparse, -, -, -, hv⟩ |
    ⟨hlong, -, -⟩ | ⟨hlong | hnone, -, -, -⟩
  · rw [hfolded] at hname'
    obtain ⟨rfl, rfl⟩ := hname.unique hname'
    exact ⟨hv, k, occurrence, hparse⟩
  · rw [hfolded] at hlong
    obtain ⟨k', n, hname'⟩ := hlong.names
    obtain ⟨rfl, rfl⟩ := hname.unique hname'
    have hdigits := hlong.digits
    rw [labelText, rtakeWhile_digits (digits_decimal (hpos n rfl)).2 (not_decimal_sep (.inl rfl))]
      at hdigits
    exact absurd (hwritable n rfl) (not_le.2 hdigits)
  · rw [hfolded] at hlong
    have hdigits := hlong.digits
    rw [takeWhile_labelText] at hdigits
    exact absurd hdigits (Nat.not_lt_zero _)
  · rw [hfolded] at hnone
    exact absurd hpos (hnone k occurrence hname)

/-- Normalizing is done once. -/
theorem normalizePhase_idem {v w : Text} (h : normalizePhase u v = .ok (some w)) :
    normalizePhase u w = .ok (some w) := by
  by_cases hne : collapse v = []
  · rw [normalizePhase_nil hne] at h
    cases h
  · rcases normalizePhase_cases (u := u) hne with
      ⟨k, occurrence, -, hpos, -, -, -, hwritable, hv⟩ | ⟨-, -, hv⟩ | ⟨-, -, -, hv⟩
    · rw [hv] at h
      obtain rfl := Option.some.inj (Except.ok.inj h)
      exact (normalizePhase_labelText k hpos hwritable).1
    · rw [hv] at h
      cases h
    · obtain rfl := Option.some.inj (Except.ok.inj (hv.symm.trans h))
      rw [normalizePhase] at h ⊢
      rw [collapse_collapse]
      exact h

theorem normalizePhase_tooLong {v : Text} (h : TooLongNumber u (folded u v)) :
    normalizePhase u v = .error .tooManyDigits := by
  have hne : collapse v ≠ [] := by
    intro hnil
    obtain ⟨k, n, hname⟩ := h.names
    rw [folded, hnil] at hname
    exact hname.ne_nil rfl
  rcases normalizePhase_cases (u := u) hne with ⟨_, _, -, -, -, hlong, -⟩ | ⟨-, -, hv⟩ |
    ⟨-, hlong, -⟩
  · exact absurd h hlong
  · exact hv
  · exact absurd h hlong

/-- The parser is exact on every text but those with digits that Python does not convert. -/
theorem exact_iff (u : Unicode) (v : Text) : Exact u v ↔ ¬Unconvertible u (folded u v) := by
  constructor
  · rintro h (hlong | ⟨hlong, hzero⟩)
    · obtain ⟨r, hr⟩ := h.total
      rw [normalizePhase_tooLong hlong] at hr
      cases hr
    · obtain ⟨k, n, hname⟩ := hlong.names
      have hpos : Positive (some n) := by
        rintro _ ⟨⟩
        refine Nat.pos_of_ne_zero ?_
        rintro rfl
        exact hzero k hname
      have hlabel := (h.label_iff k (some n) hpos).2 hname
      have hne : collapse v ≠ [] := by
        intro hnil
        rw [normalizePhase_nil hnil] at hlabel
        cases hlabel
      -- it is kept as it was written, and begins with a digit
      rcases normalizePhase_cases (u := u) hne with ⟨_, _, -, -, -, -, hnot, -⟩ | ⟨-, -, hv⟩ |
        ⟨-, -, -, hv⟩
      · exact hnot hlong
      · rw [hv] at hlabel
        cases hlabel
      · have heq := Option.some.inj (Except.ok.inj (hv.symm.trans hlabel))
        have hdigits := hlong.digits
        rw [folded, heq, lower_labelText, takeWhile_labelText] at hdigits
        exact absurd hdigits (Nat.not_lt_zero _)
  · intro h
    rw [Unconvertible, not_or, not_and] at h
    by_cases hne : collapse v = []
    · have hnil := normalizePhase_nil (u := u) hne
      refine ⟨⟨_, hnil⟩, fun w => normalizePhase_idem, iff_of_true hnil (collapse_eq_nil.1 hne), ?_, ?_⟩
      · intro k occurrence _
        refine iff_of_false (by rw [hnil]; nofun) fun hname => ?_
        rw [folded, hne] at hname
        exact hname.ne_nil rfl
      · rintro ⟨c, hc, hsolid⟩
        rw [collapse_eq_nil.1 hne c hc] at hsolid
        cases hsolid
    · have hnone : ∀ w, normalizePhase u v = .ok (some w) →
          (normalizePhase u v = .ok none ↔ ∀ c ∈ v, isSeparator c = true) := by
        intro w hw
        exact iff_of_false (by rw [hw]; nofun) (mt collapse_eq_nil.2 hne)
      rcases normalizePhase_cases (u := u) hne with
        ⟨k, occurrence, hname, hpos, -, -, -, -, hv⟩ | ⟨hlong, -, -⟩ | ⟨hkept, -, -, hv⟩
      · refine ⟨⟨_, hv⟩, fun w => normalizePhase_idem, hnone _ hv, ?_, ?_⟩
        · intro k' occurrence' hpos'
          rw [hv]
          constructor
          · intro heq
            obtain ⟨rfl, rfl⟩ :=
              labelText_injective hpos hpos' (Option.some.inj (Except.ok.inj heq))
            exact hname
          · intro hname'
            obtain ⟨rfl, rfl⟩ := hname.unique hname'
            rfl
        · exact fun _ hno => absurd hpos (hno k occurrence hname)
      · exact absurd hlong h.1
      · refine ⟨⟨_, hv⟩, fun w => normalizePhase_idem, hnone _ hv, ?_, fun _ _ => hv⟩
        intro k occurrence hpos
        constructor
        · intro heq
          exact names_of_kept hpos (Option.some.inj (Except.ok.inj (hv.symm.trans heq)))
        · intro hname
          rcases hkept with hlong | hno
          · refine absurd (fun k' hzero => ?_) (h.2 hlong)
            obtain ⟨-, rfl⟩ := hname.unique hzero
            exact absurd (hpos 0 rfl) (by decide)
          · exact absurd hpos (hno k occurrence hname)

/-- **`normalize_phase` is an exact parser** of every text but those with digits that Python does
not convert; so two texts that name phases have one label if and only if they name the same one. -/
theorem normalizePhase_exact (u : Unicode) :
    (∀ v, Exact u v ↔ ¬Unconvertible u (folded u v)) ∧
    ∀ v w k occurrence k' occurrence', Positive occurrence → Positive occurrence' →
      Exact u v → Exact u w → Names u (folded u v) k occurrence →
      Names u (folded u w) k' occurrence' →
        (normalizePhase u v = normalizePhase u w ↔ k = k' ∧ occurrence = occurrence') := by
  refine ⟨exact_iff u, fun v w k occurrence k' occurrence' hpos hpos' hv hw hname hname' => ?_⟩
  rw [(hv.label_iff k occurrence hpos).2 hname, (hw.label_iff k' occurrence' hpos').2 hname']
  constructor
  · intro heq
    exact labelText_injective hpos hpos' (Option.some.inj (Except.ok.inj heq))
  · rintro ⟨rfl, rfl⟩
    rfl

/-- A kind and 4301 digits, which Python does not convert. -/
def longReview : Text := PhaseKind.review.value ++ hyphen :: List.replicate 4301 (CodePoint.of '1')

theorem plain_longReview : ∀ c ∈ longReview, PlainChar c := by
  intro c hc
  rcases List.mem_append.1 hc with hc | hc
  · exact plain_labelText .review none c hc
  · rcases List.mem_cons.1 hc with rfl | hc
    · exact .inr (.inl rfl)
    · rw [List.eq_of_mem_replicate hc]
      exact .inr (.inr (by decide))

/-- `normalize_phase` raises there. -/
theorem not_exact_longReview : ¬Exact .ascii longReview := by
  intro h
  obtain ⟨r, hr⟩ := h.total
  have hlong : TooLongNumber .ascii (folded .ascii longReview) := by
    rw [folded, collapse_plain plain_longReview, lower_plain plain_longReview]
    refine ⟨_, .review, hyphen, _, kindOf_value .review, .inl rfl, ⟨?_, ?_⟩, ?_, rfl⟩
    · exact List.cons_ne_nil _ _
    · rw [List.all_replicate]
      decide
    · rw [List.length_replicate]
      decide
  rw [normalizePhase_tooLong hlong] at hr
  cases hr

end Tokenweir.Orchestrator
