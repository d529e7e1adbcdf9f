import Tokenweir.Orchestrator.Normalization

/-!
# Canonical labels

The three notions of a canonical label: what `phase_label` writes, what the pattern of
`is_canonical_phase` matches, and what `normalize_phase` recognises and leaves as it is.

* `Tail`, `isCanonicalPhase_iff`, what the pattern matches;
* `phaseLabel_eq_ok`, what `phase_label` writes;
* `Stray`, what the pattern matches and nothing writes; `OneNotion`, `one_notion`.
-/

namespace Tokenweir.Orchestrator

open Regex

variable {u : Unicode}

/-! ### The pattern -/

/-- What the pattern allows after a kind: nothing, or a hyphen, a digit that is no zero, and any
decimal digits. -/
def Tail (u : Unicode) (tail : Text) : Prop :=
  tail = [] ∨ ∃ d ds, (49 ≤ d.val ∧ d.val ≤ 57) ∧ ds.all u.isDecimal = true ∧
    tail = hyphen :: d :: ds

def newline : Text := Text.of "\n"

theorem isCanonicalPhase_iff {v : Text} :
    isCanonicalPhase u v = true ↔ ∃ k tail end', Tail u tail ∧ (end' = [] ∨ end' = newline) ∧
      v = PhaseKind.value k ++ (tail ++ end') := by
  have hkinds : Reads (anyOf (literal PhaseKind.implementation.value)
      [literal PhaseKind.review.value, literal PhaseKind.fix.value])
      fun w => ∃ k : PhaseKind, w = k.value := by
    intro p q
    rw [anyOf, List.foldl_cons, List.foldl_cons, List.foldl_nil,
      ((reads_literal _).alt (reads_literal _)).alt (reads_literal _)]
    refine exists_congr fun w => and_congr_left fun _ => ⟨?_, ?_⟩
    · rintro ((h | h) | h)
      · exact ⟨_, h⟩
      · exact ⟨_, h⟩
      · exact ⟨_, h⟩
    · rintro ⟨k, rfl⟩
      cases k
      · exact .inl (.inl rfl)
      · exact .inl (.inr rfl)
      · exact .inr rfl
  have htail : Reads (opt (seq (char '-') (seq (one fun c => CodePoint.of '1' ≤ c && c ≤ CodePoint.of '9')
      (many true (one u.isDecimal))))) (Tail u) := by
    intro p q
    rw [reads_opt ((reads_char '-').seq ((reads_one _).seq (reads_many true _)))]
    refine exists_congr fun w => and_congr_left fun _ => Iff.trans ?_ or_comm
    refine or_congr_left ⟨?_, ?_⟩
    · rintro ⟨_, _, rfl, ⟨_, ds, ⟨d, hd, rfl⟩, hds, rfl⟩, rfl⟩
      rw [Bool.and_eq_true, decide_eq_true_eq, decide_eq_true_eq] at hd
      exact ⟨d, ds, hd, hds, rfl⟩
    · rintro ⟨d, ds, hd, hds, rfl⟩
      refine ⟨[hyphen], d :: ds, rfl, ⟨[d], ds, ⟨d, ?_, rfl⟩, hds, rfl⟩, rfl⟩
      rw [Bool.and_eq_true, decide_eq_true_eq, decide_eq_true_eq]
      exact hd
  rw [isCanonicalPhase, Option.isSome_iff_exists]
  have hmem : ∀ q, q ∈ results (canonicalRe u) ⟨v, []⟩ ↔ ∃ k tail, Tail u tail ∧
      (q.rest = [] ∨ q.rest = newline) ∧ v = PhaseKind.value k ++ (tail ++ q.rest) ∧ q.groups = [] := by
    intro q
    simp only [canonicalRe, Regex.all, List.foldr_cons, List.foldr_nil, mem_results_seq]
    constructor
    · rintro ⟨o₁, h₁, o₂, h₂, o₃, h₃, hq⟩
      obtain ⟨_, ⟨k, rfl⟩, hrest₁, hgroups₁⟩ := (hkinds _ _).1 h₁
      obtain ⟨tail, htail', hrest₂, hgroups₂⟩ := (htail _ _).1 h₂
      obtain ⟨rfl, hend⟩ := mem_results_finish.1 h₃
      obtain rfl := List.mem_singleton.1 hq
      refine ⟨k, tail, htail', hend, ?_, hgroups₂.trans hgroups₁⟩
      rw [← hrest₂]
      exact hrest₁
    · rintro ⟨k, tail, htail', hend, hv, hgroups⟩
      refine ⟨⟨tail ++ q.rest, []⟩, (hkinds _ _).2 ⟨_, ⟨k, rfl⟩, hv, rfl⟩, q,
        (htail _ _).2 ⟨tail, htail', rfl, hgroups⟩, q, mem_results_finish.2 ⟨rfl, hend⟩,
        List.mem_singleton_self q⟩
  constructor
  · rintro ⟨q, hq⟩
    obtain ⟨k, tail, htail', hend, hv, -⟩ := (hmem q).1 (mem_of_matchAt hq)
    exact ⟨k, tail, q.rest, htail', hend, hv⟩
  · rintro ⟨k, tail, end', htail', hend, hv⟩
    exact exists_matchAt ((hmem ⟨end', []⟩).2 ⟨k, tail, htail', hend, hv, rfl⟩)

/-! ### The printer -/

theorem phaseLabel_eq_ok {kind : PhaseArg} {n : Option ℤ} {l : Text} :
    phaseLabel u kind n = .ok l ↔ ∃ k, ∃ occurrence : Option ℕ, PhaseKind.coerce u kind = .ok k ∧
      Positive occurrence ∧ Writable occurrence ∧ n = occurrence.map Nat.cast ∧
        l = labelText k occurrence := by
  cases hk : PhaseKind.coerce u kind with
  | error e =>
    have herror : phaseLabel u kind n = .error e := by
      rw [phaseLabel, hk]
      rfl
    refine iff_of_false (by rw [herror]; nofun) ?_
    rintro ⟨_, _, ⟨⟩, -⟩
  | ok k =>
    rw [phaseLabel, hk]
    cases n with
    | none =>
      constructor
      · intro h
        obtain rfl := Except.ok.inj h
        exact ⟨k, none, rfl, by rintro _ ⟨⟩, by rintro _ ⟨⟩, rfl, rfl⟩
      · rintro ⟨_, occurrence, hk', -, -, hn, rfl⟩
        obtain rfl := Except.ok.inj hk'
        cases occurrence with
        | none => rfl
        | some n => cases hn
    | some n =>
      show (if n < 1 then .error (.occurrence n) else label k (some n.toNat)) = .ok l ↔ _
      split
      · rename_i hn
        refine iff_of_false nofun ?_
        rintro ⟨_, occurrence, -, hpos, -, hn', -⟩
        cases occurrence with
        | none => cases hn'
        | some m =>
          obtain rfl := Option.some.inj hn'
          have hm := hpos m rfl
          omega
      · rename_i hn
        have hcast : ((n.toNat : ℕ) : ℤ) = n := Int.toNat_of_nonneg (by omega)
        rw [label_eq_ok]
        constructor
        · rintro ⟨hwritable, rfl⟩
          refine ⟨k, some n.toNat, rfl, ?_, hwritable, ?_, rfl⟩
          · rintro _ ⟨⟩
            omega
          · rw [Option.map_some, hcast]
        · rintro ⟨_, occurrence, hk', hpos, hwritable, hn', rfl⟩
          obtain rfl := Except.ok.inj hk'
          cases occurrence with
          | none => cases hn'
          | some m =>
            obtain rfl := Option.some.inj hn'
            exact ⟨hwritable, rfl⟩

/-- A label is canonical. -/
theorem isCanonicalPhase_labelText (k : PhaseKind) {occurrence : Option ℕ} (h : Positive occurrence) :
    isCanonicalPhase u (labelText k occurrence) = true := by
  rw [isCanonicalPhase_iff]
  cases occurrence with
  | none =>
    refine ⟨k, [], [], .inl rfl, .inl rfl, ?_⟩
    rw [List.append_nil, List.append_nil]
    rfl
  | some n =>
    obtain ⟨d, ds, hdecimal, hd, hds⟩ := Text.decimal_cons (h n rfl)
    refine ⟨k, hyphen :: d :: ds, [], .inr ⟨d, ds, hd, ?_, rfl⟩, .inl rfl, ?_⟩
    · have hdigits := (digits_decimal (u := u) (h n rfl)).2
      rw [hdecimal, List.all_cons, Bool.and_eq_true] at hdigits
      exact hdigits.2
    · rw [List.append_nil, labelText, hdecimal]

/-! ### One notion -/

theorem digits_cons {d : CodePoint} {ds : Text} (hd : 49 ≤ d.val ∧ d.val ≤ 57)
    (hds : ds.all u.isDecimal = true) : Digits u (d :: ds) := by
  have hdigit : u.isDecimal d = true := by
    rw [Unicode.isDecimal_ascii (by omega), Text.isDigit, Bool.and_eq_true, decide_eq_true_eq,
      decide_eq_true_eq]
    omega
  refine ⟨List.cons_ne_nil d ds, ?_⟩
  rw [List.all_cons, hdigit, hds]
  rfl

theorem number_cons_pos {d : CodePoint} (hd : 49 ≤ d.val ∧ d.val ≤ 57) (ds : Text) :
    1 ≤ u.number (d :: ds) := by
  induction ds using List.reverseRecOn with
  | nil =>
    rw [Unicode.number_ascii]
    · exact Text.number_pos [] hd.1
    · rw [List.all_cons, Text.isDigit, List.all_nil, Bool.and_true, Bool.and_eq_true,
        decide_eq_true_eq, decide_eq_true_eq]
      omega
  | append_singleton ds c ih =>
    rw [Unicode.number] at ih
    rw [← List.cons_append, Unicode.number, List.foldl_append]
    show 1 ≤ _ * 10 + _
    omega

/-- What the pattern matches and `phase_label` does not write: a line that ends, digits that are not
of ASCII, or more digits than Python writes. -/
def Stray (u : Unicode) (v : Text) : Prop :=
  ∃ k tail end', Tail u tail ∧ (end' = [] ∨ end' = newline) ∧ v = PhaseKind.value k ++ (tail ++ end') ∧
    (end' = newline ∨ (∃ c ∈ tail, 128 ≤ c.val) ∨ maxDigits + 1 < tail.length)

/-- The three notions of a canonical label agree. -/
structure OneNotion (u : Unicode) (v : Text) : Prop where
  canonical_iff : isCanonicalPhase u v = true ↔ ∃ k n, phaseLabel u (.member k) n = .ok v
  label_iff : (∃ k n, phaseLabel u (.member k) n = .ok v) ↔
    normalizePhase u v = .ok (some v) ∧ Recognised u v

/-- What `phase_label` writes. -/
theorem exists_phaseLabel_iff {v : Text} :
    (∃ k n, phaseLabel u (.member k) n = .ok v) ↔
      ∃ k occurrence, Positive occurrence ∧ Writable occurrence ∧ v = labelText k occurrence := by
  constructor
  · rintro ⟨k, n, h⟩
    obtain ⟨k', occurrence, -, hpos, hwritable, -, hv⟩ := phaseLabel_eq_ok.1 h
    exact ⟨k', occurrence, hpos, hwritable, hv⟩
  · rintro ⟨k, occurrence, hpos, hwritable, hv⟩
    exact ⟨k, _, phaseLabel_eq_ok.2 ⟨k, occurrence, rfl, hpos, hwritable, rfl, hv⟩⟩

/-- The labels are what is recognised and left as it is. -/
theorem exists_phaseLabel_iff_fixed {v : Text} :
    (∃ k n, phaseLabel u (.member k) n = .ok v) ↔
      normalizePhase u v = .ok (some v) ∧ Recognised u v := by
  rw [exists_phaseLabel_iff]
  constructor
  · rintro ⟨k, occurrence, hpos, hwritable, rfl⟩
    exact normalizePhase_labelText k hpos hwritable
  · rintro ⟨hv, hrecognised⟩
    have hne : collapse v ≠ [] := by
      intro hnil
      rw [normalizePhase_nil hnil] at hv
      cases hv
    rcases normalizePhase_cases (u := u) hne with ⟨k, occurrence, -, hpos, -, -, -, hwritable, heq⟩ |
      ⟨-, -, heq⟩ | ⟨-, -, hnot, -⟩
    · exact ⟨k, occurrence, hpos, hwritable, Option.some.inj (Except.ok.inj (hv.symm.trans heq))⟩
    · rw [heq] at hv
      cases hv
    · exact absurd hrecognised hnot

/-- What the pattern matches is a label, if it is not stray. -/
theorem label_of_canonical {v : Text} (h : isCanonicalPhase u v = true) (hstray : ¬Stray u v) :
    ∃ k occurrence, Positive occurrence ∧ Writable occurrence ∧ v = labelText k occurrence := by
  obtain ⟨k, tail, end', htail, hend, hv⟩ := isCanonicalPhase_iff.1 h
  have hnot : ¬(end' = newline ∨ (∃ c ∈ tail, 128 ≤ c.val) ∨ maxDigits + 1 < tail.length) :=
    fun hwhy => hstray ⟨k, tail, end', htail, hend, hv, hwhy⟩
  rw [not_or, not_or] at hnot
  obtain rfl := hend.resolve_right hnot.1
  rw [List.append_nil] at hv
  rcases htail with rfl | ⟨d, ds, hd, hds, rfl⟩
  · rw [List.append_nil] at hv
    exact ⟨k, none, by rintro _ ⟨⟩, by rintro _ ⟨⟩, hv⟩
  · have hascii : ds.all Text.isDigit = true := by
      rw [List.all_eq_true] at hds ⊢
      intro c hc
      rw [← Unicode.isDecimal_ascii (u := u)]
      · exact hds c hc
      · by_contra hlarge
        exact hnot.2.1 ⟨c, List.mem_cons_of_mem _ (List.mem_cons_of_mem _ hc), not_lt.1 hlarge⟩
    have hdecimal := Text.decimal_number hd hascii
    refine ⟨k, some (Text.number (d :: ds)), ?_, ?_, ?_⟩
    · rintro _ ⟨⟩
      exact Text.number_pos ds hd.1
    · rintro _ ⟨⟩
      have hle := hnot.2.2
      rw [List.length_cons] at hle
      rw [hdecimal]
      omega
    · rw [hv, labelText, hdecimal]

/-- What is stray is no label. -/
theorem Stray.not_label {v : Text} (h : Stray u v) {k : PhaseKind} {occurrence : Option ℕ}
    (hpos : Positive occurrence) (hwritable : Writable occurrence) : v ≠ labelText k occurrence := by
  obtain ⟨k', tail, end', htail, hend, hv, hwhy⟩ := h
  intro heq
  have hplain : ∀ c ∈ v, PlainChar c := by
    rw [heq]
    exact plain_labelText k occurrence
  have hsmall : ∀ c : CodePoint, PlainChar c → 45 ≤ c.val ∧ c.val < 128 := by
    intro c hc
    unfold PlainChar at hc
    omega
  have hnewline : end' ≠ newline := by
    rintro rfl
    have hchar := hsmall _ (hplain (CodePoint.of '\n') (by
      rw [hv]
      exact List.mem_append_right _ (List.mem_append_right _ (List.mem_singleton_self _))))
    exact absurd hchar.1 (by decide)
  obtain rfl := hend.resolve_right hnewline
  rcases hwhy with hend | ⟨c, hc, hlarge⟩ | hlong
  · exact hnewline hend
  · have hchar := hsmall c (hplain c (by
      rw [hv]
      exact List.mem_append_right _ (List.mem_append_left _ hc)))
    omega
  · rcases htail with rfl | ⟨d, ds, hd, hds, rfl⟩
    · exact absurd hlong (Nat.not_lt_zero _)
    · -- its number has more digits than that of a label
      rw [List.append_nil] at hv
      have hall := (digits_cons hd hds).2
      have hlength := congrArg (fun t => (List.rtakeWhile u.isDecimal t).length) (hv.symm.trans heq)
      rw [rtakeWhile_digits hall (not_decimal_sep (.inl rfl))] at hlength
      rw [List.length_cons] at hlong
      cases occurrence with
      | none =>
        have hend := (word_of_kindOf (kindOf_value k)).rtakeWhile_eq_nil (u := u) []
        rw [labelText, ← List.nil_append k.value, hend] at hlength
        cases hlength
      | some n =>
        rw [labelText, rtakeWhile_digits (digits_decimal (hpos n rfl)).2 (not_decimal_sep (.inl rfl))]
          at hlength
        have hle := hwritable n rfl
        omega

theorem oneNotion_iff (u : Unicode) (v : Text) : OneNotion u v ↔ ¬Stray u v := by
  constructor
  · intro h hstray
    obtain ⟨k, tail, end', htail, hend, hv, -⟩ := id hstray
    have hcanonical : isCanonicalPhase u v = true :=
      isCanonicalPhase_iff.2 ⟨k, tail, end', htail, hend, hv⟩
    obtain ⟨k', occurrence, hpos, hwritable, heq⟩ :=
      exists_phaseLabel_iff.1 (h.canonical_iff.1 hcanonical)
    exact hstray.not_label hpos hwritable heq
  · intro hstray
    refine ⟨?_, exists_phaseLabel_iff_fixed⟩
    rw [exists_phaseLabel_iff]
    constructor
    · exact fun h => label_of_canonical h hstray
    · rintro ⟨k, occurrence, hpos, -, rfl⟩
      exact isCanonicalPhase_labelText k hpos

/-! ### What normalizing leads to -/

/-- `is_canonical_phase(normalize_phase(w))`, where it does not raise. -/
def normalizesToCanonical (u : Unicode) (w : Text) : Except OrchestratorError Bool :=
  (normalizePhase u w).map fun v => v.any (isCanonicalPhase u)

/-- A text that is kept is not canonical. -/
theorem not_canonical_of_kept {w : Text}
    (hkept : TooLongOrdinal u (folded u w) ∨
      ∀ k occurrence, Names u (folded u w) k occurrence → ¬Positive occurrence) :
    isCanonicalPhase u (collapse w) = false := by
  rw [Bool.eq_false_iff]
  intro hcanonical
  obtain ⟨k, tail, end', htail, hend, hw⟩ := isCanonicalPhase_iff.1 hcanonical
  have htidy := tidy_collapse w
  rw [hw, ← List.append_assoc] at htidy
  obtain rfl := htidy.no_newline hend
  rw [List.append_nil] at hw
  -- it names a kind, or a kind and a positive number, and does not begin with a digit
  obtain ⟨occurrence, hpos, hname⟩ : ∃ occurrence, Positive occurrence ∧
      Names u (PhaseKind.value k ++ tail) k occurrence := by
    rcases htail with rfl | ⟨d, ds, hd, hds, rfl⟩
    · rw [List.append_nil]
      exact ⟨none, by rintro _ ⟨⟩, .alone (kindOf_value k)⟩
    · have hdigits := digits_cons hd hds
      refine ⟨some (u.number (d :: ds)), ?_, .numbered (kindOf_value k) (.inl rfl) hdigits⟩
      rintro _ ⟨⟩
      exact number_cons_pos hd ds
  have hfolded : folded u w = PhaseKind.value k ++ tail := by
    rw [folded, hw]
    refine Unicode.lower_of_lowered fun c hc before after => ?_
    have hplain : PlainChar c → u.lowerAt before c after = [c] := fun hplain => by
      refine Unicode.lowered_ascii (s := [c]) (fun d hd => ?_) c (List.mem_singleton_self c) before after
      obtain rfl := List.mem_singleton.1 hd
      unfold PlainChar at hplain
      omega
    rcases List.mem_append.1 hc with hc | hc
    · exact hplain (plain_labelText k none c hc)
    · rcases htail with rfl | ⟨d, ds, hd, hds, rfl⟩
      · exact absurd hc List.not_mem_nil
      · rcases List.mem_cons.1 hc with rfl | hc
        · exact hplain (.inr (.inl rfl))
        · exact u.lowerAt_decimal before c after
            (List.all_eq_true.1 (digits_cons (u := u) hd hds).2 c hc)
  rw [hfolded] at hkept
  rcases hkept with hlong | hnone
  · have hdigits := hlong.digits
    rw [(word_of_kindOf (kindOf_value k)).takeWhile_eq_nil] at hdigits
    exact absurd hdigits (Nat.not_lt_zero _)
  · exact hnone k occurrence hname hpos

theorem Recognised.names {w : Text} (h : Recognised u w) :
    ∃ k occurrence, Names u (folded u w) k occurrence := by
  obtain ⟨k, occurrence, hparse⟩ := h
  rcases parsePhase_cases (tidy_folded (u := u) w) (lowered_folded w) with ⟨k', hname, -⟩ |
    ⟨k', n, hname, -⟩ | ⟨-, hparse'⟩ | ⟨-, hparse'⟩ | ⟨-, hparse'⟩
  · exact ⟨k', _, hname⟩
  · exact ⟨k', _, hname⟩
  · cases hparse.symm.trans hparse'
  · cases hparse.symm.trans hparse'
  · cases hparse.symm.trans hparse'

/-- **The labels**: `is_canonical_phase` knows what `phase_label` writes, and what `normalize_phase`
recognises and leaves as it is, but for what is stray; and what is normalized without an error is
canonical if and only if it was recognised. -/
theorem one_notion (u : Unicode) :
    (∀ v, OneNotion u v ↔ ¬Stray u v) ∧
    (∀ w, (∃ b, normalizesToCanonical u w = .ok b ∧ (b = true ↔ Recognised u w)) ↔
      ¬TooLongNumber u (folded u w)) ∧
    (∀ kind n l, phaseLabel u kind n = .ok l →
      isCanonicalPhase u l = true ∧ normalizePhase u l = .ok (some l)) ∧
    ∀ k n k' n' l, phaseLabel u (.member k) n = .ok l → phaseLabel u (.member k') n' = .ok l →
      k = k' ∧ n = n' := by
  refine ⟨oneNotion_iff u, fun w => ?_, fun kind n l h => ?_, fun k n k' n' l h h' => ?_⟩
  · by_cases hne : collapse w = []
    · have hnot : ∀ k occurrence, ¬Names u (folded u w) k occurrence := by
        intro k occurrence hname
        rw [folded, hne] at hname
        exact hname.ne_nil rfl
      refine iff_of_true ⟨false, ?_, iff_of_false Bool.false_ne_true fun hrecognised => ?_⟩ fun hlong => ?_
      · rw [normalizesToCanonical, normalizePhase_nil hne]
        rfl
      · obtain ⟨k, occurrence, hname⟩ := hrecognised.names
        exact hnot k occurrence hname
      · obtain ⟨k, n, hname⟩ := hlong.names
        exact hnot k _ hname
    · rcases normalizePhase_cases (u := u) hne with
        ⟨k, occurrence, -, hpos, hparse, hlong, -, -, hw⟩ | ⟨hlong, -, hw⟩ | ⟨hkept, hlong, hnot, hw⟩
      · refine iff_of_true ⟨true, ?_, iff_of_true rfl ⟨k, occurrence, hparse⟩⟩ hlong
        rw [normalizesToCanonical, hw]
        exact congrArg Except.ok (isCanonicalPhase_labelText k hpos)
      · refine iff_of_false ?_ fun hnot => hnot hlong
        rintro ⟨b, hb, -⟩
        rw [normalizesToCanonical, hw] at hb
        cases hb
      · refine iff_of_true ⟨false, ?_, iff_of_false Bool.false_ne_true hnot⟩ hlong
        rw [normalizesToCanonical, hw]
        exact congrArg Except.ok (not_canonical_of_kept hkept)
  · obtain ⟨k, occurrence, -, hpos, hwritable, -, rfl⟩ := phaseLabel_eq_ok.1 h
    exact ⟨isCanonicalPhase_labelText k hpos, (normalizePhase_labelText k hpos hwritable).1⟩
  · obtain ⟨_, occurrence, hk, hpos, -, rfl, rfl⟩ := phaseLabel_eq_ok.1 h
    obtain ⟨_, occurrence', hk', hpos', -, rfl, heq⟩ := phaseLabel_eq_ok.1 h'
    obtain rfl := Except.ok.inj hk
    obtain rfl := Except.ok.inj hk'
    obtain ⟨rfl, rfl⟩ := labelText_injective hpos hpos' heq
    exact ⟨rfl, rfl⟩

/-- A line that ends: the pattern matches it, and nothing writes it. -/
theorem not_oneNotion_newline : ¬OneNotion .ascii (Text.of "review\n") := by
  intro h
  obtain ⟨k, occurrence, -, -, heq⟩ :=
    exists_phaseLabel_iff.1 (h.canonical_iff.1 (by decide +kernel))
  have hplain := plain_labelText k occurrence (CodePoint.of '\n') (by rw [← heq]; decide +kernel)
  exact absurd hplain (by unfold PlainChar; decide)

end Tokenweir.Orchestrator
