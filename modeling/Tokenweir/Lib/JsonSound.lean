import Tokenweir.Lib.JsonText

/-!
# What the decoder reads

The decoder reads nothing but what the grammar writes, so that `json.loads` of a string returns a
value exactly for the documents that write it.

* `spells_of_scanItems`, `numeral_of_scanNumber`, the tokens;
* `Scans`, what a call of the scanner has read; `scans`, by induction on its calls;
* `loads_eq_some_iff`.
-/

namespace Tokenweir.JsonText

/-! ### Tokens -/

/-- The scanner of a string stops at the quote that closes it. -/
theorem spells_of_scanItems {s rest : Text} {items : List Item}
    (h : scanItems s = some (items, rest)) :
    ∃ body, s = body ++ quote :: rest ∧ Spells items body := by
  induction s using scanItems.induct generalizing items with
  | case1 => cases h
  | case2 s =>
    rw [scanItems.eq_def] at h
    dsimp only at h
    rw [if_pos rfl] at h
    cases h
    exact ⟨[], rfl, .nil⟩
  | case3 hquote =>
    rw [scanItems.eq_def] at h
    dsimp only at h
    rw [if_neg hquote, if_pos rfl] at h
    cases h
  | case4 a b c d s hquote ih =>
    rw [scanItems.eq_def] at h
    dsimp only at h
    rw [if_neg hquote, if_pos rfl, if_pos rfl] at h
    obtain ⟨u, hu, h⟩ := Option.bind_eq_some_iff.1 h
    obtain ⟨r, hr, h⟩ := Option.map_eq_some_iff.1 h
    cases h
    obtain ⟨body, rfl, hbody⟩ := ih hr
    exact ⟨_, rfl, .unit hu hbody⟩
  | case5 s hs hquote =>
    rw [scanItems.eq_def] at h
    dsimp only at h
    rw [if_neg hquote, if_pos rfl, if_pos rfl] at h
    split at h
    · rename_i a b c d s
      exact absurd rfl (hs a b c d s)
    · cases h
  | case6 e s hunit hquote ih =>
    rw [scanItems.eq_def] at h
    dsimp only at h
    rw [if_neg hquote, if_pos rfl, if_neg hunit] at h
    obtain ⟨c, hc, h⟩ := Option.bind_eq_some_iff.1 h
    obtain ⟨r, hr, h⟩ := Option.map_eq_some_iff.1 h
    cases h
    obtain ⟨body, rfl, hbody⟩ := ih hr
    exact ⟨_, rfl, .short hc hbody⟩
  | case7 c s hquote hbackslash hcontrol =>
    rw [scanItems.eq_def] at h
    dsimp only at h
    rw [if_neg hquote, if_neg hbackslash, if_pos hcontrol] at h
    cases h
  | case8 c s hquote hbackslash hcontrol ih =>
    rw [scanItems.eq_def] at h
    dsimp only at h
    rw [if_neg hquote, if_neg hbackslash, if_neg hcontrol] at h
    obtain ⟨r, hr, h⟩ := Option.map_eq_some_iff.1 h
    cases h
    obtain ⟨body, rfl, hbody⟩ := ih hr
    exact ⟨_, rfl, .plain (not_lt.1 hcontrol) hquote hbackslash hbody⟩

theorem writesString_of_scanString {s t rest : Text} (h : scanString s = some (t, rest)) :
    ∃ u, quote :: s = u ++ rest ∧ WritesString t u := by
  obtain ⟨⟨items, rest'⟩, hr, h⟩ := Option.map_eq_some_iff.1 h
  cases h
  obtain ⟨body, rfl, hbody⟩ := spells_of_scanItems hr
  exact ⟨quote :: (body ++ [quote]), by simp, items, body, hbody, rfl, rfl⟩

theorem scanDigits_eq (s : Text) : s = (scanDigits s).1 ++ (scanDigits s).2 :=
  List.takeWhile_append_dropWhile.symm

theorem scanDigits_isDigit (s : Text) : (scanDigits s).1.all Text.isDigit = true := by
  rw [List.all_eq_true]
  exact fun c hc => List.mem_takeWhile_imp hc

theorem scanMinus_eq (s : Text) :
    s = (if (scanMinus s).1 then [minus] else []) ++ (scanMinus s).2 := by
  cases s with
  | nil => rfl
  | cons c s =>
    by_cases hc : c = minus
    · rw [scanMinus, if_pos hc, hc]
      rfl
    · rw [scanMinus, if_neg hc]
      rfl

/-- The digits of a number, without superfluous zeros. -/
theorem whole_of_scanWhole {s whole rest : Text} (h : scanWhole s = some (whole, rest)) :
    s = whole ++ rest ∧ whole ≠ [] ∧ whole.all Text.isDigit = true ∧
      (whole.head? = some (CodePoint.of '0') → whole = [CodePoint.of '0']) := by
  cases s with
  | nil => cases h
  | cons c s =>
    rw [scanWhole] at h
    split_ifs at h with hzero hdigit
    · cases h
      exact ⟨rfl, List.cons_ne_nil _ _, by rw [hzero]; rfl, fun _ => by rw [hzero]⟩
    · have hsplit := scanDigits_eq (c :: s)
      have hdigits := scanDigits_isDigit (c :: s)
      obtain ⟨ds, hds⟩ : ∃ ds, (scanDigits (c :: s)).1 = c :: ds :=
        ⟨_, List.takeWhile_cons_of_pos hdigit⟩
      rw [Option.some.inj h] at hsplit hdigits hds
      dsimp only at hsplit hdigits hds
      refine ⟨hsplit, by rw [hds]; exact List.cons_ne_nil _ _, hdigits, fun hhead => ?_⟩
      rw [hds] at hhead
      exact absurd (Option.some.inj hhead) hzero

theorem fraction_of_scanFraction (s : Text) :
    s = fractionText (scanFraction s).1 ++ (scanFraction s).2 ∧
      (∀ f ∈ (scanFraction s).1, f ≠ []) ∧
      ∀ f ∈ (scanFraction s).1, f.all Text.isDigit = true := by
  cases s with
  | nil => exact ⟨rfl, by simp [scanFraction], by simp [scanFraction]⟩
  | cons c s =>
    rw [scanFraction]
    split_ifs with h
    · refine ⟨?_, ?_, ?_⟩
      · rw [h.1]
        exact congrArg (CodePoint.of '.' :: ·) (scanDigits_eq s)
      · rintro _ ⟨⟩
        exact h.2
      · rintro _ ⟨⟩
        exact scanDigits_isDigit s
    · exact ⟨rfl, by simp, by simp⟩

theorem sign_of_scanSign (s : Text) : ∃ sign : Option Bool, s = signText sign ++ (scanSign s).2 ∧
    decide (sign = some true) = (scanSign s).1 := by
  cases s with
  | nil => exact ⟨none, rfl, rfl⟩
  | cons c s =>
    rw [scanSign]
    split_ifs with hminus hplus
    · exact ⟨some true, by rw [hminus]; rfl, rfl⟩
    · exact ⟨some false, by rw [hplus]; rfl, rfl⟩
    · exact ⟨none, rfl, rfl⟩

theorem exponent_of_scanExponent (s : Text) : ∃ e : Option Exponent,
    s = e.elim [] Exponent.text ++ (scanExponent s).2 ∧
      e.map Exponent.value = (scanExponent s).1 := by
  cases s with
  | nil => exact ⟨none, rfl, rfl⟩
  | cons c s =>
    rw [scanExponent]
    split_ifs with h
    · obtain ⟨sign, hs, hsign⟩ := sign_of_scanSign s
      let e : Exponent := ⟨decide (c = CodePoint.of 'E'), sign, _, h.2, scanDigits_isDigit _⟩
      refine ⟨some e, ?_, ?_⟩
      · have hletter : c = if e.capital then CodePoint.of 'E' else CodePoint.of 'e' := by
          rcases h.1 with rfl | rfl <;> rfl
        show c :: s = _ :: (signText sign ++ (scanDigits (scanSign s).2).1) ++ _
        rw [List.cons_append, List.append_assoc, ← scanDigits_eq, ← hs]
        exact congrArg (· :: s) hletter
      · show some (signed (decide (sign = some true)) _) = _
        rw [hsign]
    · exact ⟨none, rfl, rfl⟩

/-- The scanner of a number has read one. -/
theorem numeral_of_scanNumber {s rest : Text} {v : Json} (h : scanNumber s = some (v, rest)) :
    ∃ n : Numeral, s = n.text ++ rest ∧ n.value = some v := by
  obtain ⟨⟨whole, s'⟩, hwhole, h⟩ := Option.bind_eq_some_iff.1 h
  dsimp only at h
  obtain ⟨v', hvalue, h⟩ := Option.bind_eq_some_iff.1 h
  cases h
  obtain ⟨hsplit, hne, hdigit, hzero⟩ := whole_of_scanWhole hwhole
  obtain ⟨hfraction, hfne, hfdigit⟩ := fraction_of_scanFraction s'
  obtain ⟨e, hexponent, he⟩ := exponent_of_scanExponent (scanFraction s').2
  refine ⟨⟨(scanMinus s).1, whole, (scanFraction s').1, e, hne, hdigit, hzero, hfne, hfdigit⟩,
    ?_, ?_⟩
  · rw [Numeral.text, List.append_assoc, List.append_assoc, List.append_assoc, ← hexponent,
      ← hfraction, ← hsplit]
    exact scanMinus_eq s
  · rw [Numeral.value, he]
    exact hvalue

theorem literal_of_scanLiteral {s rest : Text} {v : Json} (h : scanLiteral s = some (v, rest)) :
    ∃ t, s = t ++ rest ∧ (t, v) ∈ literals := by
  obtain ⟨l, hl, h⟩ := Option.map_eq_some_iff.1 h
  cases h
  have hfound := List.find?_some hl
  obtain ⟨tail, htail⟩ := List.isPrefixOf_iff_prefix.1 hfound
  refine ⟨l.1, ?_, List.mem_of_find?_eq_some hl⟩
  rw [← htail, List.drop_left]

/-! ### Values -/

/-- The white space at the front. -/
theorem exists_gap (s : Text) : ∃ g : Gap, s = g.1 ++ skipSpace s := by
  refine ⟨⟨s.takeWhile isSpace, ?_⟩, List.takeWhile_append_dropWhile.symm⟩
  rw [List.all_eq_true]
  exact fun c hc => List.mem_takeWhile_imp hc

theorem eq_cons_of_after {c : Char} {s rest : Text} (h : Text.after c s = some rest) :
    s = CodePoint.of c :: rest := by
  cases s with
  | nil => cases h
  | cons d s =>
    rw [Text.after] at h
    split_ifs at h with hd
    rw [hd, Option.some.inj h]

/-- **What the scanner has read**, with so many calls at most. -/
structure Scans (fuel : ℕ) : Prop where
  once : ∀ {s rest v}, scanOnce fuel s = some (v, rest) → ∃ t, s = t ++ rest ∧ Writes t v
  members : ∀ {s rest pairs}, scanMembers fuel s = some (pairs, rest) → ∀ g : Gap,
    ∃ ms : List Member, ms ≠ [] ∧ (∀ m ∈ ms, Writes m.valueText m.value) ∧
      ms.map Member.pair = pairs ∧
      g.1 ++ s = commaSeparated (ms.map Member.text) ++ CodePoint.of '}' :: rest
  elements : ∀ {s rest vs}, scanElements fuel s = some (vs, rest) → ∀ g : Gap,
    ∃ es : List Element, es ≠ [] ∧ (∀ e ∈ es, Writes e.valueText e.value) ∧
      es.map Element.value = vs ∧
      g.1 ++ s = commaSeparated (es.map Element.text) ++ CodePoint.of ']' :: rest

section Calls

variable {fuel : ℕ}

/-- A value, from the calls that it makes. -/
theorem Scans.scanOnce (h : Scans fuel) {s rest : Text} {v : Json}
    (hscan : scanOnce (fuel + 1) s = some (v, rest)) : ∃ t, s = t ++ rest ∧ Writes t v := by
  cases s with
  | nil => cases hscan
  | cons c s =>
    rw [JsonText.scanOnce] at hscan
    split_ifs at hscan with hquote hobject harray
    · obtain ⟨⟨t, rest'⟩, hstring, hscan⟩ := Option.map_eq_some_iff.1 hscan
      cases hscan
      obtain ⟨u, hu, hwrites⟩ := writesString_of_scanString hstring
      exact ⟨u, by rw [hquote, hu], .string hwrites⟩
    · obtain ⟨g, hg⟩ := exists_gap s
      split at hscan
      · rename_i s' hafter
        cases hscan
        rw [eq_cons_of_after hafter] at hg
        exact ⟨_, by rw [hobject, hg]; simp, .emptyObject g⟩
      · obtain ⟨⟨pairs, rest'⟩, hmembers, hscan⟩ := Option.map_eq_some_iff.1 hscan
        cases hscan
        obtain ⟨ms, hne, hwrites, rfl, htext⟩ := h.members hmembers g
        exact ⟨_, by rw [hobject, hg, htext]; simp, .object hne hwrites⟩
    · obtain ⟨g, hg⟩ := exists_gap s
      split at hscan
      · rename_i s' hafter
        cases hscan
        rw [eq_cons_of_after hafter] at hg
        exact ⟨_, by rw [harray, hg]; simp, .emptyArray g⟩
      · obtain ⟨⟨vs, rest'⟩, helements, hscan⟩ := Option.map_eq_some_iff.1 hscan
        cases hscan
        obtain ⟨es, hne, hwrites, rfl, htext⟩ := h.elements helements g
        exact ⟨_, by rw [harray, hg, htext]; simp, .array hne hwrites⟩
    · rcases Option.or_eq_some_iff.1 hscan with hliteral | ⟨-, hnumber⟩
      · obtain ⟨t, ht, hmem⟩ := literal_of_scanLiteral hliteral
        exact ⟨t, ht, .literal hmem⟩
      · obtain ⟨n, hn, hvalue⟩ := numeral_of_scanNumber hnumber
        exact ⟨_, hn, .number hvalue⟩

/-- The members of an object, from the calls that they make. -/
theorem Scans.scanMembers (h : Scans fuel) {s rest : Text} {pairs : List (Text × Json)}
    (hscan : scanMembers (fuel + 1) s = some (pairs, rest)) (g : Gap) :
    ∃ ms : List Member, ms ≠ [] ∧ (∀ m ∈ ms, Writes m.valueText m.value) ∧
      ms.map Member.pair = pairs ∧
      g.1 ++ s = commaSeparated (ms.map Member.text) ++ CodePoint.of '}' :: rest := by
  rw [JsonText.scanMembers] at hscan
  obtain ⟨s₁, hs₁, hscan⟩ := Option.bind_eq_some_iff.1 hscan
  obtain ⟨⟨key, s₂⟩, hkey, hscan⟩ := Option.bind_eq_some_iff.1 hscan
  obtain ⟨s₃, hs₃, hscan⟩ := Option.bind_eq_some_iff.1 hscan
  obtain ⟨⟨v, s₄⟩, hv, hscan⟩ := Option.bind_eq_some_iff.1 hscan
  obtain ⟨keyText, hkeyText, hwritesKey⟩ := writesString_of_scanString hkey
  obtain ⟨beforeColon, hbeforeColon⟩ := exists_gap s₂
  obtain ⟨afterColon, hafterColon⟩ := exists_gap s₃
  obtain ⟨valueText, hvalueText, hwrites⟩ := h.once hv
  obtain ⟨after, hafter⟩ := exists_gap s₄
  let m : Member := ⟨g, key, keyText, beforeColon, afterColon, v, valueText, after, hwritesKey⟩
  -- the text up to what follows the member
  have hm : g.1 ++ s = m.text ++ skipSpace s₄ := by
    have hquote : CodePoint.of '"' :: s₁ = keyText ++ s₂ := hkeyText
    rw [eq_cons_of_after hs₁, hquote, hbeforeColon, eq_cons_of_after hs₃, hafterColon, hvalueText]
    conv_lhs => rw [hafter]
    simp [m, Member.text]
  dsimp only at hscan
  split at hscan
  · rename_i s₅ hcomma
    obtain ⟨⟨pairs', rest'⟩, hmembers, hscan⟩ := Option.map_eq_some_iff.1 hscan
    cases hscan
    obtain ⟨before, hbefore⟩ := exists_gap s₅
    obtain ⟨ms, hne, hwritesAll, rfl, htext⟩ := h.members hmembers before
    obtain ⟨m', ms, rfl⟩ := List.exists_cons_of_ne_nil hne
    refine ⟨m :: m' :: ms, List.cons_ne_nil _ _, List.forall_mem_cons.2 ⟨hwrites, hwritesAll⟩,
      rfl, ?_⟩
    rw [hm, eq_cons_of_after hcomma, hbefore, htext]
    simp [commaSeparated]
  · obtain ⟨s₅, hbrace, hscan⟩ := Option.map_eq_some_iff.1 hscan
    cases hscan
    refine ⟨[m], List.cons_ne_nil _ _, List.forall_mem_singleton.2 hwrites, rfl, ?_⟩
    rw [hm, eq_cons_of_after hbrace]
    rfl

/-- The elements of an array, from the calls that they make. -/
theorem Scans.scanElements (h : Scans fuel) {s rest : Text} {vs : List Json}
    (hscan : scanElements (fuel + 1) s = some (vs, rest)) (g : Gap) :
    ∃ es : List Element, es ≠ [] ∧ (∀ e ∈ es, Writes e.valueText e.value) ∧
      es.map Element.value = vs ∧
      g.1 ++ s = commaSeparated (es.map Element.text) ++ CodePoint.of ']' :: rest := by
  rw [JsonText.scanElements] at hscan
  obtain ⟨⟨v, s₁⟩, hv, hscan⟩ := Option.bind_eq_some_iff.1 hscan
  obtain ⟨valueText, hvalueText, hwrites⟩ := h.once hv
  obtain ⟨after, hafter⟩ := exists_gap s₁
  let e : Element := ⟨g, v, valueText, after⟩
  have he : g.1 ++ s = e.text ++ skipSpace s₁ := by
    rw [hvalueText]
    conv_lhs => rw [hafter]
    simp [e, Element.text]
  dsimp only at hscan
  split at hscan
  · rename_i s₂ hcomma
    obtain ⟨⟨vs', rest'⟩, helements, hscan⟩ := Option.map_eq_some_iff.1 hscan
    cases hscan
    obtain ⟨before, hbefore⟩ := exists_gap s₂
    obtain ⟨es, hne, hwritesAll, rfl, htext⟩ := h.elements helements before
    obtain ⟨e', es, rfl⟩ := List.exists_cons_of_ne_nil hne
    refine ⟨e :: e' :: es, List.cons_ne_nil _ _, List.forall_mem_cons.2 ⟨hwrites, hwritesAll⟩,
      rfl, ?_⟩
    rw [he, eq_cons_of_after hcomma, hbefore, htext]
    simp [commaSeparated]
  · obtain ⟨s₂, hbracket, hscan⟩ := Option.map_eq_some_iff.1 hscan
    cases hscan
    refine ⟨[e], List.cons_ne_nil _ _, List.forall_mem_singleton.2 hwrites, rfl, ?_⟩
    rw [he, eq_cons_of_after hbracket]
    rfl

/-- **The scanner has read what the grammar writes**, by induction on its calls. -/
theorem scans (fuel : ℕ) : Scans fuel := by
  induction fuel with
  | zero =>
    refine ⟨fun h => ?_, fun h => ?_, fun h => ?_⟩
    · rw [JsonText.scanOnce] at h
      cases h
    · rw [JsonText.scanMembers] at h
      cases h
    · rw [JsonText.scanElements] at h
      cases h
  | succ fuel ih => exact ⟨ih.scanOnce, ih.scanMembers, ih.scanElements⟩

end Calls

/-- **The decoder** returns a value exactly for the documents that write it. -/
theorem decode_eq_some_iff {t : Text} {v : Json} : decode t = some v ↔ Document t v := by
  refine ⟨fun h => ?_, decode_of_document⟩
  obtain ⟨⟨v', rest⟩, hscan, h⟩ := Option.bind_eq_some_iff.1 h
  dsimp only at h
  split_ifs at h with hrest
  cases h
  obtain ⟨before, hbefore⟩ := exists_gap t
  obtain ⟨core, hcore, hwrites⟩ := (scans _).once hscan
  obtain ⟨after, hafter⟩ := exists_gap rest
  rw [hrest, List.append_nil] at hafter
  exact ⟨before, core, after, hwrites, by rw [hbefore, hcore, hafter]⟩

/-- **`json.loads`** of a string returns a value exactly for the documents that write it. -/
theorem loads_eq_some_iff {t : Text} {v : Json} : loads t = some v ↔ Document t v := by
  refine ⟨fun h => ?_, loads_of_document⟩
  rw [loads] at h
  split_ifs at h
  exact decode_eq_some_iff.1 h

end Tokenweir.JsonText
