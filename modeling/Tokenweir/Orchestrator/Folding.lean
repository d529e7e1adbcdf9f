import Tokenweir.Orchestrator.Phase

/-!
# Folded texts

What `_collapse` makes of a text, and that folding and the lower case get along.

* `Single`, `Tidy`: blanks are the only white space, no two follow each other, and none is at an
  end;
* `tidy_collapse`, `collapse_eq_self`, `collapse_collapse`; `collapse_eq_nil`;
* `tidy_lower`.
-/

namespace Tokenweir.Orchestrator

/-- Not two blanks. -/
def NotBoth (c d : CodePoint) : Prop := ¬(Text.isSpace c = true ∧ Text.isSpace d = true)

/-- Blanks are the only white space, and no two follow each other. -/
structure Single (t : Text) : Prop where
  blank : ∀ c ∈ t, Text.isSpace c = true → c = blank
  chain : t.IsChain NotBoth

/-- White space at no end. -/
structure Tidy (t : Text) : Prop extends Single t where
  head : ∀ c ∈ t.head?, Text.isSpace c = false
  last : ∀ c ∈ t.getLast?, Text.isSpace c = false

/-- A character that is folded, or white space. -/
def isSeparator (c : CodePoint) : Bool := Text.isSpace (foldSeparator c)

theorem isSpace_blank : Text.isSpace blank = true := by decide

/-! ### Runs of white space -/

theorem single_squeeze (inRun : Bool) (s : Text) :
    Single (squeeze inRun s) ∧
      (inRun = true → ∀ c ∈ (squeeze inRun s).head?, Text.isSpace c = false) := by
  induction s generalizing inRun with
  | nil => exact ⟨⟨fun _ h => absurd h List.not_mem_nil, List.isChain_nil⟩, fun _ _ h => nomatch h⟩
  | cons c s ih =>
    have hblank : ∀ {t : Text}, Single t → (∀ d ∈ t.head?, Text.isSpace d = false) →
        Single (blank :: t) := by
      intro t ht hhead
      refine ⟨?_, ?_⟩
      · intro d hd
        rcases List.mem_cons.1 hd with rfl | hd
        · exact fun _ => rfl
        · exact ht.blank d hd
      · refine List.isChain_cons.2 ⟨fun d hd h => ?_, ht.chain⟩
        rw [hhead d hd] at h
        exact absurd h.2 (by decide)
    unfold squeeze
    split_ifs with hspace hrun
    · exact ⟨(ih true).1, fun _ => (ih true).2 rfl⟩
    · refine ⟨hblank (ih true).1 ((ih true).2 rfl), fun h => ?_⟩
      exact absurd h hrun
    · have hsolid : Text.isSpace c = false := by simpa using hspace
      refine ⟨⟨?_, ?_⟩, ?_⟩
      · intro d hd hd'
        rcases List.mem_cons.1 hd with rfl | hd
        · exact absurd hd' hspace
        · exact (ih false).1.blank d hd hd'
      · exact List.isChain_cons.2 ⟨fun d _ h => hspace h.1, (ih false).1.chain⟩
      · rintro - _ ⟨⟩
        exact hsolid

theorem squeeze_eq_self {t : Text} (h : Single t) : squeeze false t = t := by
  have hboth : (squeeze false t = t) ∧ ((∀ c ∈ t.head?, Text.isSpace c = false) →
      squeeze true t = t) := by
    induction t with
    | nil => exact ⟨rfl, fun _ => rfl⟩
    | cons c t ih =>
      have hchain := List.isChain_cons.1 h.chain
      have ht : Single t := ⟨fun d hd => h.blank d (List.mem_cons_of_mem c hd), hchain.2⟩
      by_cases hspace : Text.isSpace c = true
      · have hhead : ∀ d ∈ t.head?, Text.isSpace d = false := by
          intro d hd
          have hnot := hchain.1 d hd
          simpa using fun hd' => hnot ⟨hspace, hd'⟩
        refine ⟨?_, fun hc => ?_⟩
        · rw [squeeze, if_pos hspace, if_neg (by decide), (ih ht).2 hhead,
            h.blank c List.mem_cons_self hspace]
        · rw [hc c rfl] at hspace
          cases hspace
      · rw [squeeze, if_neg hspace, squeeze, if_neg hspace, (ih ht).1]
        exact ⟨rfl, fun _ => rfl⟩
  exact hboth.1

/-! ### Ends -/

theorem single_infix {s t : Text} (h : Single t) (hs : s <:+: t) : Single s :=
  ⟨fun c hc => h.blank c (hs.subset hc), h.chain.infix hs⟩

theorem strip_eq_nil {t : Text} : t.strip = [] ↔ ∀ c ∈ t, Text.isSpace c = true := by
  rw [Text.strip, List.rdropWhile_eq_nil_iff]
  constructor
  · intro h c hc
    rw [← List.takeWhile_append_dropWhile (p := Text.isSpace) (l := t)] at hc
    rcases List.mem_append.1 hc with hc | hc
    · exact List.mem_takeWhile_imp hc
    · exact h c hc
  · exact fun h c hc => h c ((List.dropWhile_suffix _).subset hc)

/-! ### Folding -/

theorem tidy_collapse (v : Text) : Tidy (collapse v) where
  toSingle := single_infix (single_squeeze false _).1 (Text.strip_within _)
  head := (Text.strip_ends _).1
  last := (Text.strip_ends _).2

theorem mem_squeeze {inRun : Bool} {s : Text} {c : CodePoint} (h : c ∈ squeeze inRun s) :
    c = blank ∨ c ∈ s := by
  induction s generalizing inRun with
  | nil => exact absurd h List.not_mem_nil
  | cons d s ih =>
    unfold squeeze at h
    split_ifs at h
    · exact (ih h).imp_right (List.mem_cons_of_mem d)
    · rcases List.mem_cons.1 h with rfl | h
      · exact .inl rfl
      · exact (ih h).imp_right (List.mem_cons_of_mem d)
    · rcases List.mem_cons.1 h with rfl | h
      · exact .inr List.mem_cons_self
      · exact (ih h).imp_right (List.mem_cons_of_mem d)

theorem foldSeparator_idem (c : CodePoint) : foldSeparator (foldSeparator c) = foldSeparator c := by
  by_cases h : c = CodePoint.of '_' ∨ c = CodePoint.of '#'
  · rw [foldSeparator, foldSeparator, if_pos h]
    decide
  · have hc : foldSeparator c = c := if_neg h
    rw [hc, hc]

/-- Nothing is left to be folded. -/
theorem foldSeparator_of_mem {v : Text} {c : CodePoint} (h : c ∈ collapse v) :
    foldSeparator c = c := by
  rcases mem_squeeze ((Text.strip_within _).subset h) with rfl | h
  · decide
  · obtain ⟨d, -, rfl⟩ := List.mem_map.1 h
    exact foldSeparator_idem d

theorem collapse_eq_self {t : Text} (h : Tidy t) (hfold : ∀ c ∈ t, foldSeparator c = c) :
    collapse t = t := by
  rw [collapse, List.map_congr_left hfold, List.map_id', squeeze_eq_self h.toSingle]
  exact Text.strip_of_ends h.head h.last

/-- **Folding** is done once. -/
theorem collapse_collapse (v : Text) : collapse (collapse v) = collapse v :=
  collapse_eq_self (tidy_collapse v) fun _ => foldSeparator_of_mem

theorem squeeze_solid {inRun : Bool} {s : Text} :
    (∀ c ∈ squeeze inRun s, Text.isSpace c = true) ↔ ∀ c ∈ s, Text.isSpace c = true := by
  induction s generalizing inRun with
  | nil => exact Iff.rfl
  | cons c s ih =>
    unfold squeeze
    split_ifs with hspace hrun
    · rw [ih, List.forall_mem_cons]
      exact (and_iff_right hspace).symm
    · rw [List.forall_mem_cons, List.forall_mem_cons, ih]
      exact and_congr_left' (iff_of_true isSpace_blank hspace)
    · rw [List.forall_mem_cons, List.forall_mem_cons, ih]

theorem collapse_eq_nil {v : Text} : collapse v = [] ↔ ∀ c ∈ v, isSeparator c = true := by
  rw [collapse, strip_eq_nil, squeeze_solid, List.forall_mem_map]
  rfl

/-! ### Lower case -/

section Lower

variable {u : Unicode}

/-- The lower case of a blank is a blank, and no other one has white space. -/
theorem lowerAt_spec {c : CodePoint} (hblank : Text.isSpace c = true → c = blank)
    (before after : Text) :
    (∀ d ∈ u.lowerAt before c after, Text.isSpace d = true → Text.isSpace c = true ∧ d = blank) ∧
      (u.lowerAt before c after).IsChain NotBoth := by
  cases hc : Text.isSpace c with
  | true =>
    have hlower : u.lowerAt before c after = [blank] := by
      rw [hblank hc, u.lowerAt_ascii _ _ _ (by decide)]
      decide
    rw [hlower]
    exact ⟨fun d hd _ => ⟨rfl, List.mem_singleton.1 hd⟩, List.isChain_singleton _⟩
  | false =>
    have hsolid := u.lowerAt_solid before c after hc
    refine ⟨fun d hd hspace => ?_, List.Pairwise.isChain ?_⟩
    · rw [hsolid d hd] at hspace
      cases hspace
    · refine List.pairwise_of_forall_mem_list fun d hd _ _ hboth => ?_
      rw [hsolid d hd] at hboth
      cases hboth.1

theorem lowerFrom_eq_nil {before s : Text} (h : u.lowerFrom before s = []) : s = [] := by
  cases s with
  | nil => rfl
  | cons c s => exact absurd (List.append_eq_nil_iff.1 h).1 (u.lowerAt_ne before c s)

/-- The lower case has white space where the text has some. -/
theorem single_lowerFrom {s : Text} (h : Single s) (before : Text) :
    Single (u.lowerFrom before s) ∧
      (∀ d ∈ (u.lowerFrom before s).head?, Text.isSpace d = true →
        ∀ c ∈ s.head?, Text.isSpace c = true) ∧
      ∀ d ∈ (u.lowerFrom before s).getLast?, Text.isSpace d = true →
        ∀ c ∈ s.getLast?, Text.isSpace c = true := by
  induction s generalizing before with
  | nil =>
    refine ⟨⟨fun _ hc => absurd hc List.not_mem_nil, List.isChain_nil⟩, ?_, ?_⟩
    · rintro _ ⟨⟩
    · rintro _ ⟨⟩
  | cons c s ih =>
    have hchain := List.isChain_cons.1 h.chain
    obtain ⟨hsingle, hhead, hlast⟩ :=
      ih ⟨fun d hd => h.blank d (List.mem_cons_of_mem c hd), hchain.2⟩ (before ++ [c])
    obtain ⟨hspace, hat⟩ := lowerAt_spec (u := u) (h.blank c List.mem_cons_self) before s
    rw [Unicode.lowerFrom]
    refine ⟨⟨?_, List.isChain_append.2 ⟨hat, hsingle.chain, ?_⟩⟩, ?_, ?_⟩
    · intro d hd hd'
      rcases List.mem_append.1 hd with hd | hd
      · exact (hspace d hd hd').2
      · exact hsingle.blank d hd hd'
    · -- two neighbours stand for two neighbours
      intro d hd e he hboth
      have hc := (hspace d (List.mem_of_getLast? hd) hboth.1).1
      cases s with
      | nil => cases he
      | cons c' s => exact hchain.1 c' rfl ⟨hc, hhead e he hboth.2 c' rfl⟩
    · rintro d hd hd' _ ⟨⟩
      obtain ⟨e, l, hl⟩ := List.exists_cons_of_ne_nil (u.lowerAt_ne before c s)
      rw [hl] at hd
      obtain rfl := Option.some.inj hd
      exact (hspace e (by rw [hl]; exact List.mem_cons_self) hd').1
    · intro d hd hd' c' hc'
      rw [List.getLast?_append] at hd
      cases hrest : (u.lowerFrom (before ++ [c]) s).getLast? with
      | none =>
        obtain rfl := lowerFrom_eq_nil (List.getLast?_eq_none_iff.1 hrest)
        obtain rfl := Option.some.inj hc'
        rw [hrest, Option.none_or] at hd
        exact (hspace d (List.mem_of_getLast? hd) hd').1
      | some e =>
        rw [hrest, Option.some_or] at hd
        obtain rfl := Option.some.inj hd
        cases s with
        | nil => cases hrest
        | cons c'' s =>
          rw [List.getLast?_cons_cons] at hc'
          exact hlast e hrest hd' c' hc'

/-- **The lower case of a tidy text** is tidy. -/
theorem tidy_lower {t : Text} (h : Tidy t) : Tidy (u.lower t) := by
  obtain ⟨hsingle, hhead, hlast⟩ := single_lowerFrom (u := u) h.toSingle []
  refine ⟨hsingle, fun d hd => ?_, fun d hd => ?_⟩
  · rw [Bool.eq_false_iff]
    intro hspace
    cases t with
    | nil => cases hd
    | cons c t =>
      have hc := hhead d hd hspace c rfl
      rw [h.head c rfl] at hc
      cases hc
  · rw [Bool.eq_false_iff]
    intro hspace
    cases hc : t.getLast? with
    | none =>
      rw [List.getLast?_eq_none_iff] at hc
      subst hc
      cases hd
    | some c =>
      have hcspace := hlast d hd hspace c hc
      rw [h.last c hc] at hcspace
      cases hcspace

end Lower

end Tokenweir.Orchestrator
