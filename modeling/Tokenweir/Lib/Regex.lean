import Tokenweir.Lib.Text

/-!
# Regular expressions

Patterns as a backtracking matcher tries them: the results of a pattern at a place are a
list, in the order in which they are tried, and a match is the first of them.

* `Regex`, `Regex.results`, `Regex.matchAt`;
* `Regex.word`, a literal in either case; `Regex.plus`, `Regex.opt`;
* `Reads`, the texts a pattern without groups can read; `mem_results_seq`, `mem_results_group`, the
  places a pattern can lead to.
-/

namespace Tokenweir

/-- A pattern. -/
inductive Regex
  | empty
  | one (p : CodePoint → Bool)
  | seq (r s : Regex)
  | alt (r s : Regex)
  | many (greedy : Bool) (r : Regex)
  | group (n : ℕ) (r : Regex)
  | finish

namespace Regex

/-- What is left to read, and what the groups hold. -/
structure Place where
  rest : Text
  groups : List (ℕ × Text)
  deriving DecidableEq

/-- What the group holds; nothing if it took no part in the match. -/
def Place.group (p : Place) (n : ℕ) : Option Text := p.groups.lookup n

/-- Repetition; a round that reads nothing ends it. -/
def repeated (greedy : Bool) (round : Place → List Place) : ℕ → Place → List Place
  | 0, p => [p]
  | n + 1, p =>
    let more := ((round p).filter fun q => q.rest.length < p.rest.length).flatMap
      (repeated greedy round n)
    if greedy then more ++ [p] else p :: more

/-- The places a pattern can lead to, the first one tried first. -/
def results : Regex → Place → List Place
  | empty, p => [p]
  | one c, p =>
    match p.rest with
    | [] => []
    | d :: rest => if c d then [{ p with rest }] else []
  | seq r s, p => (results r p).flatMap (results s)
  | alt r s, p => results r p ++ results s p
  | many greedy r, p => repeated greedy (results r) p.rest.length p
  | group n r, p =>
    (results r p).map fun q =>
      { q with groups := (n, p.rest.take (p.rest.length - q.rest.length)) :: q.groups }
  | finish, p => if p.rest = [] ∨ p.rest = Text.of "\n" then [p] else []

/-- `re.match`: the first match at the beginning. -/
def matchAt (r : Regex) (s : Text) : Option Place := (results r ⟨s, []⟩).head?

/-! ### Shorthands -/

/-- Two code points that differ at most in case, as `re.IGNORECASE` sees them. -/
def sameLetter (c d : CodePoint) : Bool :=
  let lower (c : CodePoint) : ℕ := if 65 ≤ c.val ∧ c.val ≤ 90 then c.val + 32 else c.val
  lower c == lower d ||
    [(105, 0x130), (105, 0x131), (115, 0x17f), (107, 0x212a)].any fun p =>
      (lower c == p.1 && d.val == p.2) || (lower d == p.1 && c.val == p.2)

/-- A literal, in either case. -/
def word (s : String) : Regex :=
  (Text.of s).foldr (fun c r => seq (one (sameLetter c)) r) empty

/-- All of these, one after the other. -/
def all (rs : List Regex) : Regex := rs.foldr seq empty

/-- `r+`. -/
def plus (r : Regex) : Regex := seq r (many true r)

/-- `r?`. -/
def opt (r : Regex) : Regex := alt r empty

/-- `\s+`. -/
def spaces : Regex := plus (one Text.isSpace)

/-- A code point that is this one. -/
def char (c : Char) : Regex := one (· == CodePoint.of c)

/-- A literal. -/
def literal (s : Text) : Regex := s.foldr (fun c r => seq (one (· == c)) r) empty

/-- One of some patterns, the first one tried first; there is one at least. -/
def anyOf (r : Regex) (rs : List Regex) : Regex := rs.foldl alt r

example : (matchAt (all [word "on", spaces, group 0 (many false (one fun _ => true)), char ';'])
    (Text.of "ON a;b;")).bind (Place.group · 0) = some (Text.of "a") := by decide +kernel

/-! ### The places a pattern can lead to -/

section Results

variable {r s : Regex} {p q : Place}

theorem Place.eq_of (hrest : q.rest = p.rest) (hgroups : q.groups = p.groups) : q = p := by
  cases p
  cases q
  exact congrArg₂ Place.mk hrest hgroups

theorem mem_results_seq : q ∈ results (seq r s) p ↔ ∃ o ∈ results r p, q ∈ results s o :=
  List.mem_flatMap

theorem mem_results_finish :
    q ∈ results finish p ↔ q = p ∧ (p.rest = [] ∨ p.rest = Text.of "\n") := by
  simp only [results]
  split
  · rename_i h
    simp [h]
  · rename_i h
    simp [h]

/-- The pattern, which has no groups, can read the texts with this property. -/
def Reads (r : Regex) (P : Text → Prop) : Prop :=
  ∀ p q, q ∈ results r p ↔ ∃ u, P u ∧ p.rest = u ++ q.rest ∧ q.groups = p.groups

theorem reads_empty : Reads empty (· = []) := by
  intro p q
  rw [results, List.mem_singleton]
  constructor
  · rintro rfl
    exact ⟨[], rfl, rfl, rfl⟩
  · rintro ⟨_, rfl, hrest, hgroups⟩
    exact Place.eq_of hrest.symm hgroups

theorem reads_one (c : CodePoint → Bool) : Reads (one c) fun u => ∃ d, c d = true ∧ u = [d] := by
  rintro ⟨rest, groups⟩ ⟨rest', groups'⟩
  cases rest with
  | nil =>
    refine iff_of_false List.not_mem_nil ?_
    rintro ⟨_, ⟨d, -, rfl⟩, hrest, -⟩
    cases hrest
  | cons d rest =>
    simp only [results]
    split
    · rename_i hd
      rw [List.mem_singleton]
      constructor
      · rintro ⟨⟩
        exact ⟨[d], ⟨d, hd, rfl⟩, rfl, rfl⟩
      · rintro ⟨_, ⟨_, -, rfl⟩, ⟨⟩, ⟨⟩⟩
        rfl
    · rename_i hd
      refine iff_of_false List.not_mem_nil ?_
      rintro ⟨_, ⟨_, hd', rfl⟩, ⟨⟩, -⟩
      exact hd hd'

theorem Reads.seq {P Q : Text → Prop} (hr : Reads r P) (hs : Reads s Q) :
    Reads (r.seq s) fun w => ∃ u v, P u ∧ Q v ∧ w = u ++ v := by
  intro p q
  rw [mem_results_seq]
  constructor
  · rintro ⟨o, ho, hq⟩
    obtain ⟨u, hu, hrest, hgroups⟩ := (hr p o).1 ho
    obtain ⟨v, hv, hrest', hgroups'⟩ := (hs o q).1 hq
    refine ⟨u ++ v, ⟨u, v, hu, hv, rfl⟩, ?_, hgroups'.trans hgroups⟩
    rw [hrest, hrest', List.append_assoc]
  · rintro ⟨_, ⟨u, v, hu, hv, rfl⟩, hrest, hgroups⟩
    rw [List.append_assoc] at hrest
    exact ⟨⟨v ++ q.rest, p.groups⟩, (hr _ _).2 ⟨u, hu, hrest, rfl⟩,
      (hs _ _).2 ⟨v, hv, rfl, hgroups⟩⟩

theorem Reads.alt {P Q : Text → Prop} (hr : Reads r P) (hs : Reads s Q) :
    Reads (r.alt s) fun u => P u ∨ Q u := by
  intro p q
  rw [results, List.mem_append, hr, hs, ← exists_or]
  exact exists_congr fun u => or_and_right.symm

/-- What a repetition can read of one code point after the other. -/
theorem mem_repeated_one {c : CodePoint → Bool} {greedy : Bool} {n : ℕ} (h : p.rest.length ≤ n) :
    q ∈ repeated greedy (results (one c)) n p ↔
      ∃ u : Text, u.all c = true ∧ p.rest = u ++ q.rest ∧ q.groups = p.groups := by
  induction n generalizing p with
  | zero =>
    have hnil : p.rest = [] := List.length_eq_zero_iff.1 (Nat.le_zero.1 h)
    show q ∈ [p] ↔ _
    rw [List.mem_singleton]
    constructor
    · rintro rfl
      exact ⟨[], rfl, rfl, rfl⟩
    · rintro ⟨u, -, hu, hgroups⟩
      rw [hnil] at hu
      exact Place.eq_of (hnil.trans (List.append_eq_nil_iff.1 hu.symm).2.symm).symm hgroups
  | succ n ih =>
    have hmore : q ∈ ((results (one c) p).filter fun o => o.rest.length < p.rest.length).flatMap
        (repeated greedy (results (one c)) n) ↔
        ∃ u : Text, u ≠ [] ∧ u.all c = true ∧ p.rest = u ++ q.rest ∧ q.groups = p.groups := by
      rw [List.mem_flatMap]
      constructor
      · rintro ⟨o, ho, hq⟩
        obtain ⟨_, ⟨d, hc, rfl⟩, hd, hgroups⟩ := (reads_one c p o).1 (List.mem_of_mem_filter ho)
        rw [hd, List.singleton_append, List.length_cons] at h
        obtain ⟨u, hall, hu, hgroups'⟩ := (ih (by omega)).1 hq
        refine ⟨d :: u, List.cons_ne_nil d u, ?_, ?_, hgroups'.trans hgroups⟩
        · rw [List.all_cons, hc, hall]
          rfl
        · rw [hd, hu, List.singleton_append, List.cons_append]
      · rintro ⟨u, hne, hall, hu, hgroups⟩
        obtain ⟨d, u, rfl⟩ := List.exists_cons_of_ne_nil hne
        rw [List.all_cons, Bool.and_eq_true] at hall
        rw [hu, List.cons_append, List.length_cons] at h
        refine ⟨⟨u ++ q.rest, p.groups⟩, List.mem_filter.2 ⟨?_, ?_⟩, ?_⟩
        · exact (reads_one c _ _).2 ⟨[d], ⟨d, hall.1, rfl⟩, hu, rfl⟩
        · simp [hu]
        · exact (ih (by simpa using h)).2 ⟨u, hall.2, rfl, hgroups⟩
    have hboth : q ∈ repeated greedy (results (one c)) (n + 1) p ↔
        q ∈ ((results (one c) p).filter fun o => o.rest.length < p.rest.length).flatMap
          (repeated greedy (results (one c)) n) ∨ q = p := by
      simp only [repeated]
      cases greedy
      · exact List.mem_cons.trans or_comm
      · exact List.mem_append.trans (or_congr_right List.mem_singleton)
    rw [hboth, hmore]
    constructor
    · rintro (⟨u, -, hu⟩ | rfl)
      · exact ⟨u, hu⟩
      · exact ⟨[], rfl, rfl, rfl⟩
    · rintro ⟨u, hall, hu, hgroups⟩
      by_cases hne : u = []
      · rw [hne, List.nil_append] at hu
        exact .inr (Place.eq_of hu.symm hgroups)
      · exact .inl ⟨u, hne, hall, hu, hgroups⟩

theorem reads_many (greedy : Bool) (c : CodePoint → Bool) :
    Reads (many greedy (one c)) fun u => u.all c = true :=
  fun _ _ => mem_repeated_one le_rfl

theorem reads_plus (c : CodePoint → Bool) :
    Reads (plus (one c)) fun u => u ≠ [] ∧ u.all c = true := by
  intro p q
  rw [plus, (reads_one c).seq (reads_many true c)]
  refine exists_congr fun u => and_congr_left fun _ => ?_
  constructor
  · rintro ⟨_, u, ⟨d, hd, rfl⟩, hu, rfl⟩
    refine ⟨List.cons_ne_nil d u, ?_⟩
    rw [List.singleton_append, List.all_cons, hd, hu]
    rfl
  · rintro ⟨hne, hall⟩
    obtain ⟨d, u, rfl⟩ := List.exists_cons_of_ne_nil hne
    rw [List.all_cons, Bool.and_eq_true] at hall
    exact ⟨[d], u, ⟨d, hall.1, rfl⟩, hall.2, rfl⟩

theorem reads_opt {P : Text → Prop} (h : Reads r P) : Reads (opt r) fun u => P u ∨ u = [] :=
  h.alt reads_empty

theorem reads_char (c : Char) : Reads (char c) (· = [CodePoint.of c]) := by
  intro p q
  rw [char, reads_one]
  refine exists_congr fun u => and_congr_left fun _ => ?_
  constructor
  · rintro ⟨d, hd, rfl⟩
    rw [beq_iff_eq.1 hd]
  · rintro rfl
    exact ⟨_, beq_self_eq_true _, rfl⟩

theorem reads_literal (t : Text) : Reads (literal t) (· = t) := by
  induction t with
  | nil => exact reads_empty
  | cons c t ih =>
    intro p q
    show q ∈ results ((one (· == c)).seq (literal t)) p ↔ _
    rw [(reads_one (· == c)).seq ih]
    refine exists_congr fun u => and_congr_left fun _ => ?_
    constructor
    · rintro ⟨_, _, ⟨d, hd, rfl⟩, rfl, rfl⟩
      rw [beq_iff_eq.1 hd]
      rfl
    · rintro rfl
      exact ⟨[c], t, ⟨c, beq_self_eq_true c, rfl⟩, rfl, rfl⟩

theorem reads_word (w : String) :
    Reads (word w) fun u => List.Forall₂ (fun c d => sameLetter c d = true) (Text.of w) u := by
  rw [word]
  induction Text.of w with
  | nil =>
    intro p q
    rw [List.foldr_nil, reads_empty]
    exact exists_congr fun u => and_congr_left fun _ => List.forall₂_nil_left_iff.symm
  | cons c t ih =>
    intro p q
    rw [List.foldr_cons, (reads_one (sameLetter c)).seq ih]
    refine exists_congr fun u => and_congr_left fun _ => Iff.trans ?_ List.forall₂_cons_left_iff.symm
    constructor
    · rintro ⟨_, v, ⟨d, hd, rfl⟩, hv, rfl⟩
      exact ⟨d, v, hd, hv, rfl⟩
    · rintro ⟨d, v, hd, hv, rfl⟩
      exact ⟨[d], v, ⟨d, hd, rfl⟩, hv, rfl⟩

/-- A group holds what its pattern has read. -/
theorem mem_results_group {P : Text → Prop} (h : Reads r P) {n : ℕ} :
    q ∈ results (group n r) p ↔
      ∃ u, P u ∧ p.rest = u ++ q.rest ∧ q.groups = (n, u) :: p.groups := by
  have htake : ∀ {t u rest : Text}, t = u ++ rest → t.take (t.length - rest.length) = u := by
    rintro _ u rest rfl
    rw [List.length_append, Nat.add_sub_cancel, List.take_left]
  simp only [results, List.mem_map]
  constructor
  · rintro ⟨o, ho, rfl⟩
    obtain ⟨u, hu, hrest, hgroups⟩ := (h p o).1 ho
    refine ⟨u, hu, hrest, ?_⟩
    dsimp only
    rw [htake hrest, hgroups]
  · rintro ⟨u, hu, hrest, hgroups⟩
    refine ⟨⟨q.rest, p.groups⟩, (h _ _).2 ⟨u, hu, hrest, rfl⟩, ?_⟩
    rw [htake hrest]
    apply Place.eq_of
    · rfl
    · exact hgroups.symm

theorem mem_of_matchAt {t : Text} (h : matchAt r t = some q) : q ∈ results r ⟨t, []⟩ :=
  List.mem_of_mem_head? h

/-- A pattern that can lead somewhere matches. -/
theorem exists_matchAt {t : Text} (h : q ∈ results r ⟨t, []⟩) : ∃ o, matchAt r t = some o := by
  rw [matchAt]
  cases hresults : results r ⟨t, []⟩ with
  | nil =>
    rw [hresults] at h
    exact absurd h List.not_mem_nil
  | cons o os => exact ⟨o, rfl⟩

end Results

end Regex

end Tokenweir
