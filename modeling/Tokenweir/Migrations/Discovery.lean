import Tokenweir.Lib.Except
import Tokenweir.Migrations.Resumption

/-!
# Discovery

Which directories `discover` accepts, whatever the order in which their files are listed, and
what it then returns.

* `sqlFiles`, `byName`; `WellNamed`, `migration`; `discover_eq_ok`;
* `discover_perm`, the order of the listing does not matter;
* `version_le`, names in ASCII digits are in the order of their versions; `discover_accepts`.
-/

namespace Tokenweir.Migrations

/-! ### What is discovered -/

/-- The files whose names end in `.sql`. -/
def sqlFiles (entries : List (Text × Text)) : List (Text × Text) :=
  entries.filter fun entry => (Text.of ".sql").isSuffixOf entry.1

/-- The files in the order of their names. -/
def byName (entries : List (Text × Text)) : List (Text × Text) :=
  entries.insertionSort fun x y => Text.le x.1 y.1

/-- The name of a file is that of a migration. -/
def WellNamed (u : Characters) (entry : Text × Text) : Prop :=
  (matchFilename u entry.1).isSome = true

instance (u : Characters) (entry : Text × Text) : Decidable (WellNamed u entry) :=
  inferInstanceAs (Decidable (_ = true))

/-- The migration of a file, if it is one. -/
def migration (u : Characters) (entry : Text × Text) : Migration :=
  match matchFilename u entry.1 with
  | some (version, name) => ⟨version, name, entry.2⟩
  | none => ⟨0, [], entry.2⟩

/-- The versions are `1`, `2` and so on. -/
def Contiguous (ms : List Migration) : Prop :=
  ms.map Migration.version = (List.range ms.length).map fun n : ℕ => (n + 1 : ℤ)

instance (ms : List Migration) : Decidable (Contiguous ms) := inferInstanceAs (Decidable (_ = _))

variable {u : Characters} {entries entries' : List (Text × Text)} {ms : List Migration}

theorem migrationOf_eq_ok (entry : Text × Text) (m : Migration) :
    migrationOf u entry = .ok m ↔ WellNamed u entry ∧ m = migration u entry := by
  unfold migrationOf WellNamed migration
  rcases matchFilename u entry.1 with _ | ⟨version, name⟩
  · exact iff_of_false (by rintro ⟨⟩) (by rintro ⟨⟨⟩, -⟩)
  · exact ok_eq_ok rfl

/-- Versions that are contiguous are in ascending order. -/
theorem Contiguous.pairwise (h : Contiguous ms) :
    (ms.map Migration.version).Pairwise (· < ·) := by
  rw [h, List.pairwise_map]
  refine List.pairwise_lt_range.imp ?_
  intro m n hlt
  omega

theorem Contiguous.nodup (h : Contiguous ms) : (ms.map Migration.version).Nodup :=
  h.pairwise.imp ne_of_lt

/-- The checks of `discover`, of what was found. -/
def checked (found : List Migration) : Except Error (List Migration) := do
  if found = [] then throw .empty
  let versions := found.map Migration.version
  let duplicates := (versions.filter fun v => 1 < versions.count v).dedup.insertionSort (· ≤ ·)
  if duplicates ≠ [] then throw (.duplicates duplicates)
  if versions ≠ (List.range versions.length).map fun n : ℕ => (n + 1 : ℤ) then throw (.gap versions)
  return found

theorem checked_eq_ok {found : List Migration} :
    checked found = .ok ms ↔ ms = found ∧ ms ≠ [] ∧ Contiguous ms := by
  unfold checked
  by_cases hempty : found = []
  · rw [if_pos hempty]
    refine iff_of_false (by rintro ⟨⟩) ?_
    rintro ⟨rfl, hne, -⟩
    exact hne hempty
  · simp only [if_neg hempty]
    by_cases hcontiguous : Contiguous found
    · have hunique : ((found.map Migration.version).filter fun v =>
          1 < (found.map Migration.version).count v) = [] := by
        refine List.filter_eq_nil_iff.2 fun v _ => ?_
        have := List.nodup_iff_count_le_one.1 hcontiguous.nodup v
        simp only [decide_eq_true_eq]
        omega
      have hversions := hcontiguous
      rw [Contiguous, ← List.length_map Migration.version] at hversions
      simp only [hunique, List.dedup_nil, List.insertionSort_nil, ne_eq, not_true_eq_false,
        if_false, ← hversions]
      refine (ok_eq_ok (hempty : found ≠ [])).trans ⟨?_, fun h => ⟨hempty, h.1⟩⟩
      rintro ⟨-, rfl⟩
      exact ⟨rfl, hempty, hcontiguous⟩
    · refine iff_of_false ?_ (by rintro ⟨rfl, -, h⟩; exact hcontiguous h)
      intro h
      have hgap : found.map Migration.version ≠
          (List.range (found.map Migration.version).length).map fun n : ℕ => (n + 1 : ℤ) := by
        rwa [List.length_map]
      simp only [if_pos hgap] at h
      split_ifs at h
      · cases h
      · cases h

/-- **What `discover` returns**: the migrations of the files in the order of their names, if every
name is one of a migration and the versions are contiguous in this order. -/
theorem discover_eq_ok : discover u entries = .ok ms ↔
    (∀ entry ∈ sqlFiles (byName entries), WellNamed u entry) ∧
      ms = (sqlFiles (byName entries)).map (migration u) ∧ ms ≠ [] ∧ Contiguous ms := by
  have hfound := @mapM_eq_ok Error _ _ (migrationOf u) (migration u) (WellNamed u)
    migrationOf_eq_ok (sqlFiles (byName entries))
  show ((sqlFiles (byName entries)).mapM (migrationOf u) >>= checked) = .ok ms ↔ _
  simp only [bind_eq_ok, checked_eq_ok, hfound]
  constructor
  · rintro ⟨_, ⟨hnamed, rfl⟩, rfl, hne, hcontiguous⟩
    exact ⟨hnamed, rfl, hne, hcontiguous⟩
  · rintro ⟨hnamed, rfl, hne, hcontiguous⟩
    exact ⟨_, ⟨hnamed, rfl⟩, rfl, hne, hcontiguous⟩

/-! ### The order of the listing -/

theorem perm_byName (entries : List (Text × Text)) :
    (sqlFiles (byName entries)).Perm (sqlFiles entries) :=
  (List.perm_insertionSort _ entries).filter _

theorem pairwise_byName (entries : List (Text × Text)) :
    (byName entries).Pairwise fun x y => Text.le x.1 y.1 = true := by
  have : Std.Total fun x y : Text × Text => Text.le x.1 y.1 = true :=
    ⟨fun x y => Text.le_total x.1 y.1⟩
  have : IsTrans (Text × Text) fun x y => Text.le x.1 y.1 = true :=
    ⟨fun _ _ _ => Text.le_trans⟩
  exact List.pairwise_insertionSort _ entries

/-- The files in the order of their names, however they are listed. -/
theorem byName_eq_of_perm (h : entries.Perm entries') (hnodup : (entries.map Prod.fst).Nodup) :
    byName entries = byName entries' := by
  refine List.Perm.eq_of_pairwise ?_ (pairwise_byName entries) (pairwise_byName entries')
    ((List.perm_insertionSort _ _).trans (h.trans (List.perm_insertionSort _ _).symm))
  intro x y hx hy hxy hyx
  refine List.inj_on_of_nodup_map hnodup ((List.perm_insertionSort _ _).mem_iff.1 hx)
    (h.mem_iff.2 ((List.perm_insertionSort _ _).mem_iff.1 hy)) (Text.le_antisymm hxy hyx)

/-- **The order of the listing does not matter**, to what is returned or to the refusal. -/
theorem discover_perm (h : entries.Perm entries') (hnodup : (entries.map Prod.fst).Nodup) :
    discover u entries = discover u entries' := by
  have hbyName := byName_eq_of_perm h hnodup
  unfold byName at hbyName
  unfold discover
  rw [hbyName]

/-! ### The order of the versions -/

/-- The digits of ASCII have their values. -/
def AsciiDigits (u : Characters) : Prop := ∀ c : CodePoint, 48 ≤ c.val → c.val ≤ 57 →
  u.digit c = some (c.val - 48)

/-- A name is numbered in ASCII, if it is numbered. -/
def AsciiNumbered (u : Characters) (name : Text) : Prop :=
  ∀ c ∈ name.take 3, (u.digit c).isSome = true → 48 ≤ c.val ∧ c.val ≤ 57

/-- The number at the front of a name. -/
theorem version_eq {entry : Text × Text} (hnamed : WellNamed u entry) :
    ∃ a b c rest x y z, entry.1 = a :: b :: c :: rest ∧ u.digit a = some x ∧ u.digit b = some y ∧
      u.digit c = some z ∧ (migration u entry).version = ((x * 10 + y) * 10 + z : ℕ) := by
  unfold WellNamed at hnamed
  unfold migration
  rcases hmatch : matchFilename u entry.1 with _ | ⟨version, name⟩
  · rw [hmatch] at hnamed
    cases hnamed
  · unfold matchFilename at hmatch
    split at hmatch
    · rename_i a b c underscore rest hname
      simp only [Option.bind_eq_bind, Option.bind_eq_some_iff] at hmatch
      obtain ⟨x, hx, y, hy, z, hz, hmatch⟩ := hmatch
      split_ifs at hmatch
      obtain ⟨rfl, rfl⟩ := Prod.mk.inj (Option.some.inj hmatch)
      exact ⟨a, b, c, underscore :: rest, x, y, z, hname, hx, hy, hz, rfl⟩
    · cases hmatch

/-- **The order of the names is that of the versions**, if they are written in ASCII. -/
theorem version_le {x y : Text × Text} (hu : AsciiDigits u) (hx : WellNamed u x)
    (hy : WellNamed u y) (hxa : AsciiNumbered u x.1) (hya : AsciiNumbered u y.1)
    (hle : Text.le x.1 y.1 = true) : (migration u x).version ≤ (migration u y).version := by
  obtain ⟨a, b, c, s, va, vb, vc, hs, ha, hb, hc, hv⟩ := version_eq hx
  obtain ⟨a', b', c', t, wa, wb, wc, ht, ha', hb', hc', hw⟩ := version_eq hy
  -- A digit of one of the names is its code point, less 48.
  have hvalue : ∀ {name : Text} {d : CodePoint} {v : ℕ}, AsciiNumbered u name → d ∈ name.take 3 →
      u.digit d = some v → v + 48 = d.val ∧ v ≤ 9 := by
    intro name d v hname hd hv
    obtain ⟨hlow, hhigh⟩ := hname d hd (by rw [hv]; rfl)
    rw [hu d hlow hhigh] at hv
    have := Option.some.inj hv
    omega
  rw [hs] at hxa hle
  rw [ht] at hya hle
  have hva := hvalue hxa (by simp) ha
  have hvb := hvalue hxa (by simp) hb
  have hvc := hvalue hxa (by simp) hc
  have hwa := hvalue hya (by simp) ha'
  have hwb := hvalue hya (by simp) hb'
  have hwc := hvalue hya (by simp) hc'
  simp only [Text.le, Bool.or_eq_true, decide_eq_true_eq, Bool.and_eq_true, beq_iff_eq,
    Fin.lt_def, Fin.ext_iff] at hle
  rw [hv, hw]
  rcases hle with hlt | ⟨heq, hlt | ⟨heq', hlt | ⟨heq'', -⟩⟩⟩ <;> omega

/-- **What `discover` accepts**, of files that are numbered in ASCII, however they are listed: the
`.sql` files are migrations whose versions are contiguous. It returns them in the order of their
versions. -/
theorem discover_accepts (hu : AsciiDigits u)
    (hascii : ∀ entry ∈ sqlFiles entries, AsciiNumbered u entry.1) :
    discover u entries = .ok ms ↔ (∀ entry ∈ sqlFiles entries, WellNamed u entry) ∧
      ms.Perm ((sqlFiles entries).map (migration u)) ∧ ms ≠ [] ∧ Contiguous ms := by
  have hperm := perm_byName entries
  rw [discover_eq_ok]
  constructor
  · rintro ⟨hnamed, rfl, hne, hcontiguous⟩
    exact ⟨fun entry hentry => hnamed entry (hperm.mem_iff.2 hentry), hperm.map _, hne, hcontiguous⟩
  · rintro ⟨hnamed, hms, hne, hcontiguous⟩
    refine ⟨fun entry hentry => hnamed entry (hperm.mem_iff.1 hentry), ?_, hne, hcontiguous⟩
    have hsorted : ((sqlFiles (byName entries)).map (migration u)).Pairwise
        fun m n => m.version ≤ n.version := by
      rw [List.pairwise_map]
      refine ((pairwise_byName entries).filter _).imp_of_mem ?_
      intro x y hx hy hle
      have hx := hperm.mem_iff.1 hx
      have hy := hperm.mem_iff.1 hy
      exact version_le hu (hnamed x hx) (hnamed y hy) (hascii x hx) (hascii y hy) hle
    refine List.Perm.eq_of_pairwise ?_ ?_ hsorted (hms.trans (hperm.map _).symm)
    · intro m n hm hn hmn hnm
      exact List.inj_on_of_nodup_map hcontiguous.nodup hm
        ((hms.trans (hperm.map _).symm).mem_iff.2 hn) (Int.le_antisymm hmn hnm)
    · exact (List.pairwise_map.1 hcontiguous.pairwise).imp le_of_lt

/-! ### Two files -/

/-- Two migrations, in another order, beside a file that is none. -/
def listedFiles : List (Text × Text) :=
  twoFiles.reverse ++ [(Text.of "README.md", [])]

theorem asciiDigits_asciiCharacters : AsciiDigits asciiCharacters := by
  intro c hlow hhigh
  exact if_pos ⟨hlow, hhigh⟩

theorem discover_accepts_listed : ∃ ms, discover asciiCharacters listedFiles = .ok ms ∧
    ms.map Migration.version = [1, 2] := by
  refine ⟨[migration asciiCharacters (Text.of "001_a.sql", Text.of "CREATE TABLE a ();"),
    migration asciiCharacters (Text.of "002_b.sql", Text.of "CREATE TABLE b ();")], ?_, ?_⟩
  · refine (discover_accepts asciiDigits_asciiCharacters ?_).2 ⟨?_, ?_, ?_, ?_⟩
    · intro entry _ c _ hc
      by_contra hnot
      rw [show asciiCharacters.digit c = none from if_neg hnot] at hc
      cases hc
    · decide +kernel
    · decide +kernel
    · exact List.cons_ne_nil _ _
    · decide +kernel
  · decide +kernel

end Tokenweir.Migrations
